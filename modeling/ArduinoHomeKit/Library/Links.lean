import Mathlib.Logic.Function.Basic
import ArduinoHomeKit.Library.Runs

/-! Singly linked lists in a memory of nodes, and the loop that walks along the links while
the nodes it visits may leave the list. -/

namespace Links

variable {α : Type*} {next next' : α → Option α} {p : Option α} {a b c : α} {l pre post : List α}

/-- The nodes that hang at a pointer. -/
inductive Chain (next : α → Option α) : Option α → List α → Prop
  | nil : Chain next none []
  | cons {a : α} {l : List α} (h : Chain next (next a) l) : Chain next (some a) (a :: l)

/-- Links that agree on the nodes of a chain carry the same chain. -/
theorem Chain.congr (h : Chain next p l) (hn : ∀ a ∈ l, next' a = next a) : Chain next' p l := by
  induction h with
  | nil => exact .nil
  | cons h ih =>
    have ha := hn _ (List.mem_cons_self ..)
    have ih := ih (fun b hb => hn b (List.mem_cons_of_mem _ hb))
    rw [← ha] at ih
    exact .cons ih

theorem Chain.tail (h : Chain next p (pre ++ a :: post)) : Chain next (next a) post := by
  induction pre generalizing p with
  | nil =>
    cases h with
    | cons h => exact h
  | cons b pre ih =>
    cases h with
    | cons h => exact ih h

theorem Chain.head_eq (h : Chain next p l) : p = l.head? := by
  cases h <;> rfl

theorem Chain.next_eq (h : Chain next p (pre ++ a :: b :: post)) : next a = some b := h.tail.head_eq

variable [DecidableEq α]

/-- Behind one of its nodes a chain is replaced by another one. -/
theorem Chain.splice {q : Option α} (h : Chain next p (pre ++ a :: l)) (hq : Chain next q post) (hpre : a ∉ pre)
    (hpost : a ∉ post) : Chain (Function.update next a q) p (pre ++ a :: post) := by
  induction pre generalizing p with
  | nil =>
    cases h with
    | cons h =>
      refine .cons ?_
      rw [Function.update_self]
      exact hq.congr (fun b hb => Function.update_of_ne (ne_of_mem_of_not_mem hb hpost) ..)
  | cons b pre ih =>
    cases h with
    | cons h =>
      have hb : b ≠ a := fun he => hpre (he ▸ List.mem_cons_self ..)
      refine .cons ?_
      rw [Function.update_of_ne hb]
      exact ih h (fun hm => hpre (List.mem_cons_of_mem _ hm))

/-- A pointer to the first node, and the pointer that each node holds. -/
structure Memory (α : Type*) where
  head : Option α
  next : α → Option α

def Memory.Holds (m : Memory α) (l : List α) : Prop := Chain m.next m.head l

def Memory.push (m : Memory α) (a : α) : Memory α where
  head := some a
  next := Function.update m.next a m.head

/-- The node where the search for the predecessor of `a` stops. -/
def seek (next : α → Option α) (a : α) : Nat → α → α
  | 0, c => c
  | fuel + 1, c =>
    match next c with
    | some b => if b = a then c else seek next a fuel b
    | none => c

/-- The head moves on, or the predecessor takes over the link of its successor. -/
def Memory.remove (m : Memory α) (fuel : Nat) (a : α) : Memory α :=
  if m.head = some a then { m with head := m.next a }
  else
    match m.head with
    | none => m
    | some c =>
      let p := seek m.next a fuel c
      match m.next p with
      | some b => { m with next := Function.update m.next p (m.next b) }
      | none => m

theorem Memory.Holds.push {m : Memory α} (h : m.Holds l) (ha : a ∉ l) : (m.push a).Holds (a :: l) := by
  refine .cons ?_
  show Chain (Function.update m.next a m.head) (Function.update m.next a m.head a) l
  rw [Function.update_self]
  exact h.congr (fun b hb => Function.update_of_ne (ne_of_mem_of_not_mem hb ha) ..)

theorem seek_eq {fuel : Nat} (h : Chain next (some c) (pre ++ b :: a :: post)) (ha : a ∉ pre ++ [b])
    (hf : pre.length ≤ fuel) : seek next a fuel c = b := by
  induction pre generalizing c fuel with
  | nil =>
    cases h with
    | cons h =>
      have hc : Chain next (some b) ([] ++ b :: a :: post) := .cons h
      have hn : next b = some a := hc.next_eq
      cases fuel with
      | zero => rfl
      | succ fuel => simp [seek, hn]
  | cons d pre ih =>
    cases h with
    | cons h =>
      cases fuel with
      | zero => simp at hf
      | succ fuel =>
        have hn : next d = (pre ++ b :: a :: post).head? := h.head_eq
        obtain ⟨e, he, hea⟩ : ∃ e, next d = some e ∧ e ≠ a := by
          cases pre with
          | nil => exact ⟨b, hn, fun he => ha (by simp [he])⟩
          | cons e _ => exact ⟨e, hn, fun he => ha (by simp [he])⟩
        simp only [seek, he, hea, if_false]
        refine ih (he ▸ h) (fun hm => ha (List.mem_cons_of_mem _ hm)) ?_
        simpa using hf

/-- A node that leaves keeps its own link, and what hangs at it. -/
theorem Memory.Holds.remove {m : Memory α} {fuel : Nat} (h : m.Holds (pre ++ a :: post)) (hd : (pre ++ a :: post).Nodup)
    (hf : pre.length ≤ fuel) :
    (m.remove fuel a).Holds (pre ++ post) ∧ Chain (m.remove fuel a).next ((m.remove fuel a).next a) post := by
  have htail : Chain m.next (m.next a) post := Chain.tail h
  rcases List.eq_nil_or_concat pre with rfl | ⟨pre, b, rfl⟩
  · have hhead : m.head = some a := Chain.head_eq h
    rw [Memory.remove, if_pos hhead]
    exact ⟨htail, htail⟩
  · simp only [List.concat_eq_append, List.append_assoc, List.singleton_append] at h hd hf ⊢
    have hapre : a ∉ pre ++ [b] := by
      rw [List.nodup_append] at hd
      intro hm
      rcases List.mem_append.mp hm with hm | hm
      · exact hd.2.2 a hm a (by simp) rfl
      · obtain rfl := List.mem_singleton.mp hm
        simp at hd
    have hbpre : b ∉ pre := fun hm => (List.nodup_append.mp hd).2.2 b hm b (by simp) rfl
    have hbpost : b ∉ post := by
      have hb := (List.nodup_cons.mp (List.nodup_append.mp hd).2.1).1
      exact fun hm => hb (List.mem_cons_of_mem _ hm)
    have hfirst : m.head = (pre ++ b :: a :: post).head? := Chain.head_eq h
    obtain ⟨c, hhead, hca⟩ : ∃ c, m.head = some c ∧ c ≠ a := by
      cases pre with
      | nil => exact ⟨b, hfirst, fun he => hapre (by simp [he])⟩
      | cons d pre => exact ⟨d, hfirst, fun he => hapre (by simp [he])⟩
    have hc : Chain m.next (some c) (pre ++ b :: a :: post) := hhead ▸ h
    have hseek : seek m.next a fuel c = b := seek_eq hc hapre (by simp at hf; omega)
    have hnext : m.next b = some a := Chain.next_eq hc
    have hr : m.remove fuel a = { m with next := Function.update m.next b (m.next a) } := by
      simp [Memory.remove, hhead, hca, hseek, hnext]
    have hab : a ≠ b := fun he => hapre (by simp [he])
    rw [hr]
    refine ⟨Chain.splice h htail hbpre hbpost, ?_⟩
    show Chain (Function.update m.next b (m.next a)) (Function.update m.next b (m.next a) a) post
    rw [Function.update_of_ne hab]
    exact htail.congr (fun d hd => Function.update_of_ne (ne_of_mem_of_not_mem hd hbpost) ..)

/-! The loop. -/

section Walk

variable {σ ε : Type*} {visit : σ → α → Except ε σ} {memory : σ → Memory α} {s t : σ}

/-- A visit: the node, the state before and the state after, when the link of the node is read. -/
structure Visit (α σ : Type*) where
  node : α
  before : σ
  after : σ

/-- Each node is visited, and then its link is followed. -/
def walk (visit : σ → α → Except ε σ) (memory : σ → Memory α) :
    Nat → Option α → σ → List (Visit α σ) × Except ε (Option α × σ)
  | 0, p, s => ([], .ok (p, s))
  | _ + 1, none, s => ([], .ok (none, s))
  | fuel + 1, some a, s =>
    match visit s a with
    | .error e => ([], .error e)
    | .ok t =>
      let r := walk visit memory fuel ((memory t).next a) t
      ({ node := a, before := s, after := t } :: r.1, r.2)

/-- The visits of a loop over a list that is fixed beforehand. -/
def trail (visit : σ → α → Except ε σ) : σ → List α → List (Visit α σ)
  | _, [] => []
  | s, a :: l =>
    match visit s a with
    | .error _ => []
    | .ok t => { node := a, before := s, after := t } :: trail visit t l

omit [DecidableEq α] in
/-- If a visit leaves alone what hangs behind its node, the walk is the loop over the list as
it was when the walk began. -/
theorem walk_eq {I : σ → List α → Prop}
    (hvisit : ∀ s a l t, I s (a :: l) → visit s a = .ok t → I t l ∧ Chain (memory t).next ((memory t).next a) l)
    {fuel : Nat} (hs : I s l) (hp : Chain (memory s).next p l) (hf : l.length ≤ fuel) :
    walk visit memory fuel p s = (trail visit s l, (Runs.run visit s l).map (fun t => (none, t))) := by
  induction l generalizing s p fuel with
  | nil =>
    cases hp
    cases fuel <;> rfl
  | cons a l ih =>
    cases hp
    cases fuel with
    | zero => simp at hf
    | succ fuel =>
      simp only [walk, trail, Runs.run]
      cases hv : visit s a with
      | error e => rfl
      | ok t =>
        obtain ⟨ht, hchain⟩ := hvisit s a l t hs hv
        simp only [ih ht hchain (by simpa using hf)]

omit [DecidableEq α] in
theorem trail_nodes (h : Runs.run visit s l = .ok t) : (trail visit s l).map Visit.node = l := by
  induction l generalizing s with
  | nil => rfl
  | cons a l ih =>
    obtain ⟨u, hu, ht⟩ := Runs.run_cons_ok.mp h
    simp only [trail, hu, List.map_cons, ih ht]

omit [DecidableEq α] in
/-- What holds of the state and of the rest of the list at every visit. -/
theorem trail_invariant {I : σ → List α → Prop}
    (hvisit : ∀ s a l t, I s (a :: l) → visit s a = .ok t → I t l) (hs : I s l) {v : Visit α σ}
    (hv : v ∈ trail visit s l) : visit v.before v.node = .ok v.after ∧ ∃ rest, I v.before (v.node :: rest) := by
  induction l generalizing s with
  | nil => cases hv
  | cons a l ih =>
    cases ha : visit s a with
    | error e => simp [trail, ha] at hv
    | ok t =>
      simp only [trail, ha, List.mem_cons] at hv
      rcases hv with rfl | hv
      · exact ⟨ha, l, hs⟩
      · exact ih (hvisit s a l t hs ha) hv

omit [DecidableEq α] in
/-- What holds between the states of every visit holds between the ends of the loop. -/
theorem trail_trans {R : σ → σ → Prop} (hrefl : ∀ s, R s s) (htrans : ∀ s t u, R s t → R t u → R s u)
    (h : Runs.run visit s l = .ok t) (hv : ∀ v ∈ trail visit s l, R v.before v.after) : R s t := by
  induction l generalizing s with
  | nil => exact Except.ok.inj h ▸ hrefl s
  | cons a l ih =>
    obtain ⟨u, hu, ht⟩ := Runs.run_cons_ok.mp h
    simp only [trail, hu, List.mem_cons, forall_eq_or_imp] at hv
    exact htrans s u t hv.1 (ih ht hv.2)

end Walk

end Links
