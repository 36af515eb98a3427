import Mathlib.Data.List.Basic
import Mathlib.Data.List.Nodup

/-! Two ways of bounding a sequence of entries: a stack that keeps its newest entries
only, and a list that keeps one entry for each key. -/

namespace Recent

section Stack

variable {α : Type*} {n : Nat}

/-- Pushing onto a stack with room for `n` entries. -/
def keep (n : Nat) (s : List α) (a : α) : List α := (a :: s).take n

theorem length_keep (n : Nat) (s : List α) (a : α) : (keep n s a).length ≤ n :=
  List.length_take_le n (a :: s)

theorem take_append_take (a s : List α) : (a ++ s.take n).take n = (a ++ s).take n := by
  rw [List.take_append, List.take_append, List.take_take, Nat.min_eq_left (Nat.sub_le _ _)]

/-- One more push on what a sequence of pushes has left. -/
theorem keep_reverse_take (l : List α) (a : α) : keep n (l.reverse.take n) a = (l ++ [a]).reverse.take n := by
  rw [keep, List.reverse_append, List.reverse_singleton]
  exact take_append_take [a] l.reverse

end Stack

section Coalescing

variable {ε κ : Type*} [DecidableEq κ] {key : ε → κ}

/-- The entry takes the place of the one with its key, or comes last. -/
def put (key : ε → κ) (l : List ε) (e : ε) : List ε :=
  match l with
  | [] => [e]
  | a :: l => if key a = key e then e :: l else a :: put key l e

def gather (key : ε → κ) (l : List ε) : List ε := l.foldl (put key) []

theorem mem_put {l : List ε} {a e : ε} (h : a ∈ put key l e) : a = e ∨ a ∈ l := by
  induction l with
  | nil => exact .inl (List.mem_singleton.mp h)
  | cons b l ih =>
    rw [put] at h
    split at h
    · exact (List.mem_cons.mp h).imp id (List.mem_cons_of_mem b)
    · rcases List.mem_cons.mp h with rfl | h
      · exact .inr List.mem_cons_self
      · exact (ih h).imp id (List.mem_cons_of_mem b)

theorem mem_foldl_put {l acc : List ε} {a : ε} (h : a ∈ l.foldl (put key) acc) : a ∈ l ∨ a ∈ acc := by
  induction l generalizing acc with
  | nil => exact .inr h
  | cons e l ih =>
    rcases ih h with h | h
    · exact .inl (List.mem_cons_of_mem e h)
    · rcases mem_put h with rfl | h
      · exact .inl List.mem_cons_self
      · exact .inr h

theorem mem_of_mem_gather {l : List ε} {a : ε} (h : a ∈ gather key l) : a ∈ l :=
  (mem_foldl_put h).resolve_right List.not_mem_nil

theorem keys_put (l : List ε) (e : ε) :
    (put key l e).map key = if key e ∈ l.map key then l.map key else l.map key ++ [key e] := by
  induction l with
  | nil => simp [put]
  | cons a l ih =>
    by_cases ha : key a = key e
    · simp [put, ha]
    · have ha' : ¬ key e = key a := fun h => ha h.symm
      simp only [put, ha, if_false, List.map_cons, List.mem_cons, ha', false_or, ih]
      split <;> simp

theorem nodup_put {l : List ε} (h : (l.map key).Nodup) (e : ε) : ((put key l e).map key).Nodup := by
  rw [keys_put]
  split
  · exact h
  · rename_i he
    exact List.nodup_append.mpr ⟨h, by simp, by
      intro k hk j hj
      rw [List.mem_singleton.mp hj]
      exact fun hkj => he (hkj ▸ hk)⟩

theorem mem_keys_put {l : List ε} {e : ε} {k : κ} :
    k ∈ (put key l e).map key ↔ k ∈ l.map key ∨ k = key e := by
  rw [keys_put]
  split
  · rename_i he
    constructor
    · exact Or.inl
    · rintro (hk | rfl)
      · exact hk
      · exact he
  · simp only [List.mem_append, List.mem_singleton]

theorem find_put (l : List ε) (e : ε) (k : κ) :
    (put key l e).find? (fun a => key a = k) = if key e = k then some e else l.find? (fun a => key a = k) := by
  induction l with
  | nil => by_cases hk : key e = k <;> simp [put, hk]
  | cons a l ih =>
    by_cases ha : key a = key e
    · by_cases hk : key e = k <;> simp [put, ha, hk]
    · rw [put, if_neg ha]
      by_cases hk : key e = k
      · have hak : ¬ key a = k := fun h => ha (h.trans hk.symm)
        simp [hak, ih, hk]
      · by_cases hak : key a = k <;> simp [hak, ih, hk]

theorem foldl_put_find (l acc : List ε) (k : κ) :
    (l.foldl (put key) acc).find? (fun a => key a = k) =
      (l.reverse.find? (fun a => key a = k)).or (acc.find? (fun a => key a = k)) := by
  induction l generalizing acc with
  | nil => simp
  | cons e l ih =>
    rw [List.foldl_cons, ih, find_put, List.reverse_cons, List.find?_append, Option.or_assoc]
    by_cases hk : key e = k <;> simp [hk]

/-- The entry kept for a key is the last one that was put. -/
theorem find_gather (l : List ε) (k : κ) :
    (gather key l).find? (fun a => key a = k) = l.reverse.find? (fun a => key a = k) := by
  rw [gather, foldl_put_find, List.find?_nil, Option.or_none]

theorem nodup_foldl_put (l : List ε) {acc : List ε} (h : (acc.map key).Nodup) :
    ((l.foldl (put key) acc).map key).Nodup := by
  induction l generalizing acc with
  | nil => exact h
  | cons e l ih => exact ih (nodup_put h e)

theorem nodup_gather (l : List ε) : ((gather key l).map key).Nodup :=
  nodup_foldl_put l List.nodup_nil

theorem mem_keys_foldl_put (l acc : List ε) (k : κ) :
    k ∈ (l.foldl (put key) acc).map key ↔ k ∈ acc.map key ∨ k ∈ l.map key := by
  induction l generalizing acc with
  | nil => simp
  | cons e l ih =>
    rw [List.foldl_cons, ih, mem_keys_put, or_assoc, List.map_cons, List.mem_cons]

theorem mem_keys_gather {l : List ε} {k : κ} : k ∈ (gather key l).map key ↔ k ∈ l.map key := by
  rw [gather, mem_keys_foldl_put]
  simp

/-- With distinct keys an entry is the one found under its key. -/
theorem mem_iff_find {l : List ε} (h : (l.map key).Nodup) {e : ε} :
    e ∈ l ↔ l.find? (fun a => key a = key e) = some e := by
  constructor
  · intro he
    induction l with
    | nil => simp at he
    | cons a l ih =>
      rw [List.map_cons, List.nodup_cons] at h
      rcases List.mem_cons.mp he with rfl | he
      · simp
      · have hae : ¬ key a = key e := fun hk => h.1 (hk ▸ List.mem_map_of_mem he)
        simpa [hae] using ih h.2 he
  · exact List.mem_of_find?_eq_some

end Coalescing

end Recent
