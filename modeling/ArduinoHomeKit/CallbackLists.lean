import Mathlib.Data.List.Nodup
import Mathlib.Data.Nat.Find
import ArduinoHomeKit.AccessoryBench
import ArduinoHomeKit.Library.Runs

/-! The callbacks of the characteristics as the linked lists they are. The surgery on the lists does
to the entries what the database does, and these are an ordered set. -/

namespace ArduinoHomeKit

/-- A node in memory: homekit_characteristic_change_callback_t with its link. Whether it is a block
that malloc returned differs: in an initial list it may be a literal of the application, or lie
inside the block of a clone. -/
structure CallbackNode where
  callback : Callback
  next : Option Nat
  block : Bool

/-- The nodes that are there, and the pointers `ch->callback`. -/
structure CallbackHeap where
  node : Nat → Option CallbackNode
  callback : CharacteristicId → Option Nat
  finite : ∃ n, ∀ p, n ≤ p → node p = none

namespace CallbackHeap

def update (h : CallbackHeap) (p : Nat) (x : Option CallbackNode) : CallbackHeap where
  node := Function.update h.node p x
  callback := h.callback
  finite := by
    obtain ⟨n, hn⟩ := h.finite
    refine ⟨max n (p + 1), fun q hq => ?_⟩
    rw [Function.update_of_ne (by omega), hn q (by omega)]

/-- Only a block may be freed, and only once. -/
def free (h : CallbackHeap) (p : Nat) : Except Fault CallbackHeap :=
  match h.node p with
  | some x => if x.block then .ok (h.update p none) else .error .invalidFree
  | none => .error .invalidFree

def setCallback (h : CallbackHeap) (ch : CharacteristicId) (p : Option Nat) : CallbackHeap :=
  { h with callback := Function.update h.callback ch p }

/-- What a dereference finds; a node that is freed is not there any more. -/
def deref (h : CallbackHeap) (p : Nat) : Except Fault CallbackNode :=
  match h.node p with
  | none => .error .nullDereference
  | some x => .ok x

/-- The loop of homekit_characteristic_add_notify_callback. -/
def addLoop (h : CallbackHeap) (cb : Callback) (new : Nat) : Nat → Nat → Except Fault CallbackHeap
  | 0, _ => .error .endlessLoop
  | fuel + 1, p => do
    let x ← h.deref p
    match x.next with
    | none => .ok (h.update p (some { x with next := some new }))
    | some q =>
      let y ← h.deref q
      if y.callback = cb then h.free new else addLoop h cb new fuel q

def homekitCharacteristicAddNotifyCallback (malloc : CallbackHeap → Nat) (fuel : Nat) (h : CallbackHeap)
    (ch : CharacteristicId)
    (cb : Callback) : Except Fault CallbackHeap :=
  let new := malloc h
  let h := h.update new (some { callback := cb, next := none, block := true })
  match h.callback ch with
  | none => .ok (h.setCallback ch (some new))
  | some p => do
    let x ← h.deref p
    if x.callback = cb then h.free new else addLoop h cb new fuel p

/-- The first loop of homekit_characteristic_remove_notify_callback. -/
def removeHead (ch : CharacteristicId) (cb : Callback) : Nat → CallbackHeap → Except Fault CallbackHeap
  | 0, _ => .error .endlessLoop
  | fuel + 1, h =>
    match h.callback ch with
    | none => .ok h
    | some p => do
      let x ← h.deref p
      if x.callback ≠ cb then .ok h
      else do
        let h ← (h.setCallback ch x.next).free p
        removeHead ch cb fuel h

/-- The second one. -/
def removeLoop (cb : Callback) : Nat → CallbackHeap → Nat → Except Fault CallbackHeap
  | 0, _, _ => .error .endlessLoop
  | fuel + 1, h, p => do
    let x ← h.deref p
    match x.next with
    | none => .ok h
    | some q =>
      let y ← h.deref q
      if y.callback = cb then do
        let h ← (h.update p (some { x with next := y.next })).free q
        removeLoop cb fuel h p
      else removeLoop cb fuel h q

def homekitCharacteristicRemoveNotifyCallback (fuel : Nat) (h : CallbackHeap) (ch : CharacteristicId) (cb : Callback) :
    Except Fault CallbackHeap := do
  let h ← removeHead ch cb fuel h
  match h.callback ch with
  | none => .ok h
  | some p => removeLoop cb fuel h p

def homekitAccessoriesClearNotifyCallbacks (db : Database) (fuel : Nat) (h : CallbackHeap) (cb : Callback) :
    Except Fault CallbackHeap :=
  Runs.run (fun h ch => h.homekitCharacteristicRemoveNotifyCallback fuel ch cb) h db.characteristics

def hasLoop (h : CallbackHeap) (cb : Callback) : Nat → Option Nat → Except Fault Bool
  | 0, _ => .error .endlessLoop
  | _ + 1, none => .ok false
  | fuel + 1, some p => do
    let x ← h.deref p
    if x.callback = cb then .ok true else hasLoop h cb fuel x.next

def homekitCharacteristicHasNotifyCallback (fuel : Nat) (h : CallbackHeap) (ch : CharacteristicId) (cb : Callback) :
    Except Fault Bool :=
  h.hasLoop cb fuel (h.callback ch)

/-- The loop of homekit_characteristic_notify; a call does something to the rest of the state. -/
def notifyLoop {σ : Type} (h : CallbackHeap) (call : σ → Callback → Except Fault σ) : Nat → Option Nat → σ → Except Fault σ
  | 0, _, _ => .error .endlessLoop
  | _ + 1, none, s => .ok s
  | fuel + 1, some p, s => do
    let x ← h.deref p
    let s ← call s x.callback
    notifyLoop h call fuel x.next s

def homekitCharacteristicNotify {σ : Type} (call : σ → Callback → Except Fault σ) (fuel : Nat) (h : CallbackHeap)
    (ch : CharacteristicId) (s : σ) : Except Fault σ :=
  h.notifyLoop call fuel (h.callback ch) s

end CallbackHeap

/-! The nodes behind a pointer. -/

variable {node node' : Nat → Option CallbackNode} {p : Option Nat} {l : List (Nat × Callback)}

/-- The entries that hang at a pointer, with the addresses of their nodes. -/
inductive Chained (node : Nat → Option CallbackNode) : Option Nat → List (Nat × Callback) → Prop
  | nil : Chained node none []
  | cons {a : Nat} {cb : Callback} {q : Option Nat} {b : Bool} {l : List (Nat × Callback)}
    (hnode : node a = some { callback := cb, next := q, block := b }) (htail : Chained node q l) : Chained node (some a) ((a, cb) :: l)

theorem Chained.congr (h : Chained node p l) (hn : ∀ a ∈ l.map Prod.fst, node' a = node a) : Chained node' p l := by
  induction h with
  | nil => exact .nil
  | cons hnode htail ih =>
    rw [List.map_cons, List.forall_mem_cons] at hn
    exact .cons (hn.1.trans hnode) (ih hn.2)

/-- A node that is no entry may change. -/
theorem Chained.update (h : Chained node p l) {a : Nat} (ha : a ∉ l.map Prod.fst) (x : Option CallbackNode) :
    Chained (Function.update node a x) p l :=
  h.congr (fun _ hb => Function.update_of_ne (ne_of_mem_of_not_mem hb ha) ..)

theorem Chained.allocated (h : Chained node p l) {a : Nat} (ha : a ∈ l.map Prod.fst) : node a ≠ none := by
  induction h with
  | nil => cases ha
  | cons hnode htail ih =>
    rcases List.mem_cons.mp ha with rfl | ha
    · rw [hnode]
      exact Option.some_ne_none _
    · exact ih ha

theorem Chained.none (h : Chained node none l) : l = [] := by
  cases h
  rfl

/-- There is one list at a pointer. -/
theorem Chained.unique {l' : List (Nat × Callback)} (h : Chained node p l) (h' : Chained node p l') : l = l' := by
  induction h generalizing l' with
  | nil => exact h'.none.symm
  | cons hnode _ ih =>
    cases h' with
    | cons hnode' htail' =>
      cases hnode.symm.trans hnode'
      rw [ih htail']

namespace CallbackHeap

variable {h h' : CallbackHeap} {cb c : Callback} {fuel a new : Nat} {ch : CharacteristicId}

theorem deref_eq {x : CallbackNode} (hx : h.node a = some x) : h.deref a = .ok x := by
  rw [deref, hx]

/-- Whether there is a node that may be freed. -/
def isBlock (h : CallbackHeap) (a : Nat) : Bool := (h.node a).any CallbackNode.block

theorem isBlock_eq {x : CallbackNode} (hx : h.node a = some x) : h.isBlock a = x.block := by
  rw [isBlock, hx]
  rfl

theorem update_node_self (h : CallbackHeap) (a : Nat) (x : Option CallbackNode) : (h.update a x).node a = x :=
  Function.update_self ..

theorem update_node_of_ne {b : Nat} (hb : b ≠ a) (h : CallbackHeap) (x : Option CallbackNode) :
    (h.update a x).node b = h.node b := Function.update_of_ne hb ..

theorem free_block {q : Option Nat} (hx : h.node a = some { callback := c, next := q, block := true }) :
    h.free a = .ok (h.update a none) := by
  rw [free, hx]
  rfl

theorem free_inside {q : Option Nat} (hx : h.node a = some { callback := c, next := q, block := false }) :
    h.free a = .error .invalidFree := by
  rw [free, hx]
  rfl

/-- The nodes that are left are of the kind they were. -/
def Keeps (h h' : CallbackHeap) : Prop := ∀ a x', h'.node a = some x' → ∃ x, h.node a = some x ∧ x.block = x'.block

theorem Keeps.refl (h : CallbackHeap) : Keeps h h := fun _ x hx => ⟨x, hx, rfl⟩

theorem Keeps.trans {h'' : CallbackHeap} (hk : Keeps h h') (hk' : Keeps h' h'') : Keeps h h'' := by
  intro a x'' hx''
  obtain ⟨x', hx', hb'⟩ := hk' a x'' hx''
  obtain ⟨x, hx, hb⟩ := hk a x' hx'
  exact ⟨x, hx, hb.trans hb'⟩

theorem Keeps.isBlock (hk : Keeps h h') (ha : h'.node a ≠ none) : h'.isBlock a = h.isBlock a := by
  obtain ⟨x', hx'⟩ := Option.ne_none_iff_exists'.mp ha
  obtain ⟨x, hx, hb⟩ := hk a x' hx'
  rw [isBlock_eq hx, isBlock_eq hx', hb]

theorem keeps_update_none (h : CallbackHeap) (a : Nat) : Keeps h (h.update a none) := by
  intro b x hx
  by_cases hb : b = a
  · rw [hb, update_node_self] at hx
    cases hx
  · rw [update_node_of_ne hb] at hx
    exact ⟨x, hx, rfl⟩

theorem keeps_update {x y : CallbackNode} (hx : h.node a = some x) (hb : x.block = y.block) :
    Keeps h (h.update a (some y)) := by
  intro b z hz
  by_cases he : b = a
  · rw [he, update_node_self] at hz
    obtain rfl := Option.some.inj hz
    exact ⟨x, he ▸ hx, hb⟩
  · rw [update_node_of_ne he] at hz
    exact ⟨z, hz, rfl⟩

/-! Adding. -/

/-- The loop finds the entry and gives the new node back, or hangs it at the last one. -/
theorem addLoop_chained (hc : Chained h.node (some a) ((a, c) :: l)) (hcb : c ≠ cb) (hfuel : l.length < fuel)
    (hd : (((a, c) :: l).map Prod.fst).Nodup)
    (hnew : h.node new = some { callback := cb, next := none, block := true })
    (hfresh : new ∉ ((a, c) :: l).map Prod.fst) :
    (cb ∈ l.map Prod.snd ∧ h.addLoop cb new fuel a = .ok (h.update new none)) ∨
    (cb ∉ l.map Prod.snd ∧ ∃ last x, last ∈ ((a, c) :: l).map Prod.fst ∧
      h.addLoop cb new fuel a = .ok (h.update last (some x)) ∧ x.block = h.isBlock last ∧
      Chained (h.update last (some x)).node (some a) ((a, c) :: l ++ [(new, cb)])) := by
  induction l generalizing a c fuel with
  | nil =>
    obtain ⟨fuel, rfl⟩ := Nat.exists_eq_succ_of_ne_zero (Nat.ne_of_gt hfuel)
    cases hc with
    | cons hnode htail =>
      cases htail
      refine Or.inr ⟨List.not_mem_nil, a, { callback := c, next := some new, block := _ }, List.mem_cons_self, ?_,
        (isBlock_eq hnode).symm, ?_⟩
      · simp [addLoop, deref_eq hnode, bind, Except.bind]
      · have hne : new ≠ a := fun he => hfresh (by simp [he])
        exact .cons (update_node_self ..) (.cons ((update_node_of_ne hne ..).trans hnew) .nil)
  | cons e l ih =>
    obtain ⟨b, d⟩ := e
    obtain ⟨fuel, rfl⟩ := Nat.exists_eq_succ_of_ne_zero (Nat.ne_of_gt (Nat.zero_lt_of_lt hfuel))
    cases hc with
    | cons hnode htail =>
      cases htail with
      | cons hnode' htail' =>
        have hrest : Chained h.node (some b) ((b, d) :: l) := .cons hnode' htail'
        have hloop : h.addLoop cb new (fuel + 1) a =
            if d = cb then .ok (h.update new none) else h.addLoop cb new fuel b := by
          simp [addLoop, deref_eq hnode, deref_eq hnode', free_block hnew, bind, Except.bind]
        rw [hloop]
        by_cases hd' : d = cb
        · exact Or.inl ⟨by simp [hd'], if_pos hd'⟩
        · rw [if_neg hd']
          obtain ⟨ha, hd⟩ := List.nodup_cons.mp hd
          have hfresh' : new ∉ ((b, d) :: l).map Prod.fst := fun hm => hfresh (List.mem_cons_of_mem _ hm)
          rcases ih hrest hd' (Nat.lt_of_succ_lt_succ hfuel) hd hfresh' with
            ⟨hmem, hok⟩ | ⟨hmem, last, x, hlast, hok, hblock, hnext⟩
          · exact Or.inl ⟨List.mem_cons_of_mem _ hmem, hok⟩
          · refine Or.inr ⟨?_, last, x, List.mem_cons_of_mem _ hlast, hok, hblock, ?_⟩
            · rw [List.map_cons, List.mem_cons]
              exact fun hm => hm.elim (fun he => hd' he.symm) hmem
            · -- the head of the list is not its last node
              have hne : a ≠ last := fun he => ha (he ▸ hlast)
              exact .cons ((Function.update_of_ne hne ..).trans hnode) hnext

/-- The new node is given back when the entry is there, and hung behind the others when it is not. -/
theorem homekitCharacteristicAddNotifyCallback_chained {malloc : CallbackHeap → Nat} (cb : Callback)
    (hc : Chained h.node (h.callback ch) l)
    (hd : (l.map Prod.fst).Nodup) (hfuel : l.length < fuel) (hnew : h.node (malloc h) = none) :
    (cb ∈ l.map Prod.snd ∧ homekitCharacteristicAddNotifyCallback malloc fuel h ch cb =
      .ok ((h.update (malloc h) (some { callback := cb, next := none, block := true })).update (malloc h) none)) ∨
    (cb ∉ l.map Prod.snd ∧ ∃ h', homekitCharacteristicAddNotifyCallback malloc fuel h ch cb = .ok h' ∧
      Chained h'.node (h'.callback ch) (l ++ [(malloc h, cb)]) ∧
      (∀ a, a ∉ l.map Prod.fst → h.node a ≠ none → h'.node a = h.node a) ∧
      (∀ ch', ch' ≠ ch → h'.callback ch' = h.callback ch') ∧
      h'.isBlock (malloc h) = true ∧ ∀ a, h.node a ≠ none → h'.isBlock a = h.isBlock a) := by
  have hfresh : malloc h ∉ l.map Prod.fst := fun hm => hc.allocated hm hnew
  rw [homekitCharacteristicAddNotifyCallback]
  generalize malloc h = new at hnew hfresh
  have hthere : (h.update new (some { callback := cb, next := none, block := true })).node new =
      some { callback := cb, next := none, block := true } := Function.update_self ..
  have hother : ∀ a, h.node a ≠ none →
      (h.update new (some { callback := cb, next := none, block := true })).node a = h.node a :=
    fun a ha => Function.update_of_ne (fun he : a = new => ha (he ▸ hnew)) ..
  have hchain : Chained (h.update new (some { callback := cb, next := none, block := true })).node
      ((h.update new (some { callback := cb, next := none, block := true })).callback ch) l := hc.update hfresh _
  have hcallback : (h.update new (some { callback := cb, next := none, block := true })).callback = h.callback := rfl
  generalize h.update new (some { callback := cb, next := none, block := true }) = h₁ at hthere hother hchain hcallback
  have hblocks : ∀ a, h.node a ≠ none → h₁.isBlock a = h.isBlock a := fun a ha => by rw [isBlock, isBlock, hother a ha]
  generalize hp : h₁.callback ch = p at hchain
  cases hchain with
  | nil =>
    refine Or.inr ⟨List.not_mem_nil, _, rfl, ?_, fun a _ ha => hother a ha, fun ch' hne => ?_, isBlock_eq hthere, hblocks⟩
    · show Chained h₁.node (Function.update h₁.callback ch (some new) ch) _
      rw [Function.update_self]
      exact .cons hthere .nil
    · show Function.update h₁.callback ch (some new) ch' = _
      rw [Function.update_of_ne hne, hcallback]
  | @cons a c q b l hnode htail =>
    have hstep : (h₁.deref a >>= fun x => if x.callback = cb then h₁.free new else h₁.addLoop cb new fuel a) =
        if c = cb then .ok (h₁.update new none) else h₁.addLoop cb new fuel a := by
      rw [deref_eq hnode, free_block hthere]
      rfl
    show (_ ∧ (h₁.deref a >>= _) = _) ∨ (_ ∧ ∃ h', (h₁.deref a >>= _) = _ ∧ _)
    rw [hstep]
    by_cases hcb : c = cb
    · exact Or.inl ⟨by simp [hcb], if_pos hcb⟩
    · rw [if_neg hcb]
      have hlength : l.length < fuel := Nat.lt_of_succ_lt hfuel
      rcases addLoop_chained (.cons hnode htail) hcb hlength hd hthere hfresh with
        ⟨hmem, hok⟩ | ⟨hmem, last, x, hlast, hok, hblock, hnext⟩
      · exact Or.inl ⟨List.mem_cons_of_mem _ hmem, hok⟩
      · have hkind : ∀ k, (h₁.update last (some x)).isBlock k = h₁.isBlock k := by
          intro k
          by_cases hk : k = last
          · subst hk
            rw [isBlock_eq (Function.update_self k (some x) h₁.node), hblock]
          · rw [isBlock, isBlock, show (h₁.update last (some x)).node k = h₁.node k from Function.update_of_ne hk ..]
        refine Or.inr ⟨?_, _, hok, ?_, fun b hb hold => ?_, fun ch' _ => congrFun hcallback ch', ?_, fun k hk => ?_⟩
        · rw [List.map_cons, List.mem_cons]
          exact fun hm => hm.elim (fun he => hcb he.symm) hmem
        · show Chained _ (h₁.callback ch) _
          rw [hp]
          exact hnext
        · rw [← hother b hold]
          exact Function.update_of_ne (ne_of_mem_of_not_mem hlast hb).symm ..
        · rw [hkind, isBlock_eq hthere]
        · rw [hkind, hblocks k hk]

/-! Removing. -/

/-- Nodes elsewhere and the other pointers stay. -/
structure Elsewhere (h h' : CallbackHeap) (ch : CharacteristicId) (addresses : List Nat) : Prop where
  node : ∀ a ∉ addresses, h'.node a = h.node a
  callback : ∀ ch', ch' ≠ ch → h'.callback ch' = h.callback ch'

theorem Elsewhere.refl (h : CallbackHeap) (addresses : List Nat) : Elsewhere h h ch addresses :=
  ⟨fun _ _ => rfl, fun _ _ => rfl⟩

theorem Elsewhere.trans {h'' : CallbackHeap} {l l' : List Nat} (hl : Elsewhere h h' ch l) (hl' : Elsewhere h' h'' ch l')
    (hsub : l' ⊆ l) : Elsewhere h h'' ch l :=
  ⟨fun a ha => (hl'.node a (fun hm => ha (hsub hm))).trans (hl.node a ha),
    fun ch' hne => (hl'.callback ch' hne).trans (hl.callback ch' hne)⟩

theorem Elsewhere.mono {l l' : List Nat} (hl : Elsewhere h h' ch l) (hsub : l ⊆ l') : Elsewhere h h' ch l' :=
  ⟨fun a ha => hl.node a (fun hm => ha (hsub hm)), hl.callback⟩

/-- The pointer moves on over the entries that are removed, as long as their nodes are blocks. -/
theorem removeHead_chained (cb : Callback) (hc : Chained h.node (h.callback ch) l) (hd : (l.map Prod.fst).Nodup)
    (hfuel : l.length < fuel) :
    (removeHead ch cb fuel h = .error .invalidFree ∧ ∃ e ∈ l, e.2 = cb ∧ h.isBlock e.1 = false) ∨
    ∃ h', removeHead ch cb fuel h = .ok h' ∧ (∀ e ∈ l.takeWhile (fun e => e.2 == cb), h.isBlock e.1 = true) ∧
      Chained h'.node (h'.callback ch) (l.dropWhile (fun e => e.2 == cb)) ∧ Elsewhere h h' ch (l.map Prod.fst) ∧
      Keeps h h' := by
  induction l generalizing h fuel with
  | nil =>
    obtain ⟨fuel, rfl⟩ := Nat.exists_eq_succ_of_ne_zero (Nat.ne_of_gt hfuel)
    have hp : h.callback ch = none := by
      cases hp : h.callback ch with
      | none => rfl
      | some p => rw [hp] at hc; cases hc
    exact Or.inr ⟨h, by simp [removeHead, hp], fun e he => absurd he List.not_mem_nil, hc, .refl h _, .refl h⟩
  | cons e l ih =>
    obtain ⟨a, c⟩ := e
    obtain ⟨fuel, rfl⟩ := Nat.exists_eq_succ_of_ne_zero (Nat.ne_of_gt (Nat.zero_lt_of_lt hfuel))
    obtain ⟨ha, hd⟩ := List.nodup_cons.mp hd
    generalize hp : h.callback ch = p at hc
    cases hc with
    | @cons _ _ q b _ hnode htail =>
      have hstep : removeHead ch cb (fuel + 1) h =
          if c ≠ cb then .ok h else (h.setCallback ch q).free a >>= removeHead ch cb fuel := by
        simp [removeHead, hp, deref_eq hnode, bind, Except.bind]
      rw [hstep]
      by_cases hcb : c = cb
      · rw [if_neg (not_not_intro hcb), List.dropWhile_cons_of_pos (by simp [hcb]),
          List.takeWhile_cons_of_pos (by simp [hcb])]
        cases b with
        | false =>
          have hfree : (h.setCallback ch q).free a = .error .invalidFree := free_inside hnode
          exact Or.inl ⟨by rw [hfree]; rfl, (a, c), List.mem_cons_self, hcb, isBlock_eq hnode⟩
        | true =>
          have hfree : (h.setCallback ch q).free a = .ok ((h.setCallback ch q).update a none) := free_block hnode
          have hkeeps : Keeps h ((h.setCallback ch q).update a none) := keeps_update_none (h.setCallback ch q) a
          have hsame : ∀ e ∈ l, ((h.setCallback ch q).update a none).isBlock e.1 = h.isBlock e.1 := by
            intro e he
            have hne : e.1 ≠ a := ne_of_mem_of_not_mem (List.mem_map_of_mem he) ha
            rw [isBlock, isBlock, show ((h.setCallback ch q).update a none).node e.1 = h.node e.1 from
              Function.update_of_ne hne ..]
          have hnext : Chained ((h.setCallback ch q).update a none).node
              (((h.setCallback ch q).update a none).callback ch) l := by
            show Chained (Function.update h.node a none) (Function.update h.callback ch q ch) l
            rw [Function.update_self]
            exact htail.update ha none
          have hfirst : Elsewhere h ((h.setCallback ch q).update a none) ch (a :: l.map Prod.fst) :=
            ⟨fun b hb => Function.update_of_ne (List.ne_of_not_mem_cons hb) .., fun ch' hne => Function.update_of_ne hne ..⟩
          rw [hfree]
          rcases ih hnext hd (Nat.lt_of_succ_lt_succ hfuel) with ⟨herror, e, he, hecb, hblock⟩ |
            ⟨h', hok, hblocks, hchain, helse, hkeeps'⟩
          · exact Or.inl ⟨herror, e, List.mem_cons_of_mem _ he, hecb, hsame e he ▸ hblock⟩
          · refine Or.inr ⟨h', hok, List.forall_mem_cons.mpr ⟨isBlock_eq hnode, fun e he => ?_⟩, hchain, ?_,
              hkeeps.trans hkeeps'⟩
            · rw [← hsame e ((List.takeWhile_sublist _).subset he)]
              exact hblocks e he
            · exact hfirst.trans helse (fun b hb => List.mem_cons_of_mem _ hb)
      · rw [if_pos hcb, List.dropWhile_cons_of_neg (by simp [hcb]), List.takeWhile_cons_of_neg (by simp [hcb])]
        exact Or.inr ⟨h, rfl, fun e he => absurd he List.not_mem_nil, hp ▸ .cons hnode htail, .refl h _, .refl h⟩

/-- Behind a node that stays, every entry that is removed is bridged. -/
theorem removeLoop_chained (cb : Callback) (hc : Chained h.node (some a) ((a, c) :: l))
    (hd : (((a, c) :: l).map Prod.fst).Nodup)
    (hfuel : l.length < fuel) :
    (removeLoop cb fuel h a = .error .invalidFree ∧ ∃ e ∈ l, e.2 = cb ∧ h.isBlock e.1 = false) ∨
    ∃ h', removeLoop cb fuel h a = .ok h' ∧ (∀ e ∈ l, e.2 = cb → h.isBlock e.1 = true) ∧
      Chained h'.node (some a) ((a, c) :: l.filter (fun e => e.2 != cb)) ∧
      (∀ b ∉ ((a, c) :: l).map Prod.fst, h'.node b = h.node b) ∧ h'.callback = h.callback ∧ Keeps h h' := by
  induction l generalizing h a c fuel with
  | nil =>
    obtain ⟨fuel, rfl⟩ := Nat.exists_eq_succ_of_ne_zero (Nat.ne_of_gt hfuel)
    refine Or.inr ⟨h, ?_, fun e he => absurd he List.not_mem_nil, hc, fun _ _ => rfl, rfl, .refl h⟩
    cases hc with
    | cons hnode htail =>
      cases htail
      simp [removeLoop, deref_eq hnode, bind, Except.bind]
  | cons e l ih =>
    obtain ⟨b, d⟩ := e
    obtain ⟨fuel, rfl⟩ := Nat.exists_eq_succ_of_ne_zero (Nat.ne_of_gt (Nat.zero_lt_of_lt hfuel))
    obtain ⟨ha, hd'⟩ := List.nodup_cons.mp hd
    obtain ⟨hb, hd''⟩ := List.nodup_cons.mp hd'
    cases hc with
    | @cons _ _ _ kind _ hnode htail =>
      cases htail with
      | @cons _ _ q kind' _ hnode' htail' =>
        have hstep : removeLoop cb (fuel + 1) h a =
            if d = cb then (h.update a (some { callback := c, next := q, block := kind })).free b >>=
              fun h => removeLoop cb fuel h a
            else removeLoop cb fuel h b := by
          simp [removeLoop, deref_eq hnode, deref_eq hnode', bind, Except.bind]
        rw [hstep]
        by_cases hcb : d = cb
        · have hne : a ≠ b := fun he => ha (he ▸ List.mem_cons_self)
          have hal : a ∉ l.map Prod.fst := fun hm => ha (List.mem_cons_of_mem _ hm)
          have hthere : (h.update a (some { callback := c, next := q, block := kind })).node b =
              some { callback := d, next := q, block := kind' } := (Function.update_of_ne hne.symm ..).trans hnode'
          rw [if_pos hcb, List.filter_cons_of_neg (by simp [hcb])]
          cases kind' with
          | false =>
            rw [free_inside hthere]
            exact Or.inl ⟨rfl, (b, d), List.mem_cons_self, hcb, isBlock_eq hnode'⟩
          | true =>
            rw [free_block hthere]
            have hkeeps : Keeps h ((h.update a (some { callback := c, next := q, block := kind })).update b none) :=
              (keeps_update (y := { callback := c, next := q, block := kind }) hnode rfl).trans (keeps_update_none _ b)
            have hsame : ∀ e ∈ l, ((h.update a (some { callback := c, next := q, block := kind })).update b none).isBlock e.1 =
                h.isBlock e.1 := by
              intro e he
              have hea : e.1 ≠ a := ne_of_mem_of_not_mem (List.mem_map_of_mem he) hal
              have heb : e.1 ≠ b := ne_of_mem_of_not_mem (List.mem_map_of_mem he) hb
              rw [isBlock, isBlock]
              show (Function.update (Function.update h.node a _) b none e.1).any _ = _
              rw [Function.update_of_ne heb, Function.update_of_ne hea]
            have hnext : Chained ((h.update a (some { callback := c, next := q, block := kind })).update b none).node
                (some a) ((a, c) :: l) := by
              refine .cons (b := kind) ?_ ((htail'.update hal _).update hb none)
              show Function.update (Function.update h.node a _) b none a = _
              rw [Function.update_of_ne hne, Function.update_self]
            rcases ih hnext (List.nodup_cons.mpr ⟨hal, hd''⟩) (Nat.lt_of_succ_lt_succ hfuel) with
              ⟨herror, e, he, hecb, hblock⟩ | ⟨h', hok, hblocks, hchain, helse, hcallback, hkeeps'⟩
            · exact Or.inl ⟨herror, e, List.mem_cons_of_mem _ he, hecb, hsame e he ▸ hblock⟩
            · refine Or.inr ⟨h', hok, List.forall_mem_cons.mpr ⟨fun _ => isBlock_eq hnode', fun e he hecb => ?_⟩, hchain,
                fun k hk => ?_, hcallback, hkeeps.trans hkeeps'⟩
              · rw [← hsame e he]
                exact hblocks e he hecb
              · simp only [List.map_cons, List.mem_cons, not_or] at hk
                rw [helse k (by simp [hk.1, hk.2.2])]
                show Function.update (Function.update h.node a _) b none k = _
                rw [Function.update_of_ne hk.2.1, Function.update_of_ne hk.1]
        · have hrest : Chained h.node (some b) ((b, d) :: l) := .cons hnode' htail'
          rw [if_neg hcb, List.filter_cons_of_pos (by simp [hcb])]
          rcases ih hrest hd' (Nat.lt_of_succ_lt_succ hfuel) with ⟨herror, e, he, hecb, hblock⟩ |
            ⟨h', hok, hblocks, hchain, helse, hcallback, hkeeps⟩
          · exact Or.inl ⟨herror, e, List.mem_cons_of_mem _ he, hecb, hblock⟩
          · refine Or.inr ⟨h', hok, List.forall_mem_cons.mpr ⟨fun he => absurd he hcb, hblocks⟩,
              .cons ((helse a ha).trans hnode) hchain, fun k hk => ?_, hcallback, hkeeps⟩
            exact helse k (fun hm => hk (List.mem_cons_of_mem _ hm))

theorem filter_dropWhile {β : Type} (keep : β → Bool) (l : List β) :
    (l.dropWhile (fun e => !keep e)).filter keep = l.filter keep := by
  induction l with
  | nil => rfl
  | cons e l ih =>
    cases he : keep e with
    | false => rw [List.dropWhile_cons_of_pos (by simp [he]), ih, List.filter_cons_of_neg (by simp [he])]
    | true => rw [List.dropWhile_cons_of_neg (by simp [he])]

/-- Both loops together filter the list, unless they come to a node that is no block. -/
theorem homekitCharacteristicRemoveNotifyCallback_chained (cb : Callback) (hc : Chained h.node (h.callback ch) l)
    (hd : (l.map Prod.fst).Nodup) (hfuel : l.length < fuel) :
    (h.homekitCharacteristicRemoveNotifyCallback fuel ch cb = .error .invalidFree ∧
      ∃ e ∈ l, e.2 = cb ∧ h.isBlock e.1 = false) ∨
    ∃ h', h.homekitCharacteristicRemoveNotifyCallback fuel ch cb = .ok h' ∧ (∀ e ∈ l, e.2 = cb → h.isBlock e.1 = true) ∧
      Chained h'.node (h'.callback ch) (l.filter (fun e => e.2 != cb)) ∧ Elsewhere h h' ch (l.map Prod.fst) ∧
      Keeps h h' := by
  rcases removeHead_chained cb hc hd hfuel with ⟨herror, hinside⟩ | ⟨h₁, hok, hblocks, hchain, helse, hkeeps⟩
  · refine Or.inl ⟨?_, hinside⟩
    rw [homekitCharacteristicRemoveNotifyCallback, herror]
    rfl
  have hfilter : (l.dropWhile (fun e => e.2 == cb)).filter (fun e => e.2 != cb) = l.filter (fun e => e.2 != cb) := by
    have hkeep := filter_dropWhile (fun e : Nat × Callback => e.2 != cb) l
    simpa only [bne, Bool.not_not] using hkeep
  have hsuffix : l.dropWhile (fun e => e.2 == cb) <:+ l := List.dropWhile_suffix _
  have hstop : ∀ e ∈ (l.dropWhile (fun e => e.2 == cb)).head?, ¬ (e.2 == cb) = true := by
    intro e he
    have hneg := List.head?_dropWhile_not (fun e : Nat × Callback => e.2 == cb) l
    rw [Option.mem_def.mp he] at hneg
    simpa using hneg
  have hmem : ∀ e ∈ l, e ∈ l.takeWhile (fun e => e.2 == cb) ∨ e ∈ l.dropWhile (fun e => e.2 == cb) := by
    intro e he
    rwa [← List.takeWhile_append_dropWhile (p := fun e : Nat × Callback => e.2 == cb) (l := l), List.mem_append] at he
  generalize l.dropWhile (fun e => e.2 == cb) = m at hchain hfilter hsuffix hstop hmem
  have hrun : h.homekitCharacteristicRemoveNotifyCallback fuel ch cb =
      match h₁.callback ch with
      | none => .ok h₁
      | some p => removeLoop cb fuel h₁ p := by
    rw [homekitCharacteristicRemoveNotifyCallback, hok]
    rfl
  -- what the first loop leaves of the list is of the kind that it was
  have hsame : ∀ e ∈ m, h₁.isBlock e.1 = h.isBlock e.1 := fun e he =>
    hkeeps.isBlock (hchain.allocated (List.mem_map_of_mem he))
  rw [hrun, ← hfilter]
  generalize hp : h₁.callback ch = p at hchain
  cases hchain with
  | nil =>
    exact Or.inr ⟨h₁, rfl, fun e he _ => (hmem e he).elim (hblocks e) (fun h => absurd h List.not_mem_nil), hp ▸ .nil, helse,
      hkeeps⟩
  | @cons a c q b m hnode htail =>
    have hc : c ≠ cb := by
      have hhead := hstop (a, c) rfl
      simpa using hhead
    have hsub := hsuffix.sublist.map Prod.fst
    have hlength := hsuffix.length_le
    rcases removeLoop_chained cb (.cons hnode htail) (hsub.nodup hd) (Nat.lt_of_lt_of_le hlength (Nat.le_of_lt hfuel)) with
      ⟨herror, e, he, hecb, hblock⟩ | ⟨h', hok', hblocks', hchain', helse', hcallback, hkeeps'⟩
    · exact Or.inl ⟨herror, e, hsuffix.subset (List.mem_cons_of_mem _ he), hecb,
        hsame e (List.mem_cons_of_mem _ he) ▸ hblock⟩
    · refine Or.inr ⟨h', hok', fun e he hecb => ?_, ?_,
        helse.trans ⟨helse', fun ch' _ => congrFun hcallback ch'⟩ hsub.subset, hkeeps.trans hkeeps'⟩
      · rcases hmem e he with he | he
        · exact hblocks e he
        · rw [← hsame e he]
          rcases List.mem_cons.mp he with rfl | he
          · exact absurd hecb hc
          · exact hblocks' e he hecb
      · rw [List.filter_cons_of_pos (by simp [hc]), congrFun hcallback ch, hp]
        exact hchain'

/-! Looking and calling. -/

theorem hasLoop_chained (hc : Chained h.node p l) (hfuel : l.length < fuel) :
    h.hasLoop cb fuel p = .ok (decide (cb ∈ l.map Prod.snd)) := by
  induction hc generalizing fuel with
  | nil =>
    obtain ⟨fuel, rfl⟩ := Nat.exists_eq_succ_of_ne_zero (Nat.ne_of_gt hfuel)
    rfl
  | @cons a c q b l hnode htail ih =>
    obtain ⟨fuel, rfl⟩ := Nat.exists_eq_succ_of_ne_zero (Nat.ne_of_gt (Nat.zero_lt_of_lt hfuel))
    have hstep : h.hasLoop cb (fuel + 1) (some a) = if c = cb then .ok true else h.hasLoop cb fuel q := by
      simp [hasLoop, deref_eq hnode, bind, Except.bind]
    rw [hstep, ih (Nat.lt_of_succ_lt_succ hfuel)]
    by_cases hcb : c = cb
    · simp [hcb]
    · have hcb' : cb ≠ c := fun he => hcb he.symm
      simp [hcb, hcb']

theorem notifyLoop_chained {σ : Type} {call : σ → Callback → Except Fault σ} {s : σ} (hc : Chained h.node p l)
    (hfuel : l.length < fuel) : h.notifyLoop call fuel p s = Runs.run call s (l.map Prod.snd) := by
  induction hc generalizing fuel s with
  | nil =>
    obtain ⟨fuel, rfl⟩ := Nat.exists_eq_succ_of_ne_zero (Nat.ne_of_gt hfuel)
    rfl
  | @cons a c q b l hnode htail ih =>
    obtain ⟨fuel, rfl⟩ := Nat.exists_eq_succ_of_ne_zero (Nat.ne_of_gt (Nat.zero_lt_of_lt hfuel))
    have hstep : h.notifyLoop call (fuel + 1) (some a) s = (call s c).bind (h.notifyLoop call fuel q) := by
      simp [notifyLoop, deref_eq hnode, bind, Except.bind]
    rw [hstep, List.map_cons, Runs.run]
    cases call s c with
    | error e => rfl
    | ok t => exact ih (Nat.lt_of_succ_lt_succ hfuel)

/-! The heap as the lists of the database. -/

/-- The nodes of every characteristic; none belongs to two lists. -/
structure Represents (h : CallbackHeap) (chains : CharacteristicId → List (Nat × Callback)) : Prop where
  chained : ∀ ch, Chained h.node (h.callback ch) (chains ch)
  nodup : ∀ ch, ((chains ch).map Prod.fst).Nodup
  disjoint : ∀ ch ch', ch ≠ ch' → List.Disjoint ((chains ch).map Prod.fst) ((chains ch').map Prod.fst)

/-- The lists in the heap have the entries that the database has. -/
def Refines (h : CallbackHeap) (db : Database) : Prop :=
  ∃ chains, h.Represents chains ∧ ∀ ch, (chains ch).map Prod.snd = (db.characteristic ch).callback

/-- The pair is on the list by a node that is no block, so that it cannot be freed. -/
def Pinned (h : CallbackHeap) (ch : CharacteristicId) (cb : Callback) : Prop :=
  ∃ l, Chained h.node (h.callback ch) l ∧ ∃ e ∈ l, e.2 = cb ∧ h.isBlock e.1 = false

theorem pinned_iff (hc : Chained h.node (h.callback ch) l) : h.Pinned ch cb ↔ ∃ e ∈ l, e.2 = cb ∧ h.isBlock e.1 = false := by
  constructor
  · rintro ⟨l', hc', he⟩
    rwa [hc.unique hc']
  · exact fun he => ⟨l, hc, he⟩

/-- A list whose nodes are as they were has the same pairs pinned. -/
theorem pinned_congr (hc : Chained h.node (h.callback ch) l) (hc' : Chained h'.node (h'.callback ch) l)
    (hb : ∀ a ∈ l.map Prod.fst, h'.isBlock a = h.isBlock a) : h'.Pinned ch cb ↔ h.Pinned ch cb := by
  rw [pinned_iff hc, pinned_iff hc']
  exact exists_congr (fun e => and_congr_right (fun he => by rw [hb e.1 (List.mem_map_of_mem he)]))

/-- A call on one characteristic leaves the lists of the others alone. -/
theorem Represents.change {chains : CharacteristicId → List (Nat × Callback)} (hr : h.Represents chains)
    (hc : Chained h'.node (h'.callback ch) l) (hd : (l.map Prod.fst).Nodup)
    (hown : ∀ a ∈ l.map Prod.fst, a ∈ (chains ch).map Prod.fst ∨ h.node a = none)
    (hnode : ∀ a, a ∉ (chains ch).map Prod.fst → h.node a ≠ none → h'.node a = h.node a)
    (hcallback : ∀ ch', ch' ≠ ch → h'.callback ch' = h.callback ch') :
    h'.Represents (Function.update chains ch l) := by
  have hapart : ∀ ch', ch' ≠ ch → List.Disjoint (l.map Prod.fst) ((chains ch').map Prod.fst) := by
    intro ch' hne a ha ha'
    rcases hown a ha with hold | hfresh
    · exact hr.disjoint ch ch' hne.symm hold ha'
    · exact (hr.chained ch').allocated ha' hfresh
  constructor
  · intro ch'
    by_cases hne : ch' = ch
    · subst hne
      rwa [Function.update_self]
    · rw [Function.update_of_ne hne, hcallback ch' hne]
      refine (hr.chained ch').congr (fun a ha => hnode a ?_ ((hr.chained ch').allocated ha))
      exact fun ha' => hr.disjoint ch' ch hne ha ha'
  · intro ch'
    by_cases hne : ch' = ch
    · subst hne
      rwa [Function.update_self]
    · rw [Function.update_of_ne hne]
      exact hr.nodup ch'
  · intro ch₁ ch₂ hne
    by_cases h₁ : ch₁ = ch
    · subst h₁
      rw [Function.update_self, Function.update_of_ne hne.symm]
      exact hapart ch₂ hne.symm
    · by_cases h₂ : ch₂ = ch
      · subst h₂
        rw [Function.update_self, Function.update_of_ne hne]
        exact List.disjoint_comm.mp (hapart ch₁ hne)
      · rw [Function.update_of_ne h₁, Function.update_of_ne h₂]
        exact hr.disjoint ch₁ ch₂ hne

theorem update_chains {chains : CharacteristicId → List (Nat × Callback)} {db : Database} {cbs : List Callback}
    (hs : ∀ ch, (chains ch).map Prod.snd = (db.characteristic ch).callback) (ch : CharacteristicId) (hl :
      l.map Prod.snd = cbs)
    (ch' : CharacteristicId) :
    (Function.update chains ch l ch').map Prod.snd =
      ((db.setCharacteristic ch { db.characteristic ch with callback := cbs }).characteristic ch').callback := by
  by_cases hne : ch' = ch
  · subst hne
    rw [Function.update_self, setCharacteristic_self, hl]
  · rw [Function.update_of_ne hne, setCharacteristic_of_ne hne, hs]

/-- The pair is taken off unless it is pinned. -/
theorem homekitCharacteristicRemoveNotifyCallback_refines {db : Database} (hr : h.Refines db) (ch : CharacteristicId)
    (cb : Callback) (hfuel : (db.characteristic ch).callback.length < fuel) :
    (h.Pinned ch cb ∧ h.homekitCharacteristicRemoveNotifyCallback fuel ch cb = .error .invalidFree) ∨
    (¬ h.Pinned ch cb ∧ ∃ h', h.homekitCharacteristicRemoveNotifyCallback fuel ch cb = .ok h' ∧
      h'.Refines (db.homekitCharacteristicRemoveNotifyCallback ch cb) ∧ ∀ i c, h'.Pinned i c ↔ h.Pinned i c) := by
  obtain ⟨chains, hr, hs⟩ := hr
  have hlength : (chains ch).length < fuel := by rwa [← hs ch, List.length_map] at hfuel
  rw [pinned_iff (hr.chained ch)]
  rcases homekitCharacteristicRemoveNotifyCallback_chained cb (hr.chained ch) (hr.nodup ch) hlength with
    ⟨herror, hpinned⟩ | ⟨h', hok, hblocks, hchain, helse, hkeeps⟩
  · exact Or.inl ⟨hpinned, herror⟩
  have hfree : ¬ ∃ e ∈ chains ch, e.2 = cb ∧ h.isBlock e.1 = false := by
    rintro ⟨e, he, hecb, hblock⟩
    exact Bool.false_ne_true (hblock.symm.trans (hblocks e he hecb))
  have hsub : (((chains ch).filter (fun e => e.2 != cb)).map Prod.fst).Sublist ((chains ch).map Prod.fst) :=
    List.filter_sublist.map _
  have hchange := hr.change hchain (hsub.nodup (hr.nodup ch)) (fun a ha => Or.inl (hsub.subset ha))
    (fun a ha _ => helse.node a ha) helse.callback
  refine Or.inr ⟨hfree, h', hok, ⟨_, hchange, ?_⟩, fun i c => ?_⟩
  · apply update_chains hs ch
    rw [removeCallback_eq, ← hs ch, List.filter_map]
    rfl
  · by_cases hi : i = ch
    · subst hi
      rw [pinned_iff (hr.chained i), pinned_iff hchain]
      have hsame : ∀ e ∈ (chains i).filter (fun e => e.2 != cb), h'.isBlock e.1 = h.isBlock e.1 := fun e he =>
        hkeeps.isBlock (hchain.allocated (List.mem_map_of_mem he))
      constructor
      · rintro ⟨e, he, hec, hblock⟩
        exact ⟨e, (List.mem_filter.mp he).1, hec, hsame e he ▸ hblock⟩
      · rintro ⟨e, he, hec, hblock⟩
        have hstays : e ∈ (chains i).filter (fun e => e.2 != cb) := by
          refine List.mem_filter.mpr ⟨he, bne_iff_ne.mpr (fun hecb => ?_)⟩
          exact hfree ⟨e, he, hecb, hblock⟩
        exact ⟨e, hstays, hec, (hsame e hstays).trans hblock⟩
    · have hother := hchange.chained i
      rw [Function.update_of_ne hi] at hother
      refine pinned_congr (hr.chained i) hother (fun a ha => ?_)
      rw [isBlock, isBlock, helse.node a (fun hm => hr.disjoint i ch hi ha hm)]

/-- What is added is a block. -/
theorem homekitCharacteristicAddNotifyCallback_refines {malloc : CallbackHeap → Nat}
    (hmalloc : ∀ h : CallbackHeap, h.node (malloc h) = none) {db : Database} (hr : h.Refines db) (ch : CharacteristicId)
    (cb : Callback) (hfuel : (db.characteristic ch).callback.length < fuel) :
    ∃ h', homekitCharacteristicAddNotifyCallback malloc fuel h ch cb = .ok h' ∧
      h'.Refines (db.homekitCharacteristicAddNotifyCallback ch cb) ∧ ∀ i c, h'.Pinned i c ↔ h.Pinned i c := by
  obtain ⟨chains, hr, hs⟩ := hr
  have hlength : (chains ch).length < fuel := by rwa [← hs ch, List.length_map] at hfuel
  have hnew := hmalloc h
  have hfresh : ∀ ch, malloc h ∉ (chains ch).map Prod.fst := fun ch hm => (hr.chained ch).allocated hm hnew
  rcases homekitCharacteristicAddNotifyCallback_chained cb (hr.chained ch) (hr.nodup ch) hlength hnew with
    ⟨hmem, hok⟩ | ⟨hmem, h', hok, hchain, hnode, hcallback, hblock, hblocks⟩
  · have hsame : (chains ch).map Prod.snd = addCallback cb (db.characteristic ch).callback := by
      rw [addCallback_eq, ← hs ch, if_pos hmem]
    have hchained : ∀ i, Chained ((h.update (malloc h) (some { callback := cb, next := none, block := true })).update
        (malloc h) none).node (h.callback i) (chains i) := fun i =>
      ((hr.chained i).update (hfresh i) _).update (hfresh i) _
    refine ⟨_, hok, ⟨chains, ⟨hchained, hr.nodup, hr.disjoint⟩, ?_⟩, fun i c => ?_⟩
    · intro ch'
      have hadd := update_chains hs ch hsame ch'
      rwa [Function.update_eq_self] at hadd
    · refine pinned_congr (hr.chained i) (hchained i) (fun a ha => ?_)
      have hne : a ≠ malloc h := ne_of_mem_of_not_mem ha (hfresh i)
      rw [isBlock, isBlock, update_node_of_ne hne, update_node_of_ne hne]
  · have hd : ((chains ch ++ [(malloc h, cb)]).map Prod.fst).Nodup := by
      rw [List.map_append, List.nodup_append]
      refine ⟨hr.nodup ch, List.nodup_singleton _, fun a ha b hb => ?_⟩
      obtain rfl := List.mem_singleton.mp hb
      exact ne_of_mem_of_not_mem ha (hfresh ch)
    have hchange := hr.change hchain hd (fun a ha => by
      rw [List.map_append, List.mem_append] at ha
      rcases ha with ha | ha
      · exact Or.inl ha
      · obtain rfl := List.mem_singleton.mp ha
        exact Or.inr hnew) hnode hcallback
    refine ⟨h', hok, ⟨_, hchange, ?_⟩, fun i c => ?_⟩
    · apply update_chains hs ch
      rw [addCallback_eq, ← hs ch, if_neg hmem, List.map_append]
      rfl
    · have hsame : ∀ i, ∀ e ∈ chains i, h'.isBlock e.1 = h.isBlock e.1 := fun i e he =>
        hblocks e.1 ((hr.chained i).allocated (List.mem_map_of_mem he))
      by_cases hi : i = ch
      · subst hi
        rw [pinned_iff (hr.chained i), pinned_iff hchain]
        constructor
        · rintro ⟨e, he, hec, hinside⟩
          rcases List.mem_append.mp he with he | he
          · exact ⟨e, he, hec, hsame i e he ▸ hinside⟩
          · obtain rfl := List.mem_singleton.mp he
            exact absurd (hinside.symm.trans hblock) Bool.false_ne_true
        · rintro ⟨e, he, hec, hinside⟩
          exact ⟨e, List.mem_append_left _ he, hec, (hsame i e he).trans hinside⟩
      · have hother := hchange.chained i
        rw [Function.update_of_ne hi] at hother
        refine pinned_congr (hr.chained i) hother (fun a ha => ?_)
        obtain ⟨e, he, rfl⟩ := List.mem_map.mp ha
        exact hsame i e he

/-- The walk over the nodes calls what the database lists. -/
theorem homekitCharacteristicNotify_refines {υ : Type} {sketch : Sketch υ} {s : AccessoryState υ} {value : HomekitValue}
    (hr : h.Refines s.database) (hfuel : (s.database.characteristic ch).callback.length < fuel) :
    h.homekitCharacteristicNotify (fun s cb => runCallback sketch s ch value cb) fuel ch s =
      ArduinoHomeKit.homekitCharacteristicNotify sketch s ch value := by
  obtain ⟨chains, hr, hs⟩ := hr
  have hrun : ∀ (cbs : List Callback) (s : AccessoryState υ),
      Runs.run (fun s cb => runCallback sketch s ch value cb) s cbs = ArduinoHomeKit.notifyLoop sketch ch value cbs s := by
    intro cbs
    induction cbs with
    | nil => exact fun s => rfl
    | cons cb cbs ih =>
      intro s
      rw [Runs.run, ArduinoHomeKit.notifyLoop]
      cases runCallback sketch s ch value cb with
      | error e => rfl
      | ok t => exact ih t
  have hlength : (chains ch).length < fuel := by rwa [← hs ch, List.length_map] at hfuel
  rw [homekitCharacteristicNotify, notifyLoop_chained (hr.chained ch) hlength, hrun, hs ch]
  rfl

end CallbackHeap

/-! Runs of calls. -/

inductive CallbackOperation
  | add (ch : CharacteristicId) (cb : Callback)
  | remove (ch : CharacteristicId) (cb : Callback)
  | clear (cb : Callback)
  deriving DecidableEq

def CallbackHeap.operate (malloc : CallbackHeap → Nat) (db : Database) (fuel : Nat) (h : CallbackHeap) :
    CallbackOperation → Except Fault CallbackHeap
  | .add ch cb => CallbackHeap.homekitCharacteristicAddNotifyCallback malloc fuel h ch cb
  | .remove ch cb => h.homekitCharacteristicRemoveNotifyCallback fuel ch cb
  | .clear cb => CallbackHeap.homekitAccessoriesClearNotifyCallbacks db fuel h cb

def Database.operate (db : Database) : CallbackOperation → Database
  | .add ch cb => db.homekitCharacteristicAddNotifyCallback ch cb
  | .remove ch cb => db.homekitCharacteristicRemoveNotifyCallback ch cb
  | .clear cb => db.homekitAccessoriesClearNotifyCallbacks cb

/-- The entries of a characteristic after a run of calls. -/
def entries (db : Database) (ops : List CallbackOperation) (ch : CharacteristicId) : List Callback :=
  ((ops.foldl Database.operate db).characteristic ch).callback

namespace CallbackOperation

/-- A pair is taken off by its removal, and by its clearing when the characteristic is in the database. -/
def Removes (db : Database) (ch : CharacteristicId) (cb : Callback) (op : CallbackOperation) : Prop :=
  op = .remove ch cb ∨ op = .clear cb ∧ ch ∈ db.characteristics

instance (db : Database) (ch : CharacteristicId) (cb : Callback) (op : CallbackOperation) :
    Decidable (op.Removes db ch cb) :=
  inferInstanceAs (Decidable (_ ∨ _))

end CallbackOperation

variable {db db' tree : Database} {ops : List CallbackOperation} {op : CallbackOperation} {ch : CharacteristicId}
  {cb : Callback} {malloc : CallbackHeap → Nat}

theorem clear_frame (chs : List CharacteristicId) (db : Database) (cb : Callback) :
    (chs.foldl (fun db ch => db.homekitCharacteristicRemoveNotifyCallback ch cb) db).characteristics = db.characteristics ∧
    ∀ ch, ((chs.foldl (fun db ch => db.homekitCharacteristicRemoveNotifyCallback ch cb) db).characteristic ch).callback =
      if ch ∈ chs then removeCallback cb (db.characteristic ch).callback else (db.characteristic ch).callback := by
  induction chs generalizing db with
  | nil => exact ⟨rfl, fun ch => by simp⟩
  | cons i chs ih =>
    obtain ⟨htree, hcallback⟩ := ih (db.homekitCharacteristicRemoveNotifyCallback i cb)
    refine ⟨htree, fun ch => ?_⟩
    rw [List.foldl_cons, hcallback ch]
    by_cases hi : ch = i
    · subst hi
      rw [Database.homekitCharacteristicRemoveNotifyCallback, setCharacteristic_self, if_pos List.mem_cons_self]
      by_cases hm : ch ∈ chs
      · simp [hm, removeCallback_eq, List.filter_filter]
      · simp [hm]
    · rw [Database.homekitCharacteristicRemoveNotifyCallback, setCharacteristic_of_ne hi]
      simp [hi]

theorem operate_characteristics (db : Database) (op : CallbackOperation) :
    (db.operate op).characteristics = db.characteristics := by
  cases op with
  | add ch cb => rfl
  | remove ch cb => rfl
  | clear cb => exact (clear_frame db.characteristics db cb).1

theorem operate_add (db : Database) (i ch : CharacteristicId) (cb : Callback) :
    ((db.operate (.add i cb)).characteristic ch).callback =
      if ch = i then addCallback cb (db.characteristic ch).callback else (db.characteristic ch).callback := by
  rw [Database.operate, Database.homekitCharacteristicAddNotifyCallback]
  by_cases h : ch = i
  · subst h
    rw [setCharacteristic_self, if_pos rfl]
  · rw [setCharacteristic_of_ne h, if_neg h]

/-- Every other call filters the entries by what it removes. -/
theorem operate_filter (hadd : ∀ i c, op ≠ .add i c) (ch : CharacteristicId) :
    ((db.operate op).characteristic ch).callback =
      (db.characteristic ch).callback.filter (fun cb => ¬ op.Removes db ch cb) := by
  have hall : ∀ l : List Callback, l.filter (fun _ => true) = l := fun l => List.filter_eq_self.mpr (fun _ _ => rfl)
  have hsame : ∀ c d : Callback, (d == c) = decide (c = d) := by
    intro c d
    rw [Bool.eq_iff_iff, beq_iff_eq, decide_eq_true_iff]
    exact eq_comm
  cases op with
  | add i c => exact absurd rfl (hadd i c)
  | remove i c =>
    rw [Database.operate, Database.homekitCharacteristicRemoveNotifyCallback]
    by_cases h : ch = i
    · subst h
      rw [setCharacteristic_self, removeCallback_eq]
      apply List.filter_congr
      intro d _
      simp [CallbackOperation.Removes, bne, hsame]
    · rw [setCharacteristic_of_ne h]
      have h' : ¬ i = ch := fun he => h he.symm
      simp [CallbackOperation.Removes, h', hall]
  | clear c =>
    rw [Database.operate, Database.homekitAccessoriesClearNotifyCallbacks, (clear_frame _ db c).2 ch]
    by_cases h : ch ∈ db.characteristics
    · rw [if_pos h, removeCallback_eq]
      apply List.filter_congr
      intro d _
      simp [CallbackOperation.Removes, h, bne, hsame]
    · rw [if_neg h]
      simp [CallbackOperation.Removes, h, hall]

theorem characteristics_foldl (ops : List CallbackOperation) (db : Database) :
    (ops.foldl Database.operate db).characteristics = db.characteristics := by
  induction ops generalizing db with
  | nil => rfl
  | cons op ops ih => exact (ih _).trans (operate_characteristics db op)

theorem removes_congr (h : db'.characteristics = db.characteristics) : op.Removes db' ch cb ↔ op.Removes db ch cb := by
  rw [CallbackOperation.Removes, CallbackOperation.Removes, h]

theorem entries_add (db : Database) (ops : List CallbackOperation) (i ch : CharacteristicId) (cb : Callback) :
    entries db (ops ++ [.add i cb]) ch = if ch = i then addCallback cb (entries db ops ch) else entries db ops ch := by
  rw [entries, List.foldl_append]
  exact operate_add _ i ch cb

theorem entries_filter (db : Database) (ops : List CallbackOperation) (hadd : ∀ i c, op ≠ .add i c) (ch : CharacteristicId) :
    entries db (ops ++ [op]) ch = (entries db ops ch).filter (fun cb => ¬ op.Removes db ch cb) := by
  rw [entries, List.foldl_append]
  refine (operate_filter hadd ch).trans (List.filter_congr (fun cb _ => ?_))
  rw [decide_eq_decide, removes_congr (characteristics_foldl ops db)]

theorem mem_entries_step (db : Database) (ops : List CallbackOperation) (op : CallbackOperation) (ch : CharacteristicId)
    (cb : Callback) :
    cb ∈ entries db (ops ++ [op]) ch ↔ op = .add ch cb ∨ cb ∈ entries db ops ch ∧ ¬ op.Removes db ch cb := by
  by_cases hadd : ∃ i c, op = .add i c
  · obtain ⟨i, c, rfl⟩ := hadd
    have hkeeps : ¬ (CallbackOperation.add i c).Removes db ch cb := by simp [CallbackOperation.Removes]
    rw [entries_add, CallbackOperation.add.injEq]
    by_cases hi : ch = i
    · rw [if_pos hi, mem_addCallback]
      constructor
      · exact fun h => h.elim (fun h => Or.inl ⟨hi.symm, h.symm⟩) (fun h => Or.inr ⟨h, hkeeps⟩)
      · exact fun h => h.elim (fun h => Or.inl h.2.symm) (fun h => Or.inr h.1)
    · rw [if_neg hi]
      exact ⟨fun h => Or.inr ⟨h, hkeeps⟩, fun h => h.elim (fun h => absurd h.1.symm hi) (fun h => h.1)⟩
  · have hadd : ∀ i c, op ≠ .add i c := fun i c h => hadd ⟨i, c, h⟩
    rw [entries_filter db ops hadd, List.mem_filter, decide_eq_true_iff]
    exact ⟨fun h => Or.inr h, fun h => h.elim (fun h => absurd h (hadd ch cb)) id⟩

/-- A pair was there or was added, and was not taken off since. -/
def Present (db : Database) (ops : List CallbackOperation) (ch : CharacteristicId) (cb : Callback) : Prop :=
  (∃ pre post, ops = pre ++ .add ch cb :: post ∧ ∀ op ∈ post, ¬ op.Removes db ch cb) ∨
  cb ∈ (db.characteristic ch).callback ∧ ∀ op ∈ ops, ¬ op.Removes db ch cb

theorem present_step (db : Database) (ops : List CallbackOperation) (op : CallbackOperation) (ch : CharacteristicId)
    (cb : Callback) :
    Present db (ops ++ [op]) ch cb ↔ op = .add ch cb ∨ Present db ops ch cb ∧ ¬ op.Removes db ch cb := by
  have hadd : ¬ (CallbackOperation.add ch cb).Removes db ch cb := by simp [CallbackOperation.Removes]
  constructor
  · rintro (⟨pre, post, heq, hpost⟩ | ⟨hmem, hall⟩)
    · rcases List.eq_nil_or_concat post with rfl | ⟨post, last, rfl⟩
      · exact Or.inl (List.append_inj_right' heq rfl |> List.singleton_inj.mp)
      · rw [List.concat_eq_append, ← List.cons_append, ← List.append_assoc] at heq
        obtain ⟨hops, hlast⟩ := List.append_inj' heq rfl
        obtain rfl := List.singleton_inj.mp hlast
        rw [List.concat_eq_append, List.forall_mem_append] at hpost
        exact Or.inr ⟨Or.inl ⟨pre, post, hops, hpost.1⟩, hpost.2 _ (List.mem_singleton_self _)⟩
    · rw [List.forall_mem_append] at hall
      exact Or.inr ⟨Or.inr ⟨hmem, hall.1⟩, hall.2 _ (List.mem_singleton_self _)⟩
  · rintro (rfl | ⟨⟨pre, post, rfl, hpost⟩ | ⟨hmem, hall⟩, hop⟩)
    · exact Or.inl ⟨ops, [], rfl, fun _ h => absurd h List.not_mem_nil⟩
    · refine Or.inl ⟨pre, post ++ [op], by simp, ?_⟩
      rw [List.forall_mem_append]
      exact ⟨hpost, fun o ho => List.mem_singleton.mp ho ▸ hop⟩
    · refine Or.inr ⟨hmem, ?_⟩
      rw [List.forall_mem_append]
      exact ⟨hall, fun o ho => List.mem_singleton.mp ho ▸ hop⟩

theorem mem_entries_iff (db : Database) (ops : List CallbackOperation) (ch : CharacteristicId) (cb : Callback) :
    cb ∈ entries db ops ch ↔ Present db ops ch cb := by
  induction ops using List.reverseRecOn with
  | nil =>
    constructor
    · exact fun h => Or.inr ⟨h, fun _ h => absurd h List.not_mem_nil⟩
    · rintro (⟨pre, post, heq, _⟩ | ⟨h, _⟩)
      · simp at heq
      · exact h
  | append_singleton ops op ih => rw [mem_entries_step, present_step, ih]

theorem nodup_entries (h : ((db.characteristic ch).callback).Nodup) (ops : List CallbackOperation) :
    (entries db ops ch).Nodup := by
  induction ops using List.reverseRecOn with
  | nil => exact h
  | append_singleton ops op ih =>
    by_cases hadd : ∃ i c, op = .add i c
    · obtain ⟨i, c, rfl⟩ := hadd
      rw [entries_add]
      by_cases hi : ch = i
      · rw [if_pos hi, addCallback_eq]
        by_cases hc : c ∈ entries db ops ch
        · rwa [if_pos hc]
        · rw [if_neg hc, List.nodup_append]
          refine ⟨ih, List.nodup_singleton c, fun a ha b hb => ?_⟩
          exact List.mem_singleton.mp hb ▸ ne_of_mem_of_not_mem ha hc
      · rwa [if_neg hi]
    · rw [entries_filter db ops (fun i c h => hadd ⟨i, c, h⟩)]
      exact ih.filter _

/-- The entries that survive come first, in their order, and then those that were added. -/
theorem entries_order (db : Database) (ops : List CallbackOperation) (ch : CharacteristicId) :
    ∃ added, entries db ops ch =
      (db.characteristic ch).callback.filter (fun cb => ∀ op ∈ ops, ¬ op.Removes db ch cb) ++ added := by
  induction ops using List.reverseRecOn with
  | nil =>
    refine ⟨[], ?_⟩
    have hall : (db.characteristic ch).callback.filter (fun cb => ∀ op ∈ ([] : List CallbackOperation),
      ¬ op.Removes db ch cb) =
        (db.characteristic ch).callback := List.filter_eq_self.mpr (fun _ _ => by simp)
    rw [hall, List.append_nil]
    rfl
  | append_singleton ops op ih =>
    obtain ⟨added, ih⟩ := ih
    by_cases hadd : ∃ i c, op = .add i c
    · obtain ⟨i, c, rfl⟩ := hadd
      have hsurvive : (db.characteristic ch).callback.filter (fun cb => ∀ op ∈ ops ++ [.add i c], ¬ op.Removes db ch cb) =
          (db.characteristic ch).callback.filter (fun cb => ∀ op ∈ ops, ¬ op.Removes db ch cb) := by
        apply List.filter_congr
        intro cb _
        rw [decide_eq_decide, List.forall_mem_append]
        simp [CallbackOperation.Removes]
      rw [hsurvive, entries_add]
      by_cases hi : ch = i
      · rw [if_pos hi, addCallback_eq]
        by_cases hc : c ∈ entries db ops ch
        · exact ⟨added, by rw [if_pos hc, ih]⟩
        · exact ⟨added ++ [c], by rw [if_neg hc, ih, List.append_assoc]⟩
      · exact ⟨added, by rw [if_neg hi, ih]⟩
    · refine ⟨added.filter (fun cb => ¬ op.Removes db ch cb), ?_⟩
      rw [entries_filter db ops (fun i c h => hadd ⟨i, c, h⟩), ih, List.filter_append, List.filter_filter]
      congr 1
      apply List.filter_congr
      intro cb _
      rw [← Bool.decide_and, decide_eq_decide, List.forall_mem_append]
      simp [and_comm]

/-! The heap after a run. -/

section Heap

variable {h : CallbackHeap} (hmalloc : ∀ h : CallbackHeap, h.node (malloc h) = none)

/-- Clearing fails if the pair is pinned on a characteristic that it comes to. -/
theorem removeAll_refines (chs : List CharacteristicId) (db : Database) (cb : Callback) :
    ∃ n, ∀ fuel, n ≤ fuel → ∀ h : CallbackHeap, h.Refines db →
      ((∃ ch ∈ chs, h.Pinned ch cb) ∧
        Runs.run (fun h ch => h.homekitCharacteristicRemoveNotifyCallback fuel ch cb) h chs = .error .invalidFree) ∨
      ((∀ ch ∈ chs, ¬ h.Pinned ch cb) ∧
        ∃ h', Runs.run (fun h ch => h.homekitCharacteristicRemoveNotifyCallback fuel ch cb) h chs = .ok h' ∧
          h'.Refines (chs.foldl (fun db ch => db.homekitCharacteristicRemoveNotifyCallback ch cb) db) ∧
          ∀ i c, h'.Pinned i c ↔ h.Pinned i c) := by
  induction chs generalizing db with
  | nil => exact ⟨0, fun _ _ h hr => Or.inr ⟨fun ch hch => absurd hch List.not_mem_nil, h, rfl, hr, fun _ _ => .rfl⟩⟩
  | cons ch chs ih =>
    obtain ⟨n, hn⟩ := ih (db.homekitCharacteristicRemoveNotifyCallback ch cb)
    refine ⟨max n ((db.characteristic ch).callback.length + 1), fun fuel hfuel h hr => ?_⟩
    have hroom : (db.characteristic ch).callback.length < fuel := by omega
    rw [Runs.run]
    rcases h.homekitCharacteristicRemoveNotifyCallback_refines hr ch cb hroom with ⟨hpinned, herror⟩ |
      ⟨hfree, h₁, hok, hr₁, hsame⟩
    · exact Or.inl ⟨⟨ch, List.mem_cons_self, hpinned⟩, by rw [herror]⟩
    · rcases hn fuel (by omega) h₁ hr₁ with ⟨⟨i, hi, hpinned⟩, herror⟩ | ⟨hrest, h', hrun, hr', hsame'⟩
      · exact Or.inl ⟨⟨i, List.mem_cons_of_mem _ hi, (hsame i cb).mp hpinned⟩, by rw [hok]; exact herror⟩
      · refine Or.inr ⟨List.forall_mem_cons.mpr ⟨hfree, fun i hi => ?_⟩, h', by rw [hok]; exact hrun, hr',
          fun i c => (hsame' i c).trans (hsame i c)⟩
        rw [← hsame i cb]
        exact hrest i hi

include hmalloc

/-- A call fails exactly if it takes off a pinned pair. -/
theorem operate_refines (htree : tree.characteristics = db.characteristics) (op : CallbackOperation) :
    ∃ n, ∀ fuel, n ≤ fuel → ∀ h : CallbackHeap, h.Refines db →
      ((∃ i c, op.Removes tree i c ∧ h.Pinned i c) ∧ h.operate malloc tree fuel op = .error .invalidFree) ∨
      ((∀ i c, op.Removes tree i c → ¬ h.Pinned i c) ∧
        ∃ h', h.operate malloc tree fuel op = .ok h' ∧ h'.Refines (db.operate op) ∧
          ∀ i c, h'.Pinned i c ↔ h.Pinned i c) := by
  cases op with
  | add ch cb =>
    refine ⟨(db.characteristic ch).callback.length + 1, fun fuel hfuel h hr => Or.inr ⟨fun i c hremoves => ?_, ?_⟩⟩
    · simp [CallbackOperation.Removes] at hremoves
    · exact CallbackHeap.homekitCharacteristicAddNotifyCallback_refines hmalloc hr ch cb hfuel
  | remove ch cb =>
    refine ⟨(db.characteristic ch).callback.length + 1, fun fuel hfuel h hr => ?_⟩
    rcases CallbackHeap.homekitCharacteristicRemoveNotifyCallback_refines hr ch cb hfuel with ⟨hpinned, herror⟩ |
      ⟨hfree, hok⟩
    · exact Or.inl ⟨⟨ch, cb, Or.inl rfl, hpinned⟩, herror⟩
    · refine Or.inr ⟨fun i c hremoves => ?_, hok⟩
      obtain ⟨rfl, rfl⟩ : ch = i ∧ cb = c := by simpa [CallbackOperation.Removes] using hremoves
      exact hfree
  | clear cb =>
    rw [Database.operate, Database.homekitAccessoriesClearNotifyCallbacks, ← htree]
    obtain ⟨n, hn⟩ := removeAll_refines tree.characteristics db cb
    refine ⟨n, fun fuel hfuel h hr => ?_⟩
    rcases hn fuel hfuel h hr with ⟨⟨ch, hch, hpinned⟩, herror⟩ | ⟨hfree, hok⟩
    · exact Or.inl ⟨⟨ch, cb, Or.inr ⟨rfl, hch⟩, hpinned⟩, herror⟩
    · refine Or.inr ⟨fun i c hremoves => ?_, hok⟩
      obtain ⟨rfl, hi⟩ : cb = c ∧ i ∈ tree.characteristics := by simpa [CallbackOperation.Removes] using hremoves
      exact hfree i hi

/-- A run fails exactly if one of its calls takes off a pair that is pinned at the start: what is
pinned stays so, and nothing else becomes so. -/
theorem run_refines (htree : tree.characteristics = db.characteristics) (ops : List CallbackOperation) :
    ∃ n, ∀ fuel, n ≤ fuel → ∀ h : CallbackHeap, h.Refines db →
      ((∃ op ∈ ops, ∃ i c, op.Removes tree i c ∧ h.Pinned i c) ∧
        Runs.run (CallbackHeap.operate malloc tree fuel) h ops = .error .invalidFree) ∨
      ((∀ op ∈ ops, ∀ i c, op.Removes tree i c → ¬ h.Pinned i c) ∧
        ∃ h', Runs.run (CallbackHeap.operate malloc tree fuel) h ops = .ok h' ∧
          h'.Refines (ops.foldl Database.operate db)) := by
  induction ops generalizing db with
  | nil => exact ⟨0, fun _ _ h hr => Or.inr ⟨fun op hop => absurd hop List.not_mem_nil, h, rfl, hr⟩⟩
  | cons op ops ih =>
    obtain ⟨m, hm⟩ := operate_refines hmalloc htree op
    obtain ⟨n, hn⟩ := ih (htree.trans (operate_characteristics db op).symm)
    refine ⟨max m n, fun fuel hfuel h hr => ?_⟩
    rw [Runs.run]
    rcases hm fuel (by omega) h hr with ⟨hpinned, herror⟩ | ⟨hfree, h₁, hok, hr₁, hsame⟩
    · exact Or.inl ⟨⟨op, List.mem_cons_self, hpinned⟩, by rw [herror]⟩
    · rcases hn fuel (by omega) h₁ hr₁ with ⟨⟨o, ho, i, c, hremoves, hpinned⟩, herror⟩ | ⟨hrest, h', hrun, hr'⟩
      · exact Or.inl ⟨⟨o, List.mem_cons_of_mem _ ho, i, c, hremoves, (hsame i c).mp hpinned⟩, by rw [hok]; exact herror⟩
      · refine Or.inr ⟨List.forall_mem_cons.mpr ⟨hfree, fun o ho i c hremoves => ?_⟩, h', by rw [hok]; exact hrun, hr'⟩
        rw [← hsame i c]
        exact hrest o ho i c hremoves

end Heap

/-- What the heap holds after a run is an ordered set. The loops have as many turns as they need. -/
structure OrderedSetRun (db : Database) (ops : List CallbackOperation) (h : CallbackHeap) : Prop where
  refines : h.Refines (ops.foldl Database.operate db)
  nodup : ∀ ch, (entries db ops ch).Nodup
  order : ∀ ch, ∃ added, entries db ops ch =
    (db.characteristic ch).callback.filter (fun cb => ∀ op ∈ ops, ¬ op.Removes db ch cb) ++ added
  removal : ∀ pre op post, ops = pre ++ op :: post → (∀ i c, op ≠ .add i c) →
    ∀ ch, entries db (pre ++ [op]) ch = (entries db pre ch).filter (fun cb => ¬ op.Removes db ch cb)
  has : ∀ ch cb, ∃ b n, (∀ fuel, n ≤ fuel → h.homekitCharacteristicHasNotifyCallback fuel ch cb = .ok b) ∧
    (b = true ↔ Present db ops ch cb)
  notify : ∀ ch, ∃ n, ∀ fuel, n ≤ fuel → ∀ (σ : Type) (call : σ → Callback → Except Fault σ) (s : σ),
    h.homekitCharacteristicNotify call fuel ch s = Runs.run call s (entries db ops ch)

/-- The linked lists refine ordered sets exactly in the runs that take off no pair of the initial
lists whose node is no block: a literal of the application, or a part of a clone. -/
theorem callbackLists_orderedSet_iff (hmalloc : ∀ h : CallbackHeap, h.node (malloc h) = none) {h : CallbackHeap}
    (hr : h.Refines db) (hnodup : ∀ ch, (db.characteristic ch).callback.Nodup) (ops : List CallbackOperation) :
    ∃ n, ∀ fuel, n ≤ fuel →
      ((∃ h', Runs.run (CallbackHeap.operate malloc db fuel) h ops = .ok h' ∧ OrderedSetRun db ops h') ↔
        ∀ op ∈ ops, ∀ ch cb, op.Removes db ch cb → ¬ h.Pinned ch cb) := by
  obtain ⟨n, hn⟩ := run_refines hmalloc rfl ops
  refine ⟨n, fun fuel hfuel => ?_⟩
  rcases hn fuel hfuel h hr with ⟨⟨op, hop, i, c, hremoves, hpinned⟩, herror⟩ | ⟨hfree, h', hrun, hr'⟩
  · refine iff_of_false ?_ (fun hfree => hfree op hop i c hremoves hpinned)
    rintro ⟨h', hrun, _⟩
    cases herror.symm.trans hrun
  refine iff_of_true ?_ hfree
  obtain ⟨chains, hchains, hs⟩ := hr'
  refine ⟨h', hrun, ⟨chains, hchains, hs⟩, fun ch => nodup_entries (hnodup ch) ops, entries_order db ops,
    fun pre op post _ hadd ch => entries_filter db pre hadd ch, fun ch cb => ?_, fun ch => ?_⟩
  · refine ⟨decide (cb ∈ entries db ops ch), (chains ch).length + 1, fun k hk => ?_, ?_⟩
    · rw [CallbackHeap.homekitCharacteristicHasNotifyCallback, CallbackHeap.hasLoop_chained (hchains.chained ch) hk, hs ch]
      rfl
    · rw [decide_eq_true_iff, mem_entries_iff]
  · refine ⟨(chains ch).length + 1, fun k hk σ call s => ?_⟩
    rw [CallbackHeap.homekitCharacteristicNotify, CallbackHeap.notifyLoop_chained (hchains.chained ch) hk, hs ch]
    rfl

/-- A malloc that takes the first free address. -/
def firstFree (h : CallbackHeap) : Nat :=
  Nat.find (p := fun p => h.node p = none) (by
    obtain ⟨n, hn⟩ := h.finite
    exact ⟨n, hn n (Nat.le_refl n)⟩)

theorem firstFree_free (h : CallbackHeap) : h.node (firstFree h) = none :=
  Nat.find_spec (p := fun p => h.node p = none) _

/-- A callback of the application. -/
def userCallback : Callback := { function := .user 0, context := 0 }

/-- A characteristic with HOMEKIT_CHARACTERISTIC_CALLBACK as its callback, in a database of its own. -/
def literalDatabase : Database :=
  benchDatabase [{ benchCharacteristic 9 (benchScalar .bool 0) with callback := [userCallback] }]

/-- The node that the macro makes is a literal. -/
def literalCallbacks : CallbackHeap where
  node p := if p = 0 then some { callback := userCallback, next := none, block := false } else none
  callback ch := if ch = 0 then some 0 else none
  finite := ⟨1, fun _ hp => if_neg (Nat.ne_of_gt hp)⟩

theorem literalDatabase_callback (ch : CharacteristicId) :
    (literalDatabase.characteristic ch).callback = if ch = 0 then [userCallback] else [] := by
  cases ch <;> rfl

theorem literalDatabase_nodup (ch : CharacteristicId) : (literalDatabase.characteristic ch).callback.Nodup := by
  rw [literalDatabase_callback]
  split
  · exact List.nodup_singleton _
  · exact List.nodup_nil

theorem literalCallbacks_refines : literalCallbacks.Refines literalDatabase := by
  refine ⟨fun ch => if ch = 0 then [(0, userCallback)] else [], ⟨fun ch => ?_, fun ch => ?_, fun ch ch' hne => ?_⟩, fun ch => ?_⟩
  · by_cases hch : ch = 0
    · subst hch
      exact .cons rfl .nil
    · simp only [literalCallbacks, if_neg hch]
      exact .nil
  · split
    · exact List.nodup_singleton _
    · exact List.nodup_nil
  · by_cases hch : ch = 0
    · rw [if_neg (fun h : ch' = 0 => hne (hch.trans h.symm))]
      exact List.disjoint_nil_right _
    · rw [if_neg hch]
      exact List.disjoint_nil_left _
  · rw [literalDatabase_callback]
    by_cases hch : ch = 0 <;> simp [hch]

/-- A client subscribes to the characteristic and unsubscribes: the literal stays where it is. -/
theorem callbackLists_orderedSet_iff_subscription :
    ∃ n, ∀ fuel, n ≤ fuel → ∃ h', Runs.run (CallbackHeap.operate firstFree literalDatabase fuel) literalCallbacks
        [.add 0 (clientCallback 1), .add 0 (clientCallback 2), .remove 0 (clientCallback 1)] = .ok h' ∧
      OrderedSetRun literalDatabase
        [.add 0 (clientCallback 1), .add 0 (clientCallback 2), .remove 0 (clientCallback 1)] h' := by
  obtain ⟨n, hn⟩ := callbackLists_orderedSet_iff firstFree_free literalCallbacks_refines literalDatabase_nodup
    [.add 0 (clientCallback 1), .add 0 (clientCallback 2), .remove 0 (clientCallback 1)]
  refine ⟨n, fun fuel hfuel => (hn fuel hfuel).mpr (fun op hop ch cb hremoves hpinned => ?_)⟩
  obtain ⟨rfl, rfl⟩ : ch = 0 ∧ cb = clientCallback 1 := by
    simp only [List.mem_cons, List.not_mem_nil, or_false] at hop
    rcases hop with rfl | rfl | rfl <;> simp [CallbackOperation.Removes] at hremoves
    exact ⟨hremoves.1.symm, hremoves.2.symm⟩
  have hchain : Chained literalCallbacks.node (literalCallbacks.callback 0) [(0, userCallback)] := .cons rfl .nil
  obtain ⟨e, he, hecb, _⟩ := (CallbackHeap.pinned_iff hchain).mp hpinned
  rw [List.mem_singleton.mp he] at hecb
  exact absurd hecb (by decide)

/-- Removing the literal hands it to free(). -/
theorem literal_callback_freed :
    literalCallbacks.Refines literalDatabase ∧ (∀ ch, (literalDatabase.characteristic ch).callback.Nodup) ∧
      (∀ fuel, Runs.run (CallbackHeap.operate firstFree literalDatabase (fuel + 1)) literalCallbacks
        [.remove 0 userCallback] = .error .invalidFree) ∧
      ¬ ∃ n, ∀ fuel, n ≤ fuel → ∃ h', Runs.run (CallbackHeap.operate firstFree literalDatabase fuel) literalCallbacks
        [.remove 0 userCallback] = .ok h' ∧ OrderedSetRun literalDatabase [.remove 0 userCallback] h' := by
  have hfault : ∀ fuel, Runs.run (CallbackHeap.operate firstFree literalDatabase (fuel + 1)) literalCallbacks
      [.remove 0 userCallback] = .error .invalidFree := fun _ => rfl
  refine ⟨literalCallbacks_refines, literalDatabase_nodup, hfault, ?_⟩
  rintro ⟨n, hn⟩
  obtain ⟨h', hrun, _⟩ := hn (n + 1) (Nat.le_succ n)
  cases (hfault n).symm.trans hrun

end ArduinoHomeKit
