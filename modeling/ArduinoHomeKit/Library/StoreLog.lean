import Mathlib.Data.List.Basic
import Mathlib.Logic.Function.Basic

/-! The stores of a program into a block of memory, in order. What is read back later is what
was stored, as long as nothing else went there. -/

namespace StoreLog

variable {α : Type*} {m : Nat → α} {log log' : List (Nat × α)} {data : List α} {offset lo hi : Nat}

/-- The memory after the stores. -/
def apply (m : Nat → α) (log : List (Nat × α)) : Nat → α :=
  log.foldl (fun m s => Function.update m s.1 s.2) m

/-- One store for each element, upwards. -/
def copy (offset : Nat) (data : List α) : List (Nat × α) := data.mapIdx (fun i a => (offset + i, a))

/-- Every store is in the range. -/
def Within (lo hi : Nat) (log : List (Nat × α)) : Prop := ∀ s ∈ log, lo ≤ s.1 ∧ s.1 < hi

/-- The data lie in the memory from the offset on. -/
def Lies (m : Nat → α) (offset : Nat) (data : List α) : Prop := ∀ i (h : i < data.length), m (offset + i) = data[i]

theorem apply_append : apply m (log ++ log') = apply (apply m log) log' := List.foldl_append

theorem apply_cons (s : Nat × α) : apply m (s :: log) = apply (Function.update m s.1 s.2) log := rfl

theorem within_append : Within lo hi (log ++ log') ↔ Within lo hi log ∧ Within lo hi log' := List.forall_mem_append

theorem Within.mono {lo' hi' : Nat} (h : Within lo hi log) (hlo : lo' ≤ lo) (hhi : hi ≤ hi') : Within lo' hi' log :=
  fun s hs => ⟨Nat.le_trans hlo (h s hs).1, Nat.lt_of_lt_of_le (h s hs).2 hhi⟩

theorem within_copy (offset : Nat) (data : List α) : Within offset (offset + data.length) (copy offset data) := by
  intro s hs
  obtain ⟨i, hi, rfl⟩ := List.mem_mapIdx.mp hs
  exact ⟨Nat.le_add_right offset i, Nat.add_lt_add_left hi offset⟩

theorem copy_last (offset : Nat) (data : List α) (h : 0 < data.length) :
    ∃ s ∈ copy offset data, s.1 + 1 = offset + data.length := by
  refine ⟨(offset + (data.length - 1), data[data.length - 1]), ?_, ?_⟩
  · exact List.mem_mapIdx.mpr ⟨data.length - 1, Nat.sub_lt h Nat.one_pos, rfl⟩
  · show offset + (data.length - 1) + 1 = _
    omega

/-- Stores elsewhere leave a place as it is. -/
theorem apply_outside {i : Nat} (h : ∀ s ∈ log, s.1 ≠ i) : apply m log i = m i := by
  induction log generalizing m with
  | nil => rfl
  | cons s log ih =>
    obtain ⟨hs, hlog⟩ := List.forall_mem_cons.mp h
    rw [apply_cons, ih hlog, Function.update_of_ne hs.symm]

/-- What is found where something was stored does not depend on the memory before. -/
theorem apply_stored {i : Nat} (h : ∃ s ∈ log, s.1 = i) (m m' : Nat → α) : apply m log i = apply m' log i := by
  induction log generalizing m m' with
  | nil => simp at h
  | cons s log ih =>
    rw [apply_cons, apply_cons]
    by_cases hlog : ∃ s ∈ log, s.1 = i
    · exact ih hlog _ _
    · have hout : ∀ s ∈ log, s.1 ≠ i := fun s hs he => hlog ⟨s, hs, he⟩
      obtain ⟨s', hs', rfl⟩ := h
      rcases List.mem_cons.mp hs' with rfl | hs'
      · rw [apply_outside hout, apply_outside hout, Function.update_self, Function.update_self]
      · exact absurd rfl (hout s' hs')

theorem copy_cons (a : α) : copy offset (a :: data) = (offset, a) :: copy (offset + 1) data := by
  simp only [copy, List.mapIdx_cons, Nat.add_zero, Nat.add_assoc, Nat.add_comm 1]

theorem lies_copy : Lies (apply m (copy offset data)) offset data := by
  induction data generalizing m offset with
  | nil => exact fun i h => absurd h (Nat.not_lt_zero i)
  | cons a data ih =>
    rw [copy_cons, apply_cons]
    intro i h
    cases i with
    | zero =>
      show StoreLog.apply (Function.update m offset a) (copy (offset + 1) data) offset = a
      rw [apply_outside (fun s hs => Nat.ne_of_gt (within_copy _ _ s hs).1), Function.update_self]
    | succ i =>
      have hrest : Lies (StoreLog.apply (Function.update m offset a) (copy (offset + 1) data)) (offset + 1) data := ih
      have hi := hrest i (Nat.lt_of_succ_lt_succ h)
      rwa [Nat.add_assoc, Nat.add_comm 1] at hi

/-- Data stay where they are while the stores go in front of them or behind. -/
theorem Lies.apply (h : Lies m offset data) (hw : Within lo hi log) (hd : hi ≤ offset ∨ offset + data.length ≤ lo) :
    Lies (apply m log) offset data := by
  intro i hi'
  rw [apply_outside, h i hi']
  intro s hs
  have hrange := hw s hs
  omega

theorem lies_append {data' : List α} :
    Lies m offset (data ++ data') ↔ Lies m offset data ∧ Lies m (offset + data.length) data' := by
  constructor
  · intro h
    constructor
    · intro i hi
      rw [h i (by rw [List.length_append]; omega), List.getElem_append_left hi]
    · intro i hi
      have hi' := h (data.length + i) (by rw [List.length_append]; omega)
      rw [Nat.add_assoc, hi', List.getElem_append_right (Nat.le_add_right _ _)]
      simp only [Nat.add_sub_cancel_left]
  · rintro ⟨h, h'⟩ i hi
    by_cases hlt : i < data.length
    · rw [h i hlt, List.getElem_append_left hlt]
    · have hi' := h' (i - data.length) (by rw [List.length_append] at hi; omega)
      rw [List.getElem_append_right (Nat.le_of_not_lt hlt), ← hi']
      congr 1
      omega

theorem lies_singleton {a : α} : Lies m offset [a] ↔ m offset = a := by
  constructor
  · exact fun h => h 0 Nat.one_pos
  · intro h i hi
    obtain rfl := Nat.lt_one_iff.mp hi
    exact h

/-- What is read of the memory from the offset on. -/
theorem Lies.range_map (h : Lies m offset data) : (List.range data.length).map (fun i => m (offset + i)) = data := by
  apply List.ext_getElem
  · rw [List.length_map, List.length_range]
  · intro i _ hi
    rw [List.getElem_map, List.getElem_range, h i hi]

end StoreLog
