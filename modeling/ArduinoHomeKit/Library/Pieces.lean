import Mathlib.Data.List.Basic

/-! Cutting a list into pieces of a given size. -/

namespace Pieces

variable {α : Type*} {n : Nat}

/-- Pieces of `n` elements, the last one perhaps shorter, and at most `fuel` of them. -/
def cut (n : Nat) : Nat → List α → List (List α)
  | 0, _ => []
  | _ + 1, [] => []
  | fuel + 1, a :: l => (a :: l).take n :: cut n fuel ((a :: l).drop n)

theorem cut_nil (n fuel : Nat) : cut n fuel ([] : List α) = [] := by cases fuel <;> rfl

theorem cut_succ {fuel : Nat} {l : List α} (h : l ≠ []) : cut n (fuel + 1) l = l.take n :: cut n fuel (l.drop n) := by
  cases l with
  | nil => exact absurd rfl h
  | cons a l => rfl

/-- With enough fuel nothing is lost. -/
theorem flatten_cut (hn : 0 < n) {fuel : Nat} {l : List α} (h : l.length ≤ fuel) : (cut n fuel l).flatten = l := by
  induction fuel generalizing l with
  | zero => simp [cut, List.length_eq_zero_iff.mp (Nat.le_zero.mp h)]
  | succ fuel ih =>
    cases l with
    | nil => rfl
    | cons a l =>
      have hlen : ((a :: l).drop n).length ≤ fuel := by
        simp only [List.length_drop, List.length_cons] at h ⊢
        omega
      rw [cut, List.flatten_cons, ih hlen, List.take_append_drop]

theorem length_of_mem_cut (hn : 0 < n) {fuel : Nat} {l piece : List α} (h : piece ∈ cut n fuel l) :
    0 < piece.length ∧ piece.length ≤ n := by
  induction fuel generalizing l with
  | zero => simp [cut] at h
  | succ fuel ih =>
    cases l with
    | nil => simp [cut] at h
    | cons a l =>
      rcases List.mem_cons.mp h with rfl | h
      · simp only [List.length_take, List.length_cons]
        omega
      · exact ih h

end Pieces
