import Mathlib.Data.List.TakeWhile

/-! C strings as byte lists. The terminating NUL of a string is its first zero byte or
the end of the list, so a list without zeros stands for a terminated copy of itself. -/

namespace CString

/-- The byte a string pointer points at. -/
def first : List UInt8 → UInt8
  | [] => 0
  | b :: _ => b

def strncmp : Nat → List UInt8 → List UInt8 → Int
  | 0, _, _ => 0
  | n + 1, a, b =>
    if first a ≠ first b then (first a).toNat - (first b).toNat
    else if first a = 0 then 0
    else strncmp n a.tail b.tail

/-- The `n` bytes that strncpy writes: the string, padded with zeros. -/
def strncpy : Nat → List UInt8 → List UInt8
  | 0, _ => []
  | n + 1, s =>
    if first s = 0 then List.replicate (n + 1) 0 else first s :: strncpy n s.tail

/-- The part of a string that comparison and copying of `n` bytes can see. -/
def strndup (s : List UInt8) (n : Nat) : List UInt8 :=
  (s.take n).takeWhile (fun b => b != 0)

/-- The whole string. -/
def strdup (s : List UInt8) : List UInt8 := s.takeWhile (fun b => b != 0)

@[simp] theorem strdup_strdup (s : List UInt8) : strdup (strdup s) = strdup s := by
  rw [strdup.eq_def (strdup s), List.takeWhile_eq_self_iff]
  intro b hb
  exact List.mem_takeWhile_imp (p := fun b => b != 0) hb

@[simp] theorem strndup_zero (s : List UInt8) : strndup s 0 = [] := by simp [strndup]

@[simp] theorem strndup_nil (n : Nat) : strndup [] n = [] := by simp [strndup]

theorem strndup_cons (b : UInt8) (s : List UInt8) (n : Nat) :
    strndup (b :: s) (n + 1) = if b = 0 then [] else b :: strndup s n := by
  by_cases hb : b = 0 <;> simp [strndup, hb]

theorem strndup_succ (s : List UInt8) (n : Nat) :
    strndup s (n + 1) = if first s = 0 then [] else first s :: strndup s.tail n := by
  cases s with
  | nil => simp [first]
  | cons b s => exact strndup_cons b s n

theorem strncmp_eq_zero_iff {n : Nat} {a b : List UInt8} :
    strncmp n a b = 0 ↔ strndup a n = strndup b n := by
  induction n generalizing a b with
  | zero => simp [strncmp]
  | succ n ih =>
    rw [strncmp, strndup_succ, strndup_succ]
    by_cases he : first a = first b
    · by_cases hz : first b = 0
      · simp only [he, hz, ne_eq, not_true_eq_false, if_false, if_true]
      · simp only [he, ne_eq, not_true_eq_false, if_false, hz, ih, List.cons.injEq, true_and]
    · have hne : ((first a).toNat : Int) - (first b).toNat ≠ 0 := by
        intro hh
        exact he (UInt8.toNat_inj.mp (by omega))
      rw [if_pos he]
      simp only [hne, false_iff]
      by_cases ha : first a = 0 <;> by_cases hb : first b = 0
      · exact absurd (ha.trans hb.symm) he
      · simp only [ha, hb, if_true, if_false]; exact List.cons_ne_nil _ _ |>.symm
      · simp only [ha, hb, if_true, if_false]; exact List.cons_ne_nil _ _
      · simp only [ha, hb, if_false, List.cons.injEq, he, false_and, not_false_eq_true]

@[simp] theorem length_strncpy (n : Nat) (s : List UInt8) : (strncpy n s).length = n := by
  induction n generalizing s with
  | zero => rfl
  | succ n ih =>
    rw [strncpy]
    split <;> simp [ih]

@[simp] theorem strndup_strncpy (n : Nat) (s : List UInt8) :
    strndup (strncpy n s) n = strndup s n := by
  induction n generalizing s with
  | zero => simp
  | succ n ih =>
    rw [strncpy, strndup_succ s]
    by_cases hz : first s = 0
    · rw [if_pos hz, if_pos hz, List.replicate_succ, strndup_cons, if_pos rfl]
    · rw [if_neg hz, if_neg hz, strndup_cons, if_neg hz, ih]

theorem strndup_idem {s : List UInt8} {m n : Nat} (h : m ≤ n) :
    strndup (strndup s n) m = strndup s m := by
  induction m generalizing s n with
  | zero => simp
  | succ m ih =>
    obtain ⟨k, rfl⟩ : ∃ k, n = k + 1 := ⟨n - 1, by omega⟩
    rw [strndup_succ s k, strndup_succ s m]
    by_cases hz : first s = 0
    · rw [if_pos hz, if_pos hz, strndup_nil]
    · rw [if_neg hz, if_neg hz, strndup_cons, if_neg hz, ih (by omega)]

/-- A copy of the whole string is as good as the string. -/
theorem strndup_full (s : List UInt8) (m : Nat) : strndup (strndup s s.length) m = strndup s m := by
  have h : strndup s s.length = strndup s (max s.length m) := by
    simp only [strndup, List.take_length, List.take_of_length_le (Nat.le_max_left s.length m)]
  rw [h, strndup_idem (Nat.le_max_right s.length m)]

end CString
