import Mathlib.Tactic.IntervalCases
import ArduinoHomeKit.Server

/-! The nonce of a frame. It is written digit by digit into a buffer that is cleared once per
call, so that a later frame of the call meets the digits of the one before. -/

namespace ArduinoHomeKit

variable {nonce : Bytes} {count n : Nat}

/-- The eight bytes of a number, the lowest first. -/
def le64 (n : Nat) : Bytes := (List.range 8).map (fun i => UInt8.ofNat (n / 256 ^ i % 256))

/-- Every digit but the leading zeros is written. -/
theorem writeCounter_getElem? (fuel i x : Nat) (nonce : Bytes) (p : Nat) :
    (writeCounter fuel i x nonce)[p]? =
      if i ≤ p ∧ p < i + fuel ∧ x / 256 ^ (p - i) ≠ 0 ∧ p < nonce.length then
        some (UInt8.ofNat (x / 256 ^ (p - i) % 256))
      else nonce[p]? := by
  induction fuel generalizing i x nonce with
  | zero =>
    rw [writeCounter, if_neg (by omega)]
  | succ fuel ih =>
    rw [writeCounter]
    split
    · rename_i hx
      rw [if_neg (by simp [hx])]
    · rename_i hx
      rw [ih, List.length_set, List.getElem?_set]
      by_cases hp : p = i
      · subst hp
        have hlow : ¬ (p + 1 ≤ p) := by omega
        by_cases hlen : p < nonce.length
        · simp [hlow, hx, hlen]
        · simp [hlow, hlen]
      · by_cases hlt : i < p
        · have hdiv : x / 256 / 256 ^ (p - (i + 1)) = x / 256 ^ (p - i) := by
            have hexp : p - i = p - (i + 1) + 1 := by omega
            rw [hexp, Nat.pow_succ', Nat.div_div_eq_div_mul]
          have hiff : (i + 1 ≤ p ∧ p < i + 1 + fuel ∧ x / 256 ^ (p - i) ≠ 0 ∧ p < nonce.length) ↔
              (i ≤ p ∧ p < i + (fuel + 1) ∧ x / 256 ^ (p - i) ≠ 0 ∧ p < nonce.length) := by
            constructor <;> rintro ⟨h1, h2, h3, h4⟩ <;> exact ⟨by omega, by omega, h3, h4⟩
          rw [hdiv]
          simp only [hiff, Ne.symm hp, if_false]
        · rw [if_neg (by omega), if_neg (fun h => hp h.symm), if_neg (by omega)]

/-- A buffer that holds nothing behind the digits of the counter. -/
structure CountsTo (count : Nat) (nonce : Bytes) : Prop where
  length : nonce.length = 12
  head : ∀ p < 4, nonce[p]? = some 0
  tail : ∀ p, 4 ≤ p → p < 12 → count / 256 ^ (p - 4) = 0 → nonce[p]? = some 0

theorem countsTo_zeroNonce (count : Nat) : CountsTo count zeroNonce := by
  have hz : ∀ p < 12, zeroNonce[p]? = some 0 := by
    intro p hp
    rw [zeroNonce, List.getElem?_replicate, if_pos hp]
  exact ⟨by simp [zeroNonce], fun p hp => hz p (by omega), fun p _ hp _ => hz p hp⟩

theorem le64_getElem? {i : Nat} (hi : i < 8) : (le64 n)[i]? = some (UInt8.ofNat (n / 256 ^ i % 256)) := by
  simp [le64, hi]

/-- Counting up overwrites every digit that was there. -/
theorem frameNonce_eq (h : CountsTo count nonce) (hle : count ≤ n) :
    frameNonce nonce n = [0, 0, 0, 0] ++ le64 n := by
  refine List.ext_getElem? (fun p => ?_)
  rw [frameNonce, writeCounter_getElem?]
  by_cases h4 : p < 4
  · rw [if_neg (by omega), h.head p h4, List.getElem?_append_left (by simpa using h4)]
    interval_cases p <;> rfl
  · rw [List.getElem?_append_right (by simpa using Nat.le_of_not_lt h4)]
    show _ = (le64 n)[p - 4]?
    by_cases h12 : p < 12
    · rw [le64_getElem? (by omega)]
      by_cases hz : n / 256 ^ (p - 4) = 0
      · have hc : count / 256 ^ (p - 4) = 0 := Nat.le_zero.mp (hz ▸ Nat.div_le_div_right hle)
        rw [if_neg (by simp [hz]), h.tail p (by omega) h12 hc, hz]
        rfl
      · rw [if_pos ⟨by omega, by omega, hz, by rw [h.length]; exact h12⟩]
    · have hnone : nonce[p]? = none := List.getElem?_eq_none (by rw [h.length]; omega)
      rw [if_neg (by omega), hnone]
      exact (List.getElem?_eq_none (by simp [le64]; omega)).symm

theorem countsTo_frameNonce (h : CountsTo count nonce) (hle : count ≤ n) : CountsTo n (frameNonce nonce n) := by
  rw [frameNonce_eq h hle]
  refine ⟨by simp [le64], fun p hp => ?_, fun p h4 h12 hz => ?_⟩
  · interval_cases p <;> rfl
  · rw [List.getElem?_append_right (by simpa using h4)]
    show (le64 n)[p - 4]? = some 0
    rw [le64_getElem? (by omega), hz]
    rfl

/-- The buffer of the call makes no difference. -/
theorem frameNonce_congr (h : CountsTo count nonce) (hle : count ≤ n) : frameNonce nonce n = frameNonce zeroNonce n := by
  rw [frameNonce_eq h hle, frameNonce_eq (countsTo_zeroNonce 0) (Nat.zero_le n)]

theorem eq_of_digits {b k m n : Nat} (hm : m < b ^ k) (hn : n < b ^ k)
    (h : ∀ i < k, m / b ^ i % b = n / b ^ i % b) : m = n := by
  induction k generalizing m n with
  | zero => rw [Nat.lt_one_iff.mp hm, Nat.lt_one_iff.mp hn]
  | succ k ih =>
    have hdiv : m / b = n / b := by
      refine ih (Nat.div_lt_of_lt_mul (Nat.pow_succ' ▸ hm)) (Nat.div_lt_of_lt_mul (Nat.pow_succ' ▸ hn)) ?_
      intro i hi
      simpa only [Nat.pow_succ', ← Nat.div_div_eq_div_mul] using h (i + 1) (Nat.succ_lt_succ hi)
    have hmod : m % b = n % b := by simpa using h 0 (Nat.succ_pos k)
    rw [← Nat.div_add_mod m b, hdiv, hmod, Nat.div_add_mod]

theorem le64_injective {m : Nat} (hm : m < 2 ^ 64) (hn : n < 2 ^ 64) (h : le64 m = le64 n) : m = n := by
  refine eq_of_digits (b := 256) (k := 8) hm hn (fun i hi => ?_)
  have hh := congrArg (fun l => l[i]?) h
  simp only [le64_getElem? hi, Option.some.injEq] at hh
  have hnat := congrArg UInt8.toNat hh
  simpa using hnat

end ArduinoHomeKit
