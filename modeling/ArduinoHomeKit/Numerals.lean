import ArduinoHomeKit.JsonStream
import ArduinoHomeKit.Library.JsonText

/-! The numerals that the JSON writer prints, read back. -/

namespace ArduinoHomeKit

variable {n : Nat} {m : Int} {l : Bytes}

theorem decimal_eq_map (n : Nat) : decimal n = (Nat.toDigits 10 n).map (fun c => UInt8.ofNat c.toNat) := by
  rw [decimal, ascii, Nat.toString_eq_ofList_toDigits, String.toList_ofList]

theorem digitChar_byte : ∀ n < 10, UInt8.ofNat (Nat.digitChar n).toNat = UInt8.ofNat (48 + n) := by
  decide

theorem decimal_of_lt (h : n < 10) : decimal n = [UInt8.ofNat (48 + n)] := by
  rw [decimal_eq_map, Nat.toDigits_of_lt_base h, List.map_singleton, digitChar_byte n h]

/-- The last digit stands behind the others. -/
theorem decimal_of_le (h : 10 ≤ n) : decimal n = decimal (n / 10) ++ [UInt8.ofNat (48 + n % 10)] := by
  rw [decimal_eq_map, decimal_eq_map, Nat.toDigits_of_base_le (by decide) h, List.map_append, List.map_singleton,
    digitChar_byte _ (Nat.mod_lt n (by decide))]

theorem length_decimal_le_iff {k : Nat} (hk : 0 < k) : (decimal n).length ≤ k ↔ n < 10 ^ k := by
  rw [decimal_eq_map, List.length_map]
  exact Nat.length_toDigits_le_iff (by decide) hk

/-! Digit by digit. -/

theorem isDigit_digit (h : n < 10) : Json.isDigit (UInt8.ofNat (48 + n)) = true := by
  revert n
  decide

theorem digitsValue_concat (ds : Bytes) (h : n < 10) :
    Json.digitsValue (ds ++ [UInt8.ofNat (48 + n)]) = 10 * Json.digitsValue ds + n := by
  have hdigit : (UInt8.ofNat (48 + n)).toNat - 48 = n := by
    rw [UInt8.toNat_ofNat']
    omega
  simp only [Json.digitsValue, List.foldl_append, List.foldl_cons, List.foldl_nil, hdigit]

theorem decimal_ne_nil (n : Nat) : decimal n ≠ [] := by
  rw [decimal_eq_map]
  simp

/-- The numeral of a number is read as the number. -/
theorem digitsValue_decimal (n : Nat) : Json.digitsValue (decimal n) = n := by
  induction n using Nat.strong_induction_on with
  | _ n ih =>
    by_cases h : n < 10
    · rw [decimal_of_lt h]
      simpa [Json.digitsValue] using digitsValue_concat [] h
    · rw [decimal_of_le (by omega), digitsValue_concat _ (Nat.mod_lt n (by decide)), ih (n / 10) (by omega)]
      omega

theorem numeral_decimal (n : Nat) : Json.Numeral (decimal n) := by
  induction n using Nat.strong_induction_on with
  | _ n ih =>
    by_cases h : n < 10
    · rw [decimal_of_lt h]
      refine ⟨by simp, ?_, fun hh => ?_⟩
      · rw [List.forall_mem_singleton]
        exact isDigit_digit h
      · exact congrArg (fun b => [b]) (Option.some.inj hh)
    · obtain ⟨hne, hdigits, hzero⟩ := ih (n / 10) (by omega)
      rw [decimal_of_le (by omega)]
      refine ⟨by simp, ?_, fun hh => ?_⟩
      · rw [List.forall_mem_append, List.forall_mem_singleton]
        exact ⟨hdigits, isDigit_digit (Nat.mod_lt n (by decide))⟩
      · -- a leading zero would be all of the number without its last digit
        rw [List.head?_append_of_ne_nil _ hne] at hh
        have hvalue := digitsValue_decimal (n / 10)
        rw [hzero hh] at hvalue
        simp [Json.digitsValue] at hvalue
        omega

/-- A numeral that is cut is the numeral of the number without its last digits. -/
theorem take_decimal {k : Nat} (hk : 0 < k) :
    ∃ m, (decimal n).take k = decimal m ∧ m < 10 ^ k ∧ (m = n ∨ 10 ^ k ≤ n ∧ 0 < m) := by
  induction n using Nat.strong_induction_on with
  | _ n ih =>
    by_cases hn : n < 10 ^ k
    · exact ⟨n, List.take_of_length_le ((length_decimal_le_iff hk).mpr hn), hn, Or.inl rfl⟩
    · have hle : 10 ≤ n := (Nat.pow_le_pow_right (by decide) hk).trans (Nat.not_lt.mp hn)
      have hlen : k ≤ (decimal (n / 10)).length := by
        cases k with
        | zero => exact Nat.zero_le _
        | succ k =>
          cases k with
          | zero => exact List.length_pos_iff.mpr (decimal_ne_nil _)
          | succ k =>
            by_contra hlt
            have hshort := (length_decimal_le_iff (Nat.succ_pos k)).mp (Nat.lt_succ_iff.mp (Nat.not_le.mp hlt))
            rw [Nat.div_lt_iff_lt_mul (by decide), ← Nat.pow_succ] at hshort
            exact hn hshort
      obtain ⟨m, hm, hlt, hcase⟩ := ih (n / 10) (by omega)
      refine ⟨m, ?_, hlt, Or.inr ⟨Nat.not_lt.mp hn, ?_⟩⟩
      · rw [decimal_of_le hle, List.take_append_of_le_length hlen, hm]
      · rcases hcase with rfl | ⟨_, hpos⟩
        · omega
        · exact hpos

/-- The buffer of json_uint64 takes all digits. -/
theorem uint64Digits_eq {fuel : Nat} (h : n < 10 ^ (fuel + 1)) (b : Bytes) :
    uint64Digits (fuel + 1) n b = decimal n ++ b := by
  induction fuel generalizing n b with
  | zero =>
    rw [uint64Digits, Nat.mod_eq_of_lt (by simpa using h), if_pos (Nat.div_eq_of_lt (by simpa using h)),
      decimal_of_lt (by simpa using h)]
    rfl
  | succ fuel ih =>
    rw [uint64Digits]
    by_cases hn : n < 10
    · rw [if_pos (Nat.div_eq_of_lt hn), Nat.mod_eq_of_lt hn, decimal_of_lt hn]
      rfl
    · have hdiv : n / 10 < 10 ^ (fuel + 1) := by
        rw [Nat.div_lt_iff_lt_mul (by decide), ← Nat.pow_succ]
        exact h
      have hlast := decimal_of_le (Nat.not_lt.mp hn)
      rw [if_neg (by omega), ih hdiv, hlast, List.append_assoc]
      rfl

/-! The numbers of the interface. -/

theorem snprintf_of_lt (size : Nat) (h : n < 10 ^ (size + 1)) : snprintf (size + 2) (decimal n) = decimal n :=
  List.take_of_length_le ((length_decimal_le_iff (Nat.succ_pos size)).mpr h)

theorem jsonUint8_eq (x : UInt8) : jsonUint8 x = .number (decimal x.toNat) :=
  congrArg JsonCall.number (snprintf_of_lt 2 (Nat.lt_trans x.toNat_lt (by decide)))

theorem jsonUint16_eq (x : UInt16) : jsonUint16 x = .number (decimal x.toNat) :=
  congrArg JsonCall.number (snprintf_of_lt 4 (Nat.lt_trans x.toNat_lt (by decide)))

theorem jsonUint32_eq (x : UInt32) : jsonUint32 x = .number (decimal x.toNat) :=
  congrArg JsonCall.number (snprintf_of_lt 9 (Nat.lt_trans x.toNat_lt (by decide)))

theorem jsonUint64_eq (x : UInt64) : jsonUint64 x = .number (decimal x.toNat) := by
  rw [jsonUint64, uint64Digits_eq (Nat.lt_trans x.toNat_lt (by decide)), List.append_nil]

theorem decimalInt_ofNat (n : Nat) : decimalInt n = decimal n := if_neg (by omega)

theorem decimalInt_neg (h : 0 < n) : decimalInt (-n : Int) = 45 :: decimal n := by
  rw [decimalInt, if_pos (by omega), Int.natAbs_neg, Int.natAbs_natCast]
  rfl

/-- The buffer of json_integer has room for six characters. What it cuts is another number. -/
theorem jsonInteger_eq (x : Int) :
    ∃ m : Int, jsonInteger x = .number (decimalInt m) ∧ (-1000000 < m ∧ m < 1000000) ∧
      (m = x ↔ (decimalInt x).length ≤ 6) := by
  obtain ⟨n, rfl | rfl⟩ := x.eq_nat_or_neg
  · obtain ⟨m, hm, hlt, hcase⟩ := take_decimal (n := n) (show 0 < 6 by decide)
    refine ⟨m, ?_, by omega, ?_⟩
    · rw [jsonInteger, decimalInt_ofNat, decimalInt_ofNat, ← hm]
      rfl
    · rw [decimalInt_ofNat, length_decimal_le_iff (by decide)]
      omega
  · by_cases h : n = 0
    · subst h
      exact ⟨0, rfl, by decide, by decide⟩
    · have hpos : 0 < n := Nat.pos_of_ne_zero h
      obtain ⟨m, hm, hlt, hcase⟩ := take_decimal (n := n) (show 0 < 5 by decide)
      have hm0 : 0 < m := by omega
      refine ⟨-m, ?_, by omega, ?_⟩
      · rw [jsonInteger, decimalInt_neg hpos, decimalInt_neg hm0, ← hm]
        rfl
      · rw [decimalInt_neg hpos, List.length_cons, Nat.succ_le_succ_iff, length_decimal_le_iff (by decide)]
        omega

theorem length_decimalInt_le_iff (x : Int) : (decimalInt x).length ≤ 6 ↔ -99999 ≤ x ∧ x ≤ 999999 := by
  obtain ⟨n, rfl | rfl⟩ := x.eq_nat_or_neg
  · rw [decimalInt_ofNat, length_decimal_le_iff (by decide)]
    omega
  · by_cases h : n = 0
    · subst h
      decide
    · rw [decimalInt_neg (Nat.pos_of_ne_zero h), List.length_cons, Nat.succ_le_succ_iff, length_decimal_le_iff (by decide)]
      omega

theorem lex_decimalInt (hl : Json.EndsNumber l) :
    Json.lex (decimalInt m ++ l) = (Json.lex l).map (fun ts => .number (m : ℚ) :: ts) := by
  obtain ⟨n, rfl | rfl⟩ := m.eq_nat_or_neg
  · rw [decimalInt_ofNat, Json.lex_numeral (numeral_decimal n) hl, digitsValue_decimal]
    rfl
  · by_cases h : n = 0
    · subst h
      exact Json.lex_numeral (numeral_decimal 0) hl
    · rw [decimalInt_neg (Nat.pos_of_ne_zero h), List.cons_append, Json.lex_negative (numeral_decimal n) hl,
        digitsValue_decimal]
      simp

/-- Different numbers have different numerals. -/
theorem decimalInt_injective {m k : Int} (h : decimalInt m = decimalInt k) : m = k := by
  have hlex : ∀ x : Int, Json.lex (decimalInt x) = some [.number (x : ℚ)] := by
    intro x
    have hx := lex_decimalInt (m := x) (l := []) (fun b hb => by simp at hb)
    rw [List.append_nil] at hx
    rw [hx]
    rfl
  have hsame := hlex m
  rw [h, hlex k] at hsame
  have hcast : (k : ℚ) = m := by simpa using hsame
  exact_mod_cast hcast.symm

/-! The writers, each with its own buffer. -/

/-- The argument of one of the integer writers. -/
inductive IntegerArgument
  | uint8 (x : UInt8)
  | uint16 (x : UInt16)
  | uint32 (x : UInt32)
  | uint64 (x : UInt64)
  | int (x : Int32)

def IntegerArgument.number : IntegerArgument → Int
  | uint8 x => x.toNat
  | uint16 x => x.toNat
  | uint32 x => x.toNat
  | uint64 x => x.toNat
  | int x => x.toInt

/-- What the writer passes on. -/
def IntegerArgument.call : IntegerArgument → JsonCall
  | uint8 x => jsonUint8 x
  | uint16 x => jsonUint16 x
  | uint32 x => jsonUint32 x
  | uint64 x => jsonUint64 x
  | int x => jsonInteger x.toInt

theorem jsonInteger_exact_iff (x : Int) : jsonInteger x = .number (decimalInt x) ↔ -99999 ≤ x ∧ x ≤ 999999 := by
  obtain ⟨m, hm, _, hsame⟩ := jsonInteger_eq x
  rw [← length_decimalInt_le_iff, ← hsame, hm]
  constructor
  · intro h
    exact decimalInt_injective (JsonCall.number.inj h)
  · intro h
    rw [h]

/-- Every writer passes the numeral of its argument, but an int with more than six characters. -/
theorem numeral_passed_iff (a : IntegerArgument) :
    a.call = .number (decimalInt a.number) ↔ ∀ x, a = .int x → -99999 ≤ x.toInt ∧ x.toInt ≤ 999999 := by
  cases a with
  | uint8 x =>
    refine iff_of_true ?_ (fun _ h => by simp at h)
    rw [IntegerArgument.call, IntegerArgument.number, jsonUint8_eq, decimalInt_ofNat]
  | uint16 x =>
    refine iff_of_true ?_ (fun _ h => by simp at h)
    rw [IntegerArgument.call, IntegerArgument.number, jsonUint16_eq, decimalInt_ofNat]
  | uint32 x =>
    refine iff_of_true ?_ (fun _ h => by simp at h)
    rw [IntegerArgument.call, IntegerArgument.number, jsonUint32_eq, decimalInt_ofNat]
  | uint64 x =>
    refine iff_of_true ?_ (fun _ h => by simp at h)
    rw [IntegerArgument.call, IntegerArgument.number, jsonUint64_eq, decimalInt_ofNat]
  | int x =>
    refine (jsonInteger_exact_iff x.toInt).trans ⟨?_, fun h => h x rfl⟩
    rintro h y hy
    rwa [← IntegerArgument.int.inj hy]

/-- A million is printed as a hundred thousand. -/
theorem million_cut : (IntegerArgument.int 1000000).call ≠ .number (decimalInt (IntegerArgument.int 1000000).number) := by
  intro h
  have hlength := congrArg List.length (JsonCall.number.inj h)
  revert hlength
  decide +kernel

end ArduinoHomeKit
