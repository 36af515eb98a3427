import Mathlib.Tactic.NormNum
import Mathlib.Tactic.FieldSimp
import Mathlib.Tactic.Linarith
import Mathlib.Tactic.Positivity
import ArduinoHomeKit.CJson
import ArduinoHomeKit.ValueCopies

/-! What the comparison of two values tells. Every integer is compared through the member of an
int, and the null flag is compared but not obeyed. -/

namespace ArduinoHomeKit

variable {a b : HomekitValue}

/-! Floats as numbers. -/

section Floats

/-- The size of a float in units of its smallest number, from the fields of its pattern. -/
def scaled (exponent fraction : Nat) : Nat :=
  if exponent = 0 then fraction else (2 ^ 23 + fraction) * 2 ^ (exponent - 1)

theorem scaled_lt {e m e' : Nat} (hm : m < 2 ^ 23) (he : e < e') (m' : Nat) : scaled e m < scaled e' m' := by
  have hpos : 0 < e' := Nat.zero_lt_of_lt he
  have hlarge : 2 ^ 23 * 2 ^ (e' - 1) ≤ scaled e' m' := by
    rw [scaled, if_neg (Nat.pos_iff_ne_zero.mp hpos)]
    exact Nat.mul_le_mul_right _ (Nat.le_add_right _ _)
  refine Nat.lt_of_lt_of_le ?_ hlarge
  by_cases h0 : e = 0
  · rw [scaled, if_pos h0]
    exact Nat.lt_of_lt_of_le hm (Nat.le_mul_of_pos_right _ (Nat.two_pow_pos _))
  · have hstep : 2 ^ (e' - 1) = 2 ^ (e' - 1 - e) * 2 * 2 ^ (e - 1) := by
      rw [← Nat.pow_succ, ← Nat.pow_add]
      congr 1
      omega
    rw [scaled, if_neg h0, hstep, ← Nat.mul_assoc]
    refine Nat.mul_lt_mul_of_pos_right ?_ (Nat.two_pow_pos _)
    have hone : 1 ≤ 2 ^ (e' - 1 - e) := Nat.one_le_two_pow
    omega

theorem scaled_injective {e m e' m' : Nat} (hm : m < 2 ^ 23) (hm' : m' < 2 ^ 23) (h : scaled e m = scaled e' m') :
    e = e' ∧ m = m' := by
  have he : e = e' := by
    rcases Nat.lt_trichotomy e e' with hlt | heq | hgt
    · exact absurd h (Nat.ne_of_lt (scaled_lt hm hlt m'))
    · exact heq
    · exact absurd h.symm (Nat.ne_of_lt (scaled_lt hm' hgt m))
  subst he
  refine ⟨rfl, ?_⟩
  by_cases h0 : e = 0
  · rwa [scaled, scaled, if_pos h0, if_pos h0] at h
  · rw [scaled, scaled, if_neg h0, if_neg h0] at h
    have := Nat.eq_of_mul_eq_mul_right (Nat.two_pow_pos _) h
    omega

theorem floatToDouble_finite {f : Nat} (he : f / 2 ^ 23 % 256 ≠ 255) :
    floatToDouble f = .finite ((if f / 2 ^ 31 % 2 = 1 then -1 else 1) * (scaled (f / 2 ^ 23 % 256) (f % 2 ^ 23) / 2 ^ 149)) := by
  have hmagnitude : (if f / 2 ^ 23 % 256 = 0 then ((f % 2 ^ 23 : Nat) : ℚ) / 2 ^ 149
      else if 150 ≤ f / 2 ^ 23 % 256 then (((2 ^ 23 + f % 2 ^ 23) * 2 ^ (f / 2 ^ 23 % 256 - 150) : Nat) : ℚ)
      else ((2 ^ 23 + f % 2 ^ 23 : Nat) : ℚ) / 2 ^ (150 - f / 2 ^ 23 % 256)) =
      (scaled (f / 2 ^ 23 % 256) (f % 2 ^ 23) : ℚ) / 2 ^ 149 := by
    generalize f / 2 ^ 23 % 256 = e
    generalize f % 2 ^ 23 = m
    by_cases h0 : e = 0
    · rw [if_pos h0, scaled, if_pos h0]
    · rw [if_neg h0, scaled, if_neg h0]
      by_cases h150 : 150 ≤ e
      · have hsplit : e - 1 = (e - 150) + 149 := by omega
        rw [if_pos h150, hsplit, Nat.pow_add, ← Nat.mul_assoc]
        push_cast
        exact (mul_div_cancel_right₀ _ (by positivity)).symm
      · have hsplit : (2 : ℚ) ^ 149 = 2 ^ (e - 1) * 2 ^ (150 - e) := by
          rw [← pow_add]
          congr 1
          omega
        rw [if_neg h150, hsplit]
        push_cast
        field_simp
  rw [floatToDouble, if_neg he, hmagnitude]
  by_cases hs : f / 2 ^ 31 % 2 = 1 <;> simp

theorem floatToDouble_full {f : Nat} (he : f / 2 ^ 23 % 256 = 255) :
    f % 2 ^ 23 = 0 ∧ floatToDouble f = .infinite (f / 2 ^ 31 % 2 == 1) ∨ f % 2 ^ 23 ≠ 0 ∧ floatToDouble f = .nan := by
  rw [floatToDouble, if_pos he]
  by_cases hm : f % 2 ^ 23 = 0
  · exact Or.inl ⟨hm, if_pos hm⟩
  · exact Or.inr ⟨hm, if_neg hm⟩

theorem isNaN_iff (f : Nat) : isNaN f = true ↔ floatToDouble f = .nan := by
  have hfields : isNaN f = true ↔ f / 2 ^ 23 % 256 = 255 ∧ f % 2 ^ 23 ≠ 0 := by
    rw [isNaN, decide_eq_true_iff]
    omega
  rw [hfields]
  by_cases he : f / 2 ^ 23 % 256 = 255
  · rcases floatToDouble_full he with ⟨hm, h⟩ | ⟨hm, h⟩
    · rw [h]
      exact iff_of_false (fun hn => hn.2 hm) (by simp)
    · exact iff_of_true ⟨he, hm⟩ h
  · rw [floatToDouble_finite he]
    exact iff_of_false (fun h => he h.1) (by simp)

theorem scaled_eq_zero {e m : Nat} (h : scaled e m = 0) : e = 0 ∧ m = 0 := by
  rw [scaled] at h
  split at h
  · rename_i he
    exact ⟨he, h⟩
  · have hpow : 0 < 2 ^ (e - 1) := Nat.two_pow_pos _
    rcases Nat.mul_eq_zero.mp h with h | h <;> omega

/-- Two finite floats of one number have one pattern, or are zeros. -/
theorem pattern_of_finite {f g : Nat} (hf : f < 2 ^ 32) (hg : g < 2 ^ 32) (he : f / 2 ^ 23 % 256 ≠ 255)
    (he' : g / 2 ^ 23 % 256 ≠ 255) (h : floatToDouble f = floatToDouble g) :
    f = g ∨ f % 2 ^ 31 = 0 ∧ g % 2 ^ 31 = 0 := by
  rw [floatToDouble_finite he, floatToDouble_finite he', Double.finite.injEq, ← mul_div_assoc, ← mul_div_assoc,
    div_left_inj' (by positivity)] at h
  have hm : f % 2 ^ 23 < 2 ^ 23 := Nat.mod_lt _ (by decide)
  have hm' : g % 2 ^ 23 < 2 ^ 23 := Nat.mod_lt _ (by decide)
  -- the signs agree, or both numbers are zero
  have hparts : f / 2 ^ 31 % 2 = g / 2 ^ 31 % 2 ∧
      scaled (f / 2 ^ 23 % 256) (f % 2 ^ 23) = scaled (g / 2 ^ 23 % 256) (g % 2 ^ 23) ∨
      scaled (f / 2 ^ 23 % 256) (f % 2 ^ 23) = 0 ∧ scaled (g / 2 ^ 23 % 256) (g % 2 ^ 23) = 0 := by
    generalize scaled (f / 2 ^ 23 % 256) (f % 2 ^ 23) = k at h ⊢
    generalize scaled (g / 2 ^ 23 % 256) (g % 2 ^ 23) = l at h ⊢
    have hk : (0 : ℚ) ≤ k := Nat.cast_nonneg k
    have hl : (0 : ℚ) ≤ l := Nat.cast_nonneg l
    have hsign : f / 2 ^ 31 % 2 < 2 ∧ g / 2 ^ 31 % 2 < 2 := ⟨Nat.mod_lt _ (by decide), Nat.mod_lt _ (by decide)⟩
    by_cases hs : f / 2 ^ 31 % 2 = 1 <;> by_cases hs' : g / 2 ^ 31 % 2 = 1 <;> simp only [hs, hs', if_true, if_false] at h
    · have hkl : (k : ℚ) = l := by linarith
      exact Or.inl ⟨hs.trans hs'.symm, by exact_mod_cast hkl⟩
    · have hk0 : (k : ℚ) = 0 := by linarith
      have hl0 : (l : ℚ) = 0 := by linarith
      exact Or.inr ⟨by exact_mod_cast hk0, by exact_mod_cast hl0⟩
    · have hk0 : (k : ℚ) = 0 := by linarith
      have hl0 : (l : ℚ) = 0 := by linarith
      exact Or.inr ⟨by exact_mod_cast hk0, by exact_mod_cast hl0⟩
    · have hkl : (k : ℚ) = l := by linarith
      exact Or.inl ⟨by omega, by exact_mod_cast hkl⟩
  rcases hparts with ⟨hs, hsame⟩ | ⟨hk, hl⟩
  · obtain ⟨_, _⟩ := scaled_injective hm hm' hsame
    exact Or.inl (by omega)
  · obtain ⟨_, _⟩ := scaled_eq_zero hk
    obtain ⟨_, _⟩ := scaled_eq_zero hl
    exact Or.inr (by omega)

/-- The operator `==` on floats compares the numbers, and NaN is none. -/
theorem floatEqual_iff {f g : Nat} (hf : f < 2 ^ 32) (hg : g < 2 ^ 32) :
    floatEqual f g = true ↔ floatToDouble f = floatToDouble g ∧ floatToDouble f ≠ .nan := by
  have hequal : floatEqual f g = true ↔
      (floatToDouble f ≠ .nan ∧ floatToDouble g ≠ .nan) ∧ (f = g ∨ f % 2 ^ 31 = 0 ∧ g % 2 ^ 31 = 0) := by
    rw [ne_eq, ne_eq, ← isNaN_iff, ← isNaN_iff]
    simp [floatEqual]
  rw [hequal]
  constructor
  · rintro ⟨⟨hn, _⟩, rfl | ⟨hz, hz'⟩⟩
    · exact ⟨rfl, hn⟩
    · refine ⟨?_, hn⟩
      have hzero : ∀ x, x % 2 ^ 31 = 0 → floatToDouble x = .finite 0 := by
        intro x hx
        have he : x / 2 ^ 23 % 256 = 0 := by omega
        have hm : x % 2 ^ 23 = 0 := by omega
        rw [floatToDouble_finite (by omega), he, hm]
        simp [scaled]
      rw [hzero f hz, hzero g hz']
  · rintro ⟨h, hn⟩
    refine ⟨⟨hn, h ▸ hn⟩, ?_⟩
    by_cases he : f / 2 ^ 23 % 256 = 255
    · rcases floatToDouble_full he with ⟨hm, hf'⟩ | ⟨_, hf'⟩
      · rw [hf'] at h
        by_cases he' : g / 2 ^ 23 % 256 = 255
        · rcases floatToDouble_full he' with ⟨hm', hg'⟩ | ⟨_, hg'⟩
          · rw [hg', Double.infinite.injEq, Bool.eq_iff_iff, beq_iff_eq, beq_iff_eq] at h
            exact Or.inl (by omega)
          · rw [hg'] at h
            simp at h
        · rw [floatToDouble_finite he'] at h
          simp at h
      · exact absurd hf' hn
    · by_cases he' : g / 2 ^ 23 % 256 = 255
      · rw [floatToDouble_finite he] at h
        rcases floatToDouble_full he' with ⟨_, hg'⟩ | ⟨_, hg'⟩ <;> rw [hg'] at h <;> cases h
      · exact pattern_of_finite hf hg he he' h

end Floats

/-! What is expected of the comparison. -/

/-- A value that is there holds what its format says, and its data are as long as their size. -/
def HomekitValue.Initialised (v : HomekitValue) : Prop :=
  v.isNull = false →
    match v.format with
    | .string => ∃ p, v.union = .string p
    | .tlv => ∃ p, v.union = .tlvValues p
    | .data => ∃ p size, v.union = .data p size ∧ size ≤ (p.content.getD []).length
    | _ => ∃ word, v.union = .bits word

/-- Both say the same; floats are compared as numbers, and a NaN is none. -/
def SameContent (a b : HomekitValue) : Prop :=
  match a.format with
  | .float => floatToDouble a.floatBits = floatToDouble b.floatBits ∧ floatToDouble a.floatBits ≠ .nan
  | _ => a.content = b.content

structure SameMeaning (a b : HomekitValue) : Prop where
  isNull : a.isNull = b.isNull
  format : a.format = b.format
  content : a.isNull = false → SameContent a b

/-- A pointer to something else, unless it is NULL. -/
def Pointer.Elsewhere {α : Type} (p q : Pointer α) : Prop := p = .null ↔ q = .null

/-- The same value, but for what its pointers lead to. -/
inductive Repointed (v : HomekitValue) : HomekitValue → Prop
  | bits (word : Nat) (h : v.union = .bits word) : Repointed v v
  | string (p q : Pointer Bytes) (h : v.union = .string p) (hq : p.Elsewhere q) : Repointed v { v with union := .string q }
  | tlvValues (p q : Pointer (List Tlv)) (h : v.union = .tlvValues p) (hq : p.Elsewhere q) :
    Repointed v { v with union := .tlvValues q }
  | data (p q : Pointer Bytes) (size : Nat) (h : v.union = .data p size) (hq : p.Elsewhere q) :
    Repointed v { v with union := .data q size }

/-- What the pointers lead to makes no difference. -/
def PayloadUnread (a b : HomekitValue) : Prop :=
  ∃ r, ∀ a' b', Repointed a a' → Repointed b b' → homekitValueEqual a' b' = .ok r

structure EqualRight (a b : HomekitValue) : Prop where
  result : ∃ r, homekitValueEqual a b = .ok r ∧ (r = true ↔ SameMeaning a b)
  unread : a.isNull = true ∨ b.isNull = true → PayloadUnread a b

/-- What strncmp sees of an entry: its bytes end at the first NUL. -/
def Tlv.seen (t : Tlv) : UInt8 × Nat × Bytes := (t.type, t.value.length, CString.strdup t.value)

/-- A null value must be told without being looked into: the members that are compared agree. -/
def NullComparable (a b : HomekitValue) : Prop :=
  match a.format with
  | .bool => a.boolValue = b.boolValue
  | .float => floatToDouble a.floatBits = floatToDouble b.floatBits ∧ floatToDouble a.floatBits ≠ .nan
  | .string => False
  | .tlv => a.union.tlvList = .null ∧ b.union.tlvList = .null
  | .data => a.union.dataValue.Elsewhere b.union.dataValue ∧
    (a.union.dataValue ≠ .null → a.union.dataSize = 0 ∧ b.union.dataSize = 0)
  | _ => a.intValue = b.intValue

/-- Small integers must be clean above their bits and large ones may not differ there alone;
strings must be there; TLV entries may not differ behind a NUL alone; no data must point to NULL
in both or in neither. -/
def ContentComparable (a b : HomekitValue) : Prop :=
  match a.format with
  | .uint8 => a.union.low 8 = b.union.low 8 → a.union.low 32 = b.union.low 32
  | .uint16 => a.union.low 16 = b.union.low 16 → a.union.low 32 = b.union.low 32
  | .uint64 => a.union.low 32 = b.union.low 32 → a.union.low 64 = b.union.low 64
  | .string => a.union.stringValue ≠ .null ∧ b.union.stringValue ≠ .null
  | .tlv => ∀ l m, a.union.tlvList.content = some l → b.union.tlvList.content = some m →
    l.map Tlv.seen = m.map Tlv.seen → l = m
  | .data => a.union.dataSize = 0 → b.union.dataSize = 0 → a.union.dataValue.Elsewhere b.union.dataValue
  | _ => True

def Comparable (a b : HomekitValue) : Prop :=
  a.isNull = b.isNull → a.format = b.format →
    if a.isNull then NullComparable a b else ContentComparable a b

/-! Lists and integers. -/

theorem tlvListEqual_iff {l m : List Tlv} : tlvListEqual l m = true ↔ l.map Tlv.seen = m.map Tlv.seen := by
  induction l generalizing m with
  | nil => cases m <;> simp [tlvListEqual]
  | cons t l ih =>
    cases m with
    | nil => simp [tlvListEqual]
    | cons u m =>
      have hseen : ∀ t : Tlv, CString.strndup t.value t.value.length = CString.strdup t.value := by
        intro t
        rw [CString.strndup, List.take_length, CString.strdup]
      have hvalue : t.value.length = u.value.length →
          (CString.strncmp t.value.length t.value u.value = 0 ↔ CString.strdup t.value = CString.strdup u.value) := by
        intro h
        rw [CString.strncmp_eq_zero_iff, hseen, h, hseen]
      rw [tlvListEqual, List.map_cons, List.map_cons, List.cons.injEq, Tlv.seen, Tlv.seen, Prod.mk.injEq, Prod.mk.injEq]
      by_cases hhead : t.type = u.type ∧ t.value.length = u.value.length
      · rw [if_neg (by simp [hhead]), ← hvalue hhead.2]
        by_cases hcmp : CString.strncmp t.value.length t.value u.value = 0
        · simp [hhead, ih]
        · simp [hcmp]
      · rw [if_pos (by tauto)]
        simp only [Bool.false_eq_true, false_iff]
        tauto

theorem low_lt (x : Union) (width : Nat) : x.low width < 2 ^ width := by
  cases x with
  | bits word => exact Nat.mod_lt _ (Nat.two_pow_pos width)
  | _ => exact Nat.two_pow_pos width

theorem low_mod (x : Union) {width n : Nat} (h : n ≤ width) : x.low width % 2 ^ n = x.low n := by
  cases x with
  | bits word => exact Nat.mod_mod_of_dvd word (Nat.pow_dvd_pow 2 h)
  | _ => exact Nat.zero_mod _

theorem low_of_low {x y : Union} {width n : Nat} (h : n ≤ width) (hxy : x.low width = y.low width) :
    x.low n = y.low n := by
  rw [← low_mod x h, ← low_mod y h, hxy]

theorem uint8Value_eq_iff : a.uint8Value = b.uint8Value ↔ a.union.low 8 = b.union.low 8 := by
  rw [← UInt8.toNat_inj, HomekitValue.uint8Value, HomekitValue.uint8Value, UInt8.toNat_ofNat_of_lt' (low_lt _ 8),
    UInt8.toNat_ofNat_of_lt' (low_lt _ 8)]

theorem uint16Value_eq_iff : a.uint16Value = b.uint16Value ↔ a.union.low 16 = b.union.low 16 := by
  rw [← UInt16.toNat_inj, HomekitValue.uint16Value, HomekitValue.uint16Value, UInt16.toNat_ofNat_of_lt' (low_lt _ 16),
    UInt16.toNat_ofNat_of_lt' (low_lt _ 16)]

theorem uint32Value_eq_iff : a.uint32Value = b.uint32Value ↔ a.union.low 32 = b.union.low 32 := by
  rw [← UInt32.toNat_inj, HomekitValue.uint32Value, HomekitValue.uint32Value, UInt32.toNat_ofNat_of_lt' (low_lt _ 32),
    UInt32.toNat_ofNat_of_lt' (low_lt _ 32)]

theorem intValue_eq_iff : a.intValue = b.intValue ↔ a.union.low 32 = b.union.low 32 := by
  constructor
  · intro h
    have ha := low_lt a.union 32
    have hb := low_lt b.union 32
    have hmod := (Int.bmod_emod ..).symm.trans ((congrArg (· % ((2 ^ 32 : Nat) : Int)) h).trans (Int.bmod_emod ..))
    rw [Int.emod_eq_of_lt (by omega) (by omega), Int.emod_eq_of_lt (by omega) (by omega)] at hmod
    exact Int.ofNat_inj.mp hmod
  · intro h
    exact congrArg (fun n : Nat => (n : Int).bmod (2 ^ 32)) h

/-! What the pointers lead to. -/

theorem Repointed.refl (v : HomekitValue) : Repointed v v := by
  obtain ⟨isNull, isStatic, format, union⟩ := v
  cases union with
  | bits word => exact .bits word rfl
  | string p => exact .string p p rfl Iff.rfl
  | tlvValues p => exact .tlvValues p p rfl Iff.rfl
  | data p size => exact .data p p size rfl Iff.rfl

theorem Repointed.isNull {v w : HomekitValue} (h : Repointed v w) : w.isNull = v.isNull := by
  cases h <;> rfl

theorem Repointed.format {v w : HomekitValue} (h : Repointed v w) : w.format = v.format := by
  cases h <;> rfl

theorem Repointed.low {v w : HomekitValue} (h : Repointed v w) (width : Nat) : w.union.low width = v.union.low width := by
  cases h with
  | bits => rfl
  | string p q hv => rw [hv]; rfl
  | tlvValues p q hv => rw [hv]; rfl
  | data p q size hv => rw [hv]; rfl

theorem Repointed.dataSize {v w : HomekitValue} (h : Repointed v w) : w.union.dataSize = v.union.dataSize := by
  cases h with
  | bits => rfl
  | string p q hv => rw [hv]; rfl
  | tlvValues p q hv => rw [hv]; rfl
  | data p q size hv => rw [hv]; rfl

theorem Repointed.tlvList {v w : HomekitValue} (h : Repointed v w) : v.union.tlvList.Elsewhere w.union.tlvList := by
  cases h with
  | bits => exact Iff.rfl
  | string p q hv => rw [hv]; exact Iff.rfl
  | tlvValues p q hv hq => rw [hv]; exact hq
  | data p q size hv => rw [hv]; exact Iff.rfl

theorem Repointed.dataValue {v w : HomekitValue} (h : Repointed v w) : v.union.dataValue.Elsewhere w.union.dataValue := by
  cases h with
  | bits => exact Iff.rfl
  | string p q hv => rw [hv]; exact Iff.rfl
  | tlvValues p q hv => rw [hv]; exact Iff.rfl
  | data p q size hv hq => rw [hv]; exact hq

theorem homekitValueEqual_differ (h : ¬ (a.isNull = b.isNull ∧ a.format = b.format)) :
    homekitValueEqual a b = .ok false := by
  rw [homekitValueEqual]
  by_cases hn : a.isNull = b.isNull
  · rw [if_neg (not_not_intro hn), if_pos (fun hf => h ⟨hn, hf⟩)]
  · rw [if_pos hn]

theorem equalRight_of_differ (h : ¬ (a.isNull = b.isNull ∧ a.format = b.format)) : EqualRight a b := by
  refine ⟨⟨false, homekitValueEqual_differ h, ?_⟩, fun _ => ⟨false, fun a' b' ha hb => ?_⟩⟩
  · exact iff_of_false Bool.false_ne_true (fun hs => h ⟨hs.isNull, hs.format⟩)
  · apply homekitValueEqual_differ
    rwa [ha.isNull, hb.isNull, ha.format, hb.format]

/-- Null values of one format are equal, whatever is behind their pointers. -/
theorem equalRight_null_iff (hn : a.isNull = true) (hb : b.isNull = true) (hf : a.format = b.format) :
    EqualRight a b ↔ ∀ a' b', Repointed a a' → Repointed b b' → homekitValueEqual a' b' = .ok true := by
  have hsame : SameMeaning a b := ⟨hn.trans hb.symm, hf, fun h => absurd (hn.symm.trans h) (by decide)⟩
  constructor
  · rintro ⟨⟨r, hr, hiff⟩, hunread⟩
    obtain ⟨r', hr'⟩ := hunread (Or.inl hn)
    obtain rfl := Except.ok.inj ((hr' a b (.refl a) (.refl b)).symm.trans hr)
    obtain rfl := hiff.mpr hsame
    exact hr'
  · intro h
    exact ⟨⟨true, h a b (.refl a) (.refl b), iff_of_true rfl hsame⟩, fun _ => ⟨true, h⟩⟩

theorem equalRight_there_iff (hn : a.isNull = false) (hb : b.isNull = false) (hf : a.format = b.format) :
    EqualRight a b ↔ ∃ r, homekitValueEqual a b = .ok r ∧ (r = true ↔ SameContent a b) := by
  have hsame : SameMeaning a b ↔ SameContent a b :=
    ⟨fun h => h.content hn, fun h => ⟨hn.trans hb.symm, hf, fun _ => h⟩⟩
  rw [← hsame]
  constructor
  · exact fun h => h.result
  · exact fun h => ⟨h, fun hnull => by simp [hn, hb] at hnull⟩

theorem equalRight_of_result {r : Bool} (hn : a.isNull = false) (hb : b.isNull = false) (hf : a.format = b.format)
    (h : homekitValueEqual a b = .ok r) : EqualRight a b ↔ (r = true ↔ SameContent a b) := by
  rw [equalRight_there_iff hn hb hf]
  constructor
  · rintro ⟨r', hr', hiff⟩
    obtain rfl := Except.ok.inj (h.symm.trans hr')
    exact hiff
  · exact fun hiff => ⟨r, h, hiff⟩

/-! The comparison by the format. -/

section Formats

variable (hn : a.isNull = b.isNull) (hf : a.format = b.format)
include hn hf

theorem homekitValueEqual_bool (h : a.format = .bool) : homekitValueEqual a b = .ok (a.boolValue == b.boolValue) := by
  rw [homekitValueEqual, if_neg (not_not_intro hn), if_neg (not_not_intro hf), h]

theorem homekitValueEqual_float (h : a.format = .float) :
    homekitValueEqual a b = .ok (floatEqual a.floatBits b.floatBits) := by
  rw [homekitValueEqual, if_neg (not_not_intro hn), if_neg (not_not_intro hf), h]

theorem homekitValueEqual_integer (hp : a.format.isPointer = false) (hb : a.format ≠ .bool) (h : a.format ≠ .float) :
    homekitValueEqual a b = .ok (decide (a.union.low 32 = b.union.low 32)) := by
  rw [homekitValueEqual, if_neg (not_not_intro hn), if_neg (not_not_intro hf), ← decide_eq_decide.mpr intValue_eq_iff]
  cases hfmt : a.format with
  | bool => exact absurd hfmt hb
  | float => exact absurd hfmt h
  | string => rw [hfmt] at hp; cases hp
  | tlv => rw [hfmt] at hp; cases hp
  | data => rw [hfmt] at hp; cases hp
  | _ => rfl

theorem homekitValueEqual_string (h : a.format = .string) :
    homekitValueEqual a b =
      match a.union.stringValue.deref, b.union.stringValue.deref with
      | .ok s, .ok t => .ok (CString.strdup s == CString.strdup t)
      | _, _ => .error .nullDereference := by
  cases a
  cases h
  exact (if_neg (not_not_intro hn)).trans (if_neg (not_not_intro hf))

theorem homekitValueEqual_tlv (h : a.format = .tlv) :
    homekitValueEqual a b =
      match a.union.tlvList, b.union.tlvList with
      | .null, .null => .ok true
      | .block _ s, .block _ t => .ok (tlvListEqual s t)
      | _, _ => .ok false := by
  cases a
  cases h
  exact (if_neg (not_not_intro hn)).trans (if_neg (not_not_intro hf))

theorem homekitValueEqual_data (h : a.format = .data) :
    homekitValueEqual a b =
      match a.union.dataValue, b.union.dataValue with
      | .null, .null => .ok true
      | .block _ s, .block _ t =>
        .ok (a.union.dataSize == b.union.dataSize && s.take a.union.dataSize == t.take a.union.dataSize)
      | _, _ => .ok false := by
  cases a
  cases h
  exact (if_neg (not_not_intro hn)).trans (if_neg (not_not_intro hf))

end Formats

/-! Null values. -/

theorem floatBits_repointed {v w : HomekitValue} (h : Repointed v w) : w.floatBits = v.floatBits := h.low 32

theorem boolValue_repointed {v w : HomekitValue} (h : Repointed v w) : w.boolValue = v.boolValue := by
  rw [HomekitValue.boolValue, h.low 8, HomekitValue.boolValue]

section Null

variable (hn : a.isNull = true) (hb : b.isNull = true) (hf : a.format = b.format)
include hn hb hf

theorem equalRight_null_scalar {test : Bool}
    (h : ∀ a' b', Repointed a a' → Repointed b b' → homekitValueEqual a' b' = .ok test) :
    EqualRight a b ↔ test = true := by
  rw [equalRight_null_iff hn hb hf]
  constructor
  · intro hall
    exact Except.ok.inj ((h a b (.refl a) (.refl b)).symm.trans (hall a b (.refl a) (.refl b)))
  · rintro rfl
    exact h

theorem equalRight_null_bool (h : a.format = .bool) : EqualRight a b ↔ a.boolValue = b.boolValue := by
  rw [← beq_iff_eq]
  apply equalRight_null_scalar hn hb hf
  intro a' b' ha' hb'
  rw [homekitValueEqual_bool (by rw [ha'.isNull, hb'.isNull, hn, hb]) (by rw [ha'.format, hb'.format, hf])
    (ha'.format.trans h), boolValue_repointed ha', boolValue_repointed hb']

theorem equalRight_null_float (h : a.format = .float) :
    EqualRight a b ↔ floatToDouble a.floatBits = floatToDouble b.floatBits ∧ floatToDouble a.floatBits ≠ .nan := by
  have hiff : floatEqual a.floatBits b.floatBits = true ↔ _ := floatEqual_iff (low_lt a.union 32) (low_lt b.union 32)
  rw [← hiff]
  apply equalRight_null_scalar hn hb hf
  intro a' b' ha' hb'
  rw [homekitValueEqual_float (by rw [ha'.isNull, hb'.isNull, hn, hb]) (by rw [ha'.format, hb'.format, hf])
    (ha'.format.trans h), floatBits_repointed ha', floatBits_repointed hb']

theorem equalRight_null_integer (hp : a.format.isPointer = false) (hbool : a.format ≠ .bool) (h : a.format ≠ .float) :
    EqualRight a b ↔ a.intValue = b.intValue := by
  rw [intValue_eq_iff, ← decide_eq_true_iff (p := a.union.low 32 = b.union.low 32)]
  apply equalRight_null_scalar hn hb hf
  intro a' b' ha' hb'
  have hformat := ha'.format
  rw [homekitValueEqual_integer (by rw [ha'.isNull, hb'.isNull, hn, hb]) (by rw [ha'.format, hb'.format, hf])
    (hformat ▸ hp) (hformat ▸ hbool) (hformat ▸ h), ha'.low, hb'.low]

/-- The comparison of strings looks at the first byte of each. -/
theorem not_equalRight_null_string (h : a.format = .string) : ¬ EqualRight a b := by
  rw [equalRight_null_iff hn hb hf]
  intro hall
  have hself := hall a b (.refl a) (.refl b)
  rw [homekitValueEqual_string (hn.trans hb.symm) hf h] at hself
  cases hp : a.union.stringValue with
  | null =>
    rw [hp] at hself
    cases hself
  | block life text =>
    have hunion : a.union = .string (.block life text) := by
      cases hu : a.union <;> rw [hu] at hp <;> first | exact congrArg Union.string hp | cases hp
    cases hq : b.union.stringValue with
    | null =>
      rw [hp, hq] at hself
      cases hself
    | block life' text' =>
      -- another text behind the first pointer, that differs from the second
      have hother : ∃ other, CString.strdup other ≠ CString.strdup text' := by
        cases hc : CString.strdup text' with
        | nil => exact ⟨[1], by decide⟩
        | cons x l => exact ⟨[], by simp [CString.strdup]⟩
      obtain ⟨other, hne⟩ := hother
      have hrepointed : Repointed a { a with union := .string (.block life other) } :=
        .string _ _ hunion (iff_of_false (by simp) (by simp))
      have heq := hall _ _ hrepointed (.refl b)
      rw [homekitValueEqual_string (by exact hn.trans hb.symm) (by exact hf) (by exact h), hq] at heq
      exact hne (by simpa [Pointer.deref] using heq)

theorem equalRight_null_tlv (h : a.format = .tlv) :
    EqualRight a b ↔ a.union.tlvList = .null ∧ b.union.tlvList = .null := by
  rw [equalRight_null_iff hn hb hf]
  constructor
  · intro hall
    have hself := hall a b (.refl a) (.refl b)
    rw [homekitValueEqual_tlv (hn.trans hb.symm) hf h] at hself
    cases hp : a.union.tlvList with
    | null =>
      cases hq : b.union.tlvList with
      | null => exact ⟨rfl, rfl⟩
      | block life' l' =>
        rw [hp, hq] at hself
        cases hself
    | block life l =>
      have hunion : a.union = .tlvValues (.block life l) := by
        cases hu : a.union <;> rw [hu] at hp <;> first | exact congrArg Union.tlvValues hp | cases hp
      cases hq : b.union.tlvList with
      | null =>
        rw [hp, hq] at hself
        cases hself
      | block life' l' =>
        -- a longer list behind the first pointer
        have hrepointed : Repointed a { a with union := .tlvValues (.block life (⟨0, []⟩ :: l)) } :=
          .tlvValues _ _ hunion (iff_of_false (by simp) (by simp))
        have heq := hall _ _ hrepointed (.refl b)
        rw [homekitValueEqual_tlv (by exact hn.trans hb.symm) (by exact hf) (by exact h), hq] at heq
        rw [hp, hq] at hself
        have hlong := (tlvListEqual_iff.mp (Except.ok.inj heq)).trans (tlvListEqual_iff.mp (Except.ok.inj hself)).symm
        exact absurd (congrArg List.length hlong) (by simp)
  · rintro ⟨hp, hq⟩ a' b' ha' hb'
    rw [homekitValueEqual_tlv (by rw [ha'.isNull, hb'.isNull, hn, hb]) (by rw [ha'.format, hb'.format, hf])
      (ha'.format.trans h), ha'.tlvList.mp hp, hb'.tlvList.mp hq]

theorem equalRight_null_data (h : a.format = .data) :
    EqualRight a b ↔ a.union.dataValue.Elsewhere b.union.dataValue ∧
      (a.union.dataValue ≠ .null → a.union.dataSize = 0 ∧ b.union.dataSize = 0) := by
  rw [equalRight_null_iff hn hb hf]
  constructor
  · intro hall
    have hself := hall a b (.refl a) (.refl b)
    rw [homekitValueEqual_data (hn.trans hb.symm) hf h] at hself
    cases hp : a.union.dataValue with
    | null =>
      cases hq : b.union.dataValue with
      | null => exact ⟨Iff.rfl, fun hne => absurd rfl hne⟩
      | block life' d' =>
        rw [hp, hq] at hself
        cases hself
    | block life d =>
      obtain ⟨size, hunion⟩ : ∃ size, a.union = .data (.block life d) size := by
        cases hu : a.union <;> rw [hu] at hp <;> first | exact ⟨_, congrArg (Union.data · _) hp⟩ | cases hp
      cases hq : b.union.dataValue with
      | null =>
        rw [hp, hq] at hself
        cases hself
      | block life' d' =>
        rw [hp, hq] at hself
        refine ⟨iff_of_false (by simp) (by simp), fun _ => ?_⟩
        -- no byte behind the first pointer, and one more than there is
        have hread : ∀ e : Bytes, Except.ok (a.union.dataSize == b.union.dataSize &&
            e.take a.union.dataSize == d'.take a.union.dataSize) = (Except.ok true : Except Fault Bool) := by
          intro e
          have hrepointed : Repointed a { a with union := .data (.block life e) size } :=
            .data _ _ size hunion (iff_of_false (by simp) (by simp))
          have heq := hall _ _ hrepointed (.refl b)
          rw [homekitValueEqual_data (by exact hn.trans hb.symm) (by exact hf) (by exact h), hq] at heq
          rw [hunion]
          exact heq
        have hnone := hread []
        have hone := hread [(d'.headD 0) + 1]
        simp only [Except.ok.injEq, Bool.and_eq_true, beq_iff_eq] at hnone hone
        have hzero : a.union.dataSize = 0 := by
          by_contra hpos
          have htake := hnone.2.trans hone.2.symm
          obtain ⟨n, hsize⟩ := Nat.exists_eq_succ_of_ne_zero hpos
          rw [hsize] at htake
          simp at htake
        exact ⟨hzero, hnone.1 ▸ hzero⟩
  · rintro ⟨hsame, hsize⟩ a' b' ha' hb'
    rw [homekitValueEqual_data (by rw [ha'.isNull, hb'.isNull, hn, hb]) (by rw [ha'.format, hb'.format, hf])
      (ha'.format.trans h)]
    by_cases hp : a.union.dataValue = .null
    · rw [ha'.dataValue.mp hp, hb'.dataValue.mp (hsame.mp hp)]
    · obtain ⟨hs, hs'⟩ := hsize hp
      cases hp' : a'.union.dataValue with
      | null => exact absurd (ha'.dataValue.mpr hp') hp
      | block life d =>
        cases hq' : b'.union.dataValue with
        | null => exact absurd (hsame.mpr (hb'.dataValue.mpr hq')) hp
        | block life' d' => simp [ha'.dataSize, hb'.dataSize, hs, hs']

theorem equalRight_iff_nullComparable : EqualRight a b ↔ NullComparable a b := by
  rw [NullComparable]
  cases h : a.format with
  | bool => exact equalRight_null_bool hn hb hf h
  | float => exact equalRight_null_float hn hb hf h
  | string => exact iff_of_false (not_equalRight_null_string hn hb hf h) id
  | tlv => exact equalRight_null_tlv hn hb hf h
  | data => exact equalRight_null_data hn hb hf h
  | _ => exact equalRight_null_integer hn hb hf (by rw [h]; rfl) (by simp [h]) (by simp [h])

end Null

/-! Values that are there. -/

section There

variable (hn : a.isNull = false) (hb : b.isNull = false) (hf : a.format = b.format)
include hn hb hf

theorem equalRight_bool (h : a.format = .bool) : EqualRight a b := by
  rw [equalRight_of_result hn hb hf (homekitValueEqual_bool (hn.trans hb.symm) hf h)]
  simp [SameContent, HomekitValue.content, h, ← hf]

theorem equalRight_float (h : a.format = .float) : EqualRight a b := by
  rw [equalRight_of_result hn hb hf (homekitValueEqual_float (hn.trans hb.symm) hf h)]
  simp only [SameContent, h]
  exact floatEqual_iff (low_lt a.union 32) (low_lt b.union 32)

/-- The full width of an integer is compared when it tells no more and no less than an int. -/
theorem equalRight_integer {width : Nat} (hp : a.format.isPointer = false) (hbool : a.format ≠ .bool)
    (h : a.format ≠ .float) (hcontent : a.content = b.content ↔ a.union.low width = b.union.low width) :
    EqualRight a b ↔ (a.union.low 32 = b.union.low 32 ↔ a.union.low width = b.union.low width) := by
  have hsame : SameContent a b ↔ a.content = b.content := by
    rw [SameContent]
    cases hfmt : a.format <;> first | exact absurd hfmt h | exact Iff.rfl
  rw [equalRight_of_result hn hb hf (homekitValueEqual_integer (hn.trans hb.symm) hf hp hbool h), decide_eq_true_iff,
    hsame, hcontent]

theorem equalRight_string (h : a.format = .string) :
    EqualRight a b ↔ a.union.stringValue ≠ .null ∧ b.union.stringValue ≠ .null := by
  cases hp : a.union.stringValue with
  | null =>
    rw [equalRight_there_iff hn hb hf, homekitValueEqual_string (hn.trans hb.symm) hf h, hp]
    simp [Pointer.deref]
  | block life text =>
    cases hq : b.union.stringValue with
    | null =>
      rw [equalRight_there_iff hn hb hf, homekitValueEqual_string (hn.trans hb.symm) hf h, hp, hq]
      simp [Pointer.deref]
    | block life' text' =>
      refine iff_of_true ?_ (by simp)
      have hresult := homekitValueEqual_string (hn.trans hb.symm) hf h
      rw [hp, hq] at hresult
      rw [equalRight_of_result hn hb hf hresult]
      simp [SameContent, HomekitValue.content, h, ← hf, hp, hq, Pointer.content]

theorem equalRight_tlv (h : a.format = .tlv) :
    EqualRight a b ↔ ∀ l m, a.union.tlvList.content = some l → b.union.tlvList.content = some m →
      l.map Tlv.seen = m.map Tlv.seen → l = m := by
  have hsame : SameContent a b ↔ a.union.tlvList.content = b.union.tlvList.content := by
    simp [SameContent, HomekitValue.content, h, ← hf]
  have hresult := homekitValueEqual_tlv (hn.trans hb.symm) hf h
  cases hp : a.union.tlvList with
  | null =>
    cases hq : b.union.tlvList with
    | null =>
      rw [hp, hq] at hresult hsame
      rw [equalRight_of_result hn hb hf hresult, hsame]
      simp [Pointer.content]
    | block life' m =>
      rw [hp, hq] at hresult hsame
      rw [equalRight_of_result hn hb hf hresult, hsame]
      simp [Pointer.content]
  | block life l =>
    cases hq : b.union.tlvList with
    | null =>
      rw [hp, hq] at hresult hsame
      rw [equalRight_of_result hn hb hf hresult, hsame]
      simp [Pointer.content]
    | block life' m =>
      rw [hp, hq] at hresult hsame
      rw [equalRight_of_result hn hb hf hresult, hsame, tlvListEqual_iff]
      simp only [Pointer.content, Option.some.injEq]
      constructor
      · rintro hiff _ _ rfl rfl
        exact hiff.mp
      · exact fun hall => ⟨hall l m rfl rfl, fun heq => heq ▸ rfl⟩

theorem equalRight_data (ha : a.Initialised) (hib : b.Initialised) (h : a.format = .data) :
    EqualRight a b ↔ (a.union.dataSize = 0 → b.union.dataSize = 0 →
      a.union.dataValue.Elsewhere b.union.dataValue) := by
  have ha' := ha hn
  have hb' := hib hb
  rw [h] at ha'
  rw [← hf, h] at hb'
  obtain ⟨p, size, hp, hsize⟩ := ha'
  obtain ⟨q, size', hq, hsize'⟩ := hb'
  have hsame : SameContent a b ↔ (if size = 0 then some [] else p.content.map (List.take size)) =
      (if size' = 0 then some [] else q.content.map (List.take size')) := by
    simp [SameContent, HomekitValue.content, h, ← hf, hp, hq]
  have hresult := homekitValueEqual_data (hn.trans hb.symm) hf h
  simp only [hp, hq, dataValue_data, dataSize_data] at hresult ⊢
  cases p with
  | null =>
    have hzero : size = 0 := Nat.le_zero.mp hsize
    cases q with
    | null =>
      have hzero' : size' = 0 := Nat.le_zero.mp hsize'
      rw [equalRight_of_result hn hb hf hresult, hsame, hzero, hzero']
      simp [Pointer.Elsewhere]
    | block life' d' =>
      rw [equalRight_of_result hn hb hf hresult, hsame, hzero]
      by_cases hz : size' = 0
      · simp [hz, Pointer.Elsewhere]
      · have hne : d' ≠ [] := by
          rintro rfl
          exact hz (Nat.le_zero.mp hsize')
        simp [hz, hne, Pointer.content]
  | block life d =>
    cases q with
    | null =>
      have hzero' : size' = 0 := Nat.le_zero.mp hsize'
      rw [equalRight_of_result hn hb hf hresult, hsame, hzero']
      by_cases hz : size = 0
      · simp [hz, Pointer.Elsewhere]
      · have hne : d ≠ [] := by
          rintro rfl
          exact hz (Nat.le_zero.mp hsize)
        simp [hz, hne, Pointer.content]
    | block life' d' =>
      have hlen : (d.take size).length = size := List.length_take_of_le hsize
      have hlen' : (d'.take size').length = size' := List.length_take_of_le hsize'
      refine iff_of_true ?_ (fun _ _ => iff_of_false (by simp) (by simp))
      rw [equalRight_of_result hn hb hf hresult, hsame]
      have hsome : ∀ (n : Nat) (e : Bytes), (if n = 0 then some [] else (Pointer.block life e).content.map (List.take n)) =
          some (e.take n) := by
        intro n e
        by_cases hz : n = 0
        · simp [hz]
        · simp [hz, Pointer.content]
      rw [hsome size d]
      change _ ↔ _ = (if size' = 0 then some [] else (Pointer.block life d').content.map (List.take size'))
      rw [hsome size' d', Option.some.injEq, Bool.and_eq_true, beq_iff_eq, beq_iff_eq]
      constructor
      · rintro ⟨rfl, htake⟩
        exact htake
      · intro htake
        have hsizes : size = size' := by rw [← hlen, htake, hlen']
        exact ⟨hsizes, by rw [htake, hsizes]⟩

theorem equalRight_iff_contentComparable (ha : a.Initialised) (hib : b.Initialised) :
    EqualRight a b ↔ ContentComparable a b := by
  rw [ContentComparable]
  cases h : a.format with
  | bool => exact iff_of_true (equalRight_bool hn hb hf h) trivial
  | float => exact iff_of_true (equalRight_float hn hb hf h) trivial
  | string => exact equalRight_string hn hb hf h
  | tlv => exact equalRight_tlv hn hb hf h
  | data => exact equalRight_data hn hb hf ha hib h
  | uint8 =>
    have hcontent : a.content = b.content ↔ a.union.low 8 = b.union.low 8 := by
      simp [HomekitValue.content, h, ← hf, uint8Value_eq_iff]
    rw [equalRight_integer hn hb hf (by rw [h]; rfl) (by simp [h]) (by simp [h]) hcontent]
    exact ⟨fun hiff => hiff.mpr, fun hwide => ⟨low_of_low (by decide), hwide⟩⟩
  | uint16 =>
    have hcontent : a.content = b.content ↔ a.union.low 16 = b.union.low 16 := by
      simp [HomekitValue.content, h, ← hf, uint16Value_eq_iff]
    rw [equalRight_integer hn hb hf (by rw [h]; rfl) (by simp [h]) (by simp [h]) hcontent]
    exact ⟨fun hiff => hiff.mpr, fun hwide => ⟨low_of_low (by decide), hwide⟩⟩
  | uint32 =>
    have hcontent : a.content = b.content ↔ a.union.low 32 = b.union.low 32 := by
      simp [HomekitValue.content, h, ← hf, uint32Value_eq_iff]
    rw [equalRight_integer hn hb hf (by rw [h]; rfl) (by simp [h]) (by simp [h]) hcontent]
    exact iff_of_true Iff.rfl trivial
  | uint64 =>
    have hcontent : a.content = b.content ↔ a.union.low 64 = b.union.low 64 := by
      simp [HomekitValue.content, h, ← hf, HomekitValue.uint64Value, uint64Value_eq_iff]
    rw [equalRight_integer hn hb hf (by rw [h]; rfl) (by simp [h]) (by simp [h]) hcontent]
    exact ⟨fun hiff => hiff.mp, fun hwide => ⟨hwide, low_of_low (by decide)⟩⟩
  | int =>
    have hcontent : a.content = b.content ↔ a.union.low 32 = b.union.low 32 := by
      simp [HomekitValue.content, h, ← hf, intValue_eq_iff]
    rw [equalRight_integer hn hb hf (by rw [h]; rfl) (by simp [h]) (by simp [h]) hcontent]
    exact iff_of_true Iff.rfl trivial

end There

/-- Two values are compared right exactly when null values agree in the members that are compared,
and the others are told apart by an int, or by their bytes in front of a NUL. -/
theorem homekitValueEqual_right_iff (ha : a.Initialised) (hb : b.Initialised) : EqualRight a b ↔ Comparable a b := by
  by_cases hsame : a.isNull = b.isNull ∧ a.format = b.format
  · obtain ⟨hn, hf⟩ := hsame
    cases hnull : a.isNull with
    | true =>
      rw [equalRight_iff_nullComparable hnull (hn ▸ hnull) hf, Comparable, if_pos hnull]
      exact ⟨fun h _ _ => h, fun h => h hn hf⟩
    | false =>
      rw [equalRight_iff_contentComparable hnull (hn ▸ hnull) hf ha hb, Comparable, if_neg (by simp [hnull])]
      exact ⟨fun h _ _ => h, fun h => h hn hf⟩
  · exact iff_of_true (equalRight_of_differ hsame) (fun hn hf => absurd ⟨hn, hf⟩ hsame)

/-! Two counters that differ in their upper half, and two values that are the same. -/

def counterValue (n : Nat) : HomekitValue where
  isNull := false
  isStatic := false
  format := .uint64
  union := .bits n

theorem counterValue_initialised (n : Nat) : (counterValue n).Initialised := fun _ => ⟨n, rfl⟩

theorem counters_equal_right : EqualRight (counterValue 7) (counterValue 7) :=
  (homekitValueEqual_right_iff (counterValue_initialised 7) (counterValue_initialised 7)).mpr (fun _ _ _ => rfl)

theorem counters_compared_wrong :
    (counterValue 1).Initialised ∧ (counterValue (2 ^ 32 + 1)).Initialised ∧
      ¬ EqualRight (counterValue 1) (counterValue (2 ^ 32 + 1)) := by
  refine ⟨counterValue_initialised _, counterValue_initialised _, ?_⟩
  rintro ⟨⟨r, hr, hiff⟩, _⟩
  have htrue : homekitValueEqual (counterValue 1) (counterValue (2 ^ 32 + 1)) = .ok true := by decide
  obtain rfl := Except.ok.inj (htrue.symm.trans hr)
  have hcontent : (counterValue 1).content = (counterValue (2 ^ 32 + 1)).content := (hiff.mp rfl).content rfl
  exact absurd hcontent (by decide)

end ArduinoHomeKit
