import ArduinoHomeKit.Accessories

/-! What a copy of a value keeps. Every integer is copied through the member of an int, and a
pointer that the value owns is followed. -/

namespace ArduinoHomeKit

variable {α : Type} {v u : HomekitValue}

/-- What a value says, read under its format. A pointer may be NULL. -/
inductive Content
  | bool (b : Bool)
  | uint8 (n : UInt8)
  | uint16 (n : UInt16)
  | uint32 (n : UInt32)
  | uint64 (n : UInt64)
  | int (n : Int)
  | float (bits : Nat)
  | string (text : Option Bytes)
  | tlv (list : Option (List Tlv))
  | data (bytes : Option Bytes)
  deriving DecidableEq

def Pointer.content : Pointer α → Option α
  | null => none
  | block _ content => some content

/-- Data of no bytes is the same wherever it points. -/
def HomekitValue.content (v : HomekitValue) : Content :=
  match v.format with
  | .bool => .bool v.boolValue
  | .uint8 => .uint8 v.uint8Value
  | .uint16 => .uint16 v.uint16Value
  | .uint32 => .uint32 v.uint32Value
  | .uint64 => .uint64 v.uint64Value
  | .int => .int v.intValue
  | .float => .float v.floatBits
  | .string => .string (v.union.stringValue.content.map CString.strdup)
  | .tlv => .tlv v.union.tlvList.content
  | .data =>
    .data (if v.union.dataSize = 0 then some [] else v.union.dataValue.content.map (List.take v.union.dataSize))

/-- Two values say the same. -/
structure SameValue (u v : HomekitValue) : Prop where
  format : u.format = v.format
  isNull : u.isNull = v.isNull
  content : v.isNull = false → u.content = v.content

/-- The copy comes about, with the format, the null flag and the content of its source. -/
def CopyRight (v : HomekitValue) : Prop := ∃ u, homekitValueCopy v = .ok u ∧ SameValue u v

/-- An integer of 64 bits has no more than 32, and a pointer that is followed is not NULL. -/
def Copyable (v : HomekitValue) : Prop :=
  v.isNull = true ∨
    match v.format with
    | .uint64 => v.union.low 64 < 2 ^ 32
    | .string => v.isStatic = true ∨ v.union.stringValue ≠ .null
    | .tlv => v.isStatic = true ∨ v.union.tlvList ≠ .null
    | .data => v.isStatic = true ∨ v.union.dataSize = 0 ∨ v.union.dataValue ≠ .null
    | _ => True

@[simp] theorem stringValue_string (p : Pointer Bytes) : (Union.string p).stringValue = p := rfl

@[simp] theorem tlvList_tlvValues (p : Pointer (List Tlv)) : (Union.tlvValues p).tlvList = p := rfl

@[simp] theorem dataValue_data (p : Pointer Bytes) (size : Nat) : (Union.data p size).dataValue = p := rfl

@[simp] theorem dataSize_data (p : Pointer Bytes) (size : Nat) : (Union.data p size).dataSize = size := rfl

/-- A member that is no wider than the one it is copied through. -/
theorem low_bits_low (x : Union) {width n : Nat} (h : n ≤ width) : (Union.bits (x.low width)).low n = x.low n := by
  cases x with
  | bits word => exact Nat.mod_mod_of_dvd word (Nat.pow_dvd_pow 2 h)
  | string p => exact Nat.zero_mod _
  | tlvValues p => exact Nat.zero_mod _
  | data p size => exact Nat.zero_mod _

/-- A wider one is cut. -/
theorem low_bits_low_wide (x : Union) : (Union.bits (x.low 32)).low 64 = x.low 64 ↔ x.low 64 < 2 ^ 32 := by
  cases x with
  | bits word =>
    simp only [Union.low]
    omega
  | string p => simp [Union.low]
  | tlvValues p => simp [Union.low]
  | data p size => simp [Union.low]

/-- The copy of a value that is there, around the union that is filled in. -/
def HomekitValue.withUnion (v : HomekitValue) (union : Union) : HomekitValue where
  isNull := false
  isStatic := v.isStatic && v.format.isPointer
  format := v.format
  union := union

@[simp] theorem withUnion_format (v : HomekitValue) (union : Union) : (v.withUnion union).format = v.format := rfl

@[simp] theorem withUnion_union (v : HomekitValue) (union : Union) : (v.withUnion union).union = union := rfl

theorem copyUnion_ok {union : Union} (hn : v.isNull = false) (h : copyUnion v = .ok union) :
    homekitValueCopy v = .ok (v.withUnion union) := by
  rw [homekitValueCopy, if_neg (by simp [hn]), h]
  rfl

theorem copyUnion_error {e : Fault} (hn : v.isNull = false) (h : copyUnion v = .error e) :
    homekitValueCopy v = .error e := by
  rw [homekitValueCopy, if_neg (by simp [hn]), h]
  rfl

/-- The copy of a value that is there is right when its union is. -/
theorem copyRight_of_union {union : Union} (hn : v.isNull = false) (h : copyUnion v = .ok union) :
    CopyRight v ↔ (v.withUnion union).content = v.content := by
  have hcopy := copyUnion_ok hn h
  constructor
  · rintro ⟨u, hu, hsame⟩
    obtain rfl := Except.ok.inj (hcopy.symm.trans hu)
    exact hsame.content hn
  · intro hcontent
    exact ⟨_, hcopy, rfl, hn.symm, fun _ => hcontent⟩

theorem copyRight_of_copy (h : homekitValueCopy v = .ok u) : CopyRight v ↔ SameValue u v := by
  constructor
  · rintro ⟨u', hu', hsame⟩
    obtain rfl := Except.ok.inj (h.symm.trans hu')
    exact hsame
  · exact fun hsame => ⟨u, h, hsame⟩

theorem not_copyRight {e : Fault} (hn : v.isNull = false) (h : copyUnion v = .error e) : ¬ CopyRight v := by
  rintro ⟨u, hu, _⟩
  rw [copyUnion_error hn h] at hu
  simp at hu

theorem uint64Value_eq_iff {x y : Union} : UInt64.ofNat (x.low 64) = UInt64.ofNat (y.low 64) ↔ x.low 64 = y.low 64 := by
  have hlt : ∀ x : Union, x.low 64 < 2 ^ 64 := fun x => by
    cases x with
    | bits word => exact Nat.mod_lt _ (by decide)
    | _ => exact Nat.two_pow_pos 64
  rw [← UInt64.toNat_inj, UInt64.toNat_ofNat_of_lt' (hlt x), UInt64.toNat_ofNat_of_lt' (hlt y)]

/-- A scalar of at most 32 bits is told by its low bits. -/
theorem content_of_low (hf : u.format = v.format) (hp : v.format.isPointer = false) (hw : v.format ≠ .uint64)
    (h : ∀ n ≤ 32, u.union.low n = v.union.low n) : u.content = v.content := by
  unfold HomekitValue.content
  rw [hf]
  cases hv : v.format with
  | bool => simp only [HomekitValue.boolValue, h 8 (by decide)]
  | uint8 => simp only [HomekitValue.uint8Value, h 8 (by decide)]
  | uint16 => simp only [HomekitValue.uint16Value, h 16 (by decide)]
  | uint32 => simp only [HomekitValue.uint32Value, h 32 (by decide)]
  | uint64 => exact absurd hv hw
  | int => exact congrArg (fun n : Nat => Content.int ((n : Int).bmod (2 ^ 32))) (h 32 (Nat.le_refl 32))
  | float => simp only [HomekitValue.floatBits, h 32 (by decide)]
  | _ => simp [hv, Format.isPointer] at hp

/-- The copy keeps them. -/
theorem copyRight_scalar (hn : v.isNull = false) (hp : v.format.isPointer = false) (hw : v.format ≠ .uint64)
    (hb : v.format ≠ .bool) : CopyRight v := by
  have hcopy : copyUnion v = .ok (.bits (v.union.low 32)) := by
    unfold copyUnion
    cases hv : v.format <;> simp_all [Format.isPointer]
  rw [copyRight_of_union hn hcopy]
  exact content_of_low rfl hp hw (fun n h => low_bits_low v.union h)

theorem copyRight_iff (v : HomekitValue) : CopyRight v ↔ Copyable v := by
  by_cases hnull : v.isNull = true
  · exact iff_of_true ⟨_, if_pos hnull, rfl, hnull.symm, fun h => by simp [hnull] at h⟩ (Or.inl hnull)
  · rw [Bool.not_eq_true] at hnull
    obtain ⟨isNull, isStatic, format, union⟩ := v
    dsimp only at hnull
    subst hnull
    simp only [Copyable, Bool.false_eq_true, false_or]
    cases format with
    | bool =>
      rw [copyRight_of_union rfl rfl]
      simp [HomekitValue.content, HomekitValue.boolValue, low_bits_low]
    | uint64 =>
      rw [copyRight_of_union rfl rfl, ← low_bits_low_wide, ← uint64Value_eq_iff]
      exact Content.uint64.injEq _ _ ▸ Iff.rfl
    | string =>
      cases isStatic with
      | true =>
        rw [copyRight_of_union rfl rfl]
        simp [HomekitValue.content]
      | false =>
        cases hp : union.stringValue with
        | null => exact iff_of_false (not_copyRight rfl (by simp only [copyUnion, hp]; rfl)) (by simp)
        | block life text =>
          rw [copyRight_of_union rfl (by simp only [copyUnion, hp]; rfl)]
          simp [HomekitValue.content, Pointer.content, hp]
    | tlv =>
      cases isStatic with
      | true =>
        rw [copyRight_of_union rfl rfl]
        simp [HomekitValue.content]
      | false =>
        cases hp : union.tlvList with
        | null => exact iff_of_false (not_copyRight rfl (by simp only [copyUnion, hp]; rfl)) (by simp)
        | block life list =>
          rw [copyRight_of_union rfl (by simp only [copyUnion, hp]; rfl)]
          simp [HomekitValue.content, Pointer.content, hp]
    | data =>
      cases isStatic with
      | true =>
        rw [copyRight_of_union rfl rfl]
        exact iff_of_true rfl (Or.inl rfl)
      | false =>
        by_cases hsize : union.dataSize = 0
        · rw [copyRight_of_union rfl (by simp only [copyUnion, hsize]; rfl)]
          simp [HomekitValue.content, hsize]
        · cases hp : union.dataValue with
          | null => exact iff_of_false (not_copyRight rfl (by simp only [copyUnion, hp, hsize]; rfl)) (by simp [hsize])
          | block life bytes =>
            have htake : List.take union.dataSize (List.take union.dataSize bytes) = List.take union.dataSize bytes := by
              rw [List.take_take, Nat.min_self]
            rw [copyRight_of_union rfl (by simp only [copyUnion, hp, hsize]; rfl)]
            simp [HomekitValue.content, Pointer.content, hp, hsize, htake]
    | _ => exact iff_of_true (copyRight_scalar rfl rfl (by simp) (by simp)) trivial

/-- The first value that does not fit into an int. -/
theorem wide_integer_cut : ¬ ∀ v, CopyRight v := by
  intro h
  have := (h { isNull := false, isStatic := false, format := .uint64, union := .bits (2 ^ 32) })
  rw [copyRight_of_union rfl rfl] at this
  revert this
  decide

end ArduinoHomeKit
