import ArduinoHomeKit.ItemUpdates

/-! Writing an integer characteristic: the number that is stored against the number that was
requested. -/

namespace ArduinoHomeKit

variable {υ : Type} {sketch : Sketch υ} {rt : Runtime} {c : ClientId} {ch : CharacteristicId} {j value : CJson}
  {s s' : AccessoryState υ} {status : HAPStatus} {x : Characteristic} {v : HomekitValue} {d : Double} {m n : Int}

/-! Integers among the doubles. -/

theorem Double.lt_ofInt (m n : Int) : (Double.ofInt m).lt (.ofInt n) = decide (m < n) := by
  simp [Double.ofInt, Double.lt]

theorem Double.le_ofInt (m n : Int) : (Double.ofInt m).le (.ofInt n) = decide (m ≤ n) := by
  simp [Double.ofInt, Double.le]

theorem Double.truncate_ofInt (n : Int) : (Double.ofInt n).truncate? = some n := by
  simp [Double.ofInt, Double.truncate?]

theorem toUnsigned_ofInt {width : Nat} (h0 : 0 ≤ n) (h : n < 2 ^ width) : (toUnsigned rt width (.ofInt n) : Int) = n := by
  rw [toUnsigned, Double.truncate_ofInt]
  dsimp only
  rw [if_pos ⟨h0, by exact_mod_cast h⟩]
  exact Int.toNat_of_nonneg h0

theorem toUnsigned_lt (rt : Runtime) (width : Nat) (d : Double) : toUnsigned rt width d < 2 ^ width := by
  have hpos : 0 < 2 ^ width := Nat.two_pow_pos width
  rw [toUnsigned]
  split
  · split
    · rename_i n _ h
      exact (Int.toNat_lt h.1).mpr (by exact_mod_cast h.2)
    · exact Nat.mod_lt _ hpos
  · exact Nat.mod_lt _ hpos

theorem toInt_ofInt (h : -2 ^ 31 ≤ n ∧ n < 2 ^ 31) : toInt rt (.ofInt n) = n := by
  rw [toInt, Double.truncate_ofInt]
  dsimp only
  rw [if_pos h]

@[simp] theorem low_overlay (u : Uninitialised) (width n : Nat) : (overlay u width n).low width = n % 2 ^ width := by
  rw [overlay, Union.low, Nat.mul_comm, Nat.mul_add_mod]
  exact Nat.mod_mod n _

/-! The request and what is stored for it. -/

def Format.isInteger : Format → Bool
  | .uint8 | .uint16 | .uint32 | .uint64 | .int => true
  | _ => false

/-- The numbers of a format. -/
def formatRange : Format → Int × Int
  | .uint8 => (0, 2 ^ 8 - 1)
  | .uint16 => (0, 2 ^ 16 - 1)
  | .uint32 => (0, 2 ^ 32 - 1)
  | .uint64 => (0, 2 ^ 64 - 1)
  | .int => (-2 ^ 31, 2 ^ 31 - 1)
  | _ => (0, 0)

def InRange (format : Format) (n : Int) : Prop := (formatRange format).1 ≤ n ∧ n ≤ (formatRange format).2

/-- A limit that is a whole number of the format. -/
def WholeLimit (format : Format) (limit : Option Nat) : Prop :=
  ∀ f ∈ limit, ∃ m, floatToDouble f = .ofInt m ∧ InRange format m

/-- The integer that a JSON boolean or an integer number asks for. -/
def requestedInteger : CJson → Option Int
  | .boolean b => some (if b then 1 else 0)
  | .number (.finite q) => if q.den = 1 then some q.num else none
  | _ => none

def storedInteger (v : HomekitValue) : Int :=
  match v.format with
  | .uint8 => v.uint8Value.toNat
  | .uint16 => v.uint16Value.toNat
  | .uint32 => v.uint32Value.toNat
  | .uint64 => v.uint64Value.toNat
  | .int => v.intValue
  | _ => 0

/-- What the characteristic asks of its numbers. -/
structure Admissible (x : Characteristic) (n : Int) : Prop where
  range : InRange x.format n
  min : ∀ f ∈ x.minValue, (floatToDouble f).le (.ofInt n) = true
  max : ∀ f ∈ x.maxValue, (Double.ofInt n).le (floatToDouble f) = true
  values : x.validValues ≠ [] → ∃ a ∈ x.validValues, n = (a.toNat : Int)
  ranges : x.validValuesRanges ≠ [] → ∃ r ∈ x.validValuesRanges, (r.1.toNat : Int) ≤ n ∧ n ≤ (r.2.toNat : Int)

/-- The value is the number. -/
structure StoresNumber (x : Characteristic) (n : Int) (v : HomekitValue) : Prop where
  isNull : v.isNull = false
  format : v.format = x.format
  number : storedInteger v = n
  admissible : Admissible x n

/-- The item is refused and changes nothing, or it stores the number. -/
def IntegerRight (sketch : Sketch υ) (rt : Runtime) (c : ClientId) (j : CJson) (s : AccessoryState υ) (ch : CharacteristicId)
    (n : Int) : Prop :=
  ∃ s' status, processCharacteristicsUpdate sketch rt c j s = .ok (s', status) ∧
    (status ≠ .success ∧ (s'.database.characteristic ch).value = (s.database.characteristic ch).value ∨
      StoresNumber (s.database.characteristic ch) n (s'.database.characteristic ch).value)

/-- The number that the checks look at: for `true` it is 0. -/
theorem valuedouble_requested (hn : requestedInteger value = some n) :
    ∃ m, value.valuedouble = .ofInt m ∧ (value = .boolean true ∧ m = 0 ∧ n = 1 ∨ value ≠ .boolean true ∧ m = n) := by
  cases value with
  | boolean b =>
    cases b with
    | false => exact ⟨0, rfl, Or.inr ⟨by simp, by simpa [requestedInteger] using hn⟩⟩
    | true => exact ⟨0, rfl, Or.inl ⟨rfl, rfl, by simpa [requestedInteger] using hn.symm⟩⟩
  | number d =>
    cases d with
    | finite q =>
      simp only [requestedInteger, Option.ite_none_right_eq_some, Option.some.injEq] at hn
      obtain ⟨hden, rfl⟩ := hn
      have hq : (q.num : ℚ) = q := Rat.coe_int_num_of_den_eq_one hden
      exact ⟨q.num, by rw [CJson.valuedouble, Double.ofInt, hq], Or.inr ⟨by simp, rfl⟩⟩
    | infinite a => simp [requestedInteger] at hn
    | nan => simp [requestedInteger] at hn
  | _ => simp [requestedInteger] at hn

/-! The checks. -/

/-- What the checks of a number let through. -/
structure Checked (rt : Runtime) (x : Characteristic) (m : Int) : Prop where
  lower : (Double.ofInt m).lt x.limits.1 = false
  upper : x.limits.2.lt (.ofInt m) = false
  values : x.validValues ≠ [] → isValidValue rt x (.ofInt m) = true
  ranges : x.validValuesRanges ≠ [] → isInValidRange x (.ofInt m) = true

theorem writtenInteger_some (hd : value.valuedouble = .ofInt m) (h : writtenInteger rt x value = some d) :
    d = .ofInt m ∧ Checked rt x m := by
  unfold writtenInteger at h
  rw [hd] at h
  dsimp only at h
  split_ifs at h with h1 h2 h3 h4
  obtain rfl := Option.some.inj h
  simp only [Bool.or_eq_true, not_or, Bool.not_eq_true] at h2
  refine ⟨rfl, h2.1, h2.2, fun hv => ?_, fun hr => ?_⟩
  · simpa using fun hf => h3 ⟨hv, hf⟩
  · simpa using fun hf => h4 ⟨hr, hf⟩

/-- A number that passed is in the range of the format, or just behind it. -/
theorem Checked.range (h : Checked rt x m) (hf : x.format.isInteger = true) (hmin : WholeLimit x.format x.minValue)
    (hmax : WholeLimit x.format x.maxValue) : InRange x.format m ∨ x.format = .uint64 ∧ m = 2 ^ 64 ∧ x.maxValue = none := by
  have hlow : (formatRange x.format).1 ≤ m := by
    have hlower := h.lower
    rw [Characteristic.limits] at hlower
    cases hm : x.minValue with
    | some f =>
      obtain ⟨k, hk, hr⟩ := hmin f hm
      rw [hm, Option.map_some, Option.getD_some, hk, Double.lt_ofInt, decide_eq_false_iff_not] at hlower
      exact hr.1.trans (Int.not_lt.mp hlower)
    | none =>
      rw [hm, Option.map_none, Option.getD_none] at hlower
      cases hx : x.format <;> simp [hx, formatLimits, Double.lt_ofInt] at hlower <;> simp [hx, Format.isInteger] at hf <;>
        simp [formatRange] <;> omega
  have hupper := h.upper
  rw [Characteristic.limits] at hupper
  cases hm : x.maxValue with
  | some f =>
    obtain ⟨k, hk, hr⟩ := hmax f hm
    rw [hm, Option.map_some, Option.getD_some, hk, Double.lt_ofInt, decide_eq_false_iff_not] at hupper
    exact Or.inl ⟨hlow, (Int.not_lt.mp hupper).trans hr.2⟩
  | none =>
    rw [hm, Option.map_none, Option.getD_none] at hupper
    by_cases h64 : x.format = .uint64 ∧ m = 2 ^ 64
    · exact Or.inr ⟨h64.1, h64.2, rfl⟩
    · refine Or.inl ⟨hlow, ?_⟩
      cases hx : x.format <;> simp [hx, formatLimits, Double.lt_ofInt] at hupper h64 <;>
        simp [hx, Format.isInteger] at hf <;> simp [formatRange] <;> omega

/-- The checks are those of the characteristic, if the conversion to int for the valid values is
exact. -/
theorem Checked.admissible (h : Checked rt x m) (hrange : InRange x.format m)
    (hint : x.validValues ≠ [] → -2 ^ 31 ≤ m ∧ m < 2 ^ 31) (hmin : WholeLimit x.format x.minValue)
    (hmax : WholeLimit x.format x.maxValue) : Admissible x m := by
  refine ⟨hrange, fun f hf => ?_, fun f hf => ?_, fun hv => ?_, fun hr => ?_⟩
  · obtain ⟨k, hk, _⟩ := hmin f hf
    have hlower := h.lower
    rw [Characteristic.limits, hf, Option.map_some, Option.getD_some, hk, Double.lt_ofInt, decide_eq_false_iff_not] at hlower
    rw [hk, Double.le_ofInt, decide_eq_true_iff]
    exact Int.not_lt.mp hlower
  · obtain ⟨k, hk, _⟩ := hmax f hf
    have hupper := h.upper
    rw [Characteristic.limits, hf, Option.map_some, Option.getD_some, hk, Double.lt_ofInt, decide_eq_false_iff_not] at hupper
    rw [hk, Double.le_ofInt, decide_eq_true_iff]
    exact Int.not_lt.mp hupper
  · obtain ⟨a, ha, he⟩ := List.any_eq_true.mp (h.values hv)
    rw [toInt_ofInt (hint hv), beq_iff_eq] at he
    exact ⟨a, ha, he⟩
  · obtain ⟨r, hm, he⟩ := List.any_eq_true.mp (h.ranges hr)
    rw [Bool.and_eq_true, Double.le_ofInt, Double.le_ofInt, decide_eq_true_iff, decide_eq_true_iff] at he
    exact ⟨r, hm, he⟩

/-! What is stored. -/

theorem writtenValue_integer {now : Nat} (hf : x.format.isInteger = true) :
    writtenValue rt x now value = .ok (match writtenInteger rt x value with
      | some d => .ok (cppValue (rt.stack now) x.format (integerUnion rt (rt.stack now) d x.format))
      | none => .error .invalidValue) := by
  cases hx : x.format <;> simp [hx, Format.isInteger] at hf <;> simp only [writtenValue, hx] <;>
    cases writtenInteger rt x value <;> rfl

theorem storedInteger_built (hf : x.format.isInteger = true) (u : Uninitialised) (hr : InRange x.format m) :
    storedInteger (cppValue u x.format (integerUnion rt u (.ofInt m) x.format)) = m := by
  have hmod : ∀ width : Nat, 0 ≤ m → m < 2 ^ width → (toUnsigned rt width (.ofInt m) % 2 ^ width : Nat) = m := by
    intro width h0 h
    rw [Nat.mod_eq_of_lt (toUnsigned_lt ..), toUnsigned_ofInt h0 h]
  cases hx : x.format <;> simp [hx, Format.isInteger] at hf <;> rw [hx] at hr <;> obtain ⟨h0, h1⟩ := hr <;>
    simp only [formatRange] at h0 h1
  · have := hmod 8 h0 (by omega)
    simp only [storedInteger, cppValue, integerUnion, HomekitValue.uint8Value, low_overlay, UInt8.toNat_ofNat']
    omega
  · have := hmod 16 h0 (by omega)
    simp only [storedInteger, cppValue, integerUnion, HomekitValue.uint16Value, low_overlay, UInt16.toNat_ofNat']
    omega
  · have := hmod 32 h0 (by omega)
    simp only [storedInteger, cppValue, integerUnion, HomekitValue.uint32Value, low_overlay, UInt32.toNat_ofNat']
    omega
  · have := hmod 64 h0 (by omega)
    simp only [storedInteger, cppValue, integerUnion, HomekitValue.uint64Value, low_overlay, UInt64.toNat_ofNat']
    omega
  · have hint : toInt rt (.ofInt m) = m := toInt_ofInt (by omega)
    have hlow : (((integerUnion rt u (.ofInt m) .int).low 32 : Nat) : Int) = m % 2 ^ 32 := by
      have hunion : integerUnion rt u (.ofInt m) .int = overlay u 32 (toInt rt (.ofInt m) % 2 ^ 32).toNat := rfl
      rw [hunion, low_overlay, hint]
      omega
    have hpow : ((2 ^ 32 : Nat) : Int) = 4294967296 := by norm_num
    have hbmod : (m % 2 ^ 32).bmod (2 ^ 32) = m :=
      (Int.emod_bmod ..).trans (Int.bmod_eq_of_le (by rw [hpow]; omega) (by rw [hpow]; omega))
    unfold storedInteger HomekitValue.intValue
    dsimp only [cppValue]
    rw [hlow, hbmod]

/-! The item as a whole. -/

/-- Notifying a scalar value always returns. -/
theorem notifyLoop_scalar (hv : v.format.isPointer = false) (cbs : List Callback) (s : AccessoryState υ) :
    ∃ s', notifyLoop sketch ch v cbs s = .ok s' := by
  have hequal : ∀ a, ∃ b, homekitValueEqual a v = .ok b := by
    intro a
    unfold homekitValueEqual
    split
    · exact ⟨_, rfl⟩
    · split
      · exact ⟨_, rfl⟩
      · rename_i hf
        have hfa : a.format.isPointer = false := by rwa [not_not.mp hf]
        cases ha : a.format <;> simp [ha, Format.isPointer] at hfa <;> exact ⟨_, rfl⟩
  have hcopy : ∃ w, homekitValueCopy v = .ok w := by
    rw [homekitValueCopy]
    split
    · exact ⟨_, rfl⟩
    · cases hf : v.format <;> simp [hf, Format.isPointer] at hv <;> simp [copyUnion, hf, Except.map]
  induction cbs generalizing s with
  | nil => exact ⟨s, rfl⟩
  | cons cb cbs ih =>
    have hrun : ∃ s₁, runCallback sketch s ch v cb = .ok s₁ := by
      rw [runCallback]
      cases cb.function with
      | user k => exact ⟨_, rfl⟩
      | clientNotifyCharacteristic =>
        have hown : ∃ b, isOwnWrite s ch v cb.context = .ok b := by
          rw [isOwnWrite]
          split
          · split
            · exact hequal _
            · exact ⟨_, rfl⟩
          · exact ⟨_, rfl⟩
        obtain ⟨b, hb⟩ := hown
        obtain ⟨w, hw⟩ := hcopy
        cases b <;> simp [clientNotifyCharacteristic, hb, hw]
    obtain ⟨s₁, hs₁⟩ := hrun
    simp only [notifyLoop, hs₁]
    exact ih s₁

/-- A checked number is stored as it is built. -/
theorem updateValue_integer (hf : (s.database.characteristic ch).format.isInteger = true)
    (hset : (s.database.characteristic ch).setterEx = none)
    (hp : hasFlag (s.database.characteristic ch).permissions Permissions.pairedWrite = true)
    (hw : writtenInteger rt (s.database.characteristic ch) value = some d) :
    ∃ s', updateValue sketch rt c ch value s = .ok (s', .success) ∧
      (s'.database.characteristic ch).permissions = (s.database.characteristic ch).permissions ∧
      (s'.database.characteristic ch).value = cppValue (rt.stack s.now) (s.database.characteristic ch).format
        (integerUnion rt (rt.stack s.now) d (s.database.characteristic ch).format) := by
  let x := s.database.characteristic ch
  let v := cppValue (rt.stack s.now) x.format (integerUnion rt (rt.stack s.now) d x.format)
  let s₁ := AccessoryState.setValue { s with now := s.now + 1 } ch v
  have hpointer : v.format.isPointer = false := by
    show x.format.isPointer = false
    cases hx : x.format <;> simp [x, hx, Format.isInteger] at hf hx ⊢ <;> simp_all [Format.isPointer]
  have hstore : storeWritten sketch ch v { s with now := s.now + 1 } = .ok s₁ := by
    simp [storeWritten, hset, hpointer, s₁]
  have hfree : freeWritten rt x v s₁ = (v, s₁) := by
    rw [freeWritten, if_neg]
    intro ht
    rw [show (s.database.characteristic ch).format = x.format from rfl, ht] at hf
    simp [Format.isInteger] at hf
  have hnotify : ∃ s₂, notifyWritten sketch c ch v s₁ = .ok s₂ := by
    rw [notifyWritten]
    split
    · exact ⟨_, rfl⟩
    · have hloop : ∃ s₂, homekitCharacteristicNotify sketch
          { s₁ with
            currentCharacteristic := Function.update s₁.currentCharacteristic c (some ch)
            currentValue := Function.update s₁.currentValue c (some v) } ch v = .ok s₂ := notifyLoop_scalar hpointer _ _
      obtain ⟨s₂, hs₂⟩ := hloop
      exact ⟨_, map_eq_ok.mpr ⟨s₂, hs₂, rfl⟩⟩
  obtain ⟨s₂, hs₂⟩ := hnotify
  have hdb := notifyWritten_database hs₂
  have hself : s₁.database.characteristic ch = { x with value := v } := setCharacteristic_self ..
  refine ⟨s₂, ?_, ?_, ?_⟩
  · simp only [updateValue, hp, Bool.true_eq_false, if_false, writtenValue_integer hf, hw]
    simp only [x, v] at hstore hfree hs₂
    simp only [hstore, hfree, hs₂, Except.map]
  · rw [hdb, hself]
  · rw [hdb, hself]

theorem processItem_integer (hch : itemCharacteristic rt s.database j = some ch)
    (hval : j.getObjectItem (ascii "value") = some value) (hf : (s.database.characteristic ch).format.isInteger = true)
    (hset : (s.database.characteristic ch).setterEx = none)
    (hp : hasFlag (s.database.characteristic ch).permissions Permissions.pairedWrite = true)
    (hw : writtenInteger rt (s.database.characteristic ch) value = some d) :
    ∃ s', processCharacteristicsUpdate sketch rt c j s = .ok (s', .success) ∧
      (s'.database.characteristic ch).value = cppValue (rt.stack s.now) (s.database.characteristic ch).format
        (integerUnion rt (rt.stack s.now) d (s.database.characteristic ch).format) := by
  obtain ⟨s₁, hs₁, hperm, hvalue⟩ : ∃ s₁, updateValue sketch rt c ch value s = .ok (s₁, .success) ∧ _ :=
    updateValue_integer hf hset hp hw
  simp only [processCharacteristicsUpdate, hch, updateItemValue, hval, hs₁]
  cases hev : j.getObjectItem (ascii "ev") with
  | none => exact ⟨s₁, rfl, hvalue⟩
  | some events =>
    -- a writable characteristic has a permission
    have hne : (s₁.database.characteristic ch).permissions ≠ 0 := by
      rw [hperm]
      intro h0
      rw [h0] at hp
      exact absurd hp (by decide)
    have hok : (updateEvents c ch events s₁).2 = .success := (updateEvents_right _ _ hne).1
    exact ⟨_, congrArg Except.ok (Prod.ext rfl hok), (updateEvents_values ..).2.trans hvalue⟩

/-- A number is stored right unless the number is 1 and comes as `true`, or is 2^64, or the
conversion to int of a large number meets a valid value, or a bit that nobody set says null. -/
theorem integerRight_iff (hch : itemCharacteristic rt s.database j = some ch)
    (hval : j.getObjectItem (ascii "value") = some value) (hf : (s.database.characteristic ch).format.isInteger = true)
    (hset : (s.database.characteristic ch).setterEx = none)
    (hmin : WholeLimit (s.database.characteristic ch).format (s.database.characteristic ch).minValue)
    (hmax : WholeLimit (s.database.characteristic ch).format (s.database.characteristic ch).maxValue)
    (hn : requestedInteger value = some n) :
    IntegerRight sketch rt c j s ch n ↔
      hasFlag (s.database.characteristic ch).permissions Permissions.pairedWrite = false ∨
      writtenInteger rt (s.database.characteristic ch) value = none ∨
      value ≠ .boolean true ∧ n ≠ 2 ^ 64 ∧
        ((s.database.characteristic ch).validValues ≠ [] → -2 ^ 31 ≤ n ∧ n < 2 ^ 31) ∧ (rt.stack s.now).isNull = false := by
  have hrefused : ∀ status, status ≠ HAPStatus.success → updateValue sketch rt c ch value s = .ok (s, status) →
      IntegerRight sketch rt c j s ch n := by
    intro status hne hu
    refine ⟨s, status, ?_, Or.inl ⟨hne, rfl⟩⟩
    simp only [processCharacteristicsUpdate, hch, updateItemValue, hval, hu]
  by_cases hp : hasFlag (s.database.characteristic ch).permissions Permissions.pairedWrite = false
  · refine ⟨fun _ => Or.inl hp, fun _ => hrefused .readOnly (by simp) ?_⟩
    simp only [updateValue]
    rw [if_pos hp]
  · cases hw : writtenInteger rt (s.database.characteristic ch) value with
    | none =>
      refine ⟨fun _ => Or.inr (Or.inl rfl), fun _ => hrefused .invalidValue (by simp) ?_⟩
      simp only [updateValue]
      rw [if_neg hp, writtenValue_integer hf, hw]
    | some d =>
      obtain ⟨m, hm, hcase⟩ := valuedouble_requested hn
      obtain ⟨rfl, hchecked⟩ := writtenInteger_some hm hw
      obtain ⟨s₂, hprocess, hvalue⟩ : ∃ s₂, processCharacteristicsUpdate sketch rt c j s = .ok (s₂, .success) ∧
          (s₂.database.characteristic ch).value = _ :=
        processItem_integer hch hval hf hset (by simpa using hp) hw
      have hright : IntegerRight sketch rt c j s ch n ↔
          StoresNumber (s.database.characteristic ch) n (s₂.database.characteristic ch).value := by
        constructor
        · rintro ⟨s', status, hs', hr⟩
          rw [hprocess] at hs'
          obtain ⟨rfl, rfl⟩ := Prod.mk.inj (Except.ok.inj hs')
          exact hr.resolve_left (fun h => h.1 rfl)
        · exact fun h => ⟨s₂, .success, hprocess, Or.inr h⟩
      have hrange := hchecked.range hf hmin hmax
      rw [hright, hvalue]
      constructor
      · intro h
        rcases hcase with ⟨_, rfl, rfl⟩ | ⟨htrue, rfl⟩
        · have hzero : InRange (s.database.characteristic ch).format 0 := hrange.resolve_right (fun h => by omega)
          have hstored := (storedInteger_built hf (rt.stack s.now) hzero).symm.trans h.number
          omega
        · refine Or.inr (Or.inr ⟨htrue, fun h64 => ?_, fun hv => ?_, h.isNull⟩)
          · have hle := h.admissible.range.2
            cases hx : (s.database.characteristic ch).format <;> simp [hx, formatRange, h64] at hle
          · obtain ⟨a, _, ha⟩ := h.admissible.values hv
            have := a.toNat_lt
            omega
      · rintro (h | h | ⟨htrue, h64, hint, hnull⟩)
        · exact absurd h hp
        · simp at h
        · obtain ⟨_, rfl⟩ := hcase.resolve_left (fun h => htrue h.1)
          have hin := hrange.resolve_right (fun h => h64 h.2.1)
          exact ⟨hnull, rfl, storedInteger_built hf _ hin, hchecked.admissible hin hint hmin hmax⟩

/-- A dimmer with id 9. -/
def benchDimmer : Characteristic := benchCharacteristic 9 (benchScalar .uint8 7)

/-- The dimmer is set to 5. -/
theorem integerRight_iff_dimmer :
    IntegerRight benchSketch benchRuntime 0 (benchItem "value" (.number (.ofInt 5))) (benchState [benchDimmer]) 0 5 ↔
      hasFlag benchDimmer.permissions Permissions.pairedWrite = false ∨
      writtenInteger benchRuntime benchDimmer (.number (.ofInt 5)) = none ∨
      CJson.number (.ofInt 5) ≠ .boolean true ∧ (5 : Int) ≠ 2 ^ 64 ∧
        (benchDimmer.validValues ≠ [] → -2 ^ 31 ≤ (5 : Int) ∧ (5 : Int) < 2 ^ 31) ∧ (benchRuntime.stack 0).isNull = false :=
  integerRight_iff rfl rfl rfl rfl (fun _ h => by simp [benchState, benchDatabase, benchDimmer, benchCharacteristic] at h)
    (fun _ h => by simp [benchState, benchDatabase, benchDimmer, benchCharacteristic] at h) rfl

/-- JSON `true` is stored as 0. -/
theorem true_stored_as_zero :
    requestedInteger (.boolean true) = some 1 ∧
      ¬ IntegerRight benchSketch benchRuntime 0 (benchItem "value" (.boolean true)) (benchState [benchDimmer]) 0 1 := by
  refine ⟨rfl, ?_⟩
  rintro ⟨s', status, h, hr⟩
  obtain ⟨s₂, hs₂, hvalue⟩ : ∃ s₂, processCharacteristicsUpdate benchSketch benchRuntime 0
      (benchItem "value" (.boolean true)) (benchState [benchDimmer]) = .ok (s₂, .success) ∧
        (s₂.database.characteristic 0).value = benchScalar .uint8 0 := by
    have hw : writtenInteger benchRuntime ((benchState [benchDimmer]).database.characteristic 0) (.boolean true) =
        some (.ofInt 0) := by decide +kernel
    exact processItem_integer rfl rfl rfl rfl rfl hw
  rw [hs₂] at h
  obtain ⟨rfl, rfl⟩ := Prod.mk.inj (Except.ok.inj h)
  have hnumber := (hr.resolve_left (fun h => h.1 rfl)).number
  rw [hvalue] at hnumber
  exact absurd hnumber (by decide)

end ArduinoHomeKit
