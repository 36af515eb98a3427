import ArduinoHomeKit.CloneContents

/-! A clone of a characteristic prints what its original prints. -/

namespace ArduinoHomeKit

open StoreLog (Lies apply_append)

variable {υ : Type} {sketch : Sketch υ} {rt : Runtime} {s s' : AccessoryState υ} {ch : CharacteristicId}

/-! Two states that differ in values of characteristics only take the same course. -/

/-- Runs that end alike: both stop with the same fault, or both go on. -/
def Alike {α β : Type} (R : α → β → Prop) : Except Fault α → Except Fault β → Prop
  | .ok a, .ok b => R a b
  | .error e, .error e' => e = e'
  | _, _ => False

theorem Alike.cases {α β : Type} {R : α → β → Prop} {x : Except Fault α} {y : Except Fault β} (h : Alike R x y) :
    (∃ e, x = .error e ∧ y = .error e) ∨ ∃ a b, x = .ok a ∧ y = .ok b ∧ R a b := by
  cases x with
  | error e =>
    cases y with
    | error e' => exact Or.inl ⟨e, rfl, congrArg Except.error h.symm⟩
    | ok b => exact absurd h id
  | ok a =>
    cases y with
    | error e' => exact absurd h id
    | ok b => exact Or.inr ⟨a, b, rfl, rfl, h⟩

/-- The states differ in values of characteristics only. -/
structure Twins (s s' : AccessoryState υ) : Prop where
  shape : SameShape s.database s'.database
  eventQueue : s'.eventQueue = s.eventQueue
  currentCharacteristic : s'.currentCharacteristic = s.currentCharacteristic
  currentValue : s'.currentValue = s.currentValue
  user : s'.user = s.user
  now : s'.now = s.now

theorem clientNotifyCharacteristic_twins (h : Twins s s') (value : HomekitValue) (c : ClientId) :
    Alike Twins (clientNotifyCharacteristic s ch value c) (clientNotifyCharacteristic s' ch value c) := by
  have hown : isOwnWrite s' ch value c = isOwnWrite s ch value c := by
    simp only [isOwnWrite, h.currentValue, h.currentCharacteristic]
  rw [clientNotifyCharacteristic, clientNotifyCharacteristic, hown]
  cases isOwnWrite s ch value c with
  | error e => exact rfl
  | ok own =>
    cases own with
    | true => exact h
    | false =>
      cases homekitValueCopy value with
      | error e => exact rfl
      | ok copy => exact { h with eventQueue := by rw [h.eventQueue] }

theorem runCallback_twins (h : Twins s s') (value : HomekitValue) (cb : Callback) :
    Alike Twins (runCallback sketch s ch value cb) (runCallback sketch s' ch value cb) := by
  rw [runCallback, runCallback]
  cases cb.function with
  | clientNotifyCharacteristic => exact clientNotifyCharacteristic_twins h value cb.context
  | user n => exact { h with user := by rw [h.user] }

theorem notifyLoop_twins (h : Twins s s') (value : HomekitValue) (cbs : List Callback) :
    Alike Twins (notifyLoop sketch ch value cbs s) (notifyLoop sketch ch value cbs s') := by
  induction cbs generalizing s s' with
  | nil => exact h
  | cons cb cbs ih =>
    rw [notifyLoop, notifyLoop]
    rcases (runCallback_twins h value cb).cases with ⟨e, hr, hr'⟩ | ⟨t, t', hr, hr', ht⟩
    · rw [hr, hr']
      exact rfl
    · rw [hr, hr']
      exact ih ht

theorem homekitCharacteristicNotify_twins (h : Twins s s') (value : HomekitValue) :
    Alike Twins (homekitCharacteristicNotify sketch s ch value) (homekitCharacteristicNotify sketch s' ch value) := by
  have hcallback : (s'.database.characteristic ch).callback = (s.database.characteristic ch).callback := by
    rw [h.shape.characteristic ch]
  rw [homekitCharacteristicNotify, homekitCharacteristicNotify, hcallback]
  exact notifyLoop_twins h value _

theorem Twins.setValue (h : Twins s s') (ch : CharacteristicId) (value : HomekitValue) :
    Twins (s.setValue ch value) (s'.setValue ch value) := by
  refine { h with shape := ⟨h.shape.accessories, h.shape.accessory, h.shape.service, fun i => ?_⟩ }
  by_cases hi : i = ch
  · subst hi
    simp only [AccessoryState.setValue, setCharacteristic_self]
    rw [h.shape.characteristic i]
  · simp only [AccessoryState.setValue, setCharacteristic_of_ne hi]
    exact h.shape.characteristic i

theorem runUserCalls_twins (h : Twins s s') (calls : List UserCall) :
    Alike Twins (runUserCalls sketch calls s) (runUserCalls sketch calls s') := by
  induction calls generalizing s s' with
  | nil => exact h
  | cons call calls ih =>
    cases call with
    | assign i value => exact ih (h.setValue i value)
    | notify i value =>
      rw [runUserCalls, runUserCalls]
      have hnotify : Alike Twins (homekitCharacteristicNotify sketch s i value)
        (homekitCharacteristicNotify sketch s' i value) := homekitCharacteristicNotify_twins h value
      rcases hnotify.cases with ⟨e, hr, hr'⟩ | ⟨t, t', hr, hr', ht⟩
      · rw [hr, hr']
        exact rfl
      · rw [hr, hr']
        exact ih ht

/-- A getter that answers both alike. -/
theorem callGetter_twins (h : Twins s s') {g : Nat}
    (hg : sketch.getter g ch s'.database s'.user = sketch.getter g ch s.database s.user) :
    Alike (fun r r' => Twins r.1 r'.1 ∧ r'.2 = r.2) (callGetter sketch g ch s) (callGetter sketch g ch s') := by
  rw [callGetter, callGetter, hg]
  have htwins : Twins { s with user := (sketch.getter g ch s.database s.user).1 }
      { s' with user := (sketch.getter g ch s.database s.user).1 } := { h with user := rfl }
  rcases (runUserCalls_twins htwins (sketch.getter g ch s.database s.user).2.1).cases with
    ⟨e, hr, hr'⟩ | ⟨t, t', hr, hr', ht⟩
  · rw [hr, hr']
    exact rfl
  · rw [hr, hr']
    exact ⟨ht, rfl⟩

/-! What is printed. -/

theorem SameShape.headCalls {db db' : Database} (h : SameShape db db') (rt : Runtime) (client : ClientId)
    (ch : CharacteristicId) (format : Nat) :
    characteristicHeadCalls rt db' client ch format = characteristicHeadCalls rt db client ch format := by
  have hhas : db'.homekitCharacteristicHasNotifyCallback ch (clientCallback client) =
      db.homekitCharacteristicHasNotifyCallback ch (clientCallback client) := by
    rw [Database.homekitCharacteristicHasNotifyCallback, Database.homekitCharacteristicHasNotifyCallback,
      h.characteristic ch]
  rw [characteristicHeadCalls, characteristicHeadCalls, hhas, h.characteristic ch, h.accessory, h.service]
  rfl

/-- The stored value is what is printed. -/
def PrintsStored (x : Characteristic) : Prop := hasFlag x.permissions Permissions.pairedRead = true ∧ x.getterEx = none

theorem SameShape.valueCalls {db db' : Database} (h : SameShape db db') (rt : Runtime) (ch : CharacteristicId)
    (v : HomekitValue) :
    ArduinoHomeKit.valueCalls rt (db'.characteristic ch) v = ArduinoHomeKit.valueCalls rt (db.characteristic ch) v := by
  rw [h.characteristic ch]
  rfl

theorem writeCharacteristicJson_printed {client : ClientId} {format : Nat}
    (h : PrintsStored (s.database.characteristic ch)) :
    writeCharacteristicJson sketch rt client format ch none s =
      .ok (s, characteristicHeadCalls rt s.database client ch format ++
        valueCalls rt (s.database.characteristic ch) (s.database.characteristic ch).value) := by
  have hread : ¬ hasFlag (s.database.characteristic ch).permissions Permissions.pairedRead = false := by simp [h.1]
  unfold writeCharacteristicJson readValue
  rw [if_neg hread, h.2]
  rfl

theorem writeCharacteristicJson_twins (h : Twins s s') {client : ClientId} {format : Nat} (value : Option HomekitValue)
    (hg : ∀ g, sketch.getter g ch s'.database s'.user = sketch.getter g ch s.database s.user)
    (hv : PrintsStored (s.database.characteristic ch) →
      valueCalls rt (s.database.characteristic ch) (s'.database.characteristic ch).value =
        valueCalls rt (s.database.characteristic ch) (s.database.characteristic ch).value) :
    (writeCharacteristicJson sketch rt client format ch value s').map Prod.snd =
      (writeCharacteristicJson sketch rt client format ch value s).map Prod.snd := by
  have hpermissions : (s'.database.characteristic ch).permissions = (s.database.characteristic ch).permissions := by
    rw [h.shape.characteristic ch]
  have hgetterEx : (s'.database.characteristic ch).getterEx = (s.database.characteristic ch).getterEx := by
    rw [h.shape.characteristic ch]
  unfold writeCharacteristicJson
  rw [h.shape.headCalls, hpermissions]
  by_cases hread : hasFlag (s.database.characteristic ch).permissions Permissions.pairedRead = false
  · rw [if_pos hread, if_pos hread]
    rfl
  · rw [if_neg hread, if_neg hread]
    cases value with
    | some u =>
      show Except.ok (_ ++ valueCalls rt (s'.database.characteristic ch) u) =
        Except.ok (_ ++ valueCalls rt (s.database.characteristic ch) u)
      rw [h.shape.valueCalls]
    | none =>
      dsimp only
      rw [readValue, readValue, hgetterEx]
      cases hgetter : (s.database.characteristic ch).getterEx with
      | none =>
        show Except.ok (_ ++ valueCalls rt (s'.database.characteristic ch) _) =
          Except.ok (_ ++ valueCalls rt (s.database.characteristic ch) _)
        rw [h.shape.valueCalls, hv ⟨(Bool.not_eq_false _).mp hread, hgetter⟩]
      | some g =>
        rcases (callGetter_twins h (hg g)).cases with ⟨e, hr, hr'⟩ | ⟨r, r', hr, hr', ht, hvalue⟩
        · simp only [hr, hr']
        · simp only [hr, hr', hvalue]
          cases homekitValueDestruct r.2 with
          | error e => rfl
          | ok _ =>
            simp only [Except.map, hvalue]
            rw [ht.shape.valueCalls]

/-- The state in which ch is a given characteristic. -/
def AccessoryState.put (s : AccessoryState υ) (ch : CharacteristicId) (x : Characteristic) : AccessoryState υ :=
  { s with database := s.database.setCharacteristic ch x }

/-- What write_characteristic_json prints of x' is what it prints of x, wherever they are. A getter is a
function of the application; it answers both alike. -/
def SameOutput (x x' : Characteristic) : Prop :=
  ∀ (υ : Type) (sketch : Sketch υ) (rt : Runtime) (client : ClientId) (format : Nat) (ch : CharacteristicId)
    (value : Option HomekitValue) (s : AccessoryState υ),
    (∀ g, sketch.getter g ch (s.put ch x').database s.user = sketch.getter g ch (s.put ch x).database s.user) →
    (writeCharacteristicJson sketch rt client format ch value (s.put ch x')).map Prod.snd =
      (writeCharacteristicJson sketch rt client format ch value (s.put ch x)).map Prod.snd

theorem put_twins (s : AccessoryState υ) (ch : CharacteristicId) (x : Characteristic) (v : HomekitValue) :
    Twins (s.put ch x) (s.put ch { x with value := v }) := by
  refine ⟨⟨rfl, rfl, rfl, fun i => ?_⟩, rfl, rfl, rfl, rfl, rfl⟩
  by_cases hi : i = ch
  · subst hi
    simp only [AccessoryState.put, setCharacteristic_self]
  · simp only [AccessoryState.put, setCharacteristic_of_ne hi]

theorem sameOutput_iff (x : Characteristic) (v : HomekitValue) :
    SameOutput x { x with value := v } ↔ (PrintsStored x → ∀ rt, valueCalls rt x v = valueCalls rt x x.value) := by
  constructor
  · intro h hprinted rt
    have htwins := put_twins (benchState []) 0 x v
    have hx : ((benchState []).put 0 x).database.characteristic 0 = x := setCharacteristic_self _ _ _
    have hx' : ((benchState []).put 0 { x with value := v }).database.characteristic 0 = { x with value := v } :=
      setCharacteristic_self _ _ _
    have hout := h Unit benchSketch rt 0 0 0 none (benchState []) (fun _ => rfl)
    rw [writeCharacteristicJson_printed (by rw [hx']; exact hprinted), writeCharacteristicJson_printed (by rwa [hx]),
      htwins.shape.headCalls, hx, hx'] at hout
    exact List.append_cancel_left (Except.ok.inj hout)
  · intro hv υ sketch rt client format ch value s hg
    have hx : (s.put ch x).database.characteristic ch = x := setCharacteristic_self _ _ _
    have hx' : ((s.put ch { x with value := v }).database.characteristic ch).value = v :=
      congrArg Characteristic.value (setCharacteristic_self _ _ _)
    apply writeCharacteristicJson_twins (put_twins s ch x v) value hg
    rw [hx, hx']
    exact fun hprinted => hv hprinted rt

/-! What is printed of a copied value. -/

/-- A pointer that the copy follows is not NULL. -/
def Followed (v : HomekitValue) : Prop :=
  v.isNull = true ∨
    match v.format with
    | .string => v.isStatic = true ∨ v.union.stringValue ≠ .null
    | .tlv => v.isStatic = true ∨ v.union.tlvList ≠ .null
    | .data => v.isStatic = true ∨ v.union.dataSize = 0 ∨ v.union.dataValue ≠ .null
    | _ => True

section Values

variable {v u : HomekitValue} {x : Characteristic}

/-- What the copy does not keep is the upper half of a uint64. -/
theorem copyable_of_followed (h : Followed v) (hwide : v.isNull = false → v.format = .uint64 → v.union.low 64 < 2 ^ 32) :
    Copyable v := by
  rcases h with hnull | h
  · exact Or.inl hnull
  · cases hnull : v.isNull with
    | true => exact Or.inl hnull
    | false =>
      right
      cases hf : v.format <;> simp_all

theorem copy_of_followed (h : Followed v) : ∃ u, homekitValueCopy v = .ok u := by
  by_cases hwide : v.isNull = false ∧ v.format = .uint64
  · obtain ⟨hnull, hformat⟩ := hwide
    have hcopy : copyUnion v = .ok (.bits (v.union.low 32)) := by
      rw [copyUnion, hformat]
    exact ⟨_, copyUnion_ok hnull hcopy⟩
  · have hcopyable := copyable_of_followed h (fun hn hf => absurd ⟨hn, hf⟩ hwide)
    obtain ⟨u, hu, _⟩ := (copyRight_iff v).mpr hcopyable
    exact ⟨u, hu⟩

theorem followed_of_copy (h : homekitValueCopy v = .ok u) : Followed v := by
  cases hnull : v.isNull with
  | true => exact Or.inl hnull
  | false =>
    right
    have hok : ∀ e, copyUnion v ≠ .error e := by
      intro e he
      rw [copyUnion_error hnull he] at h
      cases h
    rw [copyUnion] at hok
    cases hformat : v.format with
    | string =>
      by_contra hne
      rw [not_or, not_not] at hne
      simp [hformat, hne, Pointer.deref, Except.map] at hok
    | tlv =>
      by_contra hne
      rw [not_or, not_not] at hne
      simp [hformat, hne, Pointer.deref, Except.map] at hok
    | data =>
      by_contra hne
      rw [not_or, not_or, not_not] at hne
      simp [hformat, hne, Pointer.deref, Except.map] at hok
    | _ => trivial

theorem copy_isNull (h : homekitValueCopy v = .ok u) : u.isNull = v.isNull ∧ u.format = v.format := by
  rw [homekitValueCopy] at h
  split at h
  · rename_i hnull
    obtain rfl := Except.ok.inj h
    exact ⟨hnull.symm, rfl⟩
  · rename_i hnull
    cases hunion : copyUnion v with
    | error e =>
      rw [hunion] at h
      cases h
    | ok union =>
      rw [hunion] at h
      obtain rfl := Except.ok.inj h
      exact ⟨by simpa using hnull, rfl⟩

theorem stringText_eq (v : HomekitValue) :
    stringText v = (v.union.stringValue.content.map CString.strdup).getD (ascii "(null)") := by
  rw [stringText]
  cases v.union.stringValue <;> rfl

theorem tlvText_eq (v : HomekitValue) :
    tlvText v = (v.union.tlvList.content.map (fun l => base64Encode ((tlvFormat l).take (tlvFormatSize l)))).getD [] := by
  rw [tlvText]
  cases v.union.tlvList <;> rfl

theorem dataText_eq (v : HomekitValue) :
    dataText v = ((if v.union.dataSize = 0 then some []
      else v.union.dataValue.content.map (List.take v.union.dataSize)).map base64Encode).getD [] := by
  rw [dataText]
  by_cases hsize : v.union.dataSize = 0
  · rw [if_pos hsize]
    cases v.union.dataValue with
    | null => rfl
    | block life d =>
      show base64Encode (d.take v.union.dataSize) = base64Encode []
      rw [hsize, List.take_zero]
  · rw [if_neg hsize]
    cases v.union.dataValue <;> rfl

/-- What a value says decides what is printed of it. -/
theorem scalarCall_of_content (rt : Runtime) (hf : u.format = v.format) (h : u.content = v.content) :
    scalarCall rt u = scalarCall rt v := by
  unfold HomekitValue.content at h
  unfold scalarCall
  rw [hf] at h ⊢
  cases hv : v.format with
  | string =>
    rw [hv] at h
    rw [stringText_eq, stringText_eq, Content.string.inj h]
  | tlv =>
    rw [hv] at h
    rw [tlvText_eq, tlvText_eq, Content.tlv.inj h]
  | data =>
    rw [hv] at h
    rw [dataText_eq, dataText_eq, Content.data.inj h]
  | _ =>
    simp only [hv, Content.bool.injEq, Content.uint8.injEq, Content.uint16.injEq, Content.uint32.injEq,
      Content.uint64.injEq, Content.int.injEq, Content.float.injEq] at h
    simp only [h]

theorem valueCalls_of_format {rt : Runtime} (hn : v.isNull = false) (hx : v.format = x.format) :
    valueCalls rt x v = [key "value", scalarCall rt v] := by
  rw [valueCalls, if_neg (by simp [hn]), if_neg (not_not.mpr hx)]

theorem decimal_injective {n k : Nat} (h : decimal n = decimal k) : n = k := by
  rw [← digitsValue_decimal n, h, digitsValue_decimal]

/-- The copy of a value prints the same, if it is printed at all. -/
theorem valueCalls_copy_iff (h : homekitValueCopy v = .ok u) :
    (∀ rt, valueCalls rt x u = valueCalls rt x v) ↔ (v.format = x.format → Copyable v) := by
  obtain ⟨hnull, hformat⟩ := copy_isNull h
  constructor
  · intro hsame hx
    apply copyable_of_followed (followed_of_copy h)
    intro hn hwide
    have hcopy : copyUnion v = .ok (.bits (v.union.low 32)) := by
      rw [copyUnion, hwide]
    obtain rfl := Except.ok.inj (h.symm.trans (copyUnion_ok hn hcopy))
    have hcall := hsame benchRuntime
    have hcopied : valueCalls benchRuntime x (v.withUnion (.bits (v.union.low 32))) = _ := valueCalls_of_format rfl hx
    rw [hcopied, valueCalls_of_format hn hx, List.cons.injEq, List.cons.injEq] at hcall
    have hscalar := hcall.2.1
    simp only [scalarCall, withUnion_format, hwide, jsonUint64_eq, JsonCall.number.injEq] at hscalar
    have hvalue := UInt64.toNat_inj.mp (decimal_injective hscalar)
    rw [HomekitValue.uint64Value, HomekitValue.uint64Value, uint64Value_eq_iff] at hvalue
    exact (low_bits_low_wide v.union).mp hvalue
  · intro hcopyable rt
    rw [valueCalls, valueCalls, hnull, hformat]
    split
    · rfl
    · rename_i hn
      split
      · rfl
      · rename_i hx
        have hsame := (copyRight_of_copy h).mp ((copyRight_iff v).mpr (hcopyable (not_not.mp hx)))
        rw [scalarCall_of_content rt hformat (hsame.content (by simpa using hn))]

end Values

/-! The clone. -/

section Clone

variable {x : Characteristic} {v : HomekitValue} {beyond : Nat → UInt8} {m m' : BlockMemory}

/-- Whatever lies around the block and behind the array of ranges: the clone comes about, reads as the original
up to the copied value, prints the same, and nothing outside the block has changed, the original included. -/
def CloneRight (x : Characteristic) : Prop :=
  ∀ (beyond : Nat → UInt8) (m : BlockMemory), ∃ m' v, homekitCharacteristicClone x beyond m = .ok m' ∧
    ReadsAs m' { x with value := v } ∧ SameOutput x { x with value := v } ∧ ∀ i, cloneSize x ≤ i → m' i = m i

/-- A characteristic that is cloned rightly. -/
structure Clonable (x : Characteristic) : Prop where
  described : x.description ≠ none
  ranges : x.validValuesRanges.length ≤ 1
  size : cloneTotal x < 2 ^ 32
  followed : Followed x.value
  printed : PrintsStored x → x.value.format = x.format → Copyable x.value

theorem struct_le_cloneTotal (x : Characteristic) : characteristicStruct ≤ cloneTotal x := by
  have halign := le_alignSize (characteristicStruct + (x.type.length + 1) + descriptionLength x.description)
  rw [cloneTotal]
  omega

theorem calloc_zeroed {size : Nat} (h : characteristicStruct ≤ size) : Zeroed (calloc m size) characteristicStruct :=
  fun _ hi => if_pos (Nat.lt_of_lt_of_le hi h)

theorem alignSize_two (n : Nat) : alignSize (2 * n) = 2 * n + 2 * (n % 2) := by
  rw [alignSize]
  split <;> omega

/-- Up to one range the cursor ends where the block ends. -/
theorem finish_of_ranges (h : x.validValuesRanges.length ≤ 1) :
    Packing.finish characteristicStruct (cloneParts x v beyond) = cloneTotal x := by
  have hfinish := finish_cloneParts x v beyond
  rw [alignSize_two] at hfinish
  omega

/-- Behind two ranges or more it is a word further at least. -/
theorem finish_of_more (h : 2 ≤ x.validValuesRanges.length) :
    cloneTotal x + 4 ≤ Packing.finish characteristicStruct (cloneParts x v beyond) := by
  have hfinish := finish_cloneParts x v beyond
  rw [alignSize_two] at hfinish
  omega

/-- Too many ranges, or a size that does not fit: something is stored behind the block. -/
theorem stored_outside (x : Characteristic) (v : HomekitValue) (beyond : Nat → UInt8)
    (h : ¬ (x.validValuesRanges.length ≤ 1 ∧ cloneTotal x < 2 ^ 32)) :
    ∃ st ∈ Packing.log characteristicStruct (cloneParts x v beyond), cloneSize x ≤ st.1 := by
  have hstruct := struct_le_cloneTotal x
  have hreach : _ ∨ ∃ st ∈ Packing.log characteristicStruct (cloneParts x v beyond), _ :=
    Packing.log_reaches cloneParts_sound (Nat.le_refl characteristicStruct)
  have hstruct' : characteristicStruct = 112 := rfl
  rw [cloneSize_eq]
  by_cases hranges : x.validValuesRanges.length ≤ 1
  · rw [finish_of_ranges hranges] at hreach
    have hlarge : 2 ^ 32 ≤ cloneTotal x := Nat.not_lt.mp (fun hlt => h ⟨hranges, hlt⟩)
    rcases hreach with hsame | ⟨st, hst, hle⟩
    · omega
    · exact ⟨st, hst, by omega⟩
  · have hmore : cloneTotal x + 4 ≤ Packing.finish characteristicStruct (cloneParts x v beyond) :=
      finish_of_more (by omega)
    have hmod := Nat.mod_le (cloneTotal x) (2 ^ 32)
    rcases hreach with hsame | ⟨st, hst, hle⟩
    · omega
    · exact ⟨st, hst, by omega⟩

/-- Without a description the clone has one all the same. -/
theorem undescribed_pointer (v : HomekitValue) (beyond : Nat → UInt8) (hnone : x.description = none)
    (hm : Zeroed m characteristicStruct) :
    ∃ p, HoldsAt (StoreLog.apply m (Packing.log characteristicStruct (cloneParts x v beyond)))
      CharacteristicField.description 4 (.pointer p) := by
  have hq : (cloneParts x v beyond)[2]? = some (descriptionPart none) := by
    rw [← hnone]
    rfl
  -- the other parts are those of a characteristic with a description
  have hown : ∀ q ∈ (cloneParts x v beyond).take 2 ++ (cloneParts x v beyond).drop 3, q.Own characteristicStruct := by
    have hdescribed : ∀ q ∈ cloneParts { x with description := some [] } v beyond, q.Own characteristicStruct :=
      cloneParts_own rfl
    intro q hq
    rcases List.mem_append.mp hq with hq | hq
    · exact hdescribed q (List.mem_of_mem_take (i := 2) hq)
    · exact hdescribed q (List.mem_of_mem_drop (i := 3) hq)
  refine ⟨Packing.finish characteristicStruct ((cloneParts x v beyond).take 2), ?_⟩
  have hp : characteristicStruct ≤ Packing.finish characteristicStruct ((cloneParts x v beyond).take 2) :=
    Packing.le_finish (fun q hq => cloneParts_sound q (List.mem_of_mem_take hq)) _
  apply Packing.field_kept cloneParts_sound hown cloneParts_fields hq (.head _) (by decide)
    (hm.lies (show 12 + 4 ≤ characteristicStruct by decide)) rfl rfl
  intro m' _
  generalize Packing.finish characteristicStruct ((cloneParts x v beyond).take 2) = p at hp ⊢
  have hp : 112 ≤ p := hp
  have hterminator : StoreLog.Within (p - 1) p (terminator p 0) := by
    intro st hst
    obtain rfl := List.mem_singleton.mp hst
    show p - 1 ≤ p - 1 ∧ p - 1 < p
    omega
  show Lies (StoreLog.apply m' (store 12 4 (.pointer p) ++ [] ++ terminator p 0)) 12 (whole 4 (.pointer p))
  rw [List.append_nil, apply_append]
  exact (holds_store m' 12 4 (.pointer p)).apart hterminator (Or.inr (by omega))

theorem homekitCharacteristicClone_ok (h : homekitCharacteristicClone x beyond m = .ok m') :
    ∃ v, homekitValueCopy x.value = .ok v ∧
      m' = StoreLog.apply (calloc m (cloneSize x)) (Packing.log characteristicStruct (cloneParts x v beyond)) := by
  rw [homekitCharacteristicClone] at h
  cases hcopy : homekitValueCopy x.value with
  | error e =>
    rw [hcopy] at h
    cases h
  | ok v =>
    rw [hcopy] at h
    exact ⟨v, rfl, (Except.ok.inj h).symm⟩

/-- A store behind the block changes some memory there. -/
theorem CloneRight.inside (h : CloneRight x) : x.validValuesRanges.length ≤ 1 ∧ cloneTotal x < 2 ^ 32 := by
  by_contra hno
  obtain ⟨_, _, hclone, _⟩ := h (fun _ => 0) (fun _ => .byte 0)
  obtain ⟨v, hv, _⟩ := homekitCharacteristicClone_ok hclone
  obtain ⟨st, hst, hout⟩ := stored_outside x v (fun _ => 0) hno
  let found := StoreLog.apply (fun _ => .byte 0) (Packing.log characteristicStruct (cloneParts x v (fun _ => 0))) st.1
  obtain ⟨c, hc⟩ : ∃ c : MemoryCell, c ≠ found := by
    by_cases hzero : found = .byte 0
    · exact ⟨.byte 1, by rw [hzero]; decide⟩
    · exact ⟨.byte 0, fun he => hzero he.symm⟩
  obtain ⟨m', _, hclone', _, _, hkept⟩ := h (fun _ => 0) (fun _ => c)
  obtain ⟨u, hu, rfl⟩ := homekitCharacteristicClone_ok hclone'
  obtain rfl := Except.ok.inj (hv.symm.trans hu)
  apply hc
  rw [← hkept st.1 hout]
  exact StoreLog.apply_stored ⟨st, hst, rfl⟩ _ _

theorem zeroed_of_size (h : cloneTotal x < 2 ^ 32) (m : BlockMemory) :
    Zeroed (calloc m (cloneSize x)) characteristicStruct := by
  apply calloc_zeroed
  rw [cloneSize_eq, Nat.mod_eq_of_lt h]
  exact struct_le_cloneTotal x

theorem CloneRight.described (h : CloneRight x) : x.description ≠ none := by
  intro hnone
  obtain ⟨m', w, hclone, hreads, _⟩ := h (fun _ => 0) (fun _ => .byte 0)
  obtain ⟨v, _, rfl⟩ := homekitCharacteristicClone_ok hclone
  obtain ⟨p, hpointer⟩ := undescribed_pointer v (fun _ => 0) hnone (zeroed_of_size h.inside.2 (fun _ => .byte 0))
  have hdescription : MayPointTo _ _ (x.description.map textCells) := hreads.description
  rw [hnone] at hdescription
  exact hpointer.not_unset hdescription

/-- The clone is right exactly for a characteristic with a description and with one range at most, of a size that
can be had, if the value can be copied and, where it is printed, prints the same. -/
theorem cloneRight_iff (x : Characteristic) : CloneRight x ↔ Clonable x := by
  constructor
  · intro h
    obtain ⟨hranges, hsize⟩ := h.inside
    obtain ⟨m', w, hclone, hreads, hout, _⟩ := h (fun _ => 0) (fun _ => .byte 0)
    obtain ⟨v, hv, rfl⟩ := homekitCharacteristicClone_ok hclone
    refine ⟨h.described, hranges, hsize, followed_of_copy hv, fun hprinted => ?_⟩
    have hw : w = v := by
      obtain ⟨d, hd⟩ := Option.ne_none_iff_exists'.mp h.described
      have hcopied := (clone_readsAs v (fun _ => 0) hd (zeroed_of_size hsize (fun _ => .byte 0))).value.first (by decide)
      have hvalue := (hreads.value.first (by decide)).symm.trans hcopied
      exact Datum.value.inj (MemoryCell.part.inj hvalue).1
    subst hw
    rw [← valueCalls_copy_iff hv]
    exact (sameOutput_iff x w).mp hout hprinted
  · intro h beyond m
    obtain ⟨v, hv⟩ := copy_of_followed h.followed
    obtain ⟨d, hd⟩ := Option.ne_none_iff_exists'.mp h.described
    have hsize : cloneSize x = cloneTotal x := by rw [cloneSize_eq, Nat.mod_eq_of_lt h.size]
    refine ⟨_, v, congrArg (Except.map _) hv, clone_readsAs v beyond hd (zeroed_of_size h.size m), ?_, ?_⟩
    · rw [sameOutput_iff]
      intro hprinted
      rw [valueCalls_copy_iff hv]
      exact h.printed hprinted
    · intro i hi
      show StoreLog.apply (calloc m (cloneSize x)) (Packing.log characteristicStruct (cloneParts x v beyond)) i = m i
      have hbelow : ∀ st ∈ Packing.log characteristicStruct (cloneParts x v beyond), st.1 < cloneSize x := by
        rw [hsize, ← finish_of_ranges h.ranges]
        exact Packing.log_below cloneParts_sound (Nat.le_refl _)
      rw [StoreLog.apply_outside (fun st hst => Nat.ne_of_lt (Nat.lt_of_lt_of_le (hbelow st hst) hi))]
      exact if_neg (Nat.not_lt.mpr hi)

/-- A characteristic without a description, of type 25 and with the value true. -/
def undescribed : Characteristic := benchCharacteristic 9 (benchScalar .bool 1)

/-- The description of its clone is at offset 115, where the empty string is. -/
theorem undescribed_cloned :
    undescribed.description = none ∧
      (∃ m', homekitCharacteristicClone undescribed (fun _ => 0) (fun _ => .byte 1) = .ok m' ∧
        m' CharacteristicField.description = .part (.pointer 115) 0 ∧ m' 115 = .byte 0) ∧
      ¬ CloneRight undescribed :=
  ⟨rfl, ⟨_, rfl, rfl, rfl⟩, fun h => h.described rfl⟩

end Clone

end ArduinoHomeKit
