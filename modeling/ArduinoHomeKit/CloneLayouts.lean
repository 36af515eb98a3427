import ArduinoHomeKit.AccessoryBench
import ArduinoHomeKit.Clones

/-! Where the clone functions store, and what they read. The sizes in front of the allocation and the moves
of the cursor behind it are two computations, which differ for the ranges of valid values. -/

namespace ArduinoHomeKit

open StoreLog (within_append within_copy Within)

@[simp] theorem length_whole (size : Nat) (d : Datum) : (whole size d).length = size := by simp [whole]

@[simp] theorem length_textCells (text : Bytes) : (textCells text).length = text.length + 1 := by simp [textCells]

theorem within_store (offset size : Nat) (d : Datum) : Within offset (offset + size) (store offset size d) := by
  have h := within_copy offset (whole size d)
  rwa [length_whole] at h

theorem within_text (p : Nat) (text : Bytes) : Within p (p + (text.length + 1)) (StoreLog.copy p (textCells text)) := by
  have h := within_copy p (textCells text)
  rwa [length_textCells] at h

theorem within_terminator (p n : Nat) : Within p (p + (n + 1)) (terminator p (n + 1)) := by
  intro s hs
  obtain rfl := List.mem_singleton.mp hs
  show p ≤ p + n ∧ p + n < p + (n + 1)
  omega

theorem le_alignSize (n : Nat) : n ≤ alignSize n := by
  rw [alignSize]
  split <;> omega

theorem alignSize_le (n : Nat) : alignSize n ≤ n + 3 := by
  rw [alignSize]
  split <;> omega

theorem alignPointer_eq (p : Nat) : alignPointer p = alignSize p := rfl

theorem stays_store {fields : List (Nat × Nat)} {lo hi offset size : Nat} (h : (offset, size) ∈ fields) (d : Datum) :
    Packing.Stays fields lo hi (store offset size d) := .field h (within_store offset size d)

/-- A part that only sets fields. -/
theorem sound_of_fields {struct : Nat} {q : ClonePart} (h : q.Own struct) (hlength : q.length = 0)
    (hnext : ∀ p, q.next p = p) : q.Sound struct := by
  apply h.sound
  · intro p
    rw [hlength, hnext, Nat.add_zero]
  · intro p
    rw [hnext]
    omega
  · exact fun _ => hnext
  · intro hpos
    omega

section CharacteristicParts

variable {x : Characteristic} {value : HomekitValue} {beyond : Nat → UInt8}

theorem identityPart_own : (identityPart x).Own characteristicStruct where
  fields := by
    show ∀ f ∈ [(0, 4), (4, 4)], f.1 + f.2 ≤ 112
    decide
  stores p _ := Packing.stays_append.mpr ⟨stays_store (.head _) _, stays_store (.tail _ (.head _)) _⟩

theorem typePart_own (type : Bytes) : (typePart type).Own characteristicStruct where
  fields := by
    show ∀ f ∈ [(8, 4)], f.1 + f.2 ≤ 112
    decide
  stores p _ := by
    apply Packing.stays_append.mpr
    constructor
    · exact Packing.stays_append.mpr ⟨stays_store (.head _) _, .data (within_text p type)⟩
    · exact .data (within_terminator p type.length)

theorem typePart_sound (type : Bytes) : (typePart type).Sound characteristicStruct := by
  apply (typePart_own type).sound
  · exact fun p => Nat.le_refl _
  · exact fun p => Nat.le_add_right _ 3
  · exact fun h => absurd h (Nat.succ_ne_zero _)
  · intro _ p
    refine ⟨_, List.mem_append_right _ (List.mem_singleton_self _), ?_⟩
    show p + type.length + 1 = p + (type.length + 1)
    omega

theorem descriptionPart_own (d : Bytes) : (descriptionPart (some d)).Own characteristicStruct where
  fields := by
    show ∀ f ∈ [(12, 4)], f.1 + f.2 ≤ 112
    decide
  stores p _ := by
    apply Packing.stays_append.mpr
    constructor
    · exact Packing.stays_append.mpr ⟨stays_store (.head _) _, .data (within_text p d)⟩
    · exact .data (within_terminator p d.length)

/-- Without a description the terminator goes in front of the cursor, and alignment may need that byte. -/
theorem descriptionPart_sound (description : Option Bytes) :
    (descriptionPart description).Sound characteristicStruct := by
  refine ⟨fun p => le_alignSize _, fun p hp s hs => ?_, fun p hp => ?_⟩
  · have hnext := le_alignSize (p + descriptionLength description)
    show s.1 < alignSize (p + descriptionLength description)
    have hp : 112 ≤ p := hp
    cases description with
    | none =>
      have hlength : descriptionLength none = 0 := rfl
      rcases List.mem_append.mp hs with hs | hs
      · rcases List.mem_append.mp hs with hs | hs
        · have hfield : 12 ≤ s.1 ∧ s.1 < 12 + 4 := within_store _ _ _ s hs
          omega
        · exact absurd hs List.not_mem_nil
      · obtain rfl := List.mem_singleton.mp hs
        show p - 1 < _
        omega
    | some d =>
      have hlength : descriptionLength (some d) = d.length + 1 := rfl
      have hfields := (descriptionPart_own d).fields
      rcases (descriptionPart_own d).stores p hp s hs with ⟨f, hf, _, hhi⟩ | ⟨_, hhi⟩
      · have hfield : f.1 + f.2 ≤ 112 := hfields f hf
        omega
      · have hhi : s.1 < p + (d.length + 1) := hhi
        omega
  · have hpad := alignSize_le (p + descriptionLength description)
    have hp : 112 ≤ p := hp
    refine Or.inr ⟨_, List.mem_append_right _ (List.mem_singleton_self _), ?_⟩
    show alignSize (p + descriptionLength description) ≤ _
    cases description with
    | none =>
      have hlength : descriptionLength none = 0 := rfl
      show _ ≤ p - 1 + 4
      omega
    | some d =>
      have hlength : descriptionLength (some d) = d.length + 1 := rfl
      show _ ≤ p + d.length + 4
      omega

theorem scalarsPart_own : (scalarsPart x value).Own characteristicStruct where
  fields := by
    show ∀ f ∈ [(16, 4), (20, 4), (24, 4), (32, 16)], f.1 + f.2 ≤ 112
    decide
  stores p _ := by
    simp only [scalarsPart, Packing.stays_append]
    exact ⟨⟨⟨stays_store (.head _) _, stays_store (.tail _ (.head _)) _⟩, stays_store (.tail _ (.tail _ (.head _))) _⟩,
      stays_store (.tail _ (.tail _ (.tail _ (.head _)))) _⟩

theorem limitPart_own {field : Nat} (hf : field + 4 ≤ characteristicStruct) (limit : Option Datum) :
    (limitPart field limit).Own characteristicStruct where
  fields := by
    intro f hm
    obtain rfl := List.mem_singleton.mp hm
    exact hf
  stores p _ := by
    cases limit with
    | none => exact fun s hs => absurd hs List.not_mem_nil
    | some d => exact Packing.stays_append.mpr ⟨stays_store (.head _) _, .data (within_store p 4 d)⟩

theorem limitPart_sound {field : Nat} (hf : field + 4 ≤ characteristicStruct) (limit : Option Datum) :
    (limitPart field limit).Sound characteristicStruct := by
  apply (limitPart_own hf limit).sound
  · exact fun p => Nat.le_refl _
  · exact fun p => Nat.le_add_right _ 3
  · intro h p
    show p + limitLength limit = p
    rw [show limitLength limit = 0 from h, Nat.add_zero]
  · intro hpos p
    cases limit with
    | none => exact absurd hpos (Nat.lt_irrefl 0)
    | some d =>
      obtain ⟨s, hs, hlast⟩ := StoreLog.copy_last p (whole 4 d) (by simp)
      refine ⟨s, List.mem_append_right _ hs, ?_⟩
      rwa [length_whole] at hlast

theorem validValuesPart_own (values : List UInt8) : (validValuesPart values).Own characteristicStruct where
  fields := by
    show ∀ f ∈ [(68, 4), (72, 4)], f.1 + f.2 ≤ 112
    decide
  stores p _ := by
    show Packing.Stays _ _ _ (if values = [] then [] else _)
    split
    · exact fun s hs => absurd hs List.not_mem_nil
    · have hdata := within_copy p (values.map MemoryCell.byte)
      rw [List.length_map] at hdata
      apply Packing.stays_append.mpr
      exact ⟨Packing.stays_append.mpr ⟨stays_store (.head _) _, stays_store (.tail _ (.head _)) _⟩, .data hdata⟩

theorem validValuesPart_sound (values : List UInt8) : (validValuesPart values).Sound characteristicStruct := by
  apply (validValuesPart_own values).sound
  · exact fun p => Nat.add_le_add_left (le_alignSize _) p
  · exact fun p => Nat.add_le_add_left (alignSize_le _) p
  · intro h p
    show p + alignSize values.length = p
    rw [show values.length = 0 from h]
    rfl
  · intro hpos p
    have hne : values ≠ [] := List.ne_nil_of_length_pos hpos
    obtain ⟨s, hs, hlast⟩ := StoreLog.copy_last p (values.map MemoryCell.byte)
      (by rw [List.length_map]; exact hpos)
    rw [List.length_map] at hlast
    refine ⟨s, ?_, hlast⟩
    show s ∈ if values = [] then [] else _
    rw [if_neg hne]
    exact List.mem_append_right _ hs

theorem length_rangeBytes (ranges : List (UInt8 × UInt8)) : (rangeBytes ranges).length = 2 * ranges.length := by
  induction ranges with
  | nil => rfl
  | cons r ranges ih =>
    rw [rangeBytes, List.flatMap_cons, List.length_append]
    show 2 + (rangeBytes ranges).length = 2 * (ranges.length + 1)
    omega

theorem length_rangeCells (ranges : List (UInt8 × UInt8)) : (rangeCells ranges beyond).length = 4 * ranges.length := by
  rw [rangeCells, List.length_map, List.length_append, length_rangeBytes, List.length_map, List.length_range]
  omega

theorem validValuesRangesPart_own (ranges : List (UInt8 × UInt8)) :
    (validValuesRangesPart ranges beyond).Own characteristicStruct where
  fields := by
    show ∀ f ∈ [(76, 4), (80, 4)], f.1 + f.2 ≤ 112
    decide
  stores p _ := by
    show Packing.Stays _ _ _ (if ranges = [] then [] else _)
    split
    · exact fun s hs => absurd hs List.not_mem_nil
    · have hdata := within_copy p (rangeCells ranges beyond)
      rw [length_rangeCells] at hdata
      apply Packing.stays_append.mpr
      exact ⟨Packing.stays_append.mpr ⟨stays_store (.head _) _, stays_store (.tail _ (.head _)) _⟩, .data hdata⟩

theorem validValuesRangesPart_sound (ranges : List (UInt8 × UInt8)) :
    (validValuesRangesPart ranges beyond).Sound characteristicStruct := by
  apply (validValuesRangesPart_own ranges).sound
  · exact fun p => Nat.add_le_add_left (le_alignSize _) p
  · exact fun p => Nat.add_le_add_left (alignSize_le _) p
  · intro h p
    show p + alignSize (4 * ranges.length) = p
    rw [show 4 * ranges.length = 0 from h]
    rfl
  · intro hpos p
    have hpos : 0 < 4 * ranges.length := hpos
    have hne : ranges ≠ [] := List.ne_nil_of_length_pos (by omega)
    obtain ⟨s, hs, hlast⟩ := StoreLog.copy_last p (rangeCells ranges beyond)
      (by rw [length_rangeCells]; exact hpos)
    rw [length_rangeCells] at hlast
    refine ⟨s, ?_, hlast⟩
    show s ∈ if ranges = [] then [] else _
    rw [if_neg hne]
    exact List.mem_append_right _ hs

@[simp] theorem length_callbackCells (cb : Callback) (next : Datum) : (callbackCells cb next).length = 12 :=
    by simp [callbackCells]

/-- One turn of the loop stays in the copy of its callback. -/
theorem within_callback (p : Nat) (cb : Callback) (link : Datum) :
    Within p (p + 12) (StoreLog.copy p (callbackCells cb .sourceNext) ++ store (p + 8) 4 link) := by
  apply within_append.mpr
  constructor
  · have h := within_copy p (callbackCells cb .sourceNext)
    rwa [length_callbackCells] at h
  · exact (within_store (p + 8) 4 link).mono (by omega) (by omega)

theorem within_callbackStores (p : Nat) (cb : Callback) (cbs : List Callback) :
    Within p (p + 12 * (cbs.length + 1)) (callbackStores p cb cbs) := by
  induction cbs generalizing p cb with
  | nil => exact within_callback p cb .null
  | cons cb' cbs ih =>
    apply within_append.mpr
    constructor
    · exact (within_callback p cb _).mono (Nat.le_refl p) (by rw [List.length_cons]; omega)
    · exact (ih (p + 12) cb').mono (Nat.le_add_right p 12) (by rw [List.length_cons]; omega)

theorem callbackStores_last (p : Nat) (cb : Callback) (cbs : List Callback) :
    ∃ s ∈ callbackStores p cb cbs, s.1 + 1 = p + 12 * (cbs.length + 1) := by
  induction cbs generalizing p cb with
  | nil =>
    obtain ⟨s, hs, hlast⟩ := StoreLog.copy_last (p + 8) (whole 4 .null) (by simp)
    rw [length_whole] at hlast
    exact ⟨s, List.mem_append_right _ hs, hlast⟩
  | cons cb' cbs ih =>
    obtain ⟨s, hs, hlast⟩ := ih (p + 12) cb'
    refine ⟨s, List.mem_append_right _ hs, ?_⟩
    rw [hlast, List.length_cons]
    omega

theorem callbackPart_own (cbs : List Callback) : (callbackPart cbs).Own characteristicStruct where
  fields := by
    show ∀ f ∈ [(92, 4)], f.1 + f.2 ≤ 112
    decide
  stores p _ := by
    cases cbs with
    | nil => exact fun s hs => absurd hs List.not_mem_nil
    | cons cb cbs =>
      exact Packing.stays_append.mpr ⟨stays_store (.head _) _, .data (within_callbackStores p cb cbs)⟩

theorem callbackPart_sound (cbs : List Callback) : (callbackPart cbs).Sound characteristicStruct := by
  apply (callbackPart_own cbs).sound
  · exact fun p => Nat.le_refl _
  · exact fun p => Nat.le_add_right _ 3
  · intro h p
    exact congrArg (p + ·) h
  · intro hpos p
    cases cbs with
    | nil => exact absurd hpos (Nat.lt_irrefl 0)
    | cons cb cbs =>
      obtain ⟨s, hs, hlast⟩ := callbackStores_last p cb cbs
      exact ⟨s, List.mem_append_right _ hs, hlast⟩

theorem functionsPart_own : (functionsPart x).Own characteristicStruct where
  fields := by
    show ∀ f ∈ [(84, 4), (88, 4), (96, 4), (100, 4), (104, 4)], f.1 + f.2 ≤ 112
    decide
  stores p _ := by
    simp only [functionsPart, Packing.stays_append]
    exact ⟨⟨⟨⟨stays_store (.head _) _, stays_store (.tail _ (.head _)) _⟩, stays_store (.tail _ (.tail _ (.head _))) _⟩,
      stays_store (.tail _ (.tail _ (.tail _ (.head _)))) _⟩,
      stays_store (.tail _ (.tail _ (.tail _ (.tail _ (.head _))))) _⟩

theorem cloneParts_sound : ∀ q ∈ cloneParts x value beyond, q.Sound characteristicStruct := by
  simp only [cloneParts, List.forall_mem_cons]
  refine ⟨sound_of_fields identityPart_own rfl (fun _ => rfl), typePart_sound _, descriptionPart_sound _,
    sound_of_fields scalarsPart_own rfl (fun _ => rfl), limitPart_sound (by decide) _, limitPart_sound (by decide) _,
    limitPart_sound (by decide) _, limitPart_sound (by decide) _, limitPart_sound (by decide) _,
    validValuesPart_sound _, validValuesRangesPart_sound _, callbackPart_sound _,
    sound_of_fields functionsPart_own rfl (fun _ => rfl), fun q hq => absurd hq List.not_mem_nil⟩

/-- What the parts take: the struct and the texts, the limits, the values, the ranges and the callbacks. -/
def cloneTotal (x : Characteristic) : Nat :=
  alignSize (characteristicStruct + (x.type.length + 1) + descriptionLength x.description) +
    (limitLength (x.minValue.map .float) + limitLength (x.maxValue.map .float) + limitLength (x.minStep.map .float) +
      limitLength (x.maxLen.map .int) + limitLength (x.maxDataLen.map .int)) +
    alignSize x.validValues.length + alignSize (2 * x.validValuesRanges.length) + 12 * x.callback.length

theorem sizeSum_eq (sizes : List Nat) : sizeSum sizes = sizes.sum % 2 ^ 32 := by
  have h : ∀ (l : List Nat) (n : Nat), l.foldl (fun size n => (size + n) % 2 ^ 32) (n % 2 ^ 32) = (n + l.sum) % 2 ^ 32 := by
    intro l
    induction l with
    | nil => exact fun n => rfl
    | cons a l ih =>
      intro n
      rw [List.foldl_cons, Nat.mod_add_mod, ih, List.sum_cons, Nat.add_assoc]
  have h0 := h sizes 0
  rwa [Nat.zero_add] at h0

theorem cloneSize_eq (x : Characteristic) : cloneSize x = cloneTotal x % 2 ^ 32 := by
  have hcallbacks : (x.callback.map (fun _ => alignSize 12)).sum = 12 * x.callback.length := by
    rw [List.map_const', List.sum_replicate_nat, Nat.mul_comm]
    rfl
  rw [cloneSize, sizeSum_eq, List.sum_append, hcallbacks]
  congr 1
  simp only [List.sum_cons, List.sum_nil, cloneTotal]
  omega

/-- The cursor ends behind four bytes for every range. -/
theorem finish_cloneParts (x : Characteristic) (value : HomekitValue) (beyond : Nat → UInt8) :
    Packing.finish characteristicStruct (cloneParts x value beyond) + alignSize (2 * x.validValuesRanges.length) =
      cloneTotal x + 4 * x.validValuesRanges.length := by
  have hranges : alignSize (4 * x.validValuesRanges.length) = 4 * x.validValuesRanges.length := by
    rw [alignSize, if_neg (by omega)]
  simp only [cloneParts, Packing.finish, identityPart, typePart, descriptionPart, scalarsPart, limitPart, validValuesPart,
    validValuesRangesPart, callbackPart, functionsPart, id, hranges, alignPointer_eq, cloneTotal]
  show _ + 12 * x.callback.length + _ = _
  omega

end CharacteristicParts

section PointerParts

variable {struct : Nat}

theorem length_pointerCells (l : List Nat) :
    (l.flatMap (fun i => whole 4 (.reference i)) ++ whole 4 .null).length = 4 * (l.length + 1) := by
  induction l with
  | nil => rfl
  | cons i l ih =>
    rw [List.flatMap_cons, List.append_assoc, List.length_append, ih, length_whole, List.length_cons]
    omega

theorem pointersPart_own {field : Nat} (hf : field + 4 ≤ struct) (pointers : Option (List Nat)) :
    (pointersPart field pointers).Own struct where
  fields := by
    intro f hm
    obtain rfl := List.mem_singleton.mp hm
    exact hf
  stores p _ := by
    cases pointers with
    | none => exact fun s hs => absurd hs List.not_mem_nil
    | some l =>
      have hdata := within_copy p (l.flatMap (fun i => whole 4 (.reference i)) ++ whole 4 .null)
      rw [length_pointerCells] at hdata
      exact Packing.stays_append.mpr ⟨stays_store (.head _) _, .data hdata⟩

theorem pointersPart_sound {field : Nat} (hf : field + 4 ≤ struct) (pointers : Option (List Nat)) :
    (pointersPart field pointers).Sound struct := by
  apply (pointersPart_own hf pointers).sound
  · exact fun p => Nat.le_refl _
  · exact fun p => Nat.le_add_right _ 3
  · intro h p
    show p + pointersLength pointers = p
    rw [show pointersLength pointers = 0 from h, Nat.add_zero]
  · intro hpos p
    cases pointers with
    | none => exact absurd hpos (Nat.lt_irrefl 0)
    | some l =>
      obtain ⟨s, hs, hlast⟩ := StoreLog.copy_last p (l.flatMap (fun i => whole 4 (.reference i)) ++ whole 4 .null)
        (by rw [length_pointerCells]; omega)
      rw [length_pointerCells] at hlast
      exact ⟨s, List.mem_append_right _ hs, hlast⟩

theorem serviceIdentityPart_own (x : Service) : (serviceIdentityPart x).Own serviceStruct where
  fields := by
    show ∀ f ∈ [(0, 4), (4, 4)], f.1 + f.2 ≤ 24
    decide
  stores p _ := Packing.stays_append.mpr ⟨stays_store (.head _) _, stays_store (.tail _ (.head _)) _⟩

theorem serviceTypePart_own (type : Bytes) : (serviceTypePart type).Own serviceStruct where
  fields := by
    show ∀ f ∈ [(8, 4)], f.1 + f.2 ≤ 24
    decide
  stores p _ := by
    apply Packing.stays_append.mpr
    constructor
    · exact Packing.stays_append.mpr ⟨.data (within_text p type), stays_store (.head _) _⟩
    · exact .data (within_terminator p type.length)

theorem serviceTypePart_sound (type : Bytes) : (serviceTypePart type).Sound serviceStruct := by
  apply (serviceTypePart_own type).sound
  · exact fun p => Nat.add_le_add_left (le_alignSize _) p
  · exact fun p => Nat.add_le_add_left (alignSize_le _) p
  · exact fun h => absurd h (Nat.succ_ne_zero _)
  · intro _ p
    refine ⟨_, List.mem_append_right _ (List.mem_singleton_self _), ?_⟩
    show p + type.length + 1 = p + (type.length + 1)
    omega

theorem serviceFlagsPart_own (x : Service) : (serviceFlagsPart x).Own serviceStruct where
  fields := by
    show ∀ f ∈ [(12, 1), (13, 1)], f.1 + f.2 ≤ 24
    decide
  stores p _ := Packing.stays_append.mpr ⟨stays_store (.head _) _, stays_store (.tail _ (.head _)) _⟩

theorem accessoryFieldsPart_own (x : Accessory) (configNumber : UInt16) :
    (accessoryFieldsPart x configNumber).Own accessoryStruct where
  fields := by
    show ∀ f ∈ [(0, 4), (4, 4), (8, 2)], f.1 + f.2 ≤ 16
    decide
  stores p _ := by
    simp only [accessoryFieldsPart, Packing.stays_append]
    exact ⟨⟨stays_store (.head _) _, stays_store (.tail _ (.head _)) _⟩, stays_store (.tail _ (.tail _ (.head _))) _⟩

end PointerParts

section Safety

variable {x : Characteristic} {value : HomekitValue} {beyond : Nat → UInt8}

/-- The bytes of a service with its copy of both lists. -/
def serviceCloneTotal (x : Service) (characteristics : Option (List CharacteristicId)) : Nat :=
  alignSize (serviceStruct + (x.type.length + 1)) + pointersLength x.linked + pointersLength characteristics

def accessoryCloneTotal (services : Option (List ServiceId)) : Nat := accessoryStruct + pointersLength services

theorem serviceClone_safe_iff (x : Service) (characteristics : Option (List CharacteristicId)) :
    Packing.Safe (serviceCloneSize x characteristics) serviceStruct (serviceCloneParts x characteristics) ↔
      serviceCloneTotal x characteristics < 2 ^ 32 := by
  have hsound : ∀ q ∈ serviceCloneParts x characteristics, q.Sound serviceStruct := by
    simp only [serviceCloneParts, List.forall_mem_cons]
    exact ⟨sound_of_fields (serviceIdentityPart_own x) rfl (fun _ => rfl), serviceTypePart_sound _,
      sound_of_fields (serviceFlagsPart_own x) rfl (fun _ => rfl), pointersPart_sound (by decide) _,
      pointersPart_sound (by decide) _, fun q hq => absurd hq List.not_mem_nil⟩
  have hfinish : Packing.finish serviceStruct (serviceCloneParts x characteristics) =
      serviceCloneTotal x characteristics := by
    have halign : alignSize (serviceStruct + (x.type.length + 1)) = serviceStruct + alignSize (x.type.length + 1) := by
      have hmod : (serviceStruct + (x.type.length + 1)) % 4 = (x.type.length + 1) % 4 := Nat.mul_add_mod 4 6 _
      rw [alignSize, alignSize, hmod]
      split <;> omega
    rw [serviceCloneTotal, halign]
    rfl
  have hsize : serviceCloneSize x characteristics = serviceCloneTotal x characteristics % 2 ^ 32 := by
    rw [serviceCloneSize, sizeSum_eq]
    congr 1
    simp only [List.sum_cons, List.sum_nil, serviceCloneTotal]
    omega
  rw [hsize, ← hfinish]
  apply Packing.safe_iff (by decide) (by decide) hsound
  simp only [serviceCloneParts, List.forall_mem_cons]
  simp [serviceIdentityPart, serviceTypePart, serviceFlagsPart, pointersPart]

theorem accessoryClone_safe_iff (x : Accessory) (configNumber : UInt16) (services : Option (List ServiceId)) :
    Packing.Safe (accessoryCloneSize services) accessoryStruct (accessoryCloneParts x configNumber services) ↔
      accessoryCloneTotal services < 2 ^ 32 := by
  have hsound : ∀ q ∈ accessoryCloneParts x configNumber services, q.Sound accessoryStruct := by
    simp only [accessoryCloneParts, List.forall_mem_cons]
    exact ⟨sound_of_fields (accessoryFieldsPart_own x configNumber) rfl (fun _ => rfl),
      pointersPart_sound (by decide) _, fun q hq => absurd hq List.not_mem_nil⟩
  have hsize : accessoryCloneSize services = accessoryCloneTotal services % 2 ^ 32 := by
    rw [accessoryCloneSize, sizeSum_eq]
    rfl
  rw [hsize]
  apply Packing.safe_iff (by decide) (by decide) hsound
  simp only [accessoryCloneParts, List.forall_mem_cons]
  simp [accessoryFieldsPart, pointersPart]

/-- Every range makes the copy read two bytes too many. -/
theorem characteristicClone_safe_iff (x : Characteristic) (value : HomekitValue) (beyond : Nat → UInt8) :
    Packing.Safe (cloneSize x) characteristicStruct (cloneParts x value beyond) ↔
      x.validValuesRanges = [] ∧ cloneTotal x < 2 ^ 32 := by
  by_cases hranges : x.validValuesRanges = []
  · have hfinish := finish_cloneParts x value beyond
    rw [hranges] at hfinish
    have hfinish : Packing.finish characteristicStruct (cloneParts x value beyond) = cloneTotal x := hfinish
    rw [cloneSize_eq, ← hfinish]
    refine (Packing.safe_iff (by decide) (by decide) cloneParts_sound ?_).trans (by simp [hranges])
    simp only [cloneParts, List.forall_mem_cons]
    simp [identityPart, typePart, descriptionPart, scalarsPart, limitPart, validValuesPart, validValuesRangesPart,
      callbackPart, functionsPart, hranges]
  · refine iff_of_false (fun h => ?_) (fun h => hranges h.1)
    have hread := h.reads (validValuesRangesPart x.validValuesRanges beyond) (by simp [cloneParts]) _
      (List.mem_singleton_self _)
    have hread : 4 * x.validValuesRanges.length ≤ 2 * x.validValuesRanges.length := hread
    exact hranges (List.eq_nil_of_length_eq_zero (by omega))

/-- The three clone functions: the characteristic has no ranges, and the sizes add up in a size_t. -/
theorem clones_safe_iff (x : Characteristic) (value : HomekitValue) (beyond : Nat → UInt8) (service : Service)
    (characteristics : Option (List CharacteristicId)) (accessory : Accessory) (configNumber : UInt16)
    (services : Option (List ServiceId)) :
    (Packing.Safe (cloneSize x) characteristicStruct (cloneParts x value beyond) ↔
      x.validValuesRanges = [] ∧ cloneTotal x < 2 ^ 32) ∧
    (Packing.Safe (serviceCloneSize service characteristics) serviceStruct (serviceCloneParts service characteristics) ↔
      serviceCloneTotal service characteristics < 2 ^ 32) ∧
    (Packing.Safe (accessoryCloneSize services) accessoryStruct (accessoryCloneParts accessory configNumber services) ↔
      accessoryCloneTotal services < 2 ^ 32) :=
  ⟨characteristicClone_safe_iff x value beyond, serviceClone_safe_iff service characteristics,
    accessoryClone_safe_iff accessory configNumber services⟩

/-- A characteristic with two ranges of valid values. -/
def twoRanges : Characteristic :=
  { benchCharacteristic 1 benchNull with description := some (ascii "x"), validValuesRanges := [(0, 1), (5, 9)] }

/-- Four bytes are allocated for the ranges and eight are written, four of them read from behind the array. -/
theorem two_ranges_overrun :
    cloneSize twoRanges = 124 ∧
      (∃ s ∈ Packing.log characteristicStruct (cloneParts twoRanges benchNull (fun _ => 0)), s.1 = 127) ∧
      (8, 4) ∈ (validValuesRangesPart twoRanges.validValuesRanges (fun _ => 0)).reads ∧
      ¬ Packing.Safe (cloneSize twoRanges) characteristicStruct (cloneParts twoRanges benchNull (fun _ => 0)) := by
  refine ⟨by decide, by decide, by decide, fun h => ?_⟩
  have hranges := ((characteristicClone_safe_iff twoRanges benchNull (fun _ => 0)).mp h).1
  cases hranges

end Safety

end ArduinoHomeKit
