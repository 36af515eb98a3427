import ArduinoHomeKit.CharacteristicJson
import ArduinoHomeKit.CloneLayouts
import ArduinoHomeKit.Numerals
import ArduinoHomeKit.ValueCopies

/-! What a clone of a characteristic reads as, and what of the memory it leaves alone. -/

namespace ArduinoHomeKit

open StoreLog (Lies apply_append lies_copy)

abbrev BlockMemory := Nat → MemoryCell

/-- The memory around and in a block from calloc. Offsets from the size of the block on are the rest of the memory. -/
def calloc (m : BlockMemory) (size : Nat) : BlockMemory := fun i => if i < size then .byte 0 else m i

/-- The memory behind homekit_characteristic_clone, by offsets from the block. A value that cannot be copied
stops it. -/
def homekitCharacteristicClone (x : Characteristic) (beyond : Nat → UInt8) (m : BlockMemory) : Except Fault BlockMemory :=
  (homekitValueCopy x.value).map (fun value =>
    StoreLog.apply (calloc m (cloneSize x)) (Packing.log characteristicStruct (cloneParts x value beyond)))

/-! Reading. -/

def HoldsAt (m : BlockMemory) (offset size : Nat) (d : Datum) : Prop := Lies m offset (whole size d)

/-- Four zero bytes: NULL, or the number 0. -/
def unset : List MemoryCell := List.replicate 4 (.byte 0)

def Unset (m : BlockMemory) (field : Nat) : Prop := Lies m field unset

def PointsTo (m : BlockMemory) (field : Nat) (cells : List MemoryCell) : Prop :=
  ∃ p, HoldsAt m field 4 (.pointer p) ∧ Lies m p cells

/-- A pointer that is NULL when there is nothing to point to. -/
def MayPointTo (m : BlockMemory) (field : Nat) : Option (List MemoryCell) → Prop
  | none => Unset m field
  | some cells => PointsTo m field cells

/-- A count, and a pointer to so many elements. -/
def Counts (m : BlockMemory) (countField field count : Nat) (cells : List MemoryCell) : Prop :=
  if count = 0 then Unset m countField else HoldsAt m countField 4 (.count count) ∧ PointsTo m field cells

/-- The callback at p with its links. -/
def CallbackChain (m : BlockMemory) : Nat → Callback → List Callback → Prop
  | p, cb, [] =>
    HoldsAt m p 4 (.function cb.function) ∧ HoldsAt m (p + 4) 4 (.context cb.context) ∧ HoldsAt m (p + 8) 4 .null
  | p, cb, cb' :: cbs =>
    HoldsAt m p 4 (.function cb.function) ∧ HoldsAt m (p + 4) 4 (.context cb.context) ∧
      ∃ next, HoldsAt m (p + 8) 4 (.pointer next) ∧ CallbackChain m next cb' cbs

def CallbackList (m : BlockMemory) : List Callback → Prop
  | [] => Unset m CharacteristicField.callback
  | cb :: cbs => ∃ p, HoldsAt m CharacteristicField.callback 4 (.pointer p) ∧ CallbackChain m p cb cbs

/-- The block reads as the characteristic. -/
structure ReadsAs (m : BlockMemory) (x : Characteristic) : Prop where
  service : HoldsAt m CharacteristicField.service 4 (.reference x.service)
  id : HoldsAt m CharacteristicField.id 4 (.id x.id)
  type : PointsTo m CharacteristicField.type (textCells x.type)
  description : MayPointTo m CharacteristicField.description (x.description.map textCells)
  format : HoldsAt m CharacteristicField.format 4 (.format x.format)
  unit : HoldsAt m CharacteristicField.unit 4 (.unit x.unit)
  permissions : HoldsAt m CharacteristicField.permissions 4 (.permissions x.permissions)
  value : HoldsAt m CharacteristicField.value 16 (.value x.value)
  minValue : MayPointTo m CharacteristicField.minValue (x.minValue.map (fun n => whole 4 (.float n)))
  maxValue : MayPointTo m CharacteristicField.maxValue (x.maxValue.map (fun n => whole 4 (.float n)))
  minStep : MayPointTo m CharacteristicField.minStep (x.minStep.map (fun n => whole 4 (.float n)))
  maxLen : MayPointTo m CharacteristicField.maxLen (x.maxLen.map (fun n => whole 4 (.int n)))
  maxDataLen : MayPointTo m CharacteristicField.maxDataLen (x.maxDataLen.map (fun n => whole 4 (.int n)))
  validValues : Counts m CharacteristicField.validValuesCount CharacteristicField.validValuesValues x.validValues.length
    (x.validValues.map MemoryCell.byte)
  validValuesRanges : Counts m CharacteristicField.validValuesRangesCount CharacteristicField.validValuesRangesRanges
    x.validValuesRanges.length ((rangeBytes x.validValuesRanges).map MemoryCell.byte)
  callback : CallbackList m x.callback
  getter : HoldsAt m CharacteristicField.getter 4 (.userFunction x.getter)
  setter : HoldsAt m CharacteristicField.setter 4 (.userFunction x.setter)
  getterEx : HoldsAt m CharacteristicField.getterEx 4 (.userFunction x.getterEx)
  setterEx : HoldsAt m CharacteristicField.setterEx 4 (.userFunction x.setterEx)
  context : HoldsAt m CharacteristicField.context 4 (.context x.context)

section Local

variable {m : BlockMemory} {p : Nat}

theorem holds_store (m : BlockMemory) (offset size : Nat) (d : Datum) :
    HoldsAt (StoreLog.apply m (store offset size d)) offset size d := lies_copy

theorem HoldsAt.first {offset size : Nat} {d : Datum} (h : HoldsAt m offset size d) (hs : 0 < size) :
    m offset = .part d 0 := by
  have hcell := h 0 (by rwa [length_whole])
  simpa [whole] using hcell

theorem HoldsAt.not_unset {field : Nat} {d : Datum} (h : HoldsAt m field 4 d) : ¬ Unset m field := by
  intro hu
  have hzero : m field = .byte 0 := hu 0 (by decide)
  rw [h.first (by decide)] at hzero
  cases hzero

/-- A field of the struct survives stores elsewhere. -/
theorem HoldsAt.apart {offset size lo hi : Nat} {d : Datum} {log : ByteStores} (h : HoldsAt m offset size d)
    (hlog : StoreLog.Within lo hi log) (hd : hi ≤ offset ∨ offset + size ≤ lo) :
    HoldsAt (StoreLog.apply m log) offset size d := by
  apply StoreLog.Lies.apply h hlog
  rwa [length_whole]

theorem HoldsAt.store {offset size offset' size' : Nat} {d d' : Datum} (h : HoldsAt m offset size d)
    (hd : offset' + size' ≤ offset ∨ offset + size ≤ offset') :
    HoldsAt (StoreLog.apply m (ArduinoHomeKit.store offset' size' d')) offset size d :=
  h.apart (within_store offset' size' d') hd

/-- A field, and what is stored behind the struct. -/
theorem holds_field {field hi : Nat} {log : ByteStores} (hp : field + 4 ≤ p) (hlog : StoreLog.Within p hi log) (d : Datum) :
    HoldsAt (StoreLog.apply m (store field 4 d ++ log)) field 4 d := by
  rw [apply_append]
  exact (holds_store m field 4 d).apart hlog (Or.inr hp)

/-- The terminator is there already. -/
theorem lies_terminated (m : BlockMemory) (p : Nat) (text : Bytes) :
    Lies (StoreLog.apply m (StoreLog.copy p (textCells text) ++ terminator p (text.length + 1))) p (textCells text) := by
  intro i hi
  rw [apply_append]
  show Function.update (_ : BlockMemory) (p + text.length) (.byte 0) (p + i) = _
  by_cases hlast : i = text.length
  · subst hlast
    rw [Function.update_self]
    simp [textCells]
  · rw [Function.update_of_ne (by omega)]
    exact lies_copy i hi

theorem within_terminated (p : Nat) (text : Bytes) : StoreLog.Within p (p + (text.length + 1))
    (StoreLog.copy p (textCells text) ++ terminator p (text.length + 1)) :=
  StoreLog.within_append.mpr ⟨within_text p text, within_terminator p text.length⟩

/-- One turn of the loop over the callbacks. -/
theorem lies_callback (m : BlockMemory) (p : Nat) (cb : Callback) (next : Datum) :
    Lies (StoreLog.apply m (StoreLog.copy p (callbackCells cb .sourceNext) ++ store (p + 8) 4 next)) p
      (callbackCells cb next) := by
  have hcopy : Lies (StoreLog.apply m (StoreLog.copy p (callbackCells cb .sourceNext))) p
    (callbackCells cb .sourceNext) := lies_copy
  have hlength : (whole 4 (Datum.function cb.function) ++ whole 4 (.context cb.context)).length = 8 := by simp
  rw [callbackCells, StoreLog.lies_append, hlength] at hcopy
  rw [apply_append]
  show Lies _ p (whole 4 (.function cb.function) ++ whole 4 (.context cb.context) ++ whole 4 next)
  rw [StoreLog.lies_append, hlength]
  refine ⟨?_, holds_store _ _ _ _⟩
  exact hcopy.1.apply (within_store (p + 8) 4 next) (Or.inr (by rw [hlength]))

/-- What the callbacks are in the end. -/
def chainCells : Nat → Callback → List Callback → List MemoryCell
  | _, cb, [] => callbackCells cb .null
  | p, cb, cb' :: cbs => callbackCells cb (.pointer (p + 12)) ++ chainCells (p + 12) cb' cbs

theorem length_chainCells (p : Nat) (cb : Callback) (cbs : List Callback) :
    (chainCells p cb cbs).length = 12 * (cbs.length + 1) := by
  induction cbs generalizing p cb with
  | nil => exact length_callbackCells cb .null
  | cons cb' cbs ih =>
    rw [chainCells, List.length_append, length_callbackCells, ih, List.length_cons]
    omega

theorem lies_callbackStores (m : BlockMemory) (p : Nat) (cb : Callback) (cbs : List Callback) :
    Lies (StoreLog.apply m (callbackStores p cb cbs)) p (chainCells p cb cbs) := by
  induction cbs generalizing m p cb with
  | nil => exact lies_callback m p cb .null
  | cons cb' cbs ih =>
    rw [callbackStores, apply_append, chainCells, StoreLog.lies_append, length_callbackCells]
    refine ⟨?_, ih _ _ _⟩
    apply (lies_callback m p cb _).apply (within_callbackStores (p + 12) cb' cbs)
    rw [length_callbackCells]
    exact Or.inr (Nat.le_refl _)

theorem holds_callback {cb : Callback} {next : Datum} (h : Lies m p (callbackCells cb next)) :
    HoldsAt m p 4 (.function cb.function) ∧ HoldsAt m (p + 4) 4 (.context cb.context) ∧ HoldsAt m (p + 8) 4 next := by
  rw [callbackCells, StoreLog.lies_append, StoreLog.lies_append, List.length_append, length_whole, length_whole] at h
  exact ⟨h.1.1, h.1.2, h.2⟩

theorem chain_of_lies {cb : Callback} {cbs : List Callback} (h : Lies m p (chainCells p cb cbs)) :
    CallbackChain m p cb cbs := by
  induction cbs generalizing p cb with
  | nil => exact holds_callback h
  | cons cb' cbs ih =>
    rw [chainCells, StoreLog.lies_append, length_callbackCells] at h
    obtain ⟨hfunction, hcontext, hnext⟩ := holds_callback h.1
    exact ⟨hfunction, hcontext, p + 12, hnext, ih h.2⟩

end Local

/-! The parts in the block. -/

section Block

variable {parts : List ClonePart} {q : ClonePart} {m : BlockMemory} {i field : Nat}

/-- A memory in which the struct is zero. -/
def Zeroed (m : BlockMemory) (struct : Nat) : Prop := ∀ i < struct, m i = .byte 0

theorem Zeroed.lies {struct size : Nat} (h : Zeroed m struct) (hf : field + size ≤ struct) :
    Lies m field (List.replicate size (.byte 0)) := by
  intro i hi
  rw [List.length_replicate] at hi
  rw [h (field + i) (by omega), List.getElem_replicate]

variable (h : Packing.Packed characteristicStruct parts) (hm : Zeroed m characteristicStruct) (hq : parts[i]? = some q)
include h hm hq

theorem block_holds {size : Nat} {d : Datum} (hf : (field, size) ∈ q.fields)
    (hlocal : ∀ m p, characteristicStruct ≤ p → HoldsAt (StoreLog.apply m (q.log p)) field size d) :
    HoldsAt (StoreLog.apply m (Packing.log characteristicStruct parts)) field size d := by
  have hstruct := (h.own q (List.mem_of_getElem? hq)).fields _ hf
  apply h.field hq hf (hm.lies hstruct) (by simp) (by simp)
  exact fun m' _ => hlocal m' _ (h.cursor i)

theorem block_unset (hf : (field, 4) ∈ q.fields) (hnone : ∀ p, q.log p = []) :
    Unset (StoreLog.apply m (Packing.log characteristicStruct parts)) field := by
  have hstruct := (h.own q (List.mem_of_getElem? hq)).fields _ hf
  apply h.field hq hf (hm.lies hstruct) (by simp) (by simp [unset])
  intro m' hm'
  rw [hnone]
  exact hm'

/-- A pointer that the part sets, and the cells that it stores there. -/
theorem block_pointer (cells : Nat → List MemoryCell) (hf : (field, 4) ∈ q.fields)
    (hlength : ∀ p, p + (cells p).length ≤ q.next p)
    (hlocal : ∀ m p, characteristicStruct ≤ p →
      HoldsAt (StoreLog.apply m (q.log p)) field 4 (.pointer p) ∧ Lies (StoreLog.apply m (q.log p)) p (cells p)) :
    ∃ p, HoldsAt (StoreLog.apply m (Packing.log characteristicStruct parts)) field 4 (.pointer p) ∧
      Lies (StoreLog.apply m (Packing.log characteristicStruct parts)) p (cells p) := by
  have hstruct := (h.own q (List.mem_of_getElem? hq)).fields _ hf
  refine ⟨Packing.finish characteristicStruct (parts.take i), ?_, ?_⟩
  · apply h.field hq hf (hm.lies hstruct) (by simp) (by simp)
    exact fun m' _ => (hlocal m' _ (h.cursor i)).1
  · apply h.stored hq (Nat.le_refl _) (hlength _)
    exact fun m' => (hlocal m' _ (h.cursor i)).2

end Block

section ReadBack

variable {x : Characteristic} {value : HomekitValue} {beyond : Nat → UInt8} {d : Bytes} {m : BlockMemory} {p : Nat}

theorem cloneParts_own (hd : x.description = some d) : ∀ q ∈ cloneParts x value beyond, q.Own characteristicStruct := by
  simp only [cloneParts, List.forall_mem_cons, hd]
  refine ⟨identityPart_own, typePart_own _, descriptionPart_own d, scalarsPart_own, limitPart_own (by decide) _,
    limitPart_own (by decide) _, limitPart_own (by decide) _, limitPart_own (by decide) _, limitPart_own (by decide) _,
    validValuesPart_own _, validValuesRangesPart_own _, callbackPart_own _, functionsPart_own,
    fun q hq => absurd hq List.not_mem_nil⟩

/-- The fields of the struct, in the order in which they are set. -/
theorem cloneParts_fields : ((cloneParts x value beyond).flatMap Packing.Part.fields).Pairwise Packing.Apart := by
  show List.Pairwise Packing.Apart
    [(0, 4), (4, 4), (8, 4), (12, 4), (16, 4), (20, 4), (24, 4), (32, 16), (48, 4), (52, 4), (56, 4), (60, 4), (64, 4),
      (68, 4), (72, 4), (76, 4), (80, 4), (92, 4), (84, 4), (88, 4), (96, 4), (100, 4), (104, 4)]
  decide

theorem cloneParts_packed (hd : x.description = some d) :
    Packing.Packed characteristicStruct (cloneParts x value beyond) :=
  ⟨cloneParts_sound, cloneParts_own hd, cloneParts_fields⟩

theorem text_local {field : Nat} (hf : field + 4 ≤ p) (m : BlockMemory) (text : Bytes) :
    HoldsAt (StoreLog.apply m (store field 4 (.pointer p) ++ StoreLog.copy p (textCells text) ++
        terminator p (text.length + 1))) field 4 (.pointer p) ∧
      Lies (StoreLog.apply m (store field 4 (.pointer p) ++ StoreLog.copy p (textCells text) ++
        terminator p (text.length + 1))) p (textCells text) := by
  rw [List.append_assoc]
  refine ⟨holds_field hf (within_terminated p text) _, ?_⟩
  rw [apply_append]
  exact lies_terminated _ p text

theorem limit_local {field : Nat} (hf : field + 4 ≤ p) (m : BlockMemory) (n : Datum) :
    HoldsAt (StoreLog.apply m (store field 4 (.pointer p) ++ store p 4 n)) field 4 (.pointer p) ∧
      Lies (StoreLog.apply m (store field 4 (.pointer p) ++ store p 4 n)) p (whole 4 n) := by
  refine ⟨holds_field hf (within_store p 4 n) _, ?_⟩
  rw [apply_append]
  exact holds_store _ p 4 n

theorem counts_local {countField field count : Nat} (hc : countField + 4 ≤ field) (hf : field + 4 ≤ p) (m : BlockMemory)
    (cells : List MemoryCell) :
    HoldsAt (StoreLog.apply m (store countField 4 (.count count) ++ store field 4 (.pointer p) ++
        StoreLog.copy p cells)) countField 4 (.count count) ∧
      HoldsAt (StoreLog.apply m (store countField 4 (.count count) ++ store field 4 (.pointer p) ++
        StoreLog.copy p cells)) field 4 (.pointer p) ∧
      Lies (StoreLog.apply m (store countField 4 (.count count) ++ store field 4 (.pointer p) ++
        StoreLog.copy p cells)) p cells := by
  rw [apply_append, apply_append]
  refine ⟨?_, ?_, lies_copy⟩
  · apply HoldsAt.apart _ (StoreLog.within_copy _ _) (Or.inr (by omega))
    exact (holds_store _ _ _ _).store (Or.inr hc)
  · exact (holds_store _ _ _ _).apart (StoreLog.within_copy _ _) (Or.inr hf)

theorem scalars_local (m : BlockMemory) (p : Nat) :
    HoldsAt (StoreLog.apply m ((scalarsPart x value).log p)) CharacteristicField.format 4 (.format x.format) ∧
    HoldsAt (StoreLog.apply m ((scalarsPart x value).log p)) CharacteristicField.unit 4 (.unit x.unit) ∧
    HoldsAt (StoreLog.apply m ((scalarsPart x value).log p)) CharacteristicField.permissions 4
      (.permissions x.permissions) ∧
    HoldsAt (StoreLog.apply m ((scalarsPart x value).log p)) CharacteristicField.value 16 (.value value) := by
  simp only [scalarsPart, apply_append]
  refine ⟨?_, ?_, ?_, holds_store _ _ _ _⟩
  · exact (((holds_store _ _ _ _).store (by decide)).store (by decide)).store (by decide)
  · exact ((holds_store _ _ _ _).store (by decide)).store (by decide)
  · exact (holds_store _ _ _ _).store (by decide)

theorem functions_local (m : BlockMemory) (p : Nat) :
    HoldsAt (StoreLog.apply m ((functionsPart x).log p)) CharacteristicField.getter 4 (.userFunction x.getter) ∧
    HoldsAt (StoreLog.apply m ((functionsPart x).log p)) CharacteristicField.setter 4 (.userFunction x.setter) ∧
    HoldsAt (StoreLog.apply m ((functionsPart x).log p)) CharacteristicField.getterEx 4 (.userFunction x.getterEx) ∧
    HoldsAt (StoreLog.apply m ((functionsPart x).log p)) CharacteristicField.setterEx 4 (.userFunction x.setterEx) ∧
    HoldsAt (StoreLog.apply m ((functionsPart x).log p)) CharacteristicField.context 4 (.context x.context) := by
  simp only [functionsPart, apply_append]
  refine ⟨?_, ?_, ?_, ?_, holds_store _ _ _ _⟩
  · exact ((((holds_store _ _ _ _).store (by decide)).store (by decide)).store (by decide)).store (by decide)
  · exact (((holds_store _ _ _ _).store (by decide)).store (by decide)).store (by decide)
  · exact ((holds_store _ _ _ _).store (by decide)).store (by decide)
  · exact (holds_store _ _ _ _).store (by decide)

section

variable {parts : List ClonePart} {i : Nat} (h : Packing.Packed characteristicStruct parts)
  (hm : Zeroed m characteristicStruct)
include h hm

theorem block_limit {field : Nat} {limit : Option Datum} (hq : parts[i]? = some (limitPart field limit))
    (hf : field + 4 ≤ characteristicStruct) :
    MayPointTo (StoreLog.apply m (Packing.log characteristicStruct parts)) field (limit.map (whole 4)) := by
  cases limit with
  | none => exact block_unset h hm hq (.head _) (fun _ => rfl)
  | some n =>
    apply block_pointer h hm hq (fun _ => whole 4 n) (.head _)
    · intro p
      rw [length_whole]
      exact Nat.le_refl _
    · exact fun m' p hp => limit_local (hf.trans hp) m' n

/-- The two arrays with a count. -/
theorem block_counts {q : ClonePart} {countField field count : Nat} {cells : List MemoryCell} (hq : parts[i]? = some q)
    (hcount : (countField, 4) ∈ q.fields) (hfield : (field, 4) ∈ q.fields) (hc : countField + 4 ≤ field)
    (hlength : ∀ p, p + cells.length ≤ q.next p)
    (hlog : ∀ p, q.log p = if count = 0 then []
      else store countField 4 (.count count) ++ store field 4 (.pointer p) ++ StoreLog.copy p cells) :
    Counts (StoreLog.apply m (Packing.log characteristicStruct parts)) countField field count cells := by
  have hstruct : field + 4 ≤ characteristicStruct := (h.own q (List.mem_of_getElem? hq)).fields _ hfield
  rw [Counts]
  by_cases hzero : count = 0
  · rw [if_pos hzero]
    exact block_unset h hm hq hcount (fun p => by rw [hlog, if_pos hzero])
  · rw [if_neg hzero]
    constructor
    · apply block_holds h hm hq hcount
      intro m' p hp
      rw [hlog, if_neg hzero]
      exact (counts_local hc (hstruct.trans hp) m' cells).1
    · apply block_pointer h hm hq (fun _ => cells) hfield hlength
      intro m' p hp
      rw [hlog, if_neg hzero]
      exact (counts_local hc (hstruct.trans hp) m' cells).2

theorem block_validValues {values : List UInt8} (hq : parts[i]? = some (validValuesPart values)) :
    Counts (StoreLog.apply m (Packing.log characteristicStruct parts)) CharacteristicField.validValuesCount
      CharacteristicField.validValuesValues values.length (values.map MemoryCell.byte) := by
  apply block_counts h hm hq (.head _) (.tail _ (.head _)) (by decide)
  · intro p
    rw [List.length_map]
    exact Nat.add_le_add_left (le_alignSize _) p
  · intro p
    simp only [List.length_eq_zero_iff]
    rfl

theorem block_validValuesRanges {ranges : List (UInt8 × UInt8)}
    (hq : parts[i]? = some (validValuesRangesPart ranges beyond)) :
    Counts (StoreLog.apply m (Packing.log characteristicStruct parts)) CharacteristicField.validValuesRangesCount
      CharacteristicField.validValuesRangesRanges ranges.length ((rangeBytes ranges).map MemoryCell.byte) := by
  have hcounts : Counts (StoreLog.apply m (Packing.log characteristicStruct parts))
      CharacteristicField.validValuesRangesCount CharacteristicField.validValuesRangesRanges ranges.length
      (rangeCells ranges beyond) := by
    apply block_counts h hm hq (.head _) (.tail _ (.head _)) (by decide)
    · intro p
      rw [length_rangeCells]
      exact Nat.add_le_add_left (le_alignSize _) p
    · intro p
      simp only [List.length_eq_zero_iff]
      rfl
  rw [Counts] at hcounts ⊢
  by_cases hzero : ranges.length = 0
  · rwa [if_pos hzero] at hcounts ⊢
  · rw [if_neg hzero] at hcounts ⊢
    obtain ⟨hcount, p, hpointer, hcells⟩ := hcounts
    rw [rangeCells, List.map_append, StoreLog.lies_append] at hcells
    exact ⟨hcount, p, hpointer, hcells.1⟩

theorem block_callback {cbs : List Callback} (hq : parts[i]? = some (callbackPart cbs)) :
    CallbackList (StoreLog.apply m (Packing.log characteristicStruct parts)) cbs := by
  cases cbs with
  | nil => exact block_unset h hm hq (.head _) (fun _ => rfl)
  | cons cb cbs =>
    obtain ⟨p, hpointer, hcells⟩ := block_pointer h hm hq (fun p => chainCells p cb cbs) (.head _)
      (fun p => by rw [length_chainCells]; exact Nat.le_refl _)
      (fun m' p hp => by
        refine ⟨holds_field (Nat.le_trans (by decide) hp) (within_callbackStores p cb cbs) _, ?_⟩
        show Lies (StoreLog.apply m' (store _ _ _ ++ callbackStores p cb cbs)) _ _
        rw [apply_append]
        exact lies_callbackStores _ p cb cbs)
    exact ⟨p, hpointer, chain_of_lies hcells⟩

end

/-- The block reads as the original with the value that was copied. -/
theorem clone_readsAs (value : HomekitValue) (beyond : Nat → UInt8) (hd : x.description = some d)
    (hm : Zeroed m characteristicStruct) :
    ReadsAs (StoreLog.apply m (Packing.log characteristicStruct (cloneParts x value beyond)))
      { x with value := value } := by
  have h : Packing.Packed characteristicStruct (cloneParts x value beyond) := cloneParts_packed hd
  have hidentity : (cloneParts x value beyond)[0]? = some (identityPart x) := rfl
  have htype : (cloneParts x value beyond)[1]? = some (typePart x.type) := rfl
  have hdescription : (cloneParts x value beyond)[2]? = some (descriptionPart (some d)) := by
    rw [← hd]
    rfl
  have hscalars : (cloneParts x value beyond)[3]? = some (scalarsPart x value) := rfl
  have hminValue : (cloneParts x value beyond)[4]? = some (limitPart _ (x.minValue.map .float)) := rfl
  have hmaxValue : (cloneParts x value beyond)[5]? = some (limitPart _ (x.maxValue.map .float)) := rfl
  have hminStep : (cloneParts x value beyond)[6]? = some (limitPart _ (x.minStep.map .float)) := rfl
  have hmaxLen : (cloneParts x value beyond)[7]? = some (limitPart _ (x.maxLen.map .int)) := rfl
  have hmaxDataLen : (cloneParts x value beyond)[8]? = some (limitPart _ (x.maxDataLen.map .int)) := rfl
  have hvalues : (cloneParts x value beyond)[9]? = some (validValuesPart x.validValues) := rfl
  have hranges : (cloneParts x value beyond)[10]? = some (validValuesRangesPart x.validValuesRanges beyond) := rfl
  have hcallback : (cloneParts x value beyond)[11]? = some (callbackPart x.callback) := rfl
  have hfunctions : (cloneParts x value beyond)[12]? = some (functionsPart x) := rfl
  have hmap : ∀ {α : Type} (f : α → Datum) (o : Option α), o.map (fun a => whole 4 (f a)) = (o.map f).map (whole 4) :=
    fun f o => (Option.map_map (whole 4) f o).symm
  constructor
  case service =>
    apply block_holds h hm hidentity (.head _)
    intro m' p _
    rw [identityPart, apply_append]
    exact (holds_store _ _ _ _).store (by decide)
  case id =>
    apply block_holds h hm hidentity (.tail _ (.head _))
    intro m' p _
    rw [identityPart, apply_append]
    exact holds_store _ _ _ _
  case type =>
    apply block_pointer h hm htype (fun _ => textCells x.type) (.head _)
    · intro p
      rw [length_textCells]
      exact Nat.le_refl _
    · exact fun m' p hp => text_local (Nat.le_trans (by decide) hp) m' x.type
  case description =>
    show MayPointTo _ _ (x.description.map textCells)
    rw [hd]
    apply block_pointer h hm hdescription (fun _ => textCells d) (.head _)
    · intro p
      rw [length_textCells]
      exact le_alignSize _
    · exact fun m' p hp => text_local (Nat.le_trans (by decide) hp) m' d
  case format => exact block_holds h hm hscalars (.head _) (fun m' p _ => (scalars_local m' p).1)
  case unit => exact block_holds h hm hscalars (.tail _ (.head _)) (fun m' p _ => (scalars_local m' p).2.1)
  case permissions =>
    exact block_holds h hm hscalars (.tail _ (.tail _ (.head _))) (fun m' p _ => (scalars_local m' p).2.2.1)
  case value =>
    exact block_holds h hm hscalars (.tail _ (.tail _ (.tail _ (.head _)))) (fun m' p _ => (scalars_local m' p).2.2.2)
  case minValue => exact hmap _ x.minValue ▸ block_limit h hm hminValue (by decide)
  case maxValue => exact hmap _ x.maxValue ▸ block_limit h hm hmaxValue (by decide)
  case minStep => exact hmap _ x.minStep ▸ block_limit h hm hminStep (by decide)
  case maxLen => exact hmap _ x.maxLen ▸ block_limit h hm hmaxLen (by decide)
  case maxDataLen => exact hmap _ x.maxDataLen ▸ block_limit h hm hmaxDataLen (by decide)
  case validValues => exact block_validValues h hm hvalues
  case validValuesRanges => exact block_validValuesRanges h hm hranges
  case callback => exact block_callback h hm hcallback
  case getter => exact block_holds h hm hfunctions (.head _) (fun m' p _ => (functions_local m' p).1)
  case setter => exact block_holds h hm hfunctions (.tail _ (.head _)) (fun m' p _ => (functions_local m' p).2.1)
  case getterEx =>
    exact block_holds h hm hfunctions (.tail _ (.tail _ (.head _))) (fun m' p _ => (functions_local m' p).2.2.1)
  case setterEx =>
    exact block_holds h hm hfunctions (.tail _ (.tail _ (.tail _ (.head _))))
      (fun m' p _ => (functions_local m' p).2.2.2.1)
  case context =>
    exact block_holds h hm hfunctions (.tail _ (.tail _ (.tail _ (.tail _ (.head _)))))
      (fun m' p _ => (functions_local m' p).2.2.2.2)

end ReadBack

end ArduinoHomeKit
