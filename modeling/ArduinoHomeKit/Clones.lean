import ArduinoHomeKit.Accessories
import ArduinoHomeKit.Library.Packing

/-! homekit_characteristic_clone, homekit_service_clone and homekit_accessory_clone pack a struct and what
its pointers lead to into one block. Pointers have 32 bits; the offsets are those of the compiler. -/

namespace ArduinoHomeKit

/-- What is stored as a whole. A pointer into the block is its offset there. -/
inductive Datum
  | reference (object : Nat)
  | pointer (offset : Nat)
  | null
  | sourceNext
  | id (n : UInt32)
  | format (f : Format)
  | unit (u : Units)
  | permissions (n : Nat)
  | value (v : HomekitValue)
  | float (bits : Nat)
  | int (n : Int)
  | count (n : Nat)
  | function (f : CallbackFunction)
  | userFunction (f : Option Nat)
  | context (n : Nat)
  | flag (b : Bool)
  | category (n : UInt32)
  | configNumber (n : UInt16)
  deriving DecidableEq

/-- A byte of the memory: a character, or the i-th byte of something stored as a whole. -/
inductive MemoryCell
  | byte (b : UInt8)
  | part (d : Datum) (i : Nat)
  deriving DecidableEq

abbrev ClonePart := Packing.Part MemoryCell

abbrev ByteStores := List (Nat × MemoryCell)

def whole (size : Nat) (d : Datum) : List MemoryCell := (List.range size).map (.part d)

def store (offset size : Nat) (d : Datum) : ByteStores := StoreLog.copy offset (whole size d)

/-- A string with its terminator. -/
def textCells (text : Bytes) : List MemoryCell := (text ++ [0]).map .byte

/-- p[n - 1] = 0. For n = 0 the index is the largest size_t, and the address wraps to the byte in front of p. -/
def terminator (p n : Nat) : ByteStores := [(if n = 0 then p - 1 else p + (n - 1), .byte 0)]

/-- Lengths are those of strings and arrays in memory, and what is copied is there twice: none of them is
near 2^32. -/
def alignSize (size : Nat) : Nat := if size % 4 ≠ 0 then size + (4 - size % 4) else size

/-- The block begins at a multiple of 4. -/
def alignPointer (p : Nat) : Nat := if p % 4 ≠ 0 then p + (4 - p % 4) else p

/-- The sum in the variable `size`, a size_t. -/
def sizeSum (sizes : List Nat) : Nat := sizes.foldl (fun size n => (size + n) % 2 ^ 32) 0

namespace CharacteristicField
def service : Nat := 0
def id : Nat := 4
def type : Nat := 8
def description : Nat := 12
def format : Nat := 16
def unit : Nat := 20
def permissions : Nat := 24
def value : Nat := 32
def minValue : Nat := 48
def maxValue : Nat := 52
def minStep : Nat := 56
def maxLen : Nat := 60
def maxDataLen : Nat := 64
def validValuesCount : Nat := 68
def validValuesValues : Nat := 72
def validValuesRangesCount : Nat := 76
def validValuesRangesRanges : Nat := 80
def getter : Nat := 84
def setter : Nat := 88
def callback : Nat := 92
def getterEx : Nat := 96
def setterEx : Nat := 100
def context : Nat := 104
end CharacteristicField

/-- sizeof(homekit_characteristic_t). -/
def characteristicStruct : Nat := 112

def descriptionLength (description : Option Bytes) : Nat := description.elim 0 (fun d => d.length + 1)

def limitLength (limit : Option Datum) : Nat := limit.elim 0 (fun _ => 4)

def cloneSize (x : Characteristic) : Nat :=
  sizeSum
    ([alignSize (characteristicStruct + (x.type.length + 1) + descriptionLength x.description),
      limitLength (x.minValue.map .float), limitLength (x.maxValue.map .float), limitLength (x.minStep.map .float),
      limitLength (x.maxLen.map .int), limitLength (x.maxDataLen.map .int), alignSize x.validValues.length,
      alignSize (2 * x.validValuesRanges.length)] ++ x.callback.map (fun _ => alignSize 12))

def identityPart (x : Characteristic) : ClonePart where
  fields := [(CharacteristicField.service, 4), (CharacteristicField.id, 4)]
  log _ := store CharacteristicField.service 4 (.reference x.service) ++ store CharacteristicField.id 4 (.id x.id)

def typePart (type : Bytes) : ClonePart where
  fields := [(CharacteristicField.type, 4)]
  length := type.length + 1
  log p := store CharacteristicField.type 4 (.pointer p) ++ StoreLog.copy p (textCells type) ++
    terminator p (type.length + 1)
  next p := p + (type.length + 1)
  reads := [(type.length + 1, type.length + 1)]

/-- strncpy copies nothing of a NULL pointer. -/
def descriptionPart (description : Option Bytes) : ClonePart where
  fields := [(CharacteristicField.description, 4)]
  length := descriptionLength description
  log p := store CharacteristicField.description 4 (.pointer p) ++
    StoreLog.copy p (description.elim [] textCells) ++ terminator p (descriptionLength description)
  next p := alignPointer (p + descriptionLength description)
  reads := [(descriptionLength description, descriptionLength description)]

/-- The value is what homekit_value_copy leaves there. -/
def scalarsPart (x : Characteristic) (value : HomekitValue) : ClonePart where
  fields := [(CharacteristicField.format, 4), (CharacteristicField.unit, 4), (CharacteristicField.permissions, 4),
    (CharacteristicField.value, 16)]
  log _ := store CharacteristicField.format 4 (.format x.format) ++ store CharacteristicField.unit 4 (.unit x.unit) ++
    store CharacteristicField.permissions 4 (.permissions x.permissions) ++
    store CharacteristicField.value 16 (.value value)

/-- One of the limits: a pointer in the struct, and the number that it leads to. -/
def limitPart (field : Nat) (limit : Option Datum) : ClonePart where
  fields := [(field, 4)]
  length := limitLength limit
  log p := limit.elim [] (fun d => store field 4 (.pointer p) ++ store p 4 d)
  next p := p + limitLength limit
  reads := [(limitLength limit, limitLength limit)]

def validValuesPart (values : List UInt8) : ClonePart where
  fields := [(CharacteristicField.validValuesCount, 4), (CharacteristicField.validValuesValues, 4)]
  length := values.length
  log p :=
    if values = [] then []
    else store CharacteristicField.validValuesCount 4 (.count values.length) ++
      store CharacteristicField.validValuesValues 4 (.pointer p) ++ StoreLog.copy p (values.map .byte)
  next p := p + alignSize values.length
  reads := [(values.length, values.length)]

def rangeBytes (ranges : List (UInt8 × UInt8)) : Bytes := ranges.flatMap (fun r => [r.1, r.2])

/-- The copy takes the size of a pointer for every range, which has two bytes: `beyond` is what lies behind
the array. -/
def rangeCells (ranges : List (UInt8 × UInt8)) (beyond : Nat → UInt8) : List MemoryCell :=
  (rangeBytes ranges ++ (List.range (2 * ranges.length)).map beyond).map .byte

def validValuesRangesPart (ranges : List (UInt8 × UInt8)) (beyond : Nat → UInt8) : ClonePart where
  fields := [(CharacteristicField.validValuesRangesCount, 4), (CharacteristicField.validValuesRangesRanges, 4)]
  length := 4 * ranges.length
  log p :=
    if ranges = [] then []
    else store CharacteristicField.validValuesRangesCount 4 (.count ranges.length) ++
      store CharacteristicField.validValuesRangesRanges 4 (.pointer p) ++
      StoreLog.copy p (rangeCells ranges beyond)
  next p := p + alignSize (4 * ranges.length)
  reads := [(4 * ranges.length, 2 * ranges.length)]

/-- homekit_characteristic_change_callback_t. -/
def callbackCells (cb : Callback) (next : Datum) : List MemoryCell :=
  whole 4 (.function cb.function) ++ whole 4 (.context cb.context) ++ whole 4 next

/-- The loop over the callbacks: each is copied with the link of its source, and gets its own behind that. -/
def callbackStores (p : Nat) (cb : Callback) : List Callback → ByteStores
  | [] => StoreLog.copy p (callbackCells cb .sourceNext) ++ store (p + 8) 4 .null
  | cb' :: cbs =>
    StoreLog.copy p (callbackCells cb .sourceNext) ++ store (p + 8) 4 (.pointer (p + 12)) ++ callbackStores (p + 12) cb' cbs

def callbackPart (cbs : List Callback) : ClonePart where
  fields := [(CharacteristicField.callback, 4)]
  length := 12 * cbs.length
  log p :=
    match cbs with
    | [] => []
    | cb :: cbs => store CharacteristicField.callback 4 (.pointer p) ++ callbackStores p cb cbs
  next p := p + alignSize 12 * cbs.length
  reads := cbs.map (fun _ => (12, 12))

def functionsPart (x : Characteristic) : ClonePart where
  fields := [(CharacteristicField.getter, 4), (CharacteristicField.setter, 4), (CharacteristicField.getterEx, 4),
    (CharacteristicField.setterEx, 4), (CharacteristicField.context, 4)]
  log _ := store CharacteristicField.getter 4 (.userFunction x.getter) ++
    store CharacteristicField.setter 4 (.userFunction x.setter) ++
    store CharacteristicField.getterEx 4 (.userFunction x.getterEx) ++
    store CharacteristicField.setterEx 4 (.userFunction x.setterEx) ++
    store CharacteristicField.context 4 (.context x.context)

/-- homekit_characteristic_clone behind the allocation, in its order. -/
def cloneParts (x : Characteristic) (value : HomekitValue) (beyond : Nat → UInt8) : List (ClonePart) :=
  [identityPart x, typePart x.type, descriptionPart x.description, scalarsPart x value,
    limitPart CharacteristicField.minValue (x.minValue.map .float),
    limitPart CharacteristicField.maxValue (x.maxValue.map .float),
    limitPart CharacteristicField.minStep (x.minStep.map .float),
    limitPart CharacteristicField.maxLen (x.maxLen.map .int),
    limitPart CharacteristicField.maxDataLen (x.maxDataLen.map .int), validValuesPart x.validValues,
    validValuesRangesPart x.validValuesRanges beyond, callbackPart x.callback, functionsPart x]

namespace ServiceField
def accessory : Nat := 0
def id : Nat := 4
def type : Nat := 8
def hidden : Nat := 12
def primary : Nat := 13
def linked : Nat := 16
def characteristics : Nat := 20
end ServiceField

/-- sizeof(homekit_service_t). -/
def serviceStruct : Nat := 24

/-- The bytes of an array of pointers with NULL behind them. -/
def pointersLength (pointers : Option (List Nat)) : Nat := pointers.elim 0 (fun l => 4 * (l.length + 1))

def serviceCloneSize (x : Service) (characteristics : Option (List CharacteristicId)) : Nat :=
  sizeSum [alignSize (serviceStruct + (x.type.length + 1)), pointersLength x.linked, pointersLength characteristics]

/-- An array of pointers ends with NULL, which is copied too. -/
def pointersPart (field : Nat) (pointers : Option (List Nat)) : ClonePart where
  fields := [(field, 4)]
  length := pointersLength pointers
  log p := pointers.elim []
    (fun l => store field 4 (.pointer p) ++
      StoreLog.copy p (l.flatMap (fun i => whole 4 (.reference i)) ++ whole 4 .null))
  next p := p + pointersLength pointers
  reads := [(pointersLength pointers, pointersLength pointers)]

def serviceIdentityPart (x : Service) : ClonePart where
  fields := [(ServiceField.accessory, 4), (ServiceField.id, 4)]
  log _ := store ServiceField.accessory 4 (.reference x.accessory) ++ store ServiceField.id 4 (.id x.id)

def serviceTypePart (type : Bytes) : ClonePart where
  fields := [(ServiceField.type, 4)]
  length := type.length + 1
  log p := StoreLog.copy p (textCells type) ++ store ServiceField.type 4 (.pointer p) ++ terminator p (type.length + 1)
  next p := p + alignSize (type.length + 1)
  reads := [(type.length + 1, type.length + 1)]

def serviceFlagsPart (x : Service) : ClonePart where
  fields := [(ServiceField.hidden, 1), (ServiceField.primary, 1)]
  log _ := store ServiceField.hidden 1 (.flag x.hidden) ++ store ServiceField.primary 1 (.flag x.primary)

/-- homekit_service_clone. The list of characteristics may be NULL. -/
def serviceCloneParts (x : Service) (characteristics : Option (List CharacteristicId)) : List ClonePart :=
  [serviceIdentityPart x, serviceTypePart x.type, serviceFlagsPart x, pointersPart ServiceField.linked x.linked,
    pointersPart ServiceField.characteristics characteristics]

namespace AccessoryField
def id : Nat := 0
def category : Nat := 4
def configNumber : Nat := 8
def services : Nat := 12
end AccessoryField

/-- sizeof(homekit_accessory_t). -/
def accessoryStruct : Nat := 16

def accessoryCloneSize (services : Option (List ServiceId)) : Nat :=
  sizeSum [accessoryStruct, pointersLength services]

def accessoryFieldsPart (x : Accessory) (configNumber : UInt16) : ClonePart where
  fields := [(AccessoryField.id, 4), (AccessoryField.category, 4), (AccessoryField.configNumber, 2)]
  log _ := store AccessoryField.id 4 (.id x.id) ++ store AccessoryField.category 4 (.category x.category) ++
    store AccessoryField.configNumber 2 (.configNumber configNumber)

/-- homekit_accessory_clone. The list of services may be NULL. -/
def accessoryCloneParts (x : Accessory) (configNumber : UInt16) (services : Option (List ServiceId)) :
    List ClonePart :=
  [accessoryFieldsPart x configNumber, pointersPart AccessoryField.services services]

end ArduinoHomeKit
