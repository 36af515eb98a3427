import ArduinoHomeKit.Base64
import ArduinoHomeKit.CJson
import ArduinoHomeKit.ClientProcess

/-! process_characteristics_update: one item of PUT /characteristics, its value and its
subscription. -/

namespace ArduinoHomeKit

variable {υ : Type}

inductive HAPStatus
  | success
  | insufficientPrivileges
  | readOnly
  | writeOnly
  | notificationsUnsupported
  | noResource
  | invalidValue
  deriving DecidableEq

def HAPStatus.code : HAPStatus → Int
  | success => 0
  | insufficientPrivileges => -70401
  | readOnly => -70404
  | writeOnly => -70405
  | notificationsUnsupported => -70406
  | noResource => -70409
  | invalidValue => -70410

/-! The checks of a value. -/

/-- A boolean, or a number whose valueint is 0 or 1. -/
def writtenBool : CJson → Option Bool
  | .boolean b => some b
  | .number d => if valueInt d = 0 ∨ valueInt d = 1 then some (valueInt d = 1) else none
  | _ => none

/-- The field valuedouble, which the parser sets for numbers only. -/
def CJson.valuedouble : CJson → Double
  | number d => d
  | _ => .ofInt 0

/-- The limits of the format. -/
def formatLimits : Format → Double × Double
  | .uint8 => (.ofInt 0, .ofInt 255)
  | .uint16 => (.ofInt 0, .ofInt 65535)
  | .uint32 => (.ofInt 0, .ofInt 4294967295)
  -- 18446744073709551615 is rounded when it becomes a double
  | .uint64 => (.ofInt 0, .ofInt (2 ^ 64))
  | .int => (.ofInt (-2147483648), .ofInt 2147483647)
  | _ => (.ofInt 0, .ofInt 0)

def Characteristic.limits (x : Characteristic) : Double × Double :=
  ((x.minValue.map floatToDouble).getD (formatLimits x.format).1,
    (x.maxValue.map floatToDouble).getD (formatLimits x.format).2)

/-- The loops over the valid values and over their ranges. -/
def isValidValue (rt : Runtime) (x : Characteristic) (d : Double) : Bool :=
  x.validValues.any (fun v => toInt rt d == v.toNat)

def isInValidRange (x : Characteristic) (d : Double) : Bool :=
  x.validValuesRanges.any (fun r => (Double.ofInt r.1.toNat).le d && d.le (Double.ofInt r.2.toNat))

/-- The double that is stored in an integer characteristic. -/
def writtenInteger (rt : Runtime) (x : Characteristic) (j : CJson) : Option Double :=
  let isNumeric : Bool := match j with
    | .number _ | .boolean _ => true
    | _ => false
  let d := j.valuedouble
  if isNumeric = false then none
  else if d.lt x.limits.1 || x.limits.2.lt d then none
  else if x.validValues ≠ [] ∧ isValidValue rt x d = false then none
  else if x.validValuesRanges ≠ [] ∧ isInValidRange x d = false then none
  else some d

/-- The float that is stored in a float characteristic. -/
def writtenFloat (rt : Runtime) (x : Characteristic) : CJson → Option Nat
  | .number d =>
    let f := rt.toFloat d
    if x.minValue.any (fun m => (floatToDouble f).lt (floatToDouble m)) ||
        x.maxValue.any (fun m => (floatToDouble m).lt (floatToDouble f)) then none
    else some f
  | _ => none

/-- A string of at most `maxLen` characters; the limit is an int compared with a size_t. -/
def writtenText (maxLen : Int) : CJson → Option Bytes
  | .string s => if (CString.strdup s).length > (maxLen % 2 ^ 32).toNat then none else some s
  | _ => none

/-! The value that is built. -/

/-- The constructors of types.c set the format and one member; the other bits are whatever the
stack held. -/
def cppValue (u : Uninitialised) (format : Format) (union : Union) : HomekitValue :=
  { isNull := u.isNull, isStatic := u.isStatic, format := format, union := union }

/-- A scalar member over the bits of the union. -/
def overlay (u : Uninitialised) (width n : Nat) : Union :=
  .bits (u.word / 2 ^ width * 2 ^ width + n % 2 ^ width)

/-- HOMEKIT_UINT8_CPP(value) and its siblings. -/
def integerUnion (rt : Runtime) (u : Uninitialised) (d : Double) : Format → Union
  | .uint8 => overlay u 8 (toUnsigned rt 8 d)
  | .uint16 => overlay u 16 (toUnsigned rt 16 d)
  | .uint32 => overlay u 32 (toUnsigned rt 32 d)
  | .uint64 => overlay u 64 (toUnsigned rt 64 d)
  | _ => overlay u 32 (toInt rt d % 2 ^ 32).toNat

/-- The block of base64_decoded_size bytes after base64_decode_ wrote into it, `none` when malloc
returned NULL. -/
def decodedBlock (rt : Runtime) (now : Nat) (text decoded : Bytes) : Except Fault (Option Bytes) :=
  let size := base64DecodedSize (rt.before now) text
  if size ≤ dramSize then
    if decoded.length ≤ size then
      .ok (some ((List.range size).map (fun i => if i < decoded.length then decoded.getD i 0 else rt.heap now i)))
    else .error .wildWrite
  else if decoded = [] then .ok none
  else .error .nullDereference

/-- The list that tlv_parse makes of the block. -/
def parsedBlock (rt : Runtime) (now : Nat) : Option Bytes → Except Fault (List Tlv)
  | some data => tlvParse (bufferOf data (fun i => rt.heap now (data.length + i))) data.length
  | none => .error .nullDereference

/-- What the switch over the format builds of the item's value, or the status that it returns. -/
def writtenValue (rt : Runtime) (x : Characteristic) (now : Nat) (j : CJson) :
    Except Fault (Except HAPStatus HomekitValue) :=
  let u := rt.stack now
  let build := fun union => cppValue u x.format union
  match x.format with
  | .bool =>
    match writtenBool j with
    | some b => .ok (.ok (build (overlay u 8 b.toNat)))
    | none => .ok (.error .invalidValue)
  | .uint8 | .uint16 | .uint32 | .uint64 | .int =>
    match writtenInteger rt x j with
    | some d => .ok (.ok (build (integerUnion rt u d x.format)))
    | none => .ok (.error .invalidValue)
  | .float =>
    match writtenFloat rt x j with
    | some f => .ok (.ok (build (overlay u 32 f)))
    | none => .ok (.error .invalidValue)
  | .string =>
    match writtenText (x.maxLen.getD 64) j with
    | some s => .ok (.ok (build (.string (.block .request s))))
    | none => .ok (.error .invalidValue)
  | .tlv =>
    match (writtenText (x.maxLen.getD 256) j).map CString.strdup with
    | some text =>
      match base64Decode text with
      | none => .ok (.error .invalidValue)
      | some decoded =>
        match decodedBlock rt now text decoded with
        | .error e => .error e
        | .ok block =>
          (parsedBlock rt now block).map (fun l => .ok (build (.tlvValues (.block .request l))))
    | none => .ok (.error .invalidValue)
  | .data =>
    match (writtenText (x.maxDataLen.getD 4096) j).map CString.strdup with
    | some text =>
      match base64Decode text with
      | none => .ok (.error .invalidValue)
      | some decoded =>
        -- nothing frees this block
        (decodedBlock rt now text decoded).map (fun block => .ok (build (match block with
          | some data => .data (.block .static data) data.length
          | none => .data .null (base64DecodedSize (rt.before now) text))))
    | none => .ok (.error .invalidValue)

/-! The item. -/

/-- To the setter, or into the characteristic: scalars are assigned, the others copied where the
old value was freed. -/
def storeWritten (sketch : Sketch υ) (ch : CharacteristicId) (v : HomekitValue) (s : AccessoryState υ) :
    Except Fault (AccessoryState υ) :=
  match (s.database.characteristic ch).setterEx with
  | some g => callSetter sketch g ch v s
  | none =>
    if v.format.isPointer then
      match homekitValueDestruct (s.database.characteristic ch).value with
      | .error e => .error e
      | .ok () => (homekitValueCopy v).map (fun copy => s.setValue ch copy)
    else .ok (s.setValue ch v)

/-- A change of every value that the accessory side holds. -/
def AccessoryState.mapValues (f : HomekitValue → HomekitValue) (s : AccessoryState υ) : AccessoryState υ :=
  { s with
    database := { s.database with
      characteristic := fun ch => { s.database.characteristic ch with value := f (s.database.characteristic ch).value } }
    eventQueue := fun c => { s.eventQueue c with
      queue := fun i => { (s.eventQueue c).queue i with value := f ((s.eventQueue c).queue i).value } } }

/-- What a pointer to the list of the request leads to once the list is freed. -/
def HomekitValue.freeList (found : List Tlv) (v : HomekitValue) : HomekitValue :=
  match v.union with
  | .tlvValues (.block .request _) => { v with union := .tlvValues (.block .freed found) }
  | _ => v

/-- What a pointer to a string of the request leads to once the request is freed. -/
def HomekitValue.freeString (found : Bytes) (v : HomekitValue) : HomekitValue :=
  match v.union with
  | .string (.block .request _) => { v with union := .string (.block .freed found) }
  | _ => v

/-- tlv_free comes before the notification, whatever still points to the list. -/
def freeWritten (rt : Runtime) (x : Characteristic) (v : HomekitValue) (s : AccessoryState υ) :
    HomekitValue × AccessoryState υ :=
  if x.format = .tlv then (v.freeList (rt.freedList s.now), s.mapValues (HomekitValue.freeList (rt.freedList s.now)))
  else (v, s)

/-- The notification of a written value, during which it is marked as the client's own. -/
def notifyWritten (sketch : Sketch υ) (c : ClientId) (ch : CharacteristicId) (v : HomekitValue) (s : AccessoryState υ) :
    Except Fault (AccessoryState υ) :=
  if v.isNull then .ok s
  else
    (homekitCharacteristicNotify sketch
      { s with
        currentCharacteristic := Function.update s.currentCharacteristic c (some ch)
        currentValue := Function.update s.currentValue c (some v) } ch v).map
      (fun s => { s with
        currentCharacteristic := Function.update s.currentCharacteristic c none
        currentValue := Function.update s.currentValue c none })

/-- The part of an item with a value. -/
def updateValue (sketch : Sketch υ) (rt : Runtime) (c : ClientId) (ch : CharacteristicId) (j : CJson)
    (s : AccessoryState υ) : Except Fault (AccessoryState υ × HAPStatus) :=
  let x := s.database.characteristic ch
  if hasFlag x.permissions Permissions.pairedWrite = false then .ok (s, .readOnly)
  else
    match writtenValue rt x s.now j with
    | .error e => .error e
    | .ok (.error status) => .ok (s, status)
    | .ok (.ok v) =>
      match storeWritten sketch ch v { s with now := s.now + 1 } with
      | .error e => .error e
      | .ok s =>
        let r := freeWritten rt x v s
        (notifyWritten sketch c ch r.1 r.2).map (fun s => (s, .success))

/-- The part of an item with an event flag; the permissions are not masked. -/
def updateEvents (c : ClientId) (ch : CharacteristicId) (j : CJson) (s : AccessoryState υ) :
    AccessoryState υ × HAPStatus :=
  if (s.database.characteristic ch).permissions = 0 then (s, .notificationsUnsupported)
  else
    match j with
    | .boolean true =>
      ({ s with database := s.database.homekitCharacteristicAddNotifyCallback ch (clientCallback c) }, .success)
    | _ => ({ s with database := s.database.homekitCharacteristicRemoveNotifyCallback ch (clientCallback c) }, .success)

/-- A member that is a number, as an id. -/
def CJson.idItem (rt : Runtime) (name : String) (j : CJson) : Option UInt32 :=
  match j.getObjectItem (ascii name) with
  | some (number d) => some (UInt32.ofNat (toUnsigned rt 32 d))
  | _ => none

/-- The characteristic that an item names. -/
def itemCharacteristic (rt : Runtime) (db : Database) (j : CJson) : Option CharacteristicId :=
  match j.idItem rt "aid", j.idItem rt "iid" with
  | some aid, some iid => homekitCharacteristicByAidAndIid db aid iid
  | _, _ => none

/-- The value of an item, if it has one. -/
def updateItemValue (sketch : Sketch υ) (rt : Runtime) (c : ClientId) (ch : CharacteristicId) (j : CJson)
    (s : AccessoryState υ) : Except Fault (AccessoryState υ × HAPStatus) :=
  match j.getObjectItem (ascii "value") with
  | some value => updateValue sketch rt c ch value s
  | none => .ok (s, .success)

def processCharacteristicsUpdate (sketch : Sketch υ) (rt : Runtime) (c : ClientId) (j : CJson) (s : AccessoryState υ) :
    Except Fault (AccessoryState υ × HAPStatus) :=
  match itemCharacteristic rt s.database j with
  | none => .ok (s, .noResource)
  | some ch =>
    match updateItemValue sketch rt c ch j s with
    | .error e => .error e
    | .ok (s, .success) =>
      match j.getObjectItem (ascii "ev") with
      | some events => .ok (updateEvents c ch events s)
      | none => .ok (s, .success)
    | .ok (s, status) => .ok (s, status)

end ArduinoHomeKit
