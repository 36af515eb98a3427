import ArduinoHomeKit.Base64
import ArduinoHomeKit.CJson
import ArduinoHomeKit.JsonStream

/-! The JSON of a characteristic and of the whole accessory database, as the calls that
the server makes on the stream. -/

namespace ArduinoHomeKit

variable {υ : Type}

def homekitJsonBufferSize : Nat := 512

-- characteristic_format_t
namespace CharacteristicFormat
def type : Nat := 2
def metadata : Nat := 4
def perms : Nat := 8
def events : Nat := 16
end CharacteristicFormat

def key (name : String) : JsonCall := .string (ascii name)

def permissionNames : List (Nat × String) :=
  [(Permissions.pairedRead, "pr"), (Permissions.pairedWrite, "pw"), (Permissions.notify, "ev"),
    (Permissions.additionalAuthorization, "aa"), (Permissions.timedWrite, "tw"), (Permissions.hidden, "hd")]

def permissionsCalls (permissions : Nat) : List JsonCall :=
  permissionNames.flatMap (fun p => if hasFlag permissions p.1 then [.string (ascii p.2)] else [])

def formatText : Format → Bytes
  | .bool => ascii "bool"
  | .uint8 => ascii "uint8"
  | .uint16 => ascii "uint16"
  | .uint32 => ascii "uint32"
  | .uint64 => ascii "uint64"
  | .int => ascii "int"
  | .float => ascii "float"
  | .string => ascii "string"
  | .tlv => ascii "tlv8"
  | .data => ascii "data"

def unitText : Units → Option Bytes
  | .none => none
  | .celsius => some (ascii "celsius")
  | .percentage => some (ascii "percentage")
  | .arcdegrees => some (ascii "arcdegrees")
  | .lux => some (ascii "lux")
  | .seconds => some (ascii "seconds")

/-- A key with its value, when there is one. -/
def optionalCalls {α : Type} (name : String) (call : α → JsonCall) : Option α → List JsonCall
  | some a => [key name, call a]
  | none => []

/-- An int passed as an unsigned integer. -/
def asUint32 (n : Int) : UInt32 := UInt32.ofNat (n % 2 ^ 32).toNat

def rangeCalls (r : UInt8 × UInt8) : List JsonCall :=
  [.arrayStart, jsonInteger r.1.toNat, jsonInteger r.2.toNat, .arrayEnd]

def metaCalls (rt : Runtime) (x : Characteristic) : List JsonCall :=
  optionalCalls "description" .string x.description ++
  [key "format", .string (formatText x.format)] ++
  optionalCalls "unit" .string (unitText x.unit) ++
  optionalCalls "minValue" (fun f => jsonFloat (rt.printFloat f)) x.minValue ++
  optionalCalls "maxValue" (fun f => jsonFloat (rt.printFloat f)) x.maxValue ++
  optionalCalls "minStep" (fun f => jsonFloat (rt.printFloat f)) x.minStep ++
  optionalCalls "maxLen" (fun n => jsonUint32 (asUint32 n)) x.maxLen ++
  optionalCalls "maxDataLen" (fun n => jsonUint32 (asUint32 n)) x.maxDataLen ++
  (if x.validValues = [] then []
    else key "valid-values" :: .arrayStart ::
      (x.validValues.map (fun v => jsonUint16 v.toUInt16) ++ [.arrayEnd])) ++
  (if x.validValuesRanges = [] then []
    else key "valid-values-range" :: .arrayStart ::
      (x.validValuesRanges.flatMap rangeCalls ++ [.arrayEnd]))

/-- The calls of write_characteristic_json before the value. -/
def characteristicHeadCalls (rt : Runtime) (db : Database) (client : ClientId) (ch : CharacteristicId)
    (format : Nat) : List JsonCall :=
  let x := db.characteristic ch
  [key "aid", jsonUint32 (db.accessory (db.service x.service).accessory).id, key "iid", jsonUint32 x.id] ++
  (if hasFlag format CharacteristicFormat.type then [key "type", .string x.type] else []) ++
  (if hasFlag format CharacteristicFormat.perms
    then key "perms" :: .arrayStart :: (permissionsCalls x.permissions ++ [.arrayEnd]) else []) ++
  (if hasFlag format CharacteristicFormat.events && hasFlag x.permissions Permissions.notify
    then [key "ev", .boolean (db.homekitCharacteristicHasNotifyCallback ch (clientCallback client))] else []) ++
  (if hasFlag format CharacteristicFormat.metadata then metaCalls rt x else [])

/-- What "%s" prints for a string value. -/
def stringText (v : HomekitValue) : Bytes :=
  match v.union.stringValue with
  | .null => ascii "(null)"
  | .block _ s => CString.strdup s

/-- The buffer has the size that tlv_format asks for. -/
def tlvText (v : HomekitValue) : Bytes :=
  match v.union.tlvList with
  | .null => []
  | .block _ l => base64Encode ((tlvFormat l).take (tlvFormatSize l))

def dataText (v : HomekitValue) : Bytes :=
  match v.union.dataValue with
  | .null => []
  | .block _ d => base64Encode (d.take v.union.dataSize)

def scalarCall (rt : Runtime) (v : HomekitValue) : JsonCall :=
  match v.format with
  | .bool => .boolean v.boolValue
  | .uint8 => jsonUint8 v.uint8Value
  | .uint16 => jsonUint16 v.uint16Value
  | .uint32 => jsonUint32 v.uint32Value
  | .uint64 => jsonUint64 v.uint64Value
  | .int => jsonInteger v.intValue
  | .float => jsonFloat (rt.printFloat v.floatBits)
  | .string => .string (stringText v)
  | .tlv => .string (tlvText v)
  | .data => .string (dataText v)

/-- A value of another format than its characteristic's is not written. -/
def valueCalls (rt : Runtime) (x : Characteristic) (v : HomekitValue) : List JsonCall :=
  if v.isNull then [key "value", .null]
  else if v.format ≠ x.format then []
  else [key "value", scalarCall rt v]

/-- ch->getter_ex ? ch->getter_ex(ch) : ch->value. What a getter returned is freed once it is
written. -/
def readValue (sketch : Sketch υ) (ch : CharacteristicId) (s : AccessoryState υ) :
    Except Fault (AccessoryState υ × HomekitValue) :=
  match (s.database.characteristic ch).getterEx with
  | some g =>
    match callGetter sketch g ch s with
    | .error e => .error e
    | .ok r => (homekitValueDestruct r.2).map (fun _ => r)
  | none => .ok (s, (s.database.characteristic ch).value)

def writeCharacteristicJson (sketch : Sketch υ) (rt : Runtime) (client : ClientId) (format : Nat)
    (ch : CharacteristicId) (value : Option HomekitValue) (s : AccessoryState υ) :
    Except Fault (AccessoryState υ × List JsonCall) :=
  let head := characteristicHeadCalls rt s.database client ch format
  if hasFlag (s.database.characteristic ch).permissions Permissions.pairedRead = false then .ok (s, head)
  else
    match value with
    | some v => .ok (s, head ++ valueCalls rt (s.database.characteristic ch) v)
    | none =>
      (readValue sketch ch s).map
        (fun r => (r.1, head ++ valueCalls rt (r.1.database.characteristic ch) r.2))

/-- A loop that makes calls for every element of a list. -/
def loopCalls {ι : Type} (body : ι → AccessoryState υ → Except Fault (AccessoryState υ × List JsonCall)) :
    List ι → AccessoryState υ → Except Fault (AccessoryState υ × List JsonCall)
  | [], s => .ok (s, [])
  | i :: l, s =>
    match body i s with
    | .error e => .error e
    | .ok (s, calls) => (loopCalls body l s).map (fun r => (r.1, calls ++ r.2))

/-- An object whose members are written by `body`. -/
def inObject (body : Except Fault (AccessoryState υ × List JsonCall)) :
    Except Fault (AccessoryState υ × List JsonCall) :=
  body.map (fun r => (r.1, .objectStart :: (r.2 ++ [.objectEnd])))

/-- Calls, and behind them an array written by `body`. -/
def withArray (head : List JsonCall) (body : Except Fault (AccessoryState υ × List JsonCall)) :
    Except Fault (AccessoryState υ × List JsonCall) :=
  body.map (fun r => (r.1, head ++ .arrayStart :: (r.2 ++ [.arrayEnd])))

/-- The details that /accessories asks for. -/
def accessoriesFormat : Nat :=
  CharacteristicFormat.type ||| CharacteristicFormat.metadata ||| CharacteristicFormat.perms |||
    CharacteristicFormat.events

def linkedCalls (db : Database) : Option (List ServiceId) → List JsonCall
  | some l => key "linked" :: .arrayStart :: (l.map (fun i => jsonUint32 (db.service i).id) ++ [.arrayEnd])
  | none => []

def serviceHeadCalls (db : Database) (x : Service) : List JsonCall :=
  [key "iid", jsonUint32 x.id, key "type", .string x.type, key "hidden", .boolean x.hidden,
    key "primary", .boolean x.primary] ++ linkedCalls db x.linked ++ [key "characteristics"]

def serviceCalls (sketch : Sketch υ) (rt : Runtime) (client : ClientId) (i : ServiceId) (s : AccessoryState υ) :
    Except Fault (AccessoryState υ × List JsonCall) :=
  inObject (withArray (serviceHeadCalls s.database (s.database.service i))
    (loopCalls (fun ch s => inObject (writeCharacteristicJson sketch rt client accessoriesFormat ch none s))
      (s.database.service i).characteristics s))

def accessoryCalls (sketch : Sketch υ) (rt : Runtime) (client : ClientId) (i : AccessoryId) (s : AccessoryState υ) :
    Except Fault (AccessoryState υ × List JsonCall) :=
  inObject (withArray [key "aid", jsonUint32 (s.database.accessory i).id, key "services"]
    (loopCalls (serviceCalls sketch rt client) (s.database.accessory i).services s))

/-- The calls that homekit_server_on_get_accessories makes on the stream. -/
def getAccessoriesCalls (sketch : Sketch υ) (rt : Runtime) (client : ClientId) (s : AccessoryState υ) :
    Except Fault (AccessoryState υ × List JsonCall) :=
  inObject (withArray [key "accessories"]
    (loopCalls (accessoryCalls sketch rt client) s.database.accessories s))

theorem readValue_shape {sketch : Sketch υ} {ch : CharacteristicId} {s : AccessoryState υ}
    {r : AccessoryState υ × HomekitValue} (h : readValue sketch ch s = .ok r) : SameShape s.database r.1.database := by
  rw [readValue] at h
  cases hg : (s.database.characteristic ch).getterEx with
  | none =>
    simp only [hg, Except.ok.injEq] at h
    exact h ▸ .refl s.database
  | some g =>
    simp only [hg] at h
    cases hc : callGetter sketch g ch s with
    | error e => simp [hc] at h
    | ok r' =>
      simp only [hc] at h
      obtain ⟨_, _, rfl⟩ := map_eq_ok.mp h
      exact callGetter_shape hc

end ArduinoHomeKit
