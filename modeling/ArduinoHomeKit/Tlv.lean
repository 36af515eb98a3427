import ArduinoHomeKit.Crypto

/-! TLV8 messages as in tlv.c. A buffer is a function from indices to bytes, because
the parser looks at bytes past the length it is given. -/

namespace ArduinoHomeKit

/-- tlv_t. An empty value is a NULL pointer with size 0. -/
structure Tlv where
  type : UInt8
  value : Bytes
  deriving DecidableEq

namespace TLVType
def method : UInt8 := 0
def identifier : UInt8 := 1
def salt : UInt8 := 2
def publicKey : UInt8 := 3
def proof : UInt8 := 4
def encryptedData : UInt8 := 5
def state : UInt8 := 6
def error : UInt8 := 7
def signature : UInt8 := 10
def permissions : UInt8 := 11
def separator : UInt8 := 0xff
end TLVType

namespace TLVMethod
def addPairing : Int := 3
def removePairing : Int := 4
def listPairings : Int := 5
end TLVMethod

inductive TLVError
  | unknown
  | authentication
  | maxPeers
  | unavailable
  | busy
  deriving DecidableEq

def TLVError.code : TLVError → Int
  | unknown => 1
  | authentication => 2
  | maxPeers => 4
  | unavailable => 6
  | busy => 7

def tlvAddIntegerValue (type : UInt8) (size : Nat) (value : Int) : Tlv :=
  { type := type, value := (List.range size).map (fun i : Nat => UInt8.ofNat ((value >>> (8 * i)) % 256).toNat) }

def tlvGetValue (values : List Tlv) (type : UInt8) : Option Tlv :=
  values.find? (fun t => t.type == type)

/-- The bytes are added up little-endian in a 32-bit signed int. -/
def tlvGetIntegerValue (values : List Tlv) (type : UInt8) (default : Int) : Int :=
  match tlvGetValue values type with
  | none => default
  | some t => (t.value.foldr (fun b x => x * 256 + (b.toNat : Int)) 0).bmod (2 ^ 32)

/-- The fragments of one value, at most 255 bytes each. -/
def tlvFragments (type : UInt8) : Nat → Bytes → Bytes
  | 0, _ => []
  | fuel + 1, data =>
    if data = [] then []
    else
      let chunk := data.take 255
      type :: UInt8.ofNat chunk.length :: chunk ++ tlvFragments type fuel (data.drop 255)

def tlvFormatValue (t : Tlv) : Bytes :=
  if t.value = [] then [t.type, 0] else tlvFragments t.type t.value.length t.value

/-- What tlv_format writes. -/
def tlvFormat (values : List Tlv) : Bytes := values.flatMap tlvFormatValue

/-- The size tlv_format asks for. -/
def tlvFormatSize (values : List Tlv) : Nat :=
  (values.map (fun t => t.value.length + 2 * ((t.value.length + 254) / 255))).sum

/-- The scan over the full fragments of one type: the index after them, their total size. -/
def tlvScan (buffer : Nat → UInt8) (length : Nat) (type : UInt8) : Nat → Nat → Nat → Nat × Nat
  | 0, j, size => (j, size)
  | fuel + 1, j, size =>
    if j < length ∧ buffer j = type ∧ buffer (j + 1) = 255 then
      tlvScan buffer length type fuel (j + 257) (size + 255)
    else (j, size)

/-- The copy loop: the data gathered and the index after it. -/
def tlvCopy (buffer : Nat → UInt8) : Nat → Nat → Nat → Bytes × Nat
  | 0, i, _ => ([], i)
  | fuel + 1, i, remaining =>
    if remaining = 0 then ([], i)
    else
      let chunkSize := (buffer (i + 1)).toNat
      let rest := tlvCopy buffer fuel (i + chunkSize + 2) (remaining - chunkSize)
      ((List.range chunkSize).map (fun k => buffer (i + 2 + k)) ++ rest.1, rest.2)

/-- The outer loop. An empty value adds an entry and leaves the index where it was. -/
def tlvParseLoop (buffer : Nat → UInt8) (length : Nat) :
    Nat → Nat → List Tlv → Except Fault (List Tlv)
  | 0, _, _ => .error .endlessLoop
  | fuel + 1, i, values =>
    if i < length then
      let type := buffer i
      let (j, scanned) := tlvScan buffer length type length i 0
      let size := if j < length ∧ buffer j = type then scanned + (buffer (j + 1)).toNat else scanned
      if size ≠ 0 then
        let (data, next) := tlvCopy buffer (size + 1) i size
        tlvParseLoop buffer length fuel next (values ++ [{ type := type, value := data }])
      else tlvParseLoop buffer length fuel i (values ++ [{ type := type, value := [] }])
    else .ok values

/-- Every round with a nonempty value moves the index, so one round more than there are
bytes shows whether the loop ends. -/
def tlvParse (buffer : Nat → UInt8) (length : Nat) : Except Fault (List Tlv) :=
  tlvParseLoop buffer length (length + 1) 0 []

/-- A buffer that holds the data, followed by whatever lies behind it in memory. -/
def bufferOf (data : Bytes) (behind : Nat → UInt8) : Nat → UInt8 := fun i =>
  if i < data.length then data.getD i 0 else behind (i - data.length)

end ArduinoHomeKit
