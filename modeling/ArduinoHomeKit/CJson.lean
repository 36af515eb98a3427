import Mathlib.Data.Rat.Floor
import ArduinoHomeKit.Accessories

/-! The trees of the vendored JSON parser, the numbers in them, and what the compiler and
the memory decide: floating point, uninitialised values and freed blocks. -/

namespace ArduinoHomeKit

/-- A double, by its exact value. In a cJSON item it is what `strtod` has rounded the text to. -/
inductive Double
  | finite (q : ℚ)
  | infinite (negative : Bool)
  | nan
  deriving DecidableEq

namespace Double

/-- The operator `<`; no comparison with NaN holds. -/
def lt : Double → Double → Bool
  | finite p, finite q => decide (p < q)
  | finite _, infinite negative => !negative
  | infinite negative, finite _ => negative
  | infinite a, infinite b => a && !b
  | nan, _ => false
  | _, nan => false

/-- The operator `≤`. -/
def le : Double → Double → Bool
  | finite p, finite q => decide (p ≤ q)
  | finite _, infinite negative => !negative
  | infinite negative, finite _ => negative
  | infinite a, infinite b => a || !b
  | nan, _ => false
  | _, nan => false

/-- Conversion to an integer drops the fraction. -/
def truncate? : Double → Option Int
  | finite q => some (q.num.tdiv q.den)
  | infinite _ => none
  | nan => none

def ofInt (n : Int) : Double := finite n

end Double

/-- A float as a double, from its bit pattern. -/
def floatToDouble (f : Nat) : Double :=
  let negative : Bool := f / 2 ^ 31 % 2 == 1
  let exponent : Nat := f / 2 ^ 23 % 256
  let fraction : Nat := f % 2 ^ 23
  let magnitude : ℚ :=
    if exponent = 0 then (fraction : ℚ) / 2 ^ 149
    else if 150 ≤ exponent then ((2 ^ 23 + fraction) * 2 ^ (exponent - 150) : Nat)
    else ((2 ^ 23 + fraction : Nat) : ℚ) / 2 ^ (150 - exponent)
  if exponent = 255 then if fraction = 0 then .infinite negative else .nan
  else .finite (if negative then -magnitude else magnitude)

/-- cJSON. The strings are the bytes in front of the terminating NUL, which may hold a NUL. -/
inductive CJson
  | null
  | boolean (b : Bool)
  | number (valuedouble : Double)
  | string (valuestring : Bytes)
  | array (items : List CJson)
  | object (members : List (Bytes × CJson))

/-- The field valueint of a number. -/
def valueInt (d : Double) : Int :=
  if (Double.ofInt 2147483647).le d then 2147483647
  else if d.le (Double.ofInt (-2147483648)) then -2147483648
  else d.truncate?.getD 0

def toLower (b : UInt8) : UInt8 := if 65 ≤ b ∧ b ≤ 90 then b + 32 else b

/-- cJSON_GetObjectItem; the names are compared without case. -/
def CJson.getObjectItem (name : Bytes) : CJson → Option CJson
  | object members =>
    (members.find? (fun m => (CString.strdup m.1).map toLower == name.map toLower)).map Prod.snd
  | _ => none

/-- The bits of a homekit_value_t that nobody initialised. -/
structure Uninitialised where
  isNull : Bool
  isStatic : Bool
  word : Nat

/-- What the model of the code leaves to the platform, by the number of the block or value. -/
structure Runtime where
  cJSONParse : Bytes → Option CJson
  /-- The float nearest to a double. -/
  toFloat : Double → Nat
  /-- The text of a float in the format "%1.15g". -/
  printFloat : Nat → Bytes
  /-- The unsigned integer of a width that a double out of its range is converted to. -/
  outOfRange : Nat → Double → Nat
  stack : Nat → Uninitialised
  heap : Nat → Nat → UInt8
  /-- The memory in front of a string of the parser. -/
  before : Nat → Nat → UInt8
  freedList : Nat → List Tlv
  freedString : Nat → Bytes

/-- Conversion of a double to an unsigned integer. -/
def toUnsigned (rt : Runtime) (width : Nat) (d : Double) : Nat :=
  match d.truncate? with
  | some n => if 0 ≤ n ∧ n < 2 ^ width then n.toNat else rt.outOfRange width d % 2 ^ width
  | none => rt.outOfRange width d % 2 ^ width

/-- Conversion of a double to an int. -/
def toInt (rt : Runtime) (d : Double) : Int :=
  match d.truncate? with
  | some n => if -2 ^ 31 ≤ n ∧ n < 2 ^ 31 then n else (rt.outOfRange 32 d : Int).bmod (2 ^ 32)
  | none => (rt.outOfRange 32 d : Int).bmod (2 ^ 32)

end ArduinoHomeKit
