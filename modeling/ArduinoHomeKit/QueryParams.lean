import ArduinoHomeKit.Crypto
import ArduinoHomeKit.Library.CString

/-! The query of a request, as in query_params.c. -/

namespace ArduinoHomeKit

/-- query_param_t without its link; a parameter may come without a value. -/
structure QueryParam where
  name : Bytes
  value : Option Bytes
  deriving DecidableEq

/-- A delimiter in front of which the scan for a name stops, or for a value. -/
def endsName (b : UInt8) : Bool := b == 0 || b == 61 || b == 38 || b == 35

def endsValue (b : UInt8) : Bool := b == 0 || b == 38 || b == 35

/-- The loop that moves an index to the next delimiter, through as much memory as there is. -/
def scanTo (stop : UInt8 → Bool) (s : Nat → UInt8) : Nat → Nat → Except Fault Nat
  | 0, _ => .error .endlessLoop
  | fuel + 1, i => if stop (s i) then .ok i else scanTo stop s fuel (i + 1)

def substring (s : Nat → UInt8) (pos i : Nat) : Bytes := (List.range (i - pos)).map (fun k => s (pos + k))

/-- The value behind a name that ends at `i`, and where the scan for it stops. -/
def paramValue (s : Nat → UInt8) (fuel i : Nat) : Except Fault (Option Bytes × Nat) :=
  if s i = 61 then
    (scanTo endsValue s fuel (i + 1)).map (fun next =>
      (if next = i + 1 then none else some (substring s (i + 1) next), next))
  else .ok (none, i)

/-- The loop of query_params_parse over the memory `s`; a new parameter goes to the head. An empty
name is skipped with the delimiter behind it, and that may be the terminating NUL. -/
def queryParamsLoop (s : Nat → UInt8) : Nat → Nat → List QueryParam → Except Fault (List QueryParam)
  | 0, _, _ => .error .endlessLoop
  | fuel + 1, pos, params =>
    match scanTo endsName s fuel pos with
    | .error e => .error e
    | .ok i =>
      if i = pos then queryParamsLoop s fuel (i + 1) params
      else
        match paramValue s fuel i with
        | .error e => .error e
        | .ok (value, next) =>
          let params := { name := substring s pos i, value := value } :: params
          if s next = 0 ∨ s next = 35 then .ok params else queryParamsLoop s fuel next params

/-- The memory that a pointer into the RAM can run through. -/
def queryMemory : Nat := 81920

def queryParamsParse (s : Nat → UInt8) : Except Fault (List QueryParam) := queryParamsLoop s queryMemory 0 []

def queryParamsFind (params : List QueryParam) (name : String) : Option QueryParam :=
  params.find? (fun p => CString.strdup p.name == ascii name)

def boolEndpointParam (name : String) (params : List QueryParam) : Bool :=
  match queryParamsFind params name with
  | some param => (param.value.map CString.strdup) == some (ascii "1")
  | none => false

/-! The text of the id parameter. -/

def isSpace (b : UInt8) : Bool := b == 32 || (9 ≤ b && b ≤ 13)

def isDigit (b : UInt8) : Bool := 48 ≤ b && b ≤ 57

/-- atoi: strtol in base 10, which saturates. -/
def atoi (s : Bytes) : Int :=
  let s := s.dropWhile isSpace
  let negative : Bool := s.head? == some 45
  let digits := if negative ∨ s.head? = some 43 then s.tail else s
  let n : Nat := (digits.takeWhile isDigit).foldl (fun n b => 10 * n + (b.toNat - 48)) 0
  if negative then max (-(n : Int)) (-2147483648) else min (n : Int) 2147483647

/-- The strings that strsep returns one after the other. -/
def strsep (delimiter : UInt8) (s : Bytes) : List Bytes := s.splitOn delimiter

/-- A component with a dot: the text in front of the first one, and the text behind it. -/
def splitDot (text : Bytes) : Option (Bytes × Bytes) :=
  match text.dropWhile (· ≠ 46) with
  | [] => none
  | _ :: rest => some (text.takeWhile (· ≠ 46), rest)

end ArduinoHomeKit
