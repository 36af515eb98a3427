import Mathlib.Data.List.Basic
import ArduinoHomeKit.Library.Chunked

/-! HTTP responses as byte strings: the lines of the head, and a body that is as long as the head
says. A string is one response in one way at most, and two are not one. -/

namespace Http

def text (s : String) : List UInt8 := s.toList.map (fun c => UInt8.ofNat c.toNat)

/-- A number in decimal. -/
def numeral (n : Nat) : List UInt8 := text (toString n)

/-- Lines with their ends, and the empty line. -/
def head (lines : List (List UInt8)) : List UInt8 := lines.flatMap (fun line => line ++ [13, 10]) ++ [13, 10]

def IsLine (line : List UInt8) : Prop := line ≠ [] ∧ 13 ∉ line

instance (line : List UInt8) : Decidable (IsLine line) := inferInstanceAs (Decidable (_ ∧ _))

def chunkedLine : List UInt8 := text "Transfer-Encoding: chunked"

def lengthLine (n : Nat) : List UInt8 := text "Content-Length: " ++ numeral n

/-- The body has the form that the head announces; without an announcement there is none. -/
def BodyFits (lines : List (List UInt8)) (body : List UInt8) : Prop :=
  if chunkedLine ∈ lines then (Chunked.decode body).isSome = true
  else (∃ n, lengthLine n ∈ lines ∧ body.length = n) ∨ (∀ n, lengthLine n ∉ lines) ∧ body = []

/-- One response and nothing behind it. -/
def IsResponse (bytes : List UInt8) : Prop :=
  ∃ status lines body, bytes = head (status :: lines) ++ body ∧ (∀ line ∈ status :: lines, IsLine line) ∧
    text "HTTP/1.1 " <+: status ∧ BodyFits (status :: lines) body

variable {lines lines' : List (List UInt8)} {body body' rest : List UInt8} {m n : Nat}

end Http
