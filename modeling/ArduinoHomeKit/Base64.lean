import ArduinoHomeKit.Server

/-! base64.c. -/

namespace ArduinoHomeKit

def base64Chars : Bytes := ascii "ABCDEFGHIJKLMNOPQRSTUVWXYZabcdefghijklmnopqrstuvwxyz0123456789+/"

def base64EncodeChar (c : Nat) : UInt8 := base64Chars.getD c 0

/-- The padding counts as 64, and any other character as 0. -/
def base64DecodeChar (c : UInt8) : Nat :=
  let n := c.toNat
  if 65 ≤ n ∧ n ≤ 90 then n - 65
  else if 97 ≤ n ∧ n ≤ 122 then n - 97 + 26
  else if 48 ≤ n ∧ n ≤ 57 then n - 48 + 52
  else if n = 43 then 62
  else if n = 47 then 63
  else if n = 61 then 64
  else 0

def base64EncodedSize (size : Nat) : Nat := (size + 2) / 3 * 4

/-- The byte `back` places before the end of the text; `before` lists the memory in front of
the text, from the nearest byte on. -/
def byteFromEnd (before : Nat → UInt8) (encoded : Bytes) (back : Nat) : UInt8 :=
  if back ≤ encoded.length then encoded.getD (encoded.length - back) 0
  else before (back - encoded.length - 1)

/-- The decrement of a size_t. -/
def decrementSize (size : Nat) : Nat := if size = 0 then 2 ^ 32 - 1 else size - 1

def base64DecodedSize (before : Nat → UInt8) (encoded : Bytes) : Nat :=
  let size := (encoded.length + 3) / 4 * 3
  let size := if byteFromEnd before encoded 1 = 61 then decrementSize size else size
  if byteFromEnd before encoded 2 = 61 then decrementSize size else size

def base64Encode : Bytes → Bytes
  | a :: b :: c :: rest =>
    base64EncodeChar (a.toNat / 4) :: base64EncodeChar (a.toNat % 4 * 16 + b.toNat / 16) ::
      base64EncodeChar (b.toNat % 16 * 4 + c.toNat / 64) :: base64EncodeChar (c.toNat % 64) ::
      base64Encode rest
  | [a, b] =>
    [base64EncodeChar (a.toNat / 4), base64EncodeChar (a.toNat % 4 * 16 + b.toNat / 16),
      base64EncodeChar (b.toNat % 16 * 4), 61]
  | [a] => [base64EncodeChar (a.toNat / 4), base64EncodeChar (a.toNat % 4 * 16), 61, 61]
  | [] => []

/-- The bytes written for the blocks of four characters; padding ends the loop. -/
def base64DecodeBlocks : Bytes → Bytes
  | a :: b :: c :: d :: rest =>
    let block0 := base64DecodeChar a
    let block1 := base64DecodeChar b
    let block2 := base64DecodeChar c
    let block3 := base64DecodeChar d
    UInt8.ofNat (block0 * 4 + block1 / 16) ::
      if block2 = 64 then []
      else
        UInt8.ofNat (block1 % 16 * 16 + block2 / 4) ::
          if block3 = 64 then [] else UInt8.ofNat (block2 % 4 * 64 + block3) :: base64DecodeBlocks rest
  | _ => []

/-- base64_decode_, with the bytes it writes. -/
def base64Decode (encoded : Bytes) : Option Bytes :=
  if encoded.length % 4 ≠ 0 then none else some (base64DecodeBlocks encoded)

end ArduinoHomeKit
