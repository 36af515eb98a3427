import Mathlib.Data.Nat.Digits.Lemmas
import Mathlib.Data.List.Basic

/-! The chunked transfer coding: hexadecimal sizes, the bytes of a chunk, and a reader of whole
bodies. -/

namespace Chunked

/-- The lower case digit. -/
def hexDigit (d : Nat) : UInt8 := UInt8.ofNat (if d < 10 then 48 + d else 87 + d)

/-- What "%x" prints. -/
def hexNumeral (n : Nat) : List UInt8 := if n = 0 then [48] else ((Nat.digits 16 n).map hexDigit).reverse

def hexValue (b : UInt8) : Option Nat :=
  if 48 ≤ b ∧ b ≤ 57 then some (b.toNat - 48)
  else if 97 ≤ b ∧ b ≤ 102 then some (b.toNat - 87)
  else if 65 ≤ b ∧ b ≤ 70 then some (b.toNat - 55)
  else none

def crlf : List UInt8 := [13, 10]

def encodeChunk (data : List UInt8) : List UInt8 := hexNumeral data.length ++ crlf ++ data ++ crlf

/-- The digits of a size up to the end of their line, behind the number read so far, if any. -/
def readSize : Option Nat → List UInt8 → Option (Nat × List UInt8)
  | _, [] => none
  | acc, b :: rest =>
    match hexValue b with
    | some d => readSize (some (acc.getD 0 * 16 + d)) rest
    | none => if (b :: rest).take 2 = crlf then acc.map (fun n => (n, rest.drop 1)) else none

/-- The data of a body that ends with the chunk of size 0. -/
def decodeFrom : Nat → List UInt8 → Option (List UInt8)
  | 0, _ => none
  | fuel + 1, body =>
    match readSize none body with
    | none => none
    | some (n, rest) =>
      if n = 0 then if rest = crlf then some [] else none
      else if n ≤ rest.length ∧ (rest.drop n).take 2 = crlf then
        (decodeFrom fuel (rest.drop (n + 2))).map (rest.take n ++ ·)
      else none

def decode (body : List UInt8) : Option (List UInt8) := decodeFrom body.length body

theorem hexValue_hexDigit {d : Nat} (h : d < 16) : hexValue (hexDigit d) = some d := by
  have hall : ∀ d : Fin 16, hexValue (hexDigit d) = some d.val := by decide
  exact hall ⟨d, h⟩

/-- A digit at a time, the first one counting most. -/
def hexFold (acc : Nat) (ds : List Nat) : Nat := ds.foldl (fun n d => n * 16 + d) acc

theorem hexFold_reverse (ds : List Nat) : hexFold 0 ds.reverse = Nat.ofDigits 16 ds := by
  induction ds with
  | nil => rfl
  | cons d ds ih =>
    rw [hexFold, List.reverse_cons, List.foldl_append, List.foldl_cons, List.foldl_nil, ← hexFold, ih, Nat.ofDigits_cons]
    omega

theorem readSize_digits (ds : List Nat) (h : ∀ d ∈ ds, d < 16) (acc : Option Nat) (hne : ds ≠ [] ∨ acc.isSome)
    (rest : List UInt8) :
    readSize acc (ds.map hexDigit ++ crlf ++ rest) = some (hexFold (acc.getD 0) ds, rest) := by
  induction ds generalizing acc with
  | nil =>
    obtain ⟨n, rfl⟩ : ∃ n, acc = some n := Option.isSome_iff_exists.mp (hne.resolve_left (fun h => h rfl))
    rfl
  | cons d ds ih =>
    obtain ⟨hd, hds⟩ := List.forall_mem_cons.mp h
    rw [List.map_cons, List.cons_append, List.cons_append, readSize, hexValue_hexDigit hd]
    exact ih hds _ (Or.inr rfl)

/-- The size of a chunk is read back. -/
theorem readSize_hexNumeral (n : Nat) (rest : List UInt8) :
    readSize none (hexNumeral n ++ crlf ++ rest) = some (n, rest) := by
  by_cases hn : n = 0
  · subst hn
    rfl
  · have hlt : ∀ d ∈ (Nat.digits 16 n).reverse, d < 16 := fun d hd =>
      Nat.digits_lt_base (by omega) (List.mem_reverse.mp hd)
    have hne : (Nat.digits 16 n).reverse ≠ [] := by
      simpa using Nat.digits_ne_nil_iff_ne_zero.mpr hn
    rw [hexNumeral, if_neg hn, ← List.map_reverse, readSize_digits _ hlt none (Or.inl hne), Option.getD_none,
      hexFold_reverse, Nat.ofDigits_digits]

theorem hexNumeral_length_pos (n : Nat) : 0 < (hexNumeral n).length := by
  rw [hexNumeral]
  split
  · exact Nat.one_pos
  · rename_i hn
    rw [List.length_reverse, List.length_map]
    exact List.length_pos_of_ne_nil (Nat.digits_ne_nil_iff_ne_zero.mpr hn)

theorem hexNumeral_length_le {n k : Nat} (hk : 0 < k) (h : n < 16 ^ k) : (hexNumeral n).length ≤ k := by
  rw [hexNumeral]
  split
  · exact hk
  · rw [List.length_reverse, List.length_map]
    exact (Nat.digits_length_le_iff (by omega) n).mpr h

theorem decodeFrom_chunks (chunks : List (List UInt8)) (hne : ∀ data ∈ chunks, data ≠ []) (fuel : Nat)
    (hf : chunks.length < fuel) :
    decodeFrom fuel ((chunks.map encodeChunk).flatten ++ encodeChunk []) = some chunks.flatten := by
  induction chunks generalizing fuel with
  | nil =>
    obtain ⟨fuel, rfl⟩ : ∃ k, fuel = k + 1 := ⟨fuel - 1, by simp at hf; omega⟩
    rfl
  | cons data chunks ih =>
    obtain ⟨hd, hchunks⟩ := List.forall_mem_cons.mp hne
    rw [List.length_cons] at hf
    obtain ⟨fuel, rfl⟩ : ∃ k, fuel = k + 1 := ⟨fuel - 1, by omega⟩
    have hpos : data.length ≠ 0 := by simpa using hd
    have hbody : (((data :: chunks).map encodeChunk).flatten ++ encodeChunk []) =
        hexNumeral data.length ++ crlf ++ (data ++ (crlf ++ ((chunks.map encodeChunk).flatten ++ encodeChunk []))) := by
      simp only [List.map_cons, List.flatten_cons, encodeChunk, List.append_assoc]
    have hcut : (data ++ (crlf ++ ((chunks.map encodeChunk).flatten ++ encodeChunk []))).drop (data.length + 2) =
        (chunks.map encodeChunk).flatten ++ encodeChunk [] := by
      rw [← List.drop_drop, List.drop_left]
      rfl
    rw [hbody, decodeFrom, readSize_hexNumeral]
    dsimp only
    rw [if_neg hpos, hcut, if_pos ⟨by simp, by rw [List.drop_left]; rfl⟩, ih hchunks fuel (by omega), List.take_left]
    rfl

/-- What was sent in nonempty chunks, and closed by an empty one, is read back. -/
theorem decode_chunks (chunks : List (List UInt8)) (hne : ∀ data ∈ chunks, data ≠ []) :
    decode ((chunks.map encodeChunk).flatten ++ encodeChunk []) = some chunks.flatten := by
  refine decodeFrom_chunks chunks hne _ ?_
  have hsum : chunks.length ≤ (chunks.map encodeChunk).flatten.length := by
    induction chunks with
    | nil => exact Nat.le_refl 0
    | cons data chunks ih =>
      have := ih (List.forall_mem_cons.mp hne).2
      have := hexNumeral_length_pos data.length
      simp only [List.map_cons, List.flatten_cons, List.length_append, List.length_cons, encodeChunk]
      omega
  have hlast : (encodeChunk []).length = 5 := rfl
  rw [List.length_append, hlast]
  omega

end Chunked
