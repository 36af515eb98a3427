import Mathlib.Data.List.GetD
import ArduinoHomeKit.Library.Fragments
import ArduinoHomeKit.TlvParser

/-! tlv_format against tlv_parse: a list of entries is written as its fragments, and the parser puts
fragments together again. The size that is asked for before the list is written. -/

namespace ArduinoHomeKit

open Fragments

variable {buffer : Nat → UInt8} {length i next : Nat} {type : UInt8} {data : Bytes} {values : List Tlv}
  {fragments : List (UInt8 × Bytes)}

/-! Writing. -/

/-- A fragment as it is written. -/
def fragmentBytes (f : UInt8 × Bytes) : Bytes := f.1 :: UInt8.ofNat f.2.length :: f.2

/-- An entry as a labelled value. -/
def Tlv.labelled (t : Tlv) : UInt8 × Bytes := (t.type, t.value)

def Tlv.ofLabelled (v : UInt8 × Bytes) : Tlv := { type := v.1, value := v.2 }

theorem tlvFragments_eq (type : UInt8) (fuel : Nat) (data : Bytes) :
    tlvFragments type fuel data = ((Pieces.cut 255 fuel data).map (fun piece => (type, piece))).flatMap fragmentBytes := by
  induction fuel generalizing data with
  | zero => rfl
  | succ fuel ih =>
    rw [tlvFragments]
    split
    · rename_i h
      rw [h]
      rfl
    · rename_i h
      rw [Pieces.cut_succ h, List.map_cons, List.flatMap_cons, ← ih]
      rfl

theorem tlvFormatValue_eq {t : Tlv} (h : t.value ≠ []) :
    tlvFormatValue t = (split 255 t.labelled).flatMap fragmentBytes := by
  rw [tlvFormatValue, if_neg h, tlvFragments_eq]
  rfl

theorem tlvFormat_eq (h : ∀ t ∈ values, t.value ≠ []) :
    tlvFormat values = ((values.map Tlv.labelled).flatMap (split 255)).flatMap fragmentBytes := by
  induction values with
  | nil => rfl
  | cons t values ih =>
    obtain ⟨ht, hvalues⟩ := List.forall_mem_cons.mp h
    have hrest := ih hvalues
    rw [tlvFormat] at hrest
    rw [tlvFormat, List.flatMap_cons, tlvFormatValue_eq ht, hrest, List.map_cons, List.flatMap_cons, List.flatMap_append]

/-! Parsing. -/

section Parsing

/-- The memory from `i` on begins with the data. -/
def HoldsBytes (buffer : Nat → UInt8) (i : Nat) (data : Bytes) : Prop := ∀ k < data.length, buffer (i + k) = data.getD k 0

theorem holdsBytes_bufferOf (data : Bytes) (behind : Nat → UInt8) : HoldsBytes (bufferOf data behind) 0 data := by
  intro k hk
  rw [Nat.zero_add, bufferOf, if_pos hk]

theorem HoldsBytes.cons {b : UInt8} (h : HoldsBytes buffer i (b :: data)) :
    buffer i = b ∧ HoldsBytes buffer (i + 1) data := by
  refine ⟨h 0 (by simp), fun k hk => ?_⟩
  have hs := h (k + 1) (by simpa using hk)
  rw [Nat.add_assoc, Nat.add_comm 1 k]
  simpa using hs

theorem HoldsBytes.append {rest : Bytes} (h : HoldsBytes buffer i (data ++ rest)) :
    HoldsBytes buffer i data ∧ HoldsBytes buffer (i + data.length) rest := by
  refine ⟨fun k hk => ?_, fun k hk => ?_⟩
  · have hs := h k (by rw [List.length_append]; omega)
    rwa [List.getD_append _ _ _ _ hk] at hs
  · have hs := h (data.length + k) (by rw [List.length_append]; omega)
    rw [List.getD_append_right _ _ _ _ (Nat.le_add_right _ _), Nat.add_sub_cancel_left] at hs
    rwa [Nat.add_assoc]

/-- A fragment that is not empty, of at most 255 bytes. -/
def IsFragment (f : UInt8 × Bytes) : Prop := f.2 ≠ [] ∧ f.2.length ≤ 255

/-- From `i` to the end the buffer holds these fragments. -/
structure FragmentsAt (buffer : Nat → UInt8) (length i : Nat) (fragments : List (UInt8 × Bytes)) : Prop where
  fits : ∀ f ∈ fragments, IsFragment f
  holds : HoldsBytes buffer i (fragments.flatMap fragmentBytes)
  ends : i + (fragments.flatMap fragmentBytes).length = length

/-- The header and the data at the first fragment, and the fragments behind it. -/
theorem FragmentsAt.cons {f : UInt8 × Bytes} (h : FragmentsAt buffer length i (f :: fragments)) :
    i < length ∧ buffer i = f.1 ∧ (buffer (i + 1)).toNat = f.2.length ∧ fragmentData buffer i = f.2 ∧
      FragmentsAt buffer length (afterFragment buffer i) fragments := by
  obtain ⟨hfits, hholds, hends⟩ := h
  obtain ⟨⟨h0, hlen⟩, hfits⟩ := List.forall_mem_cons.mp hfits
  rw [List.flatMap_cons, fragmentBytes, List.cons_append, List.cons_append] at hholds hends
  obtain ⟨htype, hholds⟩ := hholds.cons
  obtain ⟨hsize, hholds⟩ := hholds.cons
  obtain ⟨hdata, hrest⟩ := hholds.append
  have htoNat : (buffer (i + 1)).toNat = f.2.length := by
    rw [hsize, UInt8.toNat_ofNat']
    omega
  have hafter : afterFragment buffer i = i + 1 + 1 + f.2.length := by
    rw [afterFragment, htoNat]
    omega
  simp only [List.length_cons, List.length_append] at hends
  refine ⟨by omega, htype, htoNat, ?_, hfits, by rwa [hafter], by omega⟩
  apply List.ext_getElem
  · rw [length_fragmentData, htoNat]
  · intro k hk hk'
    have hs := hdata k hk'
    rw [List.getD_eq_getElem _ _ hk'] at hs
    rw [← hs]
    simp [fragmentData]

/-- What is gathered is what the fragments are put together to. -/
theorem Gathers.merge (hg : Gathers buffer length type i data next) (h : FragmentsAt buffer length i fragments) :
    ∃ rest, FragmentsAt buffer length next rest ∧
      ((data = [] ∧ rest = fragments ∧ ∀ f ∈ fragments.head?, type ≠ f.1) ∨
        Fragments.merge 255 fragments = (type, data) :: Fragments.merge 255 rest) := by
  induction hg generalizing fragments with
  | @stop i hn =>
    refine ⟨fragments, h, .inl ⟨rfl, rfl, fun f hf => ?_⟩⟩
    cases fragments with
    | nil => simp at hf
    | cons g fragments =>
      obtain rfl := Option.some.inj hf
      obtain ⟨hi, htype, _⟩ := h.cons
      exact fun he => hn ⟨hi, htype.trans he.symm⟩
  | @empty i hi _ h0 =>
    cases fragments with
    | nil => exact absurd h.ends (by simp; omega)
    | cons g fragments =>
      obtain ⟨_, _, hsize, _⟩ := h.cons
      rw [h0] at hsize
      exact absurd (List.length_eq_zero_iff.mp hsize.symm) (h.fits g (by simp)).1
  | @last i hi ht _ hf =>
    cases fragments with
    | nil => exact absurd h.ends (by simp; omega)
    | cons g fragments =>
      obtain ⟨_, htype, hsize, hdata, hrest⟩ := h.cons
      refine ⟨fragments, hrest, .inr ?_⟩
      have hshort : g.2.length ≠ 255 := by
        intro he
        rw [he] at hsize
        exact hf (UInt8.toNat_inj.mp hsize)
      rw [merge_cons_alone (fun he => absurd he hshort), hdata, ← ht, htype]
  | @full i next data hi ht hf _ ih =>
    cases fragments with
    | nil => exact absurd h.ends (by simp; omega)
    | cons g fragments =>
      obtain ⟨_, htype, hsize, hdata, hrest⟩ := h.cons
      have hlabel : type = g.1 := ht.symm.trans htype
      have hfull : g.2.length = 255 := by
        rw [← hsize, hf]
        rfl
      obtain ⟨rest, hnext, ⟨rfl, rfl, hhead⟩ | hmerge⟩ := ih hrest
      · refine ⟨rest, hnext, .inr ?_⟩
        rw [merge_cons_alone (fun _ => hlabel ▸ hhead), hdata, List.append_nil, hlabel]
      · refine ⟨rest, hnext, .inr ?_⟩
        rw [merge_cons_full (g := (type, data)) hfull hlabel.symm hmerge, hdata, hlabel]

/-- The parser on fragments. -/
theorem tlvParseLoop_fragments {fuel : Nat} (h : FragmentsAt buffer length i fragments) (hfuel : length - i < fuel)
    (values : List Tlv) : tlvParseLoop buffer length fuel i values =
      .ok (values ++ (Fragments.merge 255 fragments).map Tlv.ofLabelled) := by
  induction fuel generalizing i fragments values with
  | zero => omega
  | succ fuel ih =>
    rw [tlvParseLoop_succ]
    cases fragments with
    | nil =>
      have hend : ¬ i < length := by
        have := h.ends
        simp at this
        omega
      rw [if_neg hend]
      simp [Fragments.merge]
    | cons f fragments =>
      obtain ⟨hi, htype, hsize, _, _⟩ := h.cons
      obtain ⟨data, next, hg, _, hround⟩ := tlvRound_gathers buffer length i
      have h0 : buffer (i + 1) ≠ 0 := by
        intro he
        rw [he] at hsize
        exact (h.fits f (by simp)).1 (List.length_eq_zero_iff.mp hsize.symm)
      have hne := hg.ne_nil hi h0
      have hle := hg.length_le
      have hpos := List.length_pos_iff.mpr hne
      obtain ⟨rest, hnext, ⟨he, _⟩ | hmerge⟩ := hg.merge h
      · exact absurd he hne
      · rw [if_pos hi, hround, ih hnext (by omega), hmerge, List.map_cons, List.append_assoc, List.singleton_append]
        rfl

/-- What the parser makes of a sequence of fragments. -/
theorem tlvParse_fragments (h : ∀ f ∈ fragments, IsFragment f) (behind : Nat → UInt8) :
    tlvParse (bufferOf (fragments.flatMap fragmentBytes) behind) (fragments.flatMap fragmentBytes).length =
      .ok ((Fragments.merge 255 fragments).map Tlv.ofLabelled) := by
  have hat : FragmentsAt (bufferOf (fragments.flatMap fragmentBytes) behind) (fragments.flatMap fragmentBytes).length 0
      fragments := ⟨h, holdsBytes_bufferOf _ _, Nat.zero_add _⟩
  rw [tlvParse, tlvParseLoop_fragments hat (by omega), List.nil_append]

end Parsing

/-! Both directions. -/

section RoundTrip

theorem isFragment_of_mem_split {v f : UInt8 × Bytes} (h : f ∈ split 255 v) : IsFragment f := by
  obtain ⟨piece, hpiece, rfl⟩ := List.mem_map.mp h
  obtain ⟨hpos, hle⟩ := Pieces.length_of_mem_cut (by decide) hpiece
  exact ⟨List.length_pos_iff.mp hpos, hle⟩

/-- An entry whose last fragment is full may not be followed by one of its type. -/
def KeptApart (t u : Tlv) : Prop := 255 ∣ t.value.length → t.type ≠ u.type

theorem tlvParse_tlvFormat (h0 : ∀ t ∈ values, t.value ≠ []) (h : values.IsChain KeptApart) (behind : Nat → UInt8) :
    tlvParse (bufferOf (tlvFormat values) behind) (tlvFormat values).length = .ok values := by
  have hfits : ∀ f ∈ (values.map Tlv.labelled).flatMap (split 255), IsFragment f := by
    intro f hf
    obtain ⟨v, _, hv⟩ := List.mem_flatMap.mp hf
    exact isFragment_of_mem_split hv
  have hne : ∀ v ∈ values.map Tlv.labelled, v.2 ≠ [] := by
    intro v hv
    obtain ⟨t, ht, rfl⟩ := List.mem_map.mp hv
    exact h0 t ht
  have hchain : (values.map Tlv.labelled).IsChain (fun v w => 255 ∣ v.2.length → v.1 ≠ w.1) :=
    (List.isChain_map _).mpr h
  rw [tlvFormat_eq h0, tlvParse_fragments hfits, merge_flatMap_split (by decide) hne hchain, List.map_map]
  exact congrArg Except.ok (List.map_id values)

theorem tlvFormat_tlvParse (h : ∀ f ∈ fragments, IsFragment f) (behind : Nat → UInt8) :
    ∃ values, tlvParse (bufferOf (fragments.flatMap fragmentBytes) behind) (fragments.flatMap fragmentBytes).length =
      .ok values ∧ tlvFormat values = fragments.flatMap fragmentBytes := by
  refine ⟨_, tlvParse_fragments h behind, ?_⟩
  have hne : ∀ t ∈ (Fragments.merge 255 fragments).map Tlv.ofLabelled, t.value ≠ [] := by
    intro t ht
    obtain ⟨v, hv, rfl⟩ := List.mem_map.mp ht
    exact merge_ne_nil (fun f hf => (h f hf).1) v hv
  rw [tlvFormat_eq hne, List.map_map]
  rw [show Tlv.labelled ∘ Tlv.ofLabelled = id from rfl, List.map_id, flatMap_split_merge (by decide) h]

/-- Formatting and parsing undo each other on well-formed data. -/
theorem tlv_bijection :
    (∀ (values : List Tlv) (behind : Nat → UInt8), (∀ t ∈ values, t.value ≠ []) → values.IsChain KeptApart →
      tlvParse (bufferOf (tlvFormat values) behind) (tlvFormat values).length = .ok values) ∧
    ∀ (fragments : List (UInt8 × Bytes)) (behind : Nat → UInt8), (∀ f ∈ fragments, IsFragment f) →
      ∃ values, tlvParse (bufferOf (fragments.flatMap fragmentBytes) behind) (fragments.flatMap fragmentBytes).length =
        .ok values ∧ tlvFormat values = fragments.flatMap fragmentBytes :=
  ⟨fun _ behind h0 h => tlvParse_tlvFormat h0 h behind, fun _ behind h => tlvFormat_tlvParse h behind⟩

/-- A long value, and another one of the same type. -/
def longAndShort : List Tlv := [{ type := 3, value := List.replicate 300 1 }, { type := 3, value := [2] }]

theorem tlv_bijection_longAndShort :
    tlvParse (bufferOf (tlvFormat longAndShort) (fun _ => 0)) (tlvFormat longAndShort).length = .ok longAndShort :=
  tlv_bijection.1 longAndShort (fun _ => 0) (by decide +kernel)
    (List.isChain_pair.mpr (fun h => absurd h (by decide +kernel)))

end RoundTrip

/-! The size. -/

section Size

theorem length_tlvFragments (type : UInt8) {fuel : Nat} {data : Bytes} (h : data.length ≤ fuel) :
    (tlvFragments type fuel data).length = data.length + 2 * ((data.length + 254) / 255) := by
  induction fuel generalizing data with
  | zero =>
    rw [List.length_eq_zero_iff.mp (Nat.le_zero.mp h)]
    rfl
  | succ fuel ih =>
    rw [tlvFragments]
    split
    · rename_i he
      rw [he]
      rfl
    · rename_i hne
      have hpos := List.length_pos_iff.mpr hne
      have hdrop : (data.drop 255).length = data.length - 255 := List.length_drop ..
      have htake : (data.take 255).length = min 255 data.length := List.length_take ..
      have hrest : (tlvFragments type fuel (data.drop 255)).length =
          (data.drop 255).length + 2 * (((data.drop 255).length + 254) / 255) := ih (by omega)
      simp only [List.length_cons, List.length_append, htake, hrest, hdrop]
      omega

/-- An empty value takes a header that the size does not count. -/
theorem length_tlvFormatValue (t : Tlv) : (tlvFormatValue t).length =
    t.value.length + 2 * ((t.value.length + 254) / 255) + if t.value = [] then 2 else 0 := by
  rw [tlvFormatValue]
  split
  · rename_i h
    rw [h]
    rfl
  · exact length_tlvFragments t.type (Nat.le_refl _)

theorem length_tlvFormat (values : List Tlv) :
    (tlvFormat values).length = tlvFormatSize values + 2 * values.countP (fun t => t.value = []) := by
  induction values with
  | nil => rfl
  | cons t values ih =>
    have hsize : tlvFormatSize (t :: values) =
        t.value.length + 2 * ((t.value.length + 254) / 255) + tlvFormatSize values := List.sum_cons
    rw [tlvFormat] at ih
    rw [tlvFormat, List.flatMap_cons, List.length_append, ih, length_tlvFormatValue, hsize, List.countP_cons]
    split <;> simp_all <;> omega

/-- The block of the size that is asked for holds what is written, and all of it. -/
structure FitsBlock (values : List Tlv) : Prop where
  size : tlvFormatSize values = (tlvFormat values).length
  kept : (tlvFormat values).take (tlvFormatSize values) = tlvFormat values

/-- The size is right exactly for lists without an empty value. -/
theorem fitsBlock_iff (values : List Tlv) : FitsBlock values ↔ ∀ t ∈ values, t.value ≠ [] := by
  have hsize : tlvFormatSize values = (tlvFormat values).length ↔ ∀ t ∈ values, t.value ≠ [] := by
    rw [length_tlvFormat]
    have hcount : values.countP (fun t => decide (t.value = [])) = 0 ↔ ∀ t ∈ values, t.value ≠ [] := by
      simp [List.countP_eq_zero]
    rw [← hcount]
    omega
  constructor
  · intro h
    exact hsize.mp h.size
  · intro h
    have hs := hsize.mpr h
    exact ⟨hs, by rw [hs, List.take_length]⟩

/-- A controller in the answer to ListPairings. -/
def listedPairing (n : UInt8) : List Tlv :=
  [{ type := TLVType.identifier, value := List.replicate 36 n }, { type := TLVType.publicKey, value := List.replicate 32 n },
    { type := TLVType.permissions, value := [1] }]

/-- Two controllers with a separator between them. -/
theorem separator_not_counted : ¬ FitsBlock ({ type := TLVType.state, value := [2] } :: listedPairing 1 ++
    { type := TLVType.separator, value := [] } :: listedPairing 2) := by
  rw [fitsBlock_iff]
  intro h
  exact h { type := TLVType.separator, value := [] } (by simp) rfl

end Size

end ArduinoHomeKit
