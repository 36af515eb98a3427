import ArduinoHomeKit.Tlv

/-! tlv_parse on any memory: when it comes to an end, and which bytes it reads. The walk from one
header to the next is the measure of both. -/

namespace ArduinoHomeKit

variable {buffer : Nat → UInt8} {length i next : Nat} {type : UInt8} {data : Bytes}

/-- The data of the fragment whose header is at `i`. -/
def fragmentData (buffer : Nat → UInt8) (i : Nat) : Bytes :=
  (List.range (buffer (i + 1)).toNat).map (fun k => buffer (i + 2 + k))

/-- The index behind that fragment. -/
def afterFragment (buffer : Nat → UInt8) (i : Nat) : Nat := i + (buffer (i + 1)).toNat + 2

@[simp] theorem length_fragmentData (buffer : Nat → UInt8) (i : Nat) :
    (fragmentData buffer i).length = (buffer (i + 1)).toNat := by simp [fragmentData]

/-! One round of the outer loop. -/

/-- The size of an entry: the full fragments, and one more of the same type. -/
def entrySize (buffer : Nat → UInt8) (length i : Nat) : Nat :=
  let r := tlvScan buffer length (buffer i) length i 0
  if r.1 < length ∧ buffer r.1 = buffer i then r.2 + (buffer (r.1 + 1)).toNat else r.2

/-- The entry that a round adds, and the index it leads to. -/
def tlvRound (buffer : Nat → UInt8) (length i : Nat) : Tlv × Nat :=
  if entrySize buffer length i ≠ 0 then
    let r := tlvCopy buffer (entrySize buffer length i + 1) i (entrySize buffer length i)
    ({ type := buffer i, value := r.1 }, r.2)
  else ({ type := buffer i, value := [] }, i)

theorem tlvParseLoop_succ (fuel : Nat) (values : List Tlv) :
    tlvParseLoop buffer length (fuel + 1) i values =
      if i < length then
        tlvParseLoop buffer length fuel (tlvRound buffer length i).2 (values ++ [(tlvRound buffer length i).1])
      else .ok values := by
  have hloop : tlvParseLoop buffer length (fuel + 1) i values =
      if i < length then
        if entrySize buffer length i ≠ 0 then
          let r := tlvCopy buffer (entrySize buffer length i + 1) i (entrySize buffer length i)
          tlvParseLoop buffer length fuel r.2 (values ++ [{ type := buffer i, value := r.1 }])
        else tlvParseLoop buffer length fuel i (values ++ [{ type := buffer i, value := [] }])
      else .ok values := rfl
  rw [hloop, tlvRound]
  by_cases hs : entrySize buffer length i ≠ 0
  · simp only [if_pos hs]
  · simp only [if_neg hs]

/-- What a round gathers from the fragments of one type, and where it ends. An empty fragment
ends it in front of itself. -/
inductive Gathers (buffer : Nat → UInt8) (length : Nat) (type : UInt8) : Nat → Bytes → Nat → Prop
  | stop {i : Nat} (h : ¬ (i < length ∧ buffer i = type)) : Gathers buffer length type i [] i
  | empty {i : Nat} (hi : i < length) (ht : buffer i = type) (h0 : buffer (i + 1) = 0) :
    Gathers buffer length type i [] i
  | last {i : Nat} (hi : i < length) (ht : buffer i = type) (h0 : buffer (i + 1) ≠ 0) (hf : buffer (i + 1) ≠ 255) :
    Gathers buffer length type i (fragmentData buffer i) (afterFragment buffer i)
  | full {i next : Nat} {data : Bytes} (hi : i < length) (ht : buffer i = type) (hf : buffer (i + 1) = 255)
    (h : Gathers buffer length type (afterFragment buffer i) data next) :
    Gathers buffer length type i (fragmentData buffer i ++ data) next

theorem afterFragment_full (hf : buffer (i + 1) = 255) : afterFragment buffer i = i + 257 := by
  rw [afterFragment, hf]
  rfl

/-- The scan counts what is gathered. -/
theorem tlvScan_gathers {fuel : Nat} (hfuel : length ≤ i + fuel) (size : Nat) :
    ∃ data next, Gathers buffer length type i data next ∧
      (if (tlvScan buffer length type fuel i size).1 < length ∧ buffer (tlvScan buffer length type fuel i size).1 = type then
        (tlvScan buffer length type fuel i size).2 + (buffer ((tlvScan buffer length type fuel i size).1 + 1)).toNat
      else (tlvScan buffer length type fuel i size).2) = size + data.length := by
  induction fuel generalizing i size with
  | zero =>
    have hout : ¬ (i < length ∧ buffer i = type) := fun h => by omega
    exact ⟨[], i, .stop hout, by rw [tlvScan, if_neg hout]; rfl⟩
  | succ fuel ih =>
    have hstep : tlvScan buffer length type (fuel + 1) i size =
        if i < length ∧ buffer i = type ∧ buffer (i + 1) = 255 then tlvScan buffer length type fuel (i + 257) (size + 255)
        else (i, size) := rfl
    by_cases hfull : i < length ∧ buffer i = type ∧ buffer (i + 1) = 255
    · obtain ⟨hi, ht, hf⟩ := hfull
      have hafter : afterFragment buffer i = i + 257 := afterFragment_full hf
      obtain ⟨data, next, hg, hs⟩ := ih (i := i + 257) (by omega) (size + 255)
      refine ⟨fragmentData buffer i ++ data, next, .full hi ht hf (by rwa [hafter]), ?_⟩
      rw [if_pos ⟨hi, ht, hf⟩] at hstep
      rw [hstep, hs, List.length_append, length_fragmentData, hf]
      have : (255 : UInt8).toNat = 255 := rfl
      omega
    · rw [if_neg hfull] at hstep
      rw [hstep]
      by_cases hin : i < length ∧ buffer i = type
      · rw [if_pos hin]
        by_cases h0 : buffer (i + 1) = 0
        · exact ⟨[], i, .empty hin.1 hin.2 h0, by rw [h0]; rfl⟩
        · exact ⟨_, _, .last hin.1 hin.2 h0 (fun hf => hfull ⟨hin.1, hin.2, hf⟩), by rw [length_fragmentData]⟩
      · exact ⟨[], i, .stop hin, by rw [if_neg hin]; rfl⟩

/-- The copy loop moves exactly that. -/
theorem Gathers.copy (h : Gathers buffer length type i data next) {fuel : Nat} (hfuel : data.length < fuel) :
    tlvCopy buffer fuel i data.length = (data, next) := by
  induction h generalizing fuel with
  | stop _ => cases fuel <;> simp [tlvCopy]
  | empty _ _ _ => cases fuel <;> simp [tlvCopy]
  | @last i hi ht h0 hf =>
    obtain ⟨fuel, rfl⟩ : ∃ k, fuel = k + 1 := ⟨fuel - 1, by omega⟩
    have hne : (buffer (i + 1)).toNat ≠ 0 := fun he => h0 (UInt8.toNat_inj.mp he)
    rw [length_fragmentData, tlvCopy, if_neg hne]
    dsimp only
    rw [Nat.sub_self]
    obtain ⟨fuel, rfl⟩ : ∃ k, fuel = k + 1 := ⟨fuel - 1, by rw [length_fragmentData] at hfuel; omega⟩
    rw [tlvCopy, if_pos rfl, List.append_nil]
    rfl
  | @full i next data hi ht hf h ih =>
    obtain ⟨fuel, rfl⟩ : ∃ k, fuel = k + 1 := ⟨fuel - 1, by omega⟩
    have h255 : (255 : UInt8).toNat = 255 := rfl
    have hlen : (fragmentData buffer i ++ data).length = 255 + data.length := by
      rw [List.length_append, length_fragmentData, hf, h255]
    rw [hlen] at hfuel ⊢
    have hrest : tlvCopy buffer fuel (afterFragment buffer i) data.length = (data, next) := ih (by omega)
    rw [tlvCopy, if_neg (by omega)]
    dsimp only
    rw [hf, h255, Nat.add_sub_cancel_left]
    have hafter : i + 255 + 2 = afterFragment buffer i := by rw [afterFragment_full hf]
    rw [hafter, hrest, fragmentData, hf, h255]

/-- A round adds what it gathers. -/
theorem tlvRound_gathers (buffer : Nat → UInt8) (length i : Nat) :
    ∃ data next, Gathers buffer length (buffer i) i data next ∧ entrySize buffer length i = data.length ∧
      tlvRound buffer length i = ({ type := buffer i, value := data }, next) := by
  obtain ⟨data, next, hg, hs⟩ : ∃ data next, Gathers buffer length (buffer i) i data next ∧ _ = 0 + data.length :=
    tlvScan_gathers (Nat.le_add_left length i) 0
  have hsize : entrySize buffer length i = data.length := hs.trans (Nat.zero_add _)
  refine ⟨data, next, hg, hsize, ?_⟩
  rw [tlvRound, hsize]
  split
  · rw [hg.copy (Nat.lt_succ_self _)]
  · rename_i h0
    obtain rfl : data = [] := List.length_eq_zero_iff.mp (not_not.mp h0)
    have hnext := hg.copy (Nat.lt_succ_self _)
    rw [List.length_nil, tlvCopy, if_pos rfl, Prod.mk.injEq] at hnext
    rw [hnext.2]

/-! The end of the loops. -/

section Ends

/-- No header on the walk from `i` on has length 0. -/
inductive NoEmptyHeader (buffer : Nat → UInt8) (length : Nat) : Nat → Prop
  | done {i : Nat} (h : length ≤ i) : NoEmptyHeader buffer length i
  | step {i : Nat} (hi : i < length) (h0 : buffer (i + 1) ≠ 0)
    (h : NoEmptyHeader buffer length (afterFragment buffer i)) : NoEmptyHeader buffer length i

/-- The copy loop takes what remains down to zero, a little in every turn. -/
inductive CopyDecreases (buffer : Nat → UInt8) : Nat → Nat → Prop
  | done (i : Nat) : CopyDecreases buffer i 0
  | turn {i remaining : Nat} (hpos : 0 < (buffer (i + 1)).toNat) (hle : (buffer (i + 1)).toNat ≤ remaining)
    (h : CopyDecreases buffer (afterFragment buffer i) (remaining - (buffer (i + 1)).toNat)) :
    CopyDecreases buffer i remaining

/-- The indices at which a round of the outer loop begins. -/
inductive RoundAt (buffer : Nat → UInt8) (length : Nat) : Nat → Prop
  | start : RoundAt buffer length 0
  | next {i : Nat} (h : RoundAt buffer length i) (hi : i < length) : RoundAt buffer length (tlvRound buffer length i).2

/-- The outer loop ends, and each of its rounds moves the index; its copy loop counts down. -/
structure ParserAdvances (buffer : Nat → UInt8) (length : Nat) : Prop where
  ends : ∃ fuel values, tlvParseLoop buffer length fuel 0 [] = .ok values
  advances : ∀ i, RoundAt buffer length i → i < length → i < (tlvRound buffer length i).2
  decreases : ∀ i, RoundAt buffer length i → i < length → CopyDecreases buffer i (entrySize buffer length i)

theorem Gathers.noEmptyHeader (h : Gathers buffer length type i data next) :
    NoEmptyHeader buffer length next ↔ NoEmptyHeader buffer length i := by
  have hstep : ∀ {i : Nat}, i < length → buffer (i + 1) ≠ 0 →
      (NoEmptyHeader buffer length (afterFragment buffer i) ↔ NoEmptyHeader buffer length i) := by
    intro i hi h0
    refine ⟨.step hi h0, fun h => ?_⟩
    cases h with
    | done hn => omega
    | step _ _ h => exact h
  induction h with
  | stop _ => exact Iff.rfl
  | empty _ _ _ => exact Iff.rfl
  | last hi _ h0 _ => exact hstep hi h0
  | full hi _ hf _ ih => exact ih.trans (hstep hi (by rw [hf]; decide))

theorem Gathers.length_le (h : Gathers buffer length type i data next) : i + data.length ≤ next := by
  induction h with
  | stop _ => exact Nat.le_refl _
  | empty _ _ _ => exact Nat.le_refl _
  | last _ _ _ _ =>
    rw [length_fragmentData, afterFragment]
    omega
  | full _ _ _ _ ih =>
    rw [afterFragment] at ih
    rw [List.length_append, length_fragmentData]
    omega

theorem Gathers.decreases (h : Gathers buffer length type i data next) : CopyDecreases buffer i data.length := by
  induction h with
  | stop _ => exact .done _
  | empty _ _ _ => exact .done _
  | @last i _ _ h0 _ =>
    have hpos : 0 < (buffer (i + 1)).toNat := Nat.pos_of_ne_zero (fun he => h0 (UInt8.toNat_inj.mp he))
    rw [length_fragmentData]
    refine .turn hpos (Nat.le_refl _) ?_
    rw [Nat.sub_self]
    exact .done _
  | @full i next data _ _ hf _ ih =>
    have h255 : (buffer (i + 1)).toNat = 255 := by rw [hf]; rfl
    have hlen : (fragmentData buffer i ++ data).length = (buffer (i + 1)).toNat + data.length := by
      rw [List.length_append, length_fragmentData]
    rw [hlen]
    refine .turn (by omega) (Nat.le_add_right _ _) ?_
    rwa [Nat.add_sub_cancel_left]

/-- Nothing is gathered in front of an empty fragment only. -/
theorem Gathers.ne_nil (h : Gathers buffer length (buffer i) i data next) (hi : i < length) (h0 : buffer (i + 1) ≠ 0) :
    data ≠ [] := by
  have hne : (buffer (i + 1)).toNat ≠ 0 := fun he => h0 (UInt8.toNat_inj.mp he)
  intro he
  cases h with
  | stop hn => exact hn ⟨hi, rfl⟩
  | empty _ _ hz => exact h0 hz
  | last _ _ _ _ => exact hne (by rw [← length_fragmentData, he]; rfl)
  | full _ _ _ _ => exact hne (by rw [← length_fragmentData, (List.append_eq_nil_iff.mp he).1]; rfl)

/-- A round moves the index unless it stands at an empty fragment. -/
theorem tlvRound_advances (hi : i < length) (h : NoEmptyHeader buffer length i) :
    i < (tlvRound buffer length i).2 ∧ NoEmptyHeader buffer length (tlvRound buffer length i).2 := by
  obtain ⟨data, next, hg, _, hr⟩ := tlvRound_gathers buffer length i
  have h0 : buffer (i + 1) ≠ 0 := by
    cases h with
    | done hn => omega
    | step _ h0 _ => exact h0
  have hpos : 0 < data.length := List.length_pos_iff.mpr (hg.ne_nil hi h0)
  have hle := hg.length_le
  rw [hr]
  exact ⟨by omega, hg.noEmptyHeader.mpr h⟩

theorem tlvParseLoop_returns {fuel : Nat} (h : NoEmptyHeader buffer length i) (hfuel : length - i < fuel)
    (values : List Tlv) :
    ∃ values', tlvParseLoop buffer length fuel i values = .ok values' := by
  induction fuel generalizing i values with
  | zero => omega
  | succ fuel ih =>
    rw [tlvParseLoop_succ]
    by_cases hi : i < length
    · rw [if_pos hi]
      obtain ⟨hlt, hnext⟩ := tlvRound_advances hi h
      exact ih hnext (by omega) _
    · exact ⟨values, if_neg hi⟩

/-- The loop returns from nowhere else. -/
theorem noEmptyHeader_of_returns {fuel : Nat} {values values' : List Tlv}
    (h : tlvParseLoop buffer length fuel i values = .ok values') : NoEmptyHeader buffer length i := by
  induction fuel generalizing i values with
  | zero => simp [tlvParseLoop] at h
  | succ fuel ih =>
    rw [tlvParseLoop_succ] at h
    by_cases hi : i < length
    · rw [if_pos hi] at h
      obtain ⟨data, next, hg, _, hr⟩ := tlvRound_gathers buffer length i
      rw [hr] at h
      exact hg.noEmptyHeader.mp (ih h)
    · exact .done (Nat.le_of_not_lt hi)

/-- A loop that returns has met no empty value. -/
theorem tlvParseLoop_ne_nil {fuel : Nat} {values values' : List Tlv} (hvalues : ∀ t ∈ values, t.value ≠ [])
    (h : tlvParseLoop buffer length fuel i values = .ok values') : ∀ t ∈ values', t.value ≠ [] := by
  induction fuel generalizing i values with
  | zero => simp [tlvParseLoop] at h
  | succ fuel ih =>
    have hheader := noEmptyHeader_of_returns h
    rw [tlvParseLoop_succ] at h
    by_cases hi : i < length
    · rw [if_pos hi] at h
      obtain ⟨data, next, hg, _, hr⟩ := tlvRound_gathers buffer length i
      rw [hr] at h
      refine ih ?_ h
      rw [List.forall_mem_append, List.forall_mem_singleton]
      refine ⟨hvalues, hg.ne_nil hi ?_⟩
      cases hheader with
      | done hn => omega
      | step _ h0 _ => exact h0
    · rw [if_neg hi] at h
      exact Except.ok.inj h ▸ hvalues

theorem tlvParse_ne_nil {values : List Tlv} (h : tlvParse buffer length = .ok values) : ∀ t ∈ values, t.value ≠ [] :=
  tlvParseLoop_ne_nil (fun _ ht => absurd ht List.not_mem_nil) h

theorem RoundAt.noEmptyHeader (h0 : NoEmptyHeader buffer length 0) (h : RoundAt buffer length i) :
    NoEmptyHeader buffer length i := by
  induction h with
  | start => exact h0
  | next _ hi ih => exact (tlvRound_advances hi ih).2

/-- The rounds that the loop has are enough, if any are. -/
theorem tlvParse_returns_iff : (∃ values, tlvParse buffer length = .ok values) ↔ NoEmptyHeader buffer length 0 :=
  ⟨fun ⟨_, h⟩ => noEmptyHeader_of_returns h, fun h => tlvParseLoop_returns h (by omega) []⟩

/-- The parser comes to its end exactly when it meets no empty fragment. -/
theorem parserAdvances_iff (buffer : Nat → UInt8) (length : Nat) :
    ParserAdvances buffer length ↔ NoEmptyHeader buffer length 0 := by
  constructor
  · intro h
    obtain ⟨fuel, values, hr⟩ := h.ends
    exact noEmptyHeader_of_returns hr
  · intro h
    refine ⟨⟨length + 1, tlvParseLoop_returns h (by omega) []⟩, fun i hr hi => (tlvRound_advances hi (hr.noEmptyHeader h)).1,
      fun i _ _ => ?_⟩
    obtain ⟨data, next, hg, hsize, _⟩ := tlvRound_gathers buffer length i
    rw [hsize]
    exact hg.decreases

/-- A state without a value, as TLVs may have it. -/
theorem empty_entry_endless : ¬ ParserAdvances (bufferOf [6, 0] (fun _ => 0)) 2 := by
  rw [parserAdvances_iff]
  intro h
  cases h with
  | done hn => omega
  | step _ h0 _ => exact h0 rfl

end Ends

/-! The bytes that are read. -/

section Reads

/-- The reads of the scan: the type at an index inside, then the length byte behind it. -/
def tlvScanReads (buffer : Nat → UInt8) (length : Nat) (type : UInt8) : Nat → Nat → List Nat
  | 0, _ => []
  | fuel + 1, j =>
    if j < length then
      if buffer j = type then
        if buffer (j + 1) = 255 then j :: (j + 1) :: tlvScanReads buffer length type fuel (j + 257)
        else [j, j + 1]
      else [j]
    else []

/-- The reads for the size of an entry. -/
def entrySizeReads (buffer : Nat → UInt8) (length i : Nat) : List Nat :=
  let j := (tlvScan buffer length (buffer i) length i 0).1
  i :: (tlvScanReads buffer length (buffer i) length i ++
    if j < length then (if buffer j = buffer i then [j, j + 1] else [j]) else [])

/-- The reads of the copy loop: a length byte, then the data behind it. -/
def tlvCopyReads (buffer : Nat → UInt8) : Nat → Nat → Nat → List Nat
  | 0, _, _ => []
  | fuel + 1, i, remaining =>
    if remaining = 0 then []
    else
      let chunkSize := (buffer (i + 1)).toNat
      (i + 1) :: ((List.range chunkSize).map (fun k => i + 2 + k) ++
        tlvCopyReads buffer fuel (i + chunkSize + 2) (remaining - chunkSize))

def tlvParseReads (buffer : Nat → UInt8) (length : Nat) : Nat → Nat → List Nat
  | 0, _ => []
  | fuel + 1, i =>
    if i < length then
      entrySizeReads buffer length i ++
        tlvCopyReads buffer (entrySize buffer length i + 1) i (entrySize buffer length i) ++
        tlvParseReads buffer length fuel (tlvRound buffer length i).2
    else []

/-- From `i` to the end every fragment has its length byte and its data. -/
inductive Complete (buffer : Nat → UInt8) (length : Nat) : Nat → Prop
  | done : Complete buffer length length
  | step {i : Nat} (hi : i + 1 < length) (ha : afterFragment buffer i ≤ length)
    (h : Complete buffer length (afterFragment buffer i)) : Complete buffer length i

/-- The parser reads the input only; an input that is cut short is parsed without the rest of it.
There is no return code but 0. -/
structure ReadsInput (data : Bytes) (behind : Nat → UInt8) : Prop where
  inside : ∀ fuel, ∀ k ∈ tlvParseReads (bufferOf data behind) data.length fuel 0, k < data.length
  cut : ¬ Complete (bufferOf data behind) data.length 0 →
    ∃ values, tlvParse (bufferOf data behind) data.length = .ok values ∧ (values.flatMap Tlv.value).Sublist data

theorem Complete.header (h : Complete buffer length i) (hi : i < length) :
    i + 1 < length ∧ afterFragment buffer i ≤ length ∧ Complete buffer length (afterFragment buffer i) := by
  cases h with
  | done => omega
  | step h1 h2 h3 => exact ⟨h1, h2, h3⟩

theorem Complete.scanReads (h : Complete buffer length i) (fuel : Nat) :
    ∀ k ∈ tlvScanReads buffer length type fuel i, k < length := by
  induction fuel generalizing i with
  | zero => simp [tlvScanReads]
  | succ fuel ih =>
    rw [tlvScanReads]
    by_cases hi : i < length
    · obtain ⟨h1, _, hnext⟩ := h.header hi
      rw [if_pos hi]
      split
      · split
        · rename_i hf
          rw [afterFragment_full hf] at hnext
          simp only [List.forall_mem_cons]
          exact ⟨hi, h1, ih hnext⟩
        · simp [hi, h1]
      · simpa using hi
    · simp [hi]

theorem Complete.scan (h : Complete buffer length i) (fuel size : Nat) :
    Complete buffer length (tlvScan buffer length type fuel i size).1 := by
  induction fuel generalizing i size with
  | zero => exact h
  | succ fuel ih =>
    rw [tlvScan]
    split
    · rename_i hf
      have hnext := (h.header hf.1).2.2
      rw [afterFragment_full hf.2.2] at hnext
      exact ih hnext _
    · exact h

theorem Complete.sizeReads (h : Complete buffer length i) (hi : i < length) :
    ∀ k ∈ entrySizeReads buffer length i, k < length := by
  have hj : Complete buffer length (tlvScan buffer length (buffer i) length i 0).1 := h.scan length 0
  rw [entrySizeReads, List.forall_mem_cons, List.forall_mem_append]
  refine ⟨hi, h.scanReads length, ?_⟩
  split
  · rename_i hlt
    have h1 := (hj.header hlt).1
    split
    · simp [hlt, h1]
    · simpa using hlt
  · simp

/-- The copy loop of a gathered entry. -/
theorem Gathers.copyReads (hg : Gathers buffer length type i data next) (h : Complete buffer length i) :
    Complete buffer length next ∧ ∀ fuel, ∀ k ∈ tlvCopyReads buffer fuel i data.length, k < length := by
  have hzero : ∀ fuel i, tlvCopyReads buffer fuel i 0 = [] := fun fuel i => by cases fuel <;> simp [tlvCopyReads]
  have hturn : ∀ {i : Nat}, i < length → Complete buffer length i →
      ∀ k ∈ (i + 1) :: (List.range (buffer (i + 1)).toNat).map (fun k => i + 2 + k), k < length := by
    intro i hi hc k hk
    obtain ⟨h1, h2, _⟩ := hc.header hi
    rcases List.mem_cons.mp hk with rfl | hk
    · exact h1
    · obtain ⟨m, hm, rfl⟩ := List.mem_map.mp hk
      rw [List.mem_range] at hm
      rw [afterFragment] at h2
      omega
  induction hg with
  | stop _ => exact ⟨h, fun fuel => by simp [hzero]⟩
  | empty _ _ _ => exact ⟨h, fun fuel => by simp [hzero]⟩
  | @last i hi _ h0 _ =>
    refine ⟨(h.header hi).2.2, fun fuel => ?_⟩
    cases fuel with
    | zero => simp [tlvCopyReads]
    | succ fuel =>
      have hne : (buffer (i + 1)).toNat ≠ 0 := fun he => h0 (UInt8.toNat_inj.mp he)
      rw [length_fragmentData, tlvCopyReads, if_neg hne]
      dsimp only
      rw [Nat.sub_self, hzero, List.append_nil]
      exact hturn hi h
  | @full i next data hi _ hf _ ih =>
    obtain ⟨hnext, hrest⟩ := ih (h.header hi).2.2
    refine ⟨hnext, fun fuel => ?_⟩
    cases fuel with
    | zero => simp [tlvCopyReads]
    | succ fuel =>
      have h255 : (buffer (i + 1)).toNat = 255 := by rw [hf]; rfl
      have hlen : (fragmentData buffer i ++ data).length = (buffer (i + 1)).toNat + data.length := by
        rw [List.length_append, length_fragmentData]
      rw [hlen, tlvCopyReads, if_neg (by omega)]
      dsimp only
      rw [Nat.add_sub_cancel_left, ← List.cons_append, List.forall_mem_append]
      exact ⟨hturn hi h, hrest fuel⟩

theorem Complete.round (h : Complete buffer length i) :
    Complete buffer length (tlvRound buffer length i).2 ∧
      ∀ fuel, ∀ k ∈ tlvCopyReads buffer fuel i (entrySize buffer length i), k < length := by
  obtain ⟨data, next, hg, hsize, hr⟩ := tlvRound_gathers buffer length i
  rw [hsize, hr]
  exact hg.copyReads h

theorem Complete.parseReads (h : Complete buffer length i) (fuel : Nat) :
    ∀ k ∈ tlvParseReads buffer length fuel i, k < length := by
  induction fuel generalizing i with
  | zero => simp [tlvParseReads]
  | succ fuel ih =>
    rw [tlvParseReads]
    split
    · rename_i hi
      obtain ⟨hnext, hcopy⟩ := h.round
      rw [List.forall_mem_append, List.forall_mem_append]
      exact ⟨⟨h.sizeReads hi, hcopy _⟩, ih hnext⟩
    · simp

/-- The header and the data that a turn of the copy loop reads. -/
theorem turn_inside {fuel remaining : Nat} (h0 : buffer (i + 1) ≠ 0) (hr : remaining ≠ 0)
    (h : ∀ k ∈ tlvCopyReads buffer (fuel + 1) i remaining, k < length) :
    i + 1 < length ∧ afterFragment buffer i ≤ length ∧
      ∀ k ∈ tlvCopyReads buffer fuel (afterFragment buffer i) (remaining - (buffer (i + 1)).toNat), k < length := by
  have hne : (buffer (i + 1)).toNat ≠ 0 := fun he => h0 (UInt8.toNat_inj.mp he)
  rw [tlvCopyReads, if_neg hr, List.forall_mem_cons, List.forall_mem_append] at h
  obtain ⟨hheader, hdata, hrest⟩ := h
  have hlast := hdata (i + 2 + ((buffer (i + 1)).toNat - 1))
    (List.mem_map.mpr ⟨_, List.mem_range.mpr (by omega), rfl⟩)
  refine ⟨hheader, ?_, hrest⟩
  rw [afterFragment]
  omega

/-- What was copied from inside was complete. -/
theorem Gathers.complete (hg : Gathers buffer length type i data next) (hi : i ≤ length) {fuel : Nat}
    (hfuel : data.length < fuel) (h : ∀ k ∈ tlvCopyReads buffer fuel i data.length, k < length) :
    next ≤ length ∧ (Complete buffer length next → Complete buffer length i) := by
  induction hg generalizing fuel with
  | stop _ => exact ⟨hi, id⟩
  | empty _ _ _ => exact ⟨hi, id⟩
  | @last i _ _ h0 _ =>
    obtain ⟨fuel, rfl⟩ : ∃ k, fuel = k + 1 := ⟨fuel - 1, by omega⟩
    rw [length_fragmentData] at h
    obtain ⟨h1, h2, _⟩ := turn_inside h0 (fun he => h0 (UInt8.toNat_inj.mp he)) h
    exact ⟨h2, .step h1 h2⟩
  | @full i next data _ _ hf _ ih =>
    obtain ⟨fuel, rfl⟩ : ∃ k, fuel = k + 1 := ⟨fuel - 1, by omega⟩
    have h255 : (buffer (i + 1)).toNat = 255 := by rw [hf]; rfl
    have hlen : (fragmentData buffer i ++ data).length = (buffer (i + 1)).toNat + data.length := by
      rw [List.length_append, length_fragmentData]
    rw [hlen] at h hfuel
    obtain ⟨h1, h2, hrest⟩ := turn_inside (by rw [hf]; decide) (by omega) h
    rw [Nat.add_sub_cancel_left] at hrest
    obtain ⟨hnext, hback⟩ := ih h2 (by omega) hrest
    exact ⟨hnext, fun hc => .step h1 h2 (hback hc)⟩

/-- If the loop returns and has read the input only, the input was complete. -/
theorem complete_of_reads {fuel : Nat} (hi : i ≤ length) {values values' : List Tlv}
    (hr : tlvParseLoop buffer length fuel i values = .ok values')
    (h : ∀ k ∈ tlvParseReads buffer length fuel i, k < length) : Complete buffer length i := by
  induction fuel generalizing i values with
  | zero => simp [tlvParseLoop] at hr
  | succ fuel ih =>
    rw [tlvParseLoop_succ] at hr
    rw [tlvParseReads] at h
    by_cases hlt : i < length
    · rw [if_pos hlt] at hr h
      rw [List.forall_mem_append, List.forall_mem_append] at h
      obtain ⟨⟨_, hcopy⟩, hrest⟩ := h
      obtain ⟨data, next, hg, hsize, hround⟩ := tlvRound_gathers buffer length i
      rw [hsize] at hcopy
      rw [hround] at hr hrest
      obtain ⟨hnext, hback⟩ := hg.complete hi (Nat.lt_succ_self _) hcopy
      exact hback (ih hnext hr hrest)
    · obtain rfl : i = length := by omega
      exact .done

/-- The parser keeps to the input exactly when no entry of it is cut short. -/
theorem readsInput_iff (data : Bytes) (behind : Nat → UInt8) :
    ReadsInput data behind ↔ Complete (bufferOf data behind) data.length 0 := by
  constructor
  · intro h
    by_contra hn
    obtain ⟨values, hr, _⟩ := h.cut hn
    exact hn (complete_of_reads (Nat.zero_le _) hr (h.inside _))
  · intro h
    exact ⟨fun fuel => h.parseReads fuel, fun hn => absurd h hn⟩

/-- A state that claims three bytes and has one. -/
theorem cut_entry_overread : ¬ ReadsInput [6, 3, 1] (fun _ => 0) := by
  rw [readsInput_iff]
  intro h
  exact absurd (h.header (by decide)).2.1 (by decide)

end Reads

end ArduinoHomeKit
