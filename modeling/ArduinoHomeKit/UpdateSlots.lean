import ArduinoHomeKit.Compaction

/-! update_pairing over a compaction that does what compact_data is meant to do. The update
keeps the slot of the old record across the compaction. -/

namespace ArduinoHomeKit

open CString SlotStore

section Definitions

variable (chip : FlashChip) (compact : Flash → Except Fault (Int × Flash))

def findBlockWith (f : Flash) : Except Fault (Option Nat × Flash) :=
  match findEmptyBlock chip f with
  | some i => .ok (some i, f)
  | none =>
    match compact f with
    | .error e => .error e
    | .ok (_, f) => .ok (findEmptyBlock chip f, f)

def updatePairingWith (f : Flash) (deviceId : Bytes) (permissions : UInt8) : Except Fault (Int × Flash) :=
  match matchSlot chip f deviceId with
  | none => .ok (-1, f)
  | some i =>
    let data := readPairing chip f i
    match findBlockWith chip compact f with
    | .error e => .error e
    | .ok (none, f) => .ok (-2, f)
    | .ok (some next, f) =>
      match spiflashWrite chip f (slotAddr chip next) { data with permissions := permissions }.toBytes with
      | (false, f) => .ok (-1, f)
      | (true, f) =>
        match spiflashWrite chip f (slotAddr chip i) (List.replicate sizeofPairingData 0) with
        | (false, f) => .ok (-2, f)
        | (true, f) => .ok (0, f)

/-- A compaction meets the contract of compact_data. -/
def CompactsAsIntended : Prop :=
  ∀ f, homekitStorageCanAddPairing chip f = true → ∃ r f', compact f = .ok (r, f') ∧ CompactedFrom chip f f'

/-- The sector with its records in front. -/
def intendedMem (f : Flash) : Nor.Memory := fun a =>
  if pairingsAddr chip ≤ a ∧ a < pairingsAddr chip + sizeofPairingData * maxPairings then
    ((live maxPairings (records chip f))[(a - pairingsAddr chip) / sizeofPairingData]?).elim 0xFF
      (fun d => d.toBytes.getD ((a - pairingsAddr chip) % sizeofPairingData) 0)
  else f.mem a

/-- A compaction that meets the contract. -/
def intendedCompact (f : Flash) : Except Fault (Int × Flash) :=
  .ok (0, { mem := intendedMem chip f, ops := f.ops + 4 })

end Definitions

variable {chip : FlashChip} {compact : Flash → Except Fault (Int × Flash)} {f f' : Flash} {id : Bytes} {i : Nat}

theorem findBlockWith_compactData (f : Flash) : findBlockWith chip (compactData chip) f = findBlock chip f := rfl

/-- The update of the source is the one over compact_data. -/
theorem updatePairingWith_compactData (f : Flash) (id : Bytes) (permissions : UInt8) :
    updatePairingWith chip (compactData chip) f id permissions = homekitStorageUpdatePairing chip f id permissions :=
  rfl

/-- A compacted sector is used up to its last record. -/
theorem CompactedFrom.allocated (h : CompactedFrom chip f f') :
    Allocated chip (live maxPairings (ArduinoHomeKit.records chip f)).length f' := by
  refine ⟨fun j hj hb => ?_, h.blank⟩
  have hlive := h.records j (Nat.lt_of_lt_of_le hj length_live_le)
  rw [records_blank hb] at hlive
  have := compacted_eq_none.mp hlive.symm
  omega

theorem updatePairingWith_records {f₀ : Flash} {n : Nat}
    (hf : ∀ n, chip.succeeds n = true) (hm : matchSlot chip f id = some i)
    (hb : findBlockWith chip compact f = .ok (some n, f₀))
    (hblank : Nor.Blank f₀.mem (slotAddr chip n) sizeofPairingData) (permissions : UInt8) :
    ∃ f', updatePairingWith chip compact f id permissions = .ok (0, f') ∧
      records chip f' =
        kill (put (records chip f₀) n ((readPairing chip f i).withPermissions permissions)) i := by
  have hlive : isLive ((readPairing chip f i).withPermissions permissions).magic = true :=
    (records_some (matchSlot_some hm).2.1).2
  obtain ⟨g, hg⟩ := spiflashWrite_succeeds hf f₀ (slotAddr chip n)
    ((readPairing chip f i).withPermissions permissions).toBytes
  obtain ⟨g', hg'⟩ := spiflashWrite_succeeds hf g (slotAddr chip i) (List.replicate sizeofPairingData 0)
  refine ⟨g', ?_, by rw [records_zero hg', records_write hlive hblank hg]⟩
  rw [PairingData.withPermissions] at hg
  simp only [updatePairingWith, hm, hb, hg, hg']

/-- The record of a device was replaced by one with these permissions and the old key. -/
def UpdatedTo (chip : FlashChip) (f f' : Flash) (old : PairingData) (permissions : UInt8) : Prop :=
  Replaced maxPairings recordId (records chip f) (records chip f') (recordId old) (fun d =>
    d.permissions = permissions ∧ d.devicePublicKey = old.devicePublicKey)

/-- Over a compaction, the slot that the update kills is the right one only if no record before
the device's moves, or if the new copy went there and the old one already says what it should. -/
theorem updatePairing_compacted_iff {permissions : UInt8} (hf : ∀ n, chip.succeeds n = true)
    (hcompact : CompactsAsIntended chip compact) (hd : Distinct maxPairings recordId (records chip f))
    (hcan : homekitStorageCanAddPairing chip f = true) (hm : matchSlot chip f id = some i)
    (hb : findEmptyBlock chip f = none) :
    (∃ f', updatePairingWith chip compact f id permissions = .ok (0, f') ∧
      UpdatedTo chip f f' (readPairing chip f i) permissions) ↔
      (∀ j < i, records chip f j ≠ none) ∨
        ((live maxPairings (records chip f)).length = i ∧ (readPairing chip f i).permissions = permissions) := by
  obtain ⟨hi, hr, _⟩ := matchSlot_some hm
  obtain ⟨r, f₀, hc, hcomp⟩ := hcompact f hcan
  obtain ⟨j, hj, hdead⟩ := canAddPairing_iff.mp hcan
  have hlt := length_live_lt hj hdead
  have hempty := hcomp.allocated.findEmptyBlock hlt
  have hblock : findBlockWith chip compact f = .ok (some (live maxPairings (records chip f)).length, f₀) := by
    simp only [findBlockWith, hb, hc, hempty]
  obtain ⟨f', hupd, hrec⟩ :=
    updatePairingWith_records hf hm hblock (hcomp.blank _ (Nat.le_refl _) hlt) permissions
  have hiff := replaced_move_compacted_iff (p := fun d =>
      d.permissions = permissions ∧ d.devicePublicKey = (readPairing chip f i).devicePublicKey)
    hd hi hr hcomp.records hlt (recordId_withPermissions (readPairing chip f i) permissions) ⟨rfl, rfl⟩
  rw [← hrec] at hiff
  simp only [and_true] at hiff
  rw [← hiff]
  constructor
  · rintro ⟨g, hg, hrep⟩
    obtain rfl := (Prod.mk.inj (Except.ok.inj (hg.symm.trans hupd))).2
    exact hrep
  · intro hrep
    exact ⟨f', hupd, hrep⟩

/-- An update replaces the record of its device exactly if it finds an empty slot, or no record
before the device's has to move, or the slot it kills is the one it wrote and was not needed. -/
theorem updatePairing_replaces_iff (hf : ∀ n, chip.succeeds n = true) (hcompact : CompactsAsIntended chip compact)
    (hd : Distinct maxPairings recordId (records chip f)) (hcan : homekitStorageCanAddPairing chip f = true)
    (hm : matchSlot chip f id = some i) (permissions : UInt8) :
    (∃ f', updatePairingWith chip compact f id permissions = .ok (0, f') ∧
      UpdatedTo chip f f' (readPairing chip f i) permissions) ↔
      findEmptyBlock chip f ≠ none ∨ (∀ j < i, records chip f j ≠ none) ∨
        ((live maxPairings (records chip f)).length = i ∧ (readPairing chip f i).permissions = permissions) := by
  cases hb : findEmptyBlock chip f with
  | none =>
    rw [updatePairing_compacted_iff hf hcompact hd hcan hm hb]
    simp
  | some n =>
    obtain ⟨hi, hr, _⟩ := matchSlot_some hm
    obtain ⟨hn, hblank⟩ := findEmptyBlock_some hb
    have hblock : findBlockWith chip compact f = .ok (some n, f) := by simp only [findBlockWith, hb]
    obtain ⟨f', hupd, hrec⟩ := updatePairingWith_records hf hm hblock hblank permissions
    refine iff_of_true ⟨f', hupd, ?_⟩ (Or.inl (Option.some_ne_none n))
    rw [UpdatedTo, hrec]
    exact replaced_move hd hn hi hr (records_blank hblank) rfl ⟨rfl, rfl⟩

section Intended

theorem intendedMem_slot {j k : Nat} (hj : j < maxPairings) (hk : k < sizeofPairingData) :
    intendedMem chip f (slotAddr chip j + k) =
      (compacted maxPairings (records chip f) j).elim 0xFF (fun d => d.toBytes.getD k 0) := by
  have hin : pairingsAddr chip ≤ slotAddr chip j + k ∧
      slotAddr chip j + k < pairingsAddr chip + sizeofPairingData * maxPairings := by
    simp only [slotAddr, maxPairings, sizeofPairingData] at *
    omega
  have hdiv : (slotAddr chip j + k - pairingsAddr chip) / sizeofPairingData = j := by
    simp only [slotAddr, sizeofPairingData] at *
    omega
  have hmod : (slotAddr chip j + k - pairingsAddr chip) % sizeofPairingData = k := by
    simp only [slotAddr, sizeofPairingData] at *
    omega
  rw [intendedMem, if_pos hin, hdiv, hmod]
  rfl

theorem read_intendedMem {k len : Nat} (h : k + len ≤ pairingsOffset) :
    Nor.read (intendedMem chip f) (storageBaseAddr chip + k) len = Nor.read f.mem (storageBaseAddr chip + k) len := by
  refine Nor.read_congr (fun i hi => if_neg ?_)
  simp only [pairingsAddr]
  omega

theorem records_intendedMem {j ops : Nat} (hj : j < maxPairings) :
    records chip { mem := intendedMem chip f, ops := ops } j = compacted maxPairings (records chip f) j := by
  cases hc : compacted maxPairings (records chip f) j with
  | none =>
    apply records_blank
    intro k hk
    simp only [intendedMem_slot hj hk, hc, Option.elim]
  | some d =>
    have hread : readPairing chip { mem := intendedMem chip f, ops := ops } j = d := by
      apply PairingData.ofMemory_of_read
      rw [← d.length_toBytes, Nor.read_eq_iff]
      intro k hk
      have hk' : k < sizeofPairingData := d.length_toBytes ▸ hk
      show intendedMem chip f (slotAddr chip j + k) = d.toBytes[k]
      rw [intendedMem_slot hj hk', hc]
      simp [hk]
    obtain ⟨i, _, hi⟩ := mem_live.mp (List.mem_of_getElem? hc)
    rw [records, hread, if_pos (records_some hi).2]

theorem intendedCompact_compacts (chip : FlashChip) : CompactsAsIntended chip (intendedCompact chip) := by
  intro f _
  refine ⟨0, _, rfl, read_intendedMem (k := 0) (by decide), read_intendedMem (by decide),
    read_intendedMem (by decide), fun j hj => records_intendedMem hj, fun j hle hj k hk => ?_⟩
  have hnone : compacted maxPairings (records chip f) j = none := compacted_eq_none.mpr hle
  simp only [intendedMem_slot hj hk, hnone, Option.elim]

end Intended

theorem benchFlash_distinct {ds : List PairingData}
    (h : ((live maxPairings (fun i => (ds[i]?).filter (fun d => isLive d.magic))).map recordId).Nodup) :
    Distinct maxPairings recordId (records benchChip (benchFlash ds)) := by
  rw [funext (records_benchFlash ds)]
  exact distinct_of_nodup h

theorem updatePairing_replaces_iff_bench :
    (∃ f', updatePairingWith benchChip (intendedCompact benchChip) (benchFlash [benchRecord 3 1]) (benchId 3) 0 =
        .ok (0, f') ∧
      UpdatedTo benchChip (benchFlash [benchRecord 3 1]) f'
        (readPairing benchChip (benchFlash [benchRecord 3 1]) 0) 0) ↔
      findEmptyBlock benchChip (benchFlash [benchRecord 3 1]) ≠ none ∨
        (∀ j < 0, records benchChip (benchFlash [benchRecord 3 1]) j ≠ none) ∨
        ((live maxPairings (records benchChip (benchFlash [benchRecord 3 1]))).length = 0 ∧
          (readPairing benchChip (benchFlash [benchRecord 3 1]) 0).permissions = 0) :=
  updatePairing_replaces_iff (fun _ => rfl) (intendedCompact_compacts benchChip)
    (benchFlash_distinct (by decide)) (by decide) (by decide) 0

/-- A store without an empty slot in which the first record is dead. -/
def staleRecords : List PairingData :=
  deadRecord :: benchRecord 3 1 :: benchRecord 5 0 :: List.replicate 13 deadRecord

theorem stale_store_tested : (findEmptyBlock benchChip (benchFlash staleRecords)).isNone = true := by decide +kernel

/-- The update of controller 3 kills the record of controller 5, which moved to its slot. -/
theorem update_kills_moved_record :
    CompactsAsIntended benchChip (intendedCompact benchChip) ∧
      Distinct maxPairings recordId (records benchChip (benchFlash staleRecords)) ∧
      homekitStorageCanAddPairing benchChip (benchFlash staleRecords) = true ∧
      matchSlot benchChip (benchFlash staleRecords) (benchId 3) = some 1 ∧
      ¬ ∃ f', updatePairingWith benchChip (intendedCompact benchChip) (benchFlash staleRecords) (benchId 3) 0 =
          .ok (0, f') ∧
        UpdatedTo benchChip (benchFlash staleRecords) f' (readPairing benchChip (benchFlash staleRecords) 1) 0 := by
  have hcompact := intendedCompact_compacts benchChip
  have hd : Distinct maxPairings recordId (records benchChip (benchFlash staleRecords)) :=
    benchFlash_distinct (by decide)
  have hcan : homekitStorageCanAddPairing benchChip (benchFlash staleRecords) = true := by decide
  have hm : matchSlot benchChip (benchFlash staleRecords) (benchId 3) = some 1 := by decide
  refine ⟨hcompact, hd, hcan, hm, ?_⟩
  rw [updatePairing_compacted_iff (fun _ => rfl) hcompact hd hcan hm (Option.isNone_iff_eq_none.mp stale_store_tested)]
  rintro (hall | ⟨hlen, _⟩)
  · refine hall 0 (by decide) ?_
    rw [records_benchFlash]
    rfl
  · rw [funext (records_benchFlash staleRecords)] at hlen
    exact absurd hlen (by decide)

end ArduinoHomeKit
