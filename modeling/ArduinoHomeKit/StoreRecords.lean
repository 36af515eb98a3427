import ArduinoHomeKit.Library.SlotStore
import ArduinoHomeKit.Storage

/-! The pairing store as a slot store: what the flash operations of storage.c do to its
live records, whichever of the operations fail. -/

namespace ArduinoHomeKit

open CString SlotStore

variable (wc : WolfCrypt) (chip : FlashChip)

/-- The part of a device id that the store keeps. -/
def controllerId (deviceId : Bytes) : Bytes := strndup deviceId deviceIdSize

def recordId (d : PairingData) : Bytes := controllerId d.deviceId

/-- The live records. -/
def records (f : Flash) : Nat → Option PairingData := fun i =>
  if isLive (readPairing chip f i).magic then some (readPairing chip f i) else none

/-- A new record needs a compaction. -/
def compacts (f : Flash) : Bool := (findEmptyBlock chip f).isNone && homekitStorageCanAddPairing chip f

def SlotsBlank (f : Flash) : Prop :=
  ∀ i < maxPairings, Nor.Blank f.mem (slotAddr chip i) sizeofPairingData

def Wiped (f : Flash) : Prop := ∀ i < maxPairings, records chip f i = none

/-- What may have become of the records when a block for a new one was looked for. -/
def Cleared (f f' : Flash) : Prop :=
  records chip f' = records chip f ∨ compacts chip f = true ∧ Wiped chip f'

variable {wc chip} {f f' : Flash}

theorem PairingData.length_toBytes (d : PairingData) : d.toBytes.length = sizeofPairingData := by
  simp [toBytes, d.magic_length, d.deviceId_length, d.devicePublicKey.2, d.reserved_length, sizeofPairingData]

theorem PairingData.ofMemory_congr {m m' : Nor.Memory} {addr addr' : Nat}
    (h : ∀ i < sizeofPairingData, m' (addr' + i) = m (addr + i)) : ofMemory m' addr' = ofMemory m addr := by
  have hread : ∀ k len, k + len ≤ sizeofPairingData →
      Nor.read m' (addr' + k) len = Nor.read m (addr + k) len := by
    intro k len hk
    apply List.map_congr_left
    intro i hi
    have hlt := List.mem_range.mp hi
    simpa only [Nat.add_assoc] using h (k + i) (by omega)
  simp only [ofMemory, PairingData.mk.injEq, Subtype.mk.injEq]
  exact ⟨hread 0 4 (by decide), h 4 (by decide), hread 5 36 (by decide), hread 41 32 (by decide),
    hread 73 7 (by decide)⟩

theorem PairingData.ofMemory_of_read {m : Nor.Memory} {addr : Nat} {d : PairingData}
    (h : Nor.read m addr sizeofPairingData = d.toBytes) : ofMemory m addr = d := by
  have hbyte : ∀ i (hi : i < d.toBytes.length), m (addr + i) = d.toBytes[i] := by
    rw [← Nor.read_eq_iff, d.length_toBytes]
    exact h
  have hpart : ∀ (k : Nat) (pre part post : Bytes), d.toBytes = pre ++ part ++ post → pre.length = k →
      Nor.read m (addr + k) part.length = part := by
    intro k pre part post hd hk
    rw [Nor.read_eq_iff]
    intro i hi
    have hlt : k + i < d.toBytes.length := by simp [hd]; omega
    rw [Nat.add_assoc, hbyte (k + i) hlt]
    subst hk
    simp [hd, hi]
  have h1 := d.magic_length
  have h2 := d.deviceId_length
  have h3 := d.devicePublicKey.2
  have h4 := d.reserved_length
  obtain ⟨magic, permissions, deviceId, ⟨key, hkey⟩, reserved, _, _, _⟩ := d
  simp only [toBytes] at hpart h1 h2 h3 h4
  have hm := hpart 0 [] magic _ (by simp; rfl) rfl
  have hp := hpart 4 magic [permissions] _ (by simp; rfl) h1
  have hd := hpart 5 (magic ++ [permissions]) deviceId _ (by simp; rfl) (by simp [h1])
  have hk := hpart 41 (magic ++ permissions :: deviceId) key reserved (by simp)
    (by simp [h1, h2])
  have hr := hpart 73 (magic ++ permissions :: (deviceId ++ key)) reserved [] (by simp)
    (by simp [h1, h2, h3])
  rw [h1] at hm
  rw [h2] at hd
  rw [h3] at hk
  rw [h4] at hr
  have hp' : m (addr + 4) = permissions := by simpa [Nor.read] using hp
  simp only [ofMemory, PairingData.mk.injEq, Subtype.mk.injEq]
  exact ⟨hm, hp', hd, hk, hr⟩

theorem slotAddr_disjoint (chip : FlashChip) {i j : Nat} (h : i ≠ j) :
    slotAddr chip i + sizeofPairingData ≤ slotAddr chip j ∨
      slotAddr chip j + sizeofPairingData ≤ slotAddr chip i := by
  rcases Nat.lt_or_gt_of_ne h with h | h
  · left
    simp only [slotAddr, sizeofPairingData]
    omega
  · right
    simp only [slotAddr, sizeofPairingData]
    omega

theorem records_congr_slot {i : Nat} (h : readPairing chip f' i = readPairing chip f i) :
    records chip f' i = records chip f i := by
  simp only [records, h]

theorem records_congr (h : f'.mem = f.mem) : records chip f' = records chip f := by
  funext i
  exact records_congr_slot (by simp only [readPairing, h])

theorem records_some {i : Nat} {d : PairingData} (h : records chip f i = some d) :
    readPairing chip f i = d ∧ isLive d.magic = true := by
  simp only [records, Option.ite_none_right_eq_some, Option.some.injEq] at h
  exact ⟨h.2, h.2 ▸ h.1⟩

theorem spiflashWrite_false {addr : Nat} {data : Bytes}
    (h : spiflashWrite chip f addr data = (false, f')) : f'.mem = f.mem := by
  unfold spiflashWrite at h
  split at h
  · simp at h
  · exact (Prod.mk.inj h).2 ▸ rfl

theorem spiflashWrite_true {addr : Nat} {data : Bytes}
    (h : spiflashWrite chip f addr data = (true, f')) : f'.mem = Nor.program f.mem addr data := by
  unfold spiflashWrite at h
  split at h
  · exact (Prod.mk.inj h).2 ▸ rfl
  · simp at h

/-- Programming one slot leaves the others alone. -/
theorem readPairing_program_other {i n : Nat} {data : Bytes} (hi : i ≠ n)
    (hlen : data.length = sizeofPairingData) (h : f'.mem = Nor.program f.mem (slotAddr chip n) data) :
    readPairing chip f' i = readPairing chip f i := by
  apply PairingData.ofMemory_congr
  intro k hk
  rw [h]
  apply Nor.program_outside
  have := slotAddr_disjoint chip hi
  omega

theorem findEmptyBlock_some {n : Nat} (h : findEmptyBlock chip f = some n) :
    n < maxPairings ∧ Nor.Blank f.mem (slotAddr chip n) sizeofPairingData := by
  obtain ⟨hb, hn, _⟩ := List.find?_range_eq_some.mp h
  refine ⟨List.mem_range.mp hn, fun i hi => ?_⟩
  have hh := List.all_eq_true.mp hb (f.mem (slotAddr chip n + i))
    (List.mem_map.mpr ⟨i, List.mem_range.mpr hi, rfl⟩)
  simpa using hh

theorem findEmptyBlock_ne_none (h : SlotsBlank chip f) : findEmptyBlock chip f ≠ none := by
  intro hn
  have hh := List.find?_range_eq_none.mp hn 0 (by decide)
  have hall : ∀ b ∈ Nor.read f.mem (slotAddr chip 0) sizeofPairingData, b = 0xff := by
    intro b hb
    obtain ⟨i, hi, rfl⟩ := List.mem_map.mp hb
    exact h 0 (by decide) i (List.mem_range.mp hi)
  simp only [Bool.not_eq_true', List.all_eq_false, beq_iff_eq] at hh
  obtain ⟨b, hb, hne⟩ := hh
  exact hne (hall b hb)

theorem records_blank {n : Nat} (h : Nor.Blank f.mem (slotAddr chip n) sizeofPairingData) :
    records chip f n = none := by
  have hb : ∀ i < 4, f.mem (slotAddr chip n + i) = 0xFF := fun i hi => h i (by simp [sizeofPairingData]; omega)
  have hm : (readPairing chip f n).magic = List.replicate 4 0xFF := by
    apply List.ext_getElem (by simp [readPairing, PairingData.ofMemory])
    intro i hi _
    simp only [readPairing, PairingData.ofMemory, List.getElem_replicate]
    rw [Nor.getElem_read]
    exact hb i (by simpa [readPairing, PairingData.ofMemory] using hi)
  have hl : isLive (List.replicate 4 0xFF) = false := by decide
  simp only [records, hm, hl, Bool.false_eq_true, if_false]

/-- Writing a live record to a blank slot puts it into the store. -/
theorem records_write {n : Nat} {d : PairingData} (hd : isLive d.magic = true)
    (hb : Nor.Blank f.mem (slotAddr chip n) sizeofPairingData)
    (h : spiflashWrite chip f (slotAddr chip n) d.toBytes = (true, f')) :
    records chip f' = put (records chip f) n d := by
  have hmem := spiflashWrite_true h
  funext i
  by_cases hi : i = n
  · subst hi
    rw [put_self]
    have hr : readPairing chip f' i = d := by
      apply PairingData.ofMemory_of_read
      rw [hmem, ← d.length_toBytes]
      exact Nor.read_program_blank (by rwa [d.length_toBytes])
    simp [records, hr, hd]
  · rw [put_of_ne hi]
    exact records_congr_slot (readPairing_program_other hi d.length_toBytes hmem)

/-- Writing zeros over a slot kills its record. -/
theorem records_zero {n : Nat}
    (h : spiflashWrite chip f (slotAddr chip n) (List.replicate sizeofPairingData 0) = (true, f')) :
    records chip f' = kill (records chip f) n := by
  have hmem := spiflashWrite_true h
  funext i
  by_cases hi : i = n
  · subst hi
    rw [kill_self]
    have hm : (readPairing chip f' i).magic = List.replicate 4 0 := by
      apply List.ext_getElem (by simp [readPairing, PairingData.ofMemory])
      intro k hk _
      simp only [readPairing, PairingData.ofMemory, List.getElem_replicate]
      rw [Nor.getElem_read, hmem]
      have hk4 : k < 4 := by simpa [readPairing, PairingData.ofMemory] using hk
      exact Nor.program_zeros (by simp [sizeofPairingData]; omega)
    have hl : isLive (List.replicate 4 0) = false := by decide
    simp only [records, hm, hl, Bool.false_eq_true, if_false]
  · rw [kill_of_ne hi]
    exact records_congr_slot (readPairing_program_other hi (by simp) hmem)

theorem magicAddr_disjoint {i : Nat} : magicAddr chip + 4 ≤ slotAddr chip i := by
  simp only [magicAddr, slotAddr, pairingsAddr, pairingsOffset]
  omega

theorem slotAddr_in_sector (chip : FlashChip) {i k : Nat} (hi : i < maxPairings) (hk : k < sizeofPairingData) :
    storageBaseAddr chip / spiFlashSectorSize * spiFlashSectorSize ≤ slotAddr chip i + k ∧
      slotAddr chip i + k <
        storageBaseAddr chip / spiFlashSectorSize * spiFlashSectorSize + spiFlashSectorSize := by
  have := chip.aligned
  simp only [slotAddr, pairingsAddr, pairingsOffset, storageBaseAddr, spiFlashSectorSize, maxPairings,
    sizeofPairingData] at *
  omega

theorem records_write_magic {data : Bytes} (hlen : data.length = 4)
    (h : spiflashWrite chip f (magicAddr chip) data = (true, f')) :
    ∀ i, Nor.read f'.mem (slotAddr chip i) sizeofPairingData =
      Nor.read f.mem (slotAddr chip i) sizeofPairingData := by
  intro i
  rw [spiflashWrite_true h]
  exact Nor.read_program_disjoint (Or.inr (hlen ▸ magicAddr_disjoint))

theorem records_congr_read
    (h : ∀ i, Nor.read f'.mem (slotAddr chip i) sizeofPairingData =
      Nor.read f.mem (slotAddr chip i) sizeofPairingData) : records chip f' = records chip f := by
  funext i
  apply records_congr_slot
  apply PairingData.ofMemory_congr
  intro k hk
  have hh := Nor.getElem_read f'.mem (slotAddr chip i) sizeofPairingData k (by simpa using hk)
  have hh' := Nor.getElem_read f.mem (slotAddr chip i) sizeofPairingData k (by simpa using hk)
  rw [← hh, ← hh']
  simp only [h i]

theorem SlotsBlank.wiped (h : SlotsBlank chip f) : Wiped chip f := fun i hi => records_blank (h i hi)

theorem erase_slotsBlank
    (h : spiflashEraseSector chip f (storageBaseAddr chip) = (true, f')) : SlotsBlank chip f' := by
  unfold spiflashEraseSector at h
  split at h
  · intro i hi k hk
    rw [← (Prod.mk.inj h).2]
    simp only [Nor.erase, slotAddr_in_sector chip hi hk, and_self, if_true]
  · simp at h

theorem spiflashEraseSector_false
    (h : spiflashEraseSector chip f (storageBaseAddr chip) = (false, f')) : f'.mem = f.mem := by
  unfold spiflashEraseSector at h
  split at h
  · simp at h
  · exact (Prod.mk.inj h).2 ▸ rfl

theorem SlotsBlank.congr (h : SlotsBlank chip f)
    (hr : ∀ i, Nor.read f'.mem (slotAddr chip i) sizeofPairingData =
      Nor.read f.mem (slotAddr chip i) sizeofPairingData) : SlotsBlank chip f' := by
  intro i hi k hk
  have hh := Nor.getElem_read f'.mem (slotAddr chip i) sizeofPairingData k (by simpa using hk)
  simp only [hr i] at hh
  rw [← hh, Nor.getElem_read]
  exact h i hi k hk

/-- Once the magic is damaged, initialising formats the sector, and reports no success
that the caller would take for one. -/
theorem homekitStorageInit_format {r : Int}
    (hm : strncmp 4 (Nor.read f.mem (magicAddr chip) 4) magic1 ≠ 0)
    (h : homekitStorageInit chip f = (r, f')) :
    r ≠ 0 ∧ (f'.mem = f.mem ∨ SlotsBlank chip f') := by
  rw [homekitStorageInit, if_pos hm] at h
  split at h
  · rename_i g hg
    obtain ⟨rfl, rfl⟩ := Prod.mk.inj h
    exact ⟨by decide, Or.inl (spiflashEraseSector_false hg)⟩
  · rename_i g hg
    have hb := erase_slotsBlank hg
    split at h
    · rename_i g' hg'
      obtain ⟨rfl, rfl⟩ := Prod.mk.inj h
      refine ⟨by decide, Or.inr (hb.congr (fun i => ?_))⟩
      rw [spiflashWrite_false hg']
    · rename_i g' hg'
      obtain ⟨rfl, rfl⟩ := Prod.mk.inj h
      exact ⟨by decide, Or.inr (hb.congr (records_write_magic (by simp) hg'))⟩

/-- The first step of a reset makes the magic unreadable. -/
theorem magic_erased (h : spiflashWrite chip f (magicAddr chip) (List.replicate 4 0) = (true, f')) :
    strncmp 4 (Nor.read f'.mem (magicAddr chip) 4) magic1 ≠ 0 := by
  have hz : Nor.read f'.mem (magicAddr chip) 4 = [0, 0, 0, 0] := by
    have hlen : ([0, 0, 0, 0] : Bytes).length = 4 := rfl
    rw [← hlen, Nor.read_eq_iff]
    intro i hi
    rw [spiflashWrite_true h, Nor.program_zeros (hlen ▸ hi)]
    have : i = 0 ∨ i = 1 ∨ i = 2 ∨ i = 3 := by simp at hi; omega
    rcases this with rfl | rfl | rfl | rfl <;> rfl
  rw [hz]
  decide

theorem homekitStorageReset_cases {r : Int} (h : homekitStorageReset chip f = (r, f')) :
    r ≠ 0 ∧ (records chip f' = records chip f ∨ SlotsBlank chip f') := by
  unfold homekitStorageReset at h
  split at h
  · rename_i g hg
    obtain ⟨rfl, rfl⟩ := Prod.mk.inj h
    exact ⟨by decide, Or.inl (records_congr (spiflashWrite_false hg))⟩
  · rename_i g hg
    have hr := records_congr_read (records_write_magic (by simp) hg)
    obtain ⟨hne, hc⟩ := homekitStorageInit_format (magic_erased hg) h
    refine ⟨hne, hc.imp (fun he => ?_) id⟩
    rw [records_congr he, hr]

theorem ofMemory_offset (m : Nor.Memory) (base addr : Nat) :
    PairingData.ofMemory (fun a => m (base + a)) addr = PairingData.ofMemory m (base + addr) :=
  PairingData.ofMemory_congr (fun i _ => by rw [Nat.add_assoc])

/-- With a live record in every slot there is nothing to compact. -/
theorem compactLoop_live {data : Nor.Memory} :
    ∀ (n i : Nat), (∀ j, i ≤ j → j < i + n →
        isLive (PairingData.ofMemory data (pairingsOffset + sizeofPairingData * j)).magic = true) →
      compactLoop chip (List.range' i n) data i = .ok (data, i + n)
  | 0, i, _ => by simp [compactLoop]
  | n + 1, i, h => by
    have hh := compactLoop_live n (i + 1) (fun j hj hlt => h j (by omega) (by omega))
    rw [List.range'_succ, compactLoop]
    simp only [h i (by omega) (by omega), if_true, ne_eq, not_true_eq_false, if_false, hh]
    congr 2
    omega

theorem slots_eq_range' : slots = List.range' 0 maxPairings := by
  rw [slots, List.range_eq_range']

theorem compactData_full (h : homekitStorageCanAddPairing chip f = false) :
    compactData chip f = .ok (0, f) := by
  have hlive : ∀ j, 0 ≤ j → j < 0 + maxPairings →
      isLive (PairingData.ofMemory (fun a => f.mem (storageBaseAddr chip + a))
        (pairingsOffset + sizeofPairingData * j)).magic = true := by
    intro j _ hj
    have hh := List.any_eq_false.mp h j (List.mem_range.mpr (by omega))
    rw [ofMemory_offset, ← Nat.add_assoc]
    simpa [readPairing, slotAddr, pairingsAddr] using hh
  rw [compactData, slots_eq_range', compactLoop_live maxPairings 0 hlive]
  simp

theorem compactData_cases {r : Int} (h : compactData chip f = .ok (r, f')) :
    records chip f' = records chip f ∨ SlotsBlank chip f' := by
  unfold compactData at h
  split at h
  · simp at h
  · split at h
    · obtain ⟨_, rfl⟩ := Prod.mk.inj (Except.ok.inj h)
      exact Or.inl rfl
    · cases hr : homekitStorageReset chip f with
      | mk r' g =>
        obtain ⟨hne, hc⟩ := homekitStorageReset_cases hr
        simp only [hr, ne_eq, hne, not_false_eq_true, if_true, Except.ok.injEq, Prod.mk.injEq] at h
        exact h.2 ▸ hc

theorem findBlock_of_not_compacts (h : compacts chip f = false) :
    findBlock chip f = .ok (findEmptyBlock chip f, f) := by
  unfold findBlock
  cases hb : findEmptyBlock chip f with
  | some n => rfl
  | none =>
    have hfull : homekitStorageCanAddPairing chip f = false := by simpa [compacts, hb] using h
    simp [compactData_full hfull, hb]

theorem findBlock_cases {b : Option Nat} (h : findBlock chip f = .ok (b, f')) :
    Cleared chip f f' ∧
      ∀ n, b = some n → n < maxPairings ∧ Nor.Blank f'.mem (slotAddr chip n) sizeofPairingData := by
  by_cases hc : compacts chip f = false
  · rw [findBlock_of_not_compacts hc] at h
    obtain ⟨rfl, rfl⟩ := Prod.mk.inj (Except.ok.inj h)
    exact ⟨Or.inl rfl, fun n hn => findEmptyBlock_some hn⟩
  · have hc : compacts chip f = true := by simpa using hc
    have hn : findEmptyBlock chip f = none := by
      simp only [compacts, Bool.and_eq_true, Option.isNone_iff_eq_none] at hc
      exact hc.1
    simp only [findBlock, hn] at h
    split at h
    · simp at h
    · rename_i r g hg
      obtain ⟨rfl, rfl⟩ := Prod.mk.inj (Except.ok.inj h)
      exact ⟨(compactData_cases hg).imp id (fun hb => ⟨hc, hb.wiped⟩), fun n hn => findEmptyBlock_some hn⟩

end ArduinoHomeKit
