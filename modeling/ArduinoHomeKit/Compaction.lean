import ArduinoHomeKit.StoreMap

/-! What compact_data does to the sector. It indexes its copy by flash addresses and takes
the answer of a reset for a failure, so it never writes a record back. -/

namespace ArduinoHomeKit

open CString SlotStore

variable {chip : FlashChip} {f f' : Flash} {r : Int}

/-- The sector after it was formatted. -/
def formattedMem (chip : FlashChip) (m : Nor.Memory) : Nor.Memory :=
  Nor.program (Nor.erase m (storageBaseAddr chip) spiFlashSectorSize) (magicAddr chip) magic1

/-- What compact_data is meant to leave behind. -/
structure CompactedFrom (chip : FlashChip) (f f' : Flash) : Prop where
  magic : Nor.read f'.mem (magicAddr chip) 4 = Nor.read f.mem (magicAddr chip) 4
  accessoryId :
    Nor.read f'.mem (accessoryIdAddr chip) accessoryIdSize = Nor.read f.mem (accessoryIdAddr chip) accessoryIdSize
  accessoryKey :
    Nor.read f'.mem (accessoryKeyAddr chip) accessoryKeySize = Nor.read f.mem (accessoryKeyAddr chip) accessoryKeySize
  records : ∀ i < maxPairings, records chip f' i = compacted maxPairings (records chip f) i
  blank : ∀ i, (live maxPairings (ArduinoHomeKit.records chip f)).length ≤ i → i < maxPairings →
    Nor.Blank f'.mem (slotAddr chip i) sizeofPairingData

/-- A sector with a readable magic and nothing else that compaction has to keep. -/
structure NothingStored (chip : FlashChip) (f : Flash) : Prop where
  magic : Nor.read f.mem (magicAddr chip) 4 = magic1
  accessoryId : Nor.Blank f.mem (accessoryIdAddr chip) accessoryIdSize
  accessoryKey : Nor.Blank f.mem (accessoryKeyAddr chip) accessoryKeySize
  records : Wiped chip f

theorem spiFlashSectorSize_le_base (chip : FlashChip) : spiFlashSectorSize ≤ storageBaseAddr chip := by
  have hpos := chip.positive
  have hal := chip.aligned
  simp only [storageBaseAddr, spiFlashSectorSize]
  omega

theorem sector_base (chip : FlashChip) :
    storageBaseAddr chip / spiFlashSectorSize * spiFlashSectorSize = storageBaseAddr chip := by
  have hal := chip.aligned
  simp only [storageBaseAddr, spiFlashSectorSize]
  omega

section FormattedMem

theorem formattedMem_blank {m : Nor.Memory} {a : Nat} (h : storageBaseAddr chip + 4 ≤ a)
    (hh : a < storageBaseAddr chip + spiFlashSectorSize) : formattedMem chip m a = 0xFF := by
  rw [formattedMem, Nor.program_outside (Or.inr h), Nor.erase_inside (by omega) hh]

theorem formattedMem_formatted (m : Nor.Memory) (ops : Nat) :
    Formatted chip { mem := formattedMem chip m, ops := ops } := by
  refine ⟨Nor.read_program_blank (fun i hi => ?_), fun i hi k hk => ?_⟩
  · have hi : i < 4 := hi
    apply Nor.erase_inside
    · simp only [magicAddr]
      omega
    · simp only [magicAddr, spiFlashSectorSize]
      omega
  · have := slotAddr_in_sector chip hi hk
    rw [sector_base] at this
    refine formattedMem_blank ?_ this.2
    simp only [slotAddr, pairingsAddr, pairingsOffset]
    omega

theorem Formatted.wiped (h : Formatted chip f) : Wiped chip f := h.blank.wiped

end FormattedMem

section Reset

/-- A valid magic is a live one. -/
theorem homekitStorageInit_valid (h : strncmp 4 (Nor.read f.mem (magicAddr chip) 4) magic1 = 0) :
    homekitStorageInit chip f = (0, f) := by
  simp [homekitStorageInit, h]

theorem homekitStorageReset_ne_zero (chip : FlashChip) (f : Flash) : (homekitStorageReset chip f).1 ≠ 0 :=
  (homekitStorageReset_cases (Prod.eta (homekitStorageReset chip f)).symm).1

variable (hf : ∀ n, chip.succeeds n = true)
include hf

theorem homekitStorageInit_formats (hm : strncmp 4 (Nor.read f.mem (magicAddr chip) 4) magic1 ≠ 0) :
    homekitStorageInit chip f = (1, { mem := formattedMem chip f.mem, ops := f.ops + 2 }) := by
  have hmagic : strncpy 4 magic1 = magic1 := by decide
  simp only [homekitStorageInit, if_pos hm, spiflashEraseSector, spiflashWrite, hf, if_true, sector_base, hmagic,
    formattedMem]

theorem homekitStorageReset_eq (f : Flash) :
    homekitStorageReset chip f = (1, { mem := formattedMem chip f.mem, ops := f.ops + 3 }) := by
  obtain ⟨g, hg⟩ := spiflashWrite_succeeds hf f (magicAddr chip) (List.replicate 4 0)
  have hmem : formattedMem chip g.mem = formattedMem chip f.mem := by
    rw [formattedMem, spiflashWrite_true hg, Nor.erase_program]
    · rfl
    · exact Nat.le_refl _
    · simp [magicAddr, spiFlashSectorSize]
  have hops : g.ops = f.ops + 1 := by
    simp only [spiflashWrite, hf, if_true] at hg
    exact (Prod.mk.inj hg).2 ▸ rfl
  simp only [homekitStorageReset, hg, homekitStorageInit_formats hf (magic_erased hg), hmem, hops]

end Reset

section Loop

/-- The record of a slot in a copy of the sector is live. -/
def liveAt (data : Nor.Memory) (i : Nat) : Bool :=
  isLive (PairingData.ofMemory data (pairingsOffset + sizeofPairingData * i)).magic

variable {data data' : Nor.Memory} {is : List Nat} {next next' : Nat}

/-- A record that has to move is written far outside the copy, so a loop that comes to its
end has moved none. -/
theorem compactLoop_ok (h : compactLoop chip is data next = .ok (data', next')) :
    data' = data ∧ next' = next + is.countP (liveAt data) := by
  induction is generalizing next with
  | nil =>
    obtain ⟨rfl, rfl⟩ := Prod.mk.inj (Except.ok.inj h)
    exact ⟨rfl, rfl⟩
  | cons i is ih =>
    rw [compactLoop, ← liveAt] at h
    by_cases hl : liveAt data i = true
    · have hwild : ¬ pairingsAddr chip + sizeofPairingData * next + sizeofPairingData ≤ spiFlashSectorSize := by
        have := spiFlashSectorSize_le_base chip
        simp only [pairingsAddr, sizeofPairingData]
        omega
      simp only [hl, if_true, hwild, if_false] at h
      split at h
      · simp at h
      · obtain ⟨hd, hn⟩ := ih h
        refine ⟨hd, ?_⟩
        rw [List.countP_cons_of_pos hl]
        omega
    · simp only [hl, Bool.false_eq_true, if_false] at h
      obtain ⟨hd, hn⟩ := ih h
      exact ⟨hd, by rw [List.countP_cons_of_neg hl]; exact hn⟩

theorem compactLoop_error {e : Fault} (h : compactLoop chip is data next = .error e) : e = .wildWrite := by
  induction is generalizing data next with
  | nil => simp [compactLoop] at h
  | cons i is ih =>
    rw [compactLoop] at h
    dsimp only at h
    split_ifs at h
    · exact ih h
    · exact (Except.error.inj h).symm
    · exact ih h
    · exact ih h

theorem compactLoop_dead (h : ∀ i ∈ is, liveAt data i = false) :
    compactLoop chip is data next = .ok (data, next) := by
  induction is with
  | nil => rfl
  | cons i is ih =>
    have hi := h i List.mem_cons_self
    rw [liveAt] at hi
    simp only [compactLoop, hi, Bool.false_eq_true, if_false]
    exact ih (fun j hj => h j (List.mem_cons_of_mem i hj))

end Loop

/-- The copy that compact_data works on holds the records of the sector. -/
theorem liveAt_copy (chip : FlashChip) (f : Flash) (i : Nat) :
    liveAt (fun a => f.mem (storageBaseAddr chip + a)) i = isLive (readPairing chip f i).magic := by
  rw [liveAt, ofMemory_offset, ← Nat.add_assoc]
  rfl

theorem canAddPairing_iff : homekitStorageCanAddPairing chip f = true ↔ ∃ i < maxPairings, records chip f i = none := by
  rw [homekitStorageCanAddPairing, List.any_eq_true]
  simp [slots, records]

theorem Wiped.canAddPairing (h : Wiped chip f) : homekitStorageCanAddPairing chip f = true :=
  canAddPairing_iff.mpr ⟨0, by decide, h 0 (by decide)⟩

/-- A compaction either runs out of its buffer or only resets the sector. -/
theorem compactData_canAdd (h : homekitStorageCanAddPairing chip f = true) :
    compactData chip f = .error .wildWrite ∨ compactData chip f = .ok (-1, (homekitStorageReset chip f).2) := by
  unfold compactData
  cases hc : compactLoop chip slots (fun a => f.mem (storageBaseAddr chip + a)) 0 with
  | error e =>
    obtain rfl := compactLoop_error hc
    exact Or.inl rfl
  | ok p =>
    obtain ⟨data, next⟩ := p
    right
    obtain ⟨_, hnext⟩ := compactLoop_ok hc
    obtain ⟨i, hi, hdead⟩ := canAddPairing_iff.mp h
    have hne : next ≠ maxPairings := by
      intro he
      have hcount : slots.countP (liveAt (fun a => f.mem (storageBaseAddr chip + a))) = slots.length := by
        rw [slots, List.length_range, ← slots]
        omega
      have hall := List.countP_eq_length.mp hcount i (List.mem_range.mpr hi)
      rw [liveAt_copy] at hall
      simp [records, hall] at hdead
    simp only [hne, if_false, homekitStorageReset_ne_zero, ne_eq, not_false_eq_true, if_true]

theorem compactData_wiped (h : Wiped chip f) : compactData chip f = .ok (-1, (homekitStorageReset chip f).2) := by
  have hdead : ∀ i ∈ slots, liveAt (fun a => f.mem (storageBaseAddr chip + a)) i = false := by
    intro i hi
    rw [liveAt_copy]
    simpa [records] using h i (List.mem_range.mp hi)
  have hne : ¬ 0 = maxPairings := by decide
  simp only [compactData, compactLoop_dead hdead, hne, if_false, homekitStorageReset_ne_zero, ne_eq,
    not_false_eq_true, if_true]

theorem read_of_blank {m : Nor.Memory} {addr len : Nat} (h : Nor.Blank m addr len) :
    Nor.read m addr len = List.replicate len 0xFF := by
  refine List.ext_getElem (by simp) (fun i hi _ => ?_)
  rw [Nor.getElem_read, List.getElem_replicate]
  exact h i (by simpa using hi)

theorem blank_of_read {m : Nor.Memory} {addr len : Nat} (h : Nor.read m addr len = List.replicate len 0xFF) :
    Nor.Blank m addr len := by
  intro i hi
  have hlt : i < (Nor.read m addr len).length := by simpa using hi
  rw [← Nor.getElem_read m addr len i hlt]
  simp [h]

section Succeeding

variable (hf : ∀ n, chip.succeeds n = true)
include hf

/-- A compaction that comes to its end leaves a formatted sector, without any record. -/
theorem compactData_formats (h : homekitStorageCanAddPairing chip f = true)
    (hc : compactData chip f = .ok (r, f')) : f' = { mem := formattedMem chip f.mem, ops := f.ops + 3 } := by
  rcases compactData_canAdd h with he | hok
  · rw [he] at hc
    simp at hc
  · rw [hok, homekitStorageReset_eq hf] at hc
    exact (Prod.mk.inj (Except.ok.inj hc)).2.symm

theorem compactData_loses {i : Nat} {d : PairingData} (h : homekitStorageCanAddPairing chip f = true)
    (hi : i < maxPairings) (hd : records chip f i = some d) :
    ¬ ∃ r f', compactData chip f = .ok (r, f') ∧ CompactedFrom chip f f' := by
  rintro ⟨r, f', hc, hcomp⟩
  obtain rfl := compactData_formats hf h hc
  have hlt : (live i (records chip f)).length < maxPairings := Nat.lt_of_le_of_lt length_live_le hi
  have hrec := hcomp.records _ hlt
  rw [compacted_of_live hi hd, (formattedMem_formatted f.mem (f.ops + 3)).wiped _ hlt] at hrec
  simp at hrec

/-- compact_data does what it is meant to do exactly on sectors in which nothing is stored. -/
theorem compactData_compacts_iff (h : homekitStorageCanAddPairing chip f = true) :
    (∃ r f', compactData chip f = .ok (r, f') ∧ CompactedFrom chip f f') ↔ NothingStored chip f := by
  have hid : Nor.Blank (formattedMem chip f.mem) (accessoryIdAddr chip) accessoryIdSize := by
    intro i hi
    simp only [accessoryIdSize] at hi
    apply formattedMem_blank
    · simp only [accessoryIdAddr, accessoryIdOffset]
      omega
    · simp only [accessoryIdAddr, accessoryIdOffset, spiFlashSectorSize]
      omega
  have hkey : Nor.Blank (formattedMem chip f.mem) (accessoryKeyAddr chip) accessoryKeySize := by
    intro i hi
    simp only [accessoryKeySize] at hi
    apply formattedMem_blank
    · simp only [accessoryKeyAddr, accessoryKeyOffset]
      omega
    · simp only [accessoryKeyAddr, accessoryKeyOffset, spiFlashSectorSize]
      omega
  have hfmt := @formattedMem_formatted chip f.mem (f.ops + 3)
  constructor
  · intro hex
    obtain ⟨r, f', hc, hcomp⟩ := hex
    obtain rfl := compactData_formats hf h hc
    refine ⟨hcomp.magic.symm.trans hfmt.magic, blank_of_read ?_, blank_of_read ?_, fun i hi => ?_⟩
    · rw [← hcomp.accessoryId, read_of_blank hid]
    · rw [← hcomp.accessoryKey, read_of_blank hkey]
    · cases hd : records chip f i with
      | none => rfl
      | some d => exact absurd ⟨r, _, hc, hcomp⟩ (compactData_loses hf h hi hd)
  · intro hn
    have hlive : ∀ i, compacted maxPairings (records chip f) i = none := by
      intro i
      rw [compacted_eq_none, List.length_eq_zero_iff.mpr]
      · exact Nat.zero_le i
      · exact List.eq_nil_iff_forall_not_mem.mpr (fun d hd => by
          obtain ⟨j, hj, hr⟩ := mem_live.mp hd
          simp [hn.records j hj] at hr)
    refine ⟨-1, { mem := formattedMem chip f.mem, ops := f.ops + 3 }, ?_, ?_⟩
    · rw [compactData_wiped hn.records, homekitStorageReset_eq hf]
    · refine ⟨hfmt.magic.trans hn.magic.symm, ?_, ?_, fun i hi => ?_, fun i _ hi => hfmt.blank i hi⟩
      · rw [read_of_blank hn.accessoryId]
        exact read_of_blank hid
      · rw [read_of_blank hn.accessoryKey]
        exact read_of_blank hkey
      · rw [hlive i]
        exact hfmt.wiped i hi

end Succeeding

theorem compactData_compacts_formatted :
    (∃ r f', compactData benchChip (benchFlash []) = .ok (r, f') ∧ CompactedFrom benchChip (benchFlash []) f') ↔
      NothingStored benchChip (benchFlash []) :=
  compactData_compacts_iff (fun _ => rfl) (benchFlash_formatted.wiped.canAddPairing)

/-- With one record in the store, compact_data erases it. -/
theorem compaction_loses_record :
    homekitStorageCanAddPairing benchChip (benchFlash [benchRecord 3 1]) = true ∧
      ¬ ∃ r f', compactData benchChip (benchFlash [benchRecord 3 1]) = .ok (r, f') ∧
        CompactedFrom benchChip (benchFlash [benchRecord 3 1]) f' := by
  have hcan : homekitStorageCanAddPairing benchChip (benchFlash [benchRecord 3 1]) = true := by decide
  have hlive : isLive (readPairing benchChip (benchFlash [benchRecord 3 1]) 0).magic = true := by decide
  have hrec : records benchChip (benchFlash [benchRecord 3 1]) 0 =
      some (readPairing benchChip (benchFlash [benchRecord 3 1]) 0) := if_pos hlive
  exact ⟨hcan, compactData_loses (fun _ => rfl) hcan (by decide) hrec⟩

end ArduinoHomeKit
