import ArduinoHomeKit.StoreRecords

/-! What add_pairing, update_pairing, remove_pairing, find_pairing and homekit_is_paired
mean for the live records. -/

namespace ArduinoHomeKit

open CString SlotStore

variable {wc : WolfCrypt} {chip : FlashChip} {f f' : Flash} {r : Int}

theorem Cleared.of_some {i : Nat} {d : PairingData} (h : Cleared chip f f') (hi : i < maxPairings)
    (hd : records chip f' i = some d) : records chip f i = some d := by
  rcases h with h | ⟨_, h⟩
  · rwa [← h]
  · simp [h i hi] at hd

theorem isLive_magic1 : isLive (strncpy 4 magic1) = true := by decide

theorem recordId_newPairingData (deviceId : Bytes) (key : Bytes32) (permissions : UInt8) :
    recordId (newPairingData deviceId key permissions) = controllerId deviceId :=
  strndup_strncpy deviceIdSize deviceId

theorem homekitStorageAddPairing_cases {deviceId : Option Bytes} {key : Ed25519Key} {permissions : UInt8}
    (h : homekitStorageAddPairing chip f deviceId key permissions = .ok (r, f')) :
    ∃ f0, Cleared chip f f0 ∧
      ((r ≠ 0 ∧ records chip f' = records chip f0) ∨
        (r = 0 ∧ ∃ id n, deviceId = some id ∧ n < maxPairings ∧ records chip f0 n = none ∧
          records chip f' = put (records chip f0) n (newPairingData id key.p permissions))) := by
  unfold homekitStorageAddPairing at h
  split at h
  · simp at h
  · rename_i f0 hb
    obtain ⟨rfl, rfl⟩ := Prod.mk.inj (Except.ok.inj h)
    exact ⟨f0, (findBlock_cases hb).1, Or.inl ⟨by decide, rfl⟩⟩
  · rename_i n f0 hb
    obtain ⟨hc, hn⟩ := findBlock_cases hb
    obtain ⟨hlt, hblank⟩ := hn n rfl
    split at h
    · simp at h
    · rename_i id
      split at h
      · rename_i g hg
        obtain ⟨rfl, rfl⟩ := Prod.mk.inj (Except.ok.inj h)
        exact ⟨f0, hc, Or.inl ⟨by decide, records_congr (spiflashWrite_false hg)⟩⟩
      · rename_i g hg
        obtain ⟨rfl, rfl⟩ := Prod.mk.inj (Except.ok.inj h)
        exact ⟨f0, hc, Or.inr ⟨rfl, id, n, rfl, hlt, records_blank hblank,
          records_write isLive_magic1 hblank hg⟩⟩

theorem matchSlot_eq_lookup (deviceId : Bytes) :
    matchSlot chip f deviceId = lookup maxPairings recordId (records chip f) (controllerId deviceId) := by
  have hp : ∀ i, (isLive (readPairing chip f i).magic &&
      strncmp deviceIdSize (readPairing chip f i).deviceId deviceId == 0) =
      (records chip f i).any (fun d => recordId d = controllerId deviceId) := by
    intro i
    by_cases hl : isLive (readPairing chip f i).magic = true
    · simp only [records, hl, if_true, Bool.true_and, Option.any_some, recordId, controllerId,
        ← strncmp_eq_zero_iff, beq_eq_decide]
    · simp [records, hl]
  simp only [matchSlot, lookup, slots, hp]

theorem matchSlot_some {deviceId : Bytes} {i : Nat} (h : matchSlot chip f deviceId = some i) :
    i < maxPairings ∧ records chip f i = some (readPairing chip f i) ∧
      recordId (readPairing chip f i) = controllerId deviceId := by
  rw [matchSlot_eq_lookup] at h
  obtain ⟨d, hd, hk⟩ := lookup_live h
  have hr := (records_some hd).1
  exact ⟨lookup_lt h, by rw [hr, hd], by rw [hr, hk]⟩

theorem matchSlot_none {deviceId : Bytes} :
    matchSlot chip f deviceId = none ↔
      Absent maxPairings recordId (records chip f) (controllerId deviceId) := by
  rw [matchSlot_eq_lookup, lookup_eq_none_iff]

/-- An update writes the new copy first and kills the old one after that. -/
theorem homekitStorageUpdatePairing_cases {deviceId : Bytes} {permissions : UInt8}
    (h : homekitStorageUpdatePairing chip f deviceId permissions = .ok (r, f')) :
    (r ≠ 0 ∧ matchSlot chip f deviceId = none ∧ f' = f) ∨
      ∃ i f0, matchSlot chip f deviceId = some i ∧ Cleared chip f f0 ∧
        ((r ≠ 0 ∧ records chip f' = records chip f0) ∨
          ∃ n < maxPairings, records chip f0 n = none ∧
            let s := put (records chip f0) n { readPairing chip f i with permissions := permissions }
            (r ≠ 0 ∧ records chip f' = s) ∨ (r = 0 ∧ records chip f' = kill s i)) := by
  unfold homekitStorageUpdatePairing at h
  split at h
  · rename_i hm
    obtain ⟨rfl, rfl⟩ := Prod.mk.inj (Except.ok.inj h)
    exact Or.inl ⟨by decide, hm, rfl⟩
  · rename_i i hm
    have hlive := (records_some (matchSlot_some hm).2.1).2
    refine Or.inr ⟨i, ?_⟩
    simp only at h
    split at h
    · simp at h
    · rename_i f0 hb
      obtain ⟨rfl, rfl⟩ := Prod.mk.inj (Except.ok.inj h)
      exact ⟨f0, hm, (findBlock_cases hb).1, Or.inl ⟨by decide, rfl⟩⟩
    · rename_i n f0 hb
      obtain ⟨hc, hn⟩ := findBlock_cases hb
      obtain ⟨hlt, hblank⟩ := hn n rfl
      refine ⟨f0, hm, hc, ?_⟩
      split at h
      · rename_i g hg
        obtain ⟨rfl, rfl⟩ := Prod.mk.inj (Except.ok.inj h)
        exact Or.inl ⟨by decide, records_congr (spiflashWrite_false hg)⟩
      · rename_i g hg
        have hput := records_write (d := { readPairing chip f i with permissions := permissions }) hlive hblank hg
        refine Or.inr ⟨n, hlt, records_blank hblank, ?_⟩
        split at h
        · rename_i g' hg'
          obtain ⟨rfl, rfl⟩ := Prod.mk.inj (Except.ok.inj h)
          exact Or.inl ⟨by decide, (records_congr (spiflashWrite_false hg')).trans hput⟩
        · rename_i g' hg'
          obtain ⟨rfl, rfl⟩ := Prod.mk.inj (Except.ok.inj h)
          exact Or.inr ⟨rfl, by rw [records_zero hg', hput]⟩

theorem homekitStorageRemovePairing_cases {deviceId : Bytes}
    (h : homekitStorageRemovePairing chip f deviceId = (r, f')) :
    (r = 0 ∧ matchSlot chip f deviceId = none ∧ f' = f) ∨
      ∃ i, matchSlot chip f deviceId = some i ∧
        ((r ≠ 0 ∧ records chip f' = records chip f) ∨ (r = 0 ∧ records chip f' = kill (records chip f) i)) := by
  unfold homekitStorageRemovePairing at h
  split at h
  · rename_i hm
    obtain ⟨rfl, rfl⟩ := Prod.mk.inj h
    exact Or.inl ⟨rfl, hm, rfl⟩
  · rename_i i hm
    refine Or.inr ⟨i, hm, ?_⟩
    split at h
    · rename_i g hg
      obtain ⟨rfl, rfl⟩ := Prod.mk.inj h
      exact Or.inl ⟨by decide, records_congr (spiflashWrite_false hg)⟩
    · rename_i g hg
      obtain ⟨rfl, rfl⟩ := Prod.mk.inj h
      exact Or.inr ⟨rfl, records_zero hg⟩

/-- The pairing handed out for a record. -/
def pairingOf (i : Nat) (d : PairingData) : Pairing where
  id := i
  deviceId := recordId d
  deviceKey := { p := d.devicePublicKey, k := [] }
  permissions := d.permissions

theorem loadPairing_eq (i : Nat) :
    loadPairing wc chip f i = some (pairingOf i (readPairing chip f i)) := by
  simp [loadPairing, cryptoEd25519ImportPublicKey_32, pairingOf, recordId, controllerId]

theorem homekitStorageFindPairing_eq (deviceId : Bytes) :
    homekitStorageFindPairing wc chip f deviceId =
      (matchSlot chip f deviceId).map (fun i => pairingOf i (readPairing chip f i)) := by
  rw [homekitStorageFindPairing, funext (@loadPairing_eq wc chip f), Option.map_eq_bind]
  rfl

theorem homekitStorageFindPairing_some {deviceId : Bytes} {pairing : Pairing}
    (h : homekitStorageFindPairing wc chip f deviceId = some pairing) :
    matchSlot chip f deviceId = some pairing.id ∧
      records chip f pairing.id = some (readPairing chip f pairing.id) ∧
      pairing = pairingOf pairing.id (readPairing chip f pairing.id) := by
  rw [homekitStorageFindPairing_eq, Option.map_eq_some_iff] at h
  obtain ⟨i, hi, rfl⟩ := h
  exact ⟨hi, (matchSlot_some hi).2.1, rfl⟩

theorem homekitStorageFindPairing_none {deviceId : Bytes} :
    homekitStorageFindPairing wc chip f deviceId = none ↔
      Absent maxPairings recordId (records chip f) (controllerId deviceId) := by
  rw [homekitStorageFindPairing_eq, Option.map_eq_none_iff, matchSlot_none]

theorem homekitStorageFindPairing_congr {deviceId : Bytes} (h : f'.mem = f.mem) :
    homekitStorageFindPairing wc chip f' deviceId = homekitStorageFindPairing wc chip f deviceId := by
  simp only [homekitStorageFindPairing_eq, matchSlot, readPairing, h]

theorem homekitStorageNextPairing_eq (it : List Nat) :
    homekitStorageNextPairing wc chip f it =
      match it.dropWhile (fun i => (records chip f i).isNone) with
      | [] => none
      | i :: it => some (pairingOf i (readPairing chip f i), it) := by
  induction it with
  | nil => rfl
  | cons i it ih =>
    by_cases hl : isLive (readPairing chip f i).magic = true
    · simp [homekitStorageNextPairing, hl, loadPairing_eq, records]
    · simp [homekitStorageNextPairing, hl, records, ih]

theorem adminFound_eq_true {fuel : Nat} {it : List Nat} (hlen : it.length ≤ fuel) :
    adminFound wc chip f fuel it = true ↔
      ∃ i ∈ it, ∃ d, records chip f i = some d ∧ isAdmin d.permissions = true := by
  induction fuel generalizing it with
  | zero =>
    have hnil : it = [] := List.length_eq_zero_iff.mp (Nat.le_zero.mp hlen)
    simp [adminFound, hnil]
  | succ fuel ih =>
    have hsplit := List.takeWhile_append_dropWhile (p := fun i => (records chip f i).isNone) (l := it)
    have hdead : ∀ i ∈ it.takeWhile (fun i => (records chip f i).isNone), records chip f i = none :=
      fun i hi => by simpa using List.mem_takeWhile_imp hi
    rw [adminFound, homekitStorageNextPairing_eq]
    cases hd : it.dropWhile (fun i => (records chip f i).isNone) with
    | nil =>
      rw [hd, List.append_nil] at hsplit
      simp only [Bool.false_eq_true, false_iff]
      rintro ⟨i, hi, d, hr, _⟩
      have hdi := hdead i (by rwa [hsplit])
      simp [hdi] at hr
    | cons i rest =>
      have hlive : records chip f i = some (readPairing chip f i) := by
        have hh := List.head?_dropWhile_not (fun i => (records chip f i).isNone) it
        rw [hd] at hh
        obtain ⟨d, hr⟩ := Option.isSome_iff_exists.mp (by simpa using hh)
        rw [(records_some hr).1, hr]
      have hrest : rest.length ≤ fuel := by
        have := congrArg List.length hsplit
        simp only [hd, List.length_append, List.length_cons] at this
        omega
      have hmem : ∀ p : Nat → Prop, (∀ i, records chip f i = none → ¬ p i) →
          ((∃ j ∈ it, p j) ↔ p i ∨ ∃ j ∈ rest, p j) := by
        intro p hp
        rw [← hsplit, hd]
        constructor
        · rintro ⟨j, hj, hpj⟩
          rcases List.mem_append.mp hj with hj | hj
          · exact absurd hpj (hp j (hdead j hj))
          · rcases List.mem_cons.mp hj with rfl | hj
            · exact Or.inl hpj
            · exact Or.inr ⟨j, hj, hpj⟩
        · rintro (hpi | ⟨j, hj, hpj⟩)
          · exact ⟨i, by simp, hpi⟩
          · exact ⟨j, by simp [hj], hpj⟩
      rw [hmem _ (fun i hi hp => by obtain ⟨d, hd, _⟩ := hp; simp [hi] at hd), ← ih hrest]
      by_cases ha : isAdmin (readPairing chip f i).permissions = true
      · simp [pairingOf, hlive, ha]
      · simp [pairingOf, hlive, ha]

/-- homekit_is_paired looks for a live record with the admin bit. -/
theorem homekitIsPaired_eq_true :
    homekitIsPaired wc chip f = true ↔
      Holds maxPairings (records chip f) (fun d => isAdmin d.permissions = true) := by
  rw [homekitIsPaired, adminFound_eq_true (by simp [slots])]
  simp only [slots, List.mem_range, Holds]

theorem homekitIsPaired_congr (h : records chip f' = records chip f) :
    homekitIsPaired wc chip f' = homekitIsPaired wc chip f := by
  rw [Bool.eq_iff_iff, homekitIsPaired_eq_true, homekitIsPaired_eq_true, h]

section Succeeding

/-! With a flash that never fails and no compaction, every operation has one outcome. -/

variable (hf : ∀ n, chip.succeeds n = true)
include hf

theorem spiflashWrite_succeeds (f : Flash) (addr : Nat) (data : Bytes) :
    ∃ f', spiflashWrite chip f addr data = (true, f') := by
  rw [spiflashWrite, if_pos (hf _)]
  exact ⟨_, rfl⟩

theorem homekitStorageReset_succeeds (f : Flash) : SlotsBlank chip (homekitStorageReset chip f).2 := by
  obtain ⟨g, hg⟩ := spiflashWrite_succeeds hf f (magicAddr chip) (List.replicate 4 0)
  have he : ∃ g', spiflashEraseSector chip g (storageBaseAddr chip) = (true, g') := by
    rw [spiflashEraseSector, if_pos (hf _)]
    exact ⟨_, rfl⟩
  obtain ⟨g', he⟩ := he
  obtain ⟨g'', hg'⟩ := spiflashWrite_succeeds hf g' (magicAddr chip) (strncpy 4 magic1)
  simp only [homekitStorageReset, hg, homekitStorageInit, if_pos (magic_erased hg), he, hg']
  exact (erase_slotsBlank he).congr (records_write_magic (by simp) hg')

/-- No block is found only in a full store, which the search leaves alone. -/
theorem findBlock_succeeds (h : findBlock chip f = .ok (none, f')) : f' = f := by
  unfold findBlock at h
  split at h
  · simp at h
  · split at h
    · simp at h
    · rename_i r g hg
      obtain ⟨hn, rfl⟩ := Prod.mk.inj (Except.ok.inj h)
      unfold compactData at hg
      split at hg
      · simp at hg
      · split at hg
        · exact (Prod.mk.inj (Except.ok.inj hg)).2.symm
        · have hb := homekitStorageReset_succeeds hf f
          have hr := (homekitStorageReset_cases (Prod.eta (homekitStorageReset chip f)).symm).1
          simp only [hr, ne_eq, not_false_eq_true, if_true, Except.ok.injEq, Prod.mk.injEq] at hg
          exact absurd hn (hg.2 ▸ findEmptyBlock_ne_none hb)

theorem homekitStorageAddPairing_failed {deviceId : Option Bytes} {key : Ed25519Key}
    {permissions : UInt8} (h : homekitStorageAddPairing chip f deviceId key permissions = .ok (r, f'))
    (hr : r ≠ 0) : f' = f := by
  unfold homekitStorageAddPairing at h
  split at h
  · simp at h
  · rename_i f0 hb
    exact (Prod.mk.inj (Except.ok.inj h)).2 ▸ findBlock_succeeds hf hb
  · rename_i n f0 _
    split at h
    · simp at h
    · rename_i id
      obtain ⟨g, hg⟩ := spiflashWrite_succeeds hf f0 (slotAddr chip n) (newPairingData id key.p permissions).toBytes
      simp only [hg] at h
      exact absurd (Prod.mk.inj (Except.ok.inj h)).1.symm hr

theorem homekitStorageUpdatePairing_failed {deviceId : Bytes} {permissions : UInt8}
    (h : homekitStorageUpdatePairing chip f deviceId permissions = .ok (r, f')) (hr : r ≠ 0) : f' = f := by
  unfold homekitStorageUpdatePairing at h
  split at h
  · exact (Prod.mk.inj (Except.ok.inj h)).2.symm
  · rename_i i _
    dsimp only at h
    split at h
    · simp at h
    · rename_i f0 hb
      exact (Prod.mk.inj (Except.ok.inj h)).2 ▸ findBlock_succeeds hf hb
    · rename_i n f0 _
      obtain ⟨g, hg⟩ := spiflashWrite_succeeds hf f0 (slotAddr chip n)
        { readPairing chip f i with permissions := permissions }.toBytes
      obtain ⟨g', hg'⟩ := spiflashWrite_succeeds hf g (slotAddr chip i) (List.replicate sizeofPairingData 0)
      simp only [hg, hg'] at h
      exact absurd (Prod.mk.inj (Except.ok.inj h)).1.symm hr

theorem homekitStorageRemovePairing_succeeds (f : Flash) (deviceId : Bytes) :
    (homekitStorageRemovePairing chip f deviceId).1 = 0 := by
  unfold homekitStorageRemovePairing
  split
  · rfl
  · rename_i i _
    obtain ⟨g, hg⟩ := spiflashWrite_succeeds hf f (slotAddr chip i) (List.replicate sizeofPairingData 0)
    simp only [hg]

theorem homekitStorageAddPairing_succeeds {deviceId : Option Bytes} {key : Ed25519Key}
    {permissions : UInt8} (hc : compacts chip f = false)
    (h : homekitStorageAddPairing chip f deviceId key permissions = .ok (r, f')) :
    (findEmptyBlock chip f = none ∧ r ≠ 0 ∧ f' = f) ∨
      ∃ n id, findEmptyBlock chip f = some n ∧ deviceId = some id ∧ r = 0 ∧ n < maxPairings ∧
        records chip f n = none ∧
        records chip f' = put (records chip f) n (newPairingData id key.p permissions) := by
  simp only [homekitStorageAddPairing, findBlock_of_not_compacts hc] at h
  cases hb : findEmptyBlock chip f with
  | none =>
    simp only [hb, Except.ok.injEq, Prod.mk.injEq] at h
    exact Or.inl ⟨rfl, by omega, h.2.symm⟩
  | some n =>
    obtain ⟨hn, hblank⟩ := findEmptyBlock_some hb
    cases deviceId with
    | none => simp [hb] at h
    | some id =>
      obtain ⟨g, hg⟩ := spiflashWrite_succeeds hf f (slotAddr chip n) (newPairingData id key.p permissions).toBytes
      simp only [hb, hg, Except.ok.injEq, Prod.mk.injEq] at h
      obtain ⟨hr, rfl⟩ := h
      exact Or.inr ⟨n, id, rfl, rfl, hr.symm, hn, records_blank hblank, records_write isLive_magic1 hblank hg⟩

theorem homekitStorageUpdatePairing_succeeds {deviceId : Bytes} {permissions : UInt8}
    (hc : compacts chip f = false)
    (h : homekitStorageUpdatePairing chip f deviceId permissions = .ok (r, f')) :
    (r ≠ 0 ∧ f' = f) ∨
      ∃ i n, matchSlot chip f deviceId = some i ∧ r = 0 ∧ n < maxPairings ∧ records chip f n = none ∧
        records chip f' =
          kill (put (records chip f) n { readPairing chip f i with permissions := permissions }) i := by
  simp only [homekitStorageUpdatePairing, findBlock_of_not_compacts hc] at h
  cases hm : matchSlot chip f deviceId with
  | none =>
    simp only [hm, Except.ok.injEq, Prod.mk.injEq] at h
    exact Or.inl ⟨by omega, h.2.symm⟩
  | some i =>
    cases hb : findEmptyBlock chip f with
    | none =>
      simp only [hm, hb, Except.ok.injEq, Prod.mk.injEq] at h
      exact Or.inl ⟨by omega, h.2.symm⟩
    | some n =>
      have hlive := (records_some (matchSlot_some hm).2.1).2
      obtain ⟨hn, hblank⟩ := findEmptyBlock_some hb
      obtain ⟨g, hg⟩ := spiflashWrite_succeeds hf f (slotAddr chip n)
        { readPairing chip f i with permissions := permissions }.toBytes
      obtain ⟨g', hg'⟩ := spiflashWrite_succeeds hf g (slotAddr chip i) (List.replicate sizeofPairingData 0)
      simp only [hm, hb, hg, hg', Except.ok.injEq, Prod.mk.injEq] at h
      obtain ⟨hr, rfl⟩ := h
      refine Or.inr ⟨i, n, rfl, hr.symm, hn, records_blank hblank, ?_⟩
      rw [records_zero hg',
        records_write (d := { readPairing chip f i with permissions := permissions }) hlive hblank hg]

end Succeeding

end ArduinoHomeKit
