import ArduinoHomeKit.Compaction

/-! The bytes of the sector behind the pairings, which the store leaves to the user. -/

namespace ArduinoHomeKit

open CString SlotStore

/-- The first byte behind the pairings. -/
def storeEnd (chip : FlashChip) : Nat := pairingsAddr chip + sizeofPairingData * maxPairings

/-- Only bytes of the store were changed. -/
def OnlyStoreChanged (chip : FlashChip) (f f' : Flash) : Prop :=
  ∀ a, a < storageBaseAddr chip ∨ storeEnd chip ≤ a → f'.mem a = f.mem a

/-- The user has written nothing behind the pairings. -/
def UserBlank (chip : FlashChip) (f : Flash) : Prop :=
  ∀ a, storeEnd chip ≤ a → a < storageBaseAddr chip + spiFlashSectorSize → f.mem a = 0xFF

/-- The call writes a record. -/
def NeedsBlock (chip : FlashChip) (f : Flash) : StoreCall → Prop
  | .add _ _ _ => True
  | .update deviceId _ => matchSlot chip f deviceId ≠ none
  | .remove _ => False
  | .find _ => False
  | .next _ => False

/-- Looking for a block erases the sector. -/
def Erases (chip : FlashChip) (f : Flash) : Prop :=
  compacts chip f = true ∧ chip.succeeds f.ops = true ∧ chip.succeeds (f.ops + 1) = true

variable {chip : FlashChip} {f g f' : Flash}

theorem OnlyStoreChanged.refl (chip : FlashChip) (f : Flash) : OnlyStoreChanged chip f f := fun _ _ => rfl

theorem OnlyStoreChanged.of_mem (h : f'.mem = f.mem) : OnlyStoreChanged chip f f' := fun _ _ => by rw [h]

/-- What is changed inside the store later makes no difference. -/
theorem OnlyStoreChanged.congr (h : OnlyStoreChanged chip g f') :
    OnlyStoreChanged chip f f' ↔ OnlyStoreChanged chip f g := by
  constructor
  · intro hf a ha
    rw [← h a ha, hf a ha]
  · intro hf a ha
    rw [h a ha, hf a ha]

theorem OnlyStoreChanged.trans (h : OnlyStoreChanged chip f g) (hh : OnlyStoreChanged chip g f') :
    OnlyStoreChanged chip f f' := hh.congr.mpr h

theorem spiflashWrite_store {b : Bool} {addr : Nat} {data : Bytes} (hlo : storageBaseAddr chip ≤ addr)
    (hhi : addr + data.length ≤ storeEnd chip) (h : spiflashWrite chip f addr data = (b, f')) :
    OnlyStoreChanged chip f f' := by
  cases b with
  | false => exact OnlyStoreChanged.of_mem (spiflashWrite_false h)
  | true =>
    intro a ha
    rw [spiflashWrite_true h]
    apply Nor.program_outside
    omega

theorem spiflashWrite_slot {b : Bool} {i : Nat} {data : Bytes} (hi : i < maxPairings)
    (hlen : data.length = sizeofPairingData) (h : spiflashWrite chip f (slotAddr chip i) data = (b, f')) :
    OnlyStoreChanged chip f f' := by
  apply spiflashWrite_store _ _ h
  · simp only [slotAddr, pairingsAddr]
    omega
  · rw [hlen]
    simp only [slotAddr, storeEnd, maxPairings, sizeofPairingData] at *
    omega

theorem spiflashWrite_magic {b : Bool} {data : Bytes} (hlen : data.length = 4)
    (h : spiflashWrite chip f (magicAddr chip) data = (b, f')) : OnlyStoreChanged chip f f' := by
  apply spiflashWrite_store (Nat.le_refl _) _ h
  simp only [hlen, storeEnd, pairingsAddr, pairingsOffset]
  omega

/-- An erased sector agrees with the old one exactly if the user's part was blank. -/
theorem erase_onlyStoreChanged_iff {f' : Flash} (h : f'.mem = Nor.erase f.mem (storageBaseAddr chip) spiFlashSectorSize) :
    OnlyStoreChanged chip f f' ↔ UserBlank chip f := by
  constructor
  · intro hk a hlo hhi
    have hbase : storageBaseAddr chip ≤ a := by
      simp only [storeEnd, pairingsAddr] at hlo
      omega
    rw [← hk a (Or.inr hlo), h, Nor.erase_inside hbase hhi]
  · intro hb a ha
    rw [h]
    by_cases hin : storageBaseAddr chip ≤ a ∧ a < storageBaseAddr chip + spiFlashSectorSize
    · rw [Nor.erase_inside hin.1 hin.2, hb a (by omega) hin.2]
    · rw [Nor.erase_outside (by omega)]

theorem UserBlank.congr (h : OnlyStoreChanged chip f g) : UserBlank chip g ↔ UserBlank chip f := by
  refine forall_congr' (fun a => forall₂_congr (fun hlo _ => ?_))
  rw [h a (Or.inr hlo)]

theorem homekitStorageInit_onlyStoreChanged_iff
    (hm : strncmp 4 (Nor.read f.mem (magicAddr chip) 4) magic1 ≠ 0) :
    OnlyStoreChanged chip f (homekitStorageInit chip f).2 ↔ ¬ chip.succeeds f.ops = true ∨ UserBlank chip f := by
  by_cases hs : chip.succeeds f.ops = true
  · set g : Flash := { mem := Nor.erase f.mem (storageBaseAddr chip) spiFlashSectorSize, ops := f.ops + 1 } with hg
    have hinit : (homekitStorageInit chip f).2 = (spiflashWrite chip g (magicAddr chip) (strncpy 4 magic1)).2 := by
      simp only [homekitStorageInit, if_pos hm, spiflashEraseSector, if_pos hs, sector_base, ← hg]
      cases spiflashWrite chip g (magicAddr chip) (strncpy 4 magic1) with
      | mk b g' => cases b <;> rfl
    have hw := spiflashWrite_magic (by simp)
      (Prod.eta (spiflashWrite chip g (magicAddr chip) (strncpy 4 magic1))).symm
    rw [hinit, hw.congr, erase_onlyStoreChanged_iff rfl]
    simp [hs]
  · have hinit : (homekitStorageInit chip f).2 = { f with ops := f.ops + 1 } := by
      simp only [homekitStorageInit, if_pos hm, spiflashEraseSector, if_neg hs]
    rw [hinit]
    exact iff_of_true (OnlyStoreChanged.of_mem rfl) (Or.inl hs)

/-- A reset spares the user's bytes exactly if it does not come to erase the sector, or
there is nothing in them. -/
theorem homekitStorageReset_onlyStoreChanged_iff :
    OnlyStoreChanged chip f (homekitStorageReset chip f).2 ↔
      ¬ (chip.succeeds f.ops = true ∧ chip.succeeds (f.ops + 1) = true) ∨ UserBlank chip f := by
  unfold homekitStorageReset
  by_cases hs : chip.succeeds f.ops = true
  · have hw : spiflashWrite chip f (magicAddr chip) (List.replicate 4 0) =
        (true, { mem := Nor.program f.mem (magicAddr chip) (List.replicate 4 0), ops := f.ops + 1 }) := if_pos hs
    have hg := spiflashWrite_magic (by simp) hw
    have hiff := homekitStorageInit_onlyStoreChanged_iff (magic_erased hw)
    rw [UserBlank.congr hg] at hiff
    simp only [hw, hs, true_and]
    rw [← hiff]
    constructor
    · intro hk a ha
      rw [hk a ha, hg a ha]
    · exact hg.trans
  · have hw : spiflashWrite chip f (magicAddr chip) (List.replicate 4 0) = (false, { f with ops := f.ops + 1 }) :=
      if_neg hs
    simp only [hw]
    exact iff_of_true (OnlyStoreChanged.of_mem rfl) (Or.inl (fun h => hs h.1))

/-- The search for a block only reads the sector, unless it compacts. -/
theorem findBlock_onlyStoreChanged_iff {b : Option Nat} (h : findBlock chip f = .ok (b, g)) :
    OnlyStoreChanged chip f g ↔ ¬ Erases chip f ∨ UserBlank chip f := by
  by_cases hc : compacts chip f = true
  · have hempty : findEmptyBlock chip f = none ∧ homekitStorageCanAddPairing chip f = true := by
      simpa [compacts] using hc
    have hg : g = (homekitStorageReset chip f).2 := by
      rw [findBlock, hempty.1] at h
      rcases compactData_canAdd hempty.2 with he | hok
      · simp [he] at h
      · simp only [hok, Except.ok.injEq, Prod.mk.injEq] at h
        exact h.2.symm
    rw [hg, homekitStorageReset_onlyStoreChanged_iff]
    simp only [Erases, hc, true_and]
  · have hc' : compacts chip f = false := by simpa using hc
    rw [findBlock_of_not_compacts hc'] at h
    obtain rfl := (Prod.mk.inj (Except.ok.inj h)).2
    exact iff_of_true (OnlyStoreChanged.refl chip f) (Or.inl (fun he => hc he.1))

theorem homekitStorageAddPairing_onlyStoreChanged {id : Bytes} {key : Ed25519Key} {permissions : UInt8} {r : Int}
    (h : homekitStorageAddPairing chip f (some id) key permissions = .ok (r, f')) :
    ∃ b g, findBlock chip f = .ok (b, g) ∧ OnlyStoreChanged chip g f' := by
  unfold homekitStorageAddPairing at h
  cases hb : findBlock chip f with
  | error e => simp [hb] at h
  | ok p =>
    obtain ⟨b, g⟩ := p
    refine ⟨b, g, rfl, ?_⟩
    cases b with
    | none =>
      simp only [hb, Except.ok.injEq, Prod.mk.injEq] at h
      exact h.2 ▸ OnlyStoreChanged.refl chip g
    | some n =>
      have hn := ((findBlock_cases hb).2 n rfl).1
      simp only [hb] at h
      have hw := spiflashWrite_slot hn (PairingData.length_toBytes _)
        (Prod.eta (spiflashWrite chip g (slotAddr chip n) (newPairingData id key.p permissions).toBytes)).symm
      cases hs : spiflashWrite chip g (slotAddr chip n) (newPairingData id key.p permissions).toBytes with
      | mk b g' =>
        rw [hs] at hw
        cases b <;> simp only [hs, Except.ok.injEq, Prod.mk.injEq] at h <;> exact h.2 ▸ hw

theorem homekitStorageUpdatePairing_onlyStoreChanged {id : Bytes} {permissions : UInt8} {r : Int}
    (h : homekitStorageUpdatePairing chip f id permissions = .ok (r, f')) :
    (matchSlot chip f id = none ∧ f' = f) ∨ (matchSlot chip f id ≠ none ∧
      ∃ b g, findBlock chip f = .ok (b, g) ∧ OnlyStoreChanged chip g f') := by
  unfold homekitStorageUpdatePairing at h
  cases hm : matchSlot chip f id with
  | none =>
    simp only [hm, Except.ok.injEq, Prod.mk.injEq] at h
    exact Or.inl ⟨rfl, h.2.symm⟩
  | some i =>
    refine Or.inr ⟨Option.some_ne_none i, ?_⟩
    have hi := (matchSlot_some hm).1
    simp only [hm] at h
    cases hb : findBlock chip f with
    | error e => simp [hb] at h
    | ok p =>
      obtain ⟨b, g⟩ := p
      refine ⟨b, g, rfl, ?_⟩
      cases b with
      | none =>
        simp only [hb, Except.ok.injEq, Prod.mk.injEq] at h
        exact h.2 ▸ OnlyStoreChanged.refl chip g
      | some n =>
        have hn := ((findBlock_cases hb).2 n rfl).1
        simp only [hb] at h
        split at h
        · rename_i g' hs
          have hw := spiflashWrite_slot hn (PairingData.length_toBytes _) hs
          exact (Prod.mk.inj (Except.ok.inj h)).2 ▸ hw
        · rename_i g' hs
          have hw := spiflashWrite_slot hn (PairingData.length_toBytes _) hs
          split at h
          · rename_i g'' hs'
            have hw' := spiflashWrite_slot hi (List.length_replicate ..) hs'
            exact (Prod.mk.inj (Except.ok.inj h)).2 ▸ hw.trans hw'
          · rename_i g'' hs'
            have hw' := spiflashWrite_slot hi (List.length_replicate ..) hs'
            exact (Prod.mk.inj (Except.ok.inj h)).2 ▸ hw.trans hw'

theorem homekitStorageRemovePairing_onlyStoreChanged (f : Flash) (id : Bytes) :
    OnlyStoreChanged chip f (homekitStorageRemovePairing chip f id).2 := by
  unfold homekitStorageRemovePairing
  cases hm : matchSlot chip f id with
  | none => exact OnlyStoreChanged.refl chip f
  | some i =>
    have hi := (matchSlot_some hm).1
    cases hs : spiflashWrite chip f (slotAddr chip i) (List.replicate sizeofPairingData 0) with
    | mk b g =>
      have hw := spiflashWrite_slot hi (List.length_replicate ..) hs
      cases b <;> simpa only [hs] using hw

/-- What one call does to the bytes outside the store. -/
theorem storeStep_onlyStoreChanged_iff {call : StoreCall} (h : storeStep chip f call = .ok f') :
    OnlyStoreChanged chip f f' ↔ ¬ (NeedsBlock chip f call ∧ Erases chip f) ∨ UserBlank chip f := by
  cases call with
  | add id key permissions =>
    obtain ⟨r, hadd⟩ := map_snd_eq_ok h
    obtain ⟨b, f₀, hb, hw⟩ := homekitStorageAddPairing_onlyStoreChanged hadd
    rw [hw.congr, findBlock_onlyStoreChanged_iff hb]
    simp only [NeedsBlock, true_and]
  | update id permissions =>
    obtain ⟨r, hupd⟩ := map_snd_eq_ok h
    rcases homekitStorageUpdatePairing_onlyStoreChanged hupd with ⟨hm, rfl⟩ | ⟨hm, b, f₀, hb, hw⟩
    · exact iff_of_true (OnlyStoreChanged.refl chip _) (Or.inl (fun hn => hn.1 hm))
    · rw [hw.congr, findBlock_onlyStoreChanged_iff hb]
      simp only [NeedsBlock, hm, ne_eq, not_false_eq_true, true_and]
  | remove id =>
    obtain rfl := Except.ok.inj h
    exact iff_of_true (homekitStorageRemovePairing_onlyStoreChanged f id) (Or.inl (fun hn => hn.1))
  | find id =>
    obtain rfl := Except.ok.inj h
    exact iff_of_true (OnlyStoreChanged.refl chip f) (Or.inl (fun hn => hn.1))
  | next it =>
    obtain rfl := Except.ok.inj h
    exact iff_of_true (OnlyStoreChanged.refl chip f) (Or.inl (fun hn => hn.1))

/-- A run leaves the user's bytes alone exactly if no call of it needs a block when the search
for one erases the sector, or there is nothing in them. -/
theorem user_data_kept_run (chip : FlashChip) (f : Flash) (calls : List StoreCall) :
    Runs.Always (storeStep chip) (fun f _ f' => OnlyStoreChanged chip f f') f calls ↔
      Runs.Always (storeStep chip)
        (fun f call _ => ¬ (NeedsBlock chip f call ∧ Erases chip f) ∨ UserBlank chip f) f calls := by
  have hiff : ∀ g call g', True → storeStep chip g call = .ok g' →
      (OnlyStoreChanged chip g g' ↔ ¬ (NeedsBlock chip g call ∧ Erases chip g) ∨ UserBlank chip g) :=
    fun g call g' _ hs => storeStep_onlyStoreChanged_iff hs
  exact Runs.Always.congr (fun _ _ _ _ _ _ => trivial) hiff calls trivial

/-- A formatted sector with a zero in the user's first byte. -/
def userFlash : Flash where
  mem a := if a = storeEnd benchChip then 0 else (benchFlash []).mem a
  ops := 0

theorem userFlash_formatted : Formatted benchChip userFlash := by
  refine ⟨by decide, fun i hi k hk => ?_⟩
  have hne : slotAddr benchChip i + k ≠ storeEnd benchChip := by
    simp only [slotAddr, storeEnd, maxPairings, sizeofPairingData] at *
    omega
  show (if slotAddr benchChip i + k = storeEnd benchChip then 0 else (benchFlash []).mem (slotAddr benchChip i + k)) =
    0xFF
  rw [if_neg hne]
  exact benchFlash_formatted.blank i hi k hk

theorem user_data_tested :
    (match Runs.run (storeStep benchChip) userFlash
      (fillingCalls ++ [.add [17] { p := benchKey 1, k := [] } 1]) with
    | .ok f' => f'.mem (storeEnd benchChip) == 0xFF
    | .error _ => false) = true := by
  decide +kernel

/-- The record after the sixteenth costs the user the bytes behind the store. -/
theorem user_data_erased :
    Formatted benchChip userFlash ∧
      ∃ f', Runs.run (storeStep benchChip) userFlash
          (fillingCalls ++ [.add [17] { p := benchKey 1, k := [] } 1]) = .ok f' ∧
        userFlash.mem (storeEnd benchChip) = 0 ∧ f'.mem (storeEnd benchChip) = 0xFF := by
  have hrun := user_data_tested
  refine ⟨userFlash_formatted, ?_⟩
  cases hr : Runs.run (storeStep benchChip) userFlash
      (fillingCalls ++ [.add [17] { p := benchKey 1, k := [] } 1]) with
  | error e => simp [hr] at hrun
  | ok f' => exact ⟨f', rfl, by decide, by simpa [hr] using hrun⟩

end ArduinoHomeKit
