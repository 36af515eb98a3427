import ArduinoHomeKit.UserData
import ArduinoHomeKit.Boot

/-! Updates and additions that are cut short. Whatever flash operations fail, from power loss on
or only once, the next boot repairs nothing, so what they leave behind is what the store keeps. -/

namespace ArduinoHomeKit

open CString SlotStore

/-- The chip of a board that loses power at its `n`-th flash operation. -/
def FlashChip.cutAt (chip : FlashChip) (n : Nat) : FlashChip :=
  { chip with succeeds := fun k => decide (k < n) && chip.succeeds k }

/-- The same sector, with other operations that succeed. -/
def FlashChip.rebooted (chip : FlashChip) (succeeds : Nat → Bool) : FlashChip := { chip with succeeds := succeeds }

/-- The call writes a record of the device. -/
def WritesFor (id : Bytes) : StoreCall → Prop
  | .add deviceId _ _ => deviceId = id
  | .update deviceId _ => deviceId = id
  | .remove _ => False
  | .find _ => False
  | .next _ => False

/-- The record that a call writes. -/
def NewRecord (chip : FlashChip) (f : Flash) : StoreCall → PairingData → Prop
  | .add deviceId key permissions, d => d = newPairingData deviceId key.p permissions
  | .update deviceId permissions, d =>
    ∃ i, matchSlot chip f deviceId = some i ∧ d = (readPairing chip f i).withPermissions permissions
  | .remove _, _ => False
  | .find _, _ => False
  | .next _, _ => False

variable {wc : WolfCrypt} {chip : FlashChip} {f f' : Flash} {identity : Bytes × Ed25519Key} {id : Bytes} {r : Int}
  {key : Ed25519Key} {permissions : UInt8} {n : Nat}

/-- What lies before the pairings is not touched. -/
def HeaderKept (chip : FlashChip) (f f' : Flash) : Prop := ∀ a < pairingsAddr chip, f'.mem a = f.mem a

theorem spiflashWrite_header {b : Bool} {i : Nat} {data : Bytes}
    (h : spiflashWrite chip f (slotAddr chip i) data = (b, f')) : HeaderKept chip f f' := by
  intro a ha
  cases b with
  | false => rw [spiflashWrite_false h]
  | true =>
    rw [spiflashWrite_true h]
    apply Nor.program_outside
    simp only [slotAddr]
    omega

theorem HeaderKept.trans {g : Flash} (h : HeaderKept chip f g) (hh : HeaderKept chip g f') : HeaderKept chip f f' :=
  fun a ha => (hh a ha).trans (h a ha)

theorem HeaderKept.read (h : HeaderKept chip f f') {addr len : Nat} (hle : addr + len ≤ pairingsAddr chip) :
    Nor.read f'.mem addr len = Nor.read f.mem addr len :=
  Nor.read_congr (fun i hi => h (addr + i) (by omega))

theorem Running.congr (h : Running wc chip f identity) (hk : HeaderKept chip f f') (succeeds : Nat → Bool) :
    Running wc (chip.rebooted succeeds) f' identity := by
  have hmagic : Nor.read f'.mem (magicAddr chip) 4 = Nor.read f.mem (magicAddr chip) 4 :=
    hk.read (by simp only [magicAddr, pairingsAddr, pairingsOffset]; omega)
  have hid : Nor.read f'.mem (accessoryIdAddr chip) accessoryIdSize =
      Nor.read f.mem (accessoryIdAddr chip) accessoryIdSize :=
    hk.read (by simp only [accessoryIdAddr, accessoryIdOffset, accessoryIdSize, pairingsAddr, pairingsOffset]; omega)
  have hkey : Nor.read f'.mem (accessoryKeyAddr chip) accessoryKeySize =
      Nor.read f.mem (accessoryKeyAddr chip) accessoryKeySize :=
    hk.read (by simp only [accessoryKeyAddr, accessoryKeyOffset, accessoryKeySize, pairingsAddr, pairingsOffset]; omega)
  have hload : loadIdentity wc (chip.rebooted succeeds) f' = loadIdentity wc chip f := by
    show loadIdentity wc chip f' = _
    simp only [loadIdentity, homekitStorageLoadAccessoryId, homekitStorageLoadAccessoryKey, hid, hkey]
  refine ⟨?_, hload.trans h.identity⟩
  show strncmp 4 (Nor.read f'.mem (magicAddr chip) 4) magic1 = 0
  rw [hmagic]
  exact h.magic

theorem homekitStorageAddPairing_writes (hc : compacts chip f = false)
    (h : homekitStorageAddPairing chip f (some id) key permissions = .ok (r, f')) :
    f' = f ∨ ∃ n b, findEmptyBlock chip f = some n ∧
      spiflashWrite chip f (slotAddr chip n) (newPairingData id key.p permissions).toBytes = (b, f') := by
  simp only [homekitStorageAddPairing, findBlock_of_not_compacts hc] at h
  cases hb : findEmptyBlock chip f with
  | none =>
    simp only [hb, Except.ok.injEq, Prod.mk.injEq] at h
    exact Or.inl h.2.symm
  | some n =>
    cases hw : spiflashWrite chip f (slotAddr chip n) (newPairingData id key.p permissions).toBytes with
    | mk b g =>
      right
      cases b <;> simp only [hb, hw, Except.ok.injEq, Prod.mk.injEq] at h <;> exact ⟨n, _, rfl, h.2 ▸ hw⟩

theorem homekitStorageUpdatePairing_writes (hc : compacts chip f = false)
    (h : homekitStorageUpdatePairing chip f id permissions = .ok (r, f')) :
    f' = f ∨ ∃ i n b g, matchSlot chip f id = some i ∧ findEmptyBlock chip f = some n ∧
      spiflashWrite chip f (slotAddr chip n) ((readPairing chip f i).withPermissions permissions).toBytes = (b, g) ∧
      (f' = g ∨ b = true ∧ ∃ b',
        spiflashWrite chip g (slotAddr chip i) (List.replicate sizeofPairingData 0) = (b', f')) := by
  simp only [homekitStorageUpdatePairing, findBlock_of_not_compacts hc] at h
  cases hm : matchSlot chip f id with
  | none =>
    simp only [hm, Except.ok.injEq, Prod.mk.injEq] at h
    exact Or.inl h.2.symm
  | some i =>
    cases hb : findEmptyBlock chip f with
    | none =>
      simp only [hm, hb, Except.ok.injEq, Prod.mk.injEq] at h
      exact Or.inl h.2.symm
    | some n =>
      right
      cases hw : spiflashWrite chip f (slotAddr chip n)
          ((readPairing chip f i).withPermissions permissions).toBytes with
      | mk b g =>
        refine ⟨i, n, b, g, rfl, rfl, hw, ?_⟩
        rw [PairingData.withPermissions] at hw
        cases b with
        | false =>
          simp only [hm, hb, hw, Except.ok.injEq, Prod.mk.injEq] at h
          exact Or.inl h.2.symm
        | true =>
          right
          cases hz : spiflashWrite chip g (slotAddr chip i) (List.replicate sizeofPairingData 0) with
          | mk b' g' =>
            refine ⟨rfl, b', ?_⟩
            cases b' <;> simp only [hm, hb, hw, hz, Except.ok.injEq, Prod.mk.injEq] at h <;> rw [h.2]

/-- What is left of an addition or an update, whichever of its flash operations fail. -/
theorem storeStep_oneChanged {call : StoreCall} (hcall : WritesFor id call) (hc : compacts chip f = false)
    (hd : Distinct maxPairings recordId (records chip f)) (h : storeStep chip f call = .ok f') :
    HeaderKept chip f f' ∧
      OneChanged maxPairings recordId (records chip f) (records chip f') (controllerId id) (NewRecord chip f call) := by
  have hsame : HeaderKept chip f f ∧
      OneChanged maxPairings recordId (records chip f) (records chip f) (controllerId id) (NewRecord chip f call) :=
    ⟨fun _ _ => rfl, OneChanged.refl hd _ _⟩
  cases call with
  | add deviceId key permissions =>
    obtain rfl : deviceId = id := hcall
    obtain ⟨r, hadd⟩ := map_snd_eq_ok h
    rcases homekitStorageAddPairing_writes hc hadd with rfl | ⟨n, b, hb, hw⟩
    · exact hsame
    · refine ⟨spiflashWrite_header hw, ?_⟩
      cases b with
      | false =>
        rw [records_congr (spiflashWrite_false hw)]
        exact hsame.2
      | true =>
        obtain ⟨hn, hblank⟩ := findEmptyBlock_some hb
        rw [records_write isLive_magic1 hblank hw, ← recordId_newPairingData deviceId key.p permissions]
        exact oneChanged_put hd hn (records_blank hblank) rfl
  | update deviceId permissions =>
    obtain rfl : deviceId = id := hcall
    obtain ⟨r, hupd⟩ := map_snd_eq_ok h
    rcases homekitStorageUpdatePairing_writes hc hupd with rfl | ⟨i, n, b, g, hm, hb, hw, hrest⟩
    · exact hsame
    · obtain ⟨hi, hr, hid⟩ := matchSlot_some hm
      obtain ⟨hn, hblank⟩ := findEmptyBlock_some hb
      have hg := spiflashWrite_header hw
      rw [← hid]
      cases b with
      | false =>
        obtain rfl : f' = g := hrest.resolve_right (fun hz => Bool.false_ne_true hz.1)
        rw [records_congr (spiflashWrite_false hw)]
        exact ⟨hg, OneChanged.refl hd _ _⟩
      | true =>
        have hput := records_write (show isLive ((readPairing chip f i).withPermissions permissions).magic = true from
          (records_some hr).2) hblank hw
        -- the new version is there, the old one still is
        have hboth : OneChanged maxPairings recordId (records chip f) (records chip g)
            (recordId (readPairing chip f i)) (NewRecord chip f (.update deviceId permissions)) := by
          rw [hput, ← recordId_withPermissions (readPairing chip f i) permissions]
          exact oneChanged_put hd hn (records_blank hblank) ⟨i, hm, rfl⟩
        rcases hrest with rfl | ⟨_, b', hz⟩
        · exact ⟨hg, hboth⟩
        · refine ⟨hg.trans (spiflashWrite_header hz), ?_⟩
          cases b' with
          | false =>
            rw [records_congr (spiflashWrite_false hz)]
            exact hboth
          | true =>
            rw [records_zero hz, hput]
            exact oneChanged_move hd hn hi hr (records_blank hblank) rfl ⟨i, hm, rfl⟩
  | remove _ => exact hcall.elim
  | find _ => exact hcall.elim
  | next _ => exact hcall.elim

theorem storeStep_ok {call : StoreCall} (hcall : WritesFor id call) (hc : compacts chip f = false) :
    ∃ f', storeStep chip f call = .ok f' := by
  have hblock := findBlock_of_not_compacts hc
  cases call with
  | add deviceId key permissions =>
    simp only [storeStep, homekitStorageAddPairing, hblock]
    cases findEmptyBlock chip f with
    | none => exact ⟨_, rfl⟩
    | some n =>
      dsimp only
      split <;> exact ⟨_, rfl⟩
  | update deviceId permissions =>
    simp only [storeStep, homekitStorageUpdatePairing, hblock]
    cases matchSlot chip f deviceId with
    | none => exact ⟨_, rfl⟩
    | some i =>
      cases findEmptyBlock chip f with
      | none => exact ⟨_, rfl⟩
      | some n =>
        dsimp only
        split
        · exact ⟨_, rfl⟩
        · split <;> exact ⟨_, rfl⟩
  | remove _ => exact hcall.elim
  | find _ => exact hcall.elim
  | next _ => exact hcall.elim

/-- After an addition or an update that needs no compaction, of which any flash operations
fail, the boot finds every other device with its old record and the device itself with its
old one, its new one, or both. -/
theorem power_loss_keeps_records {call : StoreCall} (hrun : Running wc chip f identity)
    (hd : Distinct maxPairings recordId (records chip f)) (hc : compacts chip f = false) (hcall : WritesFor id call)
    (succeeds : Nat → Bool) (e : Entropy) :
    ∃ f', storeStep chip f call = .ok f' ∧ bootStorage wc (chip.rebooted succeeds) e f' = (identity, f') ∧
      OneChanged maxPairings recordId (records chip f) (records (chip.rebooted succeeds) f') (controllerId id)
        (NewRecord chip f call) := by
  obtain ⟨f', h⟩ := storeStep_ok hcall hc
  obtain ⟨hkept, hone⟩ := storeStep_oneChanged hcall hc hd h
  exact ⟨f', h, (hrun.congr hkept succeeds).bootStorage e, hone⟩

/-- The store of a running accessory that was paired with controller 3. -/
def pairedFlash : Flash := (renewIdentity benchChip (benchEntropy 171) (benchFlash [benchRecord 3 1])).2

/-- A chip that carries out one more operation. -/
def dyingChip : FlashChip := benchChip.cutAt (pairedFlash.ops + 1)

/-- It loads, has one record of each device and an empty slot, and an update leaves two records. -/
theorem paired_flash_tested :
    ((match loadIdentity benchCrypto dyingChip pairedFlash with | .ok _ => true | .error _ => false) &&
    strncmp 4 (Nor.read pairedFlash.mem (magicAddr dyingChip) 4) magic1 == 0 &&
    decide ((live maxPairings (records dyingChip pairedFlash)).map recordId).Nodup &&
    !compacts dyingChip pairedFlash &&
    match storeStep dyingChip pairedFlash (.update (benchId 3) 0) with
    | .ok f' => (records benchChip f' 0).any (fun d => recordId d == benchId 3) &&
        (records benchChip f' 1).any (fun d => recordId d == benchId 3)
    | .error _ => false) = true := by
  decide +kernel

theorem pairedFlash_running : ∃ identity, Running benchCrypto dyingChip pairedFlash identity := by
  have htest := paired_flash_tested
  simp only [Bool.and_eq_true, beq_iff_eq] at htest
  obtain ⟨⟨⟨⟨hload, hmagic⟩, _⟩, _⟩, _⟩ := htest
  cases hl : loadIdentity benchCrypto dyingChip pairedFlash with
  | error r => simp [hl] at hload
  | ok identity => exact ⟨identity, hmagic, hl⟩

theorem pairedFlash_distinct : Distinct maxPairings recordId (records dyingChip pairedFlash) := by
  have htest := paired_flash_tested
  simp only [Bool.and_eq_true, decide_eq_true_eq] at htest
  exact distinct_of_nodup htest.1.1.2

theorem pairedFlash_compacts : compacts dyingChip pairedFlash = false := by
  have htest := paired_flash_tested
  simp only [Bool.and_eq_true, Bool.not_eq_true'] at htest
  exact htest.1.2

theorem power_loss_keeps_records_update :
    ∃ identity f', storeStep dyingChip pairedFlash (.update (benchId 3) 0) = .ok f' ∧
      bootStorage benchCrypto (dyingChip.rebooted fun _ => true) (benchEntropy 7) f' = (identity, f') ∧
      OneChanged maxPairings recordId (records dyingChip pairedFlash)
        (records (dyingChip.rebooted fun _ => true) f') (controllerId (benchId 3))
        (NewRecord dyingChip pairedFlash (.update (benchId 3) 0)) := by
  obtain ⟨identity, hrun⟩ := pairedFlash_running
  have hcall : WritesFor (benchId 3) (.update (benchId 3) 0) := rfl
  exact ⟨identity, power_loss_keeps_records hrun pairedFlash_distinct pairedFlash_compacts hcall (fun _ => true)
    (benchEntropy 7)⟩

/-- Power lost between the two writes of an update leaves two live records, and the boot keeps both. -/
theorem power_loss_leaves_two_records :
    Distinct maxPairings recordId (records dyingChip pairedFlash) ∧
      ∃ f', storeStep dyingChip pairedFlash (.update (benchId 3) 0) = .ok f' ∧
        (∀ e, (bootStorage benchCrypto benchChip e f').2 = f') ∧
        ∃ d d', records benchChip f' 0 = some d ∧ records benchChip f' 1 = some d' ∧
          recordId d = benchId 3 ∧ recordId d' = benchId 3 := by
  refine ⟨pairedFlash_distinct, ?_⟩
  have htest := paired_flash_tested
  simp only [Bool.and_eq_true] at htest
  obtain ⟨_, hleft⟩ := htest
  cases hs : storeStep dyingChip pairedFlash (.update (benchId 3) 0) with
  | error e => simp [hs] at hleft
  | ok f' =>
    simp only [hs, Bool.and_eq_true, Option.any_eq_true, beq_iff_eq] at hleft
    obtain ⟨⟨d, hd, hid⟩, d', hd', hid'⟩ := hleft
    obtain ⟨identity, hp⟩ := pairedFlash_running
    have hcall : WritesFor (benchId 3) (.update (benchId 3) 0) := rfl
    obtain ⟨hkept, _⟩ := storeStep_oneChanged hcall pairedFlash_compacts pairedFlash_distinct hs
    have hboot : ∀ e, bootStorage benchCrypto benchChip e f' = (identity, f') :=
      fun e => (hp.congr hkept benchChip.succeeds).bootStorage e
    exact ⟨f', rfl, fun e => by rw [hboot e], d, d', hd, hd', hid, hid'⟩

end ArduinoHomeKit
