import Mathlib.Data.Finset.Card
import ArduinoHomeKit.Compaction

/-! What can_add_pairing promises and what add_pairing keeps of it. -/

namespace ArduinoHomeKit

open CString SlotStore

section Definitions

variable (wc : WolfCrypt) (chip : FlashChip) (f : Flash) (id : Bytes) (key : Ed25519Key) (permissions : UInt8)

/-- The next add_pairing returns 0 and stores the pairing. -/
def AddStores : Prop :=
  ∃ f', homekitStorageAddPairing chip f (some id) key permissions = .ok (0, f') ∧
    ∃ slot, homekitStorageFindPairing wc chip f' id = some
      { id := slot, deviceId := controllerId id, deviceKey := { p := key.p, k := [] }, permissions := permissions }

/-- The pairings that were found before are found after it. -/
def AddKeeps : Prop :=
  ∀ f', homekitStorageAddPairing chip f (some id) key permissions = .ok (0, f') →
    ∀ other pairing, homekitStorageFindPairing wc chip f other = some pairing →
      ∃ slot, homekitStorageFindPairing wc chip f' other = some { pairing with id := slot }

/-- can_add_pairing tells whether a new device can be added, and adding it loses nothing. -/
def CapacityRight : Prop :=
  ∀ id key permissions, Absent maxPairings recordId (records chip f) (controllerId id) →
    (homekitStorageCanAddPairing chip f = true ↔ AddStores wc chip f id key permissions) ∧
      (homekitStorageCanAddPairing chip f = true → AddKeeps wc chip f id key permissions)

/-- There is an empty slot, or there is no room, or there is nothing to lose. -/
def CanTake : Prop :=
  findEmptyBlock chip f ≠ none ∨ homekitStorageCanAddPairing chip f = false ∨ Wiped chip f

end Definitions

variable {wc : WolfCrypt} {chip : FlashChip} {f f' : Flash} {id : Bytes} {key : Ed25519Key} {permissions : UInt8}
  {n : Nat}

theorem Absent.of_wiped (h : Wiped chip f) (k : Bytes) : Absent maxPairings recordId (records chip f) k := by
  intro i hi d hd
  simp [h i hi] at hd

/-- The pairing of a record that was put into the store. -/
theorem findPairing_put_self (hn : n < maxPairings)
    (habs : Absent maxPairings recordId (records chip f) (controllerId id))
    (h : records chip f' = put (records chip f) n (newPairingData id key.p permissions)) :
    homekitStorageFindPairing wc chip f' id = some
      { id := n, deviceId := controllerId id, deviceKey := { p := key.p, k := [] }, permissions := permissions } := by
  have hkey := recordId_newPairingData id key.p permissions
  have hat : records chip f' n = some (newPairingData id key.p permissions) := by rw [h, put_self]
  have hm : matchSlot chip f' id = some n := by
    rw [matchSlot_eq_lookup, lookup_eq_some_iff]
    refine ⟨hn, ⟨_, hat, hkey⟩, fun j hj d hd => ?_⟩
    rw [h, put_of_ne (Nat.ne_of_lt hj)] at hd
    exact habs j (Nat.lt_trans hj hn) d hd
  rw [homekitStorageFindPairing_eq, hm, Option.map_some, (records_some hat).1, pairingOf, hkey]
  rfl

/-- The other pairings stay where they are. -/
theorem findPairing_put_other {other : Bytes} (hnone : records chip f n = none) (hne : controllerId id ≠ controllerId other)
    (h : records chip f' = put (records chip f) n (newPairingData id key.p permissions)) :
    homekitStorageFindPairing wc chip f' other = homekitStorageFindPairing wc chip f other := by
  have hkey := recordId_newPairingData id key.p permissions
  have hm : matchSlot chip f' other = matchSlot chip f other := by
    rw [matchSlot_eq_lookup, matchSlot_eq_lookup, h, lookup_put_of_ne hnone (hkey ▸ hne)]
  rw [homekitStorageFindPairing_eq, homekitStorageFindPairing_eq, hm]
  cases hs : matchSlot chip f other with
  | none => rfl
  | some i =>
    have hlive := (matchSlot_some hs).2.1
    have hin : i ≠ n := fun he => by simp [he, hnone] at hlive
    have hlive' : records chip f' i = some (readPairing chip f i) := by rw [h, put_of_ne hin, hlive]
    rw [Option.map_some, Option.map_some, (records_some hlive').1]

/-- There are more device ids than slots. -/
theorem exists_new_device (chip : FlashChip) (f : Flash) :
    ∃ id, Absent maxPairings recordId (records chip f) (controllerId id) := by
  let ids := (Finset.range 17).image (fun n => List.replicate n (1 : UInt8))
  let used := ((live maxPairings (records chip f)).map recordId).toFinset
  have hids : ids.card = 17 := by
    rw [Finset.card_image_of_injective _ (fun a b h => by simpa using congrArg List.length h), Finset.card_range]
  have hused : used.card ≤ maxPairings := by
    refine (List.toFinset_card_le _).trans ?_
    rw [List.length_map]
    exact length_live_le
  obtain ⟨id, hid, hnot⟩ := Finset.exists_mem_notMem_of_card_lt_card (show used.card < ids.card by
    have : maxPairings = 16 := rfl
    omega)
  obtain ⟨n, hn, rfl⟩ := Finset.mem_image.mp hid
  have hdev : DeviceId (List.replicate n (1 : UInt8)) := by
    refine ⟨?_, ?_⟩
    · have := Finset.mem_range.mp hn
      simp only [List.length_replicate, deviceIdSize]
      omega
    · simp
  refine ⟨List.replicate n 1, fun i hi d hd hk => hnot ?_⟩
  rw [controllerId_of_deviceId hdev] at hk
  exact List.mem_toFinset.mpr (List.mem_map.mpr ⟨d, mem_live.mpr ⟨i, hi, hd⟩, hk⟩)

section Succeeding

variable (hf : ∀ n, chip.succeeds n = true)
include hf

theorem homekitStorageAddPairing_put {g : Flash} (hb : findBlock chip f = .ok (some n, g)) (id : Bytes)
    (key : Ed25519Key) (permissions : UInt8) :
    ∃ f', homekitStorageAddPairing chip f (some id) key permissions = .ok (0, f') ∧ n < maxPairings ∧
      records chip g n = none ∧
      records chip f' = put (records chip g) n (newPairingData id key.p permissions) := by
  obtain ⟨hn, hblank⟩ := (findBlock_cases hb).2 n rfl
  obtain ⟨f', hw⟩ := spiflashWrite_succeeds hf g (slotAddr chip n) (newPairingData id key.p permissions).toBytes
  refine ⟨f', by simp only [homekitStorageAddPairing, hb, hw], hn, records_blank hblank, ?_⟩
  exact records_write isLive_magic1 hblank hw

theorem CanTake.right (h : CanTake chip f) : CapacityRight wc chip f := by
  intro id key permissions habs
  cases hb : findEmptyBlock chip f with
  | some n =>
    -- an empty slot is not a live one
    have hcan : homekitStorageCanAddPairing chip f = true :=
      canAddPairing_iff.mpr ⟨n, (findEmptyBlock_some hb).1, records_blank (findEmptyBlock_some hb).2⟩
    have hblock : findBlock chip f = .ok (some n, f) := by rw [findBlock, hb]
    obtain ⟨f', hadd, hn, hnone, hrec⟩ := homekitStorageAddPairing_put hf hblock id key permissions
    refine ⟨iff_of_true hcan ⟨f', hadd, n, findPairing_put_self hn habs hrec⟩, fun _ g hg other pairing hp => ?_⟩
    obtain rfl := (Prod.mk.inj (Except.ok.inj (hg.symm.trans hadd))).2
    have hne : controllerId id ≠ controllerId other := by
      intro he
      rw [he, ← @homekitStorageFindPairing_none wc, hp] at habs
      simp at habs
    exact ⟨pairing.id, by rw [findPairing_put_other hnone hne hrec, hp]⟩
  | none =>
    rcases h with hne | hfull | hw
    · exact absurd hb hne
    · have hno : ¬ homekitStorageCanAddPairing chip f = true := by simp [hfull]
      refine ⟨iff_of_false hno ?_, fun hc => absurd hc hno⟩
      rintro ⟨f', hadd, _⟩
      have hcompacts : compacts chip f = false := by simp [compacts, hfull]
      have hblock := findBlock_of_not_compacts hcompacts
      rw [homekitStorageAddPairing, hblock, hb] at hadd
      simp at hadd
    · -- the compaction erases a store without records
      set g : Flash := { mem := formattedMem chip f.mem, ops := f.ops + 3 } with hg
      have hfmt : Formatted chip g := formattedMem_formatted f.mem (f.ops + 3)
      have hempty : findEmptyBlock chip g = some 0 := hfmt.stores.allocated.findEmptyBlock (by decide)
      have hblock : findBlock chip f = .ok (some 0, g) := by
        simp only [findBlock, hb, compactData_wiped hw, homekitStorageReset_eq hf, ← hg, hempty]
      obtain ⟨f', hadd, hn, _, hrec⟩ := homekitStorageAddPairing_put hf hblock id key permissions
      refine ⟨iff_of_true hw.canAddPairing ⟨f', hadd, 0, ?_⟩, fun _ _ _ other pairing hp => ?_⟩
      · exact findPairing_put_self hn (Absent.of_wiped hfmt.wiped _) hrec
      · rw [homekitStorageFindPairing_none.mpr (Absent.of_wiped hw _)] at hp
        simp at hp

/-- Without an empty slot, a record in a store that is not full is lost to the next one. -/
theorem CapacityRight.canTake (h : CapacityRight wc chip f) : CanTake chip f := by
  by_contra hno
  simp only [CanTake, not_or, not_not, Bool.not_eq_false] at hno
  obtain ⟨hb, hcan, hlive⟩ := hno
  simp only [Wiped, not_forall] at hlive
  obtain ⟨i, hi, hne⟩ := hlive
  obtain ⟨d, hd⟩ := Option.ne_none_iff_exists'.mp hne
  obtain ⟨id, habs⟩ := exists_new_device chip f
  obtain ⟨hiff, hkept⟩ := h id { p := d.devicePublicKey, k := [] } 0 habs
  obtain ⟨f', hadd, _⟩ := hiff.mp hcan
  -- the block was found after a compaction that came to its end
  obtain ⟨g, hblock, hwiped⟩ : ∃ g, findBlock chip f = .ok (some 0, g) ∧ Wiped chip g := by
    rcases compactData_canAdd hcan with he | hok
    · simp [homekitStorageAddPairing, findBlock, hb, he] at hadd
    · have hfmt : Formatted chip (homekitStorageReset chip f).2 := by
        rw [homekitStorageReset_eq hf]
        exact formattedMem_formatted f.mem (f.ops + 3)
      have hempty : findEmptyBlock chip (homekitStorageReset chip f).2 = some 0 :=
        hfmt.stores.allocated.findEmptyBlock (by decide)
      refine ⟨(homekitStorageReset chip f).2, ?_, hfmt.wiped⟩
      simp only [findBlock, hb, hok, hempty]
  obtain ⟨f'', hadd', _, hnone, hrec⟩ :=
    homekitStorageAddPairing_put hf hblock id { p := d.devicePublicKey, k := [] } 0
  obtain rfl := (Prod.mk.inj (Except.ok.inj (hadd'.symm.trans hadd))).2
  have hself : controllerId (recordId d) = recordId d := controllerId_of_deviceId (deviceId_controllerId d.deviceId)
  have hne : controllerId id ≠ controllerId (recordId d) := fun he => habs i hi d hd (hself.symm.trans he.symm)
  cases hold : homekitStorageFindPairing wc chip f (recordId d) with
  | none => exact homekitStorageFindPairing_none.mp hold i hi d hd hself.symm
  | some pairing =>
    obtain ⟨slot, hnew⟩ := hkept hcan _ hadd (recordId d) pairing hold
    rw [findPairing_put_other hnone hne hrec, homekitStorageFindPairing_none.mpr (Absent.of_wiped hwiped _)] at hnew
    simp at hnew

theorem capacityRight_iff : CapacityRight wc chip f ↔ CanTake chip f :=
  ⟨fun h => h.canTake hf, fun h => h.right hf⟩

/-- In every state of a run from a formatted sector, can_add_pairing and add_pairing agree
exactly if there is an empty slot, or no room, or nothing to lose. -/
theorem capacity_right_run (wc : WolfCrypt) (hfmt : Formatted chip f) (calls : List StoreCall) :
    CapacityRight wc chip f ∧ Runs.Always (storeStep chip) (fun _ _ f' => CapacityRight wc chip f') f calls ↔
      Runs.Always (storeStep chip) (fun _ _ f' => CanTake chip f') f calls := by
  have hstart : CapacityRight wc chip f := CanTake.right hf (Or.inr (Or.inr hfmt.wiped))
  have hiff : ∀ g call g', True → storeStep chip g call = .ok g' → (CapacityRight wc chip g' ↔ CanTake chip g') :=
    fun _ _ _ _ _ => capacityRight_iff hf
  rw [Runs.Always.congr (fun _ _ _ _ _ _ => trivial) hiff calls trivial]
  simp only [hstart, true_and]

end Succeeding

theorem capacity_right_run_formatted :
    CapacityRight benchCrypto benchChip (benchFlash []) ∧
        Runs.Always (storeStep benchChip) (fun _ _ f' => CapacityRight benchCrypto benchChip f') (benchFlash [])
          fillingCalls ↔
      Runs.Always (storeStep benchChip) (fun _ _ f' => CanTake benchChip f') (benchFlash []) fillingCalls :=
  capacity_right_run (fun _ => rfl) benchCrypto benchFlash_formatted fillingCalls

theorem full_store_tested :
    (match Runs.run (storeStep benchChip) (benchFlash []) fillingCalls with
    | .ok f' => (findEmptyBlock benchChip f').isNone && homekitStorageCanAddPairing benchChip f' &&
        (records benchChip f' 0).isSome
    | .error _ => false) = true := by
  decide +kernel

/-- After sixteen controllers have been added and the last one removed, the store promises room
for another one and gives up fifteen for it. -/
theorem capacity_wrong :
    ∃ f', Runs.run (storeStep benchChip) (benchFlash []) fillingCalls = .ok f' ∧
      ¬ CapacityRight benchCrypto benchChip f' := by
  have hrun := full_store_tested
  cases hr : Runs.run (storeStep benchChip) (benchFlash []) fillingCalls with
  | error e => simp [hr] at hrun
  | ok f' =>
    simp only [hr, Bool.and_eq_true, Option.isNone_iff_eq_none] at hrun
    refine ⟨f', rfl, fun h => ?_⟩
    rcases h.canTake (fun _ => rfl) with hne | hfull | hw
    · exact hne hrun.1.1
    · simp [hfull] at hrun
    · simp [hw 0 (by decide)] at hrun

end ArduinoHomeKit
