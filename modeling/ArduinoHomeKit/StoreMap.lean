import ArduinoHomeKit.Library.Runs
import ArduinoHomeKit.Library.SlotMap
import ArduinoHomeKit.Bench

/-! The pairing store as a finite map from device ids to keys and permissions, as long as
the sector has a slot left for every record it is given. -/

namespace ArduinoHomeKit

open CString SlotStore

inductive StoreCall
  | add (deviceId : Bytes) (deviceKey : Ed25519Key) (permissions : UInt8)
  | update (deviceId : Bytes) (permissions : UInt8)
  | remove (deviceId : Bytes)
  | find (deviceId : Bytes)
  | next (it : List Nat)

/-- The flash after a call. find_pairing and next_pairing only read it. -/
def storeStep (chip : FlashChip) (f : Flash) : StoreCall → Except Fault Flash
  | .add deviceId deviceKey permissions =>
    (homekitStorageAddPairing chip f (some deviceId) deviceKey permissions).map Prod.snd
  | .update deviceId permissions => (homekitStorageUpdatePairing chip f deviceId permissions).map Prod.snd
  | .remove deviceId => .ok (homekitStorageRemovePairing chip f deviceId).2
  | .find _ => .ok f
  | .next _ => .ok f

/-- The loop over next_pairing until it fails. -/
def pairingsFrom (wc : WolfCrypt) (chip : FlashChip) (f : Flash) : Nat → List Nat → List Pairing
  | 0, _ => []
  | fuel + 1, it =>
    match homekitStorageNextPairing wc chip f it with
    | none => []
    | some (pairing, it) => pairing :: pairingsFrom wc chip f fuel it

def iteratedPairings (wc : WolfCrypt) (chip : FlashChip) (f : Flash) : List Pairing :=
  pairingsFrom wc chip f maxPairings slots

/-- A device id that a record keeps whole. -/
def DeviceId (id : Bytes) : Prop := id.length ≤ deviceIdSize ∧ 0 ∉ id

instance (id : Bytes) : Decidable (DeviceId id) := inferInstanceAs (Decidable (_ ∧ _))

/-- What the store is for: a map, with the number of records it was given so far. -/
structure StoreMap where
  pairings : Bytes → Option (Bytes32 × UInt8)
  allocated : Nat

namespace StoreMap

def empty : StoreMap := { pairings := fun _ => none, allocated := 0 }

def write (m : StoreMap) (id : Bytes) (key : Bytes32) (permissions : UInt8) : StoreMap where
  pairings := Function.update m.pairings id (some (key, permissions))
  allocated := m.allocated + 1

def erase (m : StoreMap) (id : Bytes) : StoreMap :=
  { m with pairings := Function.update m.pairings id none }

/-- The calls the map has an answer for: devices are added once, and a record that is
written needs one of the slots. -/
def step (m : StoreMap) : StoreCall → Except Unit StoreMap
  | .add id key permissions =>
    if DeviceId id ∧ m.pairings id = none ∧ m.allocated < maxPairings then
      .ok (m.write id key.p permissions)
    else .error ()
  | .update id permissions =>
    if DeviceId id then
      match m.pairings id with
      | none => .ok m
      | some (key, _) =>
        if m.allocated < maxPairings then .ok (m.write id key permissions) else .error ()
    else .error ()
  | .remove id => if DeviceId id then .ok (m.erase id) else .error ()
  | .find _ => .ok m
  | .next _ => .ok m

end StoreMap

/-- A sector that homekit_storage_init has formatted. -/
structure Formatted (chip : FlashChip) (f : Flash) : Prop where
  magic : Nor.read f.mem (magicAddr chip) 4 = magic1
  blank : SlotsBlank chip f

/-- find_pairing and the iteration answer as the map does. -/
structure Represents (wc : WolfCrypt) (chip : FlashChip) (f : Flash)
    (pairings : Bytes → Option (Bytes32 × UInt8)) : Prop where
  found : ∀ id, DeviceId id →
    match pairings id with
    | none => homekitStorageFindPairing wc chip f id = none
    | some (key, permissions) => ∃ slot, homekitStorageFindPairing wc chip f id =
        some { id := slot, deviceId := id, deviceKey := { p := key, k := [] }, permissions := permissions }
  once : ((iteratedPairings wc chip f).map Pairing.deviceId).Nodup
  iterated : ∀ id key permissions,
    (∃ slot, { id := slot, deviceId := id, deviceKey := { p := key, k := [] }, permissions := permissions } ∈
      iteratedPairings wc chip f) ↔ DeviceId id ∧ pairings id = some (key, permissions)

/-- Slots are used up from the front. -/
structure Allocated (chip : FlashChip) (n : Nat) (f : Flash) : Prop where
  used : ∀ i < n, ¬ Nor.Blank f.mem (slotAddr chip i) sizeofPairingData
  free : ∀ i, n ≤ i → i < maxPairings → Nor.Blank f.mem (slotAddr chip i) sizeofPairingData

def content (d : PairingData) : Bytes32 × UInt8 := (d.devicePublicKey, d.permissions)

/-- The sector holds the map. -/
structure Stores (chip : FlashChip) (f : Flash) (m : StoreMap) : Prop where
  allocated : Allocated chip m.allocated f
  distinct : Distinct maxPairings recordId (records chip f)
  found : ∀ id, (find maxPairings recordId (records chip f) id).map content = m.pairings id

/-- The new version of a record that an update writes. -/
def PairingData.withPermissions (d : PairingData) (permissions : UInt8) : PairingData :=
  { d with permissions := permissions }

variable {wc : WolfCrypt} {chip : FlashChip} {f f' : Flash} {m m' : StoreMap} {id : Bytes} {n : Nat}

@[simp] theorem recordId_withPermissions (d : PairingData) (permissions : UInt8) :
    recordId (d.withPermissions permissions) = recordId d := rfl

@[simp] theorem content_withPermissions (d : PairingData) (permissions : UInt8) :
    content (d.withPermissions permissions) = (d.devicePublicKey, permissions) := rfl

namespace StoreMap

theorem write_self (m : StoreMap) (id : Bytes) (key : Bytes32) (permissions : UInt8) :
    (m.write id key permissions).pairings id = some (key, permissions) := Function.update_self ..

theorem write_of_ne {k : Bytes} (h : id ≠ k) (m : StoreMap) (key : Bytes32) (permissions : UInt8) :
    (m.write id key permissions).pairings k = m.pairings k := Function.update_of_ne h.symm ..

theorem erase_self (m : StoreMap) (id : Bytes) : (m.erase id).pairings id = none := Function.update_self ..

theorem erase_of_ne {k : Bytes} (h : id ≠ k) (m : StoreMap) : (m.erase id).pairings k = m.pairings k :=
  Function.update_of_ne h.symm ..

end StoreMap

theorem map_snd_eq_ok {x : Except Fault (Int × Flash)} (h : x.map Prod.snd = .ok f) : ∃ r, x = .ok (r, f) := by
  cases x with
  | error e => simp [Except.map] at h
  | ok p => exact ⟨p.1, by rw [← Except.ok.inj h]⟩

theorem controllerId_of_deviceId (h : DeviceId id) : controllerId id = id := by
  rw [controllerId, strndup, List.take_of_length_le h.1, List.takeWhile_eq_self_iff]
  intro b hb
  have hne : b ≠ 0 := fun he => h.2 (he ▸ hb)
  simpa using hne

theorem deviceId_controllerId (id : Bytes) : DeviceId (controllerId id) := by
  constructor
  · have hle := (List.takeWhile_prefix (p := fun b => b != 0) (l := id.take deviceIdSize)).length_le
    exact hle.trans (List.length_take_le deviceIdSize id)
  · intro hz
    have := List.mem_takeWhile_imp hz
    simp at this

theorem pairingsFrom_eq {fuel : Nat} {it : List Nat} (hlen : it.length ≤ fuel) :
    pairingsFrom wc chip f fuel it = it.filterMap (fun i => (records chip f i).map (pairingOf i)) := by
  induction fuel generalizing it with
  | zero =>
    obtain rfl : it = [] := List.length_eq_zero_iff.mp (Nat.le_zero.mp hlen)
    rfl
  | succ fuel ih =>
    induction it with
    | nil => rfl
    | cons i it ihit =>
      have hit : it.length ≤ fuel := Nat.le_of_succ_le_succ hlen
      cases hr : records chip f i with
      | none =>
        have hnext : homekitStorageNextPairing wc chip f (i :: it) = homekitStorageNextPairing wc chip f it := by
          rw [homekitStorageNextPairing_eq, homekitStorageNextPairing_eq, List.dropWhile_cons_of_pos (by simp [hr])]
        have hfrom : pairingsFrom wc chip f (fuel + 1) (i :: it) = pairingsFrom wc chip f (fuel + 1) it := by
          rw [pairingsFrom, pairingsFrom, hnext]
        rw [hfrom, ihit (Nat.le_succ_of_le hit)]
        simp [hr]
      | some d =>
        rw [pairingsFrom, homekitStorageNextPairing_eq, List.dropWhile_cons_of_neg (by simp [hr])]
        simp only [ih hit, (records_some hr).1]
        rw [List.filterMap_cons_some (by rw [hr, Option.map_some])]

theorem mem_iteratedPairings {pairing : Pairing} :
    pairing ∈ iteratedPairings wc chip f ↔
      ∃ i < maxPairings, ∃ d, records chip f i = some d ∧ pairing = pairingOf i d := by
  rw [iteratedPairings, pairingsFrom_eq (by simp [slots]), List.mem_filterMap]
  simp only [slots, List.mem_range, Option.map_eq_some_iff, eq_comm]

theorem iteratedPairings_deviceId :
    (iteratedPairings wc chip f).map Pairing.deviceId = (live maxPairings (records chip f)).map recordId := by
  rw [iteratedPairings, pairingsFrom_eq (by simp [slots]), live, slots, List.map_filterMap, List.map_filterMap]
  refine List.filterMap_congr (fun i _ => ?_)
  simp [Option.map_map, Function.comp_def, pairingOf]

theorem homekitStorageFindPairing_eq_find (wc : WolfCrypt) (chip : FlashChip) (f : Flash) (h : DeviceId id) :
    homekitStorageFindPairing wc chip f id = none ∧ find maxPairings recordId (records chip f) id = none ∨
      ∃ i d, homekitStorageFindPairing wc chip f id = some (pairingOf i d) ∧ recordId d = id ∧
        find maxPairings recordId (records chip f) id = some d := by
  rw [homekitStorageFindPairing_eq, matchSlot_eq_lookup, controllerId_of_deviceId h]
  cases hl : lookup maxPairings recordId (records chip f) id with
  | none => exact Or.inl ⟨rfl, by simp [find, hl]⟩
  | some i =>
    obtain ⟨d, hd, hk⟩ := lookup_live hl
    refine Or.inr ⟨i, d, ?_, hk, by simp [find, hl, hd]⟩
    rw [Option.map_some, (records_some hd).1]

theorem Stores.represents (h : Stores chip f m) : Represents wc chip f m.pairings := by
  refine ⟨fun id hid => ?_, ?_, fun id key permissions => ?_⟩
  · rcases homekitStorageFindPairing_eq_find wc chip f hid with
      ⟨hfind, hd⟩ | ⟨i, d, hfind, hk, hd⟩
    · rw [← h.found id, hd]
      exact hfind
    · rw [← h.found id, hd]
      exact ⟨i, by simp [hfind, pairingOf, hk]⟩
  · rw [iteratedPairings_deviceId]
    exact nodup_live h.distinct
  · rw [← h.found id, Option.map_eq_some_iff]
    constructor
    · rintro ⟨slot, hmem⟩
      obtain ⟨i, hi, d, hd, he⟩ := mem_iteratedPairings.mp hmem
      simp only [pairingOf, Pairing.mk.injEq, Ed25519Key.mk.injEq, and_true] at he
      obtain ⟨_, rfl, rfl, rfl⟩ := he
      exact ⟨deviceId_controllerId _, d, (find_eq_some_iff h.distinct).mpr ⟨mem_live.mpr ⟨i, hi, hd⟩, rfl⟩, rfl⟩
    · rintro ⟨_, d, hd, hc⟩
      obtain ⟨hmem, rfl⟩ := (find_eq_some_iff h.distinct).mp hd
      obtain ⟨i, hi, hr⟩ := mem_live.mp hmem
      obtain ⟨rfl, rfl⟩ := Prod.mk.inj hc
      exact ⟨i, mem_iteratedPairings.mpr ⟨i, hi, d, hr, rfl⟩⟩

theorem Formatted.stores (h : Formatted chip f) : Stores chip f StoreMap.empty := by
  have hnone : ∀ i < maxPairings, records chip f i = none := h.blank.wiped
  refine ⟨⟨fun i hi => absurd hi (Nat.not_lt_zero i), fun i _ hi => h.blank i hi⟩, ?_, fun id => ?_⟩
  · intro i hi j _ x y hx
    simp [hnone i hi] at hx
  · have habs : find maxPairings recordId (records chip f) id = none :=
      find_eq_none_iff.mpr (fun i hi x hx => by simp [hnone i hi] at hx)
    rw [habs]
    rfl

/-- Programming a slot leaves the bytes of the others alone. -/
theorem blank_program_other {i : Nat} {data : Bytes} (hi : i ≠ n) (hlen : data.length = sizeofPairingData)
    (h : f'.mem = Nor.program f.mem (slotAddr chip n) data) :
    Nor.Blank f'.mem (slotAddr chip i) sizeofPairingData ↔ Nor.Blank f.mem (slotAddr chip i) sizeofPairingData := by
  refine forall₂_congr (fun k hk => ?_)
  have := slotAddr_disjoint chip hi
  rw [h, Nor.program_outside (by omega)]

theorem Allocated.findEmptyBlock (h : Allocated chip n f) (hn : n < maxPairings) :
    findEmptyBlock chip f = some n := by
  rw [ArduinoHomeKit.findEmptyBlock, slots, List.find?_range_eq_some]
  refine ⟨?_, List.mem_range.mpr hn, fun i hi => ?_⟩
  · rw [List.all_eq_true]
    intro b hb
    obtain ⟨k, hk, rfl⟩ := List.mem_map.mp hb
    simpa using h.free n (Nat.le_refl n) hn k (List.mem_range.mp hk)
  · rw [Bool.not_eq_true', Bool.eq_false_iff]
    intro hall
    refine h.used i hi (fun k hk => ?_)
    simpa using List.all_eq_true.mp hall _ (List.mem_map.mpr ⟨k, List.mem_range.mpr hk, rfl⟩)

theorem Allocated.write {d : PairingData} (h : Allocated chip n f) (hn : n < maxPairings)
    (hd : isLive d.magic = true) (hw : spiflashWrite chip f (slotAddr chip n) d.toBytes = (true, f')) :
    Allocated chip (n + 1) f' := by
  have hmem := spiflashWrite_true hw
  refine ⟨fun i hi => ?_, fun i hni hi => ?_⟩
  · rcases Nat.lt_or_eq_of_le (Nat.le_of_lt_succ hi) with hi | rfl
    · rw [blank_program_other (Nat.ne_of_lt hi) d.length_toBytes hmem]
      exact h.used i hi
    · intro hb
      have hput := records_write hd (h.free i (Nat.le_refl i) hn) hw
      have hnone := records_blank hb
      rw [hput, put_self] at hnone
      simp at hnone
  · rw [blank_program_other (by omega) d.length_toBytes hmem]
    exact h.free i (by omega) hi

theorem Allocated.zero {i : Nat} (h : Allocated chip n f)
    (hr : records chip f i ≠ none)
    (hw : spiflashWrite chip f (slotAddr chip i) (List.replicate sizeofPairingData 0) = (true, f')) :
    Allocated chip n f' := by
  have hmem := spiflashWrite_true hw
  have hlen : (List.replicate sizeofPairingData (0 : UInt8)).length = sizeofPairingData := List.length_replicate
  refine ⟨fun j hj => ?_, fun j hnj hj => ?_⟩
  · by_cases hji : j = i
    · subst hji
      intro hb
      have h0 := hb 0 (by decide)
      rw [hmem, Nor.program_zeros (by decide)] at h0
      exact absurd h0 (by decide)
    · rw [blank_program_other hji hlen hmem]
      exact h.used j hj
  · have hji : j ≠ i := fun he => hr (records_blank (he ▸ h.free j hnj hj))
    rw [blank_program_other hji hlen hmem]
    exact h.free j hnj hj

section Succeeding

variable (hf : ∀ n, chip.succeeds n = true)
include hf

theorem homekitStorageAddPairing_allocated (h : Allocated chip n f) (hn : n < maxPairings) (id : Bytes)
    (key : Ed25519Key) (permissions : UInt8) :
    ∃ f', homekitStorageAddPairing chip f (some id) key permissions = .ok (0, f') ∧
      Allocated chip (n + 1) f' ∧
      records chip f' = put (records chip f) n (newPairingData id key.p permissions) := by
  obtain ⟨g, hg⟩ := spiflashWrite_succeeds hf f (slotAddr chip n) (newPairingData id key.p permissions).toBytes
  refine ⟨g, ?_, h.write hn isLive_magic1 hg,
    records_write isLive_magic1 (h.free n (Nat.le_refl n) hn) hg⟩
  simp only [homekitStorageAddPairing, findBlock, h.findEmptyBlock hn, hg]

theorem homekitStorageUpdatePairing_allocated {i : Nat} (h : Allocated chip n f) (hn : n < maxPairings)
    (hm : matchSlot chip f id = some i) (permissions : UInt8) :
    ∃ f', homekitStorageUpdatePairing chip f id permissions = .ok (0, f') ∧
      Allocated chip (n + 1) f' ∧
      records chip f' =
        kill (put (records chip f) n ((readPairing chip f i).withPermissions permissions)) i := by
  have hlive := (matchSlot_some hm).2.1
  have hblank := h.free n (Nat.le_refl n) hn
  have hni : n ≠ i := fun he => by simp [← he, records_blank hblank] at hlive
  have hlive' : isLive ((readPairing chip f i).withPermissions permissions).magic = true := (records_some hlive).2
  obtain ⟨g, hg⟩ := spiflashWrite_succeeds hf f (slotAddr chip n)
    ((readPairing chip f i).withPermissions permissions).toBytes
  obtain ⟨g', hg'⟩ := spiflashWrite_succeeds hf g (slotAddr chip i) (List.replicate sizeofPairingData 0)
  have hput := records_write hlive' hblank hg
  refine ⟨g', ?_, (h.write hn hlive' hg).zero ?_ hg', by rw [records_zero hg', hput]⟩
  · rw [PairingData.withPermissions] at hg
    simp only [homekitStorageUpdatePairing, hm, findBlock, h.findEmptyBlock hn, hg, hg']
  · rw [hput, put_of_ne hni.symm, hlive]
    exact Option.some_ne_none _

theorem homekitStorageRemovePairing_allocated {i : Nat} (h : Allocated chip n f)
    (hm : matchSlot chip f id = some i) :
    ∃ f', homekitStorageRemovePairing chip f id = (0, f') ∧ Allocated chip n f' ∧
      records chip f' = kill (records chip f) i := by
  obtain ⟨g, hg⟩ := spiflashWrite_succeeds hf f (slotAddr chip i) (List.replicate sizeofPairingData 0)
  refine ⟨g, by simp only [homekitStorageRemovePairing, hm, hg], h.zero ?_ hg, records_zero hg⟩
  rw [(matchSlot_some hm).2.1]
  exact Option.some_ne_none _

theorem Stores.add (h : Stores chip f m) (hid : DeviceId id) (hnew : m.pairings id = none)
    (hn : m.allocated < maxPairings) (key : Ed25519Key) (permissions : UInt8) :
    ∃ f', homekitStorageAddPairing chip f (some id) key permissions = .ok (0, f') ∧
      Stores chip f' (m.write id key.p permissions) := by
  obtain ⟨f', hadd, halloc, hrec⟩ := homekitStorageAddPairing_allocated hf h.allocated hn id key permissions
  have hkey : recordId (newPairingData id key.p permissions) = id :=
    (recordId_newPairingData id key.p permissions).trans (controllerId_of_deviceId hid)
  have habs : Absent maxPairings recordId (records chip f) (recordId (newPairingData id key.p permissions)) := by
    rw [hkey, ← find_eq_none_iff, ← Option.map_eq_none_iff, h.found id, hnew]
  have hnone := records_blank (h.allocated.free _ (Nat.le_refl _) hn)
  refine ⟨f', hadd, halloc, ?_, fun k => ?_⟩
  · rw [hrec]
    exact (distinct_put_iff h.distinct hn hnone).mpr habs
  · rw [hrec, find_put h.distinct hn hnone habs, hkey]
    by_cases hk : id = k
    · subst hk
      rw [if_pos rfl, StoreMap.write_self]
      rfl
    · rw [if_neg hk, h.found k, StoreMap.write_of_ne hk]

theorem Stores.update {key : Bytes32} {old : UInt8} (h : Stores chip f m) (hid : DeviceId id)
    (hold : m.pairings id = some (key, old)) (hn : m.allocated < maxPairings) (permissions : UInt8) :
    ∃ f', homekitStorageUpdatePairing chip f id permissions = .ok (0, f') ∧
      Stores chip f' (m.write id key permissions) := by
  obtain ⟨d, hd, hc⟩ := Option.map_eq_some_iff.mp ((h.found id).trans hold)
  obtain ⟨i, hl, hr⟩ := Option.bind_eq_some_iff.mp hd
  have hm : matchSlot chip f id = some i := by rw [matchSlot_eq_lookup, controllerId_of_deviceId hid, hl]
  obtain ⟨f', hupd, halloc, hrec⟩ := homekitStorageUpdatePairing_allocated hf h.allocated hn hm permissions
  obtain ⟨d', hd', hk⟩ := lookup_live hl
  obtain rfl : d' = d := Option.some.inj (hd'.symm.trans hr)
  rw [(records_some hr).1] at hrec
  have hnone := records_blank (h.allocated.free _ (Nat.le_refl _) hn)
  refine ⟨f', hupd, halloc, ?_, fun k => ?_⟩
  · rw [hrec]
    exact h.distinct.move (lookup_lt hl) hr hnone rfl
  · rw [hrec, find_move h.distinct hn (lookup_lt hl) hr hnone (recordId_withPermissions d' permissions), hk]
    by_cases hk : id = k
    · subst hk
      have hkey : d'.devicePublicKey = key := (Prod.mk.inj hc).1
      rw [if_pos rfl, StoreMap.write_self, Option.map_some, content_withPermissions, hkey]
    · rw [if_neg hk, h.found k, StoreMap.write_of_ne hk]

theorem Stores.remove (h : Stores chip f m) (hid : DeviceId id) :
    ∃ f', homekitStorageRemovePairing chip f id = (0, f') ∧ Stores chip f' (m.erase id) := by
  cases hm : matchSlot chip f id with
  | none =>
    refine ⟨f, by simp only [homekitStorageRemovePairing, hm], h.allocated, h.distinct, fun k => ?_⟩
    by_cases hk : id = k
    · subst hk
      rw [matchSlot_none, controllerId_of_deviceId hid] at hm
      rw [find_eq_none_iff.mpr hm, StoreMap.erase_self, Option.map_none]
    · rw [h.found k, StoreMap.erase_of_ne hk]
  | some i =>
    obtain ⟨f', hrem, halloc, hrec⟩ := homekitStorageRemovePairing_allocated hf h.allocated hm
    rw [matchSlot_eq_lookup, controllerId_of_deviceId hid] at hm
    refine ⟨f', hrem, halloc, hrec ▸ h.distinct.kill i, fun k => ?_⟩
    rw [hrec, find_kill h.distinct hm]
    by_cases hk : id = k
    · subst hk
      rw [if_pos rfl, StoreMap.erase_self, Option.map_none]
    · rw [if_neg hk, h.found k, StoreMap.erase_of_ne hk]

/-- A call the map has an answer for does to the sector what it does to the map. -/
theorem Stores.step {call : StoreCall} (h : Stores chip f m) (hs : m.step call = .ok m') :
    ∃ f', storeStep chip f call = .ok f' ∧ Stores chip f' m' := by
  cases call with
  | add id key permissions =>
    simp only [StoreMap.step] at hs
    split at hs
    · rename_i hc
      obtain ⟨f', hadd, hst⟩ := h.add hf hc.1 hc.2.1 hc.2.2 key permissions
      exact ⟨f', by simp [storeStep, hadd, Except.map], Except.ok.inj hs ▸ hst⟩
    · simp at hs
  | update id permissions =>
    simp only [StoreMap.step] at hs
    split at hs
    · rename_i hid
      cases hp : m.pairings id with
      | none =>
        obtain rfl : m = m' := by simpa [hp] using hs
        have hm : matchSlot chip f id = none := by
          rw [matchSlot_none, controllerId_of_deviceId hid, ← find_eq_none_iff, ← Option.map_eq_none_iff,
            h.found id, hp]
        exact ⟨f, by simp [storeStep, homekitStorageUpdatePairing, hm, Except.map], h⟩
      | some entry =>
        obtain ⟨key, old⟩ := entry
        simp only [hp] at hs
        split at hs
        · rename_i hn
          obtain ⟨f', hupd, hst⟩ := h.update hf hid hp hn permissions
          exact ⟨f', by simp [storeStep, hupd, Except.map], Except.ok.inj hs ▸ hst⟩
        · simp at hs
    · simp at hs
  | remove id =>
    simp only [StoreMap.step] at hs
    split at hs
    · rename_i hid
      obtain ⟨f', hrem, hst⟩ := h.remove hf hid
      exact ⟨f', by simp [storeStep, hrem], Except.ok.inj hs ▸ hst⟩
    · simp at hs
  | find id => exact ⟨f, rfl, Except.ok.inj hs ▸ h⟩
  | next it => exact ⟨f, rfl, Except.ok.inj hs ▸ h⟩

/-- The pairing store refines the map. -/
theorem store_refines_map (wc : WolfCrypt) (hfmt : Formatted chip f) {calls : List StoreCall}
    (hmap : Runs.run StoreMap.step StoreMap.empty calls = .ok m) :
    ∃ f', Runs.run (storeStep chip) f calls = .ok f' ∧ Represents wc chip f' m.pairings := by
  have hstep : ∀ g m call m', Stores chip g m → StoreMap.step m call = .ok m' →
      ∃ g', storeStep chip g call = .ok g' ∧ Stores chip g' m' := fun g m call m' h hs => h.step hf hs
  obtain ⟨f', hrun, hst⟩ := Runs.simulation hstep hfmt.stores hmap
  exact ⟨f', hrun, hst.represents⟩

end Succeeding

theorem benchFlash_formatted : Formatted benchChip (benchFlash []) := by
  refine ⟨by decide, fun i _ k hk => ?_⟩
  rw [benchFlash_slot [] hk]
  rfl

/-- Sixteen controllers are added, the last one is removed. -/
def fillingCalls : List StoreCall :=
  (List.range 16).map (fun n => .add [UInt8.ofNat (n + 1)] { p := benchKey 1, k := [] } 1) ++ [.remove [16]]

theorem store_refines_map_session :
    ∃ f', Runs.run (storeStep benchChip) (benchFlash [])
        [.add (benchId 3) { p := benchKey 3, k := [] } 1, .add (benchId 5) { p := benchKey 5, k := [] } 0,
          .update (benchId 5) 1, .remove (benchId 3)] = .ok f' ∧
      Represents benchCrypto benchChip f' ((((StoreMap.empty.write (benchId 3) (benchKey 3) 1).write (benchId 5)
        (benchKey 5) 0).write (benchId 5) (benchKey 5) 1).erase (benchId 3)).pairings :=
  store_refines_map (fun _ => rfl) benchCrypto benchFlash_formatted (by rfl)

end ArduinoHomeKit
