import ArduinoHomeKit.News
import ArduinoHomeKit.Bench

/-! Device ids in the store. AddPairing looks for a record before it writes one, M5 does not. -/

namespace ArduinoHomeKit

open Runs SlotStore

variable {P : Platform} {c : ClientId} {w w' : World P}

def UniqueIds (chip : FlashChip) (f : Flash) : Prop := Distinct maxPairings recordId (records chip f)

/-- No two live records share an id, and a removed controller is not found again. -/
def KeepsUnique (w w' : World P) : Prop :=
  UniqueIds P.env.flash w'.flash ∧
    ∀ c deviceId, .pairingRemoved c deviceId ∈ news w w' →
      homekitStorageFindPairing P.crypto P.env.flash w'.flash deviceId = none

/-- The request writes no record, or writes it without a compaction. -/
def WithoutCompaction (w : World P) : Option (ClientId × Request) → Prop
  | some (_, .store ..) | some (_, .add _) => compacts P.env.flash w.flash = false
  | _ => True

/-- An M5 that gets a slot for its record brings an id that is not in the store. -/
def StoresNewId (w : World P) : Option (ClientId × Request) → Prop
  | some (c, .store _ _ request) =>
    cryptoEd25519Verify P.crypto request.key request.info request.signature = 0 →
      findEmptyBlock P.env.flash w.flash ≠ none →
        ∀ id, storedIdentifier (arrived w c) request.identifier = some id →
          matchSlot P.env.flash w.flash id = none
  | _ => True

theorem Stored.flash {k : ContextId} {s : Bytes} {request : SignedRequest}
    (h : Stored c k s request w w') : ∃ r, setupStore w request = .ok (r, w'.flash) := by
  cases h with
  | failed w₁ r f _ hs _ hh =>
    refine ⟨r, hs.trans ?_⟩
    rw [hh.flash]
    rfl
  | finished w₁ w₂ f _ hs _ hq _ hh =>
    refine ⟨0, hs.trans ?_⟩
    rw [hh.flash, hq.flash]
    rfl

section Succeeding

variable (hf : ∀ n, P.env.flash.succeeds n = true)
include hf

theorem setupStore_uniqueIds {request : SignedRequest} {r : Int} {f : Flash}
    (hc : compacts P.env.flash w.flash = false) (hu : UniqueIds P.env.flash w.flash)
    (h : setupStore w request = .ok (r, f)) :
    UniqueIds P.env.flash f ↔
      (findEmptyBlock P.env.flash w.flash ≠ none →
        ∀ id, storedIdentifier w request.identifier = some id → matchSlot P.env.flash w.flash id = none) := by
  rcases homekitStorageAddPairing_succeeds hf hc h with ⟨hb, _, rfl⟩ | ⟨n, id, hb, hid, _, hn, hfree, he⟩
  · exact ⟨fun _ hne => absurd hb hne, fun _ => hu⟩
  · rw [UniqueIds, he, distinct_put_iff hu hn hfree, recordId_newPairingData, ← matchSlot_none]
    constructor
    · intro hm _ id' hid'
      rwa [← Option.some.inj (hid.symm.trans hid')]
    · exact fun hh => hh (by simp [hb]) id hid

theorem addPairingStore_uniqueIds {request : AddPairingRequest} {r : Int} {f : Flash}
    (hc : compacts P.env.flash w.flash = false) (hu : UniqueIds P.env.flash w.flash)
    (h : addPairingStore w request = .ok (r, f)) : UniqueIds P.env.flash f := by
  unfold addPairingStore at h
  split at h
  · rcases homekitStorageUpdatePairing_succeeds hf hc h with ⟨_, rfl⟩ | ⟨i, n, hm, _, hn, hfree, he⟩
    · exact hu
    · obtain ⟨hi, hlive, _⟩ := matchSlot_some hm
      rw [UniqueIds, he]
      exact Distinct.move hu hi hlive hfree rfl
  · rename_i hnone
    rcases homekitStorageAddPairing_succeeds hf hc h with ⟨_, _, rfl⟩ | ⟨n, id, _, hid, _, hn, hfree, he⟩
    · exact hu
    · rw [UniqueIds, he, distinct_put_iff hu hn hfree, recordId_newPairingData, ← Option.some.inj hid]
      exact homekitStorageFindPairing_none.mp hnone

end Succeeding

theorem homekitStorageRemovePairing_uniqueIds {chip : FlashChip} {f f' : Flash} {r : Int} {deviceId : Bytes}
    (hu : UniqueIds chip f) (h : homekitStorageRemovePairing chip f deviceId = (r, f')) :
    UniqueIds chip f' ∧ (r = 0 → matchSlot chip f' deviceId = none) := by
  rcases homekitStorageRemovePairing_cases h with ⟨_, hm, rfl⟩ | ⟨i, hm, ⟨hr, he⟩ | ⟨_, he⟩⟩
  · exact ⟨hu, fun _ => hm⟩
  · exact ⟨by rw [UniqueIds, he]; exact hu, fun h0 => absurd h0 hr⟩
  · refine ⟨by rw [UniqueIds, he]; exact hu.kill i, fun _ => ?_⟩
    rw [matchSlot_none, he]
    rw [matchSlot_eq_lookup] at hm
    exact hu.absent_kill hm

theorem step_keepsUnique (hf : ∀ n, P.env.flash.succeeds n = true) {a : Action P}
    (hu : UniqueIds P.env.flash w.flash) (h : step w a = .ok w')
    (hc : WithoutCompaction w (requested w a)) : KeepsUnique w w' ↔ StoresNewId w (requested w a) := by
  have hremoved : (∀ c d, requested w a ≠ some (c, .remove d)) → ∀ d deviceId, .pairingRemoved d deviceId ∉ news w w' := by
    intro hq d deviceId hm
    obtain ⟨c, q, _, _, hr, _, hd⟩ := step_news h hm id
    match q, hd with
    | some (.store ..), ⟨_, hd⟩ => simp at hd
    | some (.verify ..), hd => simp [Decisive] at hd
    | some (.remove d'), _ => exact hq c d' hr
  rcases step_cases h with ⟨hr, hi⟩ | ⟨c, q, _, _, hr, he⟩
  · rw [hr]
    exact ⟨fun _ => trivial, fun _ => ⟨hi.flash ▸ hu, fun d i hmem => absurd hmem (hremoved (by simp [hr]) d i)⟩⟩
  · have hflash := (arrived_idle w c).flash
    rw [hr] at hc ⊢
    match q, he with
    | none, he =>
      have hsame : w'.flash = w.flash := by
        cases he with
        | quiet h => exact h.flash.trans hflash
        | opened w₁ k h _ _ _ hh => exact hh.flash.trans (h.flash.trans hflash)
        | proved w₁ w₂ k h _ hq hh => exact hh.flash.trans (hq.flash.trans (h.flash.trans hflash))
        | started w₁ context h hh => exact hh.flash.trans (h.flash.trans hflash)
      exact ⟨fun _ => trivial, fun _ => ⟨hsame ▸ hu, fun d i hmem => absurd hmem (hremoved (by simp [hr]) d i)⟩⟩
    | some (.store k s request), he =>
      have hno := hremoved (by simp [hr])
      obtain ⟨_, hst⟩ := he
      split at hst
      · rename_i hv
        have hsame : w'.flash = w.flash := hst.flash.trans hflash
        exact ⟨fun _ h0 => absurd h0 hv, fun _ => ⟨hsame ▸ hu, fun d i hmem => absurd hmem (hno d i)⟩⟩
      · rename_i hv
        obtain ⟨r, hs⟩ := hst.flash
        have hiff := setupStore_uniqueIds hf (hflash ▸ hc) (hflash ▸ hu) hs
        rw [hflash] at hiff
        exact ⟨fun hk _ => hiff.mp hk.1,
          fun hk => ⟨hiff.mpr (hk (not_not.mp hv)), fun d i hmem => absurd hmem (hno d i)⟩⟩
    | some (.verify context request pairing), he =>
      have hno := hremoved (by simp [hr])
      obtain ⟨_, _, he⟩ := he
      have hsame : w'.flash = w.flash := by
        split at he
        · exact he.flash.trans hflash
        · obtain ⟨w₁, h₁, _, hh⟩ := he
          exact hh.flash.trans (h₁.flash.trans hflash)
      exact ⟨fun _ => trivial, fun _ => ⟨hsame ▸ hu, fun d i hmem => absurd hmem (hno d i)⟩⟩
    | some (.add request), he =>
      have hno := hremoved (by simp [hr])
      obtain ⟨_, w₁, r, f, h₁, hs, hh⟩ := he
      have hf' : w'.flash = f := hh.flash
      refine ⟨fun _ => trivial, fun _ => ⟨?_, fun d i hmem => absurd hmem (hno d i)⟩⟩
      rw [hf']
      exact addPairingStore_uniqueIds hf (hflash ▸ hc) (hflash ▸ hu) hs
    | some (.remove deviceId), he =>
      have hall := Effect.adds he
      obtain ⟨_, he⟩ := he
      refine ⟨fun _ => trivial, fun _ => ?_⟩
      have hfind : ∀ d i, .pairingRemoved d i ∈ news w w' → i = deviceId := by
        intro d i hmem
        have hd := (mem_news hall hmem).resolve_left (id : ¬ IsIdle (.pairingRemoved d i))
        exact (Event.pairingRemoved.inj hd).2
      cases he with
      | absent hm h =>
        have hsame : w'.flash = w.flash := h.flash.trans hflash
        refine ⟨hsame ▸ hu, fun d i hmem => ?_⟩
        rw [hfind d i hmem, hsame, homekitStorageFindPairing_none, ← matchSlot_none, ← hflash]
        exact hm
      | refused w₁ r f h₁ hs hr₀ hh =>
        have hf' : w'.flash = f := hh.flash
        obtain ⟨h1, _⟩ := homekitStorageRemovePairing_uniqueIds (hflash ▸ hu) hs
        refine ⟨hf' ▸ h1, fun d i hmem => ?_⟩
        -- nothing was logged, because the store refused
        have hq : Growth.Adds IsIdle w.trace w'.trace :=
          (arrived_idle w c).trace.trans
            ((h₁.trace.mono (fun _ h => h.isIdle)).trans (hh.trace.mono (fun _ h => h.isIdle)))
        exact absurd (mem_news hq hmem) (id : ¬ IsIdle (.pairingRemoved d i))
      | done w₁ f pairing h₁ hp hs hh =>
        have hf' : w'.flash = f := hh.flash.trans (revoke_revokes w₁ c deviceId pairing f).flash
        obtain ⟨h1, h2⟩ := homekitStorageRemovePairing_uniqueIds (hflash ▸ hu) hs
        refine ⟨hf' ▸ h1, fun d i hmem => ?_⟩
        rw [hfind d i hmem, hf', homekitStorageFindPairing_none, ← matchSlot_none]
        exact h2 rfl

/-- From a store without live records, with a flash that never fails and without
compactions, ids stay unique exactly if every M5 that gets a slot brings a new one. -/
theorem uniqueIds_run_iff (hf : ∀ n, P.env.flash.succeeds n = true)
    (accessoryId : Bytes) (accessoryKey : Ed25519Key) (password : Option Bytes) (flash : Flash) (app : P.App)
    (clients : ClientId → Client P) (contexts : ContextId → PairingContext) (hw : Wiped P.env.flash flash)
    (as : List (Action P))
    (hn : Always step (fun w a _ => WithoutCompaction w (requested w a))
      (serverBoot accessoryId accessoryKey password flash app clients contexts) as) :
    let s := serverBoot accessoryId accessoryKey password flash app clients contexts
    Always step (fun w _ w' => KeepsUnique w w') s as ↔
      Always step (fun w a _ => StoresNewId w (requested w a)) s as := by
  intro s
  have hs : UniqueIds P.env.flash s.flash := by
    intro i hi j _ r r' hr
    exact absurd ((hw i hi).symm.trans hr) (by simp)
  exact Always.congr_of_guard (n := fun w a _ => WithoutCompaction w (requested w a))
    (p := fun w _ w' => KeepsUnique w w') (q := fun w a _ => StoresNewId w (requested w a))
    (I := fun w => UniqueIds P.env.flash w.flash) (fun _ _ _ _ _ _ hk => hk.1)
    (fun _ _ _ hu h hc => step_keepsUnique hf hu h hc) as hs hn

theorem withoutCompaction_of {w : World P} (q : Option (ClientId × Request))
    (h : compacts P.env.flash w.flash = false) : WithoutCompaction w q := by
  unfold WithoutCompaction
  split
  · exact h
  · exact h
  · trivial

theorem benchFlash_nil_wiped : Wiped benchChip (benchFlash []) := by
  intro i _
  rw [records_benchFlash]
  rfl

theorem first_pairing_uncompacted :
    checks step (fun w _ => !compacts benchChip w.flash) (benchBoot []) (pairAs 0 2) = true := by
  decide +kernel

theorem first_pairing_checked :
    checks step (fun w a =>
      match requested w a with
      | some (c, .store _ _ request) =>
        (storedIdentifier (arrived w c) request.identifier).all (fun id => (matchSlot benchChip w.flash id).isNone)
      | _ => true) (benchBoot []) (pairAs 0 2) = true := by
  decide +kernel

/-- The pairing of a first controller keeps the ids unique. -/
theorem uniqueIds_run_iff_first_pairing :
    Always step (fun w _ w' => KeepsUnique w w') (benchBoot []) (pairAs 0 2) := by
  refine (uniqueIds_run_iff (P := bench) (fun _ => rfl) _ _ _ _ _ _ _ benchFlash_nil_wiped (pairAs 0 2) ?_).mpr ?_
  · exact checks_spec
      (fun s _ _ h => withoutCompaction_of _ (show compacts benchChip s.flash = false by simpa using h))
      first_pairing_uncompacted
  · refine checks_spec (fun w a _ h => ?_) first_pairing_checked
    unfold StoresNewId
    split
    · rename_i hr
      simp only [hr] at h
      intro _ _ id hid
      have hm : matchSlot benchChip w.flash id = none := by simpa [hid] using h
      exact hm
    · trivial

/-- A controller that an admin had added stays in the store when the last admin goes, and
pairs as an admin then. -/
def orphanPairs : List (Action bench) :=
  pairAs 0 2 ++ verifyAs 1 2 ++ post 1 "/pairings" (addMessage 3 0) ++
    post 1 "/pairings" (removeMessage 2) ++ pairAs 2 3

theorem orphan_uncompacted :
    checks step (fun w _ => !compacts benchChip w.flash) (benchBoot []) orphanPairs = true := by
  decide +kernel

theorem orphan_run :
    ends step (benchBoot []) orphanPairs (fun w =>
      (records benchChip w.flash 1).map recordId == some (benchId 3) &&
        (records benchChip w.flash 2).map recordId == some (benchId 3)) = true := by
  decide +kernel

theorem duplicate_id_of_orphan :
    Always step (fun w a _ => WithoutCompaction w (requested w a)) (benchBoot []) orphanPairs ∧
      ∃ w, run step (benchBoot []) orphanPairs = .ok w ∧ ¬ UniqueIds benchChip w.flash := by
  refine ⟨checks_spec
    (fun s _ _ h => withoutCompaction_of _ (show compacts benchChip s.flash = false by simpa using h))
    orphan_uncompacted, ?_⟩
  obtain ⟨w, hw, hp⟩ := ends_spec orphan_run
  refine ⟨w, hw, fun hu => ?_⟩
  simp only [Bool.and_eq_true, beq_iff_eq, Option.map_eq_some_iff] at hp
  obtain ⟨⟨r, hr, hk⟩, r', hr', hk'⟩ := hp
  exact absurd (hu 1 (by decide) 2 (by decide) r r' hr hr' (hk.trans hk'.symm)) (by decide)

end ArduinoHomeKit
