import ArduinoHomeKit.Invariants
import ArduinoHomeKit.Bench

/-! The cached flag `paired` against the store. It is assigned at boot, at the end of M5 and
by RemovePairing, so a run keeps it right exactly if its other store operations leave the
existence of an admin record as it was. -/

namespace ArduinoHomeKit

open Runs SlotStore

variable {P : Platform} {c : ClientId} {w w' : World P}

def HasAdmin (chip : FlashChip) (f : Flash) : Prop :=
  Holds maxPairings (records chip f) (fun d => isAdmin d.permissions = true)

/-- The flag is what homekit_is_paired would compute. -/
def FlagRight (w : World P) : Prop := w.paired = homekitIsPaired P.crypto P.env.flash w.flash

/-- The request leaves the flag right: M6 can be built for a pairing that was stored, and
an AddPairing neither adds the first admin record nor loses the last one. -/
def KeepsFlag (w : World P) : Option (ClientId × Request) → Prop
  | some (c, .store k sharedSecret request) =>
    cryptoEd25519Verify P.crypto request.key request.info request.signature = 0 →
      ∀ f, setupStore (arrived w c) request = .ok (0, f) →
        ∀ e, pairSetupM6 (arrived w c) ((arrived w c).contexts k).srp sharedSecret ≠ .error e
  | some (c, .add request) =>
    ∀ r f, addPairingStore (arrived w c) request = .ok (r, f) →
      (HasAdmin P.env.flash f ↔ HasAdmin P.env.flash w.flash)
  | _ => True

theorem flagRight_iff : FlagRight w ↔ (w.paired = true ↔ HasAdmin P.env.flash w.flash) := by
  rw [FlagRight, Bool.eq_iff_iff, homekitIsPaired_eq_true]
  rfl

theorem flagRight_congr (hp : w'.paired = w.paired) (hf : w'.flash = w.flash) :
    FlagRight w' ↔ FlagRight w := by
  rw [FlagRight, FlagRight, hp, hf]

theorem Quiet.flagRight (h : Quiet c w w') : FlagRight w' ↔ FlagRight w := flagRight_congr h.paired h.flash

theorem Passive.flagRight (h : Passive c w w') : FlagRight w' ↔ FlagRight w := by
  cases h with
  | quiet h => exact h.flagRight
  | opened w₁ k h _ _ _ hh =>
    exact flagRight_congr (hh.paired.trans h.paired) (hh.flash.trans h.flash)
  | proved w₁ w₂ k h _ hq hh =>
    exact flagRight_congr (hh.paired.trans (hq.paired.trans h.paired)) (hh.flash.trans (hq.flash.trans h.flash))
  | started w₁ context h hh =>
    exact flagRight_congr (hh.paired.trans h.paired) (hh.flash.trans h.flash)

/-- An M5 stores an admin or leaves at most the admins there were. -/
theorem setupStore_hasAdmin {request : SignedRequest} {r : Int} {f : Flash}
    (h : setupStore w request = .ok (r, f)) :
    if r = 0 then HasAdmin P.env.flash f else HasAdmin P.env.flash f → HasAdmin P.env.flash w.flash := by
  obtain ⟨f0, hc, hh⟩ := homekitStorageAddPairing_cases h
  rcases hh with ⟨hr, he⟩ | ⟨hr, id, n, _, hn, _, he⟩
  · rw [if_neg hr, HasAdmin, he]
    rintro ⟨i, hi, d, hd, ha⟩
    exact ⟨i, hi, d, hc.of_some hi hd, ha⟩
  · rw [if_pos hr, HasAdmin, he]
    exact ⟨n, hn, _, put_self, (rfl : isAdmin pairingPermissionsAdmin = true)⟩

theorem Stored.flagRight_iff {k : ContextId} {s : Bytes} {request : SignedRequest}
    (h : Stored c k s request w w') (hp : w.paired = false) (hw : FlagRight w) :
    FlagRight w' ↔ ∀ f, setupStore w request = .ok (0, f) →
      ∀ e, pairSetupM6 w (w.contexts k).srp s ≠ .error e := by
  have hnone : ¬ HasAdmin P.env.flash w.flash := by
    rw [ArduinoHomeKit.flagRight_iff, hp] at hw
    simpa using hw
  cases h with
  | failed w₁ r f h hs hr hh =>
    have hp' : w'.paired = false := hh.paired.trans (h.paired.trans hp)
    have hf' : w'.flash = f := hh.flash
    have hadmin := setupStore_hasAdmin hs
    rw [ArduinoHomeKit.flagRight_iff, hp', hf']
    by_cases h0 : r = 0
    · subst h0
      rw [if_pos rfl] at hadmin
      obtain ⟨e, he⟩ := hr.resolve_left (by simp)
      constructor
      · intro hiff
        exact absurd (hiff.mpr hadmin) (by simp)
      · intro hall
        exact absurd he (hall f hs e)
    · rw [if_neg h0] at hadmin
      constructor
      · intro _ g hg
        rw [hs] at hg
        exact absurd (Prod.mk.inj (Except.ok.inj hg)).1 h0
      · intro _
        exact ⟨fun h => by simp at h, fun h => absurd (hadmin h) hnone⟩
  | finished w₁ w₂ f h hs hm hq hn hh =>
    have hp' : w'.paired = true := hh.paired
    have hf' : w'.flash = f := hh.flash.trans hq.flash
    have hadmin := setupStore_hasAdmin hs
    rw [if_pos rfl] at hadmin
    rw [ArduinoHomeKit.flagRight_iff, hp', hf']
    exact ⟨fun _ _ _ => hm, fun _ => ⟨fun _ => hadmin, fun _ => rfl⟩⟩

theorem Removed.flagRight {deviceId : Bytes} (h : Removed c deviceId w w') (hw : FlagRight w) :
    FlagRight w' := by
  cases h with
  | absent _ h => exact h.flagRight.mpr hw
  | refused w₁ r f h hs hr hh =>
    have hrec : records P.env.flash f = records P.env.flash w.flash := by
      rcases homekitStorageRemovePairing_cases hs with ⟨h0, _, _⟩ | ⟨i, _, ⟨_, he⟩ | ⟨h0, _⟩⟩
      · exact absurd h0 hr
      · exact he
      · exact absurd h0 hr
    have hp' : w'.paired = w.paired := hh.paired.trans h.paired
    rw [FlagRight, hp', hh.flash, homekitIsPaired_congr hrec]
    exact hw
  | done w₁ f pairing h hp hs hh =>
    have hrev := revoke_revokes w₁ c deviceId pairing f
    obtain ⟨hm, hlive, hpair⟩ := homekitStorageFindPairing_some hp
    have hkill : records P.env.flash f = kill (records P.env.flash w.flash) pairing.id := by
      rcases homekitStorageRemovePairing_cases hs with ⟨_, hn, _⟩ | ⟨i, hi, ⟨hr, _⟩ | ⟨_, he⟩⟩
      · simp [hn] at hm
      · exact absurd rfl hr
      · rwa [Option.some.inj (hi.symm.trans hm)] at he
    have hflash : w'.flash = f := hh.flash.trans hrev.flash
    rw [ArduinoHomeKit.flagRight_iff, hh.paired, hrev.paired, hflash, h.paired]
    by_cases ha : isAdmin pairing.permissions = true
    · -- the admin bit is set, so the handler looks at the store again
      cases hf : homekitIsPaired P.crypto P.env.flash f with
      | false =>
        have hno : ¬ HasAdmin P.env.flash f := by
          rw [HasAdmin, ← homekitIsPaired_eq_true, hf]
          simp
        simp [ha, hno]
      | true =>
        have hyes : HasAdmin P.env.flash f := homekitIsPaired_eq_true.mp hf
        have hbefore : HasAdmin P.env.flash w.flash := by
          rw [HasAdmin, hkill] at hyes
          exact hyes.of_kill
        simp [ha, hyes, (ArduinoHomeKit.flagRight_iff.mp hw).mpr hbefore]
    · have hrec : isAdmin (readPairing P.env.flash w.flash pairing.id).permissions = false := by
        rw [hpair] at ha
        simpa [pairingOf] using ha
      have hsame : HasAdmin P.env.flash f ↔ HasAdmin P.env.flash w.flash := by
        rw [HasAdmin, hkill, holds_kill_of_not hlive (by simp [hrec])]
        rfl
      simp only [ha, Bool.false_and, Bool.false_eq_true, if_false, hsame]
      exact ArduinoHomeKit.flagRight_iff.mp hw

theorem arrived_flagRight (w : World P) (c : ClientId) : FlagRight (arrived w c) ↔ FlagRight w :=
  flagRight_congr (arrived_idle w c).paired (arrived_idle w c).flash

theorem step_flagRight {a : Action P} (hs : Sound w) (hw : FlagRight w) (h : step w a = .ok w') :
    FlagRight w' ↔ KeepsFlag w (requested w a) := by
  rcases step_cases h with ⟨hr, hi⟩ | ⟨c, q, _, _, hr, he⟩
  · rw [hr]
    exact ⟨fun _ => trivial, fun _ => (flagRight_congr hi.paired hi.flash).mpr hw⟩
  · have hw₁ := (arrived_flagRight w c).mpr hw
    have hs₁ := (arrived_idle w c).sound hs
    rw [hr]
    match q, he with
    | none, he => exact ⟨fun _ => trivial, fun _ => (Passive.flagRight he).mpr hw₁⟩
    | some (.store k s request), ⟨hk, he⟩ =>
      have hp : (arrived w c).paired = false := hs₁.unpaired (by simp [hk])
      split at he
      · rename_i hv
        exact ⟨fun _ h0 => absurd h0 hv, fun _ => he.flagRight.mpr hw₁⟩
      · rename_i hv
        rw [he.flagRight_iff hp hw₁]
        exact ⟨fun h _ => h, fun h => h (not_not.mp hv)⟩
    | some (.verify context request pairing), ⟨_, _, he⟩ =>
      refine ⟨fun _ => trivial, fun _ => ?_⟩
      split at he
      · exact he.flagRight.mpr hw₁
      · obtain ⟨w₁, h₁, _, hh⟩ := he
        exact (flagRight_congr (hh.paired.trans h₁.paired) (hh.flash.trans h₁.flash)).mpr hw₁
    | some (.add request), ⟨_, w₁, r, f, h₁, hadd, hh⟩ =>
      have hp : w'.paired = w.paired := hh.paired.trans (h₁.paired.trans (arrived_idle w c).paired)
      have hf : w'.flash = f := hh.flash
      have hiff := flagRight_iff.mp hw
      rw [flagRight_iff, hp, hf, hiff]
      constructor
      · intro hh r' f' hadd'
        obtain ⟨_, rfl⟩ := Prod.mk.inj (Except.ok.inj (hadd.symm.trans hadd'))
        exact hh.symm
      · exact fun hk => (hk r f hadd).symm
    | some (.remove deviceId), ⟨_, he⟩ => exact ⟨fun _ => trivial, fun _ => he.flagRight hw₁⟩

/-- From boot on, the flag is right after every step exactly if every request of the run
keeps it right. -/
theorem flagRight_run_iff (accessoryId : Bytes) (accessoryKey : Ed25519Key) (password : Option Bytes)
    (flash : Flash) (app : P.App) (clients : ClientId → Client P) (contexts : ContextId → PairingContext)
    (as : List (Action P)) :
    let s := serverBoot accessoryId accessoryKey password flash app clients contexts
    Always step (fun _ _ w' => FlagRight w') s as ↔ Always step (fun w a _ => KeepsFlag w (requested w a)) s as :=
  Always.congr (I := fun w => Sound w ∧ FlagRight w)
    (fun _ _ _ hi h hf => ⟨step_sound hi.1 h, hf⟩) (fun _ _ _ hi h => step_flagRight hi.1 hi.2 h) as
    ⟨serverBoot_sound accessoryId accessoryKey password flash app clients contexts, rfl⟩

theorem demotion_run :
    ends step (benchBoot [benchRecord 2 1])
      (verifyAs 0 2 ++ post 0 "/pairings" (addMessage 2 0)) (fun w => w.paired != homekitIsPaired benchCrypto benchChip w.flash) = true := by
  decide +kernel

/-- The only admin gives up its admin bit: no admin record is left, and the flag stays. -/
theorem flag_wrong_after_demotion :
    ∃ w, run step (benchBoot [benchRecord 2 1]) (verifyAs 0 2 ++ post 0 "/pairings" (addMessage 2 0)) = .ok w ∧
      ¬ FlagRight w := by
  obtain ⟨w, hw, hp⟩ := ends_spec demotion_run
  have hne : w.paired ≠ homekitIsPaired benchCrypto benchChip w.flash := by simpa using hp
  exact ⟨w, hw, hne⟩

end ArduinoHomeKit
