import ArduinoHomeKit.Sessions
import ArduinoHomeKit.Bench

/-! The slot number that a session keeps, against the slot its controller's record has. The
store moves records when it updates permissions, and no session is told. -/

namespace ArduinoHomeKit

open Growth Runs SlotStore

variable {P : Platform} {c : ClientId} {w w' : World P}

/-- The pairing_id of every session that is not marked is the slot of its controller. -/
def SlotsRight (w : World P) : Prop :=
  ∀ x, Unmarked w x → ∀ deviceId, VerifiedAs w x deviceId →
    ∃ i, matchSlot P.env.flash w.flash deviceId = some i ∧ (w.client x).pairingId = i

/-- A removal marks exactly the open sessions that were verified as the controller. -/
def MarksExactly (w w' : World P) : Prop :=
  ∀ c deviceId, .pairingRemoved c deviceId ∈ news w w' → ∀ x, Session w' x → (w.client x).disconnect = false →
    ((w'.client x).disconnect = true ↔ VerifiedAs w x deviceId)

/-- The store operation leaves the controllers of all unmarked sessions in their slots. -/
def Unmoved (w : World P) (f : Flash) : Prop :=
  ∀ x, Unmarked w x → ∀ deviceId, VerifiedAs w x deviceId →
    matchSlot P.env.flash f deviceId = matchSlot P.env.flash w.flash deviceId

def MovesNoSession (w : World P) : Option (ClientId × Request) → Prop
  | some (c, .store _ _ request) =>
    cryptoEd25519Verify P.crypto request.key request.info request.signature = 0 →
      ∀ r f, setupStore (arrived w c) request = .ok (r, f) → Unmoved w f
  | some (c, .add request) => ∀ r f, addPairingStore (arrived w c) request = .ok (r, f) → Unmoved w f
  | _ => True

theorem matchSlot_records {chip : FlashChip} {f f' : Flash} (h : records chip f' = records chip f)
    (deviceId : Bytes) : matchSlot chip f' deviceId = matchSlot chip f deviceId := by
  rw [matchSlot_eq_lookup, matchSlot_eq_lookup, h]

theorem Steady.slotsRight (h : Steady w w') (hw : WellFormed w) (hs : SlotsRight w)
    (hu : Unmoved w w'.flash) : SlotsRight w' := by
  intro x hx deviceId hv
  obtain ⟨hx₁, hid⟩ := h.unmarked hw hx
  have hv₁ := (h.verifiedAs x deviceId).mp hv
  obtain ⟨i, hi, he⟩ := hs x hx₁ deviceId hv₁
  exact ⟨i, (hu x hx₁ deviceId hv₁).trans hi, hid.trans he⟩

theorem Steady.marksExactly (h : Steady w w') : MarksExactly w w' :=
  fun _ _ hmem => absurd hmem h.not_removed

theorem step_slotsRight {a : Action P} (hs : Sound w) (hr : SlotsRight w) (h : step w a = .ok w')
    (hq : MovesNoSession w (requested w a)) : SlotsRight w' ∧ MarksExactly w w' := by
  have hw := hs.wellFormed
  have hstep := step_sessionStep hw h
  generalize requested w a = q at hstep hq
  cases hstep with
  | steady h hf =>
    exact ⟨h.slotsRight hw hr (fun _ _ deviceId _ => matchSlot_records hf deviceId), h.marksExactly⟩
  | stored c k s request r hv hst h => exact ⟨h.slotsRight hw hr (hq hv r _ hst), h.marksExactly⟩
  | added c request r hst h => exact ⟨h.slotsRight hw hr (hq r _ hst), h.marksExactly⟩
  | opened c context request pairing he hok hp hf hses ht hv =>
    have hnews : ∀ d deviceId, .pairingRemoved d deviceId ∉ news w w' := fun d deviceId hmem => by
      have := mem_news ht hmem
      simp [IsCalm] at this
    refine ⟨fun x hx deviceId hvx => ?_, fun d deviceId hmem => absurd hmem (hnews d deviceId)⟩
    rcases verifiedAs_opened hs he ht hvx with ⟨hne, hv₁⟩ | ⟨rfl, hid⟩
    · obtain ⟨_, hsx, hsame⟩ := (hses x hx.1).resolve_right (fun hh => hne hh.1)
      obtain ⟨i, hi, hpi⟩ := hr x ⟨hsx, hsame.disconnect ▸ hx.2⟩ deviceId hv₁
      exact ⟨i, hf ▸ hi, hsame.pairingId.trans hpi⟩
    · obtain ⟨_, hpid, _⟩ := (hses x hx.1).resolve_left (fun hh => hh.1 rfl)
      refine ⟨pairing.id, ?_, hpid⟩
      rw [hf, ← matchSlot_congr ((controllerId_strndup request.identifier).trans hid)]
      exact (homekitStorageFindPairing_some hp).1
  | removed c deviceId pairing hp hf hses ht =>
    have hv : ∀ x d, VerifiedAs w' x d ↔ VerifiedAs w x d := fun x d =>
      exists_congr (fun q => and_congr_left (fun _ => ht.mem_iff (by simp [IsCalm])))
    obtain ⟨hm, hlive, _⟩ := homekitStorageFindPairing_some hp
    obtain ⟨_, _, hkey⟩ := matchSlot_some hm
    -- an unmarked session has the slot of the removed record exactly if it is of its controller
    have hsame : ∀ x, Unmarked w x → ∀ d, VerifiedAs w x d →
        ((w.client x).pairingId = pairing.id ↔ controllerId d = controllerId deviceId) := by
      intro x hx d hvd
      obtain ⟨i, hi, hpi⟩ := hr x hx d hvd
      constructor
      · intro hid
        have hii : i = pairing.id := by
          have := hpi.symm.trans hid
          exact_mod_cast this
        rw [hii] at hi
        exact (matchSlot_some hi).2.2.symm.trans hkey
      · intro hdd
        rw [matchSlot_congr hdd, hm] at hi
        rw [hpi, Option.some.inj hi]
    refine ⟨fun x hx d hvd => ?_, fun d i hmem x hx hun => ?_⟩
    · obtain ⟨hsx, hpid, _, hdis⟩ := hses x hx.1
      have hboth : (w.client x).disconnect = false ∧ (w.client x).pairingId ≠ pairing.id := by
        have := hdis.symm.trans hx.2
        simpa using this
      have hvd₁ := (hv x d).mp hvd
      have hx₁ : Unmarked w x := ⟨hsx, hboth.1⟩
      obtain ⟨i, hi, hpi⟩ := hr x hx₁ d hvd₁
      have hne : controllerId d ≠ controllerId deviceId := fun he => hboth.2 ((hsame x hx₁ d hvd₁).mpr he)
      refine ⟨i, ?_, hpid.trans hpi⟩
      rw [matchSlot_eq_lookup, hf, lookup_kill_of_ne hlive (by rw [hkey]; exact hne.symm),
        ← matchSlot_eq_lookup]
      exact hi
    · obtain ⟨rfl, rfl⟩ : d = c ∧ i = deviceId := by
        have := mem_news ht hmem
        simpa [IsCalm] using this
      obtain ⟨hsx, _, _, hdis⟩ := hses x hx
      have hx₁ : Unmarked w x := ⟨hsx, hun⟩
      obtain ⟨q, hvq⟩ := hs.identity x hsx
      have hvx : VerifiedAs w x q.identifier := ⟨q, hvq, rfl⟩
      rw [hdis, hun, Bool.false_or, decide_eq_true_eq, hsame x hx₁ _ hvx]
      constructor
      · exact fun he => hvx.congr he
      · intro hvi
        obtain ⟨i₁, hi₁, hp₁⟩ := hr x hx₁ _ hvi
        obtain ⟨i₂, hi₂, hp₂⟩ := hr x hx₁ _ hvx
        have hii : i₂ = i₁ := by
          have := hp₂.symm.trans hp₁
          exact_mod_cast this
        rw [hii] at hi₂
        exact (matchSlot_some hi₂).2.2.symm.trans (matchSlot_some hi₁).2.2

/-- As long as no store operation moves the record of a controller with an open unmarked
session, every such session knows its slot and every removal marks the right sessions. -/
theorem slotsRight_run (accessoryId : Bytes) (accessoryKey : Ed25519Key) (password : Option Bytes)
    (flash : Flash) (app : P.App) (clients : ClientId → Client P) (contexts : ContextId → PairingContext)
    (as : List (Action P))
    (h : Always step (fun w a _ => MovesNoSession w (requested w a))
      (serverBoot accessoryId accessoryKey password flash app clients contexts) as) :
    Always step (fun w _ w' => SlotsRight w' ∧ MarksExactly w w')
      (serverBoot accessoryId accessoryKey password flash app clients contexts) as := by
  refine Always.imp (I := fun w => Sound w ∧ SlotsRight w) (fun w a w' hi hstep hq => ?_) ⟨?_, ?_⟩ h
  · have hh := step_slotsRight hi.1 hi.2 hstep hq
    exact ⟨⟨step_sound hi.1 hstep, hh.1⟩, hh⟩
  · exact serverBoot_sound accessoryId accessoryKey password flash app clients contexts
  · exact fun x hx => absurd hx.1.1 List.not_mem_nil

/-- The device ids of the log, the only ones a connection can be verified as. -/
def verifiedIds (w : World P) : List Bytes :=
  w.trace.filterMap (fun e => match e with | .verified _ request => some request.identifier | _ => none)

theorem unmoved_of_verifiedIds {f : Flash}
    (h : ∀ id ∈ verifiedIds w, matchSlot P.env.flash f id = matchSlot P.env.flash w.flash id) : Unmoved w f := by
  rintro x _ deviceId ⟨request, hmem, hid⟩
  have hh := h request.identifier (List.mem_filterMap.mpr ⟨_, hmem, rfl⟩)
  rwa [matchSlot_congr hid, matchSlot_congr hid] at hh

theorem added_slot_checked :
    checks step (fun w a =>
    match requested w a with
    | some (_, .store ..) => false
    | some (c, .add request) =>
      match addPairingStore (arrived w c) request with
      | .ok (_, f) => (verifiedIds w).all (fun id => matchSlot benchChip f id == matchSlot benchChip w.flash id)
      | .error _ => true
    | _ => true) (benchBoot [benchRecord 2 1])
      (verifyAs 0 2 ++ post 0 "/pairings" (addMessage 3 0)) = true := by
  decide +kernel

/-- An admin adds a controller that has no session. -/
theorem slotsRight_run_addPairing :
    Always step (fun w _ w' => SlotsRight w' ∧ MarksExactly w w') (benchBoot [benchRecord 2 1])
      (verifyAs 0 2 ++ post 0 "/pairings" (addMessage 3 0)) := by
  refine slotsRight_run (P := bench) _ _ _ _ _ _ _ _ (checks_spec (fun w a _ h => ?_) added_slot_checked)
  unfold MovesNoSession
  split
  · rename_i hr
    simp [hr] at h
  · rename_i hr
    intro r f hs
    simp only [hr, hs, List.all_eq_true, beq_iff_eq] at h
    exact unmoved_of_verifiedIds h
  · trivial

theorem verifiedAs_of_any {id : Bytes} (h : w.trace.any (fun e =>
    match e with | .verified d request => d == c && request.identifier == id | _ => false) = true) :
    VerifiedAs w c id := by
  obtain ⟨e, hmem, he⟩ := List.any_eq_true.mp h
  split at he
  · rename_i d request
    simp only [Bool.and_eq_true, beq_iff_eq] at he
    exact ⟨request, he.1 ▸ hmem, by rw [he.2]⟩
  · simp at he

theorem moved_slot_run :
    ends step (benchBoot [benchRecord 2 1, benchRecord 3 0])
      (verifyAs 0 2 ++ verifyAs 1 3 ++ post 0 "/pairings" (addMessage 3 1) ++
        post 0 "/pairings" (removeMessage 3)) (fun w =>
      w.trace.contains (.pairingRemoved 0 (benchId 3)) &&
        w.trace.any (fun e =>
          match e with | .verified d request => d == 1 && request.identifier == benchId 3 | _ => false) &&
        decide (1 ∈ w.clients) && (w.client 1).encrypted && !(w.client 1).disconnect &&
        (matchSlot benchChip w.flash (benchId 3)).isNone) = true := by
  decide +kernel

/-- An admin changes the permissions of a controller with an open session. The record moves
to another slot, so the removal that follows misses the session. -/
theorem session_missed_by_removal :
    ∃ w, run step (benchBoot [benchRecord 2 1, benchRecord 3 0])
        (verifyAs 0 2 ++ verifyAs 1 3 ++ post 0 "/pairings" (addMessage 3 1) ++
          post 0 "/pairings" (removeMessage 3)) = .ok w ∧
      .pairingRemoved 0 (benchId 3) ∈ w.trace ∧ VerifiedAs w 1 (benchId 3) ∧ Unmarked w 1 ∧
      ¬ SlotsRight w := by
  obtain ⟨w, hw, hp⟩ := ends_spec moved_slot_run
  simp only [Bool.and_eq_true, decide_eq_true_eq, Bool.not_eq_true', Option.isNone_iff_eq_none,
    List.contains_iff_mem] at hp
  obtain ⟨⟨⟨⟨⟨hrem, hany⟩, hmem⟩, henc⟩, hdis⟩, hm⟩ := hp
  have hv : VerifiedAs w 1 (benchId 3) := verifiedAs_of_any hany
  have hu : Unmarked w 1 := ⟨⟨hmem, henc⟩, hdis⟩
  refine ⟨w, hw, hrem, hv, hu, fun hs => ?_⟩
  obtain ⟨i, hi, _⟩ := hs 1 hu _ hv
  exact absurd (hm.symm.trans hi) (by simp)

end ArduinoHomeKit
