import ArduinoHomeKit.SessionSlots

/-! The permissions copied into a session at pair-verify, against the ones in the store. -/

namespace ArduinoHomeKit

open Growth Runs SlotStore

variable {P : Platform} {c : ClientId} {w w' : World P}

/-- The admin check on an open session is what the record of its controller says. -/
def AdminAgrees (w : World P) : Prop :=
  ∀ x, Session w x → ∀ deviceId, VerifiedAs w x deviceId → ∀ i, matchSlot P.env.flash w.flash deviceId = some i →
    isAdminSession w x = isAdmin (readPairing P.env.flash w.flash i).permissions

/-- The identifier that an AddPairing request writes a record for. -/
def writtenId (w : World P) (request : AddPairingRequest) : Bytes :=
  match homekitStorageFindPairing P.crypto P.env.flash w.flash
      (CString.strndup request.identifier request.identifier.length) with
  | some pairing => updatedIdentifier w request pairing
  | none => CString.strndup request.identifier request.identifier.length

/-- All open sessions of the controller have this admin bit. -/
def SessionsHaveBit (w : World P) (deviceId : Bytes) (bit : Bool) : Prop :=
  ∀ x, Session w x → VerifiedAs w x deviceId → isAdminSession w x = bit

/-- A record is written with the admin bit of the open sessions of its controller, and a
session is opened only if no second record of the controller has another bit. -/
def KeepsBits (w : World P) : Option (ClientId × Request) → Prop
  | some (c, .store _ _ request) =>
    cryptoEd25519Verify P.crypto request.key request.info request.signature = 0 →
      ∀ r f, setupStore (arrived w c) request = .ok (r, f) → records P.env.flash f ≠ records P.env.flash w.flash →
        ∀ id, storedIdentifier (arrived w c) request.identifier = some id → SessionsHaveBit w id true
  | some (c, .add request) =>
    ∀ r f, addPairingStore (arrived w c) request = .ok (r, f) → records P.env.flash f ≠ records P.env.flash w.flash →
      SessionsHaveBit w (writtenId (arrived w c) request) (isAdmin (permissionByte request.permissions))
  | some (_, .verify _ request pairing) =>
    cryptoEd25519Verify P.crypto request.key request.info request.signature = 0 →
      ∀ i < maxPairings, ∀ r, records P.env.flash w.flash i = some r →
        recordId r = controllerId request.identifier → isAdmin r.permissions = isAdmin pairing.permissions
  | _ => True

/-- Every live record of a controller with an open session has the bit of the session. -/
def RecordsAgree (w : World P) : Prop :=
  ∀ x, Session w x → ∀ i < maxPairings, ∀ r, records P.env.flash w.flash i = some r →
    VerifiedAs w x r.deviceId → isAdminSession w x = isAdmin r.permissions

theorem RecordsAgree.adminAgrees (h : RecordsAgree w) : AdminAgrees w := by
  intro x hx deviceId hv i hi
  obtain ⟨hlt, hlive, hid⟩ := matchSlot_some hi
  exact h x hx i hlt _ hlive (hv.congr hid.symm)

theorem isAdminSession_congr {x : ClientId} (h : SameSession (w.client x) (w'.client x)) :
    isAdminSession w' x = isAdminSession w x := by
  rw [isAdminSession, isAdminSession, h.permissions]

/-- New records may only come with the bit of the sessions of their controller. -/
theorem Steady.recordsAgree (h : Steady w w') (hw : WellFormed w) (hr : RecordsAgree w) {id : Bytes} {bit : Bool}
    (hold : ∀ i < maxPairings, ∀ r, records P.env.flash w'.flash i = some r →
      records P.env.flash w.flash i = some r ∨ recordId r = controllerId id ∧ isAdmin r.permissions = bit)
    (hbit : SessionsHaveBit w id bit) : RecordsAgree w' := by
  intro x hx i hi r hrec hv
  obtain ⟨hx₁, hsame⟩ := h.sessions hw x hx
  have hv₁ := (h.verifiedAs x r.deviceId).mp hv
  rw [isAdminSession_congr hsame]
  rcases hold i hi r hrec with hrec | ⟨hid, hb⟩
  · exact hr x hx₁ i hi r hrec hv₁
  · rw [hb]
    exact hbit x hx₁ (hv₁.congr hid)

theorem Steady.recordsAgree_of_subset (h : Steady w w') (hw : WellFormed w) (hr : RecordsAgree w)
    (hold : ∀ i < maxPairings, ∀ r, records P.env.flash w'.flash i = some r →
      records P.env.flash w.flash i = some r) : RecordsAgree w' := by
  intro x hx i hi r hrec hv
  obtain ⟨hx₁, hsame⟩ := h.sessions hw x hx
  rw [isAdminSession_congr hsame]
  exact hr x hx₁ i hi r (hold i hi r hrec) ((h.verifiedAs x r.deviceId).mp hv)

theorem setupStore_records {request : SignedRequest} {r : Int} {f : Flash}
    (h : setupStore w request = .ok (r, f)) {i : Nat} (hi : i < maxPairings) {d : PairingData}
    (hd : records P.env.flash f i = some d) :
    records P.env.flash w.flash i = some d ∨ ∃ id, storedIdentifier w request.identifier = some id ∧
      recordId d = controllerId id ∧ isAdmin d.permissions = true := by
  obtain ⟨f0, hc, ⟨_, he⟩ | ⟨_, id, n, hid, _, _, he⟩⟩ := homekitStorageAddPairing_cases h
  · exact Or.inl (hc.of_some hi (he ▸ hd))
  · rw [he] at hd
    by_cases hin : i = n
    · rw [hin, put_self] at hd
      obtain rfl := Option.some.inj hd
      exact Or.inr ⟨id, hid, recordId_newPairingData .., (by decide : isAdmin pairingPermissionsAdmin = true)⟩
    · rw [put_of_ne hin] at hd
      exact Or.inl (hc.of_some hi hd)

theorem addPairingStore_records {request : AddPairingRequest} {r : Int} {f : Flash}
    (h : addPairingStore w request = .ok (r, f)) {i : Nat} (hi : i < maxPairings) {d : PairingData}
    (hd : records P.env.flash f i = some d) :
    records P.env.flash w.flash i = some d ∨
      recordId d = controllerId (writtenId w request) ∧ d.permissions = permissionByte request.permissions := by
  unfold addPairingStore at h
  split at h
  · rename_i pairing hp
    have hid : writtenId w request = updatedIdentifier w request pairing := by simp only [writtenId, hp]
    rw [hid]
    rcases homekitStorageUpdatePairing_cases h with ⟨_, _, rfl⟩ | ⟨j, f0, hm, hc, ⟨_, he⟩ | ⟨n, _, _, hh⟩⟩
    · exact Or.inl hd
    · exact Or.inl (hc.of_some hi (he ▸ hd))
    · have hput : ∀ i, i < maxPairings →
          put (records P.env.flash f0) n { readPairing P.env.flash w.flash j with
            permissions := permissionByte request.permissions } i = some d →
          records P.env.flash w.flash i = some d ∨
            recordId d = controllerId (updatedIdentifier w request pairing) ∧
              d.permissions = permissionByte request.permissions := by
        intro i hi hd
        by_cases hin : i = n
        · rw [hin, put_self] at hd
          obtain rfl := Option.some.inj hd
          exact Or.inr ⟨(matchSlot_some hm).2.2, rfl⟩
        · rw [put_of_ne hin] at hd
          exact Or.inl (hc.of_some hi hd)
      rcases hh with ⟨_, he⟩ | ⟨_, he⟩
      · exact hput i hi (he ▸ hd)
      · rw [he] at hd
        by_cases hij : i = j
        · simp [hij] at hd
        · exact hput i hi (by rwa [kill_of_ne hij] at hd)
  · rename_i hp
    have hw : writtenId w request = CString.strndup request.identifier request.identifier.length := by
      simp only [writtenId, hp]
    rw [hw]
    obtain ⟨f0, hc, ⟨_, he⟩ | ⟨_, id, n, hid, _, _, he⟩⟩ := homekitStorageAddPairing_cases h
    · exact Or.inl (hc.of_some hi (he ▸ hd))
    · obtain rfl := Option.some.inj hid
      rw [he] at hd
      by_cases hin : i = n
      · rw [hin, put_self] at hd
        obtain rfl := Option.some.inj hd
        exact Or.inr ⟨recordId_newPairingData .., rfl⟩
      · rw [put_of_ne hin] at hd
        exact Or.inl (hc.of_some hi hd)

theorem step_recordsAgree {a : Action P} (hs : Sound w) (hr : RecordsAgree w) (h : step w a = .ok w')
    (hq : KeepsBits w (requested w a)) : RecordsAgree w' := by
  have hw := hs.wellFormed
  have hstep := step_sessionStep hw h
  generalize requested w a = q at hstep hq
  cases hstep with
  | steady h hf => exact h.recordsAgree_of_subset hw hr (fun i _ r hrec => hf ▸ hrec)
  | stored c k s request r hv hst h =>
    have hflash := (arrived_idle w c).flash
    by_cases hsame : records P.env.flash w'.flash = records P.env.flash w.flash
    · exact h.recordsAgree_of_subset hw hr (fun i _ d hd => hsame ▸ hd)
    · intro x hx i hi d hd hvx
      obtain ⟨hx₁, hsx⟩ := h.sessions hw x hx
      have hv₁ := (h.verifiedAs x d.deviceId).mp hvx
      rw [isAdminSession_congr hsx]
      rcases setupStore_records hst hi hd with hold | ⟨id, hid, hrec, hadm⟩
      · exact hr x hx₁ i hi d (hflash ▸ hold) hv₁
      · rw [hadm]
        exact hq hv r _ hst hsame id hid x hx₁ (hv₁.congr hrec)
  | added c request r hst h =>
    have hflash := (arrived_idle w c).flash
    by_cases hsame : records P.env.flash w'.flash = records P.env.flash w.flash
    · exact h.recordsAgree_of_subset hw hr (fun i _ d hd => hsame ▸ hd)
    · refine h.recordsAgree hw hr (fun i hi d hd => ?_) (hq r _ hst hsame)
      rcases addPairingStore_records hst hi hd with hold | ⟨hid, hp⟩
      · exact Or.inl (hflash ▸ hold)
      · exact Or.inr ⟨hid, by rw [hp]⟩
  | opened c context request pairing he hok hp hf hses ht hv =>
    intro x hx i hi r hrec hvx
    rw [hf] at hrec
    rcases verifiedAs_opened hs he ht hvx with ⟨hne, hv₁⟩ | ⟨rfl, hid⟩
    · obtain ⟨_, hx₁, hsame⟩ := (hses x hx).resolve_right (fun hh => hne hh.1)
      rw [isAdminSession_congr hsame]
      exact hr x hx₁ i hi r hrec hv₁
    · obtain ⟨_, _, hperm⟩ := (hses x hx).resolve_left (fun hh => hh.1 rfl)
      rw [isAdminSession, hperm]
      exact (hq hok i hi r hrec hid.symm).symm
  | removed c deviceId pairing hp hf hses ht =>
    intro x hx i hi r hrec hv
    obtain ⟨hx₁, _, hperm, _⟩ := hses x hx
    have hv₁ : VerifiedAs w x r.deviceId := by
      obtain ⟨q, hm, hid⟩ := hv
      exact ⟨q, (ht.mem_iff (by simp [IsCalm])).mp hm, hid⟩
    have hold : records P.env.flash w.flash i = some r := by
      rw [hf] at hrec
      by_cases hip : i = pairing.id
      · simp [hip] at hrec
      · rwa [kill_of_ne hip] at hrec
    rw [isAdminSession, hperm]
    exact hr x hx₁ i hi r hold hv₁

/-- As long as records are written with the admin bit of the open sessions of their
controller, every admin check agrees with the store. -/
theorem adminAgrees_run (accessoryId : Bytes) (accessoryKey : Ed25519Key) (password : Option Bytes)
    (flash : Flash) (app : P.App) (clients : ClientId → Client P) (contexts : ContextId → PairingContext)
    (as : List (Action P))
    (h : Always step (fun w a _ => KeepsBits w (requested w a))
      (serverBoot accessoryId accessoryKey password flash app clients contexts) as) :
    Always step (fun _ _ w' => AdminAgrees w')
      (serverBoot accessoryId accessoryKey password flash app clients contexts) as := by
  refine Always.imp (I := fun w => Sound w ∧ RecordsAgree w) (fun w a w' hi hstep hq => ?_) ⟨?_, ?_⟩ h
  · have hh := step_recordsAgree hi.1 hi.2 hstep hq
    exact ⟨⟨step_sound hi.1 hstep, hh⟩, hh.adminAgrees⟩
  · exact serverBoot_sound accessoryId accessoryKey password flash app clients contexts
  · exact fun x hx => absurd hx.1 List.not_mem_nil

theorem sessionsHaveBit_of_verifiedIds {id : Bytes} {bit : Bool}
    (h : ∀ id' ∈ verifiedIds w, controllerId id' ≠ controllerId id) : SessionsHaveBit w id bit := by
  rintro x _ ⟨request, hmem, hid⟩
  exact absurd hid (h request.identifier (List.mem_filterMap.mpr ⟨_, hmem, rfl⟩))

theorem added_controller_checked :
    checks step (fun w a =>
    match requested w a with
    | some (_, .store ..) => false
    | some (c, .add request) =>
      (verifiedIds w).all (fun id => controllerId id != controllerId (writtenId (arrived w c) request))
    | some (_, .verify _ _ pairing) =>
      (List.range maxPairings).all (fun i => (records benchChip w.flash i).all (fun r =>
        isAdmin r.permissions == isAdmin pairing.permissions))
    | _ => true) (benchBoot [benchRecord 2 1])
      (verifyAs 0 2 ++ post 0 "/pairings" (addMessage 3 0)) = true := by
  decide +kernel

/-- An admin opens a session and adds a controller that has none. -/
theorem adminAgrees_run_addPairing :
    Always step (fun _ _ w' => AdminAgrees w') (benchBoot [benchRecord 2 1])
      (verifyAs 0 2 ++ post 0 "/pairings" (addMessage 3 0)) := by
  refine adminAgrees_run (P := bench) _ _ _ _ _ _ _ _ (checks_spec (fun w a _ h => ?_) added_controller_checked)
  unfold KeepsBits
  split
  · rename_i hr
    simp [hr] at h
  · rename_i hr
    intro _ _ _ _
    simp only [hr, List.all_eq_true, bne_iff_ne, ne_eq] at h
    exact sessionsHaveBit_of_verifiedIds h
  · rename_i hr
    intro _ i hi r hrec _
    simp only [hr, List.all_eq_true, List.mem_range] at h
    have hi' := h i hi
    have hrec' : records benchChip w.flash i = some r := hrec
    rw [hrec'] at hi'
    simpa using hi'
  · trivial

theorem demoted_admin_run :
    ends step (benchBoot [benchRecord 2 1, benchRecord 3 1])
      (verifyAs 0 2 ++ verifyAs 1 3 ++ post 0 "/pairings" (addMessage 3 0)) (fun w =>
      w.trace.any (fun e =>
          match e with | .verified d request => d == 1 && request.identifier == benchId 3 | _ => false) &&
        decide (1 ∈ w.clients) && (w.client 1).encrypted && isAdminSession w 1 &&
        (matchSlot benchChip w.flash (benchId 3)).any (fun i =>
          !isAdmin (readPairing benchChip w.flash i).permissions)) = true := by
  decide +kernel

/-- A controller that another admin has demoted keeps its admin session. -/
theorem demoted_session_stays_admin :
    ∃ w, run step (benchBoot [benchRecord 2 1, benchRecord 3 1])
        (verifyAs 0 2 ++ verifyAs 1 3 ++ post 0 "/pairings" (addMessage 3 0)) = .ok w ∧ ¬ AdminAgrees w := by
  obtain ⟨w, hw, hp⟩ := ends_spec demoted_admin_run
  simp only [Bool.and_eq_true, decide_eq_true_eq, Option.any_eq_true, Bool.not_eq_true'] at hp
  obtain ⟨⟨⟨⟨hany, hmem⟩, henc⟩, hadm⟩, i, hi, hrec⟩ := hp
  refine ⟨w, hw, fun hs => ?_⟩
  have hh := hs 1 ⟨hmem, henc⟩ (benchId 3) (verifiedAs_of_any hany) i hi
  exact absurd (hadm.symm.trans (hh.trans hrec)) (by decide)

end ArduinoHomeKit
