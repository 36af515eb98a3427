import ArduinoHomeKit.News

/-! Which controller a session was verified as, and what the effects of messages mean for
the open sessions. -/

namespace ArduinoHomeKit

open Growth Runs SlotStore

variable {P : Platform} {c : ClientId} {w w' w'' : World P}

/-- The connection was verified as the controller with this device id. -/
def VerifiedAs (w : World P) (c : ClientId) (deviceId : Bytes) : Prop :=
  ∃ request, .verified c request ∈ w.trace ∧ controllerId request.identifier = controllerId deviceId

/-- An open session that nobody has marked for disconnection. -/
def Unmarked (w : World P) (c : ClientId) : Prop := Session w c ∧ (w.client c).disconnect = false

theorem matchSlot_congr {chip : FlashChip} {f : Flash} {a b : Bytes} (h : controllerId a = controllerId b) :
    matchSlot chip f a = matchSlot chip f b := by
  rw [matchSlot_eq_lookup, matchSlot_eq_lookup, h]

theorem controllerId_strndup (id : Bytes) : controllerId (CString.strndup id id.length) = controllerId id :=
  CString.strndup_full id deviceIdSize

theorem VerifiedAs.congr {a b : Bytes} (h : VerifiedAs w c a) (hab : controllerId a = controllerId b) :
    VerifiedAs w c b := by
  obtain ⟨request, hv, he⟩ := h
  exact ⟨request, hv, he.trans hab⟩

/-- The handler that a request was made for. -/
theorem messageRequest_cases {q : Request} (h : messageRequest w c = some q) :
    ∃ message, ((w.client c).encrypted = false ∧
        (setupRequest w message = some q ∨ verifyRequest w c message = some q)) ∨
      (w.client c).encrypted = true ∧ pairingsRequest w c message = some q := by
  unfold messageRequest at h
  dsimp only at h
  split at h
  · simp at h
  · rename_i message _
    split at h
    · rename_i he _
      split at h
      · exact ⟨message, Or.inl ⟨he, Or.inl h⟩⟩
      · simp at h
    · rename_i he _
      split at h
      · exact ⟨message, Or.inl ⟨he, Or.inr h⟩⟩
      · simp at h
    · rename_i he _
      split at h
      · exact ⟨message, Or.inr ⟨he, h⟩⟩
      · simp at h
    · simp at h

/-- Only admin sessions make requests there, and only these two. -/
theorem pairingsRequest_some {message : List Tlv} {q : Request} (h : pairingsRequest w c message = some q) :
    isAdminSession w c = true ∧ ((∃ request, q = .add request) ∨ ∃ deviceId, q = .remove deviceId) := by
  unfold pairingsRequest at h
  split at h
  · rename_i ha
    refine ⟨ha, ?_⟩
    split at h
    · obtain ⟨request, _, rfl⟩ := Option.map_eq_some_iff.mp h
      exact Or.inl ⟨request, rfl⟩
    · split at h
      · obtain ⟨t, _, rfl⟩ := Option.map_eq_some_iff.mp h
        exact Or.inr ⟨_, rfl⟩
      · simp at h
  · simp at h

/-- What an M3 that passes for a request says. -/
theorem messageRequest_verify {context : PairVerifyContext} {request : SignedRequest} {pairing : Pairing}
    (h : messageRequest w c = some (.verify context request pairing)) :
    (w.client c).verifyContext = some context ∧ sessionKeysDerive P.crypto context = true ∧
      request.key = pairing.deviceKey ∧
      request.info = context.devicePublicKey ++ request.identifier ++ context.accessoryPublicKey ∧
      homekitStorageFindPairing P.crypto P.env.flash w.flash
        (CString.strndup request.identifier request.identifier.length) = some pairing := by
  obtain ⟨message, ⟨_, h | h⟩ | ⟨_, h⟩⟩ := messageRequest_cases h
  · obtain ⟨_, _, _, hq, _⟩ := setupRequest_some h
    simp at hq
  · obtain ⟨_, _, _, hq, hc, hm, hk⟩ := verifyRequest_some h
    obtain ⟨rfl, rfl, rfl⟩ := Request.verify.inj hq
    refine ⟨hc, hk, ?_⟩
    unfold pairVerifyM3Request at hm
    split at hm
    · simp at hm
    · split at hm
      · simp at hm
      · split at hm
        · simp at hm
        · simp only [Except.ok.injEq, Option.bind_eq_bind, Option.bind_eq_some_iff] at hm
          obtain ⟨deviceId, _, signature, _, found, hf, he⟩ := hm
          obtain ⟨rfl, rfl⟩ := Prod.mk.inj (Option.some.inj he)
          exact ⟨rfl, rfl, hf⟩
  · obtain ⟨_, ⟨_, hq⟩ | ⟨_, hq⟩⟩ := pairingsRequest_some h <;> simp at hq

/-- What an M5 that passes for a request says. -/
theorem messageRequest_store {k : ContextId} {s : Bytes} {request : SignedRequest}
    (h : messageRequest w c = some (.store k s request)) :
    w.pairingContext = some k ∧
      ∃ deviceX publicKey, cryptoSrpHkdf P.crypto (w.contexts k).srp saltControllerSign infoControllerSign = some deviceX ∧
        cryptoEd25519ImportPublicKey P.crypto publicKey = some request.key ∧
        request.info = deviceX ++ request.identifier ++ publicKey := by
  obtain ⟨message, ⟨_, h | h⟩ | ⟨_, h⟩⟩ := messageRequest_cases h
  · obtain ⟨_, _, _, hq, hk, _, hm⟩ := setupRequest_some h
    obtain ⟨rfl, rfl, rfl⟩ := Request.store.inj hq
    refine ⟨hk, ?_⟩
    unfold pairSetupM5Request at hm
    split at hm
    · simp at hm
    · split at hm
      · simp at hm
      · split at hm
        · simp at hm
        · simp only [Except.ok.injEq, Option.bind_eq_bind, Option.bind_eq_some_iff] at hm
          obtain ⟨deviceId, _, publicKey, _, signature, _, key, hkey, deviceX, hx, he⟩ := hm
          obtain rfl := Option.some.inj he
          exact ⟨deviceX, publicKey.value, hx, hkey, rfl⟩
  · obtain ⟨_, _, _, hq, _⟩ := verifyRequest_some h
    simp at hq
  · obtain ⟨_, ⟨_, hq⟩ | ⟨_, hq⟩⟩ := pairingsRequest_some h <;> simp at hq

theorem requested_message {q : Option Request} (hc : c < w.clientCount)
    (h : requested w (.event c .messageComplete) = q.map (fun r => (c, r))) :
    messageRequest (messageEntry w c) c = q := by
  simp only [requested, hc, if_true] at h
  cases hm : messageRequest (messageEntry w c) c <;> cases q <;> simp_all

theorem requested_event {a : Action P} {r : Request} (h : requested w a = some (c, r)) :
    a = .event c .messageComplete ∧ c < w.clientCount ∧ messageRequest (messageEntry w c) c = some r := by
  unfold requested at h
  split at h
  · rename_i d
    split at h
    · rename_i hd
      obtain ⟨q, hq, he⟩ := Option.map_eq_some_iff.mp h
      obtain ⟨rfl, rfl⟩ := Prod.mk.inj he
      exact ⟨rfl, hd, hq⟩
    · simp at h
  · simp at h

/-- The entries that open no session and remove no pairing. -/
def IsCalm : Event → Prop
  | .verified .. | .pairingRemoved .. => False
  | _ => True

/-- The sessions stay as they are, or close. -/
structure Steady (w w' : World P) : Prop where
  wellFormed : WellFormed w → WellFormed w'
  sessions : WellFormed w → ∀ d, Session w' d → Session w d ∧ SameSession (w.client d) (w'.client d)
  trace : Adds IsCalm w.trace w'.trace

theorem Steady.trans (h : Steady w w') (hh : Steady w' w'') : Steady w w'' where
  wellFormed hw := hh.wellFormed (h.wellFormed hw)
  sessions hw d hd := by
    obtain ⟨h1, s1⟩ := hh.sessions (h.wellFormed hw) d hd
    obtain ⟨h2, s2⟩ := h.sessions hw d h1
    exact ⟨h2, s1.pairingId.trans s2.pairingId, s1.permissions.trans s2.permissions,
      s1.disconnect.trans s2.disconnect⟩
  trace := h.trace.trans hh.trace

theorem IsIdle.isCalm {e : Event} (h : IsIdle e) : IsCalm e := by
  cases e <;> first | exact h.elim | trivial

theorem Idle.steady (h : Idle w w') : Steady w w' :=
  ⟨h.wellFormed, h.sessions, h.trace.mono (fun _ he => he.isCalm)⟩

theorem Quiet.steady (h : Quiet c w w') : Steady w w' := h.idle.steady

theorem Steady.flash (w : World P) (f : Flash) : Steady w { w with flash := f } :=
  ⟨fun hw => ⟨hw.nodup, hw.bound, hw.context, hw.saved⟩, fun _ _ h => ⟨h, SameSession.refl _⟩, Adds.refl _ _⟩

theorem Steady.log {e : Event} (he : IsCalm e) (w : World P) : Steady w (w.log e) :=
  ⟨fun hw => ⟨hw.nodup, hw.bound, hw.context, hw.saved⟩, fun _ _ h => ⟨h, SameSession.refl _⟩,
    Adds.single _ he⟩

theorem Steady.client {x : Client P} (he : x.encrypted = (w.client c).encrypted)
    (hs : SameSession (w.client c) x) : Steady w (w.setClient c x) where
  wellFormed hw := ⟨hw.nodup, hw.bound, hw.context, hw.saved⟩
  sessions _ d hd := by
    refine ⟨⟨hd.1, encrypted_setClient he d ▸ hd.2⟩, ?_⟩
    by_cases hdc : d = c
    · rw [hdc, setClient_self]
      exact hs
    · rw [setClient_of_ne hdc]
      exact SameSession.refl _
  trace := Adds.refl _ _

theorem Steady.openContext {k : ContextId} (hk : w.savedPreinitPairingContext = some k) :
    Steady w (openContext w c k) :=
  ⟨fun hw => ⟨hw.nodup, hw.bound, fun _ hj => Option.some.inj hj ▸ hw.saved k hk, hw.saved⟩,
    fun _ _ h => ⟨h, SameSession.refl _⟩, Adds.single _ (by trivial : IsCalm (.contextOpened k c))⟩

theorem Steady.paired (w : World P) (b : Bool) : Steady w { w with paired := b } :=
  ⟨fun hw => ⟨hw.nodup, hw.bound, hw.context, hw.saved⟩, fun _ _ h => ⟨h, SameSession.refl _⟩, Adds.refl _ _⟩

theorem Steady.verifiedAs (h : Steady w w') (d : ClientId) (deviceId : Bytes) :
    VerifiedAs w' d deviceId ↔ VerifiedAs w d deviceId :=
  exists_congr (fun request =>
    and_congr_left (fun _ => h.trace.mem_iff (id : ¬ IsCalm (.verified d request))))

theorem Steady.not_removed (h : Steady w w') {d : ClientId} {deviceId : Bytes} :
    .pairingRemoved d deviceId ∉ news w w' :=
  fun hmem => mem_news h.trace hmem

theorem Steady.unmarked (h : Steady w w') (hw : WellFormed w) {d : ClientId} (hd : Unmarked w' d) :
    Unmarked w d ∧ (w'.client d).pairingId = (w.client d).pairingId := by
  obtain ⟨hs, hx⟩ := h.sessions hw d hd.1
  exact ⟨⟨hs, hx.disconnect ▸ hd.2⟩, hx.pairingId⟩

theorem Passive.steady (h : Passive c w w') : Steady w w' ∧ w'.flash = w.flash := by
  cases h with
  | quiet h => exact ⟨h.steady, h.flash⟩
  | opened w₁ k h _ _ hk hh =>
    exact ⟨h.steady.trans ((Steady.openContext hk).trans hh.steady), hh.flash.trans h.flash⟩
  | proved w₁ w₂ k h _ hq hh =>
    have hlog : Steady w₁ (w₁.log (.srpVerified k c)) := Steady.log (e := .srpVerified k c) trivial w₁
    have hstep : Steady w₂ (w₂.setClient c { w₂.client c with step := .pairSetup2Of3 }) :=
      Steady.client rfl ⟨rfl, rfl, rfl⟩
    exact ⟨h.steady.trans (hlog.trans (hq.steady.trans (hstep.trans hh.steady))),
      hh.flash.trans (hq.flash.trans h.flash)⟩
  | started w₁ context h hh =>
    have hstep : Steady w₁ (w₁.setClient c
        { w₁.client c with verifyContext := some context, step := .pairVerify1Of2 }) :=
      Steady.client rfl ⟨rfl, rfl, rfl⟩
    have hcalm : IsCalm (.verifyStarted c context.devicePublicKey context.accessoryPublicKey) := trivial
    have hlog : Steady _ (startVerify w₁ c context) := Steady.log hcalm _
    exact ⟨h.steady.trans (hstep.trans (hlog.trans hh.steady)), hh.flash.trans h.flash⟩

theorem Stored.steady {k : ContextId} {s : Bytes} {request : SignedRequest}
    (h : Stored c k s request w w') :
    Steady w w' ∧ ∃ r, setupStore w request = .ok (r, w'.flash) := by
  have hstore : ∀ (v : World P) (f : Flash) (r : Int),
      Steady v ({ v with flash := f }.log (.addPairing k c request r)) :=
    fun v f r => (Steady.flash v f).trans (Steady.log (e := .addPairing k c request r) trivial _)
  cases h with
  | failed w₁ r f h hs _ hh =>
    have hf : w'.flash = f := hh.flash
    exact ⟨h.steady.trans ((hstore w₁ f r).trans hh.steady), r, hf ▸ hs⟩
  | finished w₁ w₂ f h hs _ hq _ hh =>
    have hf : w'.flash = f := hh.flash.trans hq.flash
    exact ⟨h.steady.trans ((hstore w₁ f 0).trans (hq.steady.trans ((Steady.paired w₂ true).trans hh.steady))),
      0, hf ▸ hs⟩

/-- What a step means for the sessions and the store. -/
inductive SessionStep (w : World P) : Option (ClientId × Request) → World P → Prop
  | steady {q : Option (ClientId × Request)} {w' : World P} (h : Steady w w')
      (hf : records P.env.flash w'.flash = records P.env.flash w.flash) : SessionStep w q w'
  | stored {w' : World P} (c : ClientId) (k : ContextId) (s : Bytes) (request : SignedRequest) (r : Int)
      (hv : cryptoEd25519Verify P.crypto request.key request.info request.signature = 0)
      (hs : setupStore (arrived w c) request = .ok (r, w'.flash)) (h : Steady w w') :
      SessionStep w (some (c, .store k s request)) w'
  | added {w' : World P} (c : ClientId) (request : AddPairingRequest) (r : Int)
      (hs : addPairingStore (arrived w c) request = .ok (r, w'.flash)) (h : Steady w w') :
      SessionStep w (some (c, .add request)) w'
  | opened {w' : World P} (c : ClientId) (context : PairVerifyContext) (request : SignedRequest)
      (pairing : Pairing) (he : (w.client c).encrypted = false)
      (hok : cryptoEd25519Verify P.crypto request.key request.info request.signature = 0)
      (hp : homekitStorageFindPairing P.crypto P.env.flash w.flash
        (CString.strndup request.identifier request.identifier.length) = some pairing)
      (hf : w'.flash = w.flash)
      (hs : ∀ d, Session w' d → (d ≠ c ∧ Session w d ∧ SameSession (w.client d) (w'.client d)) ∨
        (d = c ∧ (w'.client c).pairingId = pairing.id ∧ (w'.client c).permissions = pairing.permissions))
      (ht : Adds (fun e => IsCalm e ∨ e = .verified c request) w.trace w'.trace)
      (hv : .verified c request ∈ w'.trace) : SessionStep w (some (c, .verify context request pairing)) w'
  | removed {w' : World P} (c : ClientId) (deviceId : Bytes) (pairing : Pairing)
      (hp : homekitStorageFindPairing P.crypto P.env.flash w.flash deviceId = some pairing)
      (hf : records P.env.flash w'.flash = kill (records P.env.flash w.flash) pairing.id)
      (hs : ∀ d, Session w' d → Session w d ∧ (w'.client d).pairingId = (w.client d).pairingId ∧
        (w'.client d).permissions = (w.client d).permissions ∧
        (w'.client d).disconnect = ((w.client d).disconnect || decide ((w.client d).pairingId = pairing.id)))
      (ht : Adds (fun e => IsCalm e ∨ e = .pairingRemoved c deviceId) w.trace w'.trace) :
      SessionStep w (some (c, .remove deviceId)) w'

theorem Verified.sessionStep {context : PairVerifyContext} {request : SignedRequest} {pairing : Pairing}
    (hw : WellFormed w) (hc : c < w.clientCount)
    (hok : cryptoEd25519Verify P.crypto request.key request.info request.signature = 0)
    (hr : messageRequest (messageEntry w c) c =
      some (.verify context request pairing)) (he : ((arrived w c).client c).encrypted = false)
    (h : Verified c request pairing (arrived w c) w') :
    SessionStep w (some (c, .verify context request pairing)) w' := by
  obtain ⟨w₁, h₁, _, hh⟩ := h
  have hidle := arrived_idle w c
  have hbefore := hidle.trans h₁.idle
  have hw₁ := hbefore.wellFormed hw
  obtain ⟨_, _, _, _, hp⟩ := messageRequest_verify hr
  have hmem : ∀ d, d ∈ w'.clients → d ∈ (openSession w₁ c request pairing).clients :=
    fun d hd => (link_clients hh.link).subset hd
  refine .opened c context request pairing ?_ hok ?_ ?_ ?_ ?_ ?_
  · rw [← hidle.encrypted c hc]
    exact he
  · exact hp
  · exact hh.flash.trans hbefore.flash
  · intro d hd
    have hwo : WellFormed (openSession w₁ c request pairing) := ⟨hw₁.nodup, hw₁.bound, hw₁.context, hw₁.saved⟩
    obtain ⟨h2, s2⟩ := hh.idle.sessions hwo d hd
    by_cases hdc : d = c
    · subst hdc
      exact Or.inr ⟨rfl, s2.pairingId.trans (by rw [openSession_self]),
        s2.permissions.trans (by rw [openSession_self])⟩
    · rw [openSession_of_ne hdc] at s2
      obtain ⟨h1, s1⟩ := hbefore.sessions hw d ⟨h2.1, openSession_of_ne hdc ▸ h2.2⟩
      exact Or.inl ⟨hdc, h1, s2.pairingId.trans s1.pairingId, s2.permissions.trans s1.permissions,
        s2.disconnect.trans s1.disconnect⟩
  · have hlog : Adds (fun e => IsCalm e ∨ e = .verified c request) w₁.trace
        (openSession w₁ c request pairing).trace := Adds.single _ (Or.inr rfl)
    exact ((hbefore.trace.mono (fun _ he => Or.inl he.isCalm)).trans hlog).trans
      (hh.trace.mono (fun _ he => Or.inl he.isIdle.isCalm))
  · exact hh.trace.mem (by simp [openSession, World.log])

/-- A connection is verified once: what it was verified as is the request of that time. -/
theorem verifiedAs_opened {request : SignedRequest} {x : ClientId} {deviceId : Bytes} (hs : Sound w)
    (he : (w.client c).encrypted = false)
    (ht : Adds (fun e => IsCalm e ∨ e = .verified c request) w.trace w'.trace)
    (h : VerifiedAs w' x deviceId) :
    x ≠ c ∧ VerifiedAs w x deviceId ∨ x = c ∧ controllerId request.identifier = controllerId deviceId := by
  obtain ⟨q, hmem, hid⟩ := h
  by_cases hq : Event.verified x q = .verified c request
  · obtain ⟨rfl, rfl⟩ := Event.verified.inj hq
    exact Or.inr ⟨rfl, hid⟩
  · have hold := (ht.mem_iff (by simp [IsCalm] at hq ⊢; exact hq)).mp hmem
    refine Or.inl ⟨fun hxc => ?_, q, hold, hid⟩
    have := (hs.verified x q hold).2
    simp [hxc, he] at this

theorem Removed.sessionStep {deviceId : Bytes} (hw : WellFormed w)
    (h : Removed c deviceId (arrived w c) w') : SessionStep w (some (c, .remove deviceId)) w' := by
  have hidle := arrived_idle w c
  cases h with
  | absent _ h => exact .steady (hidle.steady.trans h.steady) (by rw [h.flash, hidle.flash])
  | refused w₁ r f h₁ hs hr hh =>
    refine .steady (hidle.steady.trans (h₁.steady.trans ((Steady.flash w₁ f).trans hh.steady))) ?_
    have hf : w'.flash = f := hh.flash
    rw [hidle.flash] at hs
    rcases homekitStorageRemovePairing_cases hs with ⟨h0, _, _⟩ | ⟨i, _, ⟨_, he⟩ | ⟨h0, _⟩⟩
    · exact absurd h0 hr
    · rw [hf, he]
    · exact absurd h0 hr
  | done w₁ f pairing h₁ hp hs hh =>
    have hrev := revoke_revokes w₁ c deviceId pairing f
    have hbefore := hidle.trans h₁.idle
    have hw₁ := hbefore.wellFormed hw
    rw [hidle.flash] at hp hs
    refine .removed c deviceId pairing hp ?_ ?_ ?_
    · have hf : w'.flash = f := hh.flash.trans hrev.flash
      rw [hf]
      rcases homekitStorageRemovePairing_cases hs with ⟨_, hn, _⟩ | ⟨i, hi, ⟨hr, _⟩ | ⟨_, he⟩⟩
      · have := (homekitStorageFindPairing_some hp).1
        simp [hn] at this
      · exact absurd rfl hr
      · rw [he, Option.some.inj (hi.symm.trans (homekitStorageFindPairing_some hp).1)]
    · intro d hd
      have hwr : WellFormed (revoke w₁ c deviceId pairing f) :=
        ⟨hrev.clients ▸ hw₁.nodup, by rw [hrev.clients, hrev.clientCount]; exact hw₁.bound,
          by rw [hrev.pairingContext, hrev.contextCount]; exact hw₁.context,
          by rw [hrev.saved, hrev.contextCount]; exact hw₁.saved⟩
      obtain ⟨h2, s2⟩ := hh.idle.sessions hwr d hd
      have hmem : d ∈ w₁.clients := hrev.clients ▸ h2.1
      obtain ⟨h1, s1⟩ := hbefore.sessions hw d ⟨hmem, hrev.encrypted d ▸ h2.2⟩
      have hcl := hrev.client d
      refine ⟨h1, ?_, ?_, ?_⟩
      · rw [s2.pairingId, hcl, ← s1.pairingId]
        split <;> rfl
      · rw [s2.permissions, hcl, ← s1.permissions]
        split <;> rfl
      · rw [s2.disconnect, hcl, ← s1.disconnect, ← s1.pairingId]
        by_cases hid : (w₁.client d).pairingId = pairing.id
        · simp [hmem, hid]
        · simp [hid]
    · have hlog : Adds (fun e => IsCalm e ∨ e = .pairingRemoved c deviceId) w₁.trace
          (revoke w₁ c deviceId pairing f).trace := hrev.trace ▸ Adds.single _ (Or.inr rfl)
      exact ((hbefore.trace.mono (fun _ he => Or.inl he.isCalm)).trans hlog).trans
        (hh.trace.mono (fun _ he => Or.inl he.isIdle.isCalm))

theorem step_sessionStep {a : Action P} (hw : WellFormed w) (h : step w a = .ok w') :
    SessionStep w (requested w a) w' := by
  rcases step_cases h with ⟨hr, hi⟩ | ⟨c, q, ha, hc, hr, he⟩
  · exact .steady hi.steady (by rw [hi.flash])
  · have hidle := arrived_idle w c
    have hq := requested_message hc (ha ▸ hr)
    rw [hr]
    match q, he with
    | none, he =>
      obtain ⟨hs, hf⟩ := Passive.steady he
      exact .steady (hidle.steady.trans hs) (by rw [hf, hidle.flash])
    | some (.store k s request), ⟨_, he⟩ =>
      split at he
      · exact .steady (hidle.steady.trans he.steady) (by rw [he.flash, hidle.flash])
      · rename_i hv
        obtain ⟨hs, r, hstore⟩ := he.steady
        exact .stored c k s request r (not_not.mp hv) hstore (hidle.steady.trans hs)
    | some (.verify context request pairing), ⟨hc', _, he⟩ =>
      split at he
      · exact .steady (hidle.steady.trans he.steady) (by rw [he.flash, hidle.flash])
      · rename_i hv
        exact he.sessionStep hw hc (not_not.mp hv) hq hc'
    | some (.add request), ⟨_, w₁, r, f, h₁, hs, hh⟩ =>
      have hf : w'.flash = f := hh.flash
      exact .added c request r (hf ▸ hs)
        (hidle.steady.trans (h₁.steady.trans ((Steady.flash w₁ f).trans hh.steady)))
    | some (.remove deviceId), ⟨_, he⟩ => exact he.sessionStep hw

end ArduinoHomeKit
