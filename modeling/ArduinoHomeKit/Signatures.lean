import ArduinoHomeKit.Sessions
import ArduinoHomeKit.Bench

/-! The signatures of M3 and M5. The wrapper of the verifier reports success for every
signature, so a run is right exactly if nobody sends an invalid one. -/

namespace ArduinoHomeKit

open Growth Runs

variable {P : Platform} {c d : ClientId} {w w' w'' : World P} {valid : Bytes32 → Bytes → Bytes → Prop}

def startedBy (c : ClientId) : Event → Option (Bytes × Bytes)
  | .verifyStarted d devicePublicKey accessoryPublicKey =>
    if d = c then some (devicePublicKey, accessoryPublicKey) else none
  | _ => none

/-- The public keys of the last pair-verify M1 of the connection. -/
def lastStarted (w : World P) (c : ClientId) : Option (Bytes × Bytes) :=
  (w.trace.filterMap (startedBy c)).getLast?

/-- A context that waits for M3 is the one of the last M1. -/
def Started (w : World P) : Prop :=
  ∀ c < w.clientCount, ∀ context, (w.client c).verifyContext = some context →
    lastStarted w c = some (context.devicePublicKey, context.accessoryPublicKey)

/-- The M3 is signed with the key stored for its identifier, over the keys of the last M1. -/
def VerifySigned (valid : Bytes32 → Bytes → Bytes → Prop) (w : World P) (c : ClientId)
    (request : SignedRequest) : Prop :=
  valid request.key.p request.info request.signature ∧
    (∃ pairing, homekitStorageFindPairing P.crypto P.env.flash w.flash
      (CString.strndup request.identifier request.identifier.length) = some pairing ∧
        request.key = pairing.deviceKey) ∧
    ∃ devicePublicKey accessoryPublicKey, lastStarted w c = some (devicePublicKey, accessoryPublicKey) ∧
      request.info = devicePublicKey ++ request.identifier ++ accessoryPublicKey

/-- The M5 is signed with the key it presents, over DeviceX, the identifier and that key. -/
def SetupSigned (valid : Bytes32 → Bytes → Bytes → Prop) (w : World P) (k : ContextId)
    (request : SignedRequest) : Prop :=
  valid request.key.p request.info request.signature ∧
    ∃ deviceX publicKey, cryptoSrpHkdf P.crypto (w.contexts k).srp saltControllerSign infoControllerSign = some deviceX ∧
      cryptoEd25519ImportPublicKey P.crypto publicKey = some request.key ∧
      request.info = deviceX ++ request.identifier ++ publicKey

/-- A session is opened by a signed M3 only, and a pairing stored by a signed M5 only. -/
structure Authenticated (valid : Bytes32 → Bytes → Bytes → Prop) (w : World P) (a : Action P) (w' : World P) :
    Prop where
  session : ∀ c < w.clientCount, (w.client c).encrypted = false → (w'.client c).encrypted = true →
    ∃ context request pairing, requested w a = some (c, .verify context request pairing) ∧
      VerifySigned valid w c request
  pairing : ∀ k c request, .addPairing k c request 0 ∈ news w w' →
    ∃ s, requested w a = some (c, .store k s request) ∧ SetupSigned valid w k request

/-- The signature that the message carries is valid. -/
def CarriesSignature (valid : Bytes32 → Bytes → Bytes → Prop) (w : World P) : Option (ClientId × Request) → Prop
  | some (_, .verify _ request _) => valid request.key.p request.info request.signature
  | some (c, .store _ _ request) =>
    (∃ f, setupStore (arrived w c) request = .ok (0, f)) → valid request.key.p request.info request.signature
  | _ => True

def IsUnstarted : Event → Prop
  | .verifyStarted .. => False
  | _ => True

/-- No session opens and no M1 is answered. -/
structure Unverified (w w' : World P) : Prop where
  clientCount : w.clientCount ≤ w'.clientCount
  encrypted : ∀ d < w.clientCount, (w'.client d).encrypted = (w.client d).encrypted
  verifyContext : ∀ d < w'.clientCount,
    d < w.clientCount ∧ (w'.client d).verifyContext = (w.client d).verifyContext ∨
      (w'.client d).verifyContext = none
  trace : Adds IsUnstarted w.trace w'.trace

theorem Unverified.trans (h : Unverified w w') (hh : Unverified w' w'') : Unverified w w'' where
  clientCount := Nat.le_trans h.clientCount hh.clientCount
  encrypted d hd := (hh.encrypted d (Nat.lt_of_lt_of_le hd h.clientCount)).trans (h.encrypted d hd)
  verifyContext d hd := by
    rcases hh.verifyContext d hd with ⟨hd', he⟩ | he
    · exact he ▸ h.verifyContext d hd'
    · exact Or.inr he
  trace := h.trace.trans hh.trace

theorem IsIdle.isUnstarted {e : Event} (h : IsIdle e) : IsUnstarted e := by
  cases e <;> first | exact h.elim | trivial

theorem Idle.unverified (h : Idle w w') : Unverified w w' where
  clientCount := h.clientCount
  encrypted := h.encrypted
  verifyContext d hd := by
    by_cases hdw : d < w.clientCount
    · exact (h.verifyContext d).imp (fun he => ⟨hdw, he⟩) id
    · exact Or.inr (h.accepted d hd (Nat.le_of_not_lt hdw))
  trace := h.trace.mono (fun _ he => he.isUnstarted)

theorem Quiet.unverified (h : Quiet c w w') : Unverified w w' := h.idle.unverified

theorem Unverified.of_eq (h1 : w'.clientCount = w.clientCount)
    (h2 : ∀ d, (w'.client d).encrypted = (w.client d).encrypted)
    (h3 : ∀ d, (w'.client d).verifyContext = (w.client d).verifyContext)
    (h4 : Adds IsUnstarted w.trace w'.trace) : Unverified w w' :=
  ⟨Nat.le_of_eq h1.symm, fun d _ => h2 d, fun d hd => Or.inl ⟨h1 ▸ hd, h3 d⟩, h4⟩

theorem lastStarted_of_adds (h : Adds IsUnstarted w.trace w'.trace) (c : ClientId) :
    lastStarted w' c = lastStarted w c := by
  obtain ⟨es, he, hp⟩ := h
  have hnone : es.filterMap (startedBy c) = [] := by
    rw [List.filterMap_eq_nil_iff]
    intro e hm
    have hu := hp e hm
    cases e <;> first | exact hu.elim | rfl
  rw [lastStarted, he, List.filterMap_append, hnone, List.append_nil, lastStarted]

theorem Unverified.started (h : Unverified w w') (hs : Started w) : Started w' := by
  intro d hd context hc
  rw [lastStarted_of_adds h.trace]
  rcases h.verifyContext d hd with ⟨hdw, he⟩ | he
  · exact hs d hdw context (he ▸ hc)
  · simp [he] at hc

theorem Started.newVerify {context : PairVerifyContext} (hs : Started w) : Started (startVerify w c context) := by
  intro d hdw context' hc
  by_cases hd : d = c
  · subst hd
    have hx : (startVerify w d context).client d =
        { w.client d with verifyContext := some context, step := .pairVerify1Of2 } := setClient_self ..
    rw [hx] at hc
    obtain rfl : context = context' := Option.some.inj hc
    simp [lastStarted, startVerify, World.log, World.setClient, startedBy]
  · have hx : (startVerify w c context).client d = w.client d := setClient_of_ne hd ..
    rw [hx] at hc
    have hne : ¬ c = d := fun he => hd he.symm
    simpa [lastStarted, startVerify, World.log, World.setClient, startedBy, hne] using hs d hdw context' hc

theorem Passive.started_ok (h : Passive c w w') (hs : Started w) :
    Started w' ∧ ∀ d < w.clientCount, (w'.client d).encrypted = (w.client d).encrypted := by
  cases h with
  | quiet h => exact ⟨h.unverified.started hs, h.unverified.encrypted⟩
  | opened w₁ k h _ _ _ hh =>
    have ho : Unverified w₁ (openContext w₁ c k) :=
      Unverified.of_eq rfl (fun _ => rfl) (fun _ => rfl) (Adds.single _ (by trivial : IsUnstarted (.contextOpened k c)))
    have hall := h.unverified.trans (ho.trans hh.unverified)
    exact ⟨hall.started hs, hall.encrypted⟩
  | proved w₁ w₂ k h _ hq hh =>
    have hl : Unverified w₁ (w₁.log (.srpVerified k c)) :=
      Unverified.of_eq rfl (fun _ => rfl) (fun _ => rfl) (Adds.single _ (by trivial : IsUnstarted (.srpVerified k c)))
    have hc : Unverified w₂ (w₂.setClient c { w₂.client c with step := .pairSetup2Of3 }) :=
      Unverified.of_eq rfl (encrypted_setClient rfl)
        (apply_setClient Client.verifyContext rfl) (Adds.refl _ _)
    have hall := h.unverified.trans (hl.trans (hq.unverified.trans (hc.trans hh.unverified)))
    exact ⟨hall.started hs, hall.encrypted⟩
  | started w₁ context h hh =>
    refine ⟨hh.unverified.started (h.unverified.started hs).newVerify, fun d hd => ?_⟩
    have hd' := Nat.lt_of_lt_of_le hd h.unverified.clientCount
    rw [hh.unverified.encrypted d hd', ← h.unverified.encrypted d hd]
    have hx : ∀ x : Client P, x.encrypted = (w₁.client c).encrypted →
        ((w₁.setClient c x).client d).encrypted = (w₁.client d).encrypted := fun x he => encrypted_setClient he d
    exact hx _ rfl

theorem Stored.unverified {k : ContextId} {s : Bytes} {request : SignedRequest} (h : Stored c k s request w w') :
    Unverified w w' := by
  have hadd : ∀ (v : World P) f r, Unverified v ({ v with flash := f }.log (.addPairing k c request r)) :=
    fun v f r => Unverified.of_eq rfl (fun _ => rfl) (fun _ => rfl)
      (Adds.single _ (by trivial : IsUnstarted (.addPairing k c request r)))
  cases h with
  | failed w₁ r f h _ _ hh => exact h.unverified.trans ((hadd w₁ f r).trans hh.unverified)
  | finished w₁ w₂ f h _ _ hq _ hh =>
    have hp : Unverified w₂ { w₂ with paired := true } :=
      Unverified.of_eq rfl (fun _ => rfl) (fun _ => rfl) (Adds.refl _ _)
    exact h.unverified.trans ((hadd w₁ f 0).trans (hq.unverified.trans (hp.trans hh.unverified)))

theorem Removed.unverified {deviceId : Bytes} (h : Removed c deviceId w w') : Unverified w w' := by
  cases h with
  | absent _ h => exact h.unverified
  | refused w₁ r f h _ _ hh =>
    have hf : Unverified w₁ { w₁ with flash := f } :=
      Unverified.of_eq rfl (fun _ => rfl) (fun _ => rfl) (Adds.refl _ _)
    exact h.unverified.trans (hf.trans hh.unverified)
  | done w₁ f pairing h _ _ hh =>
    have hr := revoke_revokes w₁ c deviceId pairing f
    have hv : ∀ d, ((revoke w₁ c deviceId pairing f).client d).verifyContext = (w₁.client d).verifyContext := by
      intro d
      rw [hr.client d]
      split <;> rfl
    have hu : Unverified w₁ (revoke w₁ c deviceId pairing f) :=
      Unverified.of_eq hr.clientCount hr.encrypted hv
        (hr.trace ▸ Adds.single _ (by trivial : IsUnstarted (.pairingRemoved c deviceId)))
    exact h.unverified.trans (hu.trans hh.unverified)

theorem Verified.unstarted {request : SignedRequest} {pairing : Pairing} (h : Verified c request pairing w w')
    (hs : Started w) : Started w' ∧ (w'.client c).encrypted = true ∧
      ∀ d < w.clientCount, d ≠ c → (w'.client d).encrypted = (w.client d).encrypted := by
  obtain ⟨w₁, h₁, _, hh⟩ := h
  have hv : Started (openSession w₁ c request pairing) := by
    intro d hd context hc
    rw [lastStarted_of_adds (Adds.single _ (by trivial : IsUnstarted (.verified c request)))]
    have hx := apply_setClient (w := w₁) Client.verifyContext (x := { w₁.client c with
      pairingId := pairing.id, permissions := pairing.permissions, encrypted := true, step := .pairVerify2Of2 }) rfl d
    exact h₁.unverified.started hs d hd context (hx ▸ hc)
  refine ⟨hh.unverified.started hv, ?_, fun d hd hne => ?_⟩
  · rw [hh.encrypted, openSession_self]
  · rw [hh.other d hne, openSession_of_ne hne, h₁.unverified.encrypted d hd]

/-- Only an accepted M3 opens a session. -/
theorem Effect.started {q : Option Request} (h : Effect c w w' q) (hs : Started w) :
    Started w' ∧ ∀ d < w.clientCount, (w'.client d).encrypted = (w.client d).encrypted ∨
      d = c ∧ ∃ context request pairing, q = some (.verify context request pairing) := by
  have hsame : Unverified w w' → Started w' ∧ ∀ d < w.clientCount, (w'.client d).encrypted = (w.client d).encrypted ∨
      d = c ∧ ∃ context request pairing, q = some (.verify context request pairing) :=
    fun h => ⟨h.started hs, fun d hd => Or.inl (h.encrypted d hd)⟩
  match q, h with
  | none, h =>
    obtain ⟨h1, h2⟩ := Passive.started_ok h hs
    exact ⟨h1, fun d hd => Or.inl (h2 d hd)⟩
  | some (.store k s request), ⟨_, h⟩ =>
    split at h
    · exact hsame h.unverified
    · exact hsame h.unverified
  | some (.verify context request pairing), ⟨_, _, h⟩ =>
    split at h
    · exact hsame h.unverified
    · obtain ⟨h1, _, h2⟩ := h.unstarted hs
      refine ⟨h1, fun d hd => ?_⟩
      by_cases hdc : d = c
      · exact Or.inr ⟨hdc, context, request, pairing, rfl⟩
      · exact Or.inl (h2 d hd hdc)
  | some (.add request), ⟨_, w₁, r, f, h₁, _, hh⟩ =>
    have hf : Unverified w₁ { w₁ with flash := f } :=
      Unverified.of_eq rfl (fun _ => rfl) (fun _ => rfl) (Adds.refl _ _)
    exact hsame (h₁.unverified.trans (hf.trans hh.unverified))
  | some (.remove deviceId), ⟨_, h⟩ => exact hsame h.unverified

theorem step_started {a : Action P} (hs : Started w) (h : step w a = .ok w') : Started w' := by
  rcases step_cases h with ⟨_, hi⟩ | ⟨c, q, _, _, _, he⟩
  · exact hi.unverified.started hs
  · exact (he.started ((arrived_idle w c).unverified.started hs)).1

theorem verifySigned_of_requested {a : Action P} {context : PairVerifyContext} {request : SignedRequest}
    {pairing : Pairing} (hs : Started w) (hr : requested w a = some (c, .verify context request pairing))
    (hv : valid request.key.p request.info request.signature) : VerifySigned valid w c request := by
  obtain ⟨_, hlt, hm⟩ := requested_event hr
  obtain ⟨hc, _, hkey, hinfo, hp⟩ := messageRequest_verify hm
  have hi := messageEntry_idle w c
  have hstart := hi.unverified.started hs c (Nat.lt_of_lt_of_le hlt hi.clientCount) context hc
  rw [lastStarted_of_adds hi.unverified.trace] at hstart
  exact ⟨hv, ⟨pairing, hi.flash ▸ hp, hkey⟩, _, _, hstart, hinfo⟩

theorem step_authenticated {a : Action P} (hv : VerifyMsgSpec P.crypto valid) (hs : Started w)
    (h : step w a = .ok w') : Authenticated valid w a w' ↔ CarriesSignature valid w (requested w a) := by
  have hok : ∀ request : SignedRequest,
      ¬ cryptoEd25519Verify P.crypto request.key request.info request.signature ≠ 0 :=
    fun request => not_not.mpr (cryptoEd25519Verify_eq_zero P.crypto hv _ _ _)
  constructor
  · intro ha
    rcases step_cases h with ⟨hr, _⟩ | ⟨c, q, _, hc, hr, he⟩
    · rw [hr]
      trivial
    · have hi := arrived_idle w c
      match q, he with
      | none, _ => rw [hr]; trivial
      | some (.add _), _ => rw [hr]; trivial
      | some (.remove _), _ => rw [hr]; trivial
      | some (.verify context request pairing), ⟨henc, _, he⟩ =>
        rw [if_neg (hok request)] at he
        have hopen := (he.unstarted (hi.unverified.started hs)).2.1
        obtain ⟨_, _, _, hr', hsigned⟩ := ha.session c hc ((hi.encrypted c hc).symm.trans henc) hopen
        obtain ⟨_, hq⟩ := Prod.mk.inj (Option.some.inj (hr'.symm.trans hr))
        obtain ⟨rfl, rfl, rfl⟩ := Request.verify.inj hq
        rw [hr]
        exact hsigned.1
      | some (.store k s request), ⟨_, he⟩ =>
        rw [if_neg (hok request)] at he
        rw [hr]
        rintro ⟨f, hf⟩
        obtain ⟨r, _, hstore, hmem⟩ := he.mem_news hi.trace
        obtain rfl : r = 0 := (Prod.mk.inj (Except.ok.inj (hstore.symm.trans hf))).1
        obtain ⟨_, _, hsigned⟩ := ha.pairing k c request ((hmem _ id).mpr rfl)
        exact hsigned.1
  · intro hc
    refine ⟨fun d hd henc hopen => ?_, fun k d request hm => ?_⟩
    · rcases step_cases h with ⟨_, hi⟩ | ⟨c, q, _, _, hr, he⟩
      · rw [hi.encrypted d hd, henc] at hopen
        simp at hopen
      · have hi := arrived_idle w c
        have hd' := Nat.lt_of_lt_of_le hd hi.clientCount
        rcases (he.started (hi.unverified.started hs)).2 d hd' with hsame | ⟨rfl, context, request, pairing, rfl⟩
        · rw [hsame, hi.encrypted d hd, henc] at hopen
          simp at hopen
        · rw [hr] at hc
          exact ⟨context, request, pairing, hr, verifySigned_of_requested hs hr hc⟩
    · obtain ⟨c, q, _, _, hr, he, hdec⟩ := step_news h hm id
      match q, he, hdec with
      | none, _, hdec => exact hdec.elim
      | some (.verify ..), _, hdec => simp [Decisive] at hdec
      | some (.add _), _, hdec => exact hdec.elim
      | some (.remove _), _, hdec => simp [Decisive] at hdec
      | some (.store j s request'), ⟨_, he⟩, hdec =>
        obtain ⟨r, hdec⟩ := hdec
        obtain ⟨rfl, rfl, rfl, rfl⟩ := Event.addPairing.inj hdec
        rw [hr] at hc
        obtain ⟨_, _, hmsg⟩ := requested_event hr
        rw [if_neg (hok request)] at he
        obtain ⟨r, f, hstore, hmem⟩ := he.mem_news (arrived_idle w d).trace
        obtain ⟨_, _, _, rfl⟩ := Event.addPairing.inj ((hmem _ id).mp hm)
        exact ⟨s, hr, hc ⟨f, hstore⟩, (messageRequest_store hmsg).2⟩

/-- From boot on, sessions and pairings rest on valid signatures exactly if every complete M3
and every M5 that is stored carries one. -/
theorem authenticated_run_iff (hv : VerifyMsgSpec P.crypto valid) (accessoryId : Bytes)
    (accessoryKey : Ed25519Key) (password : Option Bytes) (flash : Flash) (app : P.App)
    (clients : ClientId → Client P) (contexts : ContextId → PairingContext) (as : List (Action P)) :
    let s := serverBoot accessoryId accessoryKey password flash app clients contexts
    Always step (Authenticated valid) s as ↔
      Always step (fun w a _ => CarriesSignature valid w (requested w a)) s as :=
  Always.congr (I := Started) (fun _ _ _ hi h _ => step_started hi h)
    (fun _ _ _ hi h => step_authenticated hv hi h) as (fun _ h => absurd h (Nat.not_lt_zero _))

theorem signed_verify_checked :
    checks step (fun w a => match requested w a with
    | some (_, .verify _ request _) => benchValid request.key.p request.info request.signature
    | some (_, .store ..) => false
    | _ => true) (benchBoot [benchRecord 2 1]) (verifyAs 0 2) = true := by
  decide +kernel

/-- A controller with a valid signature opens a session. -/
theorem authenticated_run_iff_verify :
    Always step (Authenticated (fun key msg sig => benchValid key msg sig = true)) (benchBoot [benchRecord 2 1])
      (verifyAs 0 2) := by
  refine (authenticated_run_iff benchCrypto_verifies _ _ _ _ _ _ _ (verifyAs 0 2)).mpr ?_
  refine checks_spec (fun w a _ hp => ?_) signed_verify_checked
  unfold CarriesSignature
  split at hp
  · rename_i hr
    simpa only [hr] using hp
  · simp at hp
  · trivial

theorem unsigned_verify_run :
    ends step (benchBoot [benchRecord 2 1])
      (.accept benchClient :: (post 0 "/pair-verify" (verifyMessage1 2) ++
        (post 0 "/pair-verify" (verifyMessage3 2 (List.replicate 64 9))).dropLast)) (fun w =>
      (match step w (.event 0 .messageComplete) with
        | .ok w' => decide (0 < w.clientCount) && !(w.client 0).encrypted && (w'.client 0).encrypted
        | .error _ => false) &&
      match requested w (.event 0 .messageComplete) with
        | some (_, .verify _ request _) => !benchValid request.key.p request.info request.signature
        | _ => false) = true := by
  decide +kernel

/-- An M3 for controller 2 with a signature that nobody made opens a session. -/
theorem session_without_signature :
    ∃ w w', run step (benchBoot [benchRecord 2 1])
        (.accept benchClient :: (post 0 "/pair-verify" (verifyMessage1 2) ++
          (post 0 "/pair-verify" (verifyMessage3 2 (List.replicate 64 9))).dropLast)) = .ok w ∧
      step w (.event 0 .messageComplete) = .ok w' ∧
      ¬ Authenticated (fun key msg sig => benchValid key msg sig = true) w (.event 0 .messageComplete) w' := by
  obtain ⟨w, hw, hp⟩ := ends_spec unsigned_verify_run
  simp only [Bool.and_eq_true] at hp
  obtain ⟨hopen, hinvalid⟩ := hp
  cases h : step w (.event 0 .messageComplete) with
  | error e => simp [h] at hopen
  | ok w' =>
    simp only [h, Bool.and_eq_true, Bool.not_eq_true', decide_eq_true_eq] at hopen
    obtain ⟨⟨hc, hbefore⟩, hafter⟩ := hopen
    refine ⟨w, w', hw, h, fun ha => ?_⟩
    obtain ⟨context, request, pairing, hr, hvalid, _⟩ := ha.session 0 hc hbefore hafter
    simp [hr, hvalid] at hinvalid

end ArduinoHomeKit
