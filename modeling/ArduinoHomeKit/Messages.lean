import ArduinoHomeKit.Effects

/-! The effect of one complete message, whichever endpoint it was sent to. -/

namespace ArduinoHomeKit

open Growth

variable {P : Platform} {c : ClientId} {w w' w'' : World P}

def Endpoint.isProtected : Endpoint → Bool
  | .identify | .getAccessories | .getCharacteristics | .updateCharacteristics | .pairings | .resource => true
  | .unknown | .pairSetup | .pairVerify => false

/-- The world in which the handler of a message runs. -/
def entered (w : World P) (c : ClientId) (origins : List Origin) : World P :=
  if (w.client c).encrypted && (w.client c).endpoint.isProtected then
    w.log (.dispatched c (w.client c).endpoint origins)
  else w

/-- What a message with the given request does to the world. -/
def Effect (c : ClientId) (w w' : World P) : Option Request → Prop
  | none => Passive c w w'
  | some (.store k sharedSecret request) =>
    w.pairingContext = some k ∧
      if cryptoEd25519Verify P.crypto request.key request.info request.signature ≠ 0 then Quiet c w w'
      else Stored c k sharedSecret request w w'
  | some (.verify context request pairing) =>
    (w.client c).encrypted = false ∧ (w.client c).verifyContext = some context ∧
      if cryptoEd25519Verify P.crypto request.key request.info request.signature ≠ 0 then Quiet c w w'
      else Verified c request pairing w w'
  | some (.add request) => isAdminSession w c = true ∧ Added c request w w'
  | some (.remove deviceId) => isAdminSession w c = true ∧ Removed c deviceId w w'

theorem Stored.before {k : ContextId} {sharedSecret : Bytes} {request : SignedRequest}
    (h : Stored c k sharedSecret request w w') (hh : Quiet c w' w'') : Stored c k sharedSecret request w w'' := by
  cases h with
  | failed w₁ r f h hs hr hq => exact .failed w₁ r f h hs hr (hq.trans hh)
  | finished w₁ w₂ f h hs hm hq hn hp => exact .finished w₁ w₂ f h hs hm hq hn (hp.trans hh)

theorem Verified.before {request : SignedRequest} {pairing : Pairing}
    (h : Verified c request pairing w w') (hh : Quiet c w' w'') : Verified c request pairing w w'' := by
  obtain ⟨w₁, h, hv, hq⟩ := h
  exact .intro w₁ h hv (hq.trans hh)

theorem Added.before {request : AddPairingRequest} (h : Added c request w w') (hh : Quiet c w' w'') :
    Added c request w w'' := by
  obtain ⟨w₁, r, f, h, hs, hq⟩ := h
  exact .intro w₁ r f h hs (hq.trans hh)

theorem Removed.before {deviceId : Bytes} (h : Removed c deviceId w w') (hh : Quiet c w' w'') :
    Removed c deviceId w w'' := by
  cases h with
  | absent hm h => exact .absent hm (h.trans hh)
  | refused w₁ r f h hs hr hq => exact .refused w₁ r f h hs hr (hq.trans hh)
  | done w₁ f pairing h hp hs hq => exact .done w₁ f pairing h hp hs (hq.trans hh)

theorem Effect.before {q : Option Request} (h : Effect c w w' q) (hh : Quiet c w' w'') : Effect c w w'' q := by
  match q, h with
  | none, h => exact Passive.before h hh
  | some (.store k s request), ⟨hk, h⟩ =>
    refine ⟨hk, ?_⟩
    split
    · rename_i hv
      exact Quiet.trans (by rwa [if_pos hv] at h) hh
    · rename_i hv
      exact Stored.before (by rwa [if_neg hv] at h) hh
  | some (.verify context request pairing), ⟨he, hc, h⟩ =>
    refine ⟨he, hc, ?_⟩
    split
    · rename_i hv
      exact Quiet.trans (by rwa [if_pos hv] at h) hh
    · rename_i hv
      exact Verified.before (by rwa [if_neg hv] at h) hh
  | some (.add request), ⟨ha, h⟩ => exact ⟨ha, h.before hh⟩
  | some (.remove deviceId), ⟨ha, h⟩ => exact ⟨ha, h.before hh⟩

/-- Both handlers reset the step first. -/
def restarted (w : World P) (c : ClientId) : World P := w.setClient c { w.client c with step := .none }

theorem restarted_quiet (w : World P) (c : ClientId) : Quiet c w (restarted w c) := Quiet.step w c (by decide)

theorem Stored.restarted {k : ContextId} {sharedSecret : Bytes} {request : SignedRequest}
    (h : Stored c k sharedSecret request (restarted w c) w') : Stored c k sharedSecret request w w' := by
  have hq := restarted_quiet w c
  cases h with
  | failed w₁ r f h hs hr hh => exact .failed w₁ r f (hq.trans h) hs hr hh
  | finished w₁ w₂ f h hs hm hh hn hp => exact .finished w₁ w₂ f (hq.trans h) hs hm hh hn hp

theorem verifyRequest_restarted (w : World P) (c : ClientId) (message : List Tlv) :
    verifyRequest (restarted w c) c message = verifyRequest w c message := by
  have hv : ((restarted w c).client c).verifyContext = (w.client c).verifyContext := by simp [restarted]
  unfold verifyRequest
  rw [hv]
  rfl

theorem setupRequest_some {message : List Tlv} {q : Request} (h : setupRequest w message = some q) :
    ∃ k sharedSecret request, q = .store k sharedSecret request ∧ w.pairingContext = some k ∧
      cryptoSrpHkdf P.crypto (w.contexts k).srp saltEncrypt infoEncrypt = some sharedSecret ∧
      pairSetupM5Request w (w.contexts k).srp sharedSecret message = .ok (some request) := by
  unfold setupRequest at h
  split at h
  · simp at h
  · rename_i k hk
    split at h
    · simp at h
    · rename_i s hs
      split at h
      · rename_i request hq
        exact ⟨k, s, request, (Option.some.inj h).symm, hk, hs, hq⟩
      · simp at h

theorem homekitServerOnPairSetup_effect (he : (w.client c).encrypted = false)
    (hep : (w.client c).endpoint = .pairSetup)
    (h : homekitServerOnPairSetup w c (w.client c).body = .ok w') : Effect c w w' (messageRequest w c) := by
  have hq := restarted_quiet w c
  unfold homekitServerOnPairSetup at h
  dsimp only at h
  simp only [messageRequest, he, hep]
  split at h
  · simp at h
  · rename_i message hm
    have hm' : tlvParse (bufferOf ((w.client c).body ++ [0]) (behind w 0)) (w.client c).body.length = .ok message := hm
    rw [hm']
    dsimp only
    split at h
    · rename_i h1
      rw [if_neg (by rw [h1]; decide)]
      exact Except.ok.inj h ▸ (pairSetupM1_passive _ c).after hq
    · split at h
      · rename_i h3
        rw [if_neg (by rw [h3]; decide)]
        exact (pairSetupM3_passive h).after hq
      · split at h
        · rename_i h5
          rw [if_pos h5]
          cases hr : setupRequest w message with
          | none => exact .quiet (hq.trans (pairSetupM5_refused h hr))
          | some q =>
            obtain ⟨k, s, request, rfl, _⟩ := setupRequest_some hr
            obtain ⟨hk, hh⟩ := pairSetupM5_stored h hr
            refine ⟨hk, ?_⟩
            split
            · rename_i hv
              exact hq.trans (by rwa [if_pos hv] at hh)
            · rename_i hv
              exact Stored.restarted (by rwa [if_neg hv] at hh)
        · rename_i h5
          rw [if_neg h5]
          exact Except.ok.inj h ▸ .quiet hq

theorem homekitServerOnPairVerify_effect (he : (w.client c).encrypted = false)
    (hep : (w.client c).endpoint = .pairVerify)
    (h : homekitServerOnPairVerify w c (w.client c).body = .ok w') : Effect c w w' (messageRequest w c) := by
  have hq := restarted_quiet w c
  have he' : ((restarted w c).client c).encrypted = false := hq.encrypted.trans he
  unfold homekitServerOnPairVerify at h
  dsimp only at h
  simp only [messageRequest, he, hep]
  split at h
  · simp at h
  · rename_i message hm
    have hm' : tlvParse (bufferOf ((w.client c).body ++ [0]) (behind w 0)) (w.client c).body.length = .ok message := hm
    rw [hm']
    dsimp only
    split at h
    · rename_i h1
      rw [if_neg (by rw [h1]; decide)]
      exact Except.ok.inj h ▸ (pairVerifyM1_passive _ c message).after hq
    · split at h
      · rename_i h3
        rw [if_pos h3]
        cases hr : verifyRequest w c message with
        | none =>
          exact .quiet (hq.trans (pairVerifyM3_refused he' h ((verifyRequest_restarted w c message).trans hr)))
        | some q =>
          obtain ⟨context, request, pairing, rfl, hc, _⟩ := verifyRequest_some hr
          have hh := pairVerifyM3_verified he' h ((verifyRequest_restarted w c message).trans hr)
          refine ⟨he, hc, ?_⟩
          split
          · rename_i hv
            exact hq.trans (by rwa [if_pos hv] at hh)
          · rename_i hv
            rw [if_neg hv] at hh
            obtain ⟨w₁, h₁, hv₁, hh⟩ := hh
            exact .intro w₁ (hq.trans h₁) hv₁ hh
      · rename_i h3
        rw [if_neg h3]
        exact Except.ok.inj h ▸ .quiet hq

theorem homekitServerOnPairings_effect (he : (w.client c).encrypted = true)
    (hep : (w.client c).endpoint = .pairings)
    (h : homekitServerOnPairings w c (w.client c).body = .ok w') : Effect c w w' (messageRequest w c) := by
  have herr : ∀ (w : World P) e, Quiet c w (sendTlvErrorResponse w c 2 e) :=
    fun w e => (Quiet.refl c w).sendError _ _
  unfold homekitServerOnPairings at h
  simp only [messageRequest, he, hep]
  cases hm : tlvParse (bufferOf ((w.client c).body ++ [0]) (behind w 0)) (w.client c).body.length with
  | error e => simp [hm] at h
  | ok message =>
    simp only [hm] at h ⊢
    split at h
    · rename_i h1
      rw [if_neg h1]
      exact Except.ok.inj h ▸ .quiet (herr w _)
    · rename_i h1
      rw [if_pos (not_not.mp h1)]
      unfold pairingsRequest
      by_cases ha : isAdminSession w c = true
      · rw [if_pos ha]
        split at h
        · rename_i h3
          rw [if_pos h3]
          simp only [addPairing, ha, Bool.true_eq_false, if_false] at h
          cases hr : addPairingRequest P.crypto message with
          | none =>
            simp only [hr] at h
            exact Except.ok.inj h ▸ .quiet (herr w _)
          | some request =>
            simp only [hr] at h
            refine ⟨ha, ?_⟩
            split at h
            · rename_i pairing hp
              exact addPairingExisting_added hp h
            · rename_i hp
              exact addPairingNew_added hp h
        · rename_i h3
          rw [if_neg h3]
          split at h
          · rename_i h4
            rw [if_pos h4]
            cases ht : tlvGetValue message TLVType.identifier with
            | none =>
              simp only [removePairing, ha, Bool.true_eq_false, if_false, ht] at h
              exact Except.ok.inj h ▸ .quiet (herr w _)
            | some t => exact ⟨ha, Except.ok.inj h ▸ removePairing_removed ha ht rfl⟩
          · rename_i h4
            rw [if_neg h4]
            split at h
            · exact Except.ok.inj h ▸ .quiet (listPairings_quiet w c)
            · exact Except.ok.inj h ▸ .quiet (herr w _)
      · rw [if_neg ha]
        have ha' : isAdminSession w c = false := by simpa using ha
        split at h
        · simp only [addPairing, ha', if_true] at h
          exact Except.ok.inj h ▸ .quiet (herr w _)
        · split at h
          · simp only [removePairing, ha', if_true] at h
            exact Except.ok.inj h ▸ .quiet (herr w _)
          · split at h
            · exact Except.ok.inj h ▸ .quiet (listPairings_quiet w c)
            · exact Except.ok.inj h ▸ .quiet (herr w _)

theorem messageRequest_none (hs : (w.client c).encrypted = false) (h1 : (w.client c).endpoint ≠ .pairSetup)
    (h2 : (w.client c).endpoint ≠ .pairVerify) : messageRequest w c = none := by
  unfold messageRequest
  dsimp only
  split
  · rfl
  · rw [hs]
    cases he : (w.client c).endpoint <;> simp_all

theorem messageRequest_encrypted (hs : (w.client c).encrypted = true)
    (h : (w.client c).endpoint ≠ .pairings) : messageRequest w c = none := by
  unfold messageRequest
  dsimp only
  split
  · rfl
  · rw [hs]
    cases he : (w.client c).endpoint <;> simp_all

theorem handleMessage_effect {origins : List Origin} (h : handleMessage w c origins = .ok w') :
    Effect c (entered w c origins) w' (messageRequest w c) := by
  unfold handleMessage at h
  by_cases he : (w.client c).encrypted = false
  · have hen : entered w c origins = w := by simp [entered, he]
    rw [if_pos he] at h
    rw [hen]
    split at h
    · rename_i hep
      exact homekitServerOnPairSetup_effect he hep h
    · rename_i hep
      exact homekitServerOnPairVerify_effect he hep h
    · rename_i h1 h2
      rw [messageRequest_none he h1 h2]
      exact Except.ok.inj h ▸ .quiet (send404Response_sends w c).quiet
  · rw [if_neg he] at h
    have he : (w.client c).encrypted = true := by simpa using he
    unfold dispatch at h
    dsimp only at h
    have hserve : ∀ ep, (w.client c).endpoint = ep → ep.isProtected = true → ep ≠ .pairings →
        (.ok (serve (w.log (.dispatched c ep origins)) c ep) : Except Fault (World P)) = .ok w' →
        Effect c (entered w c origins) w' (messageRequest w c) := by
      intro ep hep hp hne hw
      rw [messageRequest_encrypted he (hep ▸ hne)]
      have hen : entered w c origins = w.log (.dispatched c ep origins) := by
        simp [entered, he, hep, hp]
      rw [hen]
      exact Except.ok.inj hw ▸ .quiet (serve_quiet _ c ep)
    cases hep : (w.client c).endpoint with
    | identify => exact hserve _ hep rfl (by decide) (by simpa only [hep] using h)
    | getAccessories => exact hserve _ hep rfl (by decide) (by simpa only [hep] using h)
    | getCharacteristics => exact hserve _ hep rfl (by decide) (by simpa only [hep] using h)
    | updateCharacteristics => exact hserve _ hep rfl (by decide) (by simpa only [hep] using h)
    | resource => exact hserve _ hep rfl (by decide) (by simpa only [hep] using h)
    | pairings =>
      simp only [hep] at h
      have hen : entered w c origins = w.log (.dispatched c .pairings origins) := by
        simp [entered, he, hep, Endpoint.isProtected]
      rw [hen]
      have hs : ((w.log (.dispatched c .pairings origins)).client c).encrypted = true := he
      exact homekitServerOnPairings_effect hs hep h
    | unknown | pairSetup | pairVerify =>
      have hen : entered w c origins = w := by simp [entered, hep, Endpoint.isProtected]
      rw [hen, messageRequest_encrypted he (by simp [hep])]
      simp only [hep] at h
      exact Except.ok.inj h ▸ .quiet (send404Response_sends w c).quiet

theorem homekitServerOnMessageComplete_effect (h : homekitServerOnMessageComplete w c = .ok w') :
    Effect c (entered (messageEntry w c) c ((w.client c).pending.getD [])) w'
      (messageRequest (messageEntry w c) c) := by
  unfold homekitServerOnMessageComplete at h
  cases hh : handleMessage (messageEntry w c) c ((w.client c).pending.getD []) with
  | error e => simp [hh, Except.map] at h
  | ok w₁ =>
    simp only [hh, Except.map, Except.ok.injEq] at h
    exact h ▸ (handleMessage_effect hh).before (messageEnd_quiet w₁ c)

end ArduinoHomeKit
