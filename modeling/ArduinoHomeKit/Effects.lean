import ArduinoHomeKit.StoreOperations
import ArduinoHomeKit.Quiet
import ArduinoHomeKit.Requests

/-! What each handler does, as a few decisive updates with quiet work around them. -/

namespace ArduinoHomeKit

open Growth

variable {P : Platform} {c : ClientId} {w w' w'' : World P}

/-- The pairing context `k` becomes the one of the connection. -/
def openContext (w : World P) (c : ClientId) (k : ContextId) : World P :=
  { w.setContext k { w.contexts k with client := some c } with pairingContext := some k }.log
    (.contextOpened k c)

def openSession (w : World P) (c : ClientId) (request : SignedRequest) (pairing : Pairing) : World P :=
  (w.setClient c
    { w.client c with
      pairingId := pairing.id
      permissions := pairing.permissions
      encrypted := true
      step := .pairVerify2Of2 }).log (.verified c request)

def startVerify (w : World P) (c : ClientId) (context : PairVerifyContext) : World P :=
  (w.setClient c { w.client c with verifyContext := some context, step := .pairVerify1Of2 }).log
    (.verifyStarted c context.devicePublicKey context.accessoryPublicKey)

def revoke (w : World P) (c : ClientId) (deviceId : Bytes) (pairing : Pairing) (f : Flash) : World P :=
  let w := markDisconnected ({ w with flash := f }.log (.pairingRemoved c deviceId)) pairing.id
  if isAdmin pairing.permissions && !homekitIsPaired P.crypto P.env.flash w.flash then
    { w with paired := false }
  else w

/-- Messages that reach neither the store nor the sessions. -/
inductive Passive (c : ClientId) (w w' : World P) : Prop
  | quiet (h : Quiet c w w')
  | opened (w₁ : World P) (k : ContextId) (h : Quiet c w w₁) (hp : w₁.paired = false)
      (hn : w₁.pairingContext = none) (hk : w₁.savedPreinitPairingContext = some k)
      (hh : Quiet c (openContext w₁ c k) w')
  | proved (w₁ w₂ : World P) (k : ContextId) (h : Quiet c w w₁) (hk : w₁.pairingContext = some k)
      (hq : Quiet c (w₁.log (.srpVerified k c)) w₂)
      (hh : Quiet c (w₂.setClient c { w₂.client c with step := .pairSetup2Of3 }) w')
  | started (w₁ : World P) (context : PairVerifyContext) (h : Quiet c w w₁)
      (hh : Quiet c (startVerify w₁ c context) w')

/-- An M5 whose signature was accepted. -/
inductive Stored (c : ClientId) (k : ContextId) (sharedSecret : Bytes) (request : SignedRequest)
    (w w' : World P) : Prop
  | failed (w₁ : World P) (r : Int) (f : Flash) (h : Quiet c w w₁) (hs : setupStore w request = .ok (r, f))
      (hr : r ≠ 0 ∨ ∃ e, pairSetupM6 w (w.contexts k).srp sharedSecret = .error e)
      (hh : Quiet c ({ w₁ with flash := f }.log (.addPairing k c request r)) w')
  | finished (w₁ w₂ : World P) (f : Flash) (h : Quiet c w w₁) (hs : setupStore w request = .ok (0, f))
      (hm : ∀ e, pairSetupM6 w (w.contexts k).srp sharedSecret ≠ .error e)
      (hq : Quiet c ({ w₁ with flash := f }.log (.addPairing k c request 0)) w₂)
      (hn : w₂.pairingContext = none) (hh : Quiet c { w₂ with paired := true } w')

inductive Verified (c : ClientId) (request : SignedRequest) (pairing : Pairing) (w w' : World P) : Prop
  | intro (w₁ : World P) (h : Quiet c w w₁) (hv : (w₁.client c).verifyContext = none)
      (hh : Quiet c (openSession w₁ c request pairing) w')

inductive Added (c : ClientId) (request : AddPairingRequest) (w w' : World P) : Prop
  | intro (w₁ : World P) (r : Int) (f : Flash) (h : Quiet c w w₁)
      (hs : addPairingStore w request = .ok (r, f)) (hh : Quiet c { w₁ with flash := f } w')

inductive Removed (c : ClientId) (deviceId : Bytes) (w w' : World P) : Prop
  | absent (hm : matchSlot P.env.flash w.flash deviceId = none) (h : Quiet c w w')
  | refused (w₁ : World P) (r : Int) (f : Flash) (h : Quiet c w w₁)
      (hs : homekitStorageRemovePairing P.env.flash w.flash deviceId = (r, f)) (hr : r ≠ 0)
      (hh : Quiet c { w₁ with flash := f } w')
  | done (w₁ : World P) (f : Flash) (pairing : Pairing) (h : Quiet c w w₁)
      (hp : homekitStorageFindPairing P.crypto P.env.flash w.flash deviceId = some pairing)
      (hs : homekitStorageRemovePairing P.env.flash w.flash deviceId = (0, f))
      (hh : Quiet c (revoke w₁ c deviceId pairing f) w')

theorem Passive.after (h : Quiet c w w') (hh : Passive c w' w'') : Passive c w w'' := by
  cases hh with
  | quiet hq => exact .quiet (h.trans hq)
  | opened w₁ k hq hp hn hk hh => exact .opened w₁ k (h.trans hq) hp hn hk hh
  | proved w₁ w₂ k h1 hk hq hh => exact .proved w₁ w₂ k (h.trans h1) hk hq hh
  | started w₁ context hq hh => exact .started w₁ context (h.trans hq) hh

theorem Passive.before (h : Passive c w w') (hh : Quiet c w' w'') : Passive c w w'' := by
  cases h with
  | quiet hq => exact .quiet (hq.trans hh)
  | opened w₁ k hq hp hn hk h => exact .opened w₁ k hq hp hn hk (h.trans hh)
  | proved w₁ w₂ k h1 hk hq h => exact .proved w₁ w₂ k h1 hk hq (h.trans hh)
  | started w₁ context hq h => exact .started w₁ context hq (h.trans hh)

theorem pairSetupM2_quiet (w : World P) (c : ClientId) (k : ContextId) : Quiet c w (pairSetupM2 w c k) := by
  unfold pairSetupM2
  rw [cryptoSrpGetSalt_sized]
  exact ((Quiet.refl c w).respond _).trans (Quiet.step _ c (by decide))

theorem pairSetupM1_passive (w : World P) (c : ClientId) : Passive c w (pairSetupM1 w c) := by
  unfold pairSetupM1
  split
  · exact .quiet ((Quiet.refl c w).sendError _ _)
  · rename_i hp
    split
    · split
      · exact .quiet ((Quiet.refl c w).sendError _ _)
      · exact .quiet (pairSetupM2_quiet w c _)
    · rename_i hn
      have hq := arduinoHomekitPreinit_quiet w c
      split
      · rename_i w₁ hw
        rw [hw] at hq
        exact .quiet (hq.sendError _ _)
      · rename_i w₁ hw
        rw [hw] at hq
        split
        · exact .quiet (hq.sendError _ _)
        · rename_i k hk
          have hn₁ : w₁.pairingContext = none := by
            rcases hq.context with he | he
            · rw [he, hn]
            · exact he
          exact .opened w₁ k hq (hq.paired.trans (by simpa using hp)) hn₁ hk
            (pairSetupM2_quiet (openContext w₁ c k) c k)

theorem pairSetupM3_passive {message : List Tlv} (h : pairSetupM3 w c message = .ok w') :
    Passive c w w' := by
  have hctx : ∀ (w : World P) (k : ContextId) (srp : Srp) (key : Bytes),
      Quiet c w (w.setContext k { w.contexts k with srp := srp, publicKey := key }) :=
    fun w k _ _ => Quiet.context_set w c rfl
  unfold pairSetupM3 at h
  split at h
  · exact Except.ok.inj h ▸ .quiet ((Quiet.refl c w).sendError _ _)
  · split at h
    · exact Except.ok.inj h ▸ .quiet ((Quiet.refl c w).sendError _ _)
    · split at h
      · simp at h
      · rename_i k hk
        split at h
        · exact Except.ok.inj h ▸ .quiet ((hctx w k _ _).sendError _ _)
        · split at h
          · exact Except.ok.inj h ▸ .quiet ((hctx w k _ _).sendError _ _)
          · dsimp only at h
            obtain rfl := Except.ok.inj h
            exact .proved _ _ k (hctx w k _ []) hk ((Quiet.refl c _).respond _) (Quiet.refl c _)

theorem pairVerifyM1_passive (w : World P) (c : ClientId) (message : List Tlv) :
    Passive c w (pairVerifyM1 w c message) := by
  unfold pairVerifyM1
  split
  · exact .quiet ((Quiet.refl c w).sendError _ _)
  · exact .started _ _ ((Quiet.refl c w).respond _) (Quiet.refl c _)

theorem pairSetupM5Finish_ok {response : List Tlv} (h : pairSetupM5Finish w c response = .ok w') :
    ∃ w₂, Quiet c w w₂ ∧ w₂.pairingContext = none ∧ Quiet c { w₂ with paired := true } w' := by
  unfold pairSetupM5Finish at h
  dsimp only at h
  split at h
  · simp at h
  · rename_i k hk
    obtain rfl := Except.ok.inj h
    exact ⟨_, ((Quiet.refl c w).respond response).trans (Quiet.free _ c hk), rfl,
      Quiet.step { pairingContextFree (sendTlvResponse w c response) k with
        pairingContext := none, paired := true } c (by decide)⟩

theorem pairSetupM5Store_stored {k : ContextId} {sharedSecret : Bytes} {request : SignedRequest}
    (h : pairSetupM5Store w c k (w.contexts k).srp sharedSecret request = .ok w') :
    Stored c k sharedSecret request w w' := by
  unfold pairSetupM5Store at h
  cases hs : setupStore w request with
  | error e => simp [hs] at h
  | ok p =>
    obtain ⟨r, f⟩ := p
    simp only [hs] at h
    by_cases hr : r = 0
    · subst hr
      simp only [ne_eq, not_true_eq_false, if_false] at h
      cases he : pairSetupM6 w (w.contexts k).srp sharedSecret with
      | error e =>
        have he' : pairSetupM6 ({ w with flash := f }.log (.addPairing k c request 0))
            (w.contexts k).srp sharedSecret = .error e := he
        rw [he'] at h
        exact Except.ok.inj h ▸ .failed w 0 f (Quiet.refl c w) hs (Or.inr ⟨e, he⟩)
          ((Quiet.refl c _).sendError _ _)
      | ok response =>
        have he' : pairSetupM6 ({ w with flash := f }.log (.addPairing k c request 0))
            (w.contexts k).srp sharedSecret = .ok response := he
        rw [he'] at h
        obtain ⟨w₂, hq, hn, hh⟩ := pairSetupM5Finish_ok h
        exact .finished w w₂ f (Quiet.refl c w) hs (fun e => by simp [he]) hq hn hh
    · simp only [ne_eq, hr, not_false_eq_true, if_true] at h
      exact Except.ok.inj h ▸ .failed w r f (Quiet.refl c w) hs (Or.inl hr)
        ((Quiet.refl c _).sendError _ _)

theorem pairSetupM5_stored {k : ContextId} {sharedSecret : Bytes} {request : SignedRequest}
    {message : List Tlv} (h : pairSetupM5 w c message = .ok w')
    (hr : setupRequest w message = some (.store k sharedSecret request)) :
    w.pairingContext = some k ∧
      if cryptoEd25519Verify P.crypto request.key request.info request.signature ≠ 0 then Quiet c w w'
      else Stored c k sharedSecret request w w' := by
  unfold setupRequest at hr
  unfold pairSetupM5 at h
  split at hr
  · simp at hr
  · rename_i k' hk
    simp only [hk] at h
    split at hr
    · simp at hr
    · rename_i s hs
      simp only [hs] at h
      split at hr
      · rename_i q hq
        simp only [Option.some.injEq, Request.store.injEq] at hr
        obtain ⟨rfl, rfl, rfl⟩ := hr
        refine ⟨hk, ?_⟩
        simp only [hq] at h
        split
        · rename_i hv
          rw [if_pos hv] at h
          exact Except.ok.inj h ▸ (Quiet.refl c w).sendError _ _
        · rename_i hv
          rw [if_neg hv] at h
          exact pairSetupM5Store_stored h
      · simp at hr

/-- Everything short of a complete M5 is answered with an error. -/
theorem pairSetupM5_refused {message : List Tlv} (h : pairSetupM5 w c message = .ok w')
    (hr : setupRequest w message = none) : Quiet c w w' := by
  unfold setupRequest at hr
  unfold pairSetupM5 at h
  split at h
  · simp at h
  · rename_i k hk
    simp only [hk] at hr
    dsimp only at h
    split at h
    · exact Except.ok.inj h ▸ (Quiet.refl c w).sendError _ _
    · rename_i s hs
      simp only [hs] at hr
      split at h
      · simp at h
      · exact Except.ok.inj h ▸ (Quiet.refl c w).sendError _ _
      · rename_i q hq
        simp [hq] at hr

theorem freeVerifyContext_error (w : World P) (c : ClientId) (e : TLVError) :
    Quiet c w (sendTlvErrorResponse (freeVerifyContext w c) c 4 e) :=
  (freeVerifyContext_quiet w c).sendError _ _

/-- The session opens exactly when both of its keys derive. -/
theorem pairVerifyM4_effect (context : PairVerifyContext) (request : SignedRequest) (pairing : Pairing)
    (he : (w.client c).encrypted = false) :
    let w' := pairVerifyM4 w c context request pairing
    if sessionKeysDerive P.crypto context then Verified c request pairing w w' else Quiet c w w' := by
  have hkeys : ∀ (w : World P) (r s : Bytes), (w.client c).encrypted = false →
      Quiet c w (w.setClient c { w.client c with readKey := r, writeKey := s }) :=
    fun w r s h => Quiet.client rfl rfl rfl (fun h' => by simp [h] at h') id (Or.inl rfl)
  dsimp only
  unfold pairVerifyM4
  cases hr : cryptoHkdf P.crypto context.secret (ascii "Control-Salt")
      (ascii "Control-Read-Encryption-Key") with
  | none =>
    rw [if_neg (by simp [sessionKeysDerive, hr])]
    exact freeVerifyContext_error w c _
  | some readKey =>
    have h1 := hkeys w readKey (w.client c).writeKey he
    have he1 := h1.encrypted.trans he
    dsimp only at h1 ⊢
    cases hw : cryptoHkdf P.crypto context.secret (ascii "Control-Salt")
        (ascii "Control-Write-Encryption-Key") with
    | none =>
      rw [if_neg (by simp [sessionKeysDerive, hw])]
      exact h1.trans (freeVerifyContext_error _ c _)
    | some writeKey =>
      rw [if_pos (by simp [sessionKeysDerive, hr, hw])]
      have h2 := h1.trans (hkeys _ readKey writeKey he1)
      have h3 := (sendTlvResponse_sends
        (freeVerifyContext ((w.setClient c { w.client c with readKey := readKey }).setClient c
          { (w.setClient c { w.client c with readKey := readKey }).client c with writeKey := writeKey }) c) c
        [tlvAddIntegerValue TLVType.state 1 4])
      refine .intro _ ?_ ?_ (Quiet.refl c _)
      · refine Quiet.respond ?_ _
        refine Quiet.trans ?_ (freeVerifyContext_quiet _ c)
        simpa using h2
      · have hv := congrArg Client.verifyContext h3.core
        exact hv.trans (by simp [freeVerifyContext, Client.core, World.log])

theorem verifyRequest_some {message : List Tlv} {q : Request} (h : verifyRequest w c message = some q) :
    ∃ context request pairing, q = .verify context request pairing ∧
      (w.client c).verifyContext = some context ∧
      pairVerifyM3Request w context message = .ok (some (request, pairing)) ∧
      sessionKeysDerive P.crypto context = true := by
  unfold verifyRequest at h
  split at h
  · simp at h
  · rename_i context hc
    split at h
    · rename_i request pairing hq
      simp only [Option.ite_none_right_eq_some, Option.some.injEq] at h
      exact ⟨context, request, pairing, h.2.symm, hc, hq, h.1⟩
    · simp at h

theorem pairVerifyM3_verified {context : PairVerifyContext} {request : SignedRequest} {pairing : Pairing}
    {message : List Tlv} (he : (w.client c).encrypted = false) (h : pairVerifyM3 w c message = .ok w')
    (hr : verifyRequest w c message = some (.verify context request pairing)) :
    if cryptoEd25519Verify P.crypto request.key request.info request.signature ≠ 0 then Quiet c w w'
    else Verified c request pairing w w' := by
  obtain ⟨_, _, _, hq, hc, hm, hk⟩ := verifyRequest_some hr
  obtain ⟨rfl, rfl, rfl⟩ := Request.verify.inj hq
  simp only [pairVerifyM3, hc, hm] at h
  split
  · rename_i hv
    rw [if_pos hv] at h
    exact Except.ok.inj h ▸ freeVerifyContext_error w c _
  · rename_i hv
    rw [if_neg hv] at h
    have hh := pairVerifyM4_effect context request pairing he
    rw [if_pos hk] at hh
    exact Except.ok.inj h ▸ hh

theorem pairVerifyM3_refused {message : List Tlv} (he : (w.client c).encrypted = false)
    (h : pairVerifyM3 w c message = .ok w') (hr : verifyRequest w c message = none) : Quiet c w w' := by
  unfold pairVerifyM3 at h
  split at h
  · exact Except.ok.inj h ▸ (Quiet.refl c w).sendError _ _
  · rename_i context hc
    split at h
    · simp at h
    · exact Except.ok.inj h ▸ freeVerifyContext_error w c _
    · rename_i request pairing hm
      have hk : sessionKeysDerive P.crypto context = false := by simpa [verifyRequest, hc, hm] using hr
      split at h
      · exact Except.ok.inj h ▸ freeVerifyContext_error w c _
      · have hh := pairVerifyM4_effect context request pairing he
        rw [hk] at hh
        exact Except.ok.inj h ▸ hh

theorem addPairingUpdate_ok {identifier : Bytes} {permissions : Int}
    (h : addPairingUpdate w c identifier permissions = .ok w') :
    ∃ r f, homekitStorageUpdatePairing P.env.flash w.flash identifier (permissionByte permissions) = .ok (r, f) ∧
      Quiet c { w with flash := f } w' := by
  have hfreed : ∀ w : World P, Quiet c w (w.log (.freed c .deviceIdentifier)) :=
    fun w => Quiet.log (e := .freed c .deviceIdentifier) rfl w
  unfold addPairingUpdate at h
  split at h
  · simp at h
  · rename_i r f hs
    refine ⟨r, f, hs, ?_⟩
    dsimp only at h
    split at h
    · exact Except.ok.inj h ▸ (hfreed _).sendError _ _
    · exact Except.ok.inj h ▸ (hfreed _).respond _

theorem addPairingExisting_added {request : AddPairingRequest} {pairing : Pairing}
    (hp : homekitStorageFindPairing P.crypto P.env.flash w.flash
      (CString.strndup request.identifier request.identifier.length) = some pairing)
    (h : addPairingExisting w c request pairing = .ok w') : Added c request w w' := by
  have hkey : ∀ w : World P, Quiet c w (w.log (.freed c .pairingPublicKey)) :=
    fun w => Quiet.log (e := .freed c .pairingPublicKey) rfl w
  have hid : ∀ w : World P, Quiet c w (w.log (.freed c .deviceIdentifier)) :=
    fun w => Quiet.log (e := .freed c .deviceIdentifier) rfl w
  have hq : ∀ w₁, Quiet c w w₁ →
      addPairingUpdate w₁ c (updatedIdentifier w request pairing) request.permissions = .ok w' →
      Added c request w w' := by
    intro w₁ h₁ hu
    obtain ⟨r, f, hs, hh⟩ := addPairingUpdate_ok hu
    refine .intro w₁ r f h₁ ?_ hh
    rw [addPairingStore, hp, ← h₁.flash]
    exact hs
  unfold addPairingExisting at h
  by_cases hx : cryptoEd25519ExportPublicKey pairing.deviceKey = some request.publicKey
  · simp only [hx, reduceCtorEq, if_false, ne_eq, not_true_eq_false] at h
    exact hq _ (hkey w) (by simpa only [updatedIdentifier, hx, ne_eq, not_true_eq_false, if_false] using h)
  · have hsome : cryptoEd25519ExportPublicKey pairing.deviceKey ≠ none := by
      simp [cryptoEd25519ExportPublicKey]
    simp only [hsome, if_false, ne_eq, hx, not_false_eq_true, if_true] at h
    have hfail := (((hkey w).trans (hid _)).sendError 2 .unknown).trans (hkey _)
    refine hq _ hfail ?_
    simpa only [updatedIdentifier, ne_eq, hx, not_false_eq_true, if_true] using h

theorem findEmptyBlock_full {chip : FlashChip} {f : Flash}
    (h : homekitStorageCanAddPairing chip f = false) : findEmptyBlock chip f = none := by
  cases hb : findEmptyBlock chip f with
  | none => rfl
  | some n =>
    obtain ⟨hn, hblank⟩ := findEmptyBlock_some hb
    have hdead := records_blank hblank
    have hlive := List.any_eq_false.mp h n (List.mem_range.mpr hn)
    simp [records] at hdead hlive
    simp [hlive] at hdead

theorem addPairingNew_added {request : AddPairingRequest}
    (hp : homekitStorageFindPairing P.crypto P.env.flash w.flash
      (CString.strndup request.identifier request.identifier.length) = none)
    (h : addPairingNew w c request = .ok w') : Added c request w w' := by
  have hfreed : ∀ w : World P, Quiet c w (w.log (.freed c .deviceIdentifier)) :=
    fun w => Quiet.log (e := .freed c .deviceIdentifier) rfl w
  unfold addPairingNew at h
  dsimp only at h
  split at h
  · rename_i hfull
    -- with every slot live the store operation would change nothing either
    refine .intro w (-2) w.flash (Quiet.refl c w) ?_ (Except.ok.inj h ▸ (hfreed w).sendError _ _)
    have hc : compacts P.env.flash w.flash = false := by simp [compacts, hfull]
    rw [addPairingStore, hp]
    simp only [homekitStorageAddPairing, findBlock_of_not_compacts hc, findEmptyBlock_full hfull]
  · split at h
    · simp at h
    · rename_i r f hs
      refine .intro w r f (Quiet.refl c w) (by rw [addPairingStore, hp]; exact hs) ?_
      split at h
      · exact Except.ok.inj h ▸ (hfreed _).sendError _ _
      · exact Except.ok.inj h ▸ (hfreed _).respond _

theorem removePairing_removed {deviceId : Bytes} {message : List Tlv} {t : Tlv}
    (ha : isAdminSession w c = true) (ht : tlvGetValue message TLVType.identifier = some t)
    (hd : deviceId = CString.strndup t.value t.value.length) :
    Removed c deviceId w (removePairing w c message) := by
  have hfreed : ∀ w : World P, Quiet c w (w.log (.freed c .deviceIdentifier)) :=
    fun w => Quiet.log (e := .freed c .deviceIdentifier) rfl w
  subst hd
  simp only [removePairing, ha, Bool.true_eq_false, if_false, ht]
  split
  · rename_i hp
    refine .absent ?_ ((hfreed w).respond _)
    rwa [homekitStorageFindPairing_none, ← matchSlot_none] at hp
  · rename_i pairing hp
    split
    · rename_i hr
      exact .refused w _ _ (Quiet.refl c w) rfl hr ((hfreed _).sendError _ _)
    · rename_i hr
      exact .done w _ pairing (Quiet.refl c w) hp (Prod.ext (not_not.mp hr) rfl) ((hfreed _).respond _)

end ArduinoHomeKit
