import ArduinoHomeKit.ContextOwner
import ArduinoHomeKit.Sessions

/-! The pairing context in use is the prepared one, its owner is connected, and it is freed
once. A write that fails takes the context away in the middle of a handler: at the end of M5
it is then freed as NULL. A connection that such a write has closed can still open a context. -/

namespace ArduinoHomeKit

open Runs

variable {P : Platform} {c : ClientId} {w w' : World P} {S : Scope P}

/-- The context in use is the prepared one and belongs to a client in the list. -/
def ContextsRight (w : World P) : Prop :=
  ∀ k, w.pairingContext = some k →
    w.savedPreinitPairingContext = some k ∧ ∃ c ∈ w.clients, (w.contexts k).client = some c

def FreedOnce (w : World P) : Prop := ∀ k, w.trace.count (.contextFreed k) ≤ 1

/-- The action is an M5 that has its pairing stored and its answer built: all that is left to
do is to send the answer and to free the context. -/
def Finishing (w : World P) (a : Action P) (c : ClientId) : Prop :=
  ∃ k s request f response, requested w a = some (c, .store k s request) ∧
    cryptoEd25519Verify P.crypto request.key request.info request.signature = 0 ∧
    setupStore (arrived w c) request = .ok (0, f) ∧
    pairSetupM6 (arrived w c) ((arrived w c).contexts k).srp s = .ok response

/-- pairing_context_free(NULL). -/
def FreesNull (w : World P) (a : Action P) : Prop :=
  ∃ c, Finishing w a c ∧ step w a = .error .nullDereference

structure ContextsSafe (w : World P) (a : Action P) : Prop where
  frees : ¬ FreesNull w a
  after : ∀ w', step w a = .ok w' → ContextsRight w' ∧ FreedOnce w'

/-- The next write to the client fails. -/
def WriteFails (w : World P) (c : ClientId) : Prop :=
  (w.client c).errorWrite = false ∧ P.env.socketWrite w.sends = .failed ∧
    ∃ socket, (w.client c).socket = some socket ∧ socket.isConnected = true

/-- Contexts are opened for clients in the list, and the owner of the context receives its M6. -/
structure KeepsContexts (w : World P) (a : Action P) : Prop where
  opener : ∀ c, a = .event c .messageComplete → c < w.clientCount → opensAttempt (messageEntry w c) c →
    c ∈ w.clients
  finish : ∀ c, Finishing w a c → Owns w c → ¬ WriteFails w c

/-! The list and the owner. -/

def OwnerListed (w : World P) : Prop :=
  ∀ k, w.pairingContext = some k → ∃ c ∈ w.clients, (w.contexts k).client = some c

/-- A client that left the list has no socket. -/
def SocketsListed (w : World P) : Prop := ∀ c < w.clientCount, c ∉ w.clients → (w.client c).socket = none

theorem OwnerListed.congr (h : OwnerListed w) (h1 : w'.pairingContext = w.pairingContext)
    (h2 : ∀ k, (w'.contexts k).client = (w.contexts k).client) (h3 : ∀ c ∈ w.clients, c ∈ w'.clients) :
    OwnerListed w' := by
  intro k hk
  obtain ⟨c, hc, ho⟩ := h k (h1 ▸ hk)
  exact ⟨c, h3 c hc, (h2 k).trans ho⟩

theorem OwnerListed.close (h : OwnerListed w) (c : ClientId) : OwnerListed (homekitServerCloseClient w c) := by
  by_cases ho : Owns w c
  · obtain ⟨k, hk, ho⟩ := ho
    rw [homekitServerCloseClient_of_owner hk ho]
    intro j hj
    exact absurd hj (by simp [World.log])
  · rw [homekitServerCloseClient_of_not_owner ho]
    intro k hk
    obtain ⟨d, hd, hdo⟩ := h k hk
    have hne : d ≠ c := fun he => ho ⟨k, hk, he ▸ hdo⟩
    refine ⟨d, ?_, hdo⟩
    show d ∈ unlink c w.clients
    rw [unlink_eq_erase]
    exact (List.mem_erase_of_ne hne).mpr hd

theorem OwnerListed.send (h : OwnerListed w) (c : ClientId) (data : Bytes) : OwnerListed (clientSend w c data) :=
  clientSend_invariant c (fun _ _ h _ => h) (fun _ _ h => h) (fun _ h _ => h.close c) (fun _ _ h => h) w data h

theorem Update.ownerListed (hS : ∀ v c, S.opens v c → c ∈ v.clients) (hu : Update S w w') (hw : ContextsKept w)
    (h : OwnerListed w) : OwnerListed w' := by
  cases hu with
  | client c x _ => exact h
  | log e _ => exact h
  | globals flash paired app now => exact h
  | accept raw =>
    unfold homekitServerAcceptClient
    split
    · exact h
    · exact h.congr rfl (fun _ => rfl) (fun _ hc => List.mem_cons_of_mem _ hc)
  | buffer c b _ => exact h
  | close c => exact h.close c
  | preinit =>
    rcases arduinoHomekitPreinit_cases w with ⟨_, he⟩ | ⟨hs, he⟩
    · rw [he]
      exact h
    · -- with nothing prepared, nothing is in use
      have hn : (arduinoHomekitPreinit w).2.pairingContext = w.pairingContext := by
        rcases he with ⟨_, he⟩ | ⟨_, he⟩ <;> rw [he] <;> rfl
      intro k hk
      have hk' := (hw.current k (hn ▸ hk)).1
      simp [hs] at hk'
  | opened c k ho hn hk =>
    intro j hj
    obtain rfl := Option.some.inj hj
    exact ⟨c, hS w c ho, by simp [openContext, World.log, World.setContext]⟩
  | context k x hx =>
    refine h.congr rfl (fun j => ?_) (fun _ hc => hc)
    by_cases hj : j = k
    · subst hj
      simp [World.setContext, hx]
    · simp [World.setContext, Function.update_of_ne hj]
  | free k hk =>
    intro j hj
    exact absurd hj (by simp)
  | session c request pairing _ _ => exact h

theorem SocketsListed.client {x : Client P} (h : SocketsListed w)
    (hx : (w.client c).socket = none → x.socket = none) : SocketsListed (w.setClient c x) := by
  intro d hd hmem
  have hs := h d hd hmem
  by_cases hdc : d = c
  · subst hdc
    rw [setClient_self]
    exact hx hs
  · rw [setClient_of_ne hdc]
    exact hs

theorem SocketsListed.close (h : SocketsListed w) (c : ClientId) : SocketsListed (homekitServerCloseClient w c) := by
  have hc := homekitServerCloseClient_closes w c
  intro d hd hmem
  rw [hc.client]
  by_cases hdc : d = c
  · rw [hdc, Function.update_self]
  · rw [Function.update_of_ne hdc]
    rw [hc.clients, List.mem_erase_of_ne hdc] at hmem
    exact h d (hc.clientCount ▸ hd) hmem

theorem SocketsListed.send (h : SocketsListed w) (c : ClientId) (data : Bytes) :
    SocketsListed (clientSend w c data) := by
  have hs := clientSend_sends w c data
  intro d hd hmem
  by_cases hdc : d = c
  · subst hdc
    rcases hs.outcome with ho | hcl
    · rw [ho.socket]
      exact h d (hs.clientCount ▸ hd) (ho.clients ▸ hmem)
    · exact hcl.socket
  · rw [hs.other d hdc]
    refine h d (hs.clientCount ▸ hd) ?_
    rcases hs.outcome with ho | hcl
    · exact ho.clients ▸ hmem
    · rwa [hcl.clients, List.mem_erase_of_ne hdc] at hmem

theorem Update.socketsListed (hu : Update S w w') (h : SocketsListed w) : SocketsListed w' := by
  cases hu with
  | client c x hx => exact h.client (fun hn => hx.socket.trans hn)
  | log e _ => exact h
  | globals flash paired app now => exact h
  | accept raw =>
    unfold homekitServerAcceptClient
    split
    · exact h
    · intro d hd hmem
      have hne : d ≠ w.clientCount := fun he => hmem (he ▸ List.mem_cons_self ..)
      have hlt : d < w.clientCount := Nat.lt_of_le_of_ne (Nat.le_of_lt_succ hd) hne
      have hs := h d hlt (fun hd => hmem (List.mem_cons_of_mem _ hd))
      exact (congrArg Client.socket (Function.update_of_ne hne ..)).trans hs
  | buffer c b _ => exact h.client (fun hn => by simp [hn])
  | close c => exact h.close c
  | preinit => rcases arduinoHomekitPreinit_cases w with ⟨_, he⟩ | ⟨_, ⟨_, he⟩ | ⟨_, he⟩⟩ <;> rw [he] <;> exact h
  | opened c k _ _ _ => exact h
  | context k x _ => exact h
  | free k _ => exact h
  | session c request pairing _ _ => exact h.client (fun hn => hn)

/-! The end of M5. -/

theorem close_pairingContext_none_iff {k : ContextId} (hk : w.pairingContext = some k) :
    (homekitServerCloseClient w c).pairingContext = none ↔ Owns w c := by
  by_cases ho : Owns w c
  · obtain ⟨j, hj, hjo⟩ := ho
    rw [homekitServerCloseClient_of_owner hj hjo]
    exact ⟨fun _ => ⟨j, hj, hjo⟩, fun _ => rfl⟩
  · rw [homekitServerCloseClient_of_not_owner ho]
    constructor
    · intro hn
      exact absurd (hk.symm.trans hn) (by simp)
    · exact fun h => absurd h ho

theorem write_of_fails (hw : WriteFails w c) (data : Bytes) :
    write w c data = homekitServerCloseClient
      ({ w with sends := w.sends + 1 }.setClient c { w.client c with errorWrite := true, disconnect := true }) c := by
  obtain ⟨he, hr, socket, hs, hc⟩ := hw
  simp [write, hs, hr, hc, he]

theorem write_of_fails_pairingContext {k : ContextId} (hw : WriteFails w c) (hk : w.pairingContext = some k)
    (data : Bytes) : (write w c data).pairingContext = none ↔ Owns w c := by
  rw [write_of_fails hw]
  generalize hv : ({ w with sends := w.sends + 1 } : World P).setClient c
    { w.client c with errorWrite := true, disconnect := true } = v
  have hp : v.pairingContext = w.pairingContext := by rw [← hv]; rfl
  have hctx : v.contexts = w.contexts := by rw [← hv]; rfl
  rw [close_pairingContext_none_iff (hp.trans hk), Owns, hp, hctx]
  rfl

theorem write_pairingContext (hw : ¬ WriteFails w c) (data : Bytes) :
    (write w c data).pairingContext = w.pairingContext := by
  unfold write
  split
  · rfl
  · rename_i socket hs
    dsimp only
    split
    · rfl
    · rename_i hc
      split
      · rfl
      · rename_i he
        split
        · rename_i hr
          simp only [not_or, Bool.not_eq_false] at hc
          exact absurd ⟨by simpa using he, hr, socket, hs, hc.1⟩ hw
        · rfl

theorem sendTlvResponse_eq_write (he : (w.client c).encrypted = false) (values : List Tlv) :
    ∃ data, sendTlvResponse w c values = write (w.log (.response c values)) c data := by
  have he' : ((w.log (.response c values)).client c).encrypted = false := he
  exact ⟨_, by simp only [sendTlvResponse, clientSend, he', Bool.false_eq_true, if_false]; rfl⟩

/-- The context is gone when M5 frees it exactly if its owner could not be sent the M6. -/
theorem pairSetupM5Finish_fault_iff {k : ContextId} (hk : w.pairingContext = some k)
    (he : (w.client c).encrypted = false) (response : List Tlv) :
    pairSetupM5Finish w c response = .error .nullDereference ↔ Owns w c ∧ WriteFails w c := by
  obtain ⟨data, hdata⟩ := sendTlvResponse_eq_write he response
  have hiff : pairSetupM5Finish w c response = .error .nullDereference ↔
      (sendTlvResponse w c response).pairingContext = none := by
    unfold pairSetupM5Finish
    dsimp only
    split
    · rename_i hn
      simp [hn]
    · rename_i j hj
      simp [hj]
  rw [hiff, hdata]
  by_cases hw : WriteFails (w.log (.response c response)) c
  · rw [write_of_fails_pairingContext hw (k := k) hk]
    exact ⟨fun ho => ⟨ho, hw⟩, fun h => h.1⟩
  · rw [write_pairingContext hw]
    constructor
    · intro hn
      exact absurd (hk.symm.trans hn) (by simp)
    · exact fun h => absurd h.2 hw

/-- An M5 that has come this far comes to its end. -/
theorem pairSetupM5_finish {k : ContextId} {s : Bytes} {request : SignedRequest} {f : Flash}
    {response message : List Tlv} (hk : w.pairingContext = some k)
    (hs : cryptoSrpHkdf P.crypto (w.contexts k).srp saltEncrypt infoEncrypt = some s)
    (hq : pairSetupM5Request w (w.contexts k).srp s message = .ok (some request))
    (hv : cryptoEd25519Verify P.crypto request.key request.info request.signature = 0)
    (hst : setupStore w request = .ok (0, f)) (hm : pairSetupM6 w (w.contexts k).srp s = .ok response) :
    pairSetupM5 w c message =
      pairSetupM5Finish ({ w with flash := f }.log (.addPairing k c request 0)) c response := by
  have hm' : pairSetupM6 ({ w with flash := f }.log (.addPairing k c request 0)) (w.contexts k).srp s =
      .ok response := hm
  unfold pairSetupM5
  split
  · rename_i hn
    exact absurd (hk.symm.trans hn) (by simp)
  · rename_i j hj
    obtain rfl : k = j := Option.some.inj (hk.symm.trans hj)
    simp only [hs, hq, hv, ne_eq, not_true_eq_false, if_false, pairSetupM5Store, hst, hm']

theorem requested_store {a : Action P} {k : ContextId} {s : Bytes} {request : SignedRequest}
    (h : requested w a = some (c, .store k s request)) :
    ∃ message, SetupAction w a c message ∧ messageState message = 5 ∧
      setupRequest (messageEntry w c) message = some (.store k s request) := by
  obtain ⟨rfl, hc, hr⟩ := requested_event h
  unfold messageRequest at hr
  dsimp only at hr
  split at hr
  · simp at hr
  · rename_i message hm
    split at hr
    · rename_i he hep
      split at hr
      · rename_i h5
        refine ⟨message, ⟨rfl, hc, ?_⟩, h5, hr⟩
        rw [setupMessage, if_pos ⟨he, hep⟩, hm]
        rfl
      · simp at hr
    · exfalso
      split at hr
      · obtain ⟨_, _, _, hq, _⟩ := verifyRequest_some hr
        simp at hq
      · simp at hr
    · exfalso
      split at hr
      · obtain ⟨_, ⟨_, hq⟩ | ⟨_, hq⟩⟩ := pairingsRequest_some hr <;> simp at hq
      · simp at hr
    · simp at hr

theorem finishing_step {a : Action P} (h : Finishing w a c) :
    step w a = .error .nullDereference ↔ Owns w c ∧ WriteFails w c := by
  obtain ⟨k, s, request, f, response, hr, hv, hst, hm⟩ := h
  obtain ⟨message, ha, h5, hreq⟩ := requested_store hr
  obtain ⟨_, _, _, hq, hk, hs, hreq⟩ := setupRequest_some hreq
  obtain ⟨rfl, rfl, rfl⟩ := Request.store.inj hq
  have he := (setupMessage_some ha.2.2).1
  have har : arrived w c = messageEntry w c := by simp [arrived, entered, he]
  rw [har] at hst hm
  have hfin : pairSetupM5 (restarted (messageEntry w c) c) c message =
      pairSetupM5Finish ({ restarted (messageEntry w c) c with flash := f }.log (.addPairing k c request 0)) c
        response := pairSetupM5_finish hk hs hreq hv hst hm
  have hon : onSetupMessage (restarted (messageEntry w c) c) c message =
      pairSetupM5 (restarted (messageEntry w c) c) c message := by simp [onSetupMessage, h5]
  have he' : (({ restarted (messageEntry w c) c with flash := f }.log (.addPairing k c request 0)).client c).encrypted =
      false := (restarted_quiet (messageEntry w c) c).encrypted.trans he
  have hiff := pairSetupM5Finish_fault_iff (c := c) (w := { restarted (messageEntry w c) c with flash := f }.log
    (.addPairing k c request 0)) hk he' response
  rw [setupAction_step ha, hon, hfin]
  have hfails : WriteFails ({ restarted (messageEntry w c) c with flash := f }.log (.addPairing k c request 0)) c ↔
      WriteFails w c := by
    have hcl : ({ restarted (messageEntry w c) c with flash := f }.log (.addPairing k c request 0)).client c =
        { w.client c with pending := none, step := .none } := by
      simp [restarted, messageEntry, World.log]
    have hsends : ({ restarted (messageEntry w c) c with flash := f }.log (.addPairing k c request 0)).sends =
        w.sends := by
      simp only [World.log, restarted, messageEntry, World.setClient, World.tick]
    rw [WriteFails, WriteFails, hcl, hsends]
  have howns : Owns ({ restarted (messageEntry w c) c with flash := f }.log (.addPairing k c request 0)) c ↔ Owns w c := by
    simp only [Owns, World.log, restarted, messageEntry, World.setClient, World.tick]
  rw [← hfails, ← howns, ← hiff]
  generalize pairSetupM5Finish _ c response = r
  cases r <;> simp [Except.map]

/-! An M1 on a closed connection. -/

theorem sendTlvResponse_of_closed (he : (w.client c).encrypted = false) (hs : (w.client c).socket = none)
    (values : List Tlv) : sendTlvResponse w c values = w.log (.response c values) := by
  obtain ⟨data, hdata⟩ := sendTlvResponse_eq_write he values
  have hs' : ((w.log (.response c values)).client c).socket = none := hs
  rw [hdata, write]
  split
  · rfl
  · rename_i socket hsome
    exact absurd (hs'.symm.trans hsome) (by simp)

theorem messageEnd_pairingContext (w : World P) (c : ClientId) :
    (messageEnd w c).pairingContext = w.pairingContext := by
  unfold messageEnd
  split <;> rfl

theorem messageEnd_contexts (w : World P) (c : ClientId) : (messageEnd w c).contexts = w.contexts := by
  unfold messageEnd
  split <;> rfl

theorem messageEnd_clients (w : World P) (c : ClientId) : (messageEnd w c).clients = w.clients := by
  unfold messageEnd
  split <;> rfl

theorem pairSetupM1_opens (hp : w.paired = false) (hn : w.pairingContext = none)
    (hpre : (arduinoHomekitPreinit w).1 = true) :
    ∃ k, pairSetupM1 w c = pairSetupM2 (openContext (arduinoHomekitPreinit w).2 c k) c k := by
  have hk : ∃ k, (arduinoHomekitPreinit w).2.savedPreinitPairingContext = some k := by
    rcases arduinoHomekitPreinit_cases w with ⟨⟨k, hk⟩, he⟩ | ⟨_, ⟨_, he⟩ | ⟨_, he⟩⟩
    · exact ⟨k, by rw [he]; exact hk⟩
    · simp [he] at hpre
    · exact ⟨w.contextCount, by rw [he]⟩
  obtain ⟨k, hk⟩ := hk
  refine ⟨k, ?_⟩
  unfold pairSetupM1
  rw [if_neg (by simp [hp])]
  split
  · rename_i j hj
    exact absurd (hn.symm.trans hj) (by simp)
  · split
    · rename_i w₁ hw
      simp [hw] at hpre
    · rename_i w₁ hw
      rw [hw] at hk ⊢
      dsimp only at hk ⊢
      rw [hk]
      rfl

/-- The owner of the context it opens is in no list. -/
theorem opensAttempt_step (hc : c < w.clientCount) (ho : opensAttempt (messageEntry w c) c)
    (hs : (w.client c).socket = none) :
    ∃ w' k, step w (.event c .messageComplete) = .ok w' ∧ w'.pairingContext = some k ∧
      (w'.contexts k).client = some c ∧ w'.clients = w.clients := by
  obtain ⟨⟨message, hm, h1⟩, hp, hn, hpre⟩ := ho
  have hpre' : (arduinoHomekitPreinit (restarted (messageEntry w c) c)).1 = true := by
    rw [restarted, arduinoHomekitPreinit_setClient]
    exact hpre
  obtain ⟨k, hk⟩ := pairSetupM1_opens (c := c) (w := restarted (messageEntry w c) c) hp hn hpre'
  have hquiet := arduinoHomekitPreinit_quiet (restarted (messageEntry w c) c) c
  have hclients := arduinoHomekitPreinit_clients (restarted (messageEntry w c) c)
  generalize (arduinoHomekitPreinit (restarted (messageEntry w c) c)).2 = v at hk hquiet hclients
  have he : (v.client c).encrypted = false :=
    hquiet.encrypted.trans ((restarted_quiet _ c).encrypted.trans (setupMessage_some hm).1)
  have hsock : (v.client c).socket = none := by
    have hnone : ((restarted (messageEntry w c) c).client c).socket = none := by
      simp [restarted, messageEntry, World.log, hs]
    rcases hquiet.link with hl | hl
    · exact hl.socket.trans hnone
    · exact hl.socket
  have hM2 : pairSetupM2 (openContext v c k) c k =
      ((openContext v c k).log (.response c
        [{ type := TLVType.publicKey, value := ((openContext v c k).contexts k).publicKey },
         { type := TLVType.salt, value := ((openContext v c k).contexts k).srp.salt },
         tlvAddIntegerValue TLVType.state 1 2])).setClient c
        { (openContext v c k).client c with step := .pairSetup1Of3 } := by
    unfold pairSetupM2
    rw [cryptoSrpGetSalt_sized]
    dsimp only
    rw [sendTlvResponse_of_closed (w := openContext v c k) he hsock]
    rfl
  have hon : onSetupMessage (restarted (messageEntry w c) c) c message =
      .ok (pairSetupM1 (restarted (messageEntry w c) c) c) := by simp [onSetupMessage, h1]
  have hstep := setupAction_step (a := .event c .messageComplete) ⟨rfl, hc, hm⟩
  rw [hon, hk, hM2] at hstep
  refine ⟨_, k, hstep, ?_⟩
  dsimp only
  rw [messageEnd_pairingContext, messageEnd_contexts, messageEnd_clients]
  exact ⟨rfl, by simp [openContext, World.log, World.setClient, World.setContext], hclients⟩

structure ContextsSound (w : World P) : Prop where
  kept : ContextsKept w
  listed : OwnerListed w
  sockets : SocketsListed w

theorem ContextsKept.freedOnce (h : ContextsKept w) : FreedOnce w := by
  intro k
  have hk := h.once k
  rwa [contextEvents, List.count_filter rfl] at hk

theorem step_ownerListed {a : Action P} (ha : KeepsContexts w a) (hk : ContextsKept w) (h : OwnerListed w)
    (hs : step w a = .ok w') : OwnerListed w' := by
  have hi := step_invariant (I := fun v => ContextsKept v ∧ OwnerListed v) ?_ ?_ hs ⟨hk, h⟩
  · exact hi.2
  · rintro v v' ⟨hv, hl⟩ hu
    refine ⟨hu.contextsKept hv, hu.ownerListed ?_ hv hl⟩
    rintro u d ⟨rfl, hd, ho, hu⟩
    rw [hu]
    exact ha.opener d rfl hd ho
  · exact fun v d data hv => ⟨hv.1.send d data, hv.2.send d data⟩

theorem contextsSafe_iff {a : Action P} (hw : ContextsSound w) : ContextsSafe w a ↔ KeepsContexts w a := by
  constructor
  · intro h
    refine ⟨fun c ha hc ho => ?_, fun c hf ho hwf => h.frees ⟨c, hf, (finishing_step hf).mpr ⟨ho, hwf⟩⟩⟩
    by_contra hmem
    subst ha
    obtain ⟨w', k, hs, hk, hown, hcl⟩ := opensAttempt_step hc ho (hw.sockets c hc hmem)
    obtain ⟨_, d, hd, hdo⟩ := (h.after w' hs).1 k hk
    obtain rfl : c = d := Option.some.inj (hown.symm.trans hdo)
    exact hmem (hcl ▸ hd)
  · intro h
    refine ⟨?_, fun w' hs => ?_⟩
    · rintro ⟨c, hf, hfault⟩
      obtain ⟨ho, hwf⟩ := (finishing_step hf).mp hfault
      exact h.finish c hf ho hwf
    · have hkept := step_contextsKept hw.kept hs
      have hlisted := step_ownerListed h hw.kept hw.listed hs
      exact ⟨fun k hk => ⟨(hkept.current k hk).1, hlisted k hk⟩, hkept.freedOnce⟩

/-- From boot on, the contexts are safe in every step that is tried exactly if every context is
opened for a client in the list and its owner receives the M6. -/
theorem contexts_safe_run_iff (accessoryId : Bytes) (accessoryKey : Ed25519Key) (password : Option Bytes)
    (flash : Flash) (app : P.App) (clients : ClientId → Client P) (contexts : ContextId → PairingContext)
    (as : List (Action P)) :
    let s := serverBoot accessoryId accessoryKey password flash app clients contexts
    Tried step ContextsSafe s as ↔ Tried step KeepsContexts s as := by
  refine Tried.congr (I := ContextsSound) ?_ (fun _ _ hi => contextsSafe_iff hi) as
    ⟨serverBoot_contextsKept accessoryId accessoryKey password flash app clients contexts, ?_, ?_⟩
  · intro w a w' hi hs hp
    have hsock : SocketsListed w' := step_invariant (fun _ _ h hu => hu.socketsListed h)
      (fun _ c data h => h.send c data) hs hi.sockets
    exact ⟨step_contextsKept hi.kept hs, fun k hk => ((hp.after w' hs).1 k hk).2, hsock⟩
  · exact fun k hk => absurd hk (by simp [serverBoot])
  · exact fun c hc => absurd hc (Nat.not_lt_zero c)

/-- The bench with a network that fails from the third write on. -/
def unpluggedBench : Platform :=
  { bench with env := { bench.env with socketWrite := fun n => if n < 2 then .sent else .failed } }

def unpluggedClient : Client unpluggedBench := clientContextNew
  { benchClient with parser := (), pending := none }

def unplugged : Action bench → Action unpluggedBench
  | .event c e => .event c e
  | _ => .tick

def unpluggedBoot : World unpluggedBench :=
  serverBoot (ascii "AA:BB:CC:DD:EE:FF") { p := benchKey 1, k := [] } (some (ascii "111-11-111"))
    (benchFlash []) () (fun _ => unpluggedClient)
    (fun _ => { srp := cryptoSrpNew, publicKey := [], client := none })

/-- A pair-setup up to the M5, which is still to be handled. -/
def unpluggedSetup : List (Action unpluggedBench) :=
  .accept unpluggedClient ::
    (setupM1 0 ++ setupM3 0 "111-11-111" ++ (setupM5 0 9 2 (signedBy 2)).take 3).map unplugged

/-- The M5 stores its pairing, has its answer built, and the handler falls over. -/
def fallsOver (w : World unpluggedBench) : Bool :=
  match requested w (.event 0 .messageComplete) with
  | some (0, .store k s request) =>
    cryptoEd25519Verify unpluggedBench.crypto request.key request.info request.signature = 0 &&
      (match setupStore (arrived w 0) request, pairSetupM6 (arrived w 0) ((arrived w 0).contexts k).srp s with
      | .ok (r, _), .ok _ => r = 0
      | _, _ => false) &&
      match step w (.event 0 .messageComplete) with
      | .error e => e = .nullDereference
      | .ok _ => false
  | _ => false

theorem unplugged_run :
    (match run step unpluggedBoot unpluggedSetup with
    | .ok w => fallsOver w
    | .error _ => false) = true := by
  decide +kernel

/-- The M6 cannot be written, so the connection is closed and its context freed, and then M5
frees the context again. -/
theorem context_freed_as_null :
    ∃ w, run step unpluggedBoot unpluggedSetup = .ok w ∧ FreesNull w (.event 0 .messageComplete) := by
  have hp := unplugged_run
  split at hp
  · rename_i w hw
    refine ⟨w, hw, 0, ?_⟩
    unfold fallsOver at hp
    split at hp
    · rename_i k s request hr
      simp only [Bool.and_eq_true, decide_eq_true_eq] at hp
      obtain ⟨⟨hv, hst⟩, hfault⟩ := hp
      split at hst
      · rename_i r f response hs hm
        obtain rfl : r = 0 := of_decide_eq_true hst
        refine ⟨⟨k, s, request, f, response, hr, hv, hs, hm⟩, ?_⟩
        split at hfault
        · rename_i e he
          rw [he, of_decide_eq_true hfault]
        · simp at hfault
      · simp at hst
    · simp at hp
  · simp at hp

end ArduinoHomeKit
