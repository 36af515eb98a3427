import ArduinoHomeKit.Sends

/-! Handler work on behalf of one client that leaves the store and all sessions alone.
Everything a handler does around its few decisive steps is quiet. -/

namespace ArduinoHomeKit

open Growth

variable {P : Platform} {c : ClientId} {w w' w'' : World P}

/-- The entries of the log that tell nothing about pairings, sessions or requests. -/
def IsQuiet (c : ClientId) : Event → Prop
  | .sent d _ | .response d _ | .closed d | .freed d _ | .useAfterFree d => d = c
  | .contextFreed _ => True
  | _ => False

/-- What quiet work keeps of its client. -/
def Client.kept (x : Client P) : Client P :=
  { x.core with verifyContext := none, readKey := [], writeKey := [], endpointParams := none, body := [] }

structure Linked (c : ClientId) (w w' : World P) : Prop where
  clients : w'.clients = w.clients
  socket : (w'.client c).socket = (w.client c).socket
  disconnect : (w'.client c).disconnect = (w.client c).disconnect

structure Unlinked (c : ClientId) (w w' : World P) : Prop where
  opened : (w.client c).socket ≠ none
  clients : w'.clients = w.clients.erase c
  socket : (w'.client c).socket = none
  disconnect : (w'.client c).disconnect = true

/-- A pairing context may be prepared, and the one in use may be given up: for good, even if
it was the prepared one. -/
structure Attempts (w w' : World P) : Prop where
  context : w'.pairingContext = w.pairingContext ∨ w'.pairingContext = none
  contextCount : w.contextCount ≤ w'.contextCount
  saved : ∀ k, w'.savedPreinitPairingContext = some k →
    w.savedPreinitPairingContext = some k ∨ w.contextCount ≤ k ∧ k < w'.contextCount
  dropped : ∀ k < w.contextCount, w.pairingContext = some k → w'.savedPreinitPairingContext = some k →
    w'.pairingContext = some k
  owners : ∀ k < w.contextCount, (w'.contexts k).client = (w.contexts k).client

structure Quiet (c : ClientId) (w w' : World P) : Prop extends Attempts w w' where
  flash : w'.flash = w.flash
  paired : w'.paired = w.paired
  now : w'.now = w.now
  clientCount : w'.clientCount = w.clientCount
  other : ∀ d, d ≠ c → w'.client d = w.client d
  kept : (w'.client c).kept = (w.client c).kept
  keys : (w.client c).encrypted = true →
    (w'.client c).readKey = (w.client c).readKey ∧ (w'.client c).writeKey = (w.client c).writeKey
  proof : (w'.client c).step = .pairSetup2Of3 → (w.client c).step = .pairSetup2Of3
  verifyContext : (w'.client c).verifyContext = (w.client c).verifyContext ∨
    (w'.client c).verifyContext = none
  link : Linked c w w' ∨ Unlinked c w w'
  trace : Adds (IsQuiet c) w.trace w'.trace

theorem Linked.refl (c : ClientId) (w : World P) : Linked c w w := ⟨rfl, rfl, rfl⟩

theorem link_trans (h : Linked c w w' ∨ Unlinked c w w') (hh : Linked c w' w'' ∨ Unlinked c w' w'') :
    Linked c w w'' ∨ Unlinked c w w'' := by
  rcases h with h | h <;> rcases hh with hh | hh
  · exact Or.inl ⟨hh.clients.trans h.clients, hh.socket.trans h.socket, hh.disconnect.trans h.disconnect⟩
  · exact Or.inr ⟨h.socket ▸ hh.opened, h.clients ▸ hh.clients, hh.socket, hh.disconnect⟩
  · exact Or.inr ⟨h.opened, hh.clients.trans h.clients, hh.socket.trans h.socket,
      hh.disconnect.trans h.disconnect⟩
  · exact absurd h.socket hh.opened

theorem Attempts.refl (w : World P) : Attempts w w :=
  ⟨Or.inl rfl, Nat.le_refl _, fun _ h => Or.inl h, fun _ _ h _ => h, fun _ _ => rfl⟩

theorem Attempts.trans (h : Attempts w w') (hh : Attempts w' w'') : Attempts w w'' where
  context := by
    rcases hh.context with he | he
    · exact he ▸ h.context
    · exact Or.inr he
  contextCount := Nat.le_trans h.contextCount hh.contextCount
  saved k hk := by
    have h1 := h.contextCount
    have h2 := hh.contextCount
    rcases hh.saved k hk with hk | hk
    · rcases h.saved k hk with hk | hk
      · exact Or.inl hk
      · exact Or.inr ⟨hk.1, Nat.lt_of_lt_of_le hk.2 h2⟩
    · exact Or.inr ⟨Nat.le_trans h1 hk.1, hk.2⟩
  dropped k hk hp hs := by
    have hk' := Nat.lt_of_lt_of_le hk h.contextCount
    rcases hh.saved k hs with hs' | hs'
    · exact hh.dropped k hk' (h.dropped k hk hp hs') hs
    · exact absurd hs'.1 (Nat.not_le_of_lt hk')
  owners k hk := (hh.owners k (Nat.lt_of_lt_of_le hk h.contextCount)).trans (h.owners k hk)

theorem Quiet.refl (c : ClientId) (w : World P) : Quiet c w w where
  toAttempts := Attempts.refl w
  flash := rfl
  paired := rfl
  now := rfl
  clientCount := rfl
  other _ _ := rfl
  kept := rfl
  keys _ := ⟨rfl, rfl⟩
  proof h := h
  verifyContext := Or.inl rfl
  link := Or.inl (Linked.refl c w)
  trace := Adds.refl _ _

theorem Quiet.encrypted (h : Quiet c w w') : (w'.client c).encrypted = (w.client c).encrypted := by
  have hh := congrArg Client.encrypted h.kept
  exact hh

theorem Quiet.trans (h : Quiet c w w') (hh : Quiet c w' w'') : Quiet c w w'' where
  toAttempts := h.toAttempts.trans hh.toAttempts
  flash := hh.flash.trans h.flash
  paired := hh.paired.trans h.paired
  now := hh.now.trans h.now
  clientCount := hh.clientCount.trans h.clientCount
  other d hd := (hh.other d hd).trans (h.other d hd)
  kept := hh.kept.trans h.kept
  keys he := by
    obtain ⟨h1, h2⟩ := h.keys he
    obtain ⟨h3, h4⟩ := hh.keys (h.encrypted.trans he)
    exact ⟨h3.trans h1, h4.trans h2⟩
  proof hs := h.proof (hh.proof hs)
  verifyContext := by
    rcases hh.verifyContext with he | he
    · exact he ▸ h.verifyContext
    · exact Or.inr he
  link := link_trans h.link hh.link
  trace := h.trace.trans hh.trace

theorem IsOutput.isQuiet {e : Event} (h : IsOutput c e) : IsQuiet c e := by
  cases e <;> first | exact h | exact h.elim

theorem Sends.quiet (h : Sends c w w') : Quiet c w w' where
  flash := h.flash
  paired := h.paired
  now := h.now
  clientCount := h.clientCount
  context := h.outcome.elim (fun ho => Or.inl ho.pairingContext) (fun hc => hc.pairingContext)
  contextCount := Nat.le_of_eq h.contextCount.symm
  saved k hk := by
    rcases h.outcome with ho | hc
    · exact Or.inl (ho.saved ▸ hk)
    · rcases hc.saved with he | he
      · exact Or.inl (he ▸ hk)
      · simp [he] at hk
  dropped k _ hp hs := h.outcome.elim (fun ho => ho.pairingContext.trans hp) (fun hc => hc.dropped k hp hs)
  owners k _ := by rw [h.contexts]
  other := h.other
  kept := by
    have hh := congrArg (fun x : Client P =>
      { x with verifyContext := none, readKey := [], writeKey := [], endpointParams := none, body := [] }) h.core
    exact hh
  keys _ := by
    have hr := congrArg Client.readKey h.core
    have hw := congrArg Client.writeKey h.core
    exact ⟨hr, hw⟩
  proof hs := by
    rcases h.outcome with ho | hc
    · exact ho.step ▸ hs
    · simp [hc.step] at hs
  verifyContext := by
    have hh := congrArg Client.verifyContext h.core
    exact Or.inl hh
  link := h.outcome.imp (fun ho => ⟨ho.clients, ho.socket, ho.disconnect⟩)
    (fun hc => ⟨hc.opened, hc.clients, hc.socket, hc.disconnect⟩)
  trace := h.trace.mono (fun _ he => he.isQuiet)

/-- Changes of the client that keep its session and its socket. -/
theorem Quiet.client {x : Client P} (hk : x.kept = (w.client c).kept)
    (hs : x.socket = (w.client c).socket) (hd : x.disconnect = (w.client c).disconnect)
    (hkeys : (w.client c).encrypted = true →
      x.readKey = (w.client c).readKey ∧ x.writeKey = (w.client c).writeKey)
    (hp : x.step = .pairSetup2Of3 → (w.client c).step = .pairSetup2Of3)
    (hv : x.verifyContext = (w.client c).verifyContext ∨ x.verifyContext = none) :
    Quiet c w (w.setClient c x) where
  flash := rfl
  paired := rfl
  now := rfl
  clientCount := rfl
  context := Or.inl rfl
  contextCount := Nat.le_refl _
  saved _ h := Or.inl h
  dropped _ _ h _ := h
  owners _ _ := rfl
  other d hne := setClient_of_ne hne ..
  kept := by rw [setClient_self, hk]
  keys := by rwa [setClient_self]
  proof := by rwa [setClient_self]
  verifyContext := by rwa [setClient_self]
  link := Or.inl ⟨rfl, by rw [setClient_self, hs], by rw [setClient_self, hd]⟩
  trace := Adds.refl _ _

theorem Quiet.step (w : World P) (c : ClientId) {s : ClientStep} (hs : s ≠ .pairSetup2Of3) :
    Quiet c w (w.setClient c { w.client c with step := s }) :=
  Quiet.client rfl rfl rfl (fun _ => ⟨rfl, rfl⟩) (fun h => absurd h hs) (Or.inl rfl)

theorem freeVerifyContext_quiet (w : World P) (c : ClientId) : Quiet c w (freeVerifyContext w c) :=
  Quiet.client rfl rfl rfl (fun _ => ⟨rfl, rfl⟩) id (Or.inr rfl)

theorem Quiet.log {e : Event} (he : IsQuiet c e) (w : World P) : Quiet c w (w.log e) :=
  { Quiet.refl c w with link := Or.inl ⟨rfl, rfl, rfl⟩, trace := Adds.single _ he }

theorem Quiet.app (w : World P) (c : ClientId) (a : P.App) : Quiet c w { w with app := a } :=
  { Quiet.refl c w with link := Or.inl ⟨rfl, rfl, rfl⟩ }

theorem Quiet.context_set {k : ContextId} {x : PairingContext} (w : World P) (c : ClientId)
    (hx : x.client = (w.contexts k).client) : Quiet c w (w.setContext k x) :=
  { Quiet.refl c w with
    link := Or.inl ⟨rfl, rfl, rfl⟩
    owners := fun j _ => by
      by_cases hj : j = k
      · subst hj
        simp [World.setContext, hx]
      · simp [World.setContext, Function.update_of_ne hj] }

theorem Quiet.free {k : ContextId} (w : World P) (c : ClientId) (hk : w.pairingContext = some k) :
    Quiet c w { pairingContextFree w k with pairingContext := none } :=
  { Quiet.refl c w with
    link := Or.inl ⟨rfl, rfl, rfl⟩
    context := Or.inr rfl
    saved := fun j hj => by
      by_cases hs : w.savedPreinitPairingContext = some k
      · simp [pairingContextFree, World.log, hs] at hj
      · exact Or.inl (by simpa [pairingContextFree, World.log, hs] using hj)
    dropped := fun j _ hj hs => by
      obtain rfl : k = j := Option.some.inj (hk.symm.trans hj)
      exact absurd hs (pairingContextFree_saved w k)
    trace := Adds.single _ (by trivial : IsQuiet c (.contextFreed k)) }

theorem cryptoSrpGetSalt_sized (srp : Srp) :
    cryptoSrpGetSalt srp (reportedSize (cryptoSrpGetSalt srp 0)) = .ok srp.salt := by
  unfold cryptoSrpGetSalt
  split
  · simp [reportedSize]
  · rename_i h
    simp only [Nat.not_lt] at h
    simp [reportedSize]

/-- Preparing a context for the next attempt touches no context in use. -/
theorem arduinoHomekitPreinit_quiet (w : World P) (c : ClientId) :
    Quiet c w (arduinoHomekitPreinit w).2 := by
  unfold arduinoHomekitPreinit
  split
  · exact Quiet.refl c w
  · rename_i hs
    have howners : ∀ x : PairingContext, ∀ k < w.contextCount,
        (Function.update w.contexts w.contextCount x k).client = (w.contexts k).client :=
      fun x k hk => by rw [Function.update_of_ne (Nat.ne_of_lt hk)]
    dsimp only
    split
    · refine { Quiet.refl c w with
        link := Or.inl ⟨rfl, rfl, rfl⟩
        contextCount := Nat.le_succ _
        saved := ?_
        dropped := fun _ _ h _ => h
        owners := howners _
        trace := Adds.single _ (by trivial : IsQuiet c (.contextFreed _)) }
      intro k hk
      simp [pairingContextFree, World.log, World.setContext, hs] at hk
    · refine { Quiet.refl c w with
        link := Or.inl ⟨rfl, rfl, rfl⟩
        contextCount := Nat.le_succ _
        saved := ?_
        dropped := fun _ _ h _ => h
        owners := howners _ }
      intro k hk
      obtain rfl : w.contextCount = k := Option.some.inj hk
      exact Or.inr ⟨Nat.le_refl _, Nat.lt_succ_self _⟩

theorem Quiet.respond (h : Quiet c w w') (values : List Tlv) :
    Quiet c w (sendTlvResponse w' c values) :=
  (h.trans (Quiet.log (e := .response c values) rfl w')).trans (sendTlvResponse_sends w' c values).quiet

theorem Quiet.sendError (h : Quiet c w w') (state : Int) (error : TLVError) :
    Quiet c w (sendTlvErrorResponse w' c state error) :=
  h.respond _

theorem messageEnd_quiet (w : World P) (c : ClientId) : Quiet c w (messageEnd w c) := by
  have hend : ∀ w : World P, Quiet c w (w.setClient c { w.client c with endpointParams := none, body := [] }) :=
    fun w => Quiet.client rfl rfl rfl (fun _ => ⟨rfl, rfl⟩) id (Or.inl rfl)
  by_cases h : c ∈ w.clients
  · simpa only [messageEnd, h, if_true] using hend w
  · simpa only [messageEnd, h, if_false] using (Quiet.log (e := .useAfterFree c) rfl w).trans (hend _)

theorem serve_quiet (w : World P) (c : ClientId) (endpoint : Endpoint) : Quiet c w (serve w c endpoint) :=
  (Quiet.app w c _).trans (sendAll_sends _ c _).quiet

theorem listPairings_quiet (w : World P) (c : ClientId) : Quiet c w (listPairings w c) := by
  unfold listPairings
  split
  · exact (Quiet.refl c w).sendError _ _
  · exact (Quiet.refl c w).respond _

end ArduinoHomeKit
