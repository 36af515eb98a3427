import ArduinoHomeKit.News

/-! The reading side of the connections. Handlers and callbacks leave it alone: what a
connection has read and decrypted changes only when the connection itself is processed. -/

namespace ArduinoHomeKit

open Growth

variable {P : Platform} {c d : ClientId} {w w' w'' : World P}

/-- The decoder of a connection and its parser. -/
def Client.decoder (x : Client P) : Bytes × Nat × Nat × P.Parser :=
  (x.data, x.dataAvailable, x.countWrites, x.parser)

/-- The entries of the log that do not come from a read. -/
def IsCallback : Event → Prop
  | .connected _ | .parsed .. => False
  | _ => True

/-- Work done in a callback of the connection `c`. -/
structure Called (c : ClientId) (w w' : World P) : Prop where
  clientCount : w'.clientCount = w.clientCount
  decoder : ∀ d, (w'.client d).decoder = (w.client d).decoder
  socket : ∀ d, (w'.client d).socket = (w.client d).socket ∨ (w'.client d).socket = none
  session : ∀ d, (w.client d).encrypted = true →
    (w'.client d).encrypted = true ∧ (w'.client d).writeKey = (w.client d).writeKey
  others : ∀ d, d ≠ c →
    (w'.client d).encrypted = (w.client d).encrypted ∧ (w'.client d).pending = (w.client d).pending
  trace : Adds IsCallback w.trace w'.trace

/-- Work of a handler: the message is over, and the next one has not begun. -/
structure Handled (c : ClientId) (w w' : World P) : Prop extends Called c w w' where
  pending : (w'.client c).pending = (w.client c).pending

theorem Called.refl (c : ClientId) (w : World P) : Called c w w :=
  ⟨rfl, fun _ => rfl, fun _ => Or.inl rfl, fun _ h => ⟨h, rfl⟩, fun _ _ => ⟨rfl, rfl⟩, Adds.refl _ _⟩

theorem Called.trans (h : Called c w w') (hh : Called c w' w'') : Called c w w'' where
  clientCount := hh.clientCount.trans h.clientCount
  decoder d := (hh.decoder d).trans (h.decoder d)
  socket d := by
    rcases hh.socket d with he | he
    · exact he ▸ h.socket d
    · exact Or.inr he
  session d hd := by
    obtain ⟨h1, h2⟩ := h.session d hd
    obtain ⟨h3, h4⟩ := hh.session d h1
    exact ⟨h3, h4.trans h2⟩
  others d hd := ⟨(hh.others d hd).1.trans (h.others d hd).1, (hh.others d hd).2.trans (h.others d hd).2⟩
  trace := h.trace.trans hh.trace

theorem Handled.refl (c : ClientId) (w : World P) : Handled c w w := ⟨Called.refl c w, rfl⟩

theorem Handled.trans (h : Handled c w w') (hh : Handled c w' w'') : Handled c w w'' :=
  ⟨h.toCalled.trans hh.toCalled, hh.pending.trans h.pending⟩

theorem IsQuiet.isCallback {e : Event} (h : IsQuiet c e) : IsCallback e := by
  cases e <;> first | exact h.elim | trivial

theorem Quiet.handled (h : Quiet c w w') : Handled c w w' where
  clientCount := h.clientCount
  decoder d := by
    by_cases hd : d = c
    · subst hd
      have hh := congrArg Client.decoder h.kept
      exact hh
    · rw [h.other d hd]
  socket d := by
    by_cases hd : d = c
    · subst hd
      exact h.link.imp (fun hl => hl.socket) (fun hu => hu.socket)
    · exact Or.inl (by rw [h.other d hd])
  session d he := by
    by_cases hd : d = c
    · subst hd
      exact ⟨h.encrypted.trans he, (h.keys he).2⟩
    · rw [h.other d hd]
      exact ⟨he, rfl⟩
  others d hd := by
    rw [h.other d hd]
    exact ⟨rfl, rfl⟩
  trace := h.trace.mono (fun _ he => he.isCallback)
  pending := by
    have hh := congrArg Client.pending h.kept
    exact hh

/-- Updates that leave all clients alone. -/
theorem Handled.of_client (hn : w'.clientCount = w.clientCount) (hc : w'.client = w.client)
    (ht : Adds IsCallback w.trace w'.trace) : Handled c w w' :=
  ⟨⟨hn, fun _ => by rw [hc], fun _ => Or.inl (by rw [hc]), fun _ h => by rw [hc]; exact ⟨h, rfl⟩,
    fun _ _ => by rw [hc]; exact ⟨rfl, rfl⟩, ht⟩, by rw [hc]⟩

theorem Handled.log {e : Event} (he : IsCallback e) (w : World P) : Handled c w (w.log e) :=
  Handled.of_client rfl rfl (Adds.single _ he)

theorem Called.client {x : Client P} (hd : x.decoder = (w.client c).decoder)
    (hs : x.socket = (w.client c).socket)
    (hk : (w.client c).encrypted = true → x.encrypted = true ∧ x.writeKey = (w.client c).writeKey) :
    Called c w (w.setClient c x) where
  clientCount := rfl
  decoder := apply_setClient Client.decoder hd
  socket d := Or.inl (apply_setClient Client.socket hs d)
  session d he := by
    by_cases hdc : d = c
    · subst hdc
      rw [setClient_self]
      exact hk he
    · rw [setClient_of_ne hdc]
      exact ⟨he, rfl⟩
  others d hdc := by
    rw [setClient_of_ne hdc]
    exact ⟨rfl, rfl⟩
  trace := Adds.refl _ _

theorem Handled.client {x : Client P} (hd : x.decoder = (w.client c).decoder)
    (hs : x.socket = (w.client c).socket)
    (hk : (w.client c).encrypted = true → x.encrypted = true ∧ x.writeKey = (w.client c).writeKey)
    (hp : x.pending = (w.client c).pending) : Handled c w (w.setClient c x) :=
  ⟨Called.client hd hs hk, by rw [setClient_self, hp]⟩

theorem Passive.handled (h : Passive c w w') :
    Handled c w w' ∧ (w'.client c).encrypted = (w.client c).encrypted := by
  cases h with
  | quiet h => exact ⟨h.handled, h.encrypted⟩
  | opened w₁ k h _ _ _ hh =>
    have ho : Handled c w₁ (openContext w₁ c k) :=
      Handled.of_client rfl rfl (Adds.single _ (by trivial : IsCallback (.contextOpened k c)))
    exact ⟨h.handled.trans (ho.trans hh.handled), hh.encrypted.trans h.encrypted⟩
  | proved w₁ w₂ k h _ hq hh =>
    have hl : Handled c w₁ (w₁.log (.srpVerified k c)) := Handled.log (e := .srpVerified k c) trivial w₁
    have hc : Handled c w₂ (w₂.setClient c { w₂.client c with step := .pairSetup2Of3 }) :=
      Handled.client rfl rfl (fun he => ⟨he, rfl⟩) rfl
    refine ⟨h.handled.trans (hl.trans (hq.handled.trans (hc.trans hh.handled))), ?_⟩
    rw [hh.encrypted, setClient_self, hq.encrypted]
    exact h.encrypted
  | started w₁ context h hh =>
    have hc : Handled c w₁ (w₁.setClient c
        { w₁.client c with verifyContext := some context, step := .pairVerify1Of2 }) :=
      Handled.client rfl rfl (fun he => ⟨he, rfl⟩) rfl
    have hl : IsCallback (.verifyStarted c context.devicePublicKey context.accessoryPublicKey) := trivial
    refine ⟨h.handled.trans (hc.trans ((Handled.log hl _).trans hh.handled)), hh.encrypted.trans ?_⟩
    exact (congrArg Client.encrypted (setClient_self ..)).trans h.encrypted

theorem Stored.handled {k : ContextId} {s : Bytes} {request : SignedRequest} (h : Stored c k s request w w') :
    Handled c w w' ∧ (w'.client c).encrypted = (w.client c).encrypted := by
  have hadd : ∀ (v : World P) f r, Handled c v ({ v with flash := f }.log (.addPairing k c request r)) :=
    fun v f r => Handled.of_client rfl rfl (Adds.single _ (by trivial : IsCallback (.addPairing k c request r)))
  cases h with
  | failed w₁ r f h _ _ hh => exact ⟨h.handled.trans ((hadd w₁ f r).trans hh.handled), hh.encrypted.trans h.encrypted⟩
  | finished w₁ w₂ f h _ _ hq _ hh =>
    have hp : Handled c w₂ { w₂ with paired := true } := Handled.of_client rfl rfl (Adds.refl _ _)
    exact ⟨h.handled.trans ((hadd w₁ f 0).trans (hq.handled.trans (hp.trans hh.handled))),
      hh.encrypted.trans (hq.encrypted.trans h.encrypted)⟩

theorem Verified.handled {request : SignedRequest} {pairing : Pairing} (h : Verified c request pairing w w') :
    Handled c w w' := by
  obtain ⟨w₁, h₁, _, hh⟩ := h
  have hc : Handled c w₁ (w₁.setClient c
      { w₁.client c with
        pairingId := pairing.id
        permissions := pairing.permissions
        encrypted := true
        step := .pairVerify2Of2 }) := Handled.client rfl rfl (fun _ => ⟨rfl, rfl⟩) rfl
  have hl : IsCallback (.verified c request) := trivial
  exact h₁.handled.trans (hc.trans ((Handled.log hl _).trans hh.handled))

theorem Revokes.handled {deviceId : Bytes} {pairing : Pairing} {f : Flash}
    (h : Revokes c deviceId pairing f w w') : Handled c w w' := by
  have hcl : ∀ {β : Type} (g : Client P → β), (∀ x b, g { x with disconnect := b } = g x) →
      ∀ d, g (w'.client d) = g (w.client d) := by
    intro β g hg d
    rw [h.client d]
    split
    · exact hg _ _
    · rfl
  refine ⟨⟨h.clientCount, hcl Client.decoder (fun _ _ => rfl), fun d => Or.inl (hcl Client.socket (fun _ _ => rfl) d),
    fun d he => ⟨(h.encrypted d).trans he, hcl Client.writeKey (fun _ _ => rfl) d⟩,
    fun d _ => ⟨h.encrypted d, hcl Client.pending (fun _ _ => rfl) d⟩, ?_⟩, hcl Client.pending (fun _ _ => rfl) c⟩
  exact h.trace ▸ Adds.single _ (by trivial : IsCallback (.pairingRemoved c deviceId))

theorem Removed.handled {deviceId : Bytes} (h : Removed c deviceId w w') :
    Handled c w w' ∧ (w'.client c).encrypted = (w.client c).encrypted := by
  have hf : ∀ (v : World P) f, Handled c v { v with flash := f } :=
    fun v f => Handled.of_client rfl rfl (Adds.refl _ _)
  cases h with
  | absent _ h => exact ⟨h.handled, h.encrypted⟩
  | refused w₁ r f h _ _ hh =>
    exact ⟨h.handled.trans ((hf w₁ f).trans hh.handled), hh.encrypted.trans h.encrypted⟩
  | done w₁ f pairing h _ _ hh =>
    have hr := revoke_revokes w₁ c deviceId pairing f
    exact ⟨h.handled.trans (hr.handled.trans hh.handled), hh.encrypted.trans ((hr.encrypted c).trans h.encrypted)⟩

/-- Only an accepted M3 opens a session. -/
theorem Effect.handled {q : Option Request} (h : Effect c w w' q) :
    Handled c w w' ∧ ((w'.client c).encrypted = (w.client c).encrypted ∨
      ∃ context request pairing, q = some (.verify context request pairing) ∧
        cryptoEd25519Verify P.crypto request.key request.info request.signature = 0) := by
  match q, h with
  | none, h =>
    obtain ⟨h1, h2⟩ := Passive.handled h
    exact ⟨h1, Or.inl h2⟩
  | some (.store k s request), ⟨_, h⟩ =>
    split at h
    · exact ⟨h.handled, Or.inl h.encrypted⟩
    · exact ⟨h.handled.1, Or.inl h.handled.2⟩
  | some (.verify context request pairing), ⟨_, _, h⟩ =>
    split at h
    · exact ⟨h.handled, Or.inl h.encrypted⟩
    · rename_i hv
      exact ⟨h.handled, Or.inr ⟨context, request, pairing, rfl, not_not.mp hv⟩⟩
  | some (.add request), ⟨_, w₁, r, f, h₁, _, hh⟩ =>
    have hf : Handled c w₁ { w₁ with flash := f } := Handled.of_client rfl rfl (Adds.refl _ _)
    exact ⟨h₁.handled.trans (hf.trans hh.handled), Or.inl (hh.encrypted.trans h₁.encrypted)⟩
  | some (.remove deviceId), ⟨_, h⟩ => exact ⟨h.handled.1, Or.inl h.handled.2⟩

theorem messageEntry_called (w : World P) (c : ClientId) : Called c w (messageEntry w c) := by
  have ht : Handled c w w.tick := Handled.of_client rfl rfl (Adds.refl _ _)
  have hc : Called c w.tick (w.tick.setClient c { w.client c with pending := none }) :=
    Called.client rfl rfl (fun he => ⟨he, rfl⟩)
  have hl : IsCallback (.completed c (w.client c).endpoint) := trivial
  exact ht.toCalled.trans (hc.trans (Handled.log hl _).toCalled)

theorem entered_handled (w : World P) (c : ClientId) (origins : List Origin) : Handled c w (entered w c origins) := by
  rcases entered_cases w c origins with h | ⟨_, _, h⟩
  · rw [h]
    exact Handled.refl c w
  · rw [h]
    exact Handled.log (e := .dispatched c (w.client c).endpoint origins) trivial w

theorem arrived_called (w : World P) (c : ClientId) : Called c w (arrived w c) :=
  (messageEntry_called w c).trans (entered_handled _ c _).toCalled

theorem messageEntry_client (w : World P) (c : ClientId) :
    (messageEntry w c).client c = { w.client c with pending := none } := setClient_self ..

theorem arrived_client (w : World P) (c : ClientId) :
    ((arrived w c).client c).pending = none ∧ ((arrived w c).client c).encrypted = (w.client c).encrypted := by
  have hcl : (arrived w c).client = (messageEntry w c).client := by
    rcases entered_cases (messageEntry w c) c ((w.client c).pending.getD []) with h | ⟨_, _, h⟩
    · rw [arrived, h]
    · rw [arrived, h]
      rfl
  rw [hcl, messageEntry_client]
  exact ⟨rfl, rfl⟩

/-- What a callback does to the message that is being read. -/
def pendingAfter (x : Client P) : ParserEvent → Option (List Origin)
  | .messageBegin => some []
  | .url .. | .body _ => x.pending
  | .messageComplete => none

/-- The callback completes an M3 that opens a session. -/
def OpensSession (w : World P) (c : ClientId) (e : ParserEvent) : Prop :=
  ∃ context request pairing, requested w (.event c e) = some (c, .verify context request pairing) ∧
    cryptoEd25519Verify P.crypto request.key request.info request.signature = 0

theorem handleEvent_called {e : ParserEvent} (hc : c < w.clientCount) (h : handleEvent w c e = .ok w') :
    Called c w w' ∧ (w'.client c).pending = pendingAfter (w.client c) e ∧
      ((w'.client c).encrypted = (w.client c).encrypted ∨ OpensSession w c e) := by
  cases e with
  | messageComplete =>
    have he := homekitServerOnMessageComplete_effect h
    obtain ⟨hh, henc⟩ := Effect.handled he
    obtain ⟨hp, ha⟩ := arrived_client w c
    refine ⟨(arrived_called w c).trans hh.toCalled, hh.pending.trans hp, ?_⟩
    refine henc.imp (fun he => he.trans ha) (fun ⟨context, request, pairing, hq, hv⟩ => ?_)
    exact ⟨context, request, pairing, by simp [requested, hc, hq], hv⟩
  | messageBegin =>
    obtain rfl := Except.ok.inj h
    exact ⟨Called.client rfl rfl (fun he => ⟨he, rfl⟩), by simp [pendingAfter], Or.inl (by simp)⟩
  | url method data behind =>
    obtain rfl := Except.ok.inj h
    exact ⟨Called.client rfl rfl (fun he => ⟨he, rfl⟩), by simp [homekitServerOnUrl, pendingAfter],
      Or.inl (by simp [homekitServerOnUrl])⟩
  | body data =>
    obtain rfl := Except.ok.inj h
    exact ⟨Called.client rfl rfl (fun he => ⟨he, rfl⟩), by simp [homekitServerOnBody, pendingAfter],
      Or.inl (by simp [homekitServerOnBody])⟩

theorem consume_called (w : World P) (c : ClientId) (origins : List Origin) : Called c w (consume w c origins) :=
  Called.client rfl rfl (fun he => ⟨he, rfl⟩)

theorem runCallbacks_called {origins : List Origin} {pos : Nat} {events : List (Nat × ParserEvent)}
    (hc : c < w.clientCount) (h : runCallbacks c origins pos events w = .ok w') : Called c w w' := by
  induction events generalizing pos w with
  | nil => exact Except.ok.inj h ▸ consume_called w c _
  | cons e events ih =>
    obtain ⟨next, event⟩ := e
    simp only [runCallbacks] at h
    split at h
    · simp at h
    · rename_i w₁ hw
      have h₁ := (handleEvent_called (w := consume w c ((origins.take next).drop pos)) hc hw).1
      exact (consume_called w c _).trans (h₁.trans (ih (h₁.clientCount ▸ hc) h))

/-- The entries around the requests of the connections. -/
def IsStill : Event → Prop
  | .completed .. | .dispatched .. => False
  | _ => True

theorem IsQuiet.isStill {e : Event} (h : IsQuiet c e) : IsStill e := by
  cases e <;> first | exact h.elim | trivial

theorem Decisive.isStill {q : Option Request} {e : Event} (h : Decisive c q e) : IsStill e := by
  match q, e, h with
  | none, .contextOpened .., _ | none, .srpVerified .., _ | none, .verifyStarted .., _ => trivial
  | some (.store ..), _, ⟨_, rfl⟩ => trivial
  | some (.verify ..), _, rfl => trivial
  | some (.remove _), _, rfl => trivial

/-- The entries that the arrival of a complete message adds. -/
theorem arrived_trace (w : World P) (c : ClientId) :
    (arrived w c).trace = (w.trace ++ [.completed c (w.client c).endpoint]) ++
      if (w.client c).encrypted && (w.client c).endpoint.isProtected then
        [.dispatched c (w.client c).endpoint ((w.client c).pending.getD [])]
      else [] := by
  have hcl := messageEntry_client w c
  unfold arrived entered
  rw [hcl]
  split
  · rfl
  · simp [messageEntry, World.log, World.tick, World.setClient]

end ArduinoHomeKit
