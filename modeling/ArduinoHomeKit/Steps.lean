import ArduinoHomeKit.Messages

/-! What one action of the server can do. Most actions are idle for pairings and sessions;
a complete message has the effect of its request. -/

namespace ArduinoHomeKit

open Growth Runs

variable {P : Platform} {c : ClientId} {w w' w'' : World P}

/-- The bookkeeping that every reachable state keeps. -/
structure WellFormed (w : World P) : Prop where
  nodup : w.clients.Nodup
  bound : ∀ d ∈ w.clients, d < w.clientCount
  context : ∀ k, w.pairingContext = some k → k < w.contextCount
  saved : ∀ k, w.savedPreinitPairingContext = some k → k < w.contextCount

/-- An open connection with a verified session. -/
def Session (w : World P) (d : ClientId) : Prop := d ∈ w.clients ∧ (w.client d).encrypted = true

structure SameSession (x y : Client P) : Prop where
  pairingId : y.pairingId = x.pairingId
  permissions : y.permissions = x.permissions
  disconnect : y.disconnect = x.disconnect

/-- The entries of the log that tell nothing about pairings and sessions. -/
def IsIdle : Event → Prop
  | .contextOpened .. | .srpVerified .. | .addPairing .. | .verifyStarted .. | .verified ..
  | .pairingRemoved .. => False
  | _ => True

structure Idle (w w' : World P) : Prop extends Attempts w w' where
  flash : w'.flash = w.flash
  paired : w'.paired = w.paired
  clientCount : w.clientCount ≤ w'.clientCount
  encrypted : ∀ d < w.clientCount, (w'.client d).encrypted = (w.client d).encrypted
  verifyContext : ∀ d, (w'.client d).verifyContext = (w.client d).verifyContext ∨
    (w'.client d).verifyContext = none
  accepted : ∀ d < w'.clientCount, w.clientCount ≤ d → (w'.client d).verifyContext = none
  proof : ∀ d, (w'.client d).step = .pairSetup2Of3 → (w.client d).step = .pairSetup2Of3
  wellFormed : WellFormed w → WellFormed w'
  sessions : WellFormed w → ∀ d, Session w' d → Session w d ∧ SameSession (w.client d) (w'.client d)
  trace : Adds IsIdle w.trace w'.trace

theorem SameSession.refl (x : Client P) : SameSession x x := ⟨rfl, rfl, rfl⟩

theorem Idle.refl (w : World P) : Idle w w where
  toAttempts := Attempts.refl w
  flash := rfl
  paired := rfl
  clientCount := Nat.le_refl _
  encrypted _ _ := rfl
  verifyContext _ := Or.inl rfl
  accepted _ h hh := absurd h (Nat.not_lt_of_le hh)
  proof _ h := h
  wellFormed h := h
  sessions _ _ h := ⟨h, SameSession.refl _⟩
  trace := Adds.refl _ _

theorem Idle.trans (h : Idle w w') (hh : Idle w' w'') : Idle w w'' where
  toAttempts := h.toAttempts.trans hh.toAttempts
  flash := hh.flash.trans h.flash
  paired := hh.paired.trans h.paired
  clientCount := Nat.le_trans h.clientCount hh.clientCount
  encrypted d hd := (hh.encrypted d (Nat.lt_of_lt_of_le hd h.clientCount)).trans (h.encrypted d hd)
  verifyContext d := by
    rcases hh.verifyContext d with he | he
    · exact he ▸ h.verifyContext d
    · exact Or.inr he
  accepted d hd hdw := by
    by_cases hd' : d < w'.clientCount
    · have hn := h.accepted d hd' hdw
      rcases hh.verifyContext d with he | he
      · exact he.trans hn
      · exact he
    · exact hh.accepted d hd (Nat.le_of_not_lt hd')
  proof d hd := h.proof d (hh.proof d hd)
  wellFormed hw := hh.wellFormed (h.wellFormed hw)
  sessions hw d hd := by
    obtain ⟨h1, s1⟩ := hh.sessions (h.wellFormed hw) d hd
    obtain ⟨h2, s2⟩ := h.sessions hw d h1
    exact ⟨h2, s1.pairingId.trans s2.pairingId, s1.permissions.trans s2.permissions,
      s1.disconnect.trans s2.disconnect⟩
  trace := h.trace.trans hh.trace

theorem IsQuiet.isIdle {e : Event} (h : IsQuiet c e) : IsIdle e := by
  cases e <;> first | exact h.elim | trivial

theorem link_clients (h : Linked c w w' ∨ Unlinked c w w') : w'.clients.Sublist w.clients := by
  rcases h with h | h
  · exact h.clients ▸ List.Sublist.refl _
  · exact h.clients ▸ List.erase_sublist

theorem Quiet.wellFormed (h : Quiet c w w') (hw : WellFormed w) : WellFormed w' where
  nodup := hw.nodup.sublist (link_clients h.link)
  bound d hd := h.clientCount ▸ hw.bound d ((link_clients h.link).subset hd)
  context k hk := by
    rcases h.context with he | he
    · exact Nat.lt_of_lt_of_le (hw.context k (he ▸ hk)) h.contextCount
    · simp [he] at hk
  saved k hk := by
    rcases h.saved k hk with hs | hs
    · exact Nat.lt_of_lt_of_le (hw.saved k hs) h.contextCount
    · exact hs.2

theorem Quiet.idle (h : Quiet c w w') : Idle w w' where
  toAttempts := h.toAttempts
  flash := h.flash
  paired := h.paired
  clientCount := Nat.le_of_eq h.clientCount.symm
  encrypted d _ := by
    by_cases hd : d = c
    · exact hd ▸ h.encrypted
    · rw [h.other d hd]
  verifyContext d := by
    by_cases hd : d = c
    · exact hd ▸ h.verifyContext
    · exact Or.inl (by rw [h.other d hd])
  accepted d hd hdw := absurd (h.clientCount ▸ hd) (Nat.not_lt_of_le hdw)
  proof d := by
    by_cases hd : d = c
    · exact hd ▸ h.proof
    · rw [h.other d hd]; exact id
  wellFormed := h.wellFormed
  sessions hw d hs := by
    have hmem := (link_clients h.link).subset hs.1
    by_cases hd : d = c
    · subst hd
      have hl : Linked d w w' := by
        rcases h.link with hl | hu
        · exact hl
        · exact absurd (hu.clients ▸ hs.1) hw.nodup.not_mem_erase
      have hp := congrArg Client.pairingId h.kept
      have hr := congrArg Client.permissions h.kept
      exact ⟨⟨hmem, h.encrypted ▸ hs.2⟩, hp, hr, hl.disconnect⟩
    · have he := h.other d hd
      exact ⟨⟨hmem, he ▸ hs.2⟩, by rw [he]; exact SameSession.refl _⟩
  trace := h.trace.mono (fun _ he => he.isIdle)

/-- Changes of one client outside its session. -/
theorem Idle.client {x : Client P} (he : x.encrypted = (w.client c).encrypted)
    (hs : SameSession (w.client c) x)
    (hv : x.verifyContext = (w.client c).verifyContext) (hp : x.step = (w.client c).step) :
    Idle w (w.setClient c x) :=
  have hcases : ∀ d, (w.setClient c x).client d = w.client d ∨
      d = c ∧ (w.setClient c x).client d = x := by
    intro d
    by_cases hd : d = c
    · exact Or.inr ⟨hd, hd ▸ setClient_self w c x⟩
    · exact Or.inl (setClient_of_ne hd w x)
  { Idle.refl w with
    encrypted := fun d _ => by
      rcases hcases d with h | ⟨rfl, h⟩
      · rw [h]
      · rw [h, he]
    verifyContext := fun d => by
      rcases hcases d with h | ⟨rfl, h⟩
      · exact Or.inl (by rw [h])
      · exact Or.inl (by rw [h, hv])
    accepted := fun _ hd hdw => absurd hd (Nat.not_lt_of_le hdw)
    proof := fun d => by
      rcases hcases d with h | ⟨rfl, h⟩
      · rw [h]; exact id
      · rw [h, hp]; exact id
    wellFormed := fun hw => ⟨hw.nodup, hw.bound, hw.context, hw.saved⟩
    sessions := fun _ d hd => by
      rcases hcases d with h | ⟨rfl, h⟩
      · exact ⟨⟨hd.1, h ▸ hd.2⟩, by rw [h]; exact SameSession.refl _⟩
      · exact ⟨⟨hd.1, by rw [← he, ← h]; exact hd.2⟩, by rw [h]; exact hs⟩ }

theorem Idle.log {e : Event} (he : IsIdle e) (w : World P) : Idle w (w.log e) :=
  { Idle.refl w with
    wellFormed := fun hw => ⟨hw.nodup, hw.bound, hw.context, hw.saved⟩
    sessions := fun _ _ h => ⟨h, SameSession.refl _⟩
    trace := Adds.single _ he }

theorem Idle.tick (w : World P) : Idle w w.tick :=
  { Idle.refl w with
    wellFormed := fun hw => ⟨hw.nodup, hw.bound, hw.context, hw.saved⟩
    sessions := fun _ _ h => ⟨h, SameSession.refl _⟩ }

theorem homekitServerAcceptClient_idle (w : World P) (raw : Client P) :
    Idle w (homekitServerAcceptClient w raw) := by
  unfold homekitServerAcceptClient
  split
  · exact Idle.refl w
  · have hcases : ∀ d, Function.update w.client w.clientCount (clientContextNew raw) d = w.client d ∨
        d = w.clientCount ∧
          Function.update w.client w.clientCount (clientContextNew raw) d = clientContextNew raw := by
      intro d
      by_cases hd : d = w.clientCount
      · exact Or.inr ⟨hd, hd ▸ Function.update_self ..⟩
      · exact Or.inl (Function.update_of_ne hd ..)
    refine { Idle.refl w with
      clientCount := Nat.le_succ _
      encrypted := fun d hd => congrArg Client.encrypted (Function.update_of_ne (Nat.ne_of_lt hd) ..)
      verifyContext := fun d => ?_
      accepted := fun d hd hdw => ?_
      proof := fun d hp => ?_
      wellFormed := fun hw => ?_
      sessions := fun hw d hd => ?_
      trace := Adds.single _ (by trivial : IsIdle (.connected _)) }
    · rcases hcases d with h | ⟨_, h⟩
      · exact Or.inl (congrArg Client.verifyContext h)
      · exact Or.inr (congrArg Client.verifyContext h)
    · obtain rfl : d = w.clientCount := Nat.le_antisymm (Nat.le_of_lt_succ hd) hdw
      have hnew : Function.update w.client w.clientCount (clientContextNew raw) w.clientCount =
          clientContextNew raw := Function.update_self ..
      exact congrArg Client.verifyContext hnew
    · rcases hcases d with h | ⟨_, h⟩
      · exact (congrArg Client.step h) ▸ hp
      · have := (congrArg Client.step h).symm.trans hp
        simp [clientContextNew] at this
    · refine ⟨List.nodup_cons.mpr ⟨fun h => Nat.lt_irrefl _ (hw.bound _ h), hw.nodup⟩, ?_, hw.context, hw.saved⟩
      intro d hd
      rcases List.mem_cons.mp hd with rfl | hd
      · exact Nat.lt_succ_self _
      · exact Nat.lt_succ_of_lt (hw.bound d hd)
    · obtain ⟨hmem, he⟩ := hd
      have he' : (Function.update w.client w.clientCount (clientContextNew raw) d).encrypted = true := he
      by_cases hd : d = w.clientCount
      · subst hd
        rw [Function.update_self] at he'
        simp [clientContextNew] at he'
      · have h : Function.update w.client w.clientCount (clientContextNew raw) d = w.client d :=
          Function.update_of_ne hd ..
        have hmem' : d ∈ w.clients := (List.mem_cons.mp hmem).resolve_left hd
        exact ⟨⟨hmem', h ▸ he'⟩, congrArg Client.pairingId h, congrArg Client.permissions h,
          congrArg Client.disconnect h⟩

theorem close_idle (w : World P) (c : ClientId) :
    Idle w (homekitServerCloseClient (w.setClient c { w.client c with disconnect := true }) c) := by
  have h := homekitServerCloseClient_closes (w.setClient c { w.client c with disconnect := true }) c
  set w' := homekitServerCloseClient (w.setClient c { w.client c with disconnect := true }) c
  have hother : ∀ d, d ≠ c → w'.client d = w.client d := by
    intro d hd
    rw [h.client, Function.update_of_ne hd, setClient_of_ne hd]
  have hself : w'.client c = { w.client c with disconnect := true, step := .done, socket := none } := by
    rw [h.client, Function.update_self, setClient_self]
  have hclients : w'.clients = w.clients.erase c := h.clients
  refine { Idle.refl w with
    flash := h.flash
    paired := h.paired
    context := h.pairingContext
    contextCount := Nat.le_of_eq h.contextCount.symm
    saved := fun k hk => by
      rcases h.saved with he | he
      · exact Or.inl (he ▸ hk)
      · simp [he] at hk
    dropped := fun k _ => h.dropped k
    owners := fun k _ => by rw [h.contexts]; rfl
    clientCount := Nat.le_of_eq h.clientCount.symm
    encrypted := fun d _ => ?_
    verifyContext := fun d => ?_
    accepted := fun d hd hdw => absurd (h.clientCount ▸ hd) (Nat.not_lt_of_le hdw)
    proof := fun d hp => ?_
    wellFormed := fun hw => ⟨?_, ?_, ?_, ?_⟩
    sessions := fun hw d hd => ?_
    trace := h.trace.mono (fun _ he => he.isQuiet.isIdle) }
  · by_cases hd : d = c
    · rw [hd, hself]
    · rw [hother d hd]
  · by_cases hd : d = c
    · exact Or.inl (by rw [hd, hself])
    · exact Or.inl (by rw [hother d hd])
  · by_cases hd : d = c
    · rw [hd, hself] at hp
      simp at hp
    · rwa [← hother d hd]
  · exact hclients ▸ hw.nodup.erase c
  · intro d hd
    rw [h.clientCount]
    exact hw.bound d (List.mem_of_mem_erase (hclients ▸ hd))
  · intro k hk
    rw [h.contextCount]
    rcases h.pairingContext with he | he
    · exact hw.context k (he ▸ hk)
    · simp [he] at hk
  · intro k hk
    rw [h.contextCount]
    rcases h.saved with he | he
    · exact hw.saved k (he ▸ hk)
    · simp [he] at hk
  · obtain ⟨hmem, he⟩ := hd
    rw [hclients] at hmem
    have hne : d ≠ c := fun hdc => hw.nodup.not_mem_erase (hdc ▸ hmem)
    rw [hother d hne] at he ⊢
    exact ⟨⟨List.mem_of_mem_erase hmem, he⟩, SameSession.refl _⟩

theorem processNotifications_quiet (w : World P) (c : ClientId) : Quiet c w (processNotifications w c) := by
  unfold processNotifications
  split
  · exact Quiet.refl c w
  · exact (Quiet.app w c _).trans (sendAll_sends _ c _).quiet

/-- The world after the entry of a complete message, with the dispatch logged. -/
def arrived (w : World P) (c : ClientId) : World P :=
  entered (messageEntry w c) c ((w.client c).pending.getD [])

theorem messageEntry_idle (w : World P) (c : ClientId) : Idle w (messageEntry w c) := by
  have h : Idle w.tick (w.tick.setClient c { w.client c with pending := none }) :=
    Idle.client rfl ⟨rfl, rfl, rfl⟩ rfl rfl
  exact ((Idle.tick w).trans h).trans (Idle.log (e := .completed c (w.client c).endpoint) trivial _)

theorem entered_cases (w : World P) (c : ClientId) (origins : List Origin) :
    entered w c origins = w ∨
      (w.client c).encrypted = true ∧ (w.client c).endpoint.isProtected = true ∧
        entered w c origins = w.log (.dispatched c (w.client c).endpoint origins) := by
  unfold entered
  split
  · rename_i h
    simp only [Bool.and_eq_true] at h
    exact Or.inr ⟨h.1, h.2, rfl⟩
  · exact Or.inl rfl

theorem arrived_idle (w : World P) (c : ClientId) : Idle w (arrived w c) := by
  unfold arrived
  rcases entered_cases (messageEntry w c) c ((w.client c).pending.getD []) with h | ⟨_, _, h⟩
  · rw [h]
    exact messageEntry_idle w c
  · rw [h]
    exact (messageEntry_idle w c).trans (Idle.log (e := .dispatched c _ _) trivial _)

/-- An action with no request is idle or a passive message. -/
theorem step_cases {a : Action P} (h : step w a = .ok w') :
    (requested w a = none ∧ Idle w w') ∨
      ∃ c q, a = .event c .messageComplete ∧ c < w.clientCount ∧
        requested w a = q.map (fun r => (c, r)) ∧ Effect c (arrived w c) w' q := by
  have hcl : ∀ (c : ClientId) (x : Client P), x.encrypted = (w.client c).encrypted →
      SameSession (w.client c) x → x.verifyContext = (w.client c).verifyContext →
      x.step = (w.client c).step → Idle w (w.setClient c x) :=
    fun c x he hs hv hp => Idle.client he hs hv hp
  cases a with
  | accept raw => exact Or.inl ⟨rfl, Except.ok.inj h ▸ homekitServerAcceptClient_idle w raw⟩
  | preinit =>
    exact Or.inl ⟨rfl, Except.ok.inj h ▸ (Idle.tick w).trans (arduinoHomekitPreinit_quiet w.tick 0).idle⟩
  | tick => exact Or.inl ⟨rfl, Except.ok.inj h ▸ Idle.tick w⟩
  | parsed c payload => exact Or.inl ⟨rfl, Except.ok.inj h ▸ Idle.log (e := .parsed c payload) trivial w⟩
  | buffer c b =>
    refine Or.inl ⟨rfl, ?_⟩
    simp only [step] at h
    split at h
    · exact Except.ok.inj h ▸ hcl c _ rfl ⟨rfl, rfl, rfl⟩ rfl rfl
    · exact Except.ok.inj h ▸ Idle.refl w
  | close c =>
    refine Or.inl ⟨rfl, ?_⟩
    simp only [step] at h
    split at h
    · exact Except.ok.inj h ▸ close_idle w c
    · exact Except.ok.inj h ▸ Idle.refl w
  | notify c =>
    refine Or.inl ⟨rfl, ?_⟩
    simp only [step] at h
    split at h
    · exact Except.ok.inj h ▸ (processNotifications_quiet w c).idle
    · exact Except.ok.inj h ▸ Idle.refl w
  | event c e =>
    by_cases hc : c < w.clientCount
    · simp only [step, hc, if_true] at h
      cases e with
      | messageBegin => exact Or.inl ⟨rfl, Except.ok.inj h ▸ hcl c _ rfl ⟨rfl, rfl, rfl⟩ rfl rfl⟩
      | url method data behind => exact Or.inl ⟨rfl, Except.ok.inj h ▸ hcl c _ rfl ⟨rfl, rfl, rfl⟩ rfl rfl⟩
      | body data => exact Or.inl ⟨rfl, Except.ok.inj h ▸ hcl c _ rfl ⟨rfl, rfl, rfl⟩ rfl rfl⟩
      | messageComplete =>
        exact Or.inr ⟨c, _, rfl, hc, by simp only [requested, hc, if_true],
          homekitServerOnMessageComplete_effect h⟩
    · simp only [step, hc, if_false] at h
      refine Or.inl ⟨?_, Except.ok.inj h ▸ Idle.refl w⟩
      cases e <;> simp [requested, hc]

theorem serverBoot_wellFormed (accessoryId : Bytes) (accessoryKey : Ed25519Key) (password : Option Bytes)
    (flash : Flash) (app : P.App) (clients : ClientId → Client P) (contexts : ContextId → PairingContext) :
    WellFormed (serverBoot accessoryId accessoryKey password flash app clients contexts) :=
  ⟨List.nodup_nil, by simp [serverBoot], by simp [serverBoot], by simp [serverBoot]⟩

end ArduinoHomeKit
