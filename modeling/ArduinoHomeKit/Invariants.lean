import ArduinoHomeKit.Steps

/-! Invariants of every run: the bookkeeping, the pairing context of an unpaired server, and
the sessions behind the verified connections. -/

namespace ArduinoHomeKit

open Growth Runs

variable {P : Platform} {c : ClientId} {w w' w'' : World P}

/-- Pairing attempts exist only while the server is not paired. -/
def ContextUnpaired (w : World P) : Prop := w.pairingContext ≠ none → w.paired = false

/-- A connection that was verified has an encrypted session for good. -/
def VerifiedEncrypted (w : World P) : Prop :=
  ∀ c request, .verified c request ∈ w.trace → c < w.clientCount ∧ (w.client c).encrypted = true

structure Sound (w : World P) : Prop where
  wellFormed : WellFormed w
  unpaired : ContextUnpaired w
  verified : VerifiedEncrypted w
  identity : ∀ c, Session w c → ∃ request, .verified c request ∈ w.trace

theorem Idle.sound (h : Idle w w') (hs : Sound w) : Sound w' where
  wellFormed := h.wellFormed hs.wellFormed
  unpaired hc := by
    rcases h.context with he | he
    · rw [h.paired]
      exact hs.unpaired (he ▸ hc)
    · exact absurd he hc
  verified c request hv := by
    obtain ⟨hc, he⟩ := hs.verified c request ((h.trace.mem_iff (id : ¬ IsIdle (.verified c request))).mp hv)
    exact ⟨Nat.lt_of_lt_of_le hc h.clientCount, (h.encrypted c hc).trans he⟩
  identity c hc := by
    obtain ⟨request, hv⟩ := hs.identity c (h.sessions hs.wellFormed c hc).1
    exact ⟨request, h.trace.mem hv⟩

theorem Quiet.sound (h : Quiet c w w') (hs : Sound w) : Sound w' := h.idle.sound hs

/-- Updates that leave the bookkeeping, the pairing context and the sessions alone. -/
theorem Sound.congr (hs : Sound w) (h1 : w'.clients = w.clients) (h2 : w'.clientCount = w.clientCount)
    (h3 : w'.pairingContext = w.pairingContext) (h4 : w'.contextCount = w.contextCount)
    (h5 : w'.savedPreinitPairingContext = w.savedPreinitPairingContext)
    (h6 : w'.paired = w.paired ∨ w'.paired = false ∨ w.pairingContext = none)
    (h7 : ∀ d, (w'.client d).encrypted = (w.client d).encrypted)
    (h8 : ∀ d request, .verified d request ∈ w'.trace ↔ .verified d request ∈ w.trace) : Sound w' where
  wellFormed :=
    ⟨h1 ▸ hs.wellFormed.nodup, by rw [h1, h2]; exact hs.wellFormed.bound,
      by rw [h3, h4]; exact hs.wellFormed.context, by rw [h4, h5]; exact hs.wellFormed.saved⟩
  unpaired hc := by
    rw [h3] at hc
    rcases h6 with he | he | he
    · rw [he]
      exact hs.unpaired hc
    · exact he
    · exact absurd he hc
  verified d request hv := by
    rw [h2, h7 d]
    exact hs.verified d request ((h8 d request).mp hv)
  identity d hd := by
    obtain ⟨request, hv⟩ := hs.identity d ⟨h1 ▸ hd.1, h7 d ▸ hd.2⟩
    exact ⟨request, (h8 d request).mpr hv⟩

theorem mem_log_iff_of_ne {e e' : Event} (hne : e ≠ e') : e ∈ (w.log e').trace ↔ e ∈ w.trace := by
  simp [World.log, hne]

theorem Sound.flash (hs : Sound w) (f : Flash) : Sound { w with flash := f } :=
  hs.congr rfl rfl rfl rfl rfl (Or.inl rfl) (fun _ => rfl) (fun _ _ => Iff.rfl)

theorem Sound.log (hs : Sound w) {e : Event} (he : ∀ d request, e ≠ .verified d request) : Sound (w.log e) :=
  hs.congr rfl rfl rfl rfl rfl (Or.inl rfl) (fun _ => rfl)
    (fun d request => mem_log_iff_of_ne (he d request).symm)

theorem encrypted_setClient {x : Client P} (hx : x.encrypted = (w.client c).encrypted) (d : ClientId) :
    ((w.setClient c x).client d).encrypted = (w.client d).encrypted := apply_setClient Client.encrypted hx d

theorem Sound.client (hs : Sound w) {x : Client P} (hx : x.encrypted = (w.client c).encrypted) :
    Sound (w.setClient c x) :=
  hs.congr rfl rfl rfl rfl rfl (Or.inl rfl) (encrypted_setClient hx) (fun _ _ => Iff.rfl)

theorem Sound.openContext (hs : Sound w) {k : ContextId} (hp : w.paired = false)
    (hk : w.savedPreinitPairingContext = some k) : Sound (openContext w c k) where
  wellFormed :=
    ⟨hs.wellFormed.nodup, hs.wellFormed.bound,
      fun j hj => Option.some.inj hj ▸ hs.wellFormed.saved k hk, hs.wellFormed.saved⟩
  unpaired _ := hp
  verified d request hv := hs.verified d request ((mem_log_iff_of_ne (by simp)).mp hv)
  identity d hd := by
    obtain ⟨request, hv⟩ := hs.identity d hd
    exact ⟨request, (mem_log_iff_of_ne (by simp)).mpr hv⟩

theorem openSession_of_ne {d : ClientId} {request : SignedRequest} {pairing : Pairing} (hd : d ≠ c) :
    (openSession w c request pairing).client d = w.client d := setClient_of_ne hd ..

theorem openSession_self {request : SignedRequest} {pairing : Pairing} :
    (openSession w c request pairing).client c =
      { w.client c with
        pairingId := pairing.id
        permissions := pairing.permissions
        encrypted := true
        step := .pairVerify2Of2 } := setClient_self ..

theorem Sound.openSession (hs : Sound w) {request : SignedRequest} {pairing : Pairing}
    (hc : c < w.clientCount) : Sound (openSession w c request pairing) where
  wellFormed := ⟨hs.wellFormed.nodup, hs.wellFormed.bound, hs.wellFormed.context, hs.wellFormed.saved⟩
  unpaired := hs.unpaired
  verified d q hv := by
    by_cases hd : d = c
    · subst hd
      exact ⟨hc, by rw [openSession_self]⟩
    · have hmem := (mem_log_iff_of_ne (fun he => hd (Event.verified.inj he).1)).mp hv
      obtain ⟨h1, h2⟩ := hs.verified d q hmem
      exact ⟨h1, by rw [openSession_of_ne hd, h2]⟩
  identity d hd := by
    by_cases hdc : d = c
    · exact ⟨request, by simp [ArduinoHomeKit.openSession, World.log, hdc]⟩
    · obtain ⟨q, hv⟩ := hs.identity d ⟨hd.1, openSession_of_ne hdc ▸ hd.2⟩
      exact ⟨q, (mem_log_iff_of_ne (fun he => hdc (Event.verified.inj he).1)).mpr hv⟩

theorem Sound.startVerify (hs : Sound w) {context : PairVerifyContext} : Sound (startVerify w c context) :=
  hs.congr rfl rfl rfl rfl rfl (Or.inl rfl) (encrypted_setClient rfl)
    (fun _ _ => mem_log_iff_of_ne (by simp))

/-- What marking does to the client `d`: the mark, if its session has the pairing. -/
theorem markDisconnected_client (w : World P) (id : Int) (d : ClientId) :
    (markDisconnected w id).client d =
      if d ∈ w.clients ∧ (w.client d).pairingId = id then { w.client d with disconnect := true }
      else w.client d := by
  unfold markDisconnected
  have hgen : ∀ (l : List ClientId) (v : World P),
      (l.foldl (fun w c => if (w.client c).pairingId = id then
        w.setClient c { w.client c with disconnect := true } else w) v).client d =
        if d ∈ l ∧ (v.client d).pairingId = id then { v.client d with disconnect := true }
        else v.client d := by
    intro l
    induction l with
    | nil => intro v; simp
    | cons c l ih =>
      intro v
      rw [List.foldl_cons, ih]
      by_cases hm : (v.client c).pairingId = id
      · rw [if_pos hm]
        by_cases hd : d = c
        · subst hd
          simp [hm]
        · simp [setClient_of_ne hd, hd]
      · rw [if_neg hm]
        by_cases hd : d = c
        · subst hd
          simp [hm]
        · simp [hd]
  exact hgen w.clients w

theorem markDisconnected_frame (w : World P) (id : Int) :
    ∃ client, markDisconnected w id = { w with client := client } := by
  unfold markDisconnected
  have hgen : ∀ (l : List ClientId) (v : World P),
      ∃ client, l.foldl (fun w c => if (w.client c).pairingId = id then
        w.setClient c { w.client c with disconnect := true } else w) v = { v with client := client } := by
    intro l
    induction l with
    | nil => intro v; exact ⟨v.client, rfl⟩
    | cons c l ih =>
      intro v
      rw [List.foldl_cons]
      split
      · obtain ⟨client, he⟩ := ih (v.setClient c { v.client c with disconnect := true })
        exact ⟨client, he⟩
      · exact ih v
  exact hgen w.clients w

structure Revokes (c : ClientId) (deviceId : Bytes) (pairing : Pairing) (f : Flash) (w w' : World P) : Prop where
  flash : w'.flash = f
  clients : w'.clients = w.clients
  clientCount : w'.clientCount = w.clientCount
  pairingContext : w'.pairingContext = w.pairingContext
  contexts : w'.contexts = w.contexts
  contextCount : w'.contextCount = w.contextCount
  saved : w'.savedPreinitPairingContext = w.savedPreinitPairingContext
  paired : w'.paired =
    if isAdmin pairing.permissions && !homekitIsPaired P.crypto P.env.flash f then false else w.paired
  client : ∀ d, w'.client d =
    if d ∈ w.clients ∧ (w.client d).pairingId = pairing.id then { w.client d with disconnect := true }
    else w.client d
  trace : w'.trace = w.trace ++ [.pairingRemoved c deviceId]

theorem revoke_revokes (w : World P) (c : ClientId) (deviceId : Bytes) (pairing : Pairing) (f : Flash) :
    Revokes c deviceId pairing f w (revoke w c deviceId pairing f) := by
  have hcl := markDisconnected_client ({ w with flash := f }.log (.pairingRemoved c deviceId)) pairing.id
  obtain ⟨client, he⟩ := markDisconnected_frame ({ w with flash := f }.log (.pairingRemoved c deviceId)) pairing.id
  unfold revoke
  rw [he] at hcl ⊢
  dsimp only at hcl ⊢
  by_cases hp : (isAdmin pairing.permissions && !homekitIsPaired P.crypto P.env.flash
      ({ w with flash := f }.log (.pairingRemoved c deviceId)).flash) = true
  · rw [if_pos hp]
    exact ⟨rfl, rfl, rfl, rfl, rfl, rfl, rfl, (if_pos hp).symm, hcl, rfl⟩
  · rw [if_neg hp]
    exact ⟨rfl, rfl, rfl, rfl, rfl, rfl, rfl, (if_neg hp).symm, hcl, rfl⟩

theorem Revokes.encrypted {deviceId : Bytes} {pairing : Pairing} {f : Flash}
    (h : Revokes c deviceId pairing f w w') (d : ClientId) :
    (w'.client d).encrypted = (w.client d).encrypted := by
  rw [h.client d]
  split <;> rfl

theorem Sound.revoke (hs : Sound w) {deviceId : Bytes} {pairing : Pairing} {f : Flash} :
    Sound (revoke w c deviceId pairing f) := by
  have h := revoke_revokes w c deviceId pairing f
  refine hs.congr h.clients h.clientCount h.pairingContext h.contextCount h.saved ?_ h.encrypted ?_
  · rw [h.paired]
    split
    · exact Or.inr (Or.inl rfl)
    · exact Or.inl rfl
  · intro d request
    rw [h.trace]
    simp

theorem Passive.sound (h : Passive c w w') (hs : Sound w) : Sound w' := by
  cases h with
  | quiet h => exact h.sound hs
  | opened w₁ k h hp hn hk hh => exact hh.sound ((h.sound hs).openContext hp hk)
  | proved w₁ w₂ k h hk hq hh =>
    exact hh.sound ((hq.sound ((h.sound hs).log (by simp))).client rfl)
  | started w₁ context h hh =>
    exact hh.sound (h.sound hs).startVerify

theorem Stored.sound {k : ContextId} {s : Bytes} {request : SignedRequest}
    (h : Stored c k s request w w') (hs : Sound w) : Sound w' := by
  cases h with
  | failed w₁ r f h _ _ hh => exact hh.sound (((h.sound hs).flash f).log (by simp))
  | finished w₁ w₂ f h _ _ hq hn hh =>
    have h₂ := hq.sound (((h.sound hs).flash f).log (e := .addPairing k c request 0) (by simp))
    exact hh.sound (h₂.congr rfl rfl rfl rfl rfl (Or.inr (Or.inr hn)) (fun _ => rfl) (fun _ _ => Iff.rfl))

theorem Effect.sound {q : Option Request} (hc : c < w.clientCount) (h : Effect c w w' q) (hs : Sound w) :
    Sound w' := by
  match q, h with
  | none, h => exact Passive.sound h hs
  | some (.store k s request), ⟨_, h⟩ =>
    split at h
    · exact h.sound hs
    · exact h.sound hs
  | some (.verify context request pairing), ⟨_, _, h⟩ =>
    split at h
    · exact h.sound hs
    · obtain ⟨w₁, h₁, _, hh⟩ := h
      exact hh.sound ((h₁.sound hs).openSession (h₁.clientCount ▸ hc))
  | some (.add request), ⟨_, w₁, r, f, h₁, _, hh⟩ => exact hh.sound ((h₁.sound hs).flash f)
  | some (.remove deviceId), ⟨_, h⟩ =>
    cases h with
    | absent _ h => exact h.sound hs
    | refused w₁ r f h₁ _ _ hh => exact hh.sound ((h₁.sound hs).flash f)
    | done w₁ f pairing h₁ _ _ hh => exact hh.sound (h₁.sound hs).revoke

theorem step_sound {a : Action P} (hs : Sound w) (h : step w a = .ok w') : Sound w' := by
  rcases step_cases h with ⟨_, hi⟩ | ⟨c, q, _, hc, _, he⟩
  · exact hi.sound hs
  · have hi := arrived_idle w c
    exact he.sound (Nat.lt_of_lt_of_le hc hi.clientCount) (hi.sound hs)

theorem serverBoot_sound (accessoryId : Bytes) (accessoryKey : Ed25519Key) (password : Option Bytes)
    (flash : Flash) (app : P.App) (clients : ClientId → Client P) (contexts : ContextId → PairingContext) :
    Sound (serverBoot accessoryId accessoryKey password flash app clients contexts) where
  wellFormed := serverBoot_wellFormed accessoryId accessoryKey password flash app clients contexts
  unpaired h := absurd rfl h
  verified _ _ h := absurd h List.not_mem_nil
  identity _ h := absurd h.1 List.not_mem_nil

end ArduinoHomeKit
