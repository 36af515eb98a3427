import ArduinoHomeKit.Signatures
import ArduinoHomeKit.Updates

/-! Pair-verify as a one-shot handshake. A verify context is made by an M1 and spent by the
next M3, however that ends, and a connection that is encrypted stays so and never comes here
again. -/

namespace ArduinoHomeKit

open Growth Runs

variable {P : Platform} {c d : ClientId} {w w' w'' : World P} {message : List Tlv} {context : PairVerifyContext}

/-- The message of a complete pair-verify request on a connection that is still plain. -/
def verifyMessage (w : World P) (c : ClientId) : Option (List Tlv) :=
  if (w.client c).encrypted = false ∧ (w.client c).endpoint = .pairVerify then
    (tlvParse (bufferOf ((w.client c).body ++ [0]) (behind w 0)) (w.client c).body.length).toOption
  else none

/-- The action is a pair-verify M3 of the connection. -/
def IsVerifyM3 (w : World P) (a : Action P) (c : ClientId) : Prop :=
  a = .event c .messageComplete ∧ c < w.clientCount ∧
    ∃ message, verifyMessage (messageEntry w c) c = some message ∧ messageState message = 3

/-- An M1 of the connection was answered with M2, and left this context. -/
def StartsVerify (c : ClientId) (context : PairVerifyContext) (w w' : World P) : Prop :=
  .verifyStarted c context.devicePublicKey context.accessoryPublicKey ∈ news w w' ∧
    (w'.client c).verifyContext = some context

/-- The run `as` from `s` has made this context in the last M1 of the connection that succeeded,
and no M3 has come since. -/
def LastStarted (s : World P) (as : List (Action P)) (c : ClientId) (context : PairVerifyContext) : Prop :=
  ∃ bs b cs v v', as = bs ++ b :: cs ∧ run step s bs = .ok v ∧ step v b = .ok v' ∧
    StartsVerify c context v v' ∧
    Always step (fun u a u' => (∀ x y, .verifyStarted c x y ∉ news u u') ∧ ¬ IsVerifyM3 u a c) v' cs

/-- What one more action of a run does to the handshake of a connection. -/
structure OneShot (s : World P) (as : List (Action P)) (w : World P) (a : Action P) (w' : World P)
    (c : ClientId) : Prop where
  opened : (w.client c).encrypted = false → (w'.client c).encrypted = true → IsVerifyM3 w a c ∧
    ∃ context request pairing, requested w a = some (c, .verify context request pairing) ∧ LastStarted s as c context
  spent : IsVerifyM3 w a c → (w'.client c).verifyContext = none
  lasting : (w.client c).encrypted = true → (w'.client c).encrypted = true
  ended : (w.client c).encrypted = true → (w.client c).endpoint = .pairVerify →
    step w (.event c .messageComplete) = .ok (messageEnd (send404Response (messageEntry w c) c) c)

theorem news_of_adds {p q : Event → Prop} (h : Adds p w.trace w'.trace) (hh : Adds q w'.trace w''.trace) :
    news w w'' = news w w' ++ news w' w'' := by
  obtain ⟨es, he, _⟩ := h
  obtain ⟨fs, hf, _⟩ := hh
  simp [news, he, hf]

/-! An M3. -/

theorem verifyMessage_some (h : verifyMessage w c = some message) :
    (w.client c).encrypted = false ∧ (w.client c).endpoint = .pairVerify ∧
      tlvParse (bufferOf ((w.client c).body ++ [0]) (behind w 0)) (w.client c).body.length = .ok message := by
  unfold verifyMessage at h
  split at h
  · rename_i hs
    refine ⟨hs.1, hs.2, ?_⟩
    cases hp : tlvParse (bufferOf ((w.client c).body ++ [0]) (behind w 0)) (w.client c).body.length with
    | error e => simp [hp, Except.toOption] at h
    | ok m => simpa [hp, Except.toOption] using h
  · simp at h

theorem sendTlvResponse_verifyContext (w : World P) (c : ClientId) (values : List Tlv) :
    ((sendTlvResponse w c values).client c).verifyContext = (w.client c).verifyContext := by
  have h := congrArg Client.verifyContext (sendTlvResponse_sends w c values).core
  exact h

theorem freeVerifyContext_error_spent (w : World P) (c : ClientId) (error : TLVError) :
    ((sendTlvErrorResponse (freeVerifyContext w c) c 4 error).client c).verifyContext = none := by
  have h := sendTlvResponse_verifyContext (freeVerifyContext w c) c (tlvErrorResponse 4 error)
  rw [sendTlvErrorResponse, h, freeVerifyContext, setClient_self]

/-- Every exit behind the signature check frees the context. -/
theorem pairVerifyM4_spent (w : World P) (c : ClientId) (context : PairVerifyContext) (request : SignedRequest)
    (pairing : Pairing) : ((pairVerifyM4 w c context request pairing).client c).verifyContext = none := by
  unfold pairVerifyM4
  split
  · exact freeVerifyContext_error_spent w c _
  · dsimp only
    split
    · exact freeVerifyContext_error_spent _ c _
    · rw [World.log, setClient_self]
      dsimp only
      rw [sendTlvResponse_verifyContext, freeVerifyContext, setClient_self]

theorem pairVerifyM3_spent (h : pairVerifyM3 w c message = .ok w') : (w'.client c).verifyContext = none := by
  unfold pairVerifyM3 at h
  split at h
  · rename_i hn
    obtain rfl := Except.ok.inj h
    rw [sendTlvErrorResponse, sendTlvResponse_verifyContext]
    exact hn
  · split at h
    · simp at h
    · exact Except.ok.inj h ▸ freeVerifyContext_error_spent w c _
    · split at h
      · exact Except.ok.inj h ▸ freeVerifyContext_error_spent w c _
      · exact Except.ok.inj h ▸ pairVerifyM4_spent w c _ _ _

theorem messageEnd_verifyContext (w : World P) (c : ClientId) :
    ((messageEnd w c).client c).verifyContext = (w.client c).verifyContext := by
  unfold messageEnd
  rw [setClient_self]
  split <;> rfl

/-- After an M3 the context is gone, whatever came of it. -/
theorem isVerifyM3_spent {a : Action P} (ha : IsVerifyM3 w a c) (h : step w a = .ok w') :
    (w'.client c).verifyContext = none := by
  obtain ⟨rfl, hc, message, hm, h3⟩ := ha
  obtain ⟨he, hep, hparse⟩ := verifyMessage_some hm
  have h3' : tlvGetIntegerValue message TLVType.state (-1) = 3 := h3
  have hp : homekitServerOnPairVerify (messageEntry w c) c ((messageEntry w c).client c).body =
      pairVerifyM3 (restarted (messageEntry w c) c) c message := by
    have hb : behind (restarted (messageEntry w c) c) 0 = behind (messageEntry w c) 0 := rfl
    unfold homekitServerOnPairVerify
    rw [← restarted]
    dsimp only
    rw [hb, hparse]
    simp [h3']
  simp only [step, hc, if_true, handleEvent, homekitServerOnMessageComplete, handleMessage, he, hep, hp] at h
  cases hr : pairVerifyM3 (restarted (messageEntry w c) c) c message with
  | error e => simp [hr, Except.map] at h
  | ok v =>
    simp only [hr, Except.map, Except.ok.injEq] at h
    rw [← h, messageEnd_verifyContext]
    exact pairVerifyM3_spent hr

/-! Where contexts come from. -/

/-- A context was there before, or is the one of an M1 just answered. -/
def VerifySource (w w' : World P) : Prop :=
  ∀ d < w'.clientCount, ∀ context, (w'.client d).verifyContext = some context →
    d < w.clientCount ∧ (w.client d).verifyContext = some context ∨
      .verifyStarted d context.devicePublicKey context.accessoryPublicKey ∈ news w w'

theorem Unverified.source (h : Unverified w w') : VerifySource w w' := by
  intro d hd context hc
  rcases h.verifyContext d hd with ⟨hdw, he⟩ | he
  · exact Or.inl ⟨hdw, he ▸ hc⟩
  · simp [he] at hc

theorem VerifySource.trans {p q : Event → Prop} (h : VerifySource w w') (hh : VerifySource w' w'')
    (ha : Adds p w.trace w'.trace) (hb : Adds q w'.trace w''.trace) : VerifySource w w'' := by
  intro d hd context hc
  rw [news_of_adds ha hb]
  rcases hh d hd context hc with ⟨hd', hc'⟩ | hm
  · exact (h d hd' context hc').imp id (fun hm => List.mem_append_left _ hm)
  · exact Or.inr (List.mem_append_right _ hm)

theorem startVerify_source (w : World P) (c : ClientId) (context : PairVerifyContext) :
    VerifySource w (startVerify w c context) := by
  intro d hd context' hc
  by_cases hdc : d = c
  · subst hdc
    have hx : ((startVerify w d context).client d).verifyContext = some context := by
      rw [startVerify, World.log, setClient_self]
    obtain rfl : context = context' := Option.some.inj (hx.symm.trans hc)
    exact Or.inr (by simp [news, startVerify, World.log, World.setClient])
  · refine Or.inl ⟨hd, ?_⟩
    have hx : (startVerify w c context).client d = w.client d := setClient_of_ne hdc ..
    rwa [hx] at hc

theorem Passive.source (h : Passive c w w') : VerifySource w w' := by
  cases h with
  | quiet h => exact h.unverified.source
  | opened w₁ k h _ _ _ hh =>
    have ho : Unverified w₁ (openContext w₁ c k) :=
      Unverified.of_eq rfl (fun _ => rfl) (fun _ => rfl) (Adds.single _ (by trivial : IsUnstarted (.contextOpened k c)))
    exact (h.unverified.trans (ho.trans hh.unverified)).source
  | proved w₁ w₂ k h _ hq hh =>
    have hl : Unverified w₁ (w₁.log (.srpVerified k c)) :=
      Unverified.of_eq rfl (fun _ => rfl) (fun _ => rfl) (Adds.single _ (by trivial : IsUnstarted (.srpVerified k c)))
    have hc : Unverified w₂ (w₂.setClient c { w₂.client c with step := .pairSetup2Of3 }) :=
      Unverified.of_eq rfl (encrypted_setClient rfl) (apply_setClient Client.verifyContext rfl) (Adds.refl _ _)
    exact (h.unverified.trans (hl.trans (hq.unverified.trans (hc.trans hh.unverified)))).source
  | started w₁ context h hh =>
    have hlog : Adds (fun _ => True) w₁.trace (startVerify w₁ c context).trace :=
      Adds.single (p := fun _ => True) w₁.trace trivial
    have hs := h.unverified.source.trans (startVerify_source w₁ c context) h.unverified.trace hlog
    exact hs.trans hh.unverified.source
      ((h.unverified.trace.mono (fun _ _ => trivial)).trans hlog) hh.unverified.trace

theorem Verified.source {request : SignedRequest} {pairing : Pairing} (h : Verified c request pairing w w') :
    VerifySource w w' := by
  obtain ⟨w₁, h₁, _, hh⟩ := h
  have hopen : Adds (fun _ => True) w₁.trace (openSession w₁ c request pairing).trace :=
    Adds.single (p := fun _ => True) w₁.trace trivial
  have ho : VerifySource w₁ (openSession w₁ c request pairing) := by
    intro d hd context hc
    have hx := apply_setClient (w := w₁) Client.verifyContext (x := { w₁.client c with
      pairingId := pairing.id, permissions := pairing.permissions, encrypted := true, step := .pairVerify2Of2 }) rfl d
    exact Or.inl ⟨hd, hx ▸ hc⟩
  exact (h₁.unverified.source.trans ho h₁.unverified.trace hopen).trans hh.unverified.source
    ((h₁.unverified.trace.mono (fun _ _ => trivial)).trans hopen) hh.unverified.trace

theorem Effect.source {q : Option Request} (h : Effect c w w' q) : VerifySource w w' := by
  match q, h with
  | none, h => exact Passive.source h
  | some (.store k s request), ⟨_, h⟩ =>
    split at h
    · exact h.unverified.source
    · exact h.unverified.source
  | some (.verify context request pairing), ⟨_, _, h⟩ =>
    split at h
    · exact h.unverified.source
    · exact h.source
  | some (.add request), ⟨_, w₁, r, f, h₁, _, hh⟩ =>
    have hf : Unverified w₁ { w₁ with flash := f } :=
      Unverified.of_eq rfl (fun _ => rfl) (fun _ => rfl) (Adds.refl _ _)
    exact (h₁.unverified.trans (hf.trans hh.unverified)).source
  | some (.remove deviceId), ⟨_, h⟩ => exact h.unverified.source

theorem step_source {a : Action P} (h : step w a = .ok w') : VerifySource w w' := by
  rcases step_cases h with ⟨_, hi⟩ | ⟨c, q, _, _, _, he⟩
  · exact hi.unverified.source
  · have hi := arrived_idle w c
    exact hi.unverified.source.trans he.source hi.trace he.expected

/-! The handshake over a run. -/

/-- A context that waits for M3 is the one of the last M1, and unused. -/
def Unspent (s : World P) (as : List (Action P)) (w : World P) : Prop :=
  ∀ c < w.clientCount, ∀ context, (w.client c).verifyContext = some context → LastStarted s as c context

theorem LastStarted.snoc {s : World P} {as : List (Action P)} {a : Action P} (hl : LastStarted s as c context)
    (hr : run step s as = .ok w) (h : step w a = .ok w') (hn : ∀ x y, .verifyStarted c x y ∉ news w w')
    (hm : ¬ IsVerifyM3 w a c) : LastStarted s (as ++ [a]) c context := by
  obtain ⟨bs, b, cs, v, v', rfl, hbs, hb, hst, hal⟩ := hl
  obtain ⟨u, hu, hcs⟩ := (run_append bs (b :: cs)).mp hr
  obtain rfl := Except.ok.inj (hu.symm.trans hbs)
  obtain ⟨u', hu', hcs⟩ := run_cons_ok.mp hcs
  obtain rfl := Except.ok.inj (hu'.symm.trans hb)
  exact ⟨bs, b, cs ++ [a], u, u', by simp, hbs, hb, hst, hal.append hcs (Always.single h ⟨hn, hm⟩)⟩

/-- The last M1 in the log is among the news if any is. -/
theorem started_news (hs : Started w') (ha : Adds (fun _ => True) w.trace w'.trace) (hc : c < w'.clientCount)
    (hx : (w'.client c).verifyContext = some context) {x y : Bytes} (hm : .verifyStarted c x y ∈ news w w') :
    .verifyStarted c context.devicePublicKey context.accessoryPublicKey ∈ news w w' := by
  have hlast := hs c hc context hx
  rw [lastStarted, trace_eq_news ha, List.filterMap_append, List.getLast?_append] at hlast
  have hmem : (x, y) ∈ (news w w').filterMap (startedBy c) :=
    List.mem_filterMap.mpr ⟨_, hm, by simp [startedBy]⟩
  cases hl : ((news w w').filterMap (startedBy c)).getLast? with
  | none => simp [List.getLast?_eq_none_iff.mp hl] at hmem
  | some z =>
    rw [hl, Option.some_or] at hlast
    obtain rfl := Option.some.inj hlast
    obtain ⟨e, he, hstart⟩ := List.mem_filterMap.mp (List.mem_of_getLast? hl)
    unfold startedBy at hstart
    split at hstart
    · split at hstart
      · rename_i hd
        obtain ⟨rfl, rfl⟩ := Prod.mk.inj (Option.some.inj hstart)
        exact hd ▸ he
      · simp at hstart
    · simp at hstart

theorem Unspent.snoc {s : World P} {as : List (Action P)} {a : Action P} (hs : Started w) (hu : Unspent s as w)
    (hr : run step s as = .ok w) (h : step w a = .ok w') : Unspent s (as ++ [a]) w' := by
  intro c hc context hx
  by_cases hm : ∃ x y, .verifyStarted c x y ∈ news w w'
  · -- the step has an M1 of its own, and the context is of the last one
    obtain ⟨x, y, hm⟩ := hm
    exact ⟨as, a, [], w, w', rfl, hr, h, ⟨started_news (step_started hs h) (step_adds h) hc hx hm, hx⟩, trivial⟩
  · simp only [not_exists] at hm
    rcases step_source h c hc context hx with ⟨hcw, hx'⟩ | hs
    · refine (hu c hcw context hx').snoc hr h hm (fun h3 => ?_)
      simp [isVerifyM3_spent h3 h] at hx
    · exact absurd hs (hm _ _)

theorem run_unspent {s : World P} {as : List (Action P)} (hs : Started s) (hu : Unspent s [] s)
    (hr : run step s as = .ok w) : Started w ∧ Unspent s as w := by
  refine history (I := fun as v => Started v ∧ Unspent s as v) ⟨hs, hu⟩ ?_ hr
  rintro as v a v' hv ⟨hsv, huv⟩ h
  exact ⟨step_started hsv h, huv.snoc hsv hv h⟩

/-- A session opens through an M3 only, with the context that was waiting for it. -/
theorem step_opens {a : Action P} (hs : Started w) (hc : c < w.clientCount) (he : (w.client c).encrypted = false)
    (he' : (w'.client c).encrypted = true) (h : step w a = .ok w') :
    ∃ context request pairing, requested w a = some (c, .verify context request pairing) := by
  rcases step_cases h with ⟨_, hi⟩ | ⟨d, q, _, hd, hq, heff⟩
  · simp [hi.encrypted c hc, he] at he'
  · have hi := arrived_idle w d
    rcases (heff.started (hi.unverified.started hs)).2 c (Nat.lt_of_lt_of_le hc hi.clientCount) with hsame |
      ⟨rfl, context, request, pairing, rfl⟩
    · simp [hsame, hi.encrypted c hc, he] at he'
    · exact ⟨context, request, pairing, hq⟩

/-- A request of this kind is the content of an M3. -/
theorem isVerifyM3_of_requested {a : Action P} {request : SignedRequest} {pairing : Pairing}
    (h : requested w a = some (c, .verify context request pairing)) : IsVerifyM3 w a c := by
  obtain ⟨ha, hc, hm⟩ := requested_event h
  refine ⟨ha, hc, ?_⟩
  unfold messageRequest at hm
  dsimp only at hm
  split at hm
  · simp at hm
  · rename_i message hp
    split at hm
    · exfalso
      split at hm
      · obtain ⟨_, _, _, hq, _⟩ := setupRequest_some hm
        simp at hq
      · simp at hm
    · rename_i he hep
      split at hm
      · rename_i h3
        refine ⟨message, ?_, h3⟩
        rw [verifyMessage, if_pos ⟨he, hep⟩, hp]
        rfl
      · simp at hm
    · exfalso
      split at hm
      · obtain ⟨_, ⟨_, hq⟩ | ⟨_, hq⟩⟩ := pairingsRequest_some hm <;> simp at hq
      · simp at hm
    · simp at hm

/-- Sessions do not end by a message. -/
theorem step_encrypted {a : Action P} (hs : Started w) (hc : c < w.clientCount) (he : (w.client c).encrypted = true)
    (h : step w a = .ok w') : (w'.client c).encrypted = true := by
  rcases step_cases h with ⟨_, hi⟩ | ⟨d, q, _, _, _, heff⟩
  · rw [hi.encrypted c hc, he]
  · have hi := arrived_idle w d
    have hc' := Nat.lt_of_lt_of_le hc hi.clientCount
    have hs' := hi.unverified.started hs
    rcases (heff.started hs').2 c hc' with hsame | ⟨rfl, context, request, pairing, rfl⟩
    · rw [hsame, hi.encrypted c hc, he]
    · -- the message of a session is no pair-verify message
      have hplain := heff.1
      simp [hi.encrypted c hc, he] at hplain

/-- A message for pair-verify is not handed to it once the connection is encrypted. -/
theorem step_verify_over (hc : c < w.clientCount) (he : (w.client c).encrypted = true)
    (hep : (w.client c).endpoint = .pairVerify) :
    step w (.event c .messageComplete) = .ok (messageEnd (send404Response (messageEntry w c) c) c) := by
  have he' : ((messageEntry w c).client c).encrypted = true := by simp [messageEntry, World.log, he]
  have hep' : ((messageEntry w c).client c).endpoint = .pairVerify := by simp [messageEntry, World.log, hep]
  simp only [step, hc, if_true, handleEvent, homekitServerOnMessageComplete, handleMessage, he', Bool.true_eq_false,
    if_false, dispatch, hep', Except.map]

/-- From boot on, every action of every run treats the handshake of every connection so. -/
theorem verify_oneShot (accessoryId : Bytes) (accessoryKey : Ed25519Key) (password : Option Bytes)
    (flash : Flash) (app : P.App) (clients : ClientId → Client P) (contexts : ContextId → PairingContext)
    {as : List (Action P)} {a : Action P}
    (hr : run step (serverBoot accessoryId accessoryKey password flash app clients contexts) as = .ok w)
    (h : step w a = .ok w') (hc : c < w.clientCount) :
    OneShot (serverBoot accessoryId accessoryKey password flash app clients contexts) as w a w' c := by
  have h0 : ∀ d, ¬ d < (serverBoot (P := P) accessoryId accessoryKey password flash app clients contexts).clientCount :=
    fun d => Nat.not_lt_zero d
  obtain ⟨hs, hu⟩ := run_unspent (fun d hd => absurd hd (h0 d)) (fun d hd => absurd hd (h0 d)) hr
  refine ⟨fun he he' => ?_, fun ha => isVerifyM3_spent ha h, fun he => step_encrypted hs hc he h,
    fun he hep => step_verify_over hc he hep⟩
  obtain ⟨context, request, pairing, hq⟩ := step_opens hs hc he he' h
  refine ⟨isVerifyM3_of_requested hq, context, request, pairing, hq, hu c hc context ?_⟩
  obtain ⟨_, _, hm⟩ := requested_event hq
  have hctx := (messageRequest_verify hm).1
  simpa [messageEntry, World.log] using hctx

theorem last_verify_run :
    ends step (benchBoot [benchRecord 2 1]) (verifyAs 0 2).dropLast (fun w =>
    decide (0 < w.clientCount) && !(w.client 0).encrypted &&
      match step w (.event 0 .messageComplete) with
      | .ok w' => (w'.client 0).encrypted
      | .error _ => false) = true := by
  decide +kernel

/-- The session of controller 2 opens with the last action of its pair-verify. -/
theorem verify_oneShot_bench :
    ∃ w w', run step (benchBoot [benchRecord 2 1]) (verifyAs 0 2).dropLast = .ok w ∧
      step w (.event 0 .messageComplete) = .ok w' ∧ (w.client 0).encrypted = false ∧ (w'.client 0).encrypted = true ∧
      OneShot (benchBoot [benchRecord 2 1]) (verifyAs 0 2).dropLast w (.event 0 .messageComplete) w' 0 := by
  obtain ⟨w, hw, hp⟩ := ends_spec last_verify_run
  simp only [Bool.and_eq_true, decide_eq_true_eq, Bool.not_eq_true'] at hp
  obtain ⟨⟨hc, he⟩, hp⟩ := hp
  split at hp
  · rename_i w' hs
    exact ⟨w, w', hw, hs, he, hp, verify_oneShot _ _ _ _ _ _ _ hw hs hc⟩
  · simp at hp

end ArduinoHomeKit
