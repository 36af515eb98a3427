import ArduinoHomeKit.Frames
import ArduinoHomeKit.Bench

/-! Where the bytes of a dispatched request come from. They are opened frames as long as
every read is handed on as it should be. -/

namespace ArduinoHomeKit

open Runs Growth

variable {P : Platform} {c d : ClientId} {w w' w'' : World P} {payload : Bytes}

/-- Every request dispatched in the call consists of bytes opened under the key of its
session. -/
def DispatchesOpened (w w' : World P) : Prop :=
  ∀ c endpoint origins, .dispatched c endpoint origins ∈ news w w' →
    (w'.client c).encrypted = true ∧ ∀ o ∈ origins, o = .opened (w'.client c).writeKey

/-- A read of a session that is longer than a header and a tag and is accepted is one frame. -/
def AcceptsWholeFrames (w : World P) (c : ClientId) (payload : Bytes) : Prop :=
  18 < payload.length → ∀ r rest, decryptPayload w c payload = .ok (r, rest) → 0 ≤ r → IsFrame payload

/-- No callback follows the M3 that opens the session. -/
def SessionLast (c : ClientId) (origins : List Origin) : Nat → List (Nat × ParserEvent) → World P → Prop
  | _, [], _ => True
  | pos, (next, event) :: events, w =>
    let v := consume w c ((origins.take next).drop pos)
    (OpensSession v c event → events = []) ∧ ∀ w', handleEvent v c event = .ok w' → SessionLast c origins next events w'

/-- The world in which the parser is called. -/
def parsing (w : World P) (c : ClientId) (payload : Bytes) : World P :=
  (w.setClient c { w.client c with parser := (P.http.execute (w.client c).parser payload).1 }).log (.parsed c payload)

/-- The read of the call is handed on whole: as one frame in a session, and before a session
with nothing behind the M3 that opens it. -/
def ReadsWhole (w : World P) : Call P → Prop
  | .process c arrival =>
    c < w.clientCount → ∀ v payload, reading (arrive w c arrival) c = some (v, payload) →
      if (v.client c).encrypted then AcceptsWholeFrames v c payload
      else
        SessionLast c (payload.map (fun _ => Origin.plain)) 0 (P.http.execute (v.client c).parser payload).2
          (parsing (v.setClient c { v.client c with dataAvailable := 0 }) c payload)
  | _ => True

/-- The part of a message that a session has read so far comes from its frames. -/
def Client.Genuine (x : Client P) : Prop :=
  x.encrypted = true → ∀ o ∈ x.pending.getD [], o = .opened x.writeKey

def FromSession (c : ClientId) (x : Client P) : Event → Prop
  | .dispatched d _ origins => d = c ∧ x.encrypted = true ∧ ∀ o ∈ origins, o = .opened x.writeKey
  | _ => True

theorem FromSession.mono {x y : Client P} {e : Event}
    (h : x.encrypted = true → y.encrypted = true ∧ y.writeKey = x.writeKey) (he : FromSession c x e) :
    FromSession c y e := by
  cases e with
  | dispatched d endpoint origins =>
    obtain ⟨hd, hx, ho⟩ := he
    obtain ⟨hy, hk⟩ := h hx
    exact ⟨hd, hy, fun o hm => hk ▸ ho o hm⟩
  | _ => trivial

theorem IsStill.fromSession {x : Client P} {e : Event} (h : IsStill e) : FromSession c x e := by
  cases e <;> first | exact h.elim | trivial

theorem handleEvent_fromSession {e : ParserEvent} (hg : (w.client c).Genuine) (h : handleEvent w c e = .ok w') :
    Adds (FromSession c (w.client c)) w.trace w'.trace := by
  cases e with
  | messageBegin => exact Except.ok.inj h ▸ Adds.refl _ _
  | url method data behind => exact Except.ok.inj h ▸ Adds.refl _ _
  | body data => exact Except.ok.inj h ▸ Adds.refl _ _
  | messageComplete =>
    have hexp := (homekitServerOnMessageComplete_effect h).expected
    have harr : Adds (FromSession c (w.client c)) w.trace (arrived w c).trace := by
      rw [arrived_trace]
      refine (Adds.single _ (by trivial : FromSession c (w.client c) (.completed c (w.client c).endpoint))).trans ?_
      split
      · rename_i he
        rw [Bool.and_eq_true] at he
        exact Adds.single _ ⟨rfl, he.1, hg he.1⟩
      · exact Adds.of_eq (List.append_nil _)
    exact harr.trans (hexp.mono (fun e he => (he.elim (·.isStill) (·.isStill)).fromSession))

theorem handleEvent_genuine {e : ParserEvent} (hc : c < w.clientCount) (hg : (w.client c).Genuine)
    (h : handleEvent w c e = .ok w') : (w'.client c).Genuine := by
  obtain ⟨hcalled, hp, henc⟩ := handleEvent_called hc h
  have hkeep : requested w (.event c e) = none → (w'.client c).pending = (w.client c).pending →
      (w'.client c).Genuine := by
    intro hr hsame he o ho
    have hbefore : (w.client c).encrypted = true := by
      rcases henc with henc | ⟨_, _, _, hq, _⟩
      · exact henc ▸ he
      · simp [hr] at hq
    rw [(hcalled.session c hbefore).2]
    exact hg hbefore o (hsame ▸ ho)
  cases e with
  | messageBegin =>
    intro _ o ho
    simp [hp, pendingAfter] at ho
  | messageComplete =>
    intro _ o ho
    simp [hp, pendingAfter] at ho
  | url method data behind => exact hkeep rfl hp
  | body data => exact hkeep rfl hp

theorem consume_genuine {origins : List Origin} (hg : (w.client c).Genuine)
    (ho : (w.client c).encrypted = true → ∀ o ∈ origins, o = .opened (w.client c).writeKey) :
    ((consume w c origins).client c).Genuine := by
  simp only [consume, setClient_self]
  intro he o hm
  cases hp : (w.client c).pending with
  | none => simp [hp] at hm
  | some before =>
    simp only [hp, Option.map_some, Option.getD_some, List.mem_append] at hm
    rcases hm with hm | hm
    · exact hg he o (by simpa [hp] using hm)
    · exact ho he o hm

theorem runCallbacks_fromSession {origins : List Origin} {pos : Nat} {events : List (Nat × ParserEvent)}
    (hc : c < w.clientCount) (hg : (w.client c).Genuine)
    (ho : (w.client c).encrypted = true → ∀ o ∈ origins, o = .opened (w.client c).writeKey)
    (hl : (w.client c).encrypted = false → SessionLast c origins pos events w)
    (h : runCallbacks c origins pos events w = .ok w') :
    (w'.client c).Genuine ∧ Adds (FromSession c (w'.client c)) w.trace w'.trace := by
  induction events generalizing pos w with
  | nil =>
    obtain rfl := Except.ok.inj h
    exact ⟨consume_genuine hg (fun he o hm => ho he o (List.mem_of_mem_drop hm)), Adds.refl _ _⟩
  | cons e events ih =>
    obtain ⟨next, event⟩ := e
    simp only [runCallbacks] at h
    split at h
    · simp at h
    · rename_i w₁ hw
      set v := consume w c ((origins.take next).drop pos) with hv
      have hsame : (v.client c).encrypted = (w.client c).encrypted ∧ (v.client c).writeKey = (w.client c).writeKey := by
        simp [hv, consume]
      have hgv : (v.client c).Genuine := consume_genuine hg
        (fun he o hm => ho he o (List.mem_of_mem_take (List.mem_of_mem_drop hm)))
      obtain ⟨hcalled, _, henc⟩ := handleEvent_called (w := v) hc hw
      have hnews : Adds (FromSession c (v.client c)) w.trace w₁.trace := handleEvent_fromSession hgv hw
      have hg₁ := handleEvent_genuine (w := v) hc hgv hw
      have hrest := runCallbacks_called (w := w₁) (hcalled.clientCount ▸ hc) h
      have hafter : Adds (FromSession c (w'.client c)) w.trace w₁.trace := by
        refine hnews.mono (fun e he => he.mono (fun hx => ?_))
        obtain ⟨h1, h2⟩ := hcalled.session c hx
        obtain ⟨h3, h4⟩ := hrest.session c h1
        exact ⟨h3, h4.trans h2⟩
      by_cases he : (w.client c).encrypted = true
      · -- the session was open before the read
        obtain ⟨h1, h2⟩ := hcalled.session c (hsame.1.trans he)
        obtain ⟨hg', hadds⟩ := ih (hcalled.clientCount ▸ hc) hg₁
          (fun _ o hm => by rw [h2, hsame.2]; exact ho he o hm) (fun h0 => by simp [h1] at h0) h
        exact ⟨hg', hafter.trans hadds⟩
      · rw [Bool.not_eq_true] at he
        obtain ⟨hlast, hl₁⟩ := hl he
        rcases henc with henc | hopens
        · have he₁ : (w₁.client c).encrypted = false := henc.trans (hsame.1.trans he)
          obtain ⟨hg', hadds⟩ := ih (hcalled.clientCount ▸ hc) hg₁ (fun h1 => by simp [he₁] at h1)
            (fun _ => hl₁ w₁ hw) h
          exact ⟨hg', hafter.trans hadds⟩
        · -- the session opens in the last callback, and its message is over
          obtain rfl := hlast hopens
          obtain rfl := Except.ok.inj h
          have hpend : (w₁.client c).pending = none := by
            obtain ⟨_, hp, _⟩ := handleEvent_called (w := v) hc hw
            obtain ⟨_, _, _, hq, _⟩ := hopens
            cases event with
            | messageComplete => exact hp
            | _ => simp [requested] at hq
          refine ⟨fun _ o hm => ?_, hafter⟩
          simp [consume, hpend] at hm

theorem httpParserExecute_fromSession {origins : List Origin} (hc : c < w.clientCount) (hg : (w.client c).Genuine)
    (ho : (w.client c).encrypted = true → ∀ o ∈ origins, o = .opened (w.client c).writeKey)
    (hl : (w.client c).encrypted = false →
      SessionLast c origins 0 (P.http.execute (w.client c).parser payload).2 (parsing w c payload))
    (h : httpParserExecute w c payload origins = .ok w') :
    (w'.client c).Genuine ∧ Adds (FromSession c (w'.client c)) w.trace w'.trace := by
  have hsame : ∀ {β : Type} (f : Client P → β),
      (∀ x p, f { x with parser := p } = f x) → f ((parsing w c payload).client c) = f (w.client c) :=
    fun f hf => (congrArg f (setClient_self ..)).trans (hf _ _)
  have henc := hsame Client.encrypted (fun _ _ => rfl)
  have hkey := hsame Client.writeKey (fun _ _ => rfl)
  have hpend := hsame Client.pending (fun _ _ => rfl)
  have hgv : ((parsing w c payload).client c).Genuine := by
    intro he o hm
    rw [hkey]
    exact hg (henc ▸ he) o (hpend ▸ hm)
  obtain ⟨hg', hadds⟩ := runCallbacks_fromSession (w := parsing w c payload) hc hgv
    (fun he o hm => by rw [hkey]; exact ho (henc ▸ he) o hm) (fun he => hl (henc ▸ he)) h
  exact ⟨hg', (Adds.single _ (by trivial : FromSession c (w'.client c) (.parsed c payload))).trans hadds⟩

theorem decryptPayload_origins (hle : payload.length ≤ 1042) (hw : AcceptsWholeFrames w c payload) {r : Int}
    {n k : Nat} {cells : List Cell} (hd : decryptPayload w c payload = .ok (r, n, k, some cells)) (hr : 0 ≤ r) :
    ∀ o ∈ cells.map Prod.snd, o = .opened (w.client c).writeKey := by
  intro o ho
  by_cases hs : payload.length ≤ 18
  · simp [decryptPayload_short hs hd] at ho
  · have hframe := hw (Nat.lt_of_not_le hs) r _ hd hr
    rw [decryptPayload_frame hframe hle] at hd
    split at hd
    · simp only [Except.ok.injEq, Prod.mk.injEq, Option.some.injEq] at hd
      obtain ⟨_, _, _, rfl⟩ := hd
      obtain ⟨x, hx, rfl⟩ := List.mem_map.mp ho
      obtain ⟨b, _, rfl⟩ := List.mem_map.mp hx
      rfl
    · obtain ⟨hneg, _⟩ := Prod.mk.inj (Except.ok.inj hd)
      omega

theorem processEncrypted_fromSession (hle : payload.length ≤ 1042) (hc : c < w.clientCount)
    (he : (w.client c).encrypted = true) (hg : (w.client c).Genuine) (hw : AcceptsWholeFrames w c payload)
    (h : processEncrypted w c payload = .ok w') :
    (w'.client c).Genuine ∧ Adds (FromSession c (w'.client c)) w.trace w'.trace := by
  obtain ⟨k, n, data, rfl | ⟨r, size, cells, hd, hr, h⟩⟩ := processEncrypted_cases h
  · refine ⟨?_, Adds.refl _ _⟩
    rw [setClient_self]
    exact hg
  · have ho := decryptPayload_origins hle hw hd hr
    refine httpParserExecute_fromSession
      (w := w.setClient c { w.client c with countWrites := k, dataAvailable := n, data := data }) hc ?_
      (fun _ => ?_) (fun hf => ?_) h
    · rw [setClient_self]
      exact hg
    · rw [setClient_self]
      exact ho
    · rw [setClient_self] at hf
      exact absurd (hf.symm.trans he) (by simp)

/-- A read that is handed on whole. -/
theorem reading_fromSession {arrival : Arrival} {v : World P} (hc : c < w.clientCount) (hg : (w.client c).Genuine)
    (hq : ReadsWhole w (.process c arrival)) (hr : reading (arrive w c arrival) c = some (v, payload))
    (h : homekitClientProcess (arrive w c arrival) c = .ok w') :
    (w'.client c).Genuine ∧ Adds (FromSession c (w'.client c)) w.trace w'.trace := by
  have hwhole := hq hc v payload hr
  obtain ⟨hle, socket, _, _, hv, _⟩ := reading_some hr
  rw [homekitClientProcess_reading hr] at h
  have hvc : v.client c = { w.client c with socket := (v.client c).socket, data := (v.client c).data } := by
    rw [hv, readClient, setClient_self]
    simp only [World.tick, arrive_client]
  have hgv : (v.client c).Genuine := by
    rw [hvc]
    exact hg
  have hcv : c < v.clientCount := by
    rw [hv]
    exact hc
  have htv : v.trace = w.trace := by
    rw [hv]
    rfl
  rw [← htv]
  split at h
  · rename_i he
    rw [if_pos he] at hwhole
    exact processEncrypted_fromSession hle hcv he hgv hwhole h
  · rename_i he
    rw [if_neg he] at hwhole
    refine httpParserExecute_fromSession (w := v.setClient c { v.client c with dataAvailable := 0 }) hcv ?_
      (fun h1 => ?_) (fun _ => ?_) h
    · rw [setClient_self]
      exact hgv
    · rw [setClient_self] at h1
      exact absurd h1 he
    · rw [setClient_self]
      exact hwhole

theorem Apart.genuine (h : Apart d w w') (hg : (w.client d).Genuine) : (w'.client d).Genuine := by
  intro he o ho
  have hbefore := h.encrypted ▸ he
  rw [h.writeKey hbefore]
  exact hg hbefore o (h.pending ▸ ho)

theorem dispatchesOpened_of_still (h : Adds IsStill w.trace w'.trace) : DispatchesOpened w w' :=
  fun _ _ _ hm => (mem_news h hm).elim

theorem dispatchesOpened_of_fromSession (h : Adds (FromSession c (w'.client c)) w.trace w'.trace) :
    DispatchesOpened w w' := by
  intro d endpoint origins hm
  obtain ⟨rfl, he, ho⟩ := mem_news h hm
  exact ⟨he, ho⟩

/-- What the connections of the server have read so far is genuine. -/
def AllGenuine (w : World P) : Prop := ∀ d < w.clientCount, (w.client d).Genuine

theorem process_dispatchesOpened {arrival : Arrival} (hc : c < w.clientCount) (hg : AllGenuine w)
    (hq : ReadsWhole w (.process c arrival)) (h : homekitClientProcess (arrive w c arrival) c = .ok w') :
    AllGenuine w' ∧ DispatchesOpened w w' := by
  have hself : (w'.client c).Genuine ∧ DispatchesOpened w w' := by
    cases hr : reading (arrive w c arrival) c with
    | some vp =>
      obtain ⟨h1, h2⟩ := reading_fromSession hc (hg c hc) hq hr h
      exact ⟨h1, dispatchesOpened_of_fromSession h2⟩
    | none =>
      have harr : ((arrive w c arrival).client c).Genuine := by
        rw [arrive_client]
        exact hg c hc
      rcases homekitClientProcess_idle hr h with rfl | hquiet
      · exact ⟨harr, dispatchesOpened_of_still (Adds.refl _ _)⟩
      · exact ⟨(hquiet.apart c).genuine harr, dispatchesOpened_of_still (hquiet.trace.mono (fun _ he => IsQuiet.isStill he))⟩
  refine ⟨fun d hd => ?_, hself.2⟩
  by_cases hdc : d = c
  · subst hdc
    exact hself.1
  · have harr : Apart d w (arrive w c arrival) := Apart.client hdc _
    obtain ⟨ha, hn⟩ := homekitClientProcess_apart (w := arrive w c arrival) hdc hc h
    exact (harr.trans ha).genuine (hg d (hn ▸ hd))

theorem homekitServerAcceptClient_encrypted (raw : Client P) (hd : w.clientCount ≤ d)
    (hd' : d < (homekitServerAcceptClient w raw).clientCount) :
    ((homekitServerAcceptClient w raw).client d).encrypted = false := by
  unfold homekitServerAcceptClient at hd' ⊢
  split at hd'
  · exact absurd hd' (Nat.not_lt_of_le hd)
  · rename_i hn
    obtain rfl : d = w.clientCount := Nat.le_antisymm (Nat.le_of_lt_succ hd') hd
    rw [if_neg hn]
    exact congrArg Client.encrypted (setClient_self ..)

theorem call_dispatchesOpened {a : Call P} (hg : AllGenuine w) (hq : ReadsWhole w a) (h : call w a = .ok w') :
    AllGenuine w' ∧ DispatchesOpened w w' := by
  have hquiet : ∀ {v : World P} {c : ClientId}, v.client = w.client → v.clientCount = w.clientCount →
      v.trace = w.trace → Quiet c v w' → AllGenuine w' ∧ DispatchesOpened w w' := by
    intro v c hcl hn ht hh
    refine ⟨fun d hd => (hh.apart d).genuine ?_, dispatchesOpened_of_still (ht ▸ hh.trace.mono (fun _ he => IsQuiet.isStill he))⟩
    rw [hcl]
    exact hg d (hn ▸ hh.clientCount ▸ hd)
  cases a with
  | accept raw =>
    obtain rfl := Except.ok.inj h
    refine ⟨fun d hd => ?_, dispatchesOpened_of_still ?_⟩
    · by_cases hold : d < w.clientCount
      · exact (homekitServerAcceptClient_apart raw hold).genuine (hg d hold)
      · intro he
        exact absurd (he.symm.trans (homekitServerAcceptClient_encrypted raw (Nat.le_of_not_lt hold) hd)) (by simp)
    · unfold homekitServerAcceptClient
      split
      · exact Adds.refl _ _
      · exact Adds.single _ (by trivial : IsStill (.connected w.clientCount))
  | preinit => exact hquiet (v := w.tick) (c := 0) rfl rfl rfl (Except.ok.inj h ▸ arduinoHomekitPreinit_quiet w.tick 0)
  | notify c =>
    simp only [call] at h
    split at h
    · exact hquiet rfl rfl rfl (Except.ok.inj h ▸ processNotifications_quiet w c)
    · obtain rfl := Except.ok.inj h
      exact hquiet rfl rfl rfl (Quiet.refl 0 w)
  | process c arrival =>
    simp only [call] at h
    split at h
    · rename_i hc
      exact process_dispatchesOpened hc hg hq h
    · obtain rfl := Except.ok.inj h
      exact hquiet rfl rfl rfl (Quiet.refl 0 w)

/-- From boot on, as long as every read is handed on whole, each dispatched request consists
of bytes opened under the key of its session. -/
theorem dispatchesOpened_run (accessoryId : Bytes) (accessoryKey : Ed25519Key) (password : Option Bytes)
    (flash : Flash) (app : P.App) (clients : ClientId → Client P) (contexts : ContextId → PairingContext)
    (as : List (Call P))
    (h : Always call (fun w a _ => ReadsWhole w a)
      (serverBoot accessoryId accessoryKey password flash app clients contexts) as) :
    Always call (fun w _ w' => DispatchesOpened w w')
      (serverBoot accessoryId accessoryKey password flash app clients contexts) as := by
  refine Always.imp (I := AllGenuine) (fun w a w' hg hcall hq => ?_) (fun d hd => ?_) h
  · exact call_dispatchesOpened hg hq hcall
  · exact absurd hd (Nat.not_lt_zero d)

theorem sessionLast_of_dropLast {origins : List Origin} {pos : Nat} {events : List (Nat × ParserEvent)}
    (h : ∀ e ∈ events.dropLast, e.2 ≠ .messageComplete) : SessionLast c origins pos events w := by
  induction events generalizing pos w with
  | nil => trivial
  | cons e events ih =>
    obtain ⟨next, event⟩ := e
    refine ⟨fun hopens => ?_, fun w' _ => ih (fun e he => h e ?_)⟩
    · by_contra hne
      refine h (next, event) ?_ ?_
      · rw [List.dropLast_cons_of_ne_nil hne]
        exact List.mem_cons_self ..
      · obtain ⟨_, _, _, hr, _⟩ := hopens
        cases event with
        | messageComplete => rfl
        | _ => simp [requested] at hr
    · cases events with
      | nil => simp at he
      | cons e' events =>
        rw [List.dropLast_cons_of_ne_nil (List.cons_ne_nil _ _)]
        exact List.mem_cons_of_mem _ he

theorem session_reads_checked :
    checks call (fun w a =>
    match a with
    | .process c arrival =>
      match reading (arrive w c arrival) c with
      | some (v, payload) =>
        if (v.client c).encrypted then decide (IsFrame payload)
        else (benchHttp.execute (v.client c).parser payload).2.dropLast.all (fun e => e.2 != .messageComplete)
      | none => true
    | _ => true) (benchBoot [benchRecord 2 1])
      (sessionCalls 2 ++ [processing (sealedFrame 2 0 (httpRequest "GET" "/accessories" []))]) = true := by
  decide +kernel

/-- A request in a frame of its own. -/
theorem dispatchesOpened_run_session :
    Always call (fun w _ w' => DispatchesOpened w w') (benchBoot [benchRecord 2 1])
      (sessionCalls 2 ++ [processing (sealedFrame 2 0 (httpRequest "GET" "/accessories" []))]) := by
  refine dispatchesOpened_run (P := bench) _ _ _ _ _ _ _ _ (checks_spec (fun w a _ h => ?_) session_reads_checked)
  cases a with
  | process c arrival =>
    intro _ v payload hr
    simp only [hr] at h
    split at h
    · rename_i he
      rw [if_pos he]
      exact fun _ _ _ _ _ => of_decide_eq_true h
    · rename_i he
      rw [if_neg he]
      refine sessionLast_of_dropLast (fun e hm => ?_)
      simpa using List.all_eq_true.mp h e hm
  | _ => trivial

theorem pipelined_request_run :
    ends arduinoHomekitLoop (benchBoot [benchRecord 2 1]) (sessionPasses 2).dropLast (fun w =>
      match arduinoHomekitLoop w (arriving
        (httpRequest "POST" "/pair-verify" (tlvFormat (verifyMessage3 2 (signedBy 2))) ++
          httpRequest "GET" "/accessories" [])) with
      | .ok w' => (news w w').any (fun e =>
          match e with | .dispatched 0 .getAccessories origins => origins.contains .plain | _ => false)
      | .error _ => false) = true := by
  decide +kernel

/-- A request in plaintext right behind the M3, in the same read. -/
theorem dispatched_in_plaintext :
    ∃ w w', run arduinoHomekitLoop (benchBoot [benchRecord 2 1]) (sessionPasses 2).dropLast = .ok w ∧
      arduinoHomekitLoop w (arriving
        (httpRequest "POST" "/pair-verify" (tlvFormat (verifyMessage3 2 (signedBy 2))) ++
          httpRequest "GET" "/accessories" [])) = .ok w' ∧ ¬ DispatchesOpened w w' := by
  obtain ⟨w, hw, hp⟩ := ends_spec pipelined_request_run
  split at hp
  · rename_i w' hw'
    refine ⟨w, w', hw, hw', fun hd => ?_⟩
    obtain ⟨e, hm, he⟩ := List.any_eq_true.mp hp
    split at he
    · rename_i origins
      have hplain := (hd 0 .getAccessories origins hm).2 .plain (List.contains_iff_mem.mp he)
      simp at hplain
    · simp at he
  · simp at hp

end ArduinoHomeKit
