import ArduinoHomeKit.Refinement
import ArduinoHomeKit.Bench

/-! Requests on the sessions of a removed pairing. The mark that RemovePairing leaves is never
looked at: whatever request becomes complete on such a connection is dispatched. -/

namespace ArduinoHomeKit

open Growth Runs

variable {P : Platform} {c d : ClientId} {w w' : World P}

/-- The handlers that a removed controller must not reach. -/
def Endpoint.isRevocable : Endpoint → Bool
  | .getAccessories | .getCharacteristics | .updateCharacteristics | .pairings | .resource => true
  | .unknown | .pairSetup | .pairVerify | .identify => false

/-- The connection is verified, and a pairing is removed after that. -/
def removal (c : ClientId) (request : SignedRequest) (d : ClientId) (deviceId : Bytes) : List Event :=
  [.verified c request, .pairingRemoved d deviceId]

/-- The entry comes after a RemovePairing for the controller that the connection was
verified as before. -/
def Late (l : List Event) (c : ClientId) (e : Event) : Prop :=
  ∃ request d deviceId, controllerId request.identifier = controllerId deviceId ∧
    (removal c request d deviceId ++ [e]).Sublist l

/-- No request of a removed controller is dispatched. -/
def Silenced (w : World P) : Prop :=
  ∀ c endpoint origins, endpoint.isRevocable = true → ¬ Late w.trace c (.dispatched c endpoint origins)

/-- No request of a removed controller becomes complete. -/
def Withdrawn (w : World P) : Prop :=
  ∀ c endpoint, endpoint.isRevocable = true → ¬ Late w.trace c (.completed c endpoint)

/-- On a verified connection, complete requests and dispatches go together. -/
def Matched (w : World P) : Prop :=
  ∀ (c : ClientId) (endpoint : Endpoint) (request : SignedRequest) (d : ClientId) (deviceId : Bytes),
    endpoint.isProtected = true →
      ((∃ origins, (removal c request d deviceId ++ [Event.dispatched c endpoint origins]).Sublist w.trace) ↔
        (removal c request d deviceId ++ [Event.completed c endpoint]).Sublist w.trace)

theorem Endpoint.isRevocable_isProtected {endpoint : Endpoint} (h : endpoint.isRevocable = true) :
    endpoint.isProtected = true := by
  cases endpoint <;> first | rfl | simp [isRevocable] at h

/-- Only complete messages are dispatched. -/
theorem step_still {a : Action P} (ha : ∀ c < w.clientCount, a ≠ .event c .messageComplete)
    (h : step w a = .ok w') :
    Adds IsStill w.trace w'.trace := by
  have hquiet : ∀ {c : ClientId} {v v' : World P}, Quiet c v v' → Adds IsStill v.trace v'.trace :=
    fun hq => hq.trace.mono (fun _ he => he.isStill)
  cases a with
  | accept raw =>
    obtain rfl := Except.ok.inj h
    unfold homekitServerAcceptClient
    split
    · exact Adds.refl _ _
    · exact Adds.single _ (by trivial : IsStill (.connected _))
  | preinit => exact Except.ok.inj h ▸ hquiet (v := w.tick) (arduinoHomekitPreinit_quiet w.tick 0)
  | tick => exact Except.ok.inj h ▸ Adds.refl _ _
  | parsed c payload => exact Except.ok.inj h ▸ Adds.single _ (by trivial : IsStill (.parsed c payload))
  | buffer c b =>
    simp only [step] at h
    split at h <;> exact Except.ok.inj h ▸ Adds.refl _ _
  | close c =>
    simp only [step] at h
    split at h
    · obtain rfl := Except.ok.inj h
      exact (homekitServerCloseClient_closes _ c).trace.mono (fun _ he => he.isQuiet.isStill)
    · exact Except.ok.inj h ▸ Adds.refl _ _
  | notify c =>
    simp only [step] at h
    split at h
    · exact Except.ok.inj h ▸ hquiet (processNotifications_quiet w c)
    · exact Except.ok.inj h ▸ Adds.refl _ _
  | event c e =>
    simp only [step] at h
    split at h
    · rename_i hc
      cases e with
      | messageComplete => exact absurd rfl (ha c hc)
      | _ => exact Except.ok.inj h ▸ Adds.refl _ _
    · exact Except.ok.inj h ▸ Adds.refl _ _

theorem Matched.still (hm : Matched w) (h : Adds IsStill w.trace w'.trace) : Matched w' := by
  intro c endpoint request d deviceId hp
  rw [h.sublist_iff (id : ¬ IsStill (.completed c endpoint)), ← hm c endpoint request d deviceId hp]
  exact exists_congr (fun origins => h.sublist_iff (id : ¬ IsStill (.dispatched c endpoint origins)))

theorem Matched.arrived (hs : Sound w) (hm : Matched w) (c : ClientId) : Matched (arrived w c) := by
  intro d endpoint request e deviceId hp
  have hold := hm d endpoint request e deviceId hp
  have hverified : (removal d request e deviceId).Sublist w.trace → (w.client d).encrypted = true :=
    fun hr => (hs.verified d request (hr.subset (by simp [removal]))).2
  rw [arrived_trace]
  by_cases hd : ((w.client c).encrypted && (w.client c).endpoint.isProtected) = true
  · have hrem : (removal d request e deviceId).Sublist (w.trace ++ [.completed c (w.client c).endpoint]) ↔
        (removal d request e deviceId).Sublist w.trace := by
      rw [show removal d request e deviceId = [Event.verified d request] ++ [.pairingRemoved e deviceId] from rfl,
        sublist_concat_concat]
      simp
    simp only [if_pos hd, sublist_concat_concat, reduceCtorEq, false_and, or_false, Event.completed.injEq,
      Event.dispatched.injEq, hrem, exists_or, hold]
    refine or_congr_right ⟨fun ⟨_, ⟨h1, h2, _⟩, hr⟩ => ⟨⟨h1, h2⟩, hr⟩, fun ⟨⟨h1, h2⟩, hr⟩ => ⟨_, ⟨h1, h2, rfl⟩, hr⟩⟩
  · simp only [if_neg hd, List.append_nil, sublist_concat_concat, reduceCtorEq, false_and, or_false,
      Event.completed.injEq, hold]
    refine (or_iff_left ?_).symm
    rintro ⟨⟨rfl, rfl⟩, hr⟩
    exact hd (by simp [hverified hr, hp])

theorem step_matched {a : Action P} (hs : Sound w) (hm : Matched w) (h : step w a = .ok w') : Matched w' := by
  by_cases ha : ∃ c < w.clientCount, a = .event c .messageComplete
  · obtain ⟨c, hc, rfl⟩ := ha
    simp only [step, hc, if_true] at h
    have he := homekitServerOnMessageComplete_effect h
    exact (hm.arrived hs c).still (he.expected.mono (fun _ h => h.elim IsQuiet.isStill Decisive.isStill))
  · exact hm.still (step_still (fun c hc he => ha ⟨c, hc, he⟩) h)

theorem serverBoot_matched (accessoryId : Bytes) (accessoryKey : Ed25519Key) (password : Option Bytes)
    (flash : Flash) (app : P.App) (clients : ClientId → Client P) (contexts : ContextId → PairingContext) :
    Matched (serverBoot accessoryId accessoryKey password flash app clients contexts) := by
  intro c endpoint request d deviceId _
  simp [serverBoot, removal]

theorem Matched.silenced_iff (hm : Matched w) : Silenced w ↔ Withdrawn w := by
  constructor
  · rintro hs c endpoint hr ⟨request, d, deviceId, hid, hlate⟩
    obtain ⟨origins, hd⟩ := (hm c endpoint request d deviceId (Endpoint.isRevocable_isProtected hr)).mpr hlate
    exact hs c endpoint origins hr ⟨request, d, deviceId, hid, hd⟩
  · rintro hw c endpoint origins hr ⟨request, d, deviceId, hid, hlate⟩
    exact hw c endpoint hr ⟨request, d, deviceId, hid,
      (hm c endpoint request d deviceId (Endpoint.isRevocable_isProtected hr)).mp ⟨origins, hlate⟩⟩

/-- After any passes of the loop, no request of a removed controller was dispatched exactly if
none became complete. -/
theorem silenced_run_iff (accessoryId : Bytes) (accessoryKey : Ed25519Key) (password : Option Bytes)
    (flash : Flash) (app : P.App) (clients : ClientId → Client P) (contexts : ContextId → PairingContext)
    (passes : List (Pass P))
    (h : run arduinoHomekitLoop (serverBoot accessoryId accessoryKey password flash app clients contexts) passes =
      .ok w) : Silenced w ↔ Withdrawn w := by
  have hs := serverBoot_sound accessoryId accessoryKey password flash app clients contexts
  have hm := serverBoot_matched accessoryId accessoryKey password flash app clients contexts
  obtain ⟨as, has⟩ := arduinoHomekitLoop_run_reaches hs h
  exact ((call_run_reaches has).invariant (I := fun v => Sound v ∧ Matched v)
    (fun _ _ _ hi h => ⟨step_sound hi.1 h, step_matched hi.1 hi.2 h⟩) ⟨hs, hm⟩).2.silenced_iff

theorem session_passes_run :
    ends arduinoHomekitLoop (benchBoot [benchRecord 2 1]) (sessionPasses 2) (fun _ => true) = true := by
  decide +kernel

/-- Controller 2 opens a session and asks for nothing. -/
theorem silenced_run_iff_session :
    ∃ w, run arduinoHomekitLoop (benchBoot [benchRecord 2 1]) (sessionPasses 2) = .ok w ∧
      (Silenced w ↔ Withdrawn w) := by
  obtain ⟨w, hw, _⟩ := ends_spec session_passes_run
  exact ⟨w, hw, silenced_run_iff _ _ _ _ _ _ _ (sessionPasses 2) hw⟩

theorem removal_passes_run :
    ends arduinoHomekitLoop (benchBoot [benchRecord 2 1])
      (sessionPasses 2 ++
        [arriving (sealedFrame 2 0 (httpRequest "POST" "/pairings" (tlvFormat (removeMessage 2)))),
          arriving (sealedFrame 2 1 (httpRequest "GET" "/accessories" []))]) (fun w => match w.trace.filter (fun e => match e with
        | .verified .. | .pairingRemoved .. | .dispatched .. => true
        | _ => false) with
      | [.verified c request, _, .pairingRemoved _ deviceId, .dispatched d .getAccessories _] =>
        c == d && controllerId request.identifier == controllerId deviceId
      | _ => false) = true := by
  decide +kernel

/-- Controller 2 removes its own pairing and asks for the accessories in a later pass. -/
theorem served_after_removal :
    ∃ w, run arduinoHomekitLoop (benchBoot [benchRecord 2 1])
        (sessionPasses 2 ++
          [arriving (sealedFrame 2 0 (httpRequest "POST" "/pairings" (tlvFormat (removeMessage 2)))),
            arriving (sealedFrame 2 1 (httpRequest "GET" "/accessories" []))]) = .ok w ∧
      ¬ Silenced w := by
  obtain ⟨w, hw, hp⟩ := ends_spec removal_passes_run
  refine ⟨w, hw, fun hs => ?_⟩
  split at hp
  · rename_i c request e f deviceId d origins hl
    simp only [Bool.and_eq_true, beq_iff_eq] at hp
    obtain ⟨rfl, hid⟩ := hp
    have hsub := List.filter_sublist (l := w.trace) (p := fun e => match e with
        | .verified .. | .pairingRemoved .. | .dispatched .. => true
        | _ => false)
    rw [hl] at hsub
    refine hs c .getAccessories origins rfl ⟨request, f, deviceId, hid, List.Sublist.trans ?_ hsub⟩
    exact List.cons_sublist_cons.mpr (List.sublist_cons_self ..)
  · simp at hp

end ArduinoHomeKit
