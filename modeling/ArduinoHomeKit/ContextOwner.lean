import ArduinoHomeKit.PairingContexts
import ArduinoHomeKit.Bench

/-! Who works on the pairing context. M1 asks for its owner, M3 and M5 do not: they are right
exactly in the runs in which their sender has an attempt of its own under way. -/

namespace ArduinoHomeKit

open Runs

variable {P : Platform} {c : ClientId} {w w' : World P} {message : List Tlv}

/-- The message gets as far as the pairing context: an M3 with its key and its proof, or any M5. -/
def ReachesContext (message : List Tlv) : Prop :=
  messageState message = 3 ∧ tlvGetValue message TLVType.publicKey ≠ none ∧
      tlvGetValue message TLVType.proof ≠ none ∨
    messageState message = 5

/-- The action completes a pair-setup message of the connection. -/
def SetupAction (w : World P) (a : Action P) (c : ClientId) (message : List Tlv) : Prop :=
  a = .event c .messageComplete ∧ c < w.clientCount ∧ setupMessage (messageEntry w c) c = some message

/-- The store is as before, and so is the context in use with its SRP state. -/
def AttemptUntouched (w w' : World P) : Prop :=
  w'.flash = w.flash ∧
    ∀ k, w.pairingContext = some k → w'.pairingContext = some k ∧ w'.contexts k = w.contexts k

/-- The pairing context is for its owner: the others neither work on it nor stumble over it. -/
structure OwnerOnly (w : World P) (a : Action P) : Prop where
  owner : ∀ c message, SetupAction w a c message → ReachesContext message → Owns w c
  others : ∀ c message, SetupAction w a c message → ¬ Owns w c →
    step w a ≠ .error .nullDereference ∧ ∀ w', step w a = .ok w' → AttemptUntouched w w'

/-- An M3 or M5 comes from a connection whose M1 opened a context that was not freed since. -/
def InAttempt (w : World P) (a : Action P) : Prop :=
  ∀ c message, SetupAction w a c message → ReachesContext message →
    ∃ k, .contextOpened k c ∈ w.trace ∧ .contextFreed k ∉ w.trace

/-- The handler of a pair-setup message that was parsed. -/
def onSetupMessage (w : World P) (c : ClientId) (message : List Tlv) : Except Fault (World P) :=
  if messageState message = 1 then .ok (pairSetupM1 w c)
  else if messageState message = 3 then pairSetupM3 w c message
  else if messageState message = 5 then pairSetupM5 w c message
  else .ok w

theorem setupMessage_some (h : setupMessage w c = some message) :
    (w.client c).encrypted = false ∧ (w.client c).endpoint = .pairSetup ∧
      tlvParse (bufferOf ((w.client c).body ++ [0]) (behind w 0)) (w.client c).body.length = .ok message := by
  unfold setupMessage at h
  split at h
  · rename_i hs
    refine ⟨hs.1, hs.2, ?_⟩
    cases hp : tlvParse (bufferOf ((w.client c).body ++ [0]) (behind w 0)) (w.client c).body.length with
    | error e => simp [hp, Except.toOption] at h
    | ok m => simpa [hp, Except.toOption] using h
  · simp at h

theorem setupAction_step {a : Action P} (h : SetupAction w a c message) :
    step w a = (onSetupMessage (restarted (messageEntry w c) c) c message).map (fun w => messageEnd w c) := by
  obtain ⟨rfl, hc, hm⟩ := h
  obtain ⟨he, hep, hparse⟩ := setupMessage_some hm
  have hp : homekitServerOnPairSetup (messageEntry w c) c ((messageEntry w c).client c).body =
      onSetupMessage (restarted (messageEntry w c) c) c message := by
    have hb : behind (restarted (messageEntry w c) c) 0 = behind (messageEntry w c) 0 := rfl
    unfold homekitServerOnPairSetup onSetupMessage
    rw [← restarted]
    dsimp only
    rw [hb, hparse]
    rfl
  simp only [step, hc, if_true, handleEvent, homekitServerOnMessageComplete, handleMessage, he, hep, hp]

theorem clientSend_pairingContext (ho : ¬ Owns w c) (data : Bytes) :
    (clientSend w c data).pairingContext = w.pairingContext := by
  have h := clientSend_invariant (I := fun v : World P => v.pairingContext = w.pairingContext ∧ v.contexts = w.contexts) c
    (fun _ _ h _ => h) (fun _ _ h => h) (fun v h _ => ?_) (fun _ _ h => h) w data ⟨rfl, rfl⟩
  · exact h.1
  · have hv : ¬ Owns v c := by
      rw [Owns, h.1, h.2]
      exact ho
    rw [homekitServerCloseClient_of_not_owner hv]
    exact h

/-- An answer to a connection that does not own the context. -/
theorem sendTlvErrorResponse_untouched (ho : ¬ Owns w c) (state : Int) (error : TLVError) :
    AttemptUntouched w (sendTlvErrorResponse w c state error) := by
  have hs := sendTlvResponse_sends w c (tlvErrorResponse state error)
  refine ⟨hs.flash, fun k hk => ⟨?_, congrFun hs.contexts k⟩⟩
  rw [← hk]
  exact clientSend_pairingContext (w := w.log (.response c (tlvErrorResponse state error))) ho _

theorem AttemptUntouched.refl (w : World P) : AttemptUntouched w w := ⟨rfl, fun _ hk => ⟨hk, rfl⟩⟩

/-- M1 asks for the owner first. -/
theorem pairSetupM1_untouched (ho : ¬ Owns w c) : AttemptUntouched w (pairSetupM1 w c) := by
  have hflash : (pairSetupM1 w c).flash = w.flash := by
    cases pairSetupM1_passive w c with
    | quiet h => exact h.flash
    | opened w₁ k h _ _ _ hh => exact hh.flash.trans h.flash
    | proved w₁ w₂ k h _ hq hh => exact hh.flash.trans (hq.flash.trans h.flash)
    | started w₁ context h hh => exact hh.flash.trans h.flash
  refine ⟨hflash, fun k hk => ?_⟩
  have hne : (w.contexts k).client ≠ some c := fun he => ho ⟨k, hk, he⟩
  unfold pairSetupM1
  split
  · exact (sendTlvErrorResponse_untouched ho _ _).2 k hk
  · simp only [hk, hne, ne_eq, not_false_eq_true, if_true]
    exact (sendTlvErrorResponse_untouched ho _ _).2 k hk

/-- Short of the context, a message of another connection changes nothing. -/
theorem onSetupMessage_untouched (ho : ¬ Owns w c) (hr : ¬ ReachesContext message) :
    ∃ w', onSetupMessage w c message = .ok w' ∧ AttemptUntouched w w' := by
  simp only [ReachesContext, not_or, not_and] at hr
  unfold onSetupMessage
  split
  · exact ⟨_, rfl, pairSetupM1_untouched ho⟩
  · split
    · rename_i h3
      unfold pairSetupM3
      cases hkey : tlvGetValue message TLVType.publicKey with
      | none => exact ⟨_, rfl, sendTlvErrorResponse_untouched ho _ _⟩
      | some key =>
        cases hproof : tlvGetValue message TLVType.proof with
        | none => exact ⟨_, rfl, sendTlvErrorResponse_untouched ho _ _⟩
        | some proof => exact absurd (by simp [hproof]) (hr.1 h3 (by simp [hkey]))
    · rw [if_neg hr.2]
      exact ⟨w, rfl, AttemptUntouched.refl w⟩

theorem messageEnd_untouched (w : World P) (c : ClientId) : AttemptUntouched w (messageEnd w c) := by
  unfold messageEnd
  split <;> exact ⟨rfl, fun _ hk => ⟨hk, rfl⟩⟩

theorem AttemptUntouched.trans {w'' : World P} (h : AttemptUntouched w w') (hh : AttemptUntouched w' w'') :
    AttemptUntouched w w'' := by
  refine ⟨hh.1.trans h.1, fun k hk => ?_⟩
  obtain ⟨hk', hctx⟩ := h.2 k hk
  obtain ⟨hk'', hctx'⟩ := hh.2 k hk'
  exact ⟨hk'', hctx'.trans hctx⟩

theorem ownerOnly_iff {a : Action P} (hw : ContextsKept w) : OwnerOnly w a ↔ InAttempt w a := by
  constructor
  · exact fun h c message ha hr => hw.owns_iff.mp (h.owner c message ha hr)
  · intro h
    refine ⟨fun c message ha hr => hw.owns_iff.mpr (h c message ha hr), fun c message ha ho => ?_⟩
    have hr : ¬ ReachesContext message := fun hr => ho (hw.owns_iff.mpr (h c message ha hr))
    have ho' : ¬ Owns (restarted (messageEntry w c) c) c := ho
    obtain ⟨u, hu, hunt⟩ := onSetupMessage_untouched ho' hr
    rw [setupAction_step ha, hu]
    refine ⟨by simp [Except.map], fun w' hw' => ?_⟩
    obtain rfl := Except.ok.inj hw'
    have hentry : AttemptUntouched w (restarted (messageEntry w c) c) := ⟨rfl, fun _ hk => ⟨hk, rfl⟩⟩
    exact (hentry.trans hunt).trans (messageEnd_untouched u c)

/-- From boot on, the pairing context is for its owner in every step that is tried exactly if
every M3 and M5 is sent within an attempt of its sender. -/
theorem owner_only_run_iff (accessoryId : Bytes) (accessoryKey : Ed25519Key) (password : Option Bytes)
    (flash : Flash) (app : P.App) (clients : ClientId → Client P) (contexts : ContextId → PairingContext)
    (as : List (Action P)) :
    let s := serverBoot accessoryId accessoryKey password flash app clients contexts
    Tried step OwnerOnly s as ↔ Tried step InAttempt s as :=
  Tried.congr (I := ContextsKept) (fun _ _ _ hi h _ => step_contextsKept hi h) (fun _ _ hi => ownerOnly_iff hi) as
    (serverBoot_contextsKept accessoryId accessoryKey password flash app clients contexts)

/-- The connection has an M3 complete, no context is in use, and the handler falls over. -/
def strayM3 (w : World bench) (c : ClientId) : Bool :=
  c < w.clientCount && w.pairingContext.isNone &&
    (setupMessage (messageEntry w c) c).any (fun message =>
      messageState message = 3 && (tlvGetValue message TLVType.publicKey).isSome &&
        (tlvGetValue message TLVType.proof).isSome) &&
    match step w (.event c .messageComplete) with
    | .error e => e = .nullDereference
    | .ok _ => false

theorem stray_run :
    ends step (benchBoot []) (.accept benchClient :: (setupM3 0 "111-11-111").take 3)
    (fun w => strayM3 w 0) = true := by
  decide +kernel

/-- An M3 that was not preceded by an M1 works on a context that is not there. -/
theorem stray_m3_dereferences_null :
    ∃ w, run step (benchBoot []) (.accept benchClient :: (setupM3 0 "111-11-111").take 3) = .ok w ∧
      step w (.event 0 .messageComplete) = .error .nullDereference ∧ ¬ OwnerOnly w (.event 0 .messageComplete) := by
  obtain ⟨w, hw, hp⟩ := ends_spec stray_run
  simp only [strayM3, Bool.and_eq_true, decide_eq_true_eq, Option.any_eq_true, Option.isNone_iff_eq_none] at hp
  obtain ⟨⟨⟨hc, hn⟩, message, hm, ⟨h3, hkey⟩, hproof⟩, hfault⟩ := hp
  have hs : step w (.event 0 .messageComplete) = .error .nullDereference := by
    split at hfault
    · rename_i e he
      rw [he, of_decide_eq_true hfault]
    · simp at hfault
  refine ⟨w, hw, hs, fun h => ?_⟩
  have hr : ReachesContext message := Or.inl
    ⟨h3, Option.isSome_iff_ne_none.mp hkey, Option.isSome_iff_ne_none.mp hproof⟩
  obtain ⟨k, hk, _⟩ := h.owner 0 message ⟨rfl, hc, hm⟩ hr
  exact absurd (hn.symm.trans hk) (by simp)

end ArduinoHomeKit
