import ArduinoHomeKit.Updates

/-! The life of a pairing context: it is prepared, becomes the one in use, and is freed once.
The log tells at any time which contexts were opened for whom and which were freed. -/

namespace ArduinoHomeKit

open Labelled Runs

variable {P : Platform} {c : ClientId} {w w' : World P} {S : Scope P}

def isContextEvent : Event → Bool
  | .contextOpened .. | .contextFreed .. => true
  | _ => false

def contextEvents (w : World P) : List Event := w.trace.filter isContextEvent

structure ContextsKept (w : World P) : Prop where
  saved : ∀ k, w.savedPreinitPairingContext = some k →
    k < w.contextCount ∧ .contextFreed k ∉ contextEvents w
  current : ∀ k, w.pairingContext = some k → w.savedPreinitPairingContext = some k ∧
    ∃ c, (w.contexts k).client = some c ∧ .contextOpened k c ∈ contextEvents w
  opened : ∀ k c, .contextOpened k c ∈ contextEvents w →
    .contextFreed k ∈ contextEvents w ∨ w.pairingContext = some k ∧ (w.contexts k).client = some c
  freed : ∀ k, .contextFreed k ∈ contextEvents w → k < w.contextCount
  once : ∀ k, (contextEvents w).count (.contextFreed k) ≤ 1

theorem ContextsKept.congr (h : ContextsKept w) (h1 : w'.pairingContext = w.pairingContext)
    (h2 : w'.savedPreinitPairingContext = w.savedPreinitPairingContext) (h3 : w'.contextCount = w.contextCount)
    (h4 : ∀ k, (w'.contexts k).client = (w.contexts k).client) (h5 : contextEvents w' = contextEvents w) :
    ContextsKept w' where
  saved := by rw [h2, h3, h5]; exact h.saved
  current := by simp only [h1, h2, h4, h5]; exact h.current
  opened := by simp only [h1, h4, h5]; exact h.opened
  freed := by rw [h3, h5]; exact h.freed
  once := by rw [h5]; exact h.once

theorem contextEvents_log {e : Event} (he : isContextEvent e = false) (w : World P) :
    contextEvents (w.log e) = contextEvents w := by
  simp [contextEvents, World.log, he]

theorem contextEvents_log_of {e : Event} (he : isContextEvent e = true) (w : World P) :
    contextEvents (w.log e) = contextEvents w ++ [e] := by
  simp [contextEvents, World.log, he]

theorem ContextsKept.log (h : ContextsKept w) {e : Event} (he : isContextEvent e = false) : ContextsKept (w.log e) :=
  h.congr rfl rfl rfl (fun _ => rfl) (contextEvents_log he w)

theorem ContextsKept.client (h : ContextsKept w) (c : ClientId) (x : Client P) : ContextsKept (w.setClient c x) :=
  h.congr rfl rfl rfl (fun _ => rfl) rfl

/-- A context that nobody has freed so far is given up. -/
theorem ContextsKept.free {k : ContextId} (h : ContextsKept w) (hk : w.pairingContext = some k) :
    ContextsKept { pairingContextFree w k with pairingContext := none } := by
  have hs := (h.current k hk).1
  have hnot := (h.saved k hs).2
  have hev : contextEvents { pairingContextFree w k with pairingContext := none } =
      contextEvents w ++ [.contextFreed k] := contextEvents_log_of rfl _
  have hsaved : ({ pairingContextFree w k with pairingContext := none } : World P).savedPreinitPairingContext =
      none := by simp [pairingContextFree, World.log, hs]
  refine ⟨?_, ?_, ?_, ?_, ?_⟩
  · intro j hj
    exact absurd (hsaved.symm.trans hj) (by simp)
  · simp
  · intro j d hj
    rw [hev] at hj ⊢
    have hj : .contextOpened j d ∈ contextEvents w := by simpa using hj
    rcases h.opened j d hj with hf | ⟨hc, _⟩
    · exact Or.inl (List.mem_append_left _ hf)
    · obtain rfl : k = j := Option.some.inj (hk.symm.trans hc)
      exact Or.inl (by simp)
  · intro j hj
    rw [hev, List.mem_append, List.mem_singleton, Event.contextFreed.injEq] at hj
    rcases hj with hj | rfl
    · exact h.freed j hj
    · exact (h.saved j hs).1
  · intro j
    rw [hev, List.count_append]
    by_cases hj : j = k
    · subst hj
      simp [List.count_eq_zero_of_not_mem hnot]
    · have hne : ¬ k = j := fun he => hj he.symm
      simpa [List.count_singleton, hne] using h.once j

theorem ContextsKept.close (h : ContextsKept w) (c : ClientId) : ContextsKept (homekitServerCloseClient w c) := by
  have hu : ContextsKept (unlinked w c) := h.congr rfl rfl rfl (fun _ => rfl) rfl
  by_cases ho : Owns w c
  · obtain ⟨k, hk, ho⟩ := ho
    rw [homekitServerCloseClient_of_owner hk ho]
    exact (hu.free (k := k) hk).log rfl
  · rw [homekitServerCloseClient_of_not_owner ho]
    exact hu.log rfl

/-- With no context waiting none is in use, and every opened one was freed. -/
theorem ContextsKept.opened_of_none (h : ContextsKept w) (hs : w.savedPreinitPairingContext = none) {k : ContextId}
    (hk : .contextOpened k c ∈ contextEvents w) : .contextFreed k ∈ contextEvents w := by
  rcases h.opened k c hk with hf | ⟨hc, _⟩
  · exact hf
  · have hsk := (h.current k hc).1
    simp [hs] at hsk

theorem ContextsKept.preinit (h : ContextsKept w) : ContextsKept (arduinoHomekitPreinit w).2 := by
  have hnone : w.savedPreinitPairingContext = none → w.pairingContext = none := by
    intro hs
    cases hc : w.pairingContext with
    | none => rfl
    | some k => exact absurd ((h.current k hc).1) (by simp [hs])
  have hnew : .contextFreed w.contextCount ∉ contextEvents w :=
    fun hf => Nat.lt_irrefl _ (h.freed _ hf)
  rcases arduinoHomekitPreinit_cases w with ⟨_, he⟩ | ⟨hs, ⟨_, he⟩ | ⟨_, he⟩⟩
  · rw [he]
    exact h
  · have hev : contextEvents (pairingContextFree (prepared w) w.contextCount) =
        contextEvents w ++ [.contextFreed w.contextCount] := contextEvents_log_of rfl _
    have hsv : (pairingContextFree (prepared w) w.contextCount).savedPreinitPairingContext = none := by
      simp [pairingContextFree, World.log, prepared, World.setContext, hs]
    have hpc : (pairingContextFree (prepared w) w.contextCount).pairingContext = none := hnone hs
    rw [he]
    refine ⟨?_, ?_, ?_, ?_, ?_⟩
    · simp [hsv]
    · simp [hpc]
    · intro j d hj
      rw [hev] at hj ⊢
      have hj : .contextOpened j d ∈ contextEvents w := by simpa using hj
      exact Or.inl (List.mem_append_left _ (h.opened_of_none hs hj))
    · intro j hj
      rw [hev, List.mem_append, List.mem_singleton, Event.contextFreed.injEq] at hj
      rcases hj with hj | rfl
      · exact Nat.lt_succ_of_lt (h.freed j hj)
      · exact Nat.lt_succ_self _
    · intro j
      rw [hev, List.count_append]
      by_cases hj : j = w.contextCount
      · subst hj
        simp [List.count_eq_zero_of_not_mem hnew]
      · have hne : ¬ w.contextCount = j := fun he => hj he.symm
        simpa [List.count_singleton, hne] using h.once j
  · rw [he]
    refine ⟨?_, ?_, ?_, ?_, h.once⟩
    · intro k hk
      obtain rfl := Option.some.inj hk
      exact ⟨Nat.lt_succ_self _, hnew⟩
    · intro k hk
      exact absurd hk (by simp [prepared, World.setContext, hnone hs])
    · exact fun j d hj => Or.inl (h.opened_of_none hs hj)
    · exact fun j hj => Nat.lt_succ_of_lt (h.freed j hj)

/-- Opening the waiting context, when none is in use. -/
theorem ContextsKept.open {k : ContextId} (h : ContextsKept w) (hn : w.pairingContext = none)
    (hk : w.savedPreinitPairingContext = some k) (c : ClientId) : ContextsKept (openContext w c k) := by
  have hev : contextEvents (openContext w c k) = contextEvents w ++ [.contextOpened k c] := contextEvents_log_of rfl _
  have howner : ((openContext w c k).contexts k).client = some c := by
    simp [openContext, World.log, World.setContext]
  refine ⟨?_, ?_, ?_, ?_, ?_⟩
  · intro j hj
    obtain ⟨hlt, hf⟩ := h.saved j hj
    exact ⟨hlt, by simpa [hev] using hf⟩
  · intro j hj
    obtain rfl := Option.some.inj hj
    exact ⟨hk, c, howner, by simp [hev]⟩
  · intro j d hj
    rw [hev, List.mem_append, List.mem_singleton, Event.contextOpened.injEq] at hj
    rcases hj with hj | ⟨rfl, rfl⟩
    · rcases h.opened j d hj with hf | ⟨hc, _⟩
      · exact Or.inl (by rw [hev]; exact List.mem_append_left _ hf)
      · simp [hn] at hc
    · exact Or.inr ⟨rfl, howner⟩
  · intro j hj
    rw [hev] at hj
    exact h.freed j (by simpa using hj)
  · intro j
    rw [hev, List.count_append]
    simpa using h.once j

/-- What a failed or a successful write keeps, client_send keeps. -/
theorem clientSend_invariant {I : World P → Prop} (c : ClientId)
    (hcl : ∀ w x, I w → x.socket = (w.client c).socket → I (w.setClient c x))
    (hn : ∀ w n, I w → I { w with sends := n })
    (hclose : ∀ w, I w → (w.client c).socket ≠ none → I (homekitServerCloseClient w c))
    (hsent : ∀ w data, I w → I (w.log (.sent c data))) (w : World P) (data : Bytes) (h : I w) :
    I (clientSend w c data) := by
  refine clientSend_rule c (fun _ _ h => hcl _ _ h rfl) (fun w data h => ?_) w data h
  unfold write
  split
  · exact h
  · rename_i socket hs
    dsimp only
    split
    · exact hn w _ h
    · split
      · exact hn w _ h
      · split
        · exact hclose _ (hcl _ _ (hn w _ h) rfl) (by simp [hs])
        · exact hsent _ _ (hn w _ h)

theorem ContextsKept.send (h : ContextsKept w) (c : ClientId) (data : Bytes) : ContextsKept (clientSend w c data) :=
  clientSend_invariant c (fun _ x h _ => h.client c x) (fun _ _ h => h.congr rfl rfl rfl (fun _ => rfl) rfl)
    (fun _ h _ => h.close c) (fun _ _ h => h.log rfl) w data h

theorem IsNeutral.not_context {e : Event} (h : IsNeutral e) : isContextEvent e = false := by
  cases e <;> first | rfl | exact h.elim

theorem Update.contextsKept (hu : Update S w w') (h : ContextsKept w) : ContextsKept w' := by
  cases hu with
  | client c x _ => exact h.client c x
  | log e he => exact h.log he.not_context
  | globals flash paired app now => exact h.congr rfl rfl rfl (fun _ => rfl) rfl
  | accept raw =>
    unfold homekitServerAcceptClient
    split
    · exact h
    · have hc : ContextsKept { w.setClient w.clientCount (clientContextNew raw) with
          clientCount := w.clientCount + 1, clients := w.clientCount :: w.clients, nfds := w.nfds + 1 } :=
        h.congr rfl rfl rfl (fun _ => rfl) rfl
      exact hc.log (e := .connected w.clientCount) rfl
  | buffer c b _ => exact h.client c _
  | close c => exact h.close c
  | preinit => exact h.preinit
  | opened c k _ hn hk => exact h.open hn hk c
  | context k x hx =>
    refine h.congr rfl rfl rfl (fun j => ?_) rfl
    by_cases hj : j = k
    · subst hj
      simp [World.setContext, hx]
    · simp [World.setContext, Function.update_of_ne hj]
  | free k hk => exact h.free hk
  | session c request pairing _ _ => exact (h.client c _).log rfl

theorem step_contextsKept {a : Action P} (h : ContextsKept w) (hs : step w a = .ok w') : ContextsKept w' :=
  step_invariant (fun _ _ h hu => hu.contextsKept h) (fun _ c data h => h.send c data) hs h

theorem serverBoot_contextsKept (accessoryId : Bytes) (accessoryKey : Ed25519Key) (password : Option Bytes)
    (flash : Flash) (app : P.App) (clients : ClientId → Client P) (contexts : ContextId → PairingContext) :
    ContextsKept (serverBoot accessoryId accessoryKey password flash app clients contexts) := by
  refine ⟨?_, ?_, ?_, ?_, ?_⟩ <;> simp [serverBoot, contextEvents]

/-- A connection owns the context in use exactly if a context was opened for it that has not
been freed since. -/
theorem ContextsKept.owns_iff (h : ContextsKept w) :
    Owns w c ↔ ∃ k, .contextOpened k c ∈ w.trace ∧ .contextFreed k ∉ w.trace := by
  have hmem : ∀ {e : Event}, isContextEvent e = true → (e ∈ contextEvents w ↔ e ∈ w.trace) := by
    intro e he
    simp [contextEvents, List.mem_filter, he]
  constructor
  · rintro ⟨k, hk, ho⟩
    obtain ⟨hs, d, hd, hopen⟩ := h.current k hk
    obtain rfl : c = d := Option.some.inj (ho.symm.trans hd)
    exact ⟨k, (hmem rfl).mp hopen, fun hf => (h.saved k hs).2 ((hmem rfl).mpr hf)⟩
  · rintro ⟨k, hopen, hf⟩
    rcases h.opened k c ((hmem rfl).mpr hopen) with hfreed | hc
    · exact absurd ((hmem rfl).mp hfreed) hf
    · exact ⟨k, hc⟩

end ArduinoHomeKit
