import ArduinoHomeKit.News
import ArduinoHomeKit.Bench

/-! The proof of the setup code behind a pairing that is stored. M5 looks neither at the
owner of the pairing context nor at the progress of the attempt, so a run is right exactly
if every M5 that can be opened comes from the owner, after its proof was accepted. -/

namespace ArduinoHomeKit

open Growth Runs

variable {P : Platform} {c d : ClientId} {k : ContextId} {w w' w'' : World P}

/-- The connection opened the context, and after that proved the setup code on it. -/
def Proven (w : World P) (k : ContextId) (c : ClientId) : Prop :=
  [Event.contextOpened k c, .srpVerified k c].Sublist w.trace

/-- The pairing contexts against the log. -/
structure Opened (w : World P) : Prop where
  owner : ∀ k c, .contextOpened k c ∈ w.trace → k < w.contextCount ∧ (w.contexts k).client = some c
  current : ∀ k, w.pairingContext = some k → ∃ c, .contextOpened k c ∈ w.trace
  saved : ∀ k c, .contextOpened k c ∈ w.trace → w.savedPreinitPairingContext = some k →
    w.pairingContext = some k
  proof : ∀ k d, .srpVerified k d ∈ w.trace →
    ∃ c, [Event.contextOpened k c, .srpVerified k d].Sublist w.trace

/-- Every pairing that the step stores has its proof. -/
def StoresProven (w w' : World P) : Prop :=
  ∀ k c request r, .addPairing k c request r ∈ news w w' → Proven w k c

/-- An M5 that can be opened comes from the owner of the context, after its proof. -/
def ArrivesProven (w : World P) : Option (ClientId × Request) → Prop
  | some (c, .store k _ request) =>
    cryptoEd25519Verify P.crypto request.key request.info request.signature = 0 →
      (w.contexts k).client = some c ∧ .srpVerified k c ∈ w.trace
  | _ => True

/-- The entries of the log that tell nothing about a pairing attempt. -/
def IsAside : Event → Prop
  | .contextOpened .. | .srpVerified .. => False
  | _ => True

structure Aside (w w' : World P) : Prop extends Attempts w w' where
  trace : Adds IsAside w.trace w'.trace

theorem Opened.proven_iff (h : Opened w) :
    Proven w k c ↔ (w.contexts k).client = some c ∧ .srpVerified k c ∈ w.trace := by
  constructor
  · intro hp
    have hmem := hp.subset
    exact ⟨(h.owner k c (hmem (by simp))).2, hmem (by simp)⟩
  · rintro ⟨ho, hv⟩
    obtain ⟨d, hd⟩ := h.proof k c hv
    have hd' := (h.owner k d (hd.subset (by simp))).2
    obtain rfl : c = d := Option.some.inj (ho.symm.trans hd')
    exact hd

theorem Aside.trans (h : Aside w w') (hh : Aside w' w'') : Aside w w'' :=
  ⟨h.toAttempts.trans hh.toAttempts, h.trace.trans hh.trace⟩

theorem IsIdle.isAside {e : Event} (h : IsIdle e) : IsAside e := by
  cases e <;> first | exact h.elim | trivial

theorem Idle.aside (h : Idle w w') : Aside w w' := ⟨h.toAttempts, h.trace.mono (fun _ he => he.isAside)⟩

theorem Quiet.aside (h : Quiet c w w') : Aside w w' := h.idle.aside

/-- Updates that leave the pairing contexts alone. -/
theorem Aside.of_eq (h1 : w'.pairingContext = w.pairingContext) (h2 : w'.contextCount = w.contextCount)
    (h3 : w'.savedPreinitPairingContext = w.savedPreinitPairingContext) (h4 : w'.contexts = w.contexts)
    (h5 : Adds IsAside w.trace w'.trace) : Aside w w' :=
  ⟨⟨Or.inl h1, Nat.le_of_eq h2.symm, fun k hk => Or.inl (h3 ▸ hk), fun _ _ hk _ => h1.trans hk,
    fun _ _ => by rw [h4]⟩, h5⟩

theorem Aside.log {e : Event} (he : IsAside e) (w : World P) : Aside w (w.log e) :=
  Aside.of_eq rfl rfl rfl rfl (Adds.single _ he)

theorem Aside.opened (h : Aside w w') (ho : Opened w) : Opened w' where
  owner k c hm := by
    obtain ⟨hk, hc⟩ := ho.owner k c ((h.trace.mem_iff (id : ¬ IsAside (.contextOpened k c))).mp hm)
    exact ⟨Nat.lt_of_lt_of_le hk h.contextCount, (h.owners k hk).trans hc⟩
  current k hk := by
    rcases h.context with he | he
    · obtain ⟨c, hc⟩ := ho.current k (he ▸ hk)
      exact ⟨c, h.trace.mem hc⟩
    · simp [he] at hk
  saved k c hm hs := by
    have hm' := (h.trace.mem_iff (id : ¬ IsAside (.contextOpened k c))).mp hm
    have hk := (ho.owner k c hm').1
    rcases h.saved k hs with hs' | hs'
    · exact h.dropped k hk (ho.saved k c hm' hs') hs
    · exact absurd hs'.1 (Nat.not_le_of_lt hk)
  proof k d hv := by
    obtain ⟨c, hc⟩ := ho.proof k d ((h.trace.mem_iff (id : ¬ IsAside (.srpVerified k d))).mp hv)
    exact ⟨c, hc.trans h.trace.isPrefix.sublist⟩

/-- A context is opened once, for the connection that becomes its owner. -/
theorem Opened.newContext (h : Opened w) (hw : WellFormed w) (hn : w.pairingContext = none)
    (hk : w.savedPreinitPairingContext = some k) : Opened (openContext w c k) := by
  have hnew : ∀ d, .contextOpened k d ∉ w.trace := fun d hd => by simp [h.saved k d hd hk] at hn
  have hmem : ∀ j d, .contextOpened j d ∈ (openContext w c k).trace → .contextOpened j d ∈ w.trace ∨ j = k ∧ d = c := by
    intro j d hm
    rcases List.mem_append.mp hm with hm | hm
    · exact Or.inl hm
    · exact Or.inr (by simpa using hm)
  refine ⟨fun j d hm => ?_, fun j hj => ?_, fun j d hm hs => ?_, fun j d hv => ?_⟩
  · rcases hmem j d hm with hm | ⟨rfl, rfl⟩
    · obtain ⟨hj, hd⟩ := h.owner j d hm
      have hne : j ≠ k := fun he => hnew d (he ▸ hm)
      exact ⟨hj, (congrArg PairingContext.client (Function.update_of_ne hne ..)).trans hd⟩
    · exact ⟨hw.saved j hk, by simp [openContext, World.log, World.setContext]⟩
  · obtain rfl : k = j := Option.some.inj hj
    exact ⟨c, by simp [openContext, World.log]⟩
  · obtain rfl : j = k := Option.some.inj (hs.symm.trans hk)
    rfl
  · obtain ⟨e, he⟩ := h.proof j d ((mem_log_iff_of_ne (by simp)).mp hv)
    exact ⟨e, he.trans (List.sublist_append_left ..)⟩

/-- A proof is made on the context in use, which was opened before. -/
theorem Opened.srpVerified (h : Opened w) (hk : w.pairingContext = some k) :
    Opened (w.log (.srpVerified k c)) where
  owner j d hm := h.owner j d ((mem_log_iff_of_ne (by simp)).mp hm)
  current j hj := by
    obtain ⟨d, hd⟩ := h.current j hj
    exact ⟨d, (mem_log_iff_of_ne (by simp)).mpr hd⟩
  saved j d hm hs := h.saved j d ((mem_log_iff_of_ne (by simp)).mp hm) hs
  proof j d hv := by
    rcases List.mem_append.mp hv with hv | hv
    · obtain ⟨e, he⟩ := h.proof j d hv
      exact ⟨e, he.trans (List.sublist_append_left ..)⟩
    · obtain ⟨rfl, rfl⟩ : j = k ∧ d = c := by simpa using hv
      obtain ⟨e, he⟩ := h.current j hk
      exact ⟨e, (List.singleton_sublist.mpr he).append (List.Sublist.refl _)⟩

theorem Passive.opened_ok (h : Passive c w w') (hs : Sound w) (ho : Opened w) : Opened w' := by
  cases h with
  | quiet h => exact h.aside.opened ho
  | opened w₁ k h _ hn hk hh =>
    exact hh.aside.opened ((h.aside.opened ho).newContext (h.sound hs).wellFormed hn hk)
  | proved w₁ w₂ k h hk hq hh =>
    have hc : Aside w₂ (w₂.setClient c { w₂.client c with step := .pairSetup2Of3 }) :=
      Aside.of_eq rfl rfl rfl rfl (Adds.refl _ _)
    exact (hq.aside.trans (hc.trans hh.aside)).opened ((h.aside.opened ho).srpVerified hk)
  | started w₁ context h hh =>
    have hc : Aside w₁ (startVerify w₁ c context) :=
      Aside.of_eq rfl rfl rfl rfl (Adds.single _ (by trivial : IsAside (.verifyStarted c _ _)))
    exact (h.aside.trans (hc.trans hh.aside)).opened ho

theorem Stored.aside {s : Bytes} {request : SignedRequest} (h : Stored c k s request w w') : Aside w w' := by
  have hadd : ∀ (v : World P) f r, Aside v ({ v with flash := f }.log (.addPairing k c request r)) :=
    fun v f r => Aside.of_eq rfl rfl rfl rfl (Adds.single _ (by trivial : IsAside (.addPairing k c request r)))
  cases h with
  | failed w₁ r f h _ _ hh => exact h.aside.trans ((hadd w₁ f r).trans hh.aside)
  | finished w₁ w₂ f h _ _ hq _ hh =>
    have hp : Aside w₂ { w₂ with paired := true } := Aside.of_eq rfl rfl rfl rfl (Adds.refl _ _)
    exact h.aside.trans ((hadd w₁ f 0).trans (hq.aside.trans (hp.trans hh.aside)))

theorem Removed.aside {deviceId : Bytes} (h : Removed c deviceId w w') : Aside w w' := by
  cases h with
  | absent _ h => exact h.aside
  | refused w₁ r f h _ _ hh =>
    have hf : Aside w₁ { w₁ with flash := f } := Aside.of_eq rfl rfl rfl rfl (Adds.refl _ _)
    exact h.aside.trans (hf.trans hh.aside)
  | done w₁ f pairing h _ _ hh =>
    have hr := revoke_revokes w₁ c deviceId pairing f
    have ha : Aside w₁ (revoke w₁ c deviceId pairing f) :=
      Aside.of_eq hr.pairingContext hr.contextCount hr.saved hr.contexts
        (hr.trace ▸ Adds.single _ (by trivial : IsAside (.pairingRemoved c deviceId)))
    exact h.aside.trans (ha.trans hh.aside)

theorem Effect.opened {q : Option Request} (h : Effect c w w' q) (hs : Sound w) (ho : Opened w) : Opened w' := by
  match q, h with
  | none, h => exact Passive.opened_ok h hs ho
  | some (.store k s request), ⟨_, h⟩ =>
    split at h
    · exact h.aside.opened ho
    · exact h.aside.opened ho
  | some (.verify context request pairing), ⟨_, _, h⟩ =>
    split at h
    · exact h.aside.opened ho
    · obtain ⟨w₁, h₁, _, hh⟩ := h
      have hopen : Aside w₁ (openSession w₁ c request pairing) :=
        Aside.of_eq rfl rfl rfl rfl (Adds.single _ (by trivial : IsAside (.verified c request)))
      exact (h₁.aside.trans (hopen.trans hh.aside)).opened ho
  | some (.add request), ⟨_, w₁, r, f, h₁, _, hh⟩ =>
    have hf : Aside w₁ { w₁ with flash := f } := Aside.of_eq rfl rfl rfl rfl (Adds.refl _ _)
    exact (h₁.aside.trans (hf.trans hh.aside)).opened ho
  | some (.remove deviceId), ⟨_, h⟩ => exact h.aside.opened ho

theorem step_opened {a : Action P} (hs : Sound w) (ho : Opened w) (h : step w a = .ok w') : Opened w' := by
  rcases step_cases h with ⟨_, hi⟩ | ⟨c, q, _, _, _, he⟩
  · exact hi.aside.opened ho
  · have hi := arrived_idle w c
    exact he.opened (hi.sound hs) (hi.aside.opened ho)

theorem step_storesProven {a : Action P} (ho : Opened w) (h : step w a = .ok w') :
    StoresProven w w' ↔ ArrivesProven w (requested w a) := by
  constructor
  · intro hp
    rcases step_cases h with ⟨hr, _⟩ | ⟨c, q, _, _, hr, he⟩
    · rw [hr]
      trivial
    · rw [hr]
      match q, he with
      | none, _ => trivial
      | some (.verify ..), _ => trivial
      | some (.add _), _ => trivial
      | some (.remove _), _ => trivial
      | some (.store k s request), ⟨_, he⟩ =>
        intro hv
        rw [if_neg (not_not.mpr hv)] at he
        obtain ⟨r, _, _, hm⟩ := he.mem_news (arrived_idle w c).trace
        exact ho.proven_iff.mp (hp k c request r ((hm _ id).mpr rfl))
  · intro hp k d request r hm
    obtain ⟨c, q, _, _, hr, he, hd⟩ := step_news h hm id
    match q, he, hd with
    | none, _, hd => exact hd.elim
    | some (.verify ..), _, hd => simp [Decisive] at hd
    | some (.add _), _, hd => exact hd.elim
    | some (.remove _), _, hd => simp [Decisive] at hd
    | some (.store j s request'), ⟨_, he⟩, hd =>
      obtain ⟨r', hd⟩ := hd
      obtain ⟨rfl, rfl, rfl, rfl⟩ := Event.addPairing.inj hd
      rw [hr] at hp
      refine ho.proven_iff.mpr (hp ?_)
      by_contra hv
      rw [if_pos hv] at he
      exact ArduinoHomeKit.mem_news ((arrived_idle w d).trans he.idle).trace hm

/-- From boot on, no pairing is stored without a proof of the setup code by its connection on
the context it opened exactly if every M5 that can be opened comes with one. -/
theorem storesProven_run_iff (accessoryId : Bytes) (accessoryKey : Ed25519Key) (password : Option Bytes)
    (flash : Flash) (app : P.App) (clients : ClientId → Client P) (contexts : ContextId → PairingContext)
    (as : List (Action P)) :
    let s := serverBoot accessoryId accessoryKey password flash app clients contexts
    Always step (fun w _ w' => StoresProven w w') s as ↔
      Always step (fun w a _ => ArrivesProven w (requested w a)) s as :=
  Always.congr (I := fun w => Sound w ∧ Opened w)
    (fun _ _ _ hi h _ => ⟨step_sound hi.1 h, step_opened hi.1 hi.2 h⟩)
    (fun _ _ _ hi h => step_storesProven hi.2 h) as
    ⟨serverBoot_sound accessoryId accessoryKey password flash app clients contexts,
      ⟨fun _ _ h => absurd h List.not_mem_nil, fun _ h => by simp [serverBoot] at h,
        fun _ _ h => absurd h List.not_mem_nil, fun _ _ h => absurd h List.not_mem_nil⟩⟩

theorem unproven_setup_run :
    ends step (benchBoot [])
      (.accept benchClient :: (setupM1 0 ++ setupM5 0 7 2 (signedBy 2))) (fun w => w.trace.any (fun e => match e with | .addPairing _ d _ r => d == 0 && r == 0 | _ => false) &&
      w.trace.all (fun e => match e with | .srpVerified .. => false | _ => true)) = true := by
  decide +kernel

/-- Without any M3, an M5 sealed under the key that an empty secret gives is stored. -/
theorem stored_without_proof :
    ∃ w, run step (benchBoot []) (.accept benchClient :: (setupM1 0 ++ setupM5 0 7 2 (signedBy 2))) = .ok w ∧
      ∃ k request, .addPairing k 0 request 0 ∈ w.trace ∧ ¬ Proven w k 0 := by
  obtain ⟨w, hw, hp⟩ := ends_spec unproven_setup_run
  simp only [Bool.and_eq_true, List.any_eq_true, List.all_eq_true] at hp
  obtain ⟨⟨e, he, hadd⟩, hall⟩ := hp
  cases e with
  | addPairing k d request r =>
    simp only [Bool.and_eq_true, beq_iff_eq] at hadd
    obtain ⟨rfl, rfl⟩ := hadd
    refine ⟨w, hw, k, request, he, fun hp => ?_⟩
    have hv : Event.srpVerified k 0 ∈ w.trace := hp.subset (by simp)
    simpa using hall _ hv
  | _ => simp at hadd

end ArduinoHomeKit
