import Mathlib.Data.List.Induction

/-! Runs of a deterministic machine whose steps may fault, and the rules that carry
a property of one step over a whole run. -/

namespace Runs

variable {σ α ε : Type*} {step : σ → α → Except ε σ}

/-- The run of a list of actions. It ends at the first fault. -/
def run (step : σ → α → Except ε σ) : σ → List α → Except ε σ
  | s, [] => .ok s
  | s, a :: as =>
    match step s a with
    | .ok t => run step t as
    | .error e => .error e

/-- Every step the run takes satisfies `p`. Steps that fault are not taken. -/
def Always (step : σ → α → Except ε σ) (p : σ → α → σ → Prop) : σ → List α → Prop
  | _, [] => True
  | s, a :: as => ∀ t, step s a = .ok t → p s a t ∧ Always step p t as

theorem run_cons_ok {s t : σ} {a : α} {as : List α} :
    run step s (a :: as) = .ok t ↔ ∃ u, step s a = .ok u ∧ run step u as = .ok t := by
  cases h : step s a <;> simp [run, h]

theorem run_append {s : σ} (as bs : List α) {t : σ} :
    run step s (as ++ bs) = .ok t ↔ ∃ u, run step s as = .ok u ∧ run step u bs = .ok t := by
  induction as generalizing s with
  | nil => simp [run]
  | cons a as ih =>
    simp only [List.cons_append, run_cons_ok, ih]
    constructor
    · rintro ⟨u, hu, v, hv, ht⟩
      exact ⟨v, ⟨u, hu, hv⟩, ht⟩
    · rintro ⟨v, ⟨u, hu, hv⟩, ht⟩
      exact ⟨u, hu, v, hv, ht⟩

theorem run_single {s t : σ} {a : α} : run step s [a] = .ok t ↔ step s a = .ok t := by
  cases h : step s a <;> simp [run, h]

theorem Always.of_forall {p : σ → α → σ → Prop} (h : ∀ s a t, step s a = .ok t → p s a t) :
    ∀ (s : σ) (as : List α), Always step p s as
  | _, [] => trivial
  | s, a :: as => fun t ht => ⟨h s a t ht, Always.of_forall h t as⟩

/-- A property kept by every step that satisfies the guard holds at the end of
every run whose steps all satisfy the guard. -/
theorem Always.invariant {p : σ → α → σ → Prop} {I : σ → Prop}
    (hstep : ∀ s a t, I s → step s a = .ok t → p s a t → I t)
    {s t : σ} {as : List α} (hs : I s) (hp : Always step p s as) (hr : run step s as = .ok t) :
    I t := by
  induction as generalizing s with
  | nil => simpa [run] using (Except.ok.inj hr) ▸ hs
  | cons a as ih =>
    obtain ⟨u, hu, ht⟩ := run_cons_ok.mp hr
    have hh := hp u hu
    exact ih (hstep s a u hs hu hh.1) hh.2 ht

theorem invariant {I : σ → Prop} (hstep : ∀ s a t, I s → step s a = .ok t → I t)
    {s t : σ} {as : List α} (hs : I s) (hr : run step s as = .ok t) : I t :=
  Always.invariant (p := fun _ _ _ => True) (fun s a t hi he _ => hstep s a t hi he) hs
    (Always.of_forall (fun _ _ _ _ => trivial) s as) hr

/-- An invariant of the actions so far and the state they lead to. -/
theorem history {I : List α → σ → Prop} {s : σ} (h0 : I [] s)
    (hstep : ∀ as t a u, run step s as = .ok t → I as t → step t a = .ok u → I (as ++ [a]) u)
    {as : List α} {t : σ} (hr : run step s as = .ok t) : I as t := by
  induction as using List.reverseRecOn generalizing t with
  | nil =>
    obtain rfl := Except.ok.inj hr
    exact h0
  | append_singleton as a ih =>
    obtain ⟨u, hu, ha⟩ := (run_append as [a]).mp hr
    exact hstep as u a t hu (ih hu) (run_single.mp ha)

/-- Two step properties that agree wherever an invariant holds agree on whole runs. The
invariant may rest on the first property, and on a guard of the whole run. -/
theorem Always.congr_of_guard {n p q : σ → α → σ → Prop} {I : σ → Prop}
    (hstep : ∀ s a t, I s → step s a = .ok t → n s a t → p s a t → I t)
    (hpq : ∀ s a t, I s → step s a = .ok t → n s a t → (p s a t ↔ q s a t))
    {s : σ} (as : List α) (hs : I s) (hn : Always step n s as) :
    Always step p s as ↔ Always step q s as := by
  induction as generalizing s with
  | nil => exact Iff.rfl
  | cons a as ih =>
    have hrec : ∀ t, step s a = .ok t → p s a t → (Always step p t as ↔ Always step q t as) :=
      fun t ht hp => ih (hstep s a t hs ht (hn t ht).1 hp) (hn t ht).2
    constructor <;> intro hh t ht
    · have hp := (hh t ht).1
      exact ⟨(hpq s a t hs ht (hn t ht).1).mp hp, (hrec t ht hp).mp (hh t ht).2⟩
    · have hp := (hpq s a t hs ht (hn t ht).1).mpr (hh t ht).1
      exact ⟨hp, (hrec t ht hp).mpr (hh t ht).2⟩

theorem Always.congr {p q : σ → α → σ → Prop} {I : σ → Prop}
    (hstep : ∀ s a t, I s → step s a = .ok t → p s a t → I t)
    (hpq : ∀ s a t, I s → step s a = .ok t → (p s a t ↔ q s a t))
    {s : σ} (as : List α) (hs : I s) : Always step p s as ↔ Always step q s as :=
  Always.congr_of_guard (n := fun _ _ _ => True) (fun s a t hi he _ hp => hstep s a t hi he hp)
    (fun s a t hi he _ => hpq s a t hi he) as hs (Always.of_forall (fun _ _ _ _ => trivial) s as)

/-- The guard may be used together with an invariant it keeps to reach a second
step property. -/
theorem Always.imp {p q : σ → α → σ → Prop} {I : σ → Prop}
    (hstep : ∀ s a t, I s → step s a = .ok t → p s a t → I t ∧ q s a t)
    {s : σ} {as : List α} (hs : I s) (hp : Always step p s as) : Always step q s as := by
  induction as generalizing s with
  | nil => trivial
  | cons a as ih =>
    intro t ht
    have hh := hp t ht
    exact ⟨(hstep s a t hs ht hh.1).2, ih (hstep s a t hs ht hh.1).1 hh.2⟩

theorem Always.append {p : σ → α → σ → Prop} {s t : σ} {as bs : List α} (h : Always step p s as)
    (hr : run step s as = .ok t) (hh : Always step p t bs) : Always step p s (as ++ bs) := by
  induction as generalizing s with
  | nil => exact Except.ok.inj hr ▸ hh
  | cons a as ih =>
    obtain ⟨u, hu, hr⟩ := run_cons_ok.mp hr
    intro v hv
    obtain rfl := Except.ok.inj (hu.symm.trans hv)
    exact ⟨(h u hu).1, ih (h u hu).2 hr⟩

theorem Always.single {p : σ → α → σ → Prop} {s t : σ} {a : α} (h : step s a = .ok t) (hp : p s a t) :
    Always step p s [a] := by
  intro u hu
  obtain rfl := Except.ok.inj (h.symm.trans hu)
  exact ⟨hp, trivial⟩

/-- Every step the run tries satisfies `p`, also the one that faults. -/
def Tried (step : σ → α → Except ε σ) (p : σ → α → Prop) : σ → List α → Prop
  | _, [] => True
  | s, a :: as => p s a ∧ ∀ t, step s a = .ok t → Tried step p t as

/-- Two properties of tried steps that agree wherever an invariant holds agree on whole runs. -/
theorem Tried.congr {p q : σ → α → Prop} {I : σ → Prop}
    (hstep : ∀ s a t, I s → step s a = .ok t → p s a → I t) (hpq : ∀ s a, I s → (p s a ↔ q s a))
    {s : σ} (as : List α) (hs : I s) : Tried step p s as ↔ Tried step q s as := by
  induction as generalizing s with
  | nil => exact Iff.rfl
  | cons a as ih =>
    constructor
    · rintro ⟨hp, hrest⟩
      exact ⟨(hpq s a hs).mp hp, fun t ht => (ih (hstep s a t hs ht hp)).mp (hrest t ht)⟩
    · rintro ⟨hq, hrest⟩
      have hp := (hpq s a hs).mpr hq
      exact ⟨hp, fun t ht => (ih (hstep s a t hs ht hp)).mpr (hrest t ht)⟩

/-- A machine that can follow every step of an abstract one follows its runs. -/
theorem simulation {τ ε' : Type*} {abstractStep : τ → α → Except ε' τ} {R : σ → τ → Prop}
    (h : ∀ s t a t', R s t → abstractStep t a = .ok t' → ∃ s', step s a = .ok s' ∧ R s' t')
    {s : σ} {t t' : τ} {as : List α} (hs : R s t) (hr : run abstractStep t as = .ok t') :
    ∃ s', run step s as = .ok s' ∧ R s' t' := by
  induction as generalizing s t with
  | nil => exact ⟨s, rfl, Except.ok.inj hr ▸ hs⟩
  | cons a as ih =>
    obtain ⟨u, hu, ht⟩ := run_cons_ok.mp hr
    obtain ⟨v, hv, hvu⟩ := h s t a u hs hu
    obtain ⟨s', hs', hst⟩ := ih hvu ht
    exact ⟨s', run_cons_ok.mpr ⟨v, hv, hs'⟩, hst⟩

/-- Some run leads from one state to the other. -/
def Reaches (step : σ → α → Except ε σ) (s t : σ) : Prop := ∃ as, run step s as = .ok t

theorem Reaches.refl (s : σ) : Reaches step s s := ⟨[], rfl⟩

theorem Reaches.single {s t : σ} {a : α} (h : step s a = .ok t) : Reaches step s t := ⟨[a], run_single.mpr h⟩

theorem Reaches.trans {s t u : σ} (h : Reaches step s t) (hh : Reaches step t u) : Reaches step s u := by
  obtain ⟨as, has⟩ := h
  obtain ⟨bs, hbs⟩ := hh
  exact ⟨as ++ bs, (run_append as bs).mpr ⟨t, has, hbs⟩⟩

theorem Reaches.invariant {I : σ → Prop} (hstep : ∀ s a t, I s → step s a = .ok t → I t) {s t : σ}
    (h : Reaches step s t) (hs : I s) : I t := by
  obtain ⟨as, has⟩ := h
  exact Runs.invariant hstep hs has

/-- Some run whose steps meet a guard leads from one state to the other. -/
def ReachesBy (step : σ → α → Except ε σ) (g : σ → α → Prop) (s t : σ) : Prop :=
  ∃ as, Always step (fun s a _ => g s a) s as ∧ run step s as = .ok t

variable {g : σ → α → Prop}

theorem ReachesBy.refl (s : σ) : ReachesBy step g s s := ⟨[], trivial, rfl⟩

theorem ReachesBy.single {s t : σ} {a : α} (h : step s a = .ok t) (hg : g s a) : ReachesBy step g s t :=
  ⟨[a], Always.single h hg, run_single.mpr h⟩

theorem ReachesBy.trans {s t u : σ} (h : ReachesBy step g s t) (hh : ReachesBy step g t u) :
    ReachesBy step g s u := by
  obtain ⟨as, hga, has⟩ := h
  obtain ⟨bs, hgb, hbs⟩ := hh
  exact ⟨as ++ bs, hga.append has hgb, (run_append as bs).mpr ⟨t, has, hbs⟩⟩

theorem ReachesBy.reaches {s t : σ} (h : ReachesBy step g s t) : Reaches step s t := by
  obtain ⟨as, _, has⟩ := h
  exact ⟨as, has⟩

theorem ReachesBy.invariant {I : σ → Prop} (hstep : ∀ s a t, I s → g s a → step s a = .ok t → I t) {s t : σ}
    (h : ReachesBy step g s t) (hs : I s) : I t := by
  obtain ⟨as, hg, has⟩ := h
  exact hg.invariant (fun s a t hi he hg => hstep s a t hi hg he) hs has

/-- A machine whose steps are runs of another one: its runs are runs of the other one. -/
theorem run_reaches {β : Type*} {coarse : σ → β → Except ε σ} {I : σ → Prop}
    (hI : ∀ s a t, I s → step s a = .ok t → I t)
    (h : ∀ s b t, I s → coarse s b = .ok t → Reaches step s t) {s t : σ} {bs : List β} (hs : I s)
    (hr : run coarse s bs = .ok t) : Reaches step s t := by
  induction bs generalizing s with
  | nil => exact Except.ok.inj hr ▸ Reaches.refl s
  | cons b bs ih =>
    obtain ⟨u, hu, ht⟩ := run_cons_ok.mp hr
    have hsu := h s b u hs hu
    exact hsu.trans (ih (hsu.invariant hI hs) ht)

end Runs
