import Mathlib.Data.List.Basic

/-! Machines that read a list symbol by symbol and write another one. A machine may refuse a
symbol. -/

namespace Transducer

variable {α σ τ ω : Type*} {step : α → σ → Option (σ × List ω)} {s s' s1 : σ} {as bs : List α} {a : α} {o o' : List ω}

def run (step : α → σ → Option (σ × List ω)) : List α → σ → Option (σ × List ω)
  | [], s => some (s, [])
  | a :: as, s => (step a s).bind (fun r => (run step as r.1).map (fun r' => (r'.1, r.2 ++ r'.2)))

theorem run_nil : run step [] s = some (s, []) := rfl

theorem run_cons :
    run step (a :: as) s = (step a s).bind (fun r => (run step as r.1).map (fun r' => (r'.1, r.2 ++ r'.2))) := rfl

theorem run_append (as bs : List α) (s : σ) :
    run step (as ++ bs) s = (run step as s).bind (fun r => (run step bs r.1).map (fun r' => (r'.1, r.2 ++ r'.2))) := by
  induction as generalizing s with
  | nil => simp [run_nil]
  | cons a as ih =>
    rw [List.cons_append, run_cons, run_cons]
    cases step a s with
    | none => rfl
    | some r =>
      rw [Option.bind_some, Option.bind_some, ih]
      cases run step as r.1 with
      | none => rfl
      | some r' => simp [Function.comp_def]

theorem run_singleton : run step [a] s = step a s := by
  cases h : step a s <;> simp [run_cons, run_nil, h]

/-- Two runs, one behind the other. -/
theorem run_trans (h : run step as s = some (s1, o)) (h' : run step bs s1 = some (s', o')) :
    run step (as ++ bs) s = some (s', o ++ o') := by
  rw [run_append, h, Option.bind_some, h']
  rfl

/-- A run has a run over each initial part. -/
theorem run_cut (as bs : List α) (h : run step (as ++ bs) s = some (s', o)) :
    ∃ s1 o1 o2, run step as s = some (s1, o1) ∧ run step bs s1 = some (s', o2) ∧ o = o1 ++ o2 := by
  rw [run_append] at h
  obtain ⟨⟨s1, o1⟩, h1, hrest⟩ := Option.bind_eq_some_iff.mp h
  obtain ⟨⟨s2, o2⟩, h2, heq⟩ := Option.map_eq_some_iff.mp hrest
  obtain ⟨rfl, rfl⟩ := Prod.mk.inj heq
  exact ⟨s1, o1, o2, h1, h2, rfl⟩

/-- What each step keeps, and a relation between the ends of a run that its steps keep. -/
theorem run_keeps {P : σ → Prop} {R : σ → σ → List ω → Prop} (refl : ∀ s, R s s [])
    (trans : ∀ {s s1 s' o o'}, R s s1 o → R s1 s' o' → R s s' (o ++ o'))
    (keeps : ∀ {a s s' o}, P s → step a s = some (s', o) → P s' ∧ R s s' o) (hs : P s)
    (h : run step as s = some (s', o)) : P s' ∧ R s s' o := by
  induction as generalizing s o with
  | nil =>
    obtain ⟨rfl, rfl⟩ := Prod.mk.inj (Option.some.inj h)
    exact ⟨hs, refl s⟩
  | cons a as ih =>
    obtain ⟨s1, o1, o2, h1, h2, rfl⟩ := run_cut [a] as h
    obtain ⟨hs1, hr1⟩ := keeps hs (run_singleton.symm.trans h1)
    obtain ⟨hs', hr2⟩ := ih hs1 h2
    exact ⟨hs', trans hr1 hr2⟩

/-- A machine whose steps are steps of another one. -/
theorem run_map {step' : α → τ → Option (τ × List ω)} {f : τ → σ}
    (hf : ∀ {a t t' o}, step' a t = some (t', o) → step a (f t) = some (f t', o)) {t t' : τ}
    (h : run step' as t = some (t', o)) : run step as (f t) = some (f t', o) := by
  induction as generalizing t o with
  | nil =>
    obtain ⟨rfl, rfl⟩ := Prod.mk.inj (Option.some.inj h)
    rfl
  | cons a as ih =>
    obtain ⟨t1, o1, o2, h1, h2, rfl⟩ := run_cut [a] as h
    have hone : run step [a] (f t) = some (f t1, o1) := run_singleton.trans (hf (run_singleton.symm.trans h1))
    exact run_trans hone (ih h2)

end Transducer
