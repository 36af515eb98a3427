import Mathlib.Data.List.Basic

/-! Runs made of named operations and of silent updates between them. -/

namespace Labelled

variable {σ ι : Type*} {silent : σ → σ → Prop} {act : σ → ι → σ} {s t u : σ} {as bs : List ι}

/-- From `s` the operations `as` lead to `t`, in this order and with any silent updates
before, between and behind them. -/
inductive Path (silent : σ → σ → Prop) (act : σ → ι → σ) (s : σ) : List ι → σ → Prop
  | refl : Path silent act s [] s
  | silent {as : List ι} {t u : σ} (h : Path silent act s as t) (hu : silent t u) : Path silent act s as u
  | act {as : List ι} {t : σ} (h : Path silent act s as t) (a : ι) : Path silent act s (as ++ [a]) (act t a)

theorem Path.trans (h : Path silent act s as t) (hh : Path silent act t bs u) :
    Path silent act s (as ++ bs) u := by
  induction hh with
  | refl =>
    rw [List.append_nil]
    exact h
  | silent _ hu ih => exact ih.silent hu
  | act _ a ih =>
    rw [← List.append_assoc]
    exact ih.act a

theorem Path.mono {silent' : σ → σ → Prop} (hm : ∀ s t, silent s t → silent' s t)
    (h : Path silent act s as t) : Path silent' act s as t := by
  induction h with
  | refl => exact .refl
  | silent _ hu ih => exact ih.silent (hm _ _ hu)
  | act _ a ih => exact ih.act a

theorem Path.relabel {κ : Type*} {act' : σ → κ → σ} (f : ι → κ) (hf : ∀ s a, act' s (f a) = act s a)
    (h : Path silent act s as t) : Path silent act' s (as.map f) t := by
  induction h with
  | refl => exact .refl
  | silent _ hu ih => exact ih.silent hu
  | act _ a ih =>
    rw [List.map_append, ← hf]
    exact ih.act (f a)

/-- What every operation and every silent update keeps, a path keeps. -/
theorem Path.invariant {I : σ → Prop} (hs : ∀ s t, I s → silent s t → I t) (ha : ∀ s a, I s → I (act s a))
    (h : Path silent act s as t) (hi : I s) : I t := by
  induction h with
  | refl => exact hi
  | silent _ hu ih => exact hs _ _ ih hu
  | act _ a ih => exact ha _ a ih

/-- An invariant of pairs: the operations so far against the state reached. -/
theorem Path.invariant_of {I : List ι → σ → Prop} (hs : ∀ as s t, I as s → silent s t → I as t)
    (ha : ∀ as s a, I as s → I (as ++ [a]) (act s a)) (h : Path silent act s as t) (hi : I [] s) : I as t := by
  induction h with
  | refl => exact hi
  | silent _ hu ih => exact hs _ _ _ ih hu
  | act _ a ih => exact ha _ _ a ih

end Labelled
