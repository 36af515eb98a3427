import Mathlib.Data.List.Basic
import Mathlib.Logic.Function.Basic

/-! A store of keyed records in numbered slots, the way a log-structured store in flash
presents itself: a slot holds a live record or nothing. -/

namespace SlotStore

variable {R K : Type*} {N n i : Nat} {key : R → K} {s : Nat → Option R} {r r' : R} {k : K}

def put (s : Nat → Option R) (n : Nat) (r : R) : Nat → Option R := Function.update s n (some r)

def kill (s : Nat → Option R) (i : Nat) : Nat → Option R := Function.update s i none

/-- The slot a scan for a key stops at. -/
def lookup [DecidableEq K] (N : Nat) (key : R → K) (s : Nat → Option R) (k : K) : Option Nat :=
  (List.range N).find? (fun i => (s i).any (fun r => key r = k))

/-- Some record satisfies `p`. -/
def Holds (N : Nat) (s : Nat → Option R) (p : R → Prop) : Prop :=
  ∃ i < N, ∃ r, s i = some r ∧ p r

/-- No record has the key. -/
def Absent (N : Nat) (key : R → K) (s : Nat → Option R) (k : K) : Prop :=
  ∀ i < N, ∀ r, s i = some r → key r ≠ k

def Distinct (N : Nat) (key : R → K) (s : Nat → Option R) : Prop :=
  ∀ i < N, ∀ j < N, ∀ r r', s i = some r → s j = some r' → key r = key r' → i = j

@[simp] theorem put_self : put s n r n = some r := Function.update_self ..

theorem put_of_ne (h : i ≠ n) : put s n r i = s i := Function.update_of_ne h ..

@[simp] theorem kill_self : kill s i i = none := Function.update_self ..

theorem kill_of_ne (h : n ≠ i) : kill s i n = s n := Function.update_of_ne h ..

section Lookup

variable [DecidableEq K]

theorem lookup_eq_some_iff :
    lookup N key s k = some i ↔
      i < N ∧ (∃ r, s i = some r ∧ key r = k) ∧ ∀ j < i, ∀ r, s j = some r → key r ≠ k := by
  rw [lookup, List.find?_range_eq_some]
  simp only [Option.any_eq_true_iff_get, List.mem_range, Bool.not_eq_true', Option.any_eq_false_iff_get]
  constructor
  · rintro ⟨⟨hs, hk⟩, hi, hh⟩
    refine ⟨hi, ⟨_, (Option.some_get hs).symm, by simpa using hk⟩, fun j hj r hr => ?_⟩
    have := hh j hj (by simp [hr])
    simpa [hr] using this
  · rintro ⟨hi, ⟨r, hr, hk⟩, hh⟩
    refine ⟨⟨by simp [hr], by simpa [hr] using hk⟩, hi, fun j hj hs => ?_⟩
    obtain ⟨r', hr'⟩ := Option.isSome_iff_exists.mp hs
    simpa [hr'] using hh j hj r' hr'

theorem lookup_eq_none_iff : lookup N key s k = none ↔ Absent N key s k := by
  simp only [lookup, List.find?_eq_none, List.mem_range, Absent]
  refine forall_congr' (fun i => forall_congr' (fun _ => ?_))
  cases s i <;> simp

theorem lookup_lt (h : lookup N key s k = some i) : i < N := (lookup_eq_some_iff.mp h).1

theorem lookup_live (h : lookup N key s k = some i) : ∃ r, s i = some r ∧ key r = k :=
  (lookup_eq_some_iff.mp h).2.1

theorem lookup_congr {s' : Nat → Option R}
    (h : ∀ i < N, ∀ r, key r = k → (s' i = some r ↔ s i = some r)) :
    lookup N key s' k = lookup N key s k := by
  have hlive : ∀ i < N, (∃ r, s' i = some r ∧ key r = k) ↔ ∃ r, s i = some r ∧ key r = k :=
    fun i hi => exists_congr (fun r => and_congr_left (h i hi r))
  ext i
  simp only [lookup_eq_some_iff]
  refine and_congr_right (fun hi => and_congr (hlive i hi) (forall₂_congr (fun j hj => ?_)))
  have hh := not_congr (hlive j (Nat.lt_trans hj hi))
  simpa only [not_exists, not_and] using hh

theorem lookup_put_of_ne (hn : s n = none) (hk : key r ≠ k) :
    lookup N key (put s n r) k = lookup N key s k := by
  apply lookup_congr
  intro i _ r' hr'
  by_cases hi : i = n
  · subst hi
    have : r ≠ r' := fun h => hk (h ▸ hr')
    simp [hn, this]
  · rw [put_of_ne hi]

theorem lookup_kill_of_ne (hi : s i = some r) (hk : key r ≠ k) :
    lookup N key (kill s i) k = lookup N key s k := by
  apply lookup_congr
  intro j _ r' hr'
  by_cases hj : j = i
  · subst hj
    have : r ≠ r' := fun h => hk (h ▸ hr')
    simp [hi, this]
  · rw [kill_of_ne hj]

theorem Distinct.absent_kill (hd : Distinct N key s) (h : lookup N key s k = some i) :
    Absent N key (kill s i) k := by
  obtain ⟨hi, ⟨r, hr, hk⟩, _⟩ := lookup_eq_some_iff.mp h
  intro j hj r' hr' hk'
  by_cases hji : j = i
  · subst hji
    simp at hr'
  · rw [kill_of_ne hji] at hr'
    exact hji (hd j hj i hi r' r hr' hr (hk'.trans hk.symm))

end Lookup

theorem Distinct.kill (hd : Distinct N key s) (i : Nat) : Distinct N key (kill s i) := by
  intro a ha b hb r r' hr hr' hk
  by_cases hai : a = i
  · subst hai
    simp at hr
  · by_cases hbi : b = i
    · subst hbi
      simp at hr'
    · rw [kill_of_ne hai] at hr
      rw [kill_of_ne hbi] at hr'
      exact hd a ha b hb r r' hr hr' hk

/-- A new record keeps the keys distinct exactly when its key is new. -/
theorem distinct_put_iff (hd : Distinct N key s) (hN : n < N) (hn : s n = none) :
    Distinct N key (put s n r) ↔ Absent N key s (key r) := by
  constructor
  · intro h i hi r' hr' hk
    have hne : i ≠ n := fun he => by simp [he, hn] at hr'
    exact hne (h i hi n hN r' r (by rwa [put_of_ne hne]) put_self hk)
  · intro h a ha b hb x y hx hy hk
    by_cases han : a = n <;> by_cases hbn : b = n
    · exact han.trans hbn.symm
    · subst han
      rw [put_self] at hx
      rw [put_of_ne hbn] at hy
      exact absurd (hk.symm.trans (congrArg key (Option.some.inj hx).symm)) (h b hb y hy)
    · subst hbn
      rw [put_self] at hy
      rw [put_of_ne han] at hx
      exact absurd (hk.trans (congrArg key (Option.some.inj hy).symm)) (h a ha x hx)
    · rw [put_of_ne han] at hx
      rw [put_of_ne hbn] at hy
      exact hd a ha b hb x y hx hy hk

/-- Moving a record to an empty slot under the same key keeps the keys distinct. -/
theorem Distinct.move (hd : Distinct N key s) (hi : i < N) (hr : s i = some r) (hn : s n = none)
    (hk : key r' = key r) : Distinct N key (SlotStore.kill (put s n r') i) := by
  have hne : n ≠ i := fun he => by simp [← he, hn] at hr
  have hother : ∀ a < N, ∀ x, s a = some x → key x = key r → a = i :=
    fun a ha x hx hkx => hd a ha i hi x r hx hr hkx
  have hcases : ∀ a, ∀ x, SlotStore.kill (put s n r') i a = some x →
      (a = n ∧ x = r') ∨ (a ≠ n ∧ a ≠ i ∧ s a = some x) := by
    intro a x hx
    by_cases hai : a = i
    · subst hai
      simp at hx
    · rw [kill_of_ne hai] at hx
      by_cases han : a = n
      · subst han
        rw [put_self] at hx
        exact Or.inl ⟨rfl, (Option.some.inj hx).symm⟩
      · rw [put_of_ne han] at hx
        exact Or.inr ⟨han, hai, hx⟩
  intro a ha b hb x y hx hy hxy
  rcases hcases a x hx with ⟨ha', hx'⟩ | ⟨_, hai, hx'⟩ <;>
    rcases hcases b y hy with ⟨hb', hy'⟩ | ⟨_, hbi, hy'⟩
  · exact ha'.trans hb'.symm
  · exact absurd (hother b hb y hy' (hxy.symm.trans ((congrArg key hx').trans hk))) hbi
  · exact absurd (hother a ha x hx' (hxy.trans ((congrArg key hy').trans hk))) hai
  · exact hd a ha b hb x y hx' hy' hxy

theorem Holds.of_kill {p : R → Prop} (h : Holds N (kill s i) p) : Holds N s p := by
  obtain ⟨j, hj, x, hx, hp⟩ := h
  by_cases hji : j = i
  · subst hji
    simp at hx
  · exact ⟨j, hj, x, by rwa [kill_of_ne hji] at hx, hp⟩

theorem holds_kill_of_not {p : R → Prop} (hi : s i = some r) (hp : ¬ p r) :
    Holds N (kill s i) p ↔ Holds N s p := by
  refine ⟨Holds.of_kill, ?_⟩
  rintro ⟨j, hj, x, hx, hpx⟩
  have hji : j ≠ i := by
    rintro rfl
    exact hp (Option.some.inj (hi.symm.trans hx) ▸ hpx)
  exact ⟨j, hj, x, by rwa [kill_of_ne hji], hpx⟩

end SlotStore
