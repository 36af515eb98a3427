import Mathlib.Data.List.Count
import Mathlib.Data.List.Nodup
import Mathlib.Data.List.Infix

/-! A pass that numbers the items of a list: an item with a number of its own keeps it, and the others
get the next one from a counter that passes over the numbers it has met. The counter is a machine
word; an item without a number has 0. -/

namespace Numbering

variable {M c id : Nat} {ids l l' pre post : List Nat}

/-- The number of an item, and the counter behind it. -/
def next (M : Nat) (id c : Nat) : Nat × Nat :=
  if id = 0 then (c, (c + 1) % M) else (id, if c ≤ id then (id + 1) % M else c)

def number (M : Nat) : Nat → List Nat → List Nat
  | _, [] => []
  | c, id :: ids => (next M id c).1 :: number M (next M id c).2 ids

/-! Without the word size. -/

def step (c id : Nat) : Nat := if id = 0 then c + 1 else max c (id + 1)

def advance (c : Nat) (ids : List Nat) : Nat := ids.foldl step c

/-- The numbers of the items when the counter never wraps. -/
def assigned : Nat → List Nat → List Nat
  | _, [] => []
  | c, id :: ids => (if id = 0 then c else id) :: assigned (step c id) ids

/-- How far a number pushes the items behind it. -/
def reach : List Nat → Nat
  | [] => 0
  | id :: ids => if id = 0 then 0 else id + 1 + ids.count 0

/-- The number of an item without one, from the ids in front: one more than the items without a
number there, or more if a number pushes it further. -/
def automatic (pre : List Nat) : Nat := pre.tails.foldr (fun l n => max (reach l) n) (1 + pre.count 0)

theorem advance_cons (c id : Nat) (ids : List Nat) : advance c (id :: ids) = advance (step c id) ids := rfl

theorem advance_append (c : Nat) (l l' : List Nat) : advance c (l ++ l') = advance (advance c l) l' := List.foldl_append

theorem le_step (c id : Nat) : c ≤ step c id := by
  rw [step]
  split <;> omega

theorem le_advance (c : Nat) (ids : List Nat) : c ≤ advance c ids := by
  induction ids generalizing c with
  | nil => exact Nat.le_refl c
  | cons id ids ih => exact (le_step c id).trans (ih _)

theorem foldr_max (ls : List (List Nat)) (c c' : Nat) :
    ls.foldr (fun l n => max (reach l) n) (max c c') = max c (ls.foldr (fun l n => max (reach l) n) c') := by
  induction ls with
  | nil => rfl
  | cons l ls ih =>
    rw [List.foldr_cons, List.foldr_cons, ih]
    omega

/-- The counter in closed form. -/
theorem advance_eq (c : Nat) (pre : List Nat) :
    advance c pre = pre.tails.foldr (fun l n => max (reach l) n) (c + pre.count 0) := by
  induction pre generalizing c with
  | nil => simp [advance, reach]
  | cons id pre ih =>
    rw [advance_cons, ih, List.tails_cons, List.foldr_cons, step, reach]
    by_cases h : id = 0
    · subst h
      rw [if_pos rfl, if_pos rfl, List.count_cons_self]
      simp only [Nat.zero_max]
      congr 1
      omega
    · rw [if_neg h, if_neg h, List.count_cons_of_ne h, ← foldr_max]
      congr 1
      omega

theorem automatic_eq (pre : List Nat) : automatic pre = advance 1 pre := (advance_eq 1 pre).symm

theorem mem_assigned {n : Nat} :
    n ∈ assigned c l ↔ n ≠ 0 ∧ n ∈ l ∨ ∃ pre post, l = pre ++ 0 :: post ∧ n = advance c pre := by
  induction l generalizing c with
  | nil => simp [assigned]
  | cons id l ih =>
    rw [assigned, List.mem_cons, ih]
    have hsplit : (∃ pre post, id :: l = pre ++ 0 :: post ∧ n = advance c pre) ↔
        (id = 0 ∧ n = c) ∨ ∃ pre post, l = pre ++ 0 :: post ∧ n = advance (step c id) pre := by
      constructor
      · rintro ⟨pre, post, heq, hn⟩
        cases pre with
        | nil => exact Or.inl ⟨(List.cons.inj heq).1, hn⟩
        | cons a pre =>
          obtain ⟨rfl, htail⟩ := List.cons.inj heq
          exact Or.inr ⟨pre, post, htail, hn⟩
      · rintro (⟨rfl, hn⟩ | ⟨pre, post, rfl, hn⟩)
        · exact ⟨[], l, rfl, hn⟩
        · exact ⟨id :: pre, post, rfl, hn⟩
    rw [hsplit]
    by_cases h : id = 0
    · subst h
      simp only [if_true, List.mem_cons, true_and]
      grind
    · simp only [h, if_false, List.mem_cons, false_and, false_or]
      have : n = id → n ≠ 0 := fun he => he ▸ h
      grind

theorem le_of_mem_assigned {n : Nat} (h : n ∈ assigned c l) : c ≤ n ∨ n ≠ 0 ∧ n ∈ l := by
  rcases mem_assigned.mp h with h | ⟨pre, post, _, rfl⟩
  · exact Or.inr h
  · exact Or.inl (le_advance c pre)

theorem ne_zero_of_mem_assigned (hc : 1 ≤ c) {n : Nat} (h : n ∈ assigned c l) : n ≠ 0 := by
  rcases le_of_mem_assigned h with h | h
  · omega
  · exact h.1

/-- No number is met that was given before. -/
def Unmet (c : Nat) (l : List Nat) : Prop := ∀ pre post, l = pre ++ 0 :: post → advance c pre ∉ post

theorem unmet_cons : Unmet c (id :: l) ↔ (id = 0 → c ∉ l) ∧ Unmet (step c id) l := by
  constructor
  · intro h
    refine ⟨fun h0 => h [] l (by rw [h0]; rfl), fun pre post heq => ?_⟩
    exact h (id :: pre) post (by rw [heq]; rfl)
  · rintro ⟨h0, h⟩ pre post heq
    cases pre with
    | nil =>
      obtain ⟨rfl, rfl⟩ := List.cons.inj heq
      exact h0 rfl
    | cons a pre =>
      obtain ⟨rfl, rfl⟩ := List.cons.inj heq
      exact h pre post rfl

/-- Only a number that comes later can clash. -/
theorem nodup_assigned_iff (hc : 1 ≤ c) (hd : (l.filter (· ≠ 0)).Nodup) : (assigned c l).Nodup ↔ Unmet c l := by
  induction l generalizing c with
  | nil => exact iff_of_true List.nodup_nil (fun pre post h => by simp at h)
  | cons id l ih =>
    have hstep := le_step c id
    rw [assigned, List.nodup_cons, unmet_cons]
    by_cases h : id = 0
    · subst h
      rw [List.filter_cons_of_neg (by simp)] at hd
      have hmem : c ∈ assigned (step c 0) l ↔ c ∈ l := by
        rw [mem_assigned]
        constructor
        · rintro (⟨_, h⟩ | ⟨pre, post, _, hn⟩)
          · exact h
          · have := le_advance (step c 0) pre
            simp only [step, if_true] at this hn
            omega
        · exact fun h => Or.inl ⟨by omega, h⟩
      rw [if_pos rfl, hmem, ih (by omega) hd]
      simp
    · rw [List.filter_cons_of_pos (by simpa using h), List.nodup_cons] at hd
      have hmem : id ∉ assigned (step c id) l := by
        intro hm
        rcases le_of_mem_assigned hm with hle | ⟨_, hm⟩
        · rw [step, if_neg h] at hle
          omega
        · exact hd.1 (List.mem_filter.mpr ⟨hm, by simpa using h⟩)
      rw [if_neg h, ih (by omega) hd.2]
      simp [h, hmem]

/-! With the word size. -/

/-- Every item without a number gets one that fits. -/
def InRange (M c : Nat) (l : List Nat) : Prop := ∀ pre post, l = pre ++ 0 :: post → advance c pre < M

theorem inRange_cons : InRange M c (id :: l) ↔ (id = 0 → c < M) ∧ InRange M (step c id) l := by
  constructor
  · intro h
    refine ⟨fun h0 => h [] l (by rw [h0]; rfl), fun pre post heq => ?_⟩
    exact h (id :: pre) post (by rw [heq]; rfl)
  · rintro ⟨h0, h⟩ pre post heq
    cases pre with
    | nil =>
      obtain ⟨rfl, rfl⟩ := List.cons.inj heq
      exact h0 rfl
    | cons a pre =>
      obtain ⟨rfl, rfl⟩ := List.cons.inj heq
      exact h pre post rfl

theorem number_explicit (h : 0 ∉ l) : number M c l = l := by
  induction l generalizing c with
  | nil => rfl
  | cons id l ih =>
    have hid : id ≠ 0 := fun he => h (he ▸ List.mem_cons_self)
    rw [number, ih (fun hm => h (List.mem_cons_of_mem _ hm)), next, if_neg hid]

theorem assigned_explicit (h : 0 ∉ l) : assigned c l = l := by
  induction l generalizing c with
  | nil => rfl
  | cons id l ih =>
    have hid : id ≠ 0 := fun he => h (he ▸ List.mem_cons_self)
    rw [assigned, ih (fun hm => h (List.mem_cons_of_mem _ hm)), if_neg hid]

theorem next_eq (hid : id + 1 < M) (hc : step c id < M) : next M id c = (if id = 0 then c else id, step c id) := by
  rw [next, step]
  rw [step] at hc
  by_cases h : id = 0
  · rw [if_pos h] at hc
    rw [if_pos h, if_pos h, if_pos h, Nat.mod_eq_of_lt hc]
  · rw [if_neg h, if_neg h, if_neg h, Nat.mod_eq_of_lt hid]
    split <;> congr 1 <;> omega

/-- Up to the word size the counter is exact. -/
theorem number_append (hids : ∀ id ∈ l, id + 1 < M) (h : advance c l < M) :
    number M c (l ++ l') = assigned c l ++ number M (advance c l) l' := by
  induction l generalizing c with
  | nil => rfl
  | cons id l ih =>
    rw [List.forall_mem_cons] at hids
    have hc : step c id < M := Nat.lt_of_le_of_lt (le_advance (step c id) l) h
    rw [List.cons_append, number, next_eq hids.1 hc, assigned, advance_cons, ih hids.2 h]
    rfl

theorem number_inRange (hids : ∀ id ∈ l, id + 1 < M) (hc : c < M) (h : InRange M c l) : number M c l = assigned c l := by
  induction l generalizing c with
  | nil => rfl
  | cons id l ih =>
    rw [List.forall_mem_cons] at hids
    rw [inRange_cons] at h
    by_cases hnext : step c id < M
    · rw [number, next_eq hids.1 hnext, assigned, ih hids.2 hnext h.2]
    · -- the counter wraps, but no other item needs it
      have hzero : 0 ∉ l := by
        intro hm
        obtain ⟨pre, post, rfl⟩ := List.append_of_mem hm
        have := h.2 pre post rfl
        have := le_advance (step c id) pre
        omega
      have hid : id = 0 := by
        by_contra hid
        rw [step, if_neg hid] at hnext
        omega
      rw [number, assigned, number_explicit hzero, assigned_explicit hzero, next, if_pos hid, if_pos hid]

/-- Where the counter wraps. -/
theorem exists_wrap (hids : ∀ id ∈ l, id + 1 < M) (hc : c < M) (h : ¬ advance c l < M) :
    ∃ pre post, l = pre ++ 0 :: post ∧ advance c pre + 1 = M := by
  induction l generalizing c with
  | nil => exact absurd hc h
  | cons id l ih =>
    rw [List.forall_mem_cons] at hids
    by_cases hnext : step c id < M
    · obtain ⟨pre, post, rfl, hpre⟩ := ih hids.2 hnext h
      exact ⟨id :: pre, post, rfl, hpre⟩
    · have hid : id = 0 := by
        by_contra hid
        rw [step, if_neg hid] at hnext
        omega
      refine ⟨[], l, by rw [hid]; rfl, ?_⟩
      rw [step, if_pos hid] at hnext
      show c + 1 = M
      omega

theorem number_wrap (hids : ∀ id ∈ pre, id + 1 < M) (h : advance c pre + 1 = M) :
    number M c (pre ++ 0 :: post) = assigned c pre ++ (advance c pre) :: number M 0 post := by
  rw [number_append hids (by omega), number, next, if_pos rfl, h, Nat.mod_self]

/-- Behind an explicit number it does not matter where the counter was, if that was lower. -/
theorem number_restart (hid : id ≠ 0) : number M 0 (id :: l) = number M 1 (id :: l) := by
  have hone : 1 ≤ id := Nat.one_le_iff_ne_zero.mpr hid
  rw [number, number, next, next, if_neg hid, if_neg hid, if_pos (Nat.zero_le id), if_pos hone]

/-! When all numbers are distinct. -/

/-- A number of the list, of its own or automatic. -/
def Given (l : List Nat) (n : Nat) : Prop := n ≠ 0 ∧ n ∈ l ∨ ∃ pre post, l = pre ++ 0 :: post ∧ n = automatic pre

/-- Every automatic number fits into the word and belongs to no item behind. -/
def Clear (M : Nat) (l : List Nat) : Prop :=
  ∀ pre post, l = pre ++ 0 :: post → automatic pre < M ∧ automatic pre ∉ post

/-- No automatic number clashes; or the counter wraps, a number sets it up again at once, and what is
given from there on is new. -/
def Clean (M : Nat) (l : List Nat) : Prop :=
  Clear M l ∨ ∃ pre post, l = pre ++ 0 :: post ∧ automatic pre + 1 = M ∧ post.head? ≠ some 0 ∧
    Clear M (pre ++ [0]) ∧ Clear M post ∧ ∀ n, Given (pre ++ [0]) n → ¬ Given post n

/-- All numbers are there and different. -/
def Distinct (l : List Nat) : Prop := 0 ∉ l ∧ l.Nodup

theorem given_iff {n : Nat} : Given l n ↔ n ∈ assigned 1 l := by
  rw [mem_assigned, Given]
  simp only [automatic_eq]

theorem clear_iff : Clear M l ↔ InRange M 1 l ∧ Unmet 1 l := by
  simp only [Clear, automatic_eq]
  exact ⟨fun h => ⟨fun pre post heq => (h pre post heq).1, fun pre post heq => (h pre post heq).2⟩,
    fun h pre post heq => ⟨h.1 pre post heq, h.2 pre post heq⟩⟩

theorem distinct_append : Distinct (l ++ l') ↔ Distinct l ∧ Distinct l' ∧ ∀ n ∈ l, n ∉ l' := by
  simp only [Distinct, List.mem_append, not_or, List.nodup_append]
  constructor
  · rintro ⟨⟨h0, h0'⟩, hd, hd', hne⟩
    exact ⟨⟨h0, hd⟩, ⟨h0', hd'⟩, fun n hn hn' => hne n hn n hn' rfl⟩
  · rintro ⟨⟨h0, hd⟩, ⟨h0', hd'⟩, hne⟩
    exact ⟨⟨h0, h0'⟩, hd, hd', fun n hn m hm he => hne n hn (he ▸ hm)⟩

theorem distinct_assigned (hd : (l.filter (· ≠ 0)).Nodup) : Distinct (assigned 1 l) ↔ Unmet 1 l := by
  rw [← nodup_assigned_iff (Nat.le_refl 1) hd]
  exact ⟨fun h => h.2, fun h => ⟨fun h0 => ne_zero_of_mem_assigned (Nat.le_refl 1) h0 rfl, h⟩⟩

theorem distinct_of_inRange (hM : 1 < M) (hids : ∀ id ∈ l, id + 1 < M) (hd : (l.filter (· ≠ 0)).Nodup)
    (h : InRange M 1 l) : Distinct (number M 1 l) ↔ Clear M l := by
  rw [number_inRange hids hM h, distinct_assigned hd, clear_iff]
  exact ⟨fun hu => ⟨h, hu⟩, fun hc => hc.2⟩

theorem assigned_snoc (pre : List Nat) : assigned c (pre ++ [0]) = assigned c pre ++ [advance c pre] := by
  induction pre generalizing c with
  | nil => rfl
  | cons id pre ih =>
    rw [List.cons_append, assigned, assigned, ih, advance_cons]
    rfl

/-- The last number in front of the wrap is the largest one. -/
theorem inRange_snoc (h : advance c pre < M) : InRange M c (pre ++ [0]) := by
  intro pre' post heq
  refine Nat.lt_of_le_of_lt ?_ h
  have hprefix : pre' <+: pre := by
    rcases List.eq_nil_or_concat post with rfl | ⟨post, b, rfl⟩
    · exact (List.append_inj_left' heq rfl) ▸ List.prefix_refl _
    · rw [List.concat_eq_append, ← List.cons_append, ← List.append_assoc] at heq
      exact ⟨0 :: post, (List.append_inj_left' heq rfl).symm⟩
  obtain ⟨rest, rfl⟩ := hprefix
  rw [advance_append]
  exact le_advance _ rest

theorem advance_split (h : pre ++ 0 :: post = l ++ 0 :: l') (hlt : pre.length < l.length) : advance c pre < advance c l := by
  have hprefix : pre ++ [0] <+: l := by
    have hwhole : pre ++ [0] <+: l ++ 0 :: l' := ⟨post, by rw [← h]; simp⟩
    apply List.prefix_of_prefix_length_le hwhole (List.prefix_append _ _)
    rw [List.length_append]
    exact hlt
  obtain ⟨rest, rfl⟩ := hprefix
  rw [advance_append, advance_append]
  refine Nat.lt_of_lt_of_le ?_ (le_advance _ rest)
  exact Nat.lt_succ_self (advance c pre)

/-- The counter wraps at one item only. -/
theorem split_unique (h : pre ++ 0 :: post = l ++ 0 :: l') (he : advance c pre = advance c l) : pre = l ∧ post = l' := by
  have hlength : pre.length = l.length := by
    rcases Nat.lt_trichotomy pre.length l.length with hlt | heq | hgt
    · exact absurd he (Nat.ne_of_lt (advance_split h hlt))
    · exact heq
    · exact absurd he.symm (Nat.ne_of_lt (advance_split h.symm hgt))
  obtain ⟨hpre, hpost⟩ := List.append_inj h hlength
  exact ⟨hpre, (List.cons.inj hpost).2⟩

theorem exists_wrap_of_not_inRange (hids : ∀ id ∈ l, id + 1 < M) (hc : c < M) (h : ¬ InRange M c l) :
    ∃ pre post, l = pre ++ 0 :: post ∧ advance c pre + 1 = M ∧ 0 ∈ post := by
  simp only [InRange, not_forall, Nat.not_lt] at h
  obtain ⟨front, back, rfl, hle⟩ := h
  obtain ⟨hfront, _⟩ := List.forall_mem_append.mp hids
  obtain ⟨pre, post, rfl, hpre⟩ := exists_wrap hfront hc (Nat.not_lt.mpr hle)
  exact ⟨pre, post ++ 0 :: back, by simp, hpre, by simp⟩

/-- What is left when the counter has wrapped. -/
theorem distinct_of_wrap (hM : 1 < M) (hids : ∀ id ∈ pre ++ 0 :: post, id + 1 < M)
    (hd : ((pre ++ 0 :: post).filter (· ≠ 0)).Nodup) (hwrap : advance 1 pre + 1 = M) (hpost : post.head? ≠ some 0) :
    Distinct (number M 1 (pre ++ 0 :: post)) ↔
      Clear M (pre ++ [0]) ∧ Clear M post ∧ ∀ n, Given (pre ++ [0]) n → ¬ Given post n := by
  have hids' := List.forall_mem_append.mp hids
  have hidsPost := (List.forall_mem_cons.mp hids'.2).2
  have hnumber : number M 1 (pre ++ 0 :: post) = assigned 1 (pre ++ [0]) ++ number M 1 post := by
    have hrestart : number M 0 post = number M 1 post := by
      cases post with
      | nil => rfl
      | cons id post => exact number_restart (fun h => hpost (by rw [h]; rfl))
    rw [number_wrap hids'.1 hwrap, assigned_snoc, hrestart, List.append_assoc]
    rfl
  rw [List.filter_append, List.nodup_append] at hd
  have hdFront : ((pre ++ [0]).filter (· ≠ 0)).Nodup := by
    rw [List.filter_append]
    simpa using hd.1
  have hdPost : (post.filter (· ≠ 0)).Nodup := by
    have := hd.2.1
    rwa [List.filter_cons_of_neg (by simp)] at this
  have hfront : Distinct (assigned 1 (pre ++ [0])) ↔ Clear M (pre ++ [0]) := by
    rw [distinct_assigned hdFront, clear_iff]
    exact ⟨fun h => ⟨inRange_snoc (by omega), h⟩, fun h => h.2⟩
  rw [hnumber, distinct_append, hfront]
  by_cases hrange : InRange M 1 post
  · rw [distinct_of_inRange hM hidsPost hdPost hrange]
    simp only [given_iff, number_inRange hidsPost hM hrange]
  · refine iff_of_false ?_ (fun h => hrange (clear_iff.mp h.2.1).1)
    -- the largest number would be given again
    rintro ⟨_, _, hdisjoint⟩
    obtain ⟨pre', post', rfl, hpre', _⟩ := exists_wrap_of_not_inRange hidsPost hM hrange
    have hsame : advance 1 pre = advance 1 pre' := by omega
    apply hdisjoint (advance 1 pre)
    · simp [assigned_snoc]
    · rw [number_wrap (List.forall_mem_append.mp hidsPost).1 hpre', hsame]
      simp

/-- The numbers of a pass are distinct exactly when the pass is clean. -/
theorem number_distinct_iff (hM : 1 < M) (hids : ∀ id ∈ l, id + 1 < M) (hd : (l.filter (· ≠ 0)).Nodup) :
    Distinct (number M 1 l) ↔ Clean M l := by
  by_cases hrange : InRange M 1 l
  · rw [distinct_of_inRange hM hids hd hrange]
    constructor
    · exact fun h => Or.inl h
    · rintro (h | ⟨pre, post, rfl, hwrap, hpost, hclear⟩)
      · exact h
      · rw [automatic_eq] at hwrap
        exact (distinct_of_inRange hM hids hd hrange).mp ((distinct_of_wrap hM hids hd hwrap hpost).mpr hclear)
  · have hclear : ¬ Clear M l := fun h => hrange (clear_iff.mp h).1
    obtain ⟨pre, post, rfl, hwrap, _⟩ := exists_wrap_of_not_inRange hids hM hrange
    by_cases hpost : post.head? = some 0
    · refine iff_of_false ?_ ?_
      · obtain ⟨rest, rfl⟩ := List.head?_eq_some_iff.mp hpost
        rw [number_wrap (List.forall_mem_append.mp hids).1 hwrap]
        exact fun h => h.1 (by simp [number, next])
      · rintro (h | ⟨pre', post', heq, hwrap', hpost', _⟩)
        · exact hclear h
        · rw [automatic_eq] at hwrap'
          obtain ⟨_, rfl⟩ := split_unique heq (c := 1) (by omega)
          exact hpost' hpost
    · rw [distinct_of_wrap hM hids hd hwrap hpost]
      constructor
      · exact fun h => Or.inr ⟨pre, post, rfl, by rw [automatic_eq]; exact hwrap, hpost, h⟩
      · rintro (h | ⟨pre', post', heq, hwrap', _, h⟩)
        · exact absurd h hclear
        · rw [automatic_eq] at hwrap'
          obtain ⟨rfl, rfl⟩ := split_unique heq (c := 1) (by omega)
          exact h

/-! Passes over objects. -/

section Pass

variable {σ ι κ : Type*} {counter : σ → Nat} {get : σ → κ → Nat} {key : ι → κ} {visit : σ → ι → σ} {items : List ι}

/-- A visit numbers the object of its item, and no other object. -/
structure Numbers (M : Nat) (counter : σ → Nat) (get : σ → κ → Nat) (key : ι → κ) (visit : σ → ι → σ) : Prop where
  advances : ∀ s i, counter (visit s i) = (next M (get s (key i)) (counter s)).2
  own : ∀ s i, get (visit s i) (key i) = (next M (get s (key i)) (counter s)).1
  other : ∀ s i k, k ≠ key i → get (visit s i) k = get s k

theorem Numbers.frame (h : Numbers M counter get key visit) {k : κ} (hk : k ∉ items.map key) (s : σ) :
    get (items.foldl visit s) k = get s k := by
  induction items generalizing s with
  | nil => rfl
  | cons i items ih =>
    rw [List.map_cons, List.mem_cons, not_or] at hk
    rw [List.foldl_cons, ih hk.2, h.other s i k hk.1]

/-- A pass over objects that are all different. -/
theorem Numbers.foldl (h : Numbers M counter get key visit) (hd : (items.map key).Nodup) (s : σ) :
    items.map (fun i => get (items.foldl visit s) (key i)) = number M (counter s) (items.map (fun i => get s (key i))) := by
  induction items generalizing s with
  | nil => rfl
  | cons i items ih =>
    obtain ⟨hi, hd⟩ := List.nodup_cons.mp hd
    have hrest : items.map (fun i' => get (visit s i) (key i')) = items.map (fun i' => get s (key i')) := by
      apply List.map_congr_left
      intro i' hi'
      exact h.other s i (key i') (fun he => hi (he ▸ List.mem_map_of_mem hi'))
    have hih := ih hd (visit s i)
    rw [hrest, h.advances] at hih
    rw [List.map_cons, List.foldl_cons, h.frame hi, h.own, hih]
    rfl

end Pass

/-- A number of its own is kept. -/
theorem number_keeps {ι : Type*} {items : List ι} {f f' : ι → Nat} (h : items.map f' = number M c (items.map f)) {i : ι}
    (hi : i ∈ items) (hf : f i ≠ 0) : f' i = f i := by
  induction items generalizing c with
  | nil => cases hi
  | cons a items ih =>
    rw [List.map_cons, List.map_cons, number, List.cons.injEq] at h
    rcases List.mem_cons.mp hi with rfl | hi
    · rw [h.1, next, if_neg hf]
    · exact ih h.2 hi

end Numbering
