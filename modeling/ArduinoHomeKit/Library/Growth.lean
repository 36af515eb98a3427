import Mathlib.Data.List.Basic

/-! Logs that only grow: a log extends another by entries of a certain kind. -/

namespace Growth

variable {α : Type*} {p q : α → Prop} {l l' l'' : List α} {a : α}

/-- `l'` is `l` with entries behind it that satisfy `p`. -/
def Adds (p : α → Prop) (l l' : List α) : Prop := ∃ es, l' = l ++ es ∧ ∀ e ∈ es, p e

theorem Adds.refl (p : α → Prop) (l : List α) : Adds p l l := ⟨[], by simp⟩

theorem Adds.trans (h : Adds p l l') (hh : Adds p l' l'') : Adds p l l'' := by
  obtain ⟨es, rfl, he⟩ := h
  obtain ⟨fs, rfl, hf⟩ := hh
  refine ⟨es ++ fs, List.append_assoc .., fun e h => ?_⟩
  rcases List.mem_append.mp h with h | h
  · exact he e h
  · exact hf e h

theorem Adds.mono (hpq : ∀ e, p e → q e) (h : Adds p l l') : Adds q l l' := by
  obtain ⟨es, he, hp⟩ := h
  exact ⟨es, he, fun e h => hpq e (hp e h)⟩

theorem Adds.single (l : List α) (ha : p a) : Adds p l (l ++ [a]) :=
  ⟨[a], rfl, fun _ he => List.mem_singleton.mp he ▸ ha⟩

theorem Adds.of_eq (h : l' = l) : Adds p l l' := ⟨[], by simp [h]⟩

theorem Adds.isPrefix (h : Adds p l l') : l <+: l' := by
  obtain ⟨es, rfl, _⟩ := h
  exact List.prefix_append l es

theorem Adds.mem (h : Adds p l l') (ha : a ∈ l) : a ∈ l' := h.isPrefix.subset ha

/-- Entries of another kind were there before. -/
theorem Adds.mem_iff (h : Adds p l l') (ha : ¬ p a) : a ∈ l' ↔ a ∈ l := by
  obtain ⟨es, rfl, hp⟩ := h
  simp only [List.mem_append, or_iff_left_iff_imp]
  exact fun he => absurd (hp a he) ha

/-- A subsequence that ends in `a` finds its end in the old part or in the new one. -/
theorem sublist_concat_append {as es : List α} :
    (as ++ [a]).Sublist (l ++ es) ↔
      (as ++ [a]).Sublist l ∨ ∃ bs cs, as = bs ++ cs ∧ bs.Sublist l ∧ (cs ++ [a]).Sublist es := by
  rw [List.sublist_append_iff]
  constructor
  · rintro ⟨bs, cs, he, hbs, hcs⟩
    rcases List.eq_nil_or_concat cs with rfl | ⟨cs', b, rfl⟩
    · left
      rwa [he, List.append_nil]
    · right
      rw [List.concat_eq_append, ← List.append_assoc] at he
      obtain ⟨rfl, hab⟩ := List.append_inj' he rfl
      obtain rfl := List.singleton_inj.mp hab
      exact ⟨bs, cs', rfl, hbs, by rwa [List.concat_eq_append] at hcs⟩
  · rintro (hs | ⟨bs, cs, rfl, hbs, hcs⟩)
    · exact ⟨as ++ [a], [], by simp, hs, List.nil_sublist _⟩
    · exact ⟨bs, cs ++ [a], by simp, hbs, hcs⟩

/-- Entries of another kind end no new subsequence. -/
theorem Adds.sublist_iff {as : List α} (h : Adds p l l') (ha : ¬ p a) :
    (as ++ [a]).Sublist l' ↔ (as ++ [a]).Sublist l := by
  obtain ⟨es, rfl, hp⟩ := h
  rw [sublist_concat_append]
  refine or_iff_left ?_
  rintro ⟨bs, cs, _, _, hcs⟩
  exact ha (hp a (hcs.subset (by simp)))

theorem sublist_concat_concat {as : List α} {b : α} :
    (as ++ [a]).Sublist (l ++ [b]) ↔ (as ++ [a]).Sublist l ∨ a = b ∧ as.Sublist l := by
  rw [sublist_concat_append]
  refine or_congr_right ⟨?_, ?_⟩
  · rintro ⟨bs, cs, rfl, hbs, hcs⟩
    have hlen := hcs.length_le
    obtain rfl : cs = [] := List.length_eq_zero_iff.mp (by simpa using hlen)
    exact ⟨by simpa using hcs, by simpa using hbs⟩
  · rintro ⟨rfl, hs⟩
    exact ⟨as, [], by simp, hs, by simp⟩

end Growth
