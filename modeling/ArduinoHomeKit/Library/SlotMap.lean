import Mathlib.Data.List.Nodup
import ArduinoHomeKit.Library.SlotStore

/-! The map that a slot store with distinct keys stands for, the list of its records, and the
store with its records moved to the front. -/

namespace SlotStore

variable {R K : Type*} {N n i : Nat} {key : R → K} {s : Nat → Option R} {r r' : R} {k k' : K}

/-- The records in the order of their slots. -/
def live (N : Nat) (s : Nat → Option R) : List R := (List.range N).filterMap s

def compacted (N : Nat) (s : Nat → Option R) : Nat → Option R := fun i => (live N s)[i]?

theorem mem_live : r ∈ live N s ↔ ∃ i < N, s i = some r := by
  simp [live, List.mem_filterMap]

section Find

variable [DecidableEq K]

/-- The record found under a key. -/
def find (N : Nat) (key : R → K) (s : Nat → Option R) (k : K) : Option R := (lookup N key s k).bind s

theorem find_eq_none_iff : find N key s k = none ↔ Absent N key s k := by
  rw [← lookup_eq_none_iff]
  cases h : lookup N key s k with
  | none => simp [find, h]
  | some i =>
    obtain ⟨r, hr, _⟩ := lookup_live h
    simp [find, h, hr]

theorem find_eq_some_iff (hd : Distinct N key s) : find N key s k = some r ↔ r ∈ live N s ∧ key r = k := by
  rw [mem_live]
  constructor
  · intro h
    obtain ⟨i, hi, hr⟩ := Option.bind_eq_some_iff.mp h
    obtain ⟨x, hx, hk⟩ := lookup_live hi
    obtain rfl := Option.some.inj (hr.symm.trans hx)
    exact ⟨⟨i, lookup_lt hi, hr⟩, hk⟩
  · rintro ⟨⟨i, hi, hr⟩, hk⟩
    cases hl : lookup N key s k with
    | none => exact absurd hk (lookup_eq_none_iff.mp hl i hi r hr)
    | some j =>
      obtain ⟨x, hx, hxk⟩ := lookup_live hl
      obtain rfl := hd j (lookup_lt hl) i hi x r hx hr (hxk.trans hk.symm)
      simp [find, hl, hr]

/-- Two finds agree if they find the same records. -/
theorem find_congr {N' : Nat} {s' : Nat → Option R} (hd : Distinct N key s) (hd' : Distinct N' key s')
    (h : ∀ r, key r = k → (r ∈ live N' s' ↔ r ∈ live N s)) : find N' key s' k = find N key s k := by
  ext r
  rw [find_eq_some_iff hd, find_eq_some_iff hd']
  exact ⟨fun ⟨hm, hk⟩ => ⟨(h r hk).mp hm, hk⟩, fun ⟨hm, hk⟩ => ⟨(h r hk).mpr hm, hk⟩⟩

theorem find_put (hd : Distinct N key s) (hN : n < N) (hn : s n = none) (ha : Absent N key s (key r)) :
    find N key (put s n r) k = if key r = k then some r else find N key s k := by
  have hd' := (distinct_put_iff hd hN hn).mpr ha
  split
  · rename_i hk
    exact (find_eq_some_iff hd').mpr ⟨mem_live.mpr ⟨n, hN, put_self⟩, hk⟩
  · rename_i hk
    refine find_congr hd hd' (fun x hx => ?_)
    rw [mem_live, mem_live]
    refine exists_congr (fun i => and_congr_right (fun _ => ?_))
    by_cases hi : i = n
    · subst hi
      have hne : r ≠ x := fun he => hk (he ▸ hx)
      simp [hn, hne]
    · rw [put_of_ne hi]

theorem find_kill (hd : Distinct N key s) (hl : lookup N key s k = some i) :
    find N key (kill s i) k' = if k = k' then none else find N key s k' := by
  split
  · rename_i hk
    subst hk
    exact find_eq_none_iff.mpr (hd.absent_kill hl)
  · rename_i hk
    obtain ⟨r, hr, hrk⟩ := lookup_live hl
    refine find_congr hd (hd.kill i) (fun x hx => ?_)
    rw [mem_live, mem_live]
    refine exists_congr (fun j => and_congr_right (fun _ => ?_))
    by_cases hj : j = i
    · subst hj
      have hne : r ≠ x := fun he => hk (hrk.symm.trans (he ▸ hx))
      simp [hr, hne]
    · rw [kill_of_ne hj]

/-- Writing a new version of a record to an empty slot and killing the old one. -/
theorem mem_live_move (hN : n < N) (hr : s i = some r) (hn : s n = none) {x : R} :
    x ∈ live N (kill (put s n r') i) ↔ x = r' ∨ ∃ j < N, j ≠ i ∧ s j = some x := by
  have hne : n ≠ i := fun he => by simp [← he, hn] at hr
  rw [mem_live]
  constructor
  · rintro ⟨j, hj, hx⟩
    have hji : j ≠ i := fun he => by simp [he] at hx
    rw [kill_of_ne hji] at hx
    by_cases hjn : j = n
    · subst hjn
      rw [put_self] at hx
      exact Or.inl (Option.some.inj hx).symm
    · rw [put_of_ne hjn] at hx
      exact Or.inr ⟨j, hj, hji, hx⟩
  · rintro (rfl | ⟨j, hj, hji, hx⟩)
    · exact ⟨n, hN, by rw [kill_of_ne hne, put_self]⟩
    · have hjn : j ≠ n := fun he => by simp [he, hn] at hx
      exact ⟨j, hj, by rw [kill_of_ne hji, put_of_ne hjn, hx]⟩

theorem find_move (hd : Distinct N key s) (hN : n < N) (hi : i < N) (hr : s i = some r) (hn : s n = none)
    (hk : key r' = key r) :
    find N key (kill (put s n r') i) k = if key r = k then some r' else find N key s k := by
  have hd' := hd.move hi hr hn hk
  split
  · rename_i he
    exact (find_eq_some_iff hd').mpr ⟨(mem_live_move hN hr hn).mpr (Or.inl rfl), hk.trans he⟩
  · rename_i he
    refine find_congr hd hd' (fun x hx => ?_)
    rw [mem_live_move hN hr hn, mem_live]
    constructor
    · rintro (rfl | ⟨j, hj, _, hs⟩)
      · exact absurd (hk.symm.trans hx) he
      · exact ⟨j, hj, hs⟩
    · rintro ⟨j, hj, hs⟩
      refine Or.inr ⟨j, hj, fun hji => he ?_, hs⟩
      subst hji
      exact (congrArg key (Option.some.inj (hr.symm.trans hs))).trans hx

end Find

theorem nodup_live (hd : Distinct N key s) : ((live N s).map key).Nodup := by
  rw [live, List.Nodup, List.pairwise_map, List.pairwise_filterMap]
  refine List.pairwise_lt_range.imp_of_mem (fun {a b} ha hb hlt x hx y hy hk => ?_)
  exact absurd (hd a (List.mem_range.mp ha) b (List.mem_range.mp hb) x y hx hy hk) (Nat.ne_of_lt hlt)

theorem live_split (hi : i < N) (hr : s i = some r) : ∃ rest, live N s = live i s ++ r :: rest := by
  obtain ⟨m, rfl⟩ : ∃ m, N = i + (m + 1) := ⟨N - i - 1, by omega⟩
  refine ⟨((List.range m).map (fun j => i + (j + 1))).filterMap s, ?_⟩
  rw [live, List.range_add, List.filterMap_append, List.range_succ_eq_map, List.map_cons, List.filterMap_cons]
  simp [live, hr, Function.comp_def]

theorem distinct_of_nodup (h : ((live N s).map key).Nodup) : Distinct N key s := by
  have hlt : ∀ i < N, ∀ j < N, ∀ x y, s i = some x → s j = some y → key x = key y → ¬ i < j := by
    intro i _ j hj x y hx hy hk hij
    obtain ⟨rest, hrest⟩ := live_split hj hy
    rw [hrest, List.map_append, List.map_cons] at h
    have hmem : key y ∈ (live j s).map key := List.mem_map.mpr ⟨x, mem_live.mpr ⟨i, hij, hx⟩, hk⟩
    exact List.disjoint_of_nodup_append h hmem List.mem_cons_self
  intro i hi j hj x y hx hy hk
  have h1 := hlt i hi j hj x y hx hy hk
  have h2 := hlt j hj i hi y x hy hx hk.symm
  omega

theorem length_live_le : (live N s).length ≤ N := by
  simpa [live] using List.length_filterMap_le s (List.range N)

/-- Where a record goes when the records are moved to the front. -/
theorem compacted_of_live (hi : i < N) (hr : s i = some r) : compacted N s (live i s).length = some r := by
  obtain ⟨rest, hrest⟩ := live_split hi hr
  simp [compacted, hrest]

theorem compacted_eq_none : compacted N s i = none ↔ (live N s).length ≤ i := by
  rw [compacted, List.getElem?_eq_none_iff]

theorem live_compacted : r ∈ live N (compacted N s) ↔ r ∈ live N s := by
  rw [mem_live]
  constructor
  · rintro ⟨i, _, hi⟩
    exact List.mem_of_getElem? hi
  · intro hr
    obtain ⟨i, hi, he⟩ := List.getElem_of_mem hr
    exact ⟨i, Nat.lt_of_lt_of_le hi length_live_le, he ▸ List.getElem?_eq_getElem hi⟩

theorem distinct_compacted (hd : Distinct N key s) : Distinct N key (compacted N s) := by
  intro i _ j _ x y hx hy hk
  have hnd := nodup_live hd
  have hx' : ((live N s).map key)[i]? = some (key x) := by
    rw [List.getElem?_map, show (live N s)[i]? = some x from hx, Option.map_some]
  have hy' : ((live N s).map key)[j]? = some (key x) := by
    rw [List.getElem?_map, show (live N s)[j]? = some y from hy, Option.map_some, hk]
  obtain ⟨hi, _⟩ := List.getElem?_eq_some_iff.mp hx'
  exact (List.getElem?_inj hi hnd).mp (hx'.trans hy'.symm)

/-- All slots before `i` are live exactly if nothing moves there. -/
theorem length_live_eq_iff : (live i s).length = i ↔ ∀ j < i, s j ≠ none := by
  induction i with
  | zero => simp [live]
  | succ i ih =>
    have hle : (live i s).length ≤ i := length_live_le
    rw [live, List.range_succ, List.filterMap_append, List.length_append, ← live]
    cases hs : s i with
    | none =>
      simp only [List.filterMap_cons, hs, List.filterMap_nil, List.length_nil, Nat.add_zero]
      constructor
      · intro h
        omega
      · intro h
        exact absurd hs (h i (Nat.lt_succ_self i))
    | some x =>
      simp only [List.filterMap_cons, hs, List.filterMap_nil, List.length_cons, List.length_nil, Nat.zero_add]
      constructor
      · intro h j hj
        rcases Nat.lt_or_eq_of_le (Nat.le_of_lt_succ hj) with hj | rfl
        · exact ih.mp (by omega) j hj
        · simp [hs]
      · intro h
        have := ih.mpr (fun j hj => h j (by omega))
        omega

theorem length_live_lt (hi : i < N) (hr : s i = none) : (live N s).length < N := by
  refine Nat.lt_of_le_of_ne length_live_le (fun he => ?_)
  exact length_live_eq_iff.mp he i hi hr

/-- The record of a key was replaced by one that `p` accepts, and no other record is lost. -/
structure Replaced (N : Nat) (key : R → K) (s s' : Nat → Option R) (k : K) (p : R → Prop) : Prop where
  one : ∃ n < N, ∃ x, s' n = some x ∧ key x = k ∧ p x ∧ ∀ j < N, ∀ y, s' j = some y → key y = k → j = n
  kept : ∀ x ∈ live N s, key x ≠ k → x ∈ live N s'

theorem replaced_move {p : R → Prop} (hd : Distinct N key s) (hN : n < N) (hi : i < N) (hr : s i = some r)
    (hn : s n = none) (hk : key r' = key r) (hp : p r') :
    Replaced N key s (kill (put s n r') i) (key r) p := by
  have hne : n ≠ i := fun he => by simp [← he, hn] at hr
  constructor
  · refine ⟨n, hN, r', by rw [kill_of_ne hne, put_self], hk, hp, fun j hj y hy hyk => ?_⟩
    by_contra hjn
    have hji : j ≠ i := fun he => by simp [he] at hy
    rw [kill_of_ne hji, put_of_ne hjn] at hy
    exact hji (hd j hj i hi y r hy hr hyk)
  · intro x hx hxk
    obtain ⟨j, hj, hjx⟩ := mem_live.mp hx
    refine (mem_live_move hN hr hn).mpr (Or.inr ⟨j, hj, fun he => hxk ?_, hjx⟩)
    rw [he] at hjx
    exact congrArg key (Option.some.inj (hjx.symm.trans hr))

/-- When the records were moved to the front before the new version was written, the old slot
is still the right one to kill only if nothing moved there, or if the new version went to it
and was not needed. -/
theorem replaced_move_compacted_iff {p : R → Prop} {c : Nat → Option R} (hd : Distinct N key s) (hi : i < N)
    (hr : s i = some r) (hc : ∀ j < N, c j = compacted N s j) (hlt : (live N s).length < N)
    (hk : key r' = key r) (hp : p r') :
    Replaced N key s (kill (put c (live N s).length r') i) (key r) p ↔
      (∀ j < i, s j ≠ none) ∨ ((live N s).length = i ∧ p r) := by
  have hm : c (live N s).length = none := (hc _ hlt).trans (compacted_eq_none.mpr (Nat.le_refl _))
  have hle : (live i s).length ≤ i := length_live_le
  have hold : c (live i s).length = some r := (hc _ (Nat.lt_of_le_of_lt hle hi)).trans (compacted_of_live hi hr)
  have hne : (live i s).length ≠ (live N s).length := fun he => by simp [he, hm] at hold
  have hdc : Distinct N key c := fun a ha b hb x y hx hy => by
    rw [hc a ha] at hx
    rw [hc b hb] at hy
    exact distinct_compacted hd a ha b hb x y hx hy
  have hmem : ∀ x, x ∈ live N s → ∃ j < N, c j = some x := fun x hx => by
    obtain ⟨j, hj, hjx⟩ := mem_live.mp (live_compacted.mpr hx)
    exact ⟨j, hj, (hc j hj).trans hjx⟩
  constructor
  · rintro ⟨⟨n, _, x, hx, hxk, hpx, huniq⟩, _⟩
    by_cases hsame : (live i s).length = i
    · exact Or.inl (length_live_eq_iff.mp hsame)
    · right
      have hat : kill (put c (live N s).length r') i (live i s).length = some r := by
        rw [kill_of_ne hsame, put_of_ne hne, hold]
      have hn := huniq _ (Nat.lt_of_le_of_lt hle hi) r hat rfl
      have hmi : (live N s).length = i := by
        by_contra hmi
        have hnew : kill (put c (live N s).length r') i (live N s).length = some r' := by
          rw [kill_of_ne hmi, put_self]
        exact hne (hn.trans (huniq _ hlt r' hnew hk).symm)
      rw [← hn, hat] at hx
      exact ⟨hmi, Option.some.inj hx ▸ hpx⟩
  · rintro (hall | ⟨hmi, hpr⟩)
    · have hsame := length_live_eq_iff.mpr hall
      rw [hsame] at hold
      obtain ⟨hone, hkept⟩ := replaced_move hdc hlt hi hold hm hk hp
      exact ⟨hone, fun x hx hxk => hkept x (mem_live.mpr (hmem x hx)) hxk⟩
    · have hother : ∀ j, j ≠ i → kill (put c (live N s).length r') i j = c j := fun j hj => by
        rw [kill_of_ne hj, put_of_ne (hmi ▸ hj)]
      have hji : (live i s).length ≠ i := hmi ▸ hne
      constructor
      · refine ⟨(live i s).length, Nat.lt_of_le_of_lt hle hi, r, (hother _ hji).trans hold, rfl, hpr, ?_⟩
        intro j hj y hy hyk
        have hjne : j ≠ i := fun he => by simp [he] at hy
        rw [hother j hjne] at hy
        exact hdc j hj _ (Nat.lt_of_le_of_lt hle hi) y r hy hold hyk
      · intro x hx _
        obtain ⟨j, hj, hjx⟩ := hmem x hx
        have hjne : j ≠ i := fun he => by simp [he, ← hmi, hm] at hjx
        exact mem_live.mpr ⟨j, hj, (hother j hjne).trans hjx⟩

/-- At most the records of one key changed: it has its old record, a new one, or both. -/
structure OneChanged (N : Nat) (key : R → K) (s s' : Nat → Option R) (k : K) (new : R → Prop) : Prop where
  others : ∀ i < N, ∀ x, key x ≠ k → (s' i = some x ↔ s i = some x)
  versions : ∀ x ∈ live N s', key x = k → x ∈ live N s ∨ new x
  kept : (∃ x ∈ live N s, key x = k) → ∃ x ∈ live N s', key x = k
  copies : Distinct N key s' ∨ ((∃ x ∈ live N s, key x = k) ∧
    ∃ n < N, ∃ x, s' n = some x ∧ key x = k ∧ new x ∧ Distinct N key (kill s' n))

theorem OneChanged.refl (hd : Distinct N key s) (k : K) (new : R → Prop) : OneChanged N key s s k new :=
  ⟨fun _ _ _ _ => Iff.rfl, fun _ hx _ => Or.inl hx, id, Or.inl hd⟩

theorem mem_live_put (hN : n < N) (hn : s n = none) {x : R} : x ∈ live N (put s n r) ↔ x = r ∨ x ∈ live N s := by
  rw [mem_live, mem_live]
  constructor
  · rintro ⟨j, hj, hx⟩
    by_cases hjn : j = n
    · subst hjn
      rw [put_self] at hx
      exact Or.inl (Option.some.inj hx).symm
    · rw [put_of_ne hjn] at hx
      exact Or.inr ⟨j, hj, hx⟩
  · rintro (rfl | ⟨j, hj, hx⟩)
    · exact ⟨n, hN, put_self⟩
    · have hjn : j ≠ n := fun he => by simp [he, hn] at hx
      exact ⟨j, hj, by rw [put_of_ne hjn, hx]⟩

theorem kill_put (hn : s n = none) : kill (put s n r) n = s := by
  funext j
  by_cases hj : j = n
  · subst hj
    rw [kill_self, hn]
  · rw [kill_of_ne hj, put_of_ne hj]

/-- The state between the write of a new version and the removal of the old one. -/
theorem oneChanged_put {new : R → Prop} (hd : Distinct N key s) (hN : n < N) (hn : s n = none) (hnew : new r) :
    OneChanged N key s (put s n r) (key r) new := by
  refine ⟨fun i _ x hx => ?_, fun x hx _ => ?_, fun ⟨x, hx, hk⟩ => ?_, ?_⟩
  · by_cases hin : i = n
    · subst hin
      have hne : r ≠ x := fun he => hx (he ▸ rfl)
      simp [hn, hne]
    · rw [put_of_ne hin]
  · rcases (mem_live_put hN hn).mp hx with rfl | hx
    · exact Or.inr hnew
    · exact Or.inl hx
  · exact ⟨x, (mem_live_put hN hn).mpr (Or.inr hx), hk⟩
  · by_cases habs : Absent N key s (key r)
    · exact Or.inl ((distinct_put_iff hd hN hn).mpr habs)
    · right
      simp only [Absent, not_forall, not_not] at habs
      obtain ⟨i, hi, x, hx, hk⟩ := habs
      exact ⟨⟨x, mem_live.mpr ⟨i, hi, hx⟩, hk⟩, n, hN, r, put_self, rfl, hnew, (kill_put hn).symm ▸ hd⟩

theorem oneChanged_move {new : R → Prop} (hd : Distinct N key s) (hN : n < N) (hi : i < N) (hr : s i = some r)
    (hn : s n = none) (hk : key r' = key r) (hnew : new r') :
    OneChanged N key s (kill (put s n r') i) (key r) new := by
  refine ⟨fun j _ x hx => ?_, fun x hx _ => ?_, fun _ => ?_, Or.inl (hd.move hi hr hn hk)⟩
  · by_cases hji : j = i
    · subst hji
      have hne : r ≠ x := fun he => hx (he ▸ rfl)
      simp [hr, hne]
    · rw [kill_of_ne hji]
      by_cases hjn : j = n
      · subst hjn
        have hne : r' ≠ x := fun he => hx (he ▸ hk)
        simp [hn, hne]
      · rw [put_of_ne hjn]
  · rcases (mem_live_move hN hr hn).mp hx with rfl | ⟨j, hj, _, hjx⟩
    · exact Or.inr hnew
    · exact Or.inl (mem_live.mpr ⟨j, hj, hjx⟩)
  · exact ⟨r', (mem_live_move hN hr hn).mpr (Or.inl rfl), hk⟩

end SlotStore
