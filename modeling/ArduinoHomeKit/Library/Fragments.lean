import Mathlib.Data.List.Chain
import Mathlib.Data.Nat.Basic
import ArduinoHomeKit.Library.Pieces

/-! Labelled values cut into fragments of bounded size, and fragments put together again: a full
fragment goes on with the next one if that has the same label. -/

namespace Pieces

variable {α : Type*} {n : Nat}

/-- Fuel beyond the length changes nothing. -/
theorem cut_fuel (hn : 0 < n) {fuel : Nat} {l : List α} (h : l.length ≤ fuel) : cut n fuel l = cut n l.length l := by
  induction fuel using Nat.strongRecOn generalizing l with
  | ind fuel ih =>
    cases l with
    | nil => rw [cut_nil, cut_nil]
    | cons a l =>
      obtain ⟨fuel, rfl⟩ : ∃ k, fuel = k + 1 := ⟨fuel - 1, by simp only [List.length_cons] at h; omega⟩
      have hdrop : ((a :: l).drop n).length ≤ l.length := by
        simp only [List.length_drop, List.length_cons]
        omega
      have hlen : l.length ≤ fuel := by simpa using h
      have hleft : cut n fuel ((a :: l).drop n) = cut n ((a :: l).drop n).length ((a :: l).drop n) :=
        ih fuel (Nat.lt_succ_self _) (hdrop.trans hlen)
      have hright : cut n l.length ((a :: l).drop n) = cut n ((a :: l).drop n).length ((a :: l).drop n) :=
        ih l.length (Nat.lt_succ_of_le hlen) hdrop
      rw [List.length_cons, cut, cut, hleft, hright]

/-- A short list is one piece. -/
theorem cut_short {l : List α} (h0 : l ≠ []) (h : l.length ≤ n) : cut n l.length l = [l] := by
  cases l with
  | nil => exact absurd rfl h0
  | cons a l => rw [List.length_cons, cut, List.take_of_length_le h, List.drop_of_length_le h, cut_nil]

/-- A full piece in front. -/
theorem cut_append (hn : 0 < n) {l r : List α} (h : l.length = n) :
    cut n (l ++ r).length (l ++ r) = l :: cut n r.length r := by
  have hne : l ++ r ≠ [] := by
    intro he
    rw [List.append_eq_nil_iff] at he
    simp only [he.1, List.length_nil] at h
    omega
  obtain ⟨k, hk⟩ : ∃ k, (l ++ r).length = k + 1 := ⟨(l ++ r).length - 1, by
    have := List.length_pos_iff.mpr hne
    omega⟩
  have hr : r.length ≤ k := by
    rw [List.length_append] at hk
    omega
  rw [hk, cut_succ hne, ← h, List.take_left, List.drop_left, h, cut_fuel hn hr]

end Pieces

namespace Fragments

variable {κ α : Type*} {m : Nat}

/-- The fragments of a labelled value. -/
def split (m : Nat) (v : κ × List α) : List (κ × List α) :=
  (Pieces.cut m v.2.length v.2).map (fun piece => (v.1, piece))

theorem split_short {v : κ × List α} (h0 : v.2 ≠ []) (h : v.2.length ≤ m) : split m v = [v] := by
  rw [split, Pieces.cut_short h0 h, List.map_singleton]

theorem split_append (hm : 0 < m) (k : κ) {l r : List α} (h : l.length = m) :
    split m (k, l ++ r) = (k, l) :: split m (k, r) := by
  rw [split, Pieces.cut_append hm h, List.map_cons, split]

/-- A long value has a full fragment in front. -/
theorem split_long (hm : 0 < m) {v : κ × List α} (h : m < v.2.length) :
    split m v = (v.1, v.2.take m) :: split m (v.1, v.2.drop m) := by
  have htake : (v.2.take m).length = m := List.length_take_of_le (Nat.le_of_lt h)
  rw [← split_append hm v.1 htake, List.take_append_drop]

/-- The fragments of a value that is not empty begin with its label. -/
theorem split_eq_cons (hm : 0 < m) {v : κ × List α} (h0 : v.2 ≠ []) : ∃ d fs, split m v = (v.1, d) :: fs := by
  by_cases h : v.2.length ≤ m
  · exact ⟨v.2, [], split_short h0 h⟩
  · exact ⟨_, _, split_long hm (not_le.mp h)⟩

variable [DecidableEq κ]

/-- Puts fragments together. -/
def merge (m : Nat) : List (κ × List α) → List (κ × List α)
  | [] => []
  | f :: fs =>
    match merge m fs with
    | [] => [f]
    | g :: gs => if f.2.length = m ∧ f.1 = g.1 then (f.1, f.2 ++ g.2) :: gs else f :: g :: gs

/-- What the first fragment becomes has its label. -/
theorem merge_cons_head (m : Nat) (f : κ × List α) (fs : List (κ × List α)) :
    ∃ d gs, merge m (f :: fs) = (f.1, d) :: gs := by
  rw [merge]
  split
  · exact ⟨f.2, [], rfl⟩
  · split
    · exact ⟨_, _, rfl⟩
    · exact ⟨f.2, _, rfl⟩

/-- A fragment that is not full stands alone, and so does one in front of another label. -/
theorem merge_cons_alone {f : κ × List α} {fs : List (κ × List α)}
    (h : f.2.length = m → ∀ g ∈ fs.head?, f.1 ≠ g.1) : merge m (f :: fs) = f :: merge m fs := by
  cases fs with
  | nil => rfl
  | cons g fs =>
    obtain ⟨d, gs, hmerge⟩ := merge_cons_head m g fs
    rw [merge, hmerge]
    dsimp only
    rw [if_neg (fun hh => h hh.1 g rfl hh.2)]

/-- A full fragment goes on with what follows under its label. -/
theorem merge_cons_full {f g : κ × List α} {fs gs : List (κ × List α)} (h : f.2.length = m) (hk : f.1 = g.1)
    (hfs : merge m fs = g :: gs) : merge m (f :: fs) = (f.1, f.2 ++ g.2) :: gs := by
  rw [merge, hfs]
  exact if_pos ⟨h, hk⟩

/-- The fragments of a value are put together to the value, unless they could go on. -/
theorem merge_split_append (hm : 0 < m) {v : κ × List α} (h0 : v.2 ≠ []) {fs : List (κ × List α)}
    (h : m ∣ v.2.length → ∀ g ∈ fs.head?, v.1 ≠ g.1) : merge m (split m v ++ fs) = v :: merge m fs := by
  obtain ⟨k, l⟩ := v
  induction hn : l.length using Nat.strongRecOn generalizing l with
  | ind n ih =>
    by_cases hlen : l.length ≤ m
    · rw [split_short h0 hlen, List.singleton_append]
      refine merge_cons_alone (fun hfull => h ?_)
      exact ⟨1, by simpa using hfull⟩
    · have hlong : m < l.length := not_le.mp hlen
      have hdrop : (l.drop m).length = l.length - m := List.length_drop ..
      have hne : l.drop m ≠ [] := by
        intro he
        rw [he, List.length_nil] at hdrop
        omega
      have hrest : merge m (split m (k, l.drop m) ++ fs) = (k, l.drop m) :: merge m fs := by
        refine ih (l.drop m).length (by omega) (l.drop m) hne (fun hd => h ?_) rfl
        simp only [hdrop, Nat.dvd_sub_self_right] at hd
        exact hd.resolve_right (not_le.mpr hlong)
      have htake : (l.take m).length = m := List.length_take_of_le (Nat.le_of_lt hlong)
      have hfull := merge_cons_full (f := (k, l.take m)) (g := (k, l.drop m)) htake rfl hrest
      rw [split_long hm hlong, List.cons_append]
      rw [hfull, List.take_append_drop]

/-- Values that are not empty come back, if none whose last fragment is full is followed by
another one with its label. -/
theorem merge_flatMap_split (hm : 0 < m) {l : List (κ × List α)} (h0 : ∀ v ∈ l, v.2 ≠ [])
    (h : l.IsChain (fun v w => m ∣ v.2.length → v.1 ≠ w.1)) : merge m (l.flatMap (split m)) = l := by
  induction l with
  | nil => rfl
  | cons v l ih =>
    obtain ⟨hv, hl⟩ := List.forall_mem_cons.mp h0
    rw [List.flatMap_cons]
    rw [merge_split_append hm hv ?_, ih hl h.tail]
    intro hd g hg
    cases l with
    | nil => simp at hg
    | cons w l =>
      obtain ⟨d, fs, hw⟩ := split_eq_cons hm (hl w (by simp))
      rw [List.flatMap_cons, hw, List.cons_append, List.head?_cons, Option.mem_some_iff] at hg
      rw [← hg]
      exact h.rel hd

/-- What fragments are put together to is cut into the same fragments. -/
theorem flatMap_split_merge (hm : 0 < m) {fs : List (κ × List α)} (h : ∀ f ∈ fs, f.2 ≠ [] ∧ f.2.length ≤ m) :
    (merge m fs).flatMap (split m) = fs := by
  induction fs with
  | nil => rfl
  | cons f fs ih =>
    obtain ⟨⟨h0, hlen⟩, hfs⟩ := List.forall_mem_cons.mp h
    have hrest := ih hfs
    rw [merge]
    split
    · rename_i hnil
      rw [hnil, List.flatMap_nil] at hrest
      rw [← hrest, List.flatMap_cons, List.flatMap_nil, List.append_nil, split_short h0 hlen]
    · rename_i g gs hmerge
      rw [hmerge, List.flatMap_cons] at hrest
      split
      · rename_i hfull
        rw [List.flatMap_cons, split_append hm f.1 hfull.1, hfull.2, List.cons_append]
        rw [show (g.1, g.2) = g from rfl, hrest, ← hfull.2]
      · rw [List.flatMap_cons, split_short h0 hlen, List.flatMap_cons, hrest]
        rfl

/-- No value is empty unless a fragment was. -/
theorem merge_ne_nil {fs : List (κ × List α)} (h : ∀ f ∈ fs, f.2 ≠ []) : ∀ v ∈ merge m fs, v.2 ≠ [] := by
  induction fs with
  | nil => simp [merge]
  | cons f fs ih =>
    obtain ⟨h0, hfs⟩ := List.forall_mem_cons.mp h
    have hrest := ih hfs
    rw [merge]
    split
    · simpa using h0
    · rename_i g gs hmerge
      rw [hmerge, List.forall_mem_cons] at hrest
      split
      · rw [List.forall_mem_cons]
        exact ⟨fun he => h0 (List.append_eq_nil_iff.mp he).1, hrest.2⟩
      · rw [List.forall_mem_cons, List.forall_mem_cons]
        exact ⟨h0, hrest⟩

end Fragments
