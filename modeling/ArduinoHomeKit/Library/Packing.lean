import ArduinoHomeKit.Library.StoreLog
import Mathlib.Order.Nat

/-! A block packed with a moving cursor: a struct in front, and behind it the parts that its pointers
lead to. -/

namespace Packing

open StoreLog

variable {α : Type*} {struct size p : Nat}

/-- A part of the block: the fields of the struct that it sets (offset and size), the bytes that it takes
behind the cursor, its stores and the next cursor when the cursor is at p, and for each source it copies
the bytes that are read and the bytes that are there. -/
structure Part (α : Type*) where
  fields : List (Nat × Nat)
  length : Nat := 0
  log : Nat → List (Nat × α)
  next : Nat → Nat := id
  reads : List (Nat × Nat) := []

/-- The cursor behind the parts. -/
def finish : Nat → List (Part α) → Nat
  | p, [] => p
  | p, q :: parts => finish (q.next p) parts

def log : Nat → List (Part α) → List (Nat × α)
  | _, [] => []
  | p, q :: parts => q.log p ++ log (q.next p) parts

/-- The offset and the size of what each part takes. -/
def regions : Nat → List (Part α) → List (Nat × Nat)
  | _, [] => []
  | p, q :: parts => (p, q.length) :: regions (q.next p) parts

def Apart (r r' : Nat × Nat) : Prop := r.1 + r.2 ≤ r'.1 ∨ r'.1 + r'.2 ≤ r.1

instance (r r' : Nat × Nat) : Decidable (Apart r r') := inferInstanceAs (Decidable (_ ∨ _))

/-- What is stored is in the block, no two parts take the same bytes, and no source is read past its end. -/
structure Safe (size struct : Nat) (parts : List (Part α)) : Prop where
  inside : ∀ s ∈ log struct parts, s.1 < size
  apart : ((0, struct) :: regions struct parts).Pairwise Apart
  reads : ∀ q ∈ parts, ∀ r ∈ q.reads, r.1 ≤ r.2

/-- The cursor passes what the part takes by less than a word, and the stores stay in front of it. -/
structure Part.Sound (struct : Nat) (q : Part α) : Prop where
  room : ∀ p, p + q.length ≤ q.next p
  below : ∀ p, struct ≤ p → ∀ s ∈ q.log p, s.1 < q.next p
  reaches : ∀ p, struct ≤ p → q.next p = p ∨ ∃ s ∈ q.log p, q.next p ≤ s.1 + 4

/-- Every store goes to one of the fields or between the bounds. -/
def Stays (fields : List (Nat × Nat)) (lo hi : Nat) (log : List (Nat × α)) : Prop :=
  ∀ s ∈ log, (∃ f ∈ fields, f.1 ≤ s.1 ∧ s.1 < f.1 + f.2) ∨ (lo ≤ s.1 ∧ s.1 < hi)

/-- Stores go to fields of the part and to what it takes only. -/
structure Part.Own (struct : Nat) (q : Part α) : Prop where
  fields : ∀ f ∈ q.fields, f.1 + f.2 ≤ struct
  stores : ∀ p, struct ≤ p → Stays q.fields p (p + q.length) (q.log p)

theorem stays_append {fields : List (Nat × Nat)} {lo hi : Nat} {log log' : List (Nat × α)} :
    Stays fields lo hi (log ++ log') ↔ Stays fields lo hi log ∧ Stays fields lo hi log' := List.forall_mem_append

theorem Stays.field {fields : List (Nat × Nat)} {lo hi : Nat} {f : Nat × Nat} {log : List (Nat × α)}
    (hf : f ∈ fields) (h : Within f.1 (f.1 + f.2) log) : Stays fields lo hi log := fun s hs => Or.inl ⟨f, hf, h s hs⟩

theorem Stays.data {fields : List (Nat × Nat)} {lo hi : Nat} {log : List (Nat × α)} (h : Within lo hi log) :
    Stays fields lo hi log := fun s hs => Or.inr (h s hs)

section Parts

variable {parts : List (Part α)} {q : Part α} {m : Nat → α} {data data₀ : List α} {f : Nat × Nat}

theorem log_append (pre post : List (Part α)) (p : Nat) :
    log p (pre ++ post) = log p pre ++ log (finish p pre) post := by
  induction pre generalizing p with
  | nil => rfl
  | cons q pre ih =>
    rw [List.cons_append, log, log, ih, List.append_assoc]
    rfl

theorem Part.Sound.le_next (h : q.Sound struct) (p : Nat) : p ≤ q.next p :=
  Nat.le_trans (Nat.le_add_right p q.length) (h.room p)

/-- A part that keeps to its bytes, stores the last of them and goes to the next word at most. -/
theorem Part.Own.sound (h : q.Own struct) (hroom : ∀ p, p + q.length ≤ q.next p) (hpad : ∀ p, q.next p ≤ p + q.length + 3)
    (hnone : q.length = 0 → ∀ p, q.next p = p)
    (hlast : 0 < q.length → ∀ p, ∃ s ∈ q.log p, s.1 + 1 = p + q.length) : q.Sound struct := by
  refine ⟨hroom, fun p hp s hs => ?_, fun p hp => ?_⟩
  · have hnext := hroom p
    rcases h.stores p hp s hs with ⟨f, hf, _, hhi⟩ | ⟨_, hhi⟩
    · have hfield := h.fields f hf
      omega
    · omega
  · rcases Nat.eq_zero_or_pos q.length with hzero | hpos
    · exact Or.inl (hnone hzero p)
    · obtain ⟨s, hs, hlast⟩ := hlast hpos p
      have hnext := hpad p
      exact Or.inr ⟨s, hs, by omega⟩

theorem le_finish (h : ∀ q ∈ parts, q.Sound struct) (p : Nat) : p ≤ finish p parts := by
  induction parts generalizing p with
  | nil => exact Nat.le_refl p
  | cons q parts ih =>
    obtain ⟨hq, h⟩ := List.forall_mem_cons.mp h
    exact (hq.le_next p).trans (ih h (q.next p))

theorem log_below (h : ∀ q ∈ parts, q.Sound struct) (hp : struct ≤ p) : ∀ s ∈ log p parts, s.1 < finish p parts := by
  induction parts generalizing p with
  | nil => simp [log]
  | cons q parts ih =>
    obtain ⟨hq, h⟩ := List.forall_mem_cons.mp h
    intro s hs
    rcases List.mem_append.mp hs with hs | hs
    · exact Nat.lt_of_lt_of_le (hq.below p hp s hs) (le_finish h _)
    · exact ih h (hp.trans (hq.le_next p)) s hs

/-- The last byte stored is less than a word from the end. -/
theorem log_reaches (h : ∀ q ∈ parts, q.Sound struct) (hp : struct ≤ p) :
    finish p parts = p ∨ ∃ s ∈ log p parts, finish p parts ≤ s.1 + 4 := by
  induction parts generalizing p with
  | nil => exact Or.inl rfl
  | cons q parts ih =>
    obtain ⟨hq, h⟩ := List.forall_mem_cons.mp h
    rcases ih h (hp.trans (hq.le_next p)) with hsame | ⟨s, hs, hle⟩
    · show finish (q.next p) parts = p ∨ _
      rw [hsame]
      rcases hq.reaches p hp with hnext | ⟨s, hs, hle⟩
      · exact Or.inl hnext
      · refine Or.inr ⟨s, List.mem_append_left _ hs, ?_⟩
        show finish (q.next p) parts ≤ s.1 + 4
        rw [hsame]
        exact hle
    · exact Or.inr ⟨s, List.mem_append_right _ hs, hle⟩

theorem regions_behind (h : ∀ q ∈ parts, q.Sound struct) (p : Nat) : ∀ r ∈ regions p parts, p ≤ r.1 := by
  induction parts generalizing p with
  | nil => simp [regions]
  | cons q parts ih =>
    obtain ⟨hq, h⟩ := List.forall_mem_cons.mp h
    intro r hr
    rcases List.mem_cons.mp hr with rfl | hr
    · exact Nat.le_refl p
    · exact (hq.le_next p).trans (ih h _ r hr)

theorem regions_apart (h : ∀ q ∈ parts, q.Sound struct) (p : Nat) : (regions p parts).Pairwise Apart := by
  induction parts generalizing p with
  | nil => exact List.Pairwise.nil
  | cons q parts ih =>
    obtain ⟨hq, h⟩ := List.forall_mem_cons.mp h
    refine List.Pairwise.cons (fun r hr => ?_) (ih h _)
    exact Or.inl ((hq.room p).trans (regions_behind h _ r hr))

/-- A block of the size that the cursor passes, if that is a machine word. -/
theorem safe_iff {M : Nat} (hM : 4 ≤ M) (hstruct : struct < M) (h : ∀ q ∈ parts, q.Sound struct)
    (hreads : ∀ q ∈ parts, ∀ r ∈ q.reads, r.1 ≤ r.2) :
    Safe (finish struct parts % M) struct parts ↔ finish struct parts < M := by
  constructor
  · intro hsafe
    rcases log_reaches h (Nat.le_refl struct) with hsame | ⟨s, hs, hle⟩
    · omega
    · by_contra hge
      have hinside := hsafe.inside s hs
      have hmod : finish struct parts % M ≤ finish struct parts - M := by
        rw [Nat.mod_eq_sub_mod (Nat.le_of_not_lt hge)]
        exact Nat.mod_le _ _
      omega
  · intro hlt
    rw [Nat.mod_eq_of_lt hlt]
    refine ⟨log_below h (Nat.le_refl struct), List.Pairwise.cons (fun r hr => ?_) (regions_apart h _), hreads⟩
    apply Or.inl
    show 0 + struct ≤ r.1
    rw [Nat.zero_add]
    exact regions_behind h _ r hr

/-! What is read back from the block. -/

theorem keep_field (h : ∀ q ∈ parts, q.Sound struct) (hown : ∀ q ∈ parts, q.Own struct) (hp : struct ≤ p)
    (hf : ∀ q ∈ parts, ∀ g ∈ q.fields, Apart f g) (hfs : f.1 + f.2 ≤ struct) (hd : data.length = f.2)
    (hm : Lies m f.1 data) : Lies (apply m (log p parts)) f.1 data := by
  induction parts generalizing p m with
  | nil => exact hm
  | cons q parts ih =>
    obtain ⟨hq, h⟩ := List.forall_mem_cons.mp h
    obtain ⟨hqo, hown⟩ := List.forall_mem_cons.mp hown
    obtain ⟨hqf, hf⟩ := List.forall_mem_cons.mp hf
    rw [log, apply_append]
    apply ih h hown (hp.trans (hq.le_next p)) hf
    intro i hi
    rw [apply_outside, hm i hi]
    intro s hs
    rcases hqo.stores p hp s hs with ⟨g, hg, hlo, hhi⟩ | ⟨hlo, _⟩
    · have hapart : f.1 + f.2 ≤ g.1 ∨ g.1 + g.2 ≤ f.1 := hqf g hg
      omega
    · omega

theorem keep_data {o : Nat} (h : ∀ q ∈ parts, q.Sound struct) (hown : ∀ q ∈ parts, q.Own struct) (hp : struct ≤ p)
    (ho : struct ≤ o) (hd : o + data.length ≤ p) (hm : Lies m o data) : Lies (apply m (log p parts)) o data := by
  induction parts generalizing p m with
  | nil => exact hm
  | cons q parts ih =>
    obtain ⟨hq, h⟩ := List.forall_mem_cons.mp h
    obtain ⟨hqo, hown⟩ := List.forall_mem_cons.mp hown
    rw [log, apply_append]
    apply ih h hown (hp.trans (hq.le_next p)) (hd.trans (hq.le_next p))
    intro i hi
    rw [apply_outside, hm i hi]
    intro s hs
    rcases hqo.stores p hp s hs with ⟨g, hg, _, hhi⟩ | ⟨hlo, _⟩
    · have hfield := hqo.fields g hg
      omega
    · omega

/-- Parts that keep out of each other's way. -/
structure Packed (struct : Nat) (parts : List (Part α)) : Prop where
  sound : ∀ q ∈ parts, q.Sound struct
  own : ∀ q ∈ parts, q.Own struct
  fields : (parts.flatMap Part.fields).Pairwise Apart

theorem apart_symm {r r' : Nat × Nat} (h : Apart r r') : Apart r' r := Or.symm h

theorem split_at {i : Nat} (hq : parts[i]? = some q) : parts = parts.take i ++ q :: parts.drop (i + 1) := by
  obtain ⟨hi, rfl⟩ := List.getElem?_eq_some_iff.mp hq
  rw [List.getElem_cons_drop, List.take_append_drop]

theorem Packed.cursor (h : Packed struct parts) (i : Nat) : struct ≤ finish struct (parts.take i) :=
  le_finish (fun q hq => h.sound q (List.mem_of_mem_take hq)) struct

/-- A field is as the part that sets it leaves it, if the others keep to their bytes. -/
theorem field_kept {i : Nat} (h : ∀ q ∈ parts, q.Sound struct)
    (hown : ∀ q ∈ parts.take i ++ parts.drop (i + 1), q.Own struct)
    (hfields : (parts.flatMap Part.fields).Pairwise Apart) (hq : parts[i]? = some q) (hf : f ∈ q.fields)
    (hfs : f.1 + f.2 ≤ struct) (h0 : Lies m f.1 data₀) (hd₀ : data₀.length = f.2) (hd : data.length = f.2)
    (hlocal : ∀ m : Nat → α, Lies m f.1 data₀ → Lies (apply m (q.log (finish struct (parts.take i)))) f.1 data) :
    Lies (apply m (log struct parts)) f.1 data := by
  have hp : struct ≤ finish struct (parts.take i) := le_finish (fun q hq => h q (List.mem_of_mem_take hq)) struct
  rw [split_at hq] at h hfields
  obtain ⟨hpre, hsound⟩ := List.forall_mem_append.mp h
  obtain ⟨hqs, hpost⟩ := List.forall_mem_cons.mp hsound
  obtain ⟨hpreOwn, hpostOwn⟩ := List.forall_mem_append.mp hown
  rw [List.flatMap_append, List.flatMap_cons, List.pairwise_append] at hfields
  obtain ⟨_, hrest, hpreApart⟩ := hfields
  rw [split_at hq, log_append, log, apply_append, apply_append]
  apply keep_field hpost hpostOwn (hp.trans (hqs.le_next _)) _ hfs hd
  · apply hlocal
    apply keep_field hpre hpreOwn (Nat.le_refl struct) _ hfs hd₀ h0
    intro q' hq' g hg
    apply apart_symm
    exact hpreApart g (List.mem_flatMap.mpr ⟨q', hq', hg⟩) f (List.mem_append_left _ hf)
  · intro q' hq' g hg
    exact (List.pairwise_append.mp hrest).2.2 f hf g (List.mem_flatMap.mpr ⟨q', hq', hg⟩)

theorem Packed.field {i : Nat} (h : Packed struct parts) (hq : parts[i]? = some q) (hf : f ∈ q.fields)
    (h0 : Lies m f.1 data₀) (hd₀ : data₀.length = f.2) (hd : data.length = f.2)
    (hlocal : ∀ m : Nat → α, Lies m f.1 data₀ → Lies (apply m (q.log (finish struct (parts.take i)))) f.1 data) :
    Lies (apply m (log struct parts)) f.1 data := by
  have hfs := (h.own q (List.mem_of_getElem? hq)).fields f hf
  apply field_kept h.sound _ h.fields hq hf hfs h0 hd₀ hd hlocal
  intro q' hq'
  rcases List.mem_append.mp hq' with hq' | hq'
  · exact h.own q' (List.mem_of_mem_take hq')
  · exact h.own q' (List.mem_of_mem_drop hq')

/-- What a part stores behind the cursor stays. -/
theorem Packed.stored {i o : Nat} (h : Packed struct parts) (hq : parts[i]? = some q)
    (ho : finish struct (parts.take i) ≤ o) (hd : o + data.length ≤ q.next (finish struct (parts.take i)))
    (hlocal : ∀ m : Nat → α, Lies (apply m (q.log (finish struct (parts.take i)))) o data) :
    Lies (apply m (log struct parts)) o data := by
  have hp := h.cursor i
  obtain ⟨hsound, hown, _⟩ := h
  rw [split_at hq] at hsound hown
  obtain ⟨hqs, hpost⟩ := List.forall_mem_cons.mp (List.forall_mem_append.mp hsound).2
  obtain ⟨_, hpostOwn⟩ := List.forall_mem_cons.mp (List.forall_mem_append.mp hown).2
  rw [split_at hq, log_append, log, apply_append, apply_append]
  exact keep_data hpost hpostOwn (hp.trans (hqs.le_next _)) (hp.trans ho) hd (hlocal _)

end Parts

end Packing
