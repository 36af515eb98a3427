import Mathlib.Data.List.Chain

/-! JSON documents as trees and as sequences of tokens, over any type of strings and of
numbers. The tokens of a tree determine it, and a document from which the string of a
member is missing is no document any more. -/

namespace Json

variable {σ ν : Type}

inductive Tree (σ ν : Type)
  | null
  | boolean (b : Bool)
  | number (n : ν)
  | string (s : σ)
  | array (items : List (Tree σ ν))
  | object (members : List (σ × Tree σ ν))

inductive Token (σ ν : Type)
  | comma
  | colon
  | objectStart
  | objectEnd
  | arrayStart
  | arrayEnd
  | null
  | boolean (b : Bool)
  | number (n : ν)
  | string (s : σ)
  deriving DecidableEq

/-- The tokens a value can begin with. -/
def Token.startsValue : Token σ ν → Bool
  | comma | colon | objectEnd | arrayEnd => false
  | objectStart | arrayStart | null | boolean _ | number _ | string _ => true

mutual

def Tree.tokens : Tree σ ν → List (Token σ ν)
  | .null => [.null]
  | .boolean b => [.boolean b]
  | .number n => [.number n]
  | .string s => [.string s]
  | .array items => .arrayStart :: (itemTokens false items ++ [.arrayEnd])
  | .object members => .objectStart :: (memberTokens false members ++ [.objectEnd])

/-- The items of an array, each with a comma before it, the first one if `sep` says so. -/
def itemTokens (sep : Bool) : List (Tree σ ν) → List (Token σ ν)
  | [] => []
  | t :: ts => (if sep then [.comma] else []) ++ (t.tokens ++ itemTokens true ts)

def memberTokens (sep : Bool) : List (σ × Tree σ ν) → List (Token σ ν)
  | [] => []
  | (k, t) :: ms => (if sep then [.comma] else []) ++ (.string k :: .colon :: (t.tokens ++ memberTokens true ms))

end

mutual

def Tree.depth : Tree σ ν → Nat
  | .array items => itemsDepth items + 1
  | .object members => membersDepth members + 1
  | _ => 0

def itemsDepth : List (Tree σ ν) → Nat
  | [] => 0
  | t :: ts => max t.depth (itemsDepth ts)

def membersDepth : List (σ × Tree σ ν) → Nat
  | [] => 0
  | (_, t) :: ms => max t.depth (membersDepth ms)

end

theorem itemsDepth_le {d : Nat} {l : List (Tree σ ν)} : itemsDepth l ≤ d ↔ ∀ t ∈ l, t.depth ≤ d := by
  induction l with
  | nil => simp [itemsDepth]
  | cons t l ih => rw [itemsDepth, Nat.max_le, ih, List.forall_mem_cons]

theorem membersDepth_le {d : Nat} {l : List (σ × Tree σ ν)} : membersDepth l ≤ d ↔ ∀ m ∈ l, m.2.depth ≤ d := by
  induction l with
  | nil => simp [membersDepth]
  | cons m l ih =>
    obtain ⟨k, t⟩ := m
    rw [membersDepth, Nat.max_le, ih, List.forall_mem_cons]

/-- A sequence of tokens that is a document. -/
def IsDocument (l : List (Token σ ν)) : Prop := ∃ t : Tree σ ν, l = t.tokens

/-- The value of the first member with this key. -/
def Tree.member [DecidableEq σ] (k : σ) : Tree σ ν → Tree σ ν
  | .object members => ((members.find? (fun m => m.1 = k)).map Prod.snd).getD .null
  | _ => .null

def Tree.items : Tree σ ν → List (Tree σ ν)
  | .array items => items
  | _ => []

def Tree.number? : Tree σ ν → Option ν
  | .number n => some n
  | _ => none

section Shape

theorem Tree.tokens_eq_cons (t : Tree σ ν) :
    ∃ a l, t.tokens = a :: l ∧ a.startsValue = true := by
  cases t <;> exact ⟨_, _, rfl, rfl⟩

theorem Tree.tokens_eq_concat (t : Tree σ ν) : ∃ l a, t.tokens = l ++ [a] ∧ a ≠ .colon := by
  cases t with
  | null => exact ⟨[], _, rfl, by simp⟩
  | boolean b => exact ⟨[], _, rfl, by simp⟩
  | number n => exact ⟨[], _, rfl, by simp⟩
  | string s => exact ⟨[], _, rfl, by simp⟩
  | array items => exact ⟨.arrayStart :: itemTokens false items, _, rfl, by simp⟩
  | object members => exact ⟨.objectStart :: memberTokens false members, _, rfl, by simp⟩

theorem Tree.getLast_tokens {t : Tree σ ν} {a : Token σ ν} (h : a ∈ t.tokens.getLast?) : a ≠ .colon := by
  obtain ⟨l, b, ht, hb⟩ := t.tokens_eq_concat
  rw [ht, List.getLast?_concat, Option.mem_some_iff] at h
  exact h ▸ hb

mutual

/-- A document in front of other tokens is read back, and so is what stands behind it. -/
theorem Tree.tokens_inj (t t' : Tree σ ν) {r r' : List (Token σ ν)} (h : t.tokens ++ r = t'.tokens ++ r') :
    t = t' ∧ r = r' := by
  cases t with
  | array items =>
    cases t' with
    | array items' =>
      simp only [Tree.tokens, List.cons_append, List.append_assoc, List.nil_append, List.cons.injEq, true_and] at h
      obtain ⟨rfl, hr⟩ := itemTokens_inj false items items' h
      exact ⟨rfl, hr⟩
    | _ => simp [Tree.tokens] at h
  | object members =>
    cases t' with
    | object members' =>
      simp only [Tree.tokens, List.cons_append, List.append_assoc, List.nil_append, List.cons.injEq, true_and] at h
      obtain ⟨rfl, hr⟩ := memberTokens_inj false members members' h
      exact ⟨rfl, hr⟩
    | _ => simp [Tree.tokens] at h
  | _ => cases t' <;> simp_all [Tree.tokens]

theorem itemTokens_inj (sep : Bool) (l l' : List (Tree σ ν)) {r r' : List (Token σ ν)}
    (h : itemTokens sep l ++ .arrayEnd :: r = itemTokens sep l' ++ .arrayEnd :: r') : l = l' ∧ r = r' := by
  -- a value, or the comma in front of it, is not the end of the array
  have hne : ∀ (t : Tree σ ν) (m : List (Token σ ν)),
      (if sep then [Token.comma] else []) ++ (t.tokens ++ m) ≠ .arrayEnd :: r ∧
        (if sep then [Token.comma] else []) ++ (t.tokens ++ m) ≠ .arrayEnd :: r' := by
    intro t m
    obtain ⟨a, b, ht, ha⟩ := t.tokens_eq_cons
    have hend : a ≠ .arrayEnd := fun he => by simp [he, Token.startsValue] at ha
    cases sep <;> simp [ht, hend]
  cases l with
  | nil =>
    cases l' with
    | nil => simpa [itemTokens] using h
    | cons t' ts' =>
      rw [itemTokens, itemTokens, List.append_assoc, List.append_assoc] at h
      exact absurd h.symm (hne t' _).1
  | cons t ts =>
    cases l' with
    | nil =>
      rw [itemTokens, itemTokens, List.append_assoc, List.append_assoc] at h
      exact absurd h (hne t _).2
    | cons t' ts' =>
      simp only [itemTokens, List.append_assoc, List.append_cancel_left_eq] at h
      obtain ⟨rfl, hts⟩ := Tree.tokens_inj t t' h
      obtain ⟨rfl, hr⟩ := itemTokens_inj true ts ts' hts
      exact ⟨rfl, hr⟩

theorem memberTokens_inj (sep : Bool) (l l' : List (σ × Tree σ ν)) {r r' : List (Token σ ν)}
    (h : memberTokens sep l ++ .objectEnd :: r = memberTokens sep l' ++ .objectEnd :: r') : l = l' ∧ r = r' := by
  cases l with
  | nil =>
    cases l' with
    | nil => simpa [memberTokens] using h
    | cons m' ms' => cases sep <;> simp [memberTokens] at h
  | cons m ms =>
    obtain ⟨k, t⟩ := m
    cases l' with
    | nil => cases sep <;> simp [memberTokens] at h
    | cons m' ms' =>
      obtain ⟨k', t'⟩ := m'
      simp only [memberTokens, List.append_assoc, List.cons_append, List.append_cancel_left_eq, List.cons.injEq,
        Token.string.injEq, true_and] at h
      obtain ⟨rfl, hts⟩ := Tree.tokens_inj t t' h.2
      obtain ⟨rfl, hr⟩ := memberTokens_inj true ms ms' hts
      rw [h.1]
      exact ⟨rfl, hr⟩

end

/-- A colon is followed by a value. -/
def Follows (a b : Token σ ν) : Prop := a = .colon → b.startsValue = true

theorem follows_of_ne {a b : Token σ ν} (h : a ≠ .colon) : Follows a b := fun ha => absurd ha h

theorem isChain_append_of_ne {l m : List (Token σ ν)} (hl : l.IsChain Follows) (hm : m.IsChain Follows)
    (h : ∀ a ∈ l.getLast?, a ≠ .colon) : (l ++ m).IsChain Follows :=
  List.isChain_append.mpr ⟨hl, hm, fun a ha _ _ => follows_of_ne (h a ha)⟩

theorem isChain_cons_of_ne {a : Token σ ν} {l : List (Token σ ν)} (hl : l.IsChain Follows) (h : a ≠ .colon) :
    (a :: l).IsChain Follows :=
  isChain_append_of_ne (List.isChain_singleton a) hl (by simpa using h)

mutual

theorem Tree.isChain_tokens (t : Tree σ ν) : t.tokens.IsChain Follows := by
  cases t with
  | null => exact List.isChain_singleton _
  | boolean b => exact List.isChain_singleton _
  | number n => exact List.isChain_singleton _
  | string s => exact List.isChain_singleton _
  | array items =>
    exact isChain_cons_of_ne (isChain_itemTokens false items) (by simp)
  | object members =>
    exact isChain_cons_of_ne (isChain_memberTokens false members) (by simp)

theorem isChain_itemTokens (sep : Bool) (l : List (Tree σ ν)) :
    (itemTokens sep l ++ [Token.arrayEnd]).IsChain Follows := by
  cases l with
  | nil => exact List.isChain_singleton _
  | cons t ts =>
    have hts := isChain_append_of_ne t.isChain_tokens (isChain_itemTokens true ts) (fun _ => Tree.getLast_tokens)
    cases sep with
    | false => simpa [itemTokens] using hts
    | true => simpa [itemTokens] using isChain_cons_of_ne hts (a := .comma) (by simp)

theorem isChain_memberTokens (sep : Bool) (l : List (σ × Tree σ ν)) :
    (memberTokens sep l ++ [Token.objectEnd]).IsChain Follows := by
  cases l with
  | nil => exact List.isChain_singleton _
  | cons m ms =>
    obtain ⟨k, t⟩ := m
    have hms := isChain_append_of_ne t.isChain_tokens (isChain_memberTokens true ms) (fun _ => Tree.getLast_tokens)
    have hcolon : (Token.colon :: (t.tokens ++ (memberTokens true ms ++ [.objectEnd]))).IsChain Follows := by
      refine List.isChain_cons.mpr ⟨fun b hb _ => ?_, hms⟩
      obtain ⟨a, l, ht, ha⟩ := t.tokens_eq_cons
      rw [ht, List.cons_append, List.head?_cons, Option.mem_some_iff] at hb
      exact hb ▸ ha
    have hkey := isChain_cons_of_ne hcolon (a := .string k) (by simp)
    cases sep with
    | false => simpa [memberTokens] using hkey
    | true => simpa [memberTokens] using isChain_cons_of_ne hkey (a := .comma) (by simp)

end

/-- No document has a colon with no value behind it. -/
theorem IsDocument.startsValue {l : List (Token σ ν)} (h : IsDocument l) {b : Token σ ν}
    (hb : [.colon, b] <:+: l) : b.startsValue = true := by
  obtain ⟨t, rfl⟩ := h
  obtain ⟨l, m, hl⟩ := hb
  have hc := t.isChain_tokens
  rw [← hl] at hc
  exact (List.isChain_cons_cons.mp hc.left_of_append.right_of_append).1 rfl

end Shape

/-! What the first tokens tell of a document. -/

section Front

/-- The value that a token is by itself. -/
def Token.scalar? : Token σ ν → Option (Tree σ ν)
  | null => some .null
  | boolean b => some (.boolean b)
  | number n => some (.number n)
  | string s => some (.string s)
  | _ => none

variable {t u : Tree σ ν} {a : Token σ ν} {l r : List (Token σ ν)} {k : σ} {ms : List (σ × Tree σ ν)}

theorem Tree.eq_of_scalar (ha : a.scalar? = some u) (h : t.tokens ++ r = a :: l) : t = u ∧ r = l := by
  cases a <;> simp only [Token.scalar?, reduceCtorEq, Option.some.injEq] at ha <;> subst ha <;>
    cases t <;> simp [Tree.tokens] at h <;> simp [h]

theorem Tree.eq_object (h : t.tokens ++ r = .objectStart :: .string k :: .colon :: l) :
    ∃ v ms, t = .object ((k, v) :: ms) ∧ v.tokens ++ (memberTokens true ms ++ .objectEnd :: r) = l := by
  cases t with
  | object members =>
    cases members with
    | nil => simp [Tree.tokens, memberTokens] at h
    | cons m ms =>
      obtain ⟨k', v⟩ := m
      simp only [Tree.tokens, memberTokens, Bool.false_eq_true, if_false, List.nil_append, List.cons_append,
        List.append_assoc,
        List.cons.injEq, Token.string.injEq, true_and] at h
      exact ⟨v, ms, by rw [h.1], h.2⟩
  | _ => simp [Tree.tokens] at h

theorem members_eq_cons (h : memberTokens true ms ++ .objectEnd :: r = .comma :: .string k :: .colon :: l) :
    ∃ v ms', ms = (k, v) :: ms' ∧ v.tokens ++ (memberTokens true ms' ++ .objectEnd :: r) = l := by
  cases ms with
  | nil => simp [memberTokens] at h
  | cons m ms =>
    obtain ⟨k', v⟩ := m
    simp only [memberTokens, if_true, List.cons_append, List.nil_append, List.append_assoc, List.cons.injEq,
      Token.string.injEq, true_and] at h
    exact ⟨v, ms, by rw [h.1], h.2⟩

theorem Tree.eq_array (h : t.tokens ++ r = .arrayStart :: l) (hne : l.head? ≠ some .arrayEnd) :
    ∃ v items, t = .array (v :: items) ∧ v.tokens ++ (itemTokens true items ++ .arrayEnd :: r) = l := by
  cases t with
  | array items =>
    cases items with
    | nil =>
      simp only [Tree.tokens, itemTokens, List.nil_append, List.cons_append, List.cons.injEq, true_and] at h
      rw [← h] at hne
      simp at hne
    | cons v items =>
      simp only [Tree.tokens, itemTokens, Bool.false_eq_true, if_false, List.nil_append, List.cons_append, List.append_assoc,
        List.cons.injEq, true_and] at h
      exact ⟨v, items, rfl, h⟩
  | _ => simp [Tree.tokens] at h
end Front

section Missing

mutual

/-- Every token is kept but the strings that are the values of members. -/
def Tree.Exposed (keep : Token σ ν → Bool) : Tree σ ν → Prop
  | .null => keep .null = true
  | .boolean b => keep (.boolean b) = true
  | .number n => keep (.number n) = true
  | .string _ => True
  | .array items => ItemsExposed keep items
  | .object members => MembersExposed keep members

def ItemsExposed (keep : Token σ ν → Bool) : List (Tree σ ν) → Prop
  | [] => True
  | t :: ts => (∀ s, t = .string s → keep (.string s) = true) ∧ t.Exposed keep ∧ ItemsExposed keep ts

def MembersExposed (keep : Token σ ν → Bool) : List (σ × Tree σ ν) → Prop
  | [] => True
  | (k, t) :: ms => keep (.string k) = true ∧ t.Exposed keep ∧ MembersExposed keep ms

end

/-- A colon with no value behind it. -/
def Gap (l : List (Token σ ν)) : Prop := ∃ b : Token σ ν, b.startsValue = false ∧ [.colon, b] <:+: l

theorem Gap.of_part {l m : List (Token σ ν)} (h : Gap l) (hl : l <:+: m) : Gap m := by
  obtain ⟨b, hb, hi⟩ := h
  exact ⟨b, hb, hi.trans hl⟩

/-- Brackets, commas and colons. -/
def Token.isPunctuation : Token σ ν → Bool
  | comma | colon | objectStart | objectEnd | arrayStart | arrayEnd => true
  | null | boolean _ | number _ | string _ => false

variable {keep : Token σ ν → Bool}

theorem isPunctuation_of_missing (hp : ∀ a : Token σ ν, a.isPunctuation = true → keep a = true)
    {a : Token σ ν} (h : keep a = false) : a.isPunctuation = false := by
  by_contra ha
  simp [hp a (by simpa using ha)] at h

/-- Behind the value of a member comes a comma or the end of the object. -/
theorem filter_memberTokens_eq_cons (hp : ∀ a : Token σ ν, a.isPunctuation = true → keep a = true)
    (l : List (σ × Tree σ ν)) :
    ∃ b m, (memberTokens true l ++ [Token.objectEnd]).filter keep = b :: m ∧ b.startsValue = false := by
  cases l with
  | nil => exact ⟨.objectEnd, [], by simp [memberTokens, hp .objectEnd rfl], rfl⟩
  | cons m ms =>
    refine ⟨.comma, (Token.string m.1 :: .colon :: (m.2.tokens ++ memberTokens true ms) ++
      [Token.objectEnd]).filter keep, ?_, rfl⟩
    simp [memberTokens, hp .comma rfl]

mutual

theorem Tree.gap_of_missing (hp : ∀ a : Token σ ν, a.isPunctuation = true → keep a = true) (t : Tree σ ν)
    (h : t.Exposed keep) (hs : ∀ s, t ≠ .string s) (hm : ∃ a ∈ t.tokens, keep a = false) :
    Gap (t.tokens.filter keep) := by
  obtain ⟨a, ha, hk⟩ := hm
  have hna := isPunctuation_of_missing hp hk
  cases t with
  | null => simp_all [Tree.tokens, Tree.Exposed]
  | boolean b => simp_all [Tree.tokens, Tree.Exposed]
  | number n => simp_all [Tree.tokens, Tree.Exposed]
  | string s => exact absurd rfl (hs s)
  | array items =>
    have hi : a ∈ itemTokens false items := by
      simp only [Tree.tokens, List.mem_cons, List.mem_append, List.not_mem_nil, or_false] at ha
      rcases ha with rfl | ha | rfl
      · cases hna
      · exact ha
      · cases hna
    exact (gap_of_missing_items hp false items h ⟨a, hi, hk⟩).of_part
      ((List.infix_append' [Token.arrayStart] (itemTokens false items) [.arrayEnd]).filter keep)
  | object members =>
    have hi : a ∈ memberTokens false members := by
      simp only [Tree.tokens, List.mem_cons, List.mem_append, List.not_mem_nil, or_false] at ha
      rcases ha with rfl | ha | rfl
      · cases hna
      · exact ha
      · cases hna
    exact (gap_of_missing_members hp false members h ⟨a, hi, hk⟩).of_part
      ((List.suffix_cons Token.objectStart _).isInfix.filter keep)

theorem gap_of_missing_items (hp : ∀ a : Token σ ν, a.isPunctuation = true → keep a = true) (sep : Bool)
    (l : List (Tree σ ν)) (h : ItemsExposed keep l) (hm : ∃ a ∈ itemTokens sep l, keep a = false) :
    Gap ((itemTokens sep l).filter keep) := by
  obtain ⟨a, ha, hk⟩ := hm
  have hna := isPunctuation_of_missing hp hk
  cases l with
  | nil => simp [itemTokens] at ha
  | cons t ts =>
    rw [itemTokens] at ha ⊢
    rcases List.mem_append.mp ha with ha | ha
    · cases sep <;> simp at ha
      cases ha ▸ hna
    · rcases List.mem_append.mp ha with ha | ha
      · have hs : ∀ s, t ≠ .string s := by
          rintro s rfl
          rw [Tree.tokens, List.mem_singleton] at ha
          simp [ha, h.1 s rfl] at hk
        exact (t.gap_of_missing hp h.2.1 hs ⟨a, ha, hk⟩).of_part
          ((List.infix_append' _ t.tokens _).filter keep)
      · exact (gap_of_missing_items hp true ts h.2.2 ⟨a, ha, hk⟩).of_part
          (((List.suffix_append _ _).trans (List.suffix_append _ _)).isInfix.filter keep)

theorem gap_of_missing_members (hp : ∀ a : Token σ ν, a.isPunctuation = true → keep a = true) (sep : Bool)
    (l : List (σ × Tree σ ν)) (h : MembersExposed keep l) (hm : ∃ a ∈ memberTokens sep l, keep a = false) :
    Gap ((memberTokens sep l ++ [Token.objectEnd]).filter keep) := by
  obtain ⟨a, ha, hk⟩ := hm
  have hna := isPunctuation_of_missing hp hk
  cases l with
  | nil => simp [memberTokens] at ha
  | cons m ms =>
    obtain ⟨k, t⟩ := m
    have hvalue : (Token.colon :: (t.tokens ++ (memberTokens true ms ++ [.objectEnd]))) <:+:
        memberTokens sep ((k, t) :: ms) ++ [.objectEnd] := by
      cases sep with
      | false => exact ⟨[.string k], [], by simp [memberTokens]⟩
      | true => exact ⟨[.comma, .string k], [], by simp [memberTokens]⟩
    have hrest := ((List.suffix_append t.tokens _).trans (List.suffix_cons Token.colon _)).isInfix.trans hvalue
    have ha' : a ∈ t.tokens ∨ a ∈ memberTokens true ms := by
      simp only [memberTokens, List.mem_append, List.mem_cons] at ha
      rcases ha with ha | rfl | rfl | ha
      · cases sep <;> simp at ha
        cases ha ▸ hna
      · simp [h.1] at hk
      · cases hna
      · exact ha
    rcases ha' with ha | ha
    · by_cases hs : ∃ s, t = .string s
      · obtain ⟨s, rfl⟩ := hs
        rw [Tree.tokens, List.mem_singleton] at ha
        -- the string is gone, so the colon meets what comes behind the value
        obtain ⟨b, l, hb, hstart⟩ := filter_memberTokens_eq_cons hp ms
        refine ⟨b, hstart, List.IsInfix.trans ⟨[], l, ?_⟩ (hvalue.filter keep)⟩
        rw [List.filter_cons_of_pos (hp .colon rfl), List.filter_append, hb, Tree.tokens]
        simp [← ha, hk]
      · have hs' : ∀ s, t ≠ .string s := fun s h => hs ⟨s, h⟩
        have hin : t.tokens <:+: memberTokens sep ((k, t) :: ms) ++ [.objectEnd] :=
          (List.infix_append' [Token.colon] t.tokens _).trans hvalue
        exact (t.gap_of_missing hp h.2.1 hs' ⟨a, ha, hk⟩).of_part (hin.filter keep)
    · exact (gap_of_missing_members hp true ms h.2.2 ⟨a, ha, hk⟩).of_part (hrest.filter keep)

end

theorem membersExposed_iff {l : List (σ × Tree σ ν)} :
    MembersExposed keep l ↔ ∀ m ∈ l, keep (.string m.1) = true ∧ m.2.Exposed keep := by
  induction l with
  | nil => simp [MembersExposed]
  | cons m l ih => simp [MembersExposed, ih, and_assoc]

theorem itemsExposed_iff {l : List (Tree σ ν)} :
    ItemsExposed keep l ↔ ∀ t ∈ l, (∀ s, t = .string s → keep (.string s) = true) ∧ t.Exposed keep := by
  induction l with
  | nil => simp [ItemsExposed]
  | cons t l ih => simp [ItemsExposed, ih, and_assoc]

theorem forall_memberTokens (hp : ∀ a : Token σ ν, a.isPunctuation = true → keep a = true) (sep : Bool)
    (l : List (σ × Tree σ ν)) :
    (∀ a ∈ memberTokens sep l, keep a = true) ↔
      ∀ m ∈ l, keep (.string m.1) = true ∧ ∀ a ∈ m.2.tokens, keep a = true := by
  induction l generalizing sep with
  | nil => simp [memberTokens]
  | cons m l ih =>
    cases sep <;>
      simp only [memberTokens, if_true, Bool.false_eq_true, if_false, List.forall_mem_append, List.forall_mem_cons,
        List.not_mem_nil, false_implies, implies_true, ih true, hp .comma rfl, hp .colon rfl, true_and, and_assoc]

theorem Tree.forall_tokens_object (hp : ∀ a : Token σ ν, a.isPunctuation = true → keep a = true)
    (members : List (σ × Tree σ ν)) :
    (∀ a ∈ (Tree.object members).tokens, keep a = true) ↔
      ∀ m ∈ members, keep (.string m.1) = true ∧ ∀ a ∈ m.2.tokens, keep a = true := by
  rw [Tree.tokens, List.forall_mem_cons, List.forall_mem_append, forall_memberTokens hp]
  simp [hp .objectStart rfl, hp .objectEnd rfl]

end Missing

end Json
