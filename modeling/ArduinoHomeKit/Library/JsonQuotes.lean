import ArduinoHomeKit.Library.JsonText

/-! Quotes in a text that is cut into tokens. Only strings have quotes, so that behind a quote the
reader is back in step, unless a string goes on there. -/

namespace Json

variable {s r rest : List UInt8} {ts : List Lexeme}

/-- A reader that stops in front of the quote behind a text, or earlier. -/
def StopsAt {β : Type} (read : List UInt8 → Option (β × List UInt8)) : Prop :=
  ∀ s r x rest, read (s ++ 34 :: r) = some (x, rest) → ∃ s', rest = s' ++ 34 :: r

theorem StopsAt.bind {β γ : Type} {read : List UInt8 → Option (β × List UInt8)} {next : β × List UInt8 → Option γ} {z : γ}
    (h : StopsAt read) (hr : (read (s ++ 34 :: r)).bind next = some z) : ∃ x s', next (x, s' ++ 34 :: r) = some z := by
  obtain ⟨⟨x, after⟩, hread, hx⟩ := Option.bind_eq_some_iff.mp hr
  obtain ⟨s', rfl⟩ := h s r x after hread
  exact ⟨x, s', hx⟩

theorem StopsAt.map {β γ : Type} {read : List UInt8 → Option (β × List UInt8)} {f : β × List UInt8 → γ × List UInt8} {z : γ}
    (h : StopsAt read) (hr : (read (s ++ 34 :: r)).map f = some (z, rest)) (hf : ∀ p, (f p).2 = p.2) :
    ∃ s', rest = s' ++ 34 :: r := by
  obtain ⟨⟨x, after⟩, hread, hx⟩ := Option.map_eq_some_iff.mp hr
  obtain ⟨s', rfl⟩ := h s r x after hread
  have hrest := hf (x, s' ++ 34 :: r)
  rw [hx] at hrest
  exact ⟨s', hrest⟩

/-! Numbers. -/

theorem dropWhile_stops (s r : List UInt8) : ∃ s', (s ++ 34 :: r).dropWhile isDigit = s' ++ 34 :: r := by
  induction s with
  | nil => exact ⟨[], rfl⟩
  | cons b s ih =>
    rw [List.cons_append, List.dropWhile_cons]
    split
    · exact ih
    · exact ⟨b :: s, rfl⟩

theorem readDigits_stops : StopsAt readDigits := by
  intro s r x rest h
  rw [readDigits] at h
  split at h
  · simp at h
  · obtain ⟨_, rfl⟩ := Prod.mk.inj (Option.some.inj h)
    exact dropWhile_stops s r

theorem readInteger_stops : StopsAt readInteger := by
  intro s r x rest h
  cases s with
  | nil => simp [readInteger, isDigit] at h
  | cons b s =>
    rw [List.cons_append, readInteger] at h
    split_ifs at h
    · obtain ⟨_, rfl⟩ := Prod.mk.inj (Option.some.inj h)
      exact ⟨s, rfl⟩
    · obtain ⟨_, rfl⟩ := Prod.mk.inj (Option.some.inj h)
      exact dropWhile_stops s r

theorem readFraction_stops : StopsAt readFraction := by
  intro s r x rest h
  cases s with
  | nil =>
    obtain ⟨_, rfl⟩ := Prod.mk.inj (Option.some.inj h)
    exact ⟨[], rfl⟩
  | cons b s =>
    rw [List.cons_append, readFraction] at h
    split at h
    · exact readDigits_stops.map h (fun _ => rfl)
    · obtain ⟨_, rfl⟩ := Prod.mk.inj (Option.some.inj h)
      exact ⟨b :: s, rfl⟩

theorem readSigned_stops : StopsAt readSigned := by
  intro s r x rest h
  cases s with
  | nil => simp [readSigned, readDigits, isDigit] at h
  | cons b s =>
    rw [List.cons_append, readSigned] at h
    split at h
    · exact readDigits_stops.map h (fun _ => rfl)
    · split at h
      · exact readDigits_stops.map h (fun _ => rfl)
      · exact readDigits_stops.map (s := b :: s) h (fun _ => rfl)

theorem readExponent_stops : StopsAt readExponent := by
  intro s r x rest h
  cases s with
  | nil =>
    obtain ⟨_, rfl⟩ := Prod.mk.inj (Option.some.inj h)
    exact ⟨[], rfl⟩
  | cons b s =>
    rw [List.cons_append, readExponent] at h
    split at h
    · exact readSigned_stops s r x rest h
    · obtain ⟨_, rfl⟩ := Prod.mk.inj (Option.some.inj h)
      exact ⟨b :: s, rfl⟩

theorem readUnsigned_stops : StopsAt readUnsigned := by
  intro s r x rest h
  obtain ⟨i, s₁, h₁⟩ := readInteger_stops.bind h
  obtain ⟨f, s₂, h₂⟩ := readFraction_stops.bind h₁
  exact readExponent_stops.map h₂ (fun _ => rfl)

theorem readNumber_stops : StopsAt readNumber := by
  intro s r x rest h
  cases s with
  | nil => simp [readNumber, readUnsigned, readInteger, isDigit] at h
  | cons b s =>
    rw [List.cons_append, readNumber] at h
    split at h
    · exact readUnsigned_stops.map h (fun _ => rfl)
    · exact readUnsigned_stops (b :: s) r x rest h

theorem readWord_stops {word : List UInt8} (t : Lexeme) (hword : 34 ∉ word) : StopsAt (readWord word t) := by
  intro s r x rest h
  rw [readWord] at h
  split at h
  · rename_i hp
    obtain ⟨_, rfl⟩ := Prod.mk.inj (Option.some.inj h)
    have hs : word <+: s := by
      rcases List.prefix_or_prefix_of_prefix hp (List.prefix_append s (34 :: r)) with hle | ⟨w, rfl⟩
      · exact hle
      · cases w with
        | nil => exact ⟨[], by simp⟩
        | cons b w =>
          obtain rfl : b = 34 := by
            have := (List.prefix_append_right_inj s).mp hp
            exact (List.cons_prefix_cons.mp this).1
          simp at hword
    obtain ⟨w, rfl⟩ := hs
    exact ⟨w, by simp⟩
  · simp at h

/-- A token that begins with no quote has none. -/
theorem readToken_stops {b : UInt8} {t : Lexeme} (hb : b ≠ 34) (h : readToken (b :: (s ++ 34 :: r)) = some (t, rest)) :
    ∃ s', rest = s' ++ 34 :: r := by
  rw [readToken] at h
  cases hp : punctuation b with
  | some t' =>
    simp only [hp] at h
    obtain ⟨_, rfl⟩ := Prod.mk.inj (Option.some.inj h)
    exact ⟨s, rfl⟩
  | none =>
    simp only [hp, if_neg hb] at h
    split_ifs at h
    · exact readWord_stops _ (by decide) (b :: s) r t rest h
    · exact readWord_stops _ (by decide) (b :: s) r t rest h
    · exact readWord_stops _ (by decide) (b :: s) r t rest h
    · exact readNumber_stops.map (s := b :: s) h (fun _ => rfl)

/-! Strings. -/

/-- A reader that neither takes the quote behind a text nor looks behind it. -/
def StaysBefore {β : Type} (read : List UInt8 → Option (β × List UInt8)) : Prop :=
  ∀ s r x rest, read (s ++ 34 :: r) = some (x, rest) → ∃ s', ∀ r', read (s ++ 34 :: r') = some (x, s' ++ 34 :: r')

theorem readCodeUnit_stays : StaysBefore readCodeUnit := by
  intro s r x rest h
  have hquote : hexValue 34 = none := rfl
  match s, h with
  | [], h =>
    obtain ⟨a, b, c, d, hl⟩ := readCodeUnit_suffix h
    obtain ⟨rfl, rfl⟩ := List.cons.inj hl
    simp [readCodeUnit, hquote] at h
  | [a], h =>
    obtain ⟨_, b, c, d, hl⟩ := readCodeUnit_suffix h
    simp only [List.cons_append, List.nil_append, List.cons.injEq] at hl
    obtain ⟨rfl, rfl, rfl⟩ := hl
    simp [readCodeUnit, hquote] at h
  | [a, b], h =>
    obtain ⟨_, _, c, d, hl⟩ := readCodeUnit_suffix h
    simp only [List.cons_append, List.nil_append, List.cons.injEq] at hl
    obtain ⟨rfl, rfl, rfl, rfl⟩ := hl
    simp [readCodeUnit, hquote] at h
  | [a, b, c], h => simp [readCodeUnit, hquote] at h
  | a :: b :: c :: d :: s, h =>
    refine ⟨s, fun r' => ?_⟩
    simp only [List.cons_append, readCodeUnit] at h ⊢
    split at h
    · rw [(Prod.mk.inj (Option.some.inj h)).1]
    · simp at h

theorem readLow_stays (high : Nat) : StaysBefore (readLow high) := by
  intro s r x rest h
  match s, h with
  | [], h =>
    rw [List.nil_append] at h
    cases r <;> simp [readLow] at h
  | [a], h => simp [readLow] at h
  | a :: b :: s, h =>
    simp only [List.cons_append, readLow] at h ⊢
    split at h
    · rename_i hescape
      obtain ⟨⟨n, after⟩, hunit, hlow⟩ := Option.bind_eq_some_iff.mp h
      obtain ⟨s', hs'⟩ := readCodeUnit_stays s r n after hunit
      refine ⟨s', fun r' => ?_⟩
      rw [if_pos hescape, hs', Option.bind_some]
      split at hlow
      · rename_i hrange
        rw [if_pos hrange, (Prod.mk.inj (Option.some.inj hlow)).1]
      · simp at hlow
    · simp at h

theorem readUnicode_stays : StaysBefore readUnicode := by
  intro s r x rest h
  rw [readUnicode] at h
  obtain ⟨⟨n, after⟩, hunit, h⟩ := Option.bind_eq_some_iff.mp h
  obtain ⟨s₁, hs₁⟩ := readCodeUnit_stays s r n after hunit
  obtain rfl : after = s₁ ++ 34 :: r := by
    rw [hs₁ r] at hunit
    exact (Prod.mk.inj (Option.some.inj hunit)).2.symm
  dsimp only at h
  split_ifs at h with hhigh hlow
  · obtain ⟨s', hs'⟩ := readLow_stays n s₁ r x rest h
    refine ⟨s', fun r' => ?_⟩
    rw [readUnicode, hs₁, Option.bind_some, if_pos hhigh, hs']
  · refine ⟨s₁, fun r' => ?_⟩
    rw [readUnicode, hs₁, Option.bind_some, if_neg hhigh, if_neg hlow, (Prod.mk.inj (Option.some.inj h)).1]

/-- An escape ends in front of the quote, or it is the escape of that quote. -/
theorem readEscape_stays {e : List UInt8} (h : readEscape (s ++ 34 :: r) = some (e, rest)) :
    rest = r ∨ ∃ s', rest = s' ++ 34 :: r ∧ ∀ r', readEscape (s ++ 34 :: r') = some (e, s' ++ 34 :: r') := by
  have hrest {s' : List UInt8} (hs' : ∀ r', readEscape (s ++ 34 :: r') = some (e, s' ++ 34 :: r')) :
      rest = s' ++ 34 :: r := by
    rw [hs' r] at h
    exact (Prod.mk.inj (Option.some.inj h)).2.symm
  cases s with
  | nil =>
    obtain ⟨_, rfl⟩ := Prod.mk.inj (Option.some.inj h)
    exact .inl rfl
  | cons b s =>
    simp only [List.cons_append, readEscape] at h hrest ⊢
    split at h
    · rename_i hb
      obtain ⟨s', hs'⟩ := readUnicode_stays s r e rest h
      have hs'' : ∀ r', (if b = 117 then readUnicode (s ++ 34 :: r')
          else (escapes.lookup b).map (fun e => ([e], s ++ 34 :: r'))) = some (e, s' ++ 34 :: r') := by
        intro r'
        rw [if_pos hb, hs']
      exact .inr ⟨s', hrest hs'', hs''⟩
    · rename_i hb
      obtain ⟨x, hx, he⟩ := Option.map_eq_some_iff.mp h
      refine .inr ⟨s, (Prod.mk.inj he).2.symm, fun r' => ?_⟩
      rw [if_neg hb, hx, Option.map_some, (Prod.mk.inj he).1]

/-- Where a string ends that a quote follows: at an earlier quote, at this one, or behind it. -/
inductive StringEnd (fuel : Nat) (s r d rest : List UInt8) : Prop
  | early (s' : List UInt8) (h : rest = s' ++ 34 :: r) (hlt : s'.length < s.length)
  | here (h : rest = r) (hall : ∀ r', readString fuel (s ++ 34 :: r') = some (d, r'))
  | behind (fuel' : Nat) (d' : List UInt8) (h : readString fuel' r = some (d', rest))

theorem readString_end {fuel : Nat} {d : List UInt8} (h : readString fuel (s ++ 34 :: r) = some (d, rest)) :
    StringEnd fuel s r d rest := by
  induction fuel generalizing s d with
  | zero => simp [readString] at h
  | succ fuel ih =>
    cases s with
    | nil =>
      obtain ⟨rfl, rfl⟩ := Prod.mk.inj (Option.some.inj h)
      exact .here rfl (fun _ => rfl)
    | cons b s =>
      rw [List.cons_append, readString] at h
      split at h
      · obtain ⟨_, rfl⟩ := Prod.mk.inj (Option.some.inj h)
        exact .early s rfl (Nat.lt_succ_self _)
      · rename_i h34
        split at h
        · rename_i h92
          obtain ⟨⟨e, after⟩, he, h⟩ := Option.bind_eq_some_iff.mp h
          obtain ⟨⟨d', rest'⟩, hr, h⟩ := Option.map_eq_some_iff.mp h
          obtain ⟨rfl, rfl⟩ := Prod.mk.inj h
          obtain ⟨_, hlen⟩ := readEscape_suffix he
          rcases readEscape_stays he with rfl | ⟨s', rfl, hs'⟩
          · exact .behind fuel d' hr
          · have hshort : s'.length ≤ s.length := by
              simp only [List.length_append, List.length_cons] at hlen
              omega
            cases ih hr with
            | early s'' h hlt => exact .early s'' h (by simp only [List.length_cons]; omega)
            | here h hall =>
              refine .here h (fun r' => ?_)
              rw [List.cons_append, readString, if_neg h34, if_pos h92, hs', Option.bind_some, hall]
              rfl
            | behind fuel d h => exact .behind fuel d h
        · rename_i h92
          split at h
          · simp at h
          · rename_i h32
            obtain ⟨⟨d', rest'⟩, hr, h⟩ := Option.map_eq_some_iff.mp h
            obtain ⟨rfl, rfl⟩ := Prod.mk.inj h
            cases ih hr with
            | early s'' h hlt => exact .early s'' h (Nat.lt_succ_of_lt hlt)
            | here h hall =>
              refine .here h (fun r' => ?_)
              rw [List.cons_append, readString, if_neg h34, if_neg h92, if_neg h32, hall]
              rfl
            | behind fuel d h => exact .behind fuel d h

/-- A string needs no more rounds than bytes. -/
theorem readString_fuel {fuel n : Nat} {l d : List UInt8} (h : readString fuel l = some (d, rest)) (hn : l.length < n) :
    readString n l = some (d, rest) := by
  induction fuel generalizing l d n rest with
  | zero => simp [readString] at h
  | succ fuel ih =>
    cases l with
    | nil => simp [readString] at h
    | cons b l =>
      obtain ⟨n, rfl⟩ : ∃ m, n = m + 1 := ⟨n - 1, by omega⟩
      rw [List.length_cons] at hn
      rw [readString] at h ⊢
      split
      · rename_i hb
        rwa [if_pos hb] at h
      · rename_i hb
        rw [if_neg hb] at h
        split
        · rename_i h92
          rw [if_pos h92] at h
          obtain ⟨⟨e, after⟩, he, h⟩ := Option.bind_eq_some_iff.mp h
          obtain ⟨⟨d', rest'⟩, hr, h⟩ := Option.map_eq_some_iff.mp h
          have hle := (readEscape_suffix he).1.length_le
          rw [he, Option.bind_some, ih hr (by dsimp only; omega)]
          exact congrArg some h
        · rename_i h92
          rw [if_neg h92] at h
          split
          · rename_i h32
            rw [if_pos h32] at h
            simp at h
          · rename_i h32
            rw [if_neg h32] at h
            obtain ⟨⟨d', rest'⟩, hr, h⟩ := Option.map_eq_some_iff.mp h
            rw [ih hr (by omega)]
            exact congrArg some h

/-- No string that goes on in the text leads to tokens. -/
def Closed (r : List UInt8) : Prop := ∀ fuel d rest, readString fuel r = some (d, rest) → lex rest = none

theorem closed_of_notMem (h : 34 ∉ r) : Closed r := fun _ _ _ hr => absurd (readString_quote hr) h

/-- In front of a closed text the last quote ends a string. -/
theorem lex_closed (hr : Closed r) (h : lex (s ++ 34 :: r) = some ts) :
    ∃ ts₁ d ts₂, lex r = some ts₂ ∧ ts = ts₁ ++ .string d :: ts₂ := by
  obtain ⟨n, hn⟩ : ∃ n, s.length = n := ⟨_, rfl⟩
  induction n using Nat.strong_induction_on generalizing s ts with
  | _ n ih =>
    subst hn
    -- the rest of the text behind a token
    have hbehind {t : Lexeme} {ts' : List Lexeme} {s' : List UInt8} (hlt : s'.length < s.length)
        (h : lex (s' ++ 34 :: r) = some ts') : ∃ ts₁ d ts₂, lex r = some ts₂ ∧ t :: ts' = ts₁ ++ .string d :: ts₂ := by
      obtain ⟨ts₁, d, ts₂, hlex, rfl⟩ := ih _ hlt h rfl
      exact ⟨t :: ts₁, d, ts₂, hlex, rfl⟩
    cases s with
    | nil =>
      rw [List.nil_append, lex_quote] at h
      obtain ⟨⟨d, rest⟩, hread, h⟩ := Option.bind_eq_some_iff.mp h
      rw [hr _ _ _ hread] at h
      simp at h
    | cons b s =>
      rw [List.cons_append] at h
      by_cases hspace : isSpace b = true
      · rw [lex, List.length_cons, lexFrom, if_pos hspace, lexFrom_eq (Nat.le_refl _)] at h
        exact ih _ (Nat.lt_succ_self _) h rfl
      by_cases hb : b = 34
      · subst hb
        rw [lex_quote] at h
        obtain ⟨⟨d, rest⟩, hread, h⟩ := Option.bind_eq_some_iff.mp h
        obtain ⟨ts', hrest, rfl⟩ := Option.map_eq_some_iff.mp h
        cases readString_end hread with
        | early s' h hlt =>
          subst h
          exact hbehind (Nat.lt_succ_of_lt hlt) hrest
        | here h =>
          subst h
          exact ⟨[], d, ts', hrest, rfl⟩
        | behind fuel d' h =>
          rw [hr _ _ _ h] at hrest
          simp at hrest
      · rw [lex_token (Bool.eq_false_iff.mpr hspace)] at h
        obtain ⟨⟨t, rest⟩, hread, h⟩ := Option.bind_eq_some_iff.mp h
        obtain ⟨ts', hrest, rfl⟩ := Option.map_eq_some_iff.mp h
        obtain ⟨s', rfl⟩ := readToken_stops hb hread
        have hlt := readToken_length hread
        simp only [List.length_append, List.length_cons] at hlt
        exact hbehind (by simp only [List.length_cons]; omega) hrest

/-- A literal of one token is that token in front of any text. -/
theorem lex_literal {d : List UInt8} (h : lex (34 :: (s ++ [34])) = some [.string d]) (r : List UInt8) :
    lex (34 :: (s ++ 34 :: r)) = (lex r).map (fun ts => .string d :: ts) := by
  rw [lex_quote] at h
  obtain ⟨⟨d', rest⟩, hread, h⟩ := Option.bind_eq_some_iff.mp h
  obtain ⟨ts, hrest, h⟩ := Option.map_eq_some_iff.mp h
  obtain ⟨hd, rfl⟩ := List.cons.inj h
  have hnil : Closed [] := closed_of_notMem List.not_mem_nil
  cases readString_end hread with
  | early s' h hlt =>
    subst h
    obtain ⟨ts₁, d, ts₂, _, hts⟩ := lex_closed hnil hrest
    simp at hts
  | here h hall =>
    rw [lex_quote, readString_fuel (hall r) (Nat.lt_succ_self _), ← hd]
    rfl
  | behind fuel d' h => exact absurd (readString_quote h) List.not_mem_nil

/-- In front of a closed text only such a literal is one token. -/
theorem literal_of_lex (hr : Closed r) {t : Lexeme} (hts : lex r = some ts) (h : lex (34 :: (s ++ 34 :: r)) = some (t :: ts)) :
    ∃ d, t = .string d ∧ lex (34 :: (s ++ [34])) = some [.string d] := by
  rw [lex_quote] at h
  obtain ⟨⟨d, rest⟩, hread, h⟩ := Option.bind_eq_some_iff.mp h
  obtain ⟨ts', hrest, h⟩ := Option.map_eq_some_iff.mp h
  obtain ⟨rfl, rfl⟩ := List.cons.inj h
  refine ⟨d, rfl, ?_⟩
  cases readString_end hread with
  | early s' h hlt =>
    subst h
    obtain ⟨ts₁, d', ts₂, hlex, heq⟩ := lex_closed hr hrest
    obtain rfl := Option.some.inj (hts.symm.trans hlex)
    have hlen := congrArg List.length heq
    simp only [List.length_append, List.length_cons] at hlen
    omega
  | here h hall =>
    rw [lex_quote, readString_fuel (hall []) (Nat.lt_succ_self _)]
    rfl
  | behind fuel d' h =>
    rw [hr _ _ _ h] at hrest
    simp at hrest

end Json
