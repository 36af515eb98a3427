import ArduinoHomeKit.Numerals
import ArduinoHomeKit.HttpBudget

/-! Header fields by name: the parser knows five names, in any letters, and takes every other name
for one of no interest. -/

namespace ArduinoHomeKit.HttpMachine

variable {q q' q1 : Core} {ch x : UInt8} {a b p xs : Bytes} {ls ls' : List Letter} {t : HeaderState}

/-- The names. -/
inductive Known
  | connection
  | proxyConnection
  | contentLength
  | transferEncoding
  | upgrade

namespace Known

variable {k k' : Known}

def name : Known → Bytes
  | .connection => ascii "connection"
  | .proxyConnection => ascii "proxy-connection"
  | .contentLength => ascii "content-length"
  | .transferEncoding => ascii "transfer-encoding"
  | .upgrade => ascii "upgrade"

/-- From how many characters on the parser compares with this name only. -/
def start : Known → Nat
  | .connection | .contentLength => 4
  | .proxyConnection | .transferEncoding | .upgrade => 1

def matching : Known → HeaderState
  | .connection => .matchingConnection
  | .proxyConnection => .matchingProxyConnection
  | .contentLength => .matchingContentLength
  | .transferEncoding => .matchingTransferEncoding
  | .upgrade => .matchingUpgrade

def found : Known → HeaderState
  | .connection | .proxyConnection => .connection
  | .contentLength => .contentLength
  | .transferEncoding => .transferEncoding
  | .upgrade => .upgrade

/-- The characters of a name. -/
def bytes : Known → Bytes
  | .connection => [99, 111, 110, 110, 101, 99, 116, 105, 111, 110]
  | .proxyConnection => [112, 114, 111, 120, 121, 45, 99, 111, 110, 110, 101, 99, 116, 105, 111, 110]
  | .contentLength => [99, 111, 110, 116, 101, 110, 116, 45, 108, 101, 110, 103, 116, 104]
  | .transferEncoding => [116, 114, 97, 110, 115, 102, 101, 114, 45, 101, 110, 99, 111, 100, 105, 110, 103]
  | .upgrade => [117, 112, 103, 114, 97, 100, 101]

theorem name_eq (k : Known) : k.name = k.bytes := by
  cases k <;> exact ascii_ofList

theorem name_length (k : Known) : k.start < k.name.length := by
  rw [name_eq]
  cases k <;> decide

theorem take_ne (h : k ≠ k') : k.name.take k.start ≠ k'.name.take k.start := by
  rw [name_eq, name_eq]
  cases k <;> cases k' <;> first | exact absurd rfl h | decide

/-- Two names part before the parser has chosen one. -/
theorem apart (h : k ≠ k') (hk : p <+: k.name) (hk' : p <+: k'.name) : p.length < k.start := by
  by_contra hle
  obtain ⟨s, hs⟩ := hk
  obtain ⟨s', hs'⟩ := hk'
  refine take_ne h ?_
  rw [← hs, ← hs', List.take_append_of_le_length (Nat.le_of_not_lt hle), List.take_append_of_le_length (Nat.le_of_not_lt hle)]

end Known

/-- The header state behind the characters of a name, in lower case. -/
inductive NameState : Bytes → HeaderState → Prop
  | c : NameState [99] .c
  | co : NameState [99, 111] .co
  | con : NameState [99, 111, 110] .con
  | matching (k : Known) {p : Bytes} (hp : p <+: k.name) (hstart : k.start ≤ p.length) (hlt : p.length < k.name.length) :
    NameState p k.matching
  | found (k : Known) : NameState k.name k.found
  | general {p : Bytes} (h : ∀ k : Known, ¬ p <+: k.name) : NameState p .general

theorem snoc_iff {name : Bytes} (hp : p <+: name) (hlt : p.length < name.length) :
    p ++ [x] <+: name ↔ x = name.getD p.length 0 := by
  obtain ⟨s, rfl⟩ := hp
  cases s with
  | nil => simp at hlt
  | cons y s => simp

/-- One more character that the parser compares with a name. -/
theorem NameState.matchName (k : Known) (hp : p <+: k.name) (hstart : k.start ≤ p.length) (hlt : p.length < k.name.length)
    (hq : q.headerState = k.matching) (hi : q.index + 1 = p.length) :
    NameState (p ++ [x]) (HttpMachine.matchName k.name k.found .general x q).headerState ∧
      (HttpMachine.matchName k.name k.found .general x q).index + 1 = (p ++ [x]).length := by
  refine ⟨?_, by simp [HttpMachine.matchName, hi]⟩
  unfold HttpMachine.matchName
  dsimp only
  rw [hi]
  have hnot : ¬ k.name.length < p.length := Nat.not_lt.mpr hlt.le
  by_cases hx : x = k.name.getD p.length 0
  · have hp' := (snoc_iff hp hlt).mpr hx
    rw [if_neg (not_or.mpr ⟨hnot, not_not.mpr hx⟩)]
    by_cases hall : p.length = k.name.length - 1
    · rw [if_pos hall, hp'.eq_of_length (by rw [List.length_append, List.length_singleton]; omega)]
      exact .found k
    · rw [if_neg hall, hq]
      exact .matching k hp' (by rw [List.length_append]; omega) (by rw [List.length_append, List.length_singleton]; omega)
  · rw [if_pos (.inr hx)]
    refine .general (fun k' hk' => ?_)
    by_cases hk : k = k'
    · subst hk
      exact hx ((snoc_iff hp hlt).mp hk')
    · exact absurd (Known.apart hk hp ((List.prefix_append ..).trans hk')) (Nat.not_lt.mpr hstart)

/-- A character behind a whole name. -/
theorem NameState.beyond (k : Known) : NameState (k.name ++ [x]) .general := by
  refine .general (fun k' hk' => ?_)
  by_cases hk : k = k'
  · subst hk
    have := hk'.length_le
    simp only [List.length_append, List.length_singleton] at this
    omega
  · exact absurd (Known.apart hk (List.prefix_refl _) ((List.prefix_append ..).trans hk')) (Nat.not_lt.mpr k.name_length.le)

/-- The first character. -/
theorem NameState.first (c : UInt8) : NameState [c] (firstHeaderState c) := by
  have hk (k : Known) (h : k.start = 1) (hc : k.name.head? = some c) : NameState [c] k.matching := by
    refine .matching k ?_ h.le (show 1 < k.name.length from h ▸ k.name_length)
    obtain ⟨s, hs⟩ := List.head?_eq_some_iff.mp hc
    exact ⟨s, hs.symm⟩
  unfold firstHeaderState
  split_ifs with h1 h2 h3 h4
  · subst h1
    exact .c
  · subst h2
    exact hk .proxyConnection rfl (by rw [Known.name_eq]; rfl)
  · subst h3
    exact hk .transferEncoding rfl (by rw [Known.name_eq]; rfl)
  · subst h4
    exact hk .upgrade rfl (by rw [Known.name_eq]; rfl)
  · refine .general (fun k hk => ?_)
    rw [Known.name_eq] at hk
    obtain ⟨s, hs⟩ := hk
    cases k
    all_goals
      obtain rfl := (List.cons.inj hs).1
      first | exact h1 rfl | exact h2 rfl | exact h3 rfl | exact h4 rfl

/-- What the parser knows of the characters of a name that it has read. -/
structure NameRead (p : Bytes) (q : Core) : Prop where
  ne : p ≠ []
  state : NameState p q.headerState
  index : q.headerState ≠ .general → (∀ k : Known, q.headerState ≠ k.found) → q.index + 1 = p.length

/-- The header state is one of those that a loop over a field meets, and no assertion fails. -/
theorem NameRead.step (h : NameRead p q) (ht : token ch ≠ 0) :
    ∃ q', headerFieldChar ch q = some q' ∧ NameRead (p ++ [token ch]) q' ∧
      q' = { q with headerState := q'.headerState, index := q'.index } := by
  obtain ⟨hne, hs, hi⟩ := h
  have hne' : p ++ [token ch] ≠ [] := by simp
  generalize hst : q.headerState = st at hs hi
  cases hs with
  | c =>
    have hi := hi (fun h => by cases h) (fun k => by cases k <;> exact fun h => by cases h)
    refine ⟨{ q with index := q.index + 1, headerState := if token ch = chr 'o' then .co else .general }, ?_, ⟨hne', ?_, ?_⟩, rfl⟩
    · simp only [headerFieldChar, hst]
    · dsimp only
      split_ifs with h1
      · rw [h1]
        exact .co
      · exact .general (fun k hk => by
          rw [Known.name_eq] at hk
          cases k <;> simp_all [Known.bytes, chr])
    · exact fun _ _ => by simp only [hi, List.length_append, List.length_singleton]
  | co =>
    have hi := hi (fun h => by cases h) (fun k => by cases k <;> exact fun h => by cases h)
    refine ⟨{ q with index := q.index + 1, headerState := if token ch = chr 'n' then .con else .general }, ?_, ⟨hne', ?_, ?_⟩, rfl⟩
    · simp only [headerFieldChar, hst]
    · dsimp only
      split_ifs with h1
      · rw [h1]
        exact .con
      · exact .general (fun k hk => by
          rw [Known.name_eq] at hk
          cases k <;> simp_all [Known.bytes, chr])
    · exact fun _ _ => by simp only [hi, List.length_append, List.length_singleton]
  | con =>
    have hi := hi (fun h => by cases h) (fun k => by cases k <;> exact fun h => by cases h)
    refine ⟨{ q with
      index := q.index + 1
      headerState := if token ch = chr 'n' then .matchingConnection
        else if token ch = chr 't' then .matchingContentLength else .general }, ?_, ⟨hne', ?_, ?_⟩, rfl⟩
    · simp only [headerFieldChar, hst]
    · dsimp only
      split_ifs with h1 h2
      · rw [h1]
        exact .matching .connection (by rw [Known.name_eq]; exact ⟨_, rfl⟩) le_rfl (by rw [Known.name_eq]; decide)
      · rw [h2]
        exact .matching .contentLength (by rw [Known.name_eq]; exact ⟨_, rfl⟩) le_rfl (by rw [Known.name_eq]; decide)
      · exact .general (fun k hk => by
          rw [Known.name_eq] at hk
          cases k <;> simp_all [Known.bytes, chr])
    · exact fun _ _ => by simp only [hi, List.length_append, List.length_singleton]
  | matching k hp hstart hlt =>
    have hi := hi (by cases k <;> exact fun h => by cases h) (by intro k'; cases k <;> cases k' <;> exact fun h => by cases h)
    obtain ⟨h1, h2⟩ := NameState.matchName (x := token ch) k hp hstart hlt hst hi
    refine ⟨HttpMachine.matchName k.name k.found .general (token ch) q, ?_, ⟨hne', h1, fun _ _ => h2⟩, rfl⟩
    unfold headerFieldChar
    cases k <;> simp only [hst, Known.matching] <;> rfl
  | found k =>
    refine ⟨if ch ≠ chr ' ' then { q with headerState := .general } else q, ?_, ?_, ?_⟩
    · unfold headerFieldChar
      cases k <;> simp only [hst, Known.found]
    · have hspace : ch ≠ chr ' ' := fun h => ht (by rw [h]; rfl)
      rw [if_pos hspace]
      exact ⟨hne', .beyond k, fun h => absurd rfl h⟩
    · split_ifs <;> rfl
  | general h =>
    refine ⟨q, ?_, ⟨hne', ?_, fun h _ => absurd hst h⟩, rfl⟩
    · simp only [headerFieldChar, hst]
    · rw [hst]
      exact .general (fun k hk => h k ((List.prefix_append ..).trans hk))

/-! Bytes of a head. -/

/-- The bytes are taken however they are cut, each of them counting twice at most. -/
def Head (data : Bytes) (q q' : Core) (ls : List Letter) : Prop :=
  ∀ n, n + 2 * data.length ≤ httpMaxHeaderSize →
    guardedPass data ⟨q, n⟩ = some (⟨q', n + 2 * data.length⟩, ls)

theorem Head.nil : Head [] q q [] := fun _ _ => rfl

theorem Head.trans (h : Head a q q1 ls) (h' : Head b q1 q' ls') : Head (a ++ b) q q' (ls ++ ls') := by
  intro n hn
  rw [List.length_append] at hn ⊢
  rw [Nat.mul_add, ← Nat.add_assoc]
  exact Transducer.run_trans (h n (by omega)) (h' _ (by omega))

theorem Head.single (hp : parsingHeader q.state = true) (hchar : q.state = .headerValue → isHeaderChar ch = true)
    (hstep : byteStep ch q = some (q', ls)) (hup : q'.upgrade = false) (hacts : .clearNread ∉ (onByte ch q).acts) :
    Head [ch] q q' ls := by
  intro n hn
  have hcharge : charge ⟨q, n⟩ = n + 2 := if_pos hp
  have hg : guardedStep ch ⟨q, n⟩ = some (⟨q', n + 2⟩, ls) := by
    unfold guardedStep
    rw [hcharge, if_pos ⟨hn, hchar⟩, hstep, Option.bind_some, if_neg (by simp [hup]), if_neg hacts]
  exact Transducer.run_singleton.trans hg

/-- A byte in a state that looks at one byte only. -/
theorem Head.byte {s : Step} (hs : onByte ch q = s) (hscan : scans q.state = false) (hp : parsingHeader q.state = true)
    (he : s.core.errno = .ok) (hup : s.core.upgrade = false) (hacts : .clearNread ∉ s.acts) :
    Head [ch] q s.core (stepLetters ch s) := by
  subst hs
  refine .single hp (fun h => ?_) ?_ hup hacts
  · rw [h] at hscan
    cases hscan
  · rw [byteStep_of_not_scans hscan, if_pos he]

/-- The characters of a name behind the first one. -/
theorem NameRead.head (h : NameRead p q) (hq : q.state = .headerField) (hup : q.upgrade = false)
    (hx : ∀ ch ∈ xs, token ch ≠ 0) :
    ∃ q', Head xs q q' [] ∧ NameRead (p ++ xs.map token) q' ∧ q' = { q with headerState := q'.headerState, index := q'.index } := by
  induction xs generalizing p q with
  | nil => exact ⟨q, .nil, by simpa using h, rfl⟩
  | cons ch xs ih =>
    have ht := hx ch (List.mem_cons_self ..)
    obtain ⟨q1, h1, hr1, heq1⟩ := h.step ht
    have hs1 : q1.state = .headerField := by rw [heq1]; exact hq
    have hu1 : q1.upgrade = false := by rw [heq1]; exact hup
    obtain ⟨q2, h2, hr2, heq2⟩ := ih hr1 hs1 hu1 (fun c hc => hx c (List.mem_cons_of_mem _ hc))
    have hone : Head [ch] q q1 [] := by
      refine .single (by rw [hq]; rfl) (by rw [hq]; intro h; cases h) ?_ hu1 (by simp [onByte, hq, Core.next])
      simp [byteStep, hq, ht, h1]
    refine ⟨q2, hone.trans h2, ?_, ?_⟩
    · simpa using hr2
    · rw [heq2, heq1]

/-! Lines of a head. -/

/-- In front of a line: the parser still has to see that the line before is not continued. -/
def AtLine (q : Core) : Prop :=
  q.state = .headerFieldStart ∨ q.state = .headerValueLws ∨ q.state = .headerValueDiscardLws

/-- The parser once it knows that the line before has ended. -/
def lineStart (q : Core) : Core :=
  { q with flags := if q.state = .headerFieldStart then q.flags else finishHeader q, state := .headerFieldStart }

/-- An empty value is marked and its mark is gone before the next line. -/
def lineMarks (q : Core) : List Act :=
  if q.state = .headerValueDiscardLws then [.markHeaderValue, .callbackHeaderValue] else []

theorem onByte_lineStart (hq : AtLine q) (hspace : ch ≠ chr ' ') (htab : ch ≠ 9) :
    onByte ch q = (onHeaderFieldStart ch (lineStart q)).behind (lineMarks q) := by
  unfold onByte lineStart lineMarks
  rcases hq with hq | hq | hq
  · simp only [hq, if_true, reduceCtorEq, if_false]
    rw [← hq]
    rfl
  · simp only [hq, onHeaderValueLws, hspace, htab, or_self, if_false, reduceCtorEq]
    rfl
  · simp only [hq, onHeaderValueDiscardLws, hspace, htab, or_self, if_false, reduceCtorEq, if_true]

theorem lineMarks_silent (q : Core) : Silent (lineMarks q) ∧ .clearNread ∉ lineMarks q := by
  unfold lineMarks
  split_ifs
  · exact ⟨silent_cons rfl (silent_cons rfl silent_nil), by simp⟩
  · exact ⟨silent_nil, List.not_mem_nil⟩

theorem stepLetters_silent {s : Step} (ha : Silent s.acts) (hu : phase s.core.state ≠ .url) : stepLetters ch s = [] := by
  rw [stepLetters, silent_letters ha, if_neg hu]
  rfl

theorem AtLine.scans (hq : AtLine q) : HttpMachine.scans q.state = false ∧ parsingHeader q.state = true := by
  rcases hq with hq | hq | hq <;> rw [hq] <;> exact ⟨rfl, rfl⟩

/-- Nothing but the place of the parser in the head is different. -/
def SameHead (q q' : Core) : Prop :=
  lineStart q' = { lineStart q with headerState := q'.headerState, index := q'.index }

/-- The name of a field and the colon. -/
theorem name_head {name : Bytes} (hq : AtLine q) (he : q.errno = .ok) (hup : q.upgrade = false) (hne : name ≠ [])
    (hname : ∀ ch ∈ name, token ch ≠ 0) :
    ∃ t i, Head (name ++ [chr ':']) q { lineStart q with state := .headerValueDiscardWs, headerState := t, index := i } [] ∧
      NameState (name.map token) t := by
  obtain ⟨ch, xs, rfl⟩ := List.exists_cons_of_ne_nil hne
  have ht := hname ch (List.mem_cons_self ..)
  have notToken {c : UInt8} (hc : token c = 0) : ch ≠ c := fun h => ht (h ▸ hc)
  let q1 : Core := { lineStart q with index := 0, state := .headerField, headerState := firstHeaderState (token ch) }
  have hfirst : Head [ch] q q1 [] := by
    have hs : onByte ch q = ⟨q1, lineMarks q ++ [.markHeaderField], .next⟩ := by
      rw [onByte_lineStart hq (notToken rfl) (notToken rfl)]
      unfold onHeaderFieldStart
      rw [if_neg (notToken rfl), if_neg (notToken rfl), if_neg ht]
      rfl
    obtain ⟨hsilent, hcount⟩ := lineMarks_silent q
    have hbyte := Head.byte hs hq.scans.1 hq.scans.2 he hup (by simpa using hcount)
    rwa [stepLetters_silent (hsilent.append (silent_cons rfl silent_nil)) (fun h => by cases h)] at hbyte
  have hread : NameRead [token ch] q1 := ⟨List.cons_ne_nil _ _, .first _, fun _ _ => rfl⟩
  obtain ⟨q2, h2, hr2, heq2⟩ := hread.head rfl hup (fun c hc => hname c (List.mem_cons_of_mem _ hc))
  have hs2 : q2.state = .headerField := by rw [heq2]
  have hcolon : Head [chr ':'] q2 (q2.enter .headerValueDiscardWs) [] := by
    refine .single (by rw [hs2]; rfl) (by rw [hs2]; intro h; cases h) ?_ (by rw [heq2]; exact hup) (by simp [onByte, hs2, Core.next])
    have hz : token (chr ':') = 0 := rfl
    simp only [byteStep, hs2, if_pos hz, if_true]
  refine ⟨q2.headerState, q2.index, ?_, hr2.state⟩
  have hall := (hfirst.trans h2).trans hcolon
  rw [heq2] at hall
  exact hall

theorem NameState.field (h : NameState p t) : fieldState t = true := by
  cases h with
  | matching k | found k => cases k <;> rfl
  | _ => rfl

/-- A whole name is known as itself. -/
theorem NameState.whole (k : Known) (h : NameState k.name t) : t = k.found := by
  generalize hp : k.name = p at h
  have hlen := k.name_length
  cases h with
  | c | co | con =>
    rw [Known.name_eq] at hp
    cases k <;> simp [Known.bytes] at hp
  | matching k' hk hstart hlt =>
    by_cases hkk : k = k'
    · subst hkk
      rw [hp] at hlt
      omega
    · exact absurd (Known.apart (Ne.symm hkk) hk (hp ▸ List.prefix_refl _)) (Nat.not_lt.mpr hstart)
  | found k' =>
    by_cases hkk : k = k'
    · rw [hkk]
    · exact absurd (Known.apart hkk (List.prefix_refl _) (hp ▸ List.prefix_refl _)) (Nat.not_lt.mpr hlen.le)
  | general h => exact absurd (hp ▸ List.prefix_refl _) (h k)

/-- Only a whole name is known. -/
theorem NameState.only (k : Known) (h : NameState p k.found) : ∃ k' : Known, k'.found = k.found ∧ p = k'.name := by
  generalize ht : k.found = t at h
  cases h with
  | found k' => exact ⟨k', rfl, rfl⟩
  | matching k' => cases k <;> cases k' <;> cases ht
  | c | co | con | general => cases k <;> cases ht

theorem spaces_head (xs : Bytes) (hq : q.state = .headerValueDiscardWs) (he : q.errno = .ok) (hup : q.upgrade = false)
    (hx : ∀ ch ∈ xs, ch = chr ' ' ∨ ch = 9) : Head xs q q [] := by
  induction xs with
  | nil => exact .nil
  | cons ch xs ih =>
    have hs : onByte ch q = q.next := by
      simp only [onByte, hq, onHeaderValueDiscardWs]
      rw [if_pos (hx ch (List.mem_cons_self ..))]
    have hfirst : Head [ch] q q (stepLetters ch q.next) := Head.byte hs (by rw [hq]; rfl) (by rw [hq]; rfl) he hup (fun h => by cases h)
    have hl : stepLetters ch q.next = [] := by simp [stepLetters, Core.next, hq, phase]
    rw [hl] at hfirst
    exact hfirst.trans (ih (fun c hc => hx c (List.mem_cons_of_mem _ hc)))

/-- A value, or what is left of it, of a field that is of no interest. -/
theorem general_head (hq : q.state = .headerValue) (hg : q.headerState = .general) (hup : q.upgrade = false)
    (hx : ∀ ch ∈ xs, isHeaderChar ch = true ∧ ch ≠ cr ∧ ch ≠ lf) : Head xs q q [] := by
  induction xs with
  | nil => exact .nil
  | cons ch xs ih =>
    obtain ⟨hchar, hcr, hlf⟩ := hx ch (List.mem_cons_self ..)
    have hfirst : Head [ch] q q [] := by
      refine .single (by rw [hq]; rfl) (fun _ => hchar) ?_ hup (by simp [onByte, hq, Core.next])
      simp only [byteStep, hq, if_neg hcr, if_neg hlf, hg, if_true]
    exact hfirst.trans (ih (fun c hc => hx c (List.mem_cons_of_mem _ hc)))

/-- The end of the line of a value. -/
theorem valueEnd_head (hq : q.state = .headerValue) (he : q.errno = .ok) (hup : q.upgrade = false) :
    Head [cr, lf] q (q.enter .headerValueLws) [] := by
  have h1 : Head [cr] q (q.enter .headerAlmostDone) [] := by
    refine .single (by rw [hq]; rfl) (fun _ => rfl) ?_ hup (by simp [onByte, hq, Core.next])
    simp only [byteStep, hq, if_true]
  have h2 : Head [lf] (q.enter .headerAlmostDone) (q.enter .headerValueLws) [] :=
    Head.byte (s := (q.enter .headerValueLws).next) rfl rfl rfl he hup (fun h => by cases h)
  exact h1.trans h2

/-- The end of the line of a value of spaces. -/
theorem emptyEnd_head (hq : q.state = .headerValueDiscardWs) (he : q.errno = .ok) (hup : q.upgrade = false) :
    Head [cr, lf] q (q.enter .headerValueDiscardLws) [] := by
  have h1 : Head [cr] q (q.enter .headerValueDiscardWsAlmostDone) [] := by
    have hs : onByte cr q = (q.enter .headerValueDiscardWsAlmostDone).next := by
      simp only [onByte, hq]
      rfl
    exact Head.byte hs (by rw [hq]; rfl) (by rw [hq]; rfl) he hup (fun h => by cases h)
  have h2 : Head [lf] (q.enter .headerValueDiscardWsAlmostDone) (q.enter .headerValueDiscardLws) [] :=
    Head.byte (s := (q.enter .headerValueDiscardLws).next) rfl rfl rfl he hup (fun h => by cases h)
  exact h1.trans h2

/-- What may stand in a value. -/
def IsValue (value : Bytes) : Prop := ∀ ch ∈ value, isHeaderChar ch = true ∧ ch ≠ cr ∧ ch ≠ lf

theorem onHeaderValueStart_other (hf : fieldState q.headerState = true) (hk : ∀ k : Known, q.headerState ≠ k.found) :
    onHeaderValueStart ch q =
      ⟨{ q with state := .headerValue, index := 0, headerState := .general }, [.markHeaderValue], .next⟩ := by
  unfold onHeaderValueStart firstValueChar
  dsimp only
  split
  case h_1 h => exact absurd h (hk .upgrade)
  case h_2 h => exact absurd h (hk .transferEncoding)
  case h_3 h => exact absurd h (hk .contentLength)
  case h_4 h => exact absurd h (hk .connection)
  case h_5 h => simp [h, fieldState] at hf
  case h_6 => rfl

/-- A value of a field that is of no interest. -/
theorem value_head {value : Bytes} (hq : q.state = .headerValueDiscardWs) (he : q.errno = .ok) (hup : q.upgrade = false)
    (hv : IsValue value) (hf : fieldState q.headerState = true) (hk : ∀ k : Known, q.headerState ≠ k.found) :
    ∃ q', Head (value ++ [cr, lf]) q q' [] ∧ AtLine q' ∧
      lineStart q' = { q with state := .headerFieldStart, headerState := q'.headerState, index := q'.index } := by
  have hsplit : value.takeWhile (fun c => decide (c = chr ' ' ∨ c = 9)) ++ value.dropWhile (fun c => decide (c = chr ' ' ∨ c = 9)) =
      value := List.takeWhile_append_dropWhile
  have hspaces := spaces_head (value.takeWhile (fun c => decide (c = chr ' ' ∨ c = 9))) hq he hup (fun c hc =>
    of_decide_eq_true (List.mem_takeWhile_imp (p := fun c => decide (c = chr ' ' ∨ c = 9)) hc))
  have hhead := List.head?_dropWhile_not (fun c => decide (c = chr ' ' ∨ c = 9)) value
  generalize value.takeWhile (fun c => decide (c = chr ' ' ∨ c = 9)) = spaces at *
  generalize value.dropWhile (fun c => decide (c = chr ' ' ∨ c = 9)) = text at *
  subst hsplit
  cases text with
  | nil =>
    refine ⟨q.enter .headerValueDiscardLws, ?_, .inr (.inr rfl), ?_⟩
    · rw [List.append_nil]
      exact hspaces.trans (emptyEnd_head hq he hup)
    · have hflags : finishHeader (q.enter .headerValueDiscardLws) = q.flags := by
        unfold finishHeader Core.enter
        dsimp only
        split <;> simp_all [fieldState]
      simp [lineStart, Core.enter] at hflags ⊢
      exact hflags
  | cons ch text =>
    have hch : ¬ (ch = chr ' ' ∨ ch = 9) := by simpa using hhead
    obtain ⟨-, hcr, hlf⟩ := hv ch (by simp)
    let q1 : Core := { q with state := .headerValue, index := 0, headerState := .general }
    have hfirst : Head [ch] q q1 [] := by
      have hs : onByte ch q = ⟨q1, [.markHeaderValue], .next⟩ := by
        simp only [onByte, hq, onHeaderValueDiscardWs]
        rw [if_neg hch, if_neg hcr, if_neg hlf]
        exact onHeaderValueStart_other hf hk
      exact Head.byte hs (by rw [hq]; rfl) (by rw [hq]; rfl) he hup (by simp)
    have htext : Head text q1 q1 [] := general_head rfl rfl hup (fun c hc => hv c (by simp [hc]))
    refine ⟨q1.enter .headerValueLws, ?_, .inr (.inl rfl), rfl⟩
    rw [List.append_assoc]
    exact hspaces.trans (hfirst.trans (htext.trans (valueEnd_head rfl he hup)))

/-- A field that is of no interest. -/
structure Field where
  name : Bytes
  value : Bytes
  ne : name ≠ []
  token : ∀ ch ∈ name, token ch ≠ 0
  other : ∀ k : Known, name.map HttpMachine.token ≠ k.name
  text : IsValue value

def Field.line (f : Field) : Bytes := f.name ++ chr ':' :: f.value ++ [cr, lf]

theorem Field.head (f : Field) (hq : AtLine q) (he : q.errno = .ok) (hup : q.upgrade = false) :
    ∃ q', Head f.line q q' [] ∧ AtLine q' ∧ SameHead q q' := by
  obtain ⟨t, i, h1, ht⟩ := name_head hq he hup f.ne f.token
  have hk (k : Known) : t ≠ k.found := by
    rintro rfl
    obtain ⟨k', -, hk'⟩ := ht.only k
    exact f.other k' hk'
  obtain ⟨q2, h2, hl2, hs2⟩ := value_head (q := { lineStart q with state := .headerValueDiscardWs, headerState := t, index := i })
    rfl he hup f.text ht.field hk
  refine ⟨q2, ?_, hl2, hs2⟩
  have hline : f.line = (f.name ++ [chr ':']) ++ (f.value ++ [cr, lf]) := by simp [Field.line]
  rw [hline]
  exact h1.trans h2

theorem SameHead.refl (q : Core) : SameHead q q := rfl

theorem SameHead.trans {q'' : Core} (h : SameHead q q') (h' : SameHead q' q'') : SameHead q q'' := by
  unfold SameHead at *
  rw [h', h]

theorem SameHead.same (h : SameHead q q') : q'.errno = q.errno ∧ q'.upgrade = q.upgrade := by
  have he := congrArg Core.errno h
  have hup := congrArg Core.upgrade h
  exact ⟨he, hup⟩

theorem fields_head (fs : List Field) (hq : AtLine q) (he : q.errno = .ok) (hup : q.upgrade = false) :
    ∃ q', Head (fs.flatMap Field.line) q q' [] ∧ AtLine q' ∧ SameHead q q' := by
  induction fs generalizing q with
  | nil => exact ⟨q, .nil, hq, .refl q⟩
  | cons f fs ih =>
    obtain ⟨q1, h1, hl1, hs1⟩ := f.head hq he hup
    obtain ⟨q2, h2, hl2, hs2⟩ := ih hl1 (hs1.same.1.trans he) (hs1.same.2.trans hup)
    exact ⟨q2, h1.trans h2, hl2, hs1.trans hs2⟩

/-! The size of a body. -/

theorem digit_char : ∀ d < 10, isNum (UInt8.ofNat (48 + d)) = true ∧ isHeaderChar (UInt8.ofNat (48 + d)) = true ∧
    (UInt8.ofNat (48 + d)).toNat - 48 = d ∧ UInt8.ofNat (48 + d) ≠ chr ' ' ∧ UInt8.ofNat (48 + d) ≠ 9 ∧
      UInt8.ofNat (48 + d) ≠ cr ∧ UInt8.ofNat (48 + d) ≠ lf := by
  decide

/-- The digits of a content length. -/
theorem decimal_head {n : Nat} (hn : n < 10 ^ 19) (hq : q.state = .headerValueDiscardWs) (hh : q.headerState = .contentLength)
    (hflag : q.flags.contentlength = false) (he : q.errno = .ok) (hup : q.upgrade = false) :
    Head (decimal n) q
      { q with
        state := .headerValue
        index := 0
        flags := { q.flags with contentlength := true }
        contentLength := n } [] := by
  induction n using Nat.strongRecOn with
  | ind n ih =>
    by_cases h10 : n < 10
    · obtain ⟨hnum, -, hd, hspace, htab, hcr, hlf⟩ := digit_char n h10
      rw [decimal_of_lt h10]
      have hs : onByte (UInt8.ofNat (48 + n)) q =
          ⟨{ q with
              state := .headerValue
              index := 0
              flags := { q.flags with contentlength := true }
              contentLength := n }, [.markHeaderValue], .next⟩ := by
        simp only [onByte, hq, onHeaderValueDiscardWs, hspace, htab, hcr, hlf, or_self, if_false, onHeaderValueStart,
          firstValueChar, hh, hnum, hflag, hd, reduceCtorEq]
        rfl
      exact Head.byte hs (by rw [hq]; rfl) (by rw [hq]; rfl) he hup (by simp)
    · rw [decimal_of_le (Nat.le_of_not_lt h10)]
      refine (ih (n / 10) (by omega) (by omega)).trans ?_
      obtain ⟨hnum, hchar, hd, hspace, -, hcr, hlf⟩ := digit_char (n % 10) (Nat.mod_lt _ (by decide))
      have hroom : ¬ (ullongMax - 10) / 10 < n / 10 := by
        unfold ullongMax
        omega
      refine .single rfl (fun _ => hchar) ?_ hup (by simp [onByte, Core.next])
      have hn : n / 10 * 10 + n % 10 = n := by omega
      simp only [byteStep, if_neg hcr, if_neg hlf, hh, headerValueChar, if_neg hspace, hnum, if_neg hroom, hd, hn, reduceCtorEq,
        if_false]
      rfl

/-- The line of a content length, the name in any letters. -/
def sizeLine (name : Bytes) (n : Nat) : Bytes := name ++ chr ':' :: chr ' ' :: decimal n ++ [cr, lf]

theorem size_head {name : Bytes} {n : Nat} (hname : name.map token = Known.contentLength.name) (hn : n < 10 ^ 19)
    (hq : AtLine q) (hflag : (lineStart q).flags.contentlength = false) (he : q.errno = .ok) (hup : q.upgrade = false) :
    ∃ t i, Head (sizeLine name n) q
      { lineStart q with
        state := .headerValueLws
        headerState := t
        index := i
        flags := { (lineStart q).flags with contentlength := true }
        contentLength := n } [] ∧ t = .contentLength := by
  have hne : name ≠ [] := by
    rintro rfl
    rw [Known.name_eq] at hname
    cases hname
  have htoken : ∀ ch ∈ name, token ch ≠ 0 := by
    intro ch hch hz
    have hmem : (0 : UInt8) ∈ Known.contentLength.name := by
      rw [← hname, ← hz]
      exact List.mem_map_of_mem hch
    rw [Known.name_eq] at hmem
    revert hmem
    decide
  obtain ⟨t, i, h1, ht⟩ := name_head hq he hup hne htoken
  rw [hname] at ht
  obtain rfl := ht.whole
  have h2 : Head [chr ' '] { lineStart q with state := .headerValueDiscardWs, headerState := Known.contentLength.found, index := i }
      { lineStart q with state := .headerValueDiscardWs, headerState := Known.contentLength.found, index := i } [] :=
    spaces_head _ rfl he hup (by simp)
  have h3 := decimal_head (q := { lineStart q with state := .headerValueDiscardWs, headerState := Known.contentLength.found, index := i })
    hn rfl rfl hflag he hup
  have hline : sizeLine name n = (name ++ [chr ':']) ++ ([chr ' '] ++ (decimal n ++ [cr, lf])) := by simp [sizeLine]
  rw [hline]
  exact ⟨_, _, h1.trans (h2.trans (h3.trans (valueEnd_head rfl he hup))), rfl⟩

end ArduinoHomeKit.HttpMachine
