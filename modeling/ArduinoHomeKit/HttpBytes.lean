import ArduinoHomeKit.Library.Transducer
import ArduinoHomeKit.HttpSteps

/-! The parser as a machine over single bytes, and the loops over header fields, header values and
bodies as runs of it. -/

namespace ArduinoHomeKit.HttpMachine

variable {q q' : Core} {ch : UInt8} {s : Step} {l : Local}

/-! The parser as a machine that takes one byte after the other. -/

/-- What is left of a body behind some of its bytes. -/
def Core.bodyBytes (q : Core) (n : Nat) : Core := { q with contentLength := q.contentLength - n }

/-- Behind the last byte of a body or of a chunk. -/
def bodyDone (q : Core) : Core × List Letter :=
  if q.state = .bodyIdentity then (q.enter (newMessage q), [.messageComplete]) else (q.enter .chunkDataAlmostDone, [])

def byteStep (ch : UInt8) (q : Core) : Option (Core × List Letter) :=
  match q.state with
  | .headerField =>
    if token ch = 0 then if ch = chr ':' then some (q.enter .headerValueDiscardWs, []) else none
    else (headerFieldChar ch q).map (fun q => (q, []))
  | .headerValue =>
    if ch = cr then some (q.enter .headerAlmostDone, [])
    else if ch = lf then some (q.enter .headerValueLws, [])
    else if q.headerState = .general then some (q, [])
    else (headerValueChar ch q).toOption.map (fun q => (q, []))
  | .bodyIdentity | .chunkData =>
    let q' := q.bodyBytes 1
    some (if q'.contentLength = 0 then ((bodyDone q').1, .body ch :: (bodyDone q').2) else (q', [.body ch]))
  | _ => if (onByte ch q).core.errno = .ok then some ((onByte ch q).core, stepLetters ch (onByte ch q)) else none

def bytePass (data : Bytes) (q : Core) : Option (Core × List Letter) := Transducer.run byteStep data q

theorem bytePass_nil : bytePass [] q = some (q, []) := rfl

theorem bytePass_cons {data : Bytes} :
    bytePass (ch :: data) q = (byteStep ch q).bind (fun r => (bytePass data r.1).map (fun r' => (r'.1, r.2 ++ r'.2))) := rfl

theorem bytePass_singleton : bytePass [ch] q = byteStep ch q := Transducer.run_singleton

/-- Bytes that pass in two parts. -/
theorem bytePass_trans {a b : Bytes} {q1 q2 : Core} {ls1 ls2 : List Letter} (h1 : bytePass a q = some (q1, ls1))
    (h2 : bytePass b q1 = some (q2, ls2)) : bytePass (a ++ b) q = some (q2, ls1 ++ ls2) :=
  Transducer.run_trans h1 h2

/-! Header fields and values. -/

/-- What the loops over a header leave alone. -/
structure Kept (q q' : Core) : Prop where
  state : q'.state = q.state
  method : q'.method = q.method
  errno : q'.errno = q.errno
  upgrade : q'.upgrade = q.upgrade
  size : q'.contentLength = q.contentLength ∨ q'.contentLength ≤ ullongMax

theorem Kept.rfl : Kept q q := ⟨by rfl, by rfl, by rfl, by rfl, .inl (by rfl)⟩

theorem Kept.trans {q'' : Core} (h : Kept q q') (h' : Kept q' q'') : Kept q q'' :=
  ⟨h'.state.trans h.state, h'.method.trans h.method, h'.errno.trans h.errno, h'.upgrade.trans h.upgrade, by
    rcases h'.size with hs | hs
    · rw [hs]
      exact h.size
    · exact .inr hs⟩

/-- The loops keep the size of a body below 64 bits. -/
theorem Kept.size_le (h : Kept q q') (hq : q.contentLength ≤ ullongMax) : q'.contentLength ≤ ullongMax := by
  rcases h.size with hs | hs
  · exact hs.trans_le hq
  · exact hs

theorem matchName_kept {name : Bytes} {found failed : HeaderState} {c : UInt8} : Kept q (matchName name found failed c q) :=
  ⟨rfl, rfl, rfl, rfl, .inl rfl⟩

theorem matchName_headerState {name : Bytes} {found failed : HeaderState} {c : UInt8} {p : HeaderState → Prop}
    (h1 : p found) (h2 : p failed) (h3 : p q.headerState) : p (matchName name found failed c q).headerState := by
  unfold matchName
  dsimp only
  split_ifs
  · exact h2
  · exact h1
  · exact h3

theorem headerFieldChar_some (ch : UInt8) (h : fieldState q.headerState = true) :
    ∃ q', headerFieldChar ch q = some q' ∧ Kept q q' ∧ fieldState q'.headerState = true := by
  have hname (name : Bytes) (found : HeaderState) (hf : fieldState found = true) :
      ∃ q', some (matchName name found .general (token ch) q) = some q' ∧ Kept q q' ∧ fieldState q'.headerState = true :=
    ⟨_, rfl, matchName_kept, matchName_headerState (p := fun t => fieldState t = true) hf rfl h⟩
  unfold headerFieldChar
  split
  case h_1 => exact ⟨q, rfl, .rfl, h⟩
  case h_2 | h_3 =>
    refine ⟨_, rfl, ⟨rfl, rfl, rfl, rfl, .inl rfl⟩, ?_⟩
    dsimp only
    split <;> rfl
  case h_4 =>
    refine ⟨_, rfl, ⟨rfl, rfl, rfl, rfl, .inl rfl⟩, ?_⟩
    dsimp only
    split_ifs <;> rfl
  case h_5 | h_6 | h_7 | h_8 | h_9 => exact hname _ _ rfl
  case h_10 | h_11 | h_12 | h_13 =>
    refine ⟨_, rfl, ?_, ?_⟩
    · split
      · exact ⟨rfl, rfl, rfl, rfl, .inl rfl⟩
      · exact .rfl
    · split
      · rfl
      · exact h
  all_goals simp_all [fieldState]


/-- The states that the loop over a header value asserts not to meet. -/
def unexpectedState (t : HeaderState) : Prop := t = .connection ∨ t = .transferEncoding

theorem connectionListed_kept {flags : Flags} : Kept q (connectionListed ch flags q) := by
  unfold connectionListed
  split_ifs <;> exact ⟨rfl, rfl, rfl, rfl, .inl rfl⟩

theorem connectionListed_headerState {flags : Flags} (h : ¬ unexpectedState q.headerState) :
    ¬ unexpectedState (connectionListed ch flags q).headerState := by
  unfold connectionListed
  split_ifs
  · exact fun h => by rcases h with h | h <;> cases h
  · exact fun h => by rcases h with h | h <;> cases h
  · exact h

theorem digit_of_isNum (h : isNum ch = true) : ch.toNat - 48 ≤ 9 := by
  obtain ⟨_, hb⟩ := Bool.and_eq_true_iff.mp h
  have : ch.toNat ≤ 57 := by simpa [chr] using UInt8.le_iff_toNat_le.mp (of_decide_eq_true hb)
  omega

theorem headerValueChar_ok (hq : ¬ unexpectedState q.headerState) (h : headerValueChar ch q = .ok q') :
    Kept q q' ∧ ¬ unexpectedState q'.headerState := by
  have hname (name : Bytes) (found failed : HeaderState) (c : UInt8) (hf : ¬ unexpectedState found)
      (hf' : ¬ unexpectedState failed) : Kept q (matchName name found failed c q) ∧
        ¬ unexpectedState (matchName name found failed c q).headerState :=
    ⟨matchName_kept, matchName_headerState (p := fun t => ¬ unexpectedState t) hf hf' hq⟩
  unfold headerValueChar at h
  dsimp only at h
  split at h
  case h_1 =>
    split_ifs at h
    · obtain rfl := Except.ok.inj h
      exact ⟨.rfl, hq⟩
    · rename_i hover
      obtain rfl := Except.ok.inj h
      refine ⟨⟨rfl, rfl, rfl, rfl, .inr ?_⟩, hq⟩
      have hdigit : ch.toNat - 48 ≤ 9 := digit_of_isNum (by simp_all)
      show q.contentLength * 10 + (ch.toNat - 48) ≤ ullongMax
      unfold ullongMax at hover ⊢
      omega
  case h_2 | h_4 | h_5 | h_6 =>
    obtain rfl := Except.ok.inj h
    exact hname _ _ _ _ (fun h => by rcases h with h | h <;> cases h) (fun h => by rcases h with h | h <;> cases h)
  case h_3 =>
    obtain rfl := Except.ok.inj h
    refine ⟨⟨rfl, rfl, rfl, rfl, .inl rfl⟩, not_or.mpr (connectionState_ne ?_)⟩
    split_ifs <;> exact ⟨(fun h => by cases h), fun h => by cases h⟩
  case h_7 =>
    obtain rfl := Except.ok.inj h
    split
    · exact ⟨⟨rfl, rfl, rfl, rfl, .inl rfl⟩, fun h => by rcases h with h | h <;> cases h⟩
    · exact ⟨.rfl, hq⟩
  case h_8 =>
    obtain rfl := Except.ok.inj h
    split
    · exact ⟨⟨rfl, rfl, rfl, rfl, .inl rfl⟩, fun h => by rcases h with h | h <;> cases h⟩
    · exact ⟨.rfl, hq⟩
  case h_9 | h_10 | h_11 =>
    obtain rfl := Except.ok.inj h
    exact ⟨connectionListed_kept, connectionListed_headerState hq⟩
  case h_12 | h_13 => cases h
  case h_14 =>
    obtain rfl := Except.ok.inj h
    exact ⟨.rfl, hq⟩
  case h_15 =>
    obtain rfl := Except.ok.inj h
    exact ⟨⟨rfl, rfl, rfl, rfl, .inl rfl⟩, fun h => by rcases h with h | h <;> cases h⟩

/-- An error, as a failed assertion is not met. -/
def Halt.IsError (h : Halt) : Prop := ∃ e, h = .error e ∧ e ≠ .ok

theorem headerValueChar_error {r : Halt} (hq : ¬ unexpectedState q.headerState) (h : headerValueChar ch q = .error r) :
    r.IsError := by
  unfold headerValueChar at h
  dsimp only at h
  split at h
  case h_1 =>
    split_ifs at h
    all_goals
      obtain rfl := Except.error.inj h
      exact ⟨_, rfl, fun h => by cases h⟩
  case h_12 hs => exact absurd (.inl hs) hq
  case h_13 hs => exact absurd (.inr hs) hq
  all_goals cases h

/-- The loop over a header field is the machine over its bytes. -/
theorem scanHeaderField_pass (data : Bytes) (hq : q.state = .headerField) (hf : fieldState q.headerState = true) :
    ∃ xs rest q', scanHeaderField data q = some (rest, q') ∧ data = xs ++ rest ∧ bytePass xs q = some (q', []) ∧
      Kept q q' ∧ fieldState q'.headerState = true ∧ ∀ ch rest', rest = ch :: rest' → token ch = 0 := by
  induction data generalizing q with
  | nil => exact ⟨[], [], q, rfl, rfl, rfl, .rfl, hf, fun _ _ h => by cases h⟩
  | cons ch data ih =>
    by_cases ht : token ch = 0
    · refine ⟨[], ch :: data, q, by simp [scanHeaderField, ht], rfl, rfl, .rfl, hf, ?_⟩
      rintro _ _ ⟨⟩
      exact ht
    · obtain ⟨q1, h1, hk, hf1⟩ := headerFieldChar_some ch hf
      obtain ⟨xs, rest, q2, hs, rfl, hp, hk2, hf2, hr⟩ := ih (hk.state.trans hq) hf1
      refine ⟨ch :: xs, rest, q2, ?_, rfl, ?_, hk.trans hk2, hf2, hr⟩
      · simp [scanHeaderField, ht, h1, hs]
      · simp [bytePass_cons, byteStep, hq, ht, h1, hp]

/-- Nothing happens to a value that is of no interest. -/
theorem bytePass_general {xs : Bytes} (hq : q.state = .headerValue) (hg : q.headerState = .general)
    (hx : ∀ ch ∈ xs, ch ≠ cr ∧ ch ≠ lf) : bytePass xs q = some (q, []) := by
  induction xs with
  | nil => rfl
  | cons ch xs ih =>
    obtain ⟨h1, h2⟩ := hx ch (List.mem_cons_self ..)
    have ih := ih (fun c hc => hx c (List.mem_cons_of_mem _ hc))
    simp [bytePass_cons, byteStep, hq, h1, h2, hg, ih]

/-- The first bytes up to one that ends them, among a number of bytes. -/
theorem takeWhile_take_cases (p : UInt8 → Bool) (n : Nat) (data : Bytes) :
    ((data.take n).takeWhile p).length = min data.length n ∨
      ∃ c rest, data.drop ((data.take n).takeWhile p).length = c :: rest ∧ p c = false := by
  have hsplit : (data.take n).takeWhile p ++ (data.take n).dropWhile p = data.take n := List.takeWhile_append_dropWhile
  cases hd : (data.take n).dropWhile p with
  | nil =>
    left
    rw [hd, List.append_nil] at hsplit
    rw [hsplit, List.length_take, Nat.min_comm]
  | cons c rest =>
    right
    have hc := List.head?_dropWhile_not p (data.take n)
    rw [hd] at hc hsplit
    generalize (data.take n).takeWhile p = line at *
    have hdata : data = line ++ c :: (rest ++ data.drop n) := by
      calc data = data.take n ++ data.drop n := (List.take_append_drop n data).symm
        _ = line ++ c :: rest ++ data.drop n := by rw [hsplit]
        _ = _ := by simp
    exact ⟨c, rest ++ data.drop n, (congrArg (List.drop line.length) hdata).trans (List.drop_left ..), hc⟩

theorem skipValue_split {data : Bytes} (hlen : data.length - (skipValue data).length < httpMaxHeaderSize) :
    ∃ xs, data = xs ++ skipValue data ∧ (∀ ch ∈ xs, ch ≠ cr ∧ ch ≠ lf) ∧
      ∀ ch rest, skipValue data = ch :: rest → ch = cr ∨ ch = lf := by
  have hcases := takeWhile_take_cases (fun c => decide (c ≠ cr ∧ c ≠ lf)) httpMaxHeaderSize data
  have hprefix := (List.takeWhile_prefix (fun c => decide (c ≠ cr ∧ c ≠ lf)) (l := data.take httpMaxHeaderSize)).trans
    (List.take_prefix httpMaxHeaderSize data)
  have hmem : ∀ ch ∈ (data.take httpMaxHeaderSize).takeWhile (fun c => decide (c ≠ cr ∧ c ≠ lf)), ch ≠ cr ∧ ch ≠ lf :=
    fun ch hch => of_decide_eq_true (List.mem_takeWhile_imp (p := fun c => decide (c ≠ cr ∧ c ≠ lf)) hch)
  unfold skipValue at hlen ⊢
  dsimp only at hlen ⊢
  generalize (data.take httpMaxHeaderSize).takeWhile (fun c => decide (c ≠ cr ∧ c ≠ lf)) = line at *
  split_ifs at hlen ⊢ with hall
  · refine ⟨data, by simp, ?_, fun _ _ h => by cases h⟩
    have : line = data := hprefix.eq_of_length (by simp at hlen; omega)
    rw [← this]
    exact hmem
  · obtain ⟨c, rest, hdrop, hc⟩ := hcases.resolve_left hall
    refine ⟨line, ?_, hmem, ?_⟩
    · obtain ⟨rest', rfl⟩ := hprefix
      simp
    · intro ch rest' h
      rw [hdrop] at h
      obtain ⟨rfl, -⟩ := List.cons.inj h
      by_contra hne
      obtain ⟨h1, h2⟩ := not_or.mp hne
      simp [h1, h2] at hc

/-- What is left by the loop over a header value that is not left early. -/
theorem scanHeaderValue_pass (data : Bytes) (hq : q.state = .headerValue) (hu : ¬ unexpectedState q.headerState) :
    (∀ r, (scanHeaderValue data q).2.2 = some r → r.IsError) ∧
      ((scanHeaderValue data q).2.2 = none → data.length - (scanHeaderValue data q).1.length < httpMaxHeaderSize →
        ∃ xs, data = xs ++ (scanHeaderValue data q).1 ∧ bytePass xs q = some ((scanHeaderValue data q).2.1, []) ∧
          Kept q (scanHeaderValue data q).2.1 ∧ ¬ unexpectedState (scanHeaderValue data q).2.1.headerState ∧
          ∀ ch rest, (scanHeaderValue data q).1 = ch :: rest → ch = cr ∨ ch = lf) := by
  induction data generalizing q with
  | nil => exact ⟨(fun _ h => by cases h), fun _ _ => ⟨[], rfl, rfl, .rfl, hu, fun _ _ h => by cases h⟩⟩
  | cons ch data ih =>
    unfold scanHeaderValue
    split_ifs with h1 h2 h3
    · refine ⟨(fun _ h => by cases h), fun _ _ => ⟨[], rfl, rfl, .rfl, hu, ?_⟩⟩
      rintro _ _ ⟨⟩
      exact h1
    · exact ⟨fun r hr => Option.some.inj hr ▸ ⟨_, rfl, fun h => by cases h⟩, fun h => by cases h⟩
    · refine ⟨(fun _ h => by cases h), fun _ hlen => ?_⟩
      obtain ⟨xs, hx, hmem, hr⟩ := skipValue_split hlen
      exact ⟨xs, hx, bytePass_general hq h3 hmem, .rfl, hu, hr⟩
    · obtain ⟨hcr, hlf⟩ := not_or.mp h1
      split
      · rename_i e he
        exact ⟨fun r hr => Option.some.inj hr ▸ headerValueChar_error hu he, fun h => by cases h⟩
      · rename_i q1 hok
        obtain ⟨hk, hu1⟩ := headerValueChar_ok hu hok
        obtain ⟨hna, hpass⟩ := ih (hk.state.trans hq) hu1
        refine ⟨hna, fun hn hlen => ?_⟩
        obtain ⟨xs, hx, hp, hk2, hu2, hr⟩ := hpass hn (by rw [List.length_cons] at hlen; omega)
        refine ⟨ch :: xs, by rw [List.cons_append, ← hx], ?_, hk.trans hk2, hu2, hr⟩
        simp [bytePass_cons, byteStep, hq, hcr, hlf, h3, hok, Except.toOption, hp]

/-- The loop sets no error itself. -/
theorem scanHeaderValue_errno (data : Bytes) (hu : ¬ unexpectedState q.headerState) :
    (scanHeaderValue data q).2.1.errno = q.errno := by
  induction data generalizing q with
  | nil => rfl
  | cons ch data ih =>
    unfold scanHeaderValue
    split_ifs
    · rfl
    · rfl
    · rfl
    · split
      · rfl
      · rename_i q1 hok
        obtain ⟨hk, hu1⟩ := headerValueChar_ok hu hok
        exact (ih hu1).trans hk.errno

/-! Bodies. -/

theorem bytePass_body {xs : Bytes} (hq : q.state = .bodyIdentity ∨ q.state = .chunkData) (hx : xs ≠ [])
    (hle : xs.length ≤ q.contentLength) :
    bytePass xs q = some (
      if xs.length = q.contentLength then
        ((bodyDone (q.bodyBytes xs.length)).1, xs.map Letter.body ++ (bodyDone (q.bodyBytes xs.length)).2)
      else (q.bodyBytes xs.length, xs.map Letter.body)) := by
  have hstep (ch : UInt8) : byteStep ch q = some (
      if q.contentLength - 1 = 0 then ((bodyDone (q.bodyBytes 1)).1, .body ch :: (bodyDone (q.bodyBytes 1)).2)
      else (q.bodyBytes 1, [.body ch])) := by
    rcases hq with hq | hq <;> simp only [byteStep, hq] <;> rfl
  induction xs generalizing q with
  | nil => exact absurd rfl hx
  | cons ch xs ih =>
    rw [List.length_cons] at hle ⊢
    rw [bytePass_cons, hstep, Option.bind_some]
    by_cases hnil : xs = []
    · subst hnil
      by_cases h1 : q.contentLength = 1
      · simp [h1, bytePass_nil]
      · have h2 : ¬ q.contentLength - 1 = 0 := by simp at hle; omega
        have h3 : ¬ 1 = q.contentLength := fun h => h1 h.symm
        simp [h2, h3, bytePass_nil]
    · have hpos := List.length_pos_iff.mpr hnil
      have h1 : ¬ q.contentLength - 1 = 0 := by omega
      have hq1 : (q.bodyBytes 1).state = .bodyIdentity ∨ (q.bodyBytes 1).state = .chunkData := hq
      rw [if_neg h1, ih hq1 hnil (show xs.length ≤ q.contentLength - 1 by omega) (fun c => by
        rcases hq with hq | hq <;> simp only [byteStep, Core.bodyBytes, hq])]
      have heq : (q.bodyBytes 1).bodyBytes xs.length = q.bodyBytes (xs.length + 1) := by
        simp only [Core.bodyBytes, Nat.sub_sub, Nat.add_comm]
      have hiff : xs.length = (q.bodyBytes 1).contentLength ↔ xs.length + 1 = q.contentLength := by
        simp only [Core.bodyBytes]
        omega
      simp only [heq, hiff]
      split_ifs <;> simp

/-! One iteration of the loop. -/

/-- What the assertions rest on, and that a content length has 64 bits. -/
structure Firm (q : Core) : Prop where
  sound : Sound q
  size : q.contentLength ≤ ullongMax

/-- The count of the bytes at the start of an iteration is part of it. -/
structure Steady (q : Parser) : Prop extends Firm q.toCore where
  counted : q.state = .chunkSizeStart → q.nread = 0

/-- The bytes of an iteration pass through the machine, or one of them is refused. -/
inductive Outcome (l : Local) (data : Bytes) : Local × Flow × Bytes → Prop
  | passed {l' flow rest} (xs : Bytes) (ls : List Letter) (hdata : data = xs ++ rest) (hx : xs ≠ [])
    (hpass : bytePass xs l.parser.toCore = some (l'.parser.toCore, ls)) (hseen : seen l' = seen l ++ ls)
    (hmarked : Marked l') (hsteady : Steady l'.parser) (herrno : l'.parser.errno = .ok)
    (hflow : flow = .next ∨ flow = .stop ∧ l'.parser.upgrade = true ∧ phase l'.parser.state = .idle) :
    Outcome l data (l', flow, rest)
  | refused {l' rest} (herrno : l'.parser.errno ≠ .ok) (hsame : l'.callbacks = l.callbacks) :
    Outcome l data (l', .stop, rest)

theorem count_cases (l : Local) (n : Nat) :
    (l.count n = ({ l with parser := { l.parser with nread := l.parser.nread + n } }, .next) ∧
        l.parser.nread + n ≤ httpMaxHeaderSize) ∨
      ∃ l', l.count n = (l', .stop) ∧ l'.parser.errno ≠ .ok ∧ l'.callbacks = l.callbacks := by
  unfold Local.count
  dsimp only
  split_ifs with h
  · exact .inr ⟨_, rfl, (fun h => by cases h), rfl⟩
  · exact .inl ⟨rfl, Nat.le_of_not_lt h⟩

theorem take_sub_length {xs rest : Bytes} : (xs ++ rest).take ((xs ++ rest).length - rest.length) = xs := by
  simp

/-- Without marks that the server waits for. -/
theorem unmarked (hh : l.headerMarks = marksOf l.parser.state) (hu : l.urlMark = none) (hb : l.bodyMark = none)
    (hq : phase l.parser.state ≠ .url) : Marked l ∧ seen l = letters l.callbacks := by
  refine ⟨⟨hh, ?_, ?_⟩, ?_⟩
  · simp [hu, inUrl_eq, hq]
  · simp [hb]
  · simp [seen, pending, hu, hb]

end ArduinoHomeKit.HttpMachine
