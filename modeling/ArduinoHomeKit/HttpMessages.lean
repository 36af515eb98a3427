import Mathlib.Data.List.Induction
import ArduinoHomeKit.HttpSegments

/-! The callbacks of a connection are those of whole messages, each with one begin, its target,
its body and one end, and of at most one message that is not complete. -/

namespace ArduinoHomeKit.HttpMachine

variable {q q' : Core} {ch : UInt8} {a b ls : List Letter}

/-- How far the callbacks of a message have come. -/
inductive Stage
  | idle
  | begun
  | target (kind : HttpMethod)
  | content
  deriving DecidableEq

def Stage.next : Stage → Letter → Option Stage
  | .idle, .messageBegin => some .begun
  | .begun, .url kind _ => some (.target kind)
  | .target kind, .url kind' _ => if kind = kind' then some (.target kind) else none
  | .target _, .body _ => some .content
  | .content, .body _ => some .content
  | .target _, .messageComplete => some .idle
  | .content, .messageComplete => some .idle
  | _, _ => none

theorem Stage.next_url (kind kind' : HttpMethod) (b : UInt8) :
    (Stage.target kind).next (.url kind' b) = if kind = kind' then some (.target kind) else none := rfl

def Stage.run : Stage → List Letter → Option Stage
  | st, [] => some st
  | st, x :: ls => (st.next x).bind (fun st => run st ls)

variable {st st' : Stage}

theorem Stage.run_append (st : Stage) (a b : List Letter) : st.run (a ++ b) = (st.run a).bind (fun st => st.run b) := by
  induction a generalizing st with
  | nil => rfl
  | cons x a ih =>
    rw [List.cons_append, Stage.run, Stage.run]
    cases st.next x with
    | none => rfl
    | some st => exact ih st

theorem Stage.run_initial {c : Stage} (h : st.run a = some c) (hp : b <+: a) : ∃ st', st.run b = some st' := by
  obtain ⟨d, rfl⟩ := hp
  rw [Stage.run_append] at h
  cases hb : st.run b with
  | none => simp [hb] at h
  | some st' => exact ⟨st', rfl⟩

/-- The stage of the callbacks and the phase of the parser. -/
def Matches (q : Core) : Stage → Prop
  | .idle => phase q.state = .idle
  | .begun => phase q.state = .named
  | .target kind => (phase q.state = .url ∧ q.method.kind = kind) ∨ phase q.state = .rest
  | .content => phase q.state = .rest

/-- Letters that take a parser from one state to another in step with the stages. -/
def InStep (q q' : Core) (ls : List Letter) : Prop :=
  ∀ st, Matches q st → ∃ st', st.run ls = some st' ∧ Matches q' st'

theorem InStep.trans {q'' : Core} (h : InStep q q' a) (h' : InStep q' q'' b) : InStep q q'' (a ++ b) := by
  intro st hst
  obtain ⟨st1, h1, hm1⟩ := h st hst
  obtain ⟨st2, h2, hm2⟩ := h' st1 hm1
  exact ⟨st2, by rw [Stage.run_append, h1, Option.bind_some, h2], hm2⟩

/-- Nothing to see in a phase without a target. -/
theorem InStep.silent (hp : phase q'.state = phase q.state) (hu : phase q.state ≠ .url) : InStep q q' [] := by
  intro st hst
  refine ⟨st, rfl, ?_⟩
  cases st with
  | target kind => exact .inr (hp.trans (hst.resolve_left (fun h => hu h.1)))
  | _ => exact hp.trans hst

/-- The end of a message. -/
theorem InStep.complete (hq : phase q.state = .rest) (hq' : phase q'.state = .idle) : InStep q q' [.messageComplete] := by
  intro st hst
  cases st with
  | idle => rw [Matches, hq] at hst; cases hst
  | begun => rw [Matches, hq] at hst; cases hst
  | target kind => exact ⟨.idle, rfl, hq'⟩
  | content => exact ⟨.idle, rfl, hq'⟩

theorem InStep.body (hq : phase q.state = .rest) (hq' : phase q'.state = .rest) : InStep q q' [.body ch] := by
  intro st hst
  cases st with
  | idle => rw [Matches, hq] at hst; cases hst
  | begun => rw [Matches, hq] at hst; cases hst
  | target kind => exact ⟨.content, rfl, hq'⟩
  | content => exact ⟨.content, rfl, hq'⟩

theorem Shape.inStep {s : Step} (h : Shape q s) : InStep q s.core (stepLetters ch s) := by
  cases h with
  | quiet ha hu hp hb => simpa [stepLetters, silent_letters ha, hp, hu] using InStep.silent hp hu
  | begins hp hp' =>
    simp only [stepLetters, Act.letters, hp', reduceCtorEq, if_false, List.flatMap_cons, List.flatMap_nil, List.append_nil]
    intro st hst
    cases st with
    | idle => exact ⟨.begun, rfl, hp'⟩
    | begun | content => rw [Matches, hp] at hst; cases hst
    | target kind => simp [Matches, hp] at hst
  | marks hp hp' =>
    simp only [stepLetters, Act.letters, hp', if_true, List.flatMap_cons, List.flatMap_nil, List.append_nil, List.nil_append]
    intro st hst
    cases st with
    | idle | content => rw [Matches, hp] at hst; cases hst
    | begun => exact ⟨_, rfl, .inl ⟨hp', rfl⟩⟩
    | target kind => simp [Matches, hp] at hst
  | inside hp hp' hm =>
    simp only [stepLetters, hp', if_true, List.flatMap_nil, List.nil_append, hm]
    intro st hst
    cases st with
    | idle | begun | content => rw [Matches, hp] at hst; cases hst
    | target kind =>
      simp only [Matches, hp, true_and, reduceCtorEq, or_false] at hst
      refine ⟨.target kind, ?_, .inl ⟨hp', hm ▸ hst⟩⟩
      rw [Stage.run, Stage.next_url, if_pos hst.symm]
      rfl
  | leaves hp hp' hm =>
    simp only [stepLetters, Act.letters, hp', reduceCtorEq, if_false, List.flatMap_cons, List.flatMap_nil, List.append_nil]
    intro st hst
    cases st with
    | idle | begun | content => rw [Matches, hp] at hst; cases hst
    | target kind => exact ⟨.target kind, rfl, .inr hp'⟩
  | completes ha hp hb hp' =>
    simpa [stepLetters, Act.letters, silent_letters ha, hp'] using InStep.complete hp hp'
  | endsBody hq hq' =>
    have hp : phase q.state = .rest := by rw [hq]; rfl
    simpa [stepLetters, Act.letters, hq', phase] using InStep.silent (by rw [hp, hq']; rfl) (by rw [hp]; intro h; cases h)

/-- Bytes of a header keep the phase. -/
theorem InStep.header (hq : phase q.state = .rest) (hq' : phase q'.state = .rest) : InStep q q' [] :=
  .silent (hq'.trans hq.symm) (by rw [hq]; intro h; cases h)

theorem headerField_keeps (h : Firm q) (hs : q.state = .headerField) (hb : byteStep ch q = some (q', ls)) :
    Firm q' ∧ InStep q q' ls := by
  have hp : phase q.state = .rest := by rw [hs]; rfl
  have hf := h.sound
  simp only [Sound, hs] at hf
  simp only [byteStep, hs] at hb
  split_ifs at hb
  · obtain ⟨rfl, rfl⟩ := Prod.mk.inj (Option.some.inj hb)
    exact ⟨⟨trivial, h.size⟩, .header hp rfl⟩
  · obtain ⟨q1, h1, hk, hf1⟩ := headerFieldChar_some ch hf
    rw [h1] at hb
    obtain ⟨rfl, rfl⟩ := Prod.mk.inj (Option.some.inj hb)
    have hs1 := hk.state.trans hs
    exact ⟨⟨by simpa only [Sound, hs1] using hf1, hk.size_le h.size⟩, .header hp (by rw [hs1]; rfl)⟩

theorem headerValue_keeps (h : Firm q) (hs : q.state = .headerValue) (hb : byteStep ch q = some (q', ls)) :
    Firm q' ∧ InStep q q' ls := by
  have hp : phase q.state = .rest := by rw [hs]; rfl
  have hv := h.sound
  simp only [Sound, hs] at hv
  simp only [byteStep, hs] at hb
  split_ifs at hb
  · obtain ⟨rfl, rfl⟩ := Prod.mk.inj (Option.some.inj hb)
    exact ⟨⟨trivial, h.size⟩, .header hp rfl⟩
  · obtain ⟨rfl, rfl⟩ := Prod.mk.inj (Option.some.inj hb)
    exact ⟨⟨trivial, h.size⟩, .header hp rfl⟩
  · obtain ⟨rfl, rfl⟩ := Prod.mk.inj (Option.some.inj hb)
    exact ⟨h, .header hp hp⟩
  · cases hc : headerValueChar ch q with
    | error r => simp [hc, Except.toOption] at hb
    | ok q1 =>
      obtain ⟨hk, hv1⟩ := headerValueChar_ok (not_or.mpr hv) hc
      rw [hc] at hb
      obtain ⟨rfl, rfl⟩ := Prod.mk.inj (Option.some.inj hb)
      have hs1 := hk.state.trans hs
      exact ⟨⟨by simpa only [Sound, hs1] using not_or.mp hv1, hk.size_le h.size⟩, .header hp (by rw [hs1]; rfl)⟩

theorem body_keeps (h : Firm q) (hs : q.state = .bodyIdentity ∨ q.state = .chunkData)
    (hb : byteStep ch q = some (q', ls)) : Firm q' ∧ InStep q q' ls := by
  have hp : phase q.state = .rest := by rcases hs with hs | hs <;> rw [hs] <;> rfl
  have hstep : byteStep ch q = some (
      if (q.bodyBytes 1).contentLength = 0 then
        ((bodyDone (q.bodyBytes 1)).1, .body ch :: (bodyDone (q.bodyBytes 1)).2)
      else (q.bodyBytes 1, [.body ch])) := by
    rcases hs with hs | hs <;> simp only [byteStep, hs]
  rw [hstep] at hb
  have hsize : (q.bodyBytes 1).contentLength ≤ ullongMax := (Nat.sub_le ..).trans h.size
  split_ifs at hb with hzero
  · obtain ⟨rfl, rfl⟩ := Prod.mk.inj (Option.some.inj hb)
    rcases hs with hs | hs
    · have hdone : bodyDone (q.bodyBytes 1) = ((q.bodyBytes 1).enter (newMessage (q.bodyBytes 1)), [.messageComplete]) :=
        if_pos hs
      rw [hdone]
      have hbody : InStep q (q.bodyBytes 1) [.body ch] := .body hp hp
      exact ⟨⟨sound_newMessage _ _, hsize⟩, hbody.trans (.complete hp (phase_newMessage _))⟩
    · have hdone : bodyDone (q.bodyBytes 1) = ((q.bodyBytes 1).enter .chunkDataAlmostDone, []) := by
        simp [bodyDone, Core.bodyBytes, hs]
      have hsound := h.sound
      simp only [Sound, hs] at hsound
      rw [hdone]
      exact ⟨⟨⟨hsound.1, hzero⟩, hsize⟩, .body hp rfl⟩
  · obtain ⟨rfl, rfl⟩ := Prod.mk.inj (Option.some.inj hb)
    exact ⟨⟨sound_body hs h.sound h.size (Nat.lt_of_sub_ne_zero hzero) Nat.one_ne_zero, hsize⟩, .body hp hp⟩

/-- One byte keeps what the assertions rest on, and the stages. -/
theorem byteStep_keeps (h : Firm q) (hb : byteStep ch q = some (q', ls)) : Firm q' ∧ InStep q q' ls := by
  by_cases hscan : scans q.state = false
  · rw [byteStep_of_not_scans hscan] at hb
    rcases onByte_legal ch h.sound hscan with href | hl
    · rw [if_neg href.errno] at hb
      cases hb
    · split at hb
      · obtain ⟨rfl, rfl⟩ := Prod.mk.inj (Option.some.inj hb)
        refine ⟨⟨hl.sound, ?_⟩, hl.shape.inStep⟩
        rcases hl.carried.2 with hc | hc
        · exact hc.trans_le h.size
        · exact hc
      · cases hb
  · cases hs : q.state
    case headerField => exact headerField_keeps h hs hb
    case headerValue => exact headerValue_keeps h hs hb
    case bodyIdentity => exact body_keeps h (.inl hs) hb
    case chunkData => exact body_keeps h (.inr hs) hb
    all_goals simp [scans, hs] at hscan

theorem bytePass_keeps {data : Bytes} (h : Firm q) (hb : bytePass data q = some (q', ls)) : Firm q' ∧ InStep q q' ls :=
  Transducer.run_keeps (fun _ st hst => ⟨st, rfl, hst⟩) InStep.trans byteStep_keeps h hb

/-! The callbacks of a connection. -/

/-- The callbacks are in step with the parser, until a byte is refused. -/
theorem deliver_inStep (ds : List Delivery) {q : Parser} (h : InOrder q) (hst : q.errno = .ok → Matches q.toCore st) :
    ∃ st', st.run (letters (deliver q ds).2) = some st' ∧
      ((deliver q ds).1.errno = .ok → Matches (deliver q ds).1.toCore st') := by
  induction ds generalizing q st with
  | nil => exact ⟨st, rfl, hst⟩
  | cons d ds ih =>
    have hcall : ∃ st1, st.run (letters (execute d.beyond q d.data).2) = some st1 ∧
        ((execute d.beyond q d.data).1.errno = .ok → Matches (execute d.beyond q d.data).1.toCore st1) := by
      by_cases he : q.errno = .ok
      · by_cases hd : d.data = []
        · rw [hd]
          obtain ⟨h2, h1⟩ := execute_empty d.beyond he
          refine ⟨st, by rw [h2]; rfl, fun herr => ?_⟩
          rcases h1 with h1 | h1
          · rw [h1]
            exact hst he
          · exact absurd herr h1
        · have hsteady := h.resolve_left (not_not.mpr he)
          obtain ⟨hcalled, -⟩ := execute_called d.beyond hsteady he hd
          generalize execute d.beyond q d.data = r at hcalled ⊢
          obtain ⟨q', cbs⟩ := r
          dsimp only at hcalled ⊢
          generalize letters cbs = out at hcalled ⊢
          cases hcalled with
          | whole hpass _ _ =>
            obtain ⟨st1, h1, hm⟩ := (bytePass_keeps hsteady.toFirm hpass).2 st (hst he)
            exact ⟨st1, h1, fun _ => hm⟩
          | upgraded _ _ _ hpass _ _ _ =>
            obtain ⟨st1, h1, hm⟩ := (bytePass_keeps hsteady.toFirm hpass).2 st (hst he)
            exact ⟨st1, h1, fun _ => hm⟩
          | refused _ _ _ _ _ hpass hseen herr =>
            obtain ⟨st1, h1, -⟩ := (bytePass_keeps hsteady.toFirm hpass).2 st (hst he)
            obtain ⟨st2, h2⟩ := Stage.run_initial h1 hseen
            exact ⟨st2, h2, fun herr' => absurd herr' herr⟩
      · rw [execute_failed he]
        exact ⟨st, rfl, fun herr => absurd herr he⟩
    obtain ⟨st1, h1, hm1⟩ := hcall
    obtain ⟨st2, h2, hm2⟩ := ih (execute_inOrder h) hm1
    rw [deliver]
    dsimp only
    rw [letters_append, Stage.run_append, h1]
    exact ⟨st2, h2, hm2⟩

/-- A request as the server sees it. -/
structure Message where
  kind : HttpMethod
  target : Bytes
  body : Bytes
  nonempty : target ≠ []

def Message.letters (m : Message) : List Letter :=
  .messageBegin :: m.target.map (Letter.url m.kind) ++ m.body.map Letter.body ++ [.messageComplete]

/-- The callbacks of a message that is not complete. -/
def Incomplete : Stage → List Letter → Prop
  | .idle, part => part = []
  | .begun, part => part = [.messageBegin]
  | .target kind, part => ∃ target : Bytes, target ≠ [] ∧ part = .messageBegin :: target.map (Letter.url kind)
  | .content, part =>
    ∃ kind, ∃ target body : Bytes, target ≠ [] ∧ part = .messageBegin :: target.map (Letter.url kind) ++ body.map Letter.body

/-- One more callback. -/
theorem Incomplete.next {part : List Letter} {x : Letter} (h : Incomplete st part) (hx : st.next x = some st') :
    Incomplete st' (part ++ [x]) ∨ st' = .idle ∧ ∃ m : Message, part ++ [x] = m.letters := by
  cases st with
  | idle =>
    obtain rfl : part = [] := h
    cases x with
    | messageBegin =>
      obtain rfl := Option.some.inj hx
      exact .inl rfl
    | url | body | messageComplete => cases hx
  | begun =>
    obtain rfl : part = [.messageBegin] := h
    cases x with
    | url kind b =>
      obtain rfl := Option.some.inj hx
      exact .inl ⟨[b], List.cons_ne_nil _ _, rfl⟩
    | messageBegin | body | messageComplete => cases hx
  | target kind =>
    obtain ⟨target, hne, rfl⟩ := h
    cases x with
    | messageBegin => cases hx
    | url kind' b =>
      rw [Stage.next_url] at hx
      split_ifs at hx with hk
      obtain rfl := Option.some.inj hx
      subst hk
      exact .inl ⟨target ++ [b], by simp, by simp⟩
    | body b =>
      obtain rfl := Option.some.inj hx
      exact .inl ⟨kind, target, [b], hne, by simp⟩
    | messageComplete =>
      obtain rfl := Option.some.inj hx
      exact .inr ⟨rfl, ⟨kind, target, [], hne⟩, by simp [Message.letters]⟩
  | content =>
    obtain ⟨kind, target, body, hne, rfl⟩ := h
    cases x with
    | messageBegin | url => cases hx
    | body b =>
      obtain rfl := Option.some.inj hx
      exact .inl ⟨kind, target, body ++ [b], hne, by simp⟩
    | messageComplete =>
      obtain rfl := Option.some.inj hx
      exact .inr ⟨rfl, ⟨kind, target, body, hne⟩, by simp [Message.letters]⟩

/-- Callbacks that keep the stages are those of messages. -/
theorem messages_of_run (h : Stage.idle.run ls = some st) :
    ∃ (ms : List Message) (part : List Letter), ls = ms.flatMap Message.letters ++ part ∧ Incomplete st part := by
  induction ls using List.reverseRecOn generalizing st with
  | nil =>
    obtain rfl := Option.some.inj h
    exact ⟨[], [], rfl, rfl⟩
  | append_singleton ls x ih =>
    rw [Stage.run_append] at h
    obtain ⟨st1, h1, hlast⟩ := Option.bind_eq_some_iff.mp h
    obtain ⟨st2, hx, h2⟩ := Option.bind_eq_some_iff.mp hlast
    obtain rfl := Option.some.inj h2
    obtain ⟨ms, part, rfl, hpart⟩ := ih h1
    rcases hpart.next hx with hnext | ⟨rfl, m, hm⟩
    · exact ⟨ms, part ++ [x], List.append_assoc .., hnext⟩
    · exact ⟨ms ++ [m], [], by simp [hm], rfl⟩

theorem Incomplete.initial {part : List Letter} (h : Incomplete st part) :
    ∃ m : Message, part <+: m.letters ∧ part ≠ m.letters := by
  cases st with
  | idle =>
    obtain rfl : part = [] := h
    exact ⟨⟨.get, [0], [], List.cons_ne_nil _ _⟩, List.nil_prefix, fun h => by cases h⟩
  | begun =>
    obtain rfl : part = [.messageBegin] := h
    exact ⟨⟨.get, [0], [], List.cons_ne_nil _ _⟩, ⟨_, rfl⟩, fun h => by cases h⟩
  | target kind =>
    obtain ⟨target, hne, rfl⟩ := h
    refine ⟨⟨kind, target, [], hne⟩, ⟨[.messageComplete], ?_⟩, fun heq => ?_⟩
    · simp [Message.letters]
    · simpa [Message.letters] using congrArg List.length heq
  | content =>
    obtain ⟨kind, target, body, hne, rfl⟩ := h
    refine ⟨⟨kind, target, body, hne⟩, ⟨[.messageComplete], rfl⟩, fun heq => ?_⟩
    simpa [Message.letters] using congrArg List.length heq

/-- Whatever the bytes and the cuts: whole messages, and one that is not complete. -/
theorem deliver_messages (ds : List Delivery) :
    ∃ (ms : List Message) (part : List Letter),
      letters (deliver httpParserInit ds).2 = ms.flatMap Message.letters ++ part ∧
        (∃ m : Message, part <+: m.letters ∧ part ≠ m.letters) ∧
          ((deliver httpParserInit ds).1.errno = .ok → phase (deliver httpParserInit ds).1.state = .idle → part = []) := by
  have hidle : Matches httpParserInit.toCore .idle := rfl
  obtain ⟨st, hrun, hm⟩ := deliver_inStep ds inOrder_init (fun _ => hidle)
  obtain ⟨ms, part, hl, hpart⟩ := messages_of_run hrun
  refine ⟨ms, part, hl, hpart.initial, fun he hidle => ?_⟩
  have hmatch := hm he
  cases st with
  | idle => exact hpart
  | begun | content => rw [Matches, hidle] at hmatch; cases hmatch
  | target kind => simp [Matches, hidle] at hmatch

end ArduinoHomeKit.HttpMachine
