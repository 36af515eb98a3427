import ArduinoHomeKit.HttpBytes

/-! A call of http_parser_execute on a whole buffer is a run of the machine over its bytes: the
loops over header fields, header values and bodies, one iteration, and the loop. -/

namespace ArduinoHomeKit.HttpMachine

variable {q q' : Core} {ch : UInt8} {s : Step} {l l' : Local} {data rest beyond : Bytes} {flow : Flow}

/-- The count of the bytes is of no importance. -/
theorem Outcome.congr {k : Local} {r : Local × Flow × Bytes} (h : Outcome k data r) (hc : k.parser.toCore = l.parser.toCore)
    (hs : seen k = seen l) (hcb : k.callbacks = l.callbacks) : Outcome l data r := by
  cases h with
  | passed xs ls hdata hx hpass hseen hmarked hsteady herrno hflow =>
    exact .passed xs ls hdata hx (hc ▸ hpass) (hs ▸ hseen) hmarked hsteady herrno hflow
  | refused herrno hsame => exact .refused herrno (hsame.trans hcb)

/-- Without an error a callback is made. -/
theorem calling_ok {r : Local × Flow × Bytes} (he : l.parser.errno = .ok) : l.calling data r = r := if_pos he

/-- Bytes of which the server sees nothing, in states without marks. -/
theorem Outcome.silent {xs : Bytes} (hh : l.headerMarks = marksOf l.parser.state) (hu : l.urlMark = none) (hb : l.bodyMark = none) (hp : phase l.parser.state ≠ .url)
    (hx : xs ≠ []) (hpass : bytePass xs l.parser.toCore = some (l'.parser.toCore, []))
    (hh' : l'.headerMarks = marksOf l'.parser.state) (hu' : l'.urlMark = none) (hb' : l'.bodyMark = none) (hcb : l'.callbacks = l.callbacks) (hp' : phase l'.parser.state ≠ .url)
    (hst : Steady l'.parser) (he : l'.parser.errno = .ok) : Outcome l (xs ++ rest) (l', .next, rest) := by
  obtain ⟨-, hs⟩ := unmarked hh hu hb hp
  obtain ⟨hm', hs'⟩ := unmarked hh' hu' hb' hp'
  exact .passed xs [] rfl hx hpass (by rw [hs, hs', hcb, List.append_nil]) hm' hst he (.inl rfl)

theorem onHeaderField_outcome (hst : Firm l.parser.toCore) (hm : Marked l) (he : l.parser.errno = .ok)
    (hq : l.parser.state = .headerField) (hne : data ≠ []) : Outcome l data (onHeaderField data l) := by
  have hp : phase l.parser.state ≠ .url := by rw [hq]; intro h; cases h
  have hu : l.urlMark = none := hm.no_url hp
  have hb : l.bodyMark = none := hm.no_body (by rw [hq]; rfl)
  have hf : fieldState l.parser.headerState = true := by
    have := hst.sound
    simpa only [Sound, hq] using this
  obtain ⟨xs, rest, q, hscan, rfl, hpass, hk, hf', hrest⟩ := scanHeaderField_pass data hq hf
  have hqs : q.state = .headerField := hk.state.trans hq
  have hsound : Sound q := by
    simpa only [Sound, hqs] using hf'
  unfold onHeaderField
  rw [hscan]
  dsimp only
  rw [take_sub_length]
  rcases count_cases ((l.set q).advance xs) xs.length with ⟨hc, -⟩ | ⟨l', hc, herr, hcb⟩
  · rw [hc]
    dsimp only
    cases rest with
    | nil =>
      have hx : xs ≠ [] := by simpa using hne
      refine .silent hm.header hu hb hp hx hpass (hm.header.trans (congrArg marksOf (hq.trans hqs.symm))) ?_ ?_ rfl ?_ ⟨⟨hsound, hk.size_le hst.size⟩, fun h => ?_⟩ (hk.errno.trans he)
      · simp [Local.advance, Local.set, hu]
      · simp [Local.advance, Local.set, hb]
      · show phase q.state ≠ _
        rw [hqs]
        exact fun h => by cases h
      · have h' : q.state = .chunkSizeStart := h
        simp [hqs] at h'
    | cons ch rest =>
      have ht := hrest ch rest rfl
      dsimp only
      split_ifs with hcolon
      · have hch : bytePass [ch] q = some (q.enter .headerValueDiscardWs, []) := by
          simp only [bytePass_singleton, byteStep, hqs]
          rw [if_pos ht, if_pos hcolon]
        have hvalue : l.headerValueMark = false := by
          have hmarks := hm.header
          rw [hq] at hmarks
          exact congrArg Prod.snd hmarks
        rw [show xs ++ ch :: rest = (xs ++ [ch]) ++ rest by simp, calling_ok (hk.errno.trans he)]
        refine .silent hm.header hu hb hp (by simp) (bytePass_trans hpass hch) (Prod.ext rfl hvalue) ?_ ?_ rfl (fun h => by cases h) ⟨⟨trivial, hk.size_le hst.size⟩, fun h => by cases h⟩ (hk.errno.trans he)
        · simp [Local.advance, Local.set, hu]
        · simp [Local.advance, Local.set, hb]
      · exact .refused (fun h => by cases h) rfl
  · rw [hc]
    exact .refused herr hcb

theorem onHeaderValue_outcome (hst : Firm l.parser.toCore) (hm : Marked l) (he : l.parser.errno = .ok)
    (hq : l.parser.state = .headerValue) (hne : data ≠ []) (hn : 0 < l.parser.nread) :
    Outcome l data (onHeaderValue data l) := by
  have hp : phase l.parser.state ≠ .url := by rw [hq]; intro h; cases h
  have hu : l.urlMark = none := hm.no_url hp
  have hb : l.bodyMark = none := hm.no_body (by rw [hq]; rfl)
  have hv : ¬ unexpectedState l.parser.headerState := by
    have := hst.sound
    simp only [Sound, hq] at this
    exact not_or.mpr this
  obtain ⟨herr, hpass⟩ := scanHeaderValue_pass data hq hv
  have hkept := scanHeaderValue_errno data hv
  unfold onHeaderValue
  dsimp only
  revert herr hpass hkept
  generalize scanHeaderValue data l.parser.toCore = r
  obtain ⟨rest, q, halt⟩ := r
  intro herr hpass hkept
  dsimp only at herr hpass hkept ⊢
  cases halt with
  | some r =>
    obtain ⟨e, rfl, hne'⟩ := herr r rfl
    exact .refused hne' rfl
  | none =>
    dsimp only
    generalize hscanned : data.take (data.length - rest.length) = scanned
    have hlen : scanned.length = data.length - rest.length := by
      rw [← hscanned, List.length_take]
      omega
    have short {n : Nat} (h : l.parser.nread + n ≤ httpMaxHeaderSize) : n < httpMaxHeaderSize := by omega
    cases rest with
    | nil =>
      dsimp only
      rcases count_cases ((l.set q).advance scanned) scanned.length with ⟨hc, hle⟩ | ⟨l', hc, herr', hcb⟩
      · rw [hc]
        obtain ⟨xs, rfl, hp', hk, hv', -⟩ := hpass rfl (by rw [← hlen]; exact short hle)
        have hqs : q.state = .headerValue := hk.state.trans hq
        refine .silent hm.header hu hb hp (by simpa using hne) hp' (hm.header.trans (congrArg marksOf (hq.trans hqs.symm)))
          ?_ ?_ rfl ?_ ⟨⟨?_, hk.size_le hst.size⟩, fun h => ?_⟩ (hk.errno.trans he)
        · simp [Local.advance, Local.set, hu]
        · simp [Local.advance, Local.set, hb]
        · show phase q.state ≠ _
          rw [hqs]
          exact fun h => by cases h
        · show Sound q
          simpa only [Sound, hqs] using not_or.mp hv'
        · have h' : q.state = .chunkSizeStart := h
          simp [hqs] at h'
      · rw [hc]
        exact .refused herr' hcb
    | cons ch rest =>
      dsimp only
      have he' : q.errno = .ok := hkept.trans he
      have hfield : l.headerFieldMark = false := by
        have hmarks := hm.header
        rw [hq] at hmarks
        exact congrArg Prod.fst hmarks
      have hmarks {k : Local} (h1 : k.headerFieldMark = l.headerFieldMark) (h2 : k.headerValueMark = false) :
          k.headerMarks = (false, false) := Prod.ext (h1.trans hfield) h2
      by_cases hcr : ch = cr
      · rw [if_pos hcr, calling_ok he']
        rcases count_cases { ((l.set q).advance scanned).set (q.enter .headerAlmostDone) with headerValueMark := false }
          scanned.length with ⟨hc, hle⟩ | ⟨l', hc, herr', hcb⟩
        · rw [hc]
          obtain ⟨xs, rfl, hp', hk, hv', hr⟩ := hpass rfl (by rw [← hlen]; exact short hle)
          have hqs : q.state = .headerValue := hk.state.trans hq
          have hch : bytePass [ch] q = some (q.enter .headerAlmostDone, []) := by
            simp only [bytePass_singleton, byteStep, hqs]
            rw [if_pos hcr]
          dsimp only
          rw [show xs ++ ch :: rest = (xs ++ [ch]) ++ rest by simp]
          refine .silent hm.header hu hb hp (by simp) (bytePass_trans hp' hch) (hmarks rfl rfl) ?_ ?_ rfl
            (fun h => by cases h) ⟨⟨trivial, hk.size_le hst.size⟩, fun h => by cases h⟩ he'
          · simp [Local.advance, Local.set, hu]
          · simp [Local.advance, Local.set, hb]
        · rw [hc]
          exact .refused herr' hcb
      · rw [if_neg hcr]
        rcases count_cases (((l.set q).advance scanned).set (q.enter .headerAlmostDone)) scanned.length with
          ⟨hc, hle⟩ | ⟨l', hc, herr', hcb⟩
        · rw [hc]
          obtain ⟨xs, rfl, hp', hk, hv', hr⟩ := hpass rfl (by rw [← hlen]; exact short hle)
          have hqs : q.state = .headerValue := hk.state.trans hq
          have hlf := (hr ch rest rfl).resolve_left hcr
          have hch : bytePass [ch] q = some (q.enter .headerValueLws, []) := by
            simp only [bytePass_singleton, byteStep, hqs]
            rw [if_neg hcr, if_pos hlf]
          have hdone : onHeaderAlmostDone ch (q.enter .headerAlmostDone) = (q.enter .headerValueLws).next := by
            unfold onHeaderAlmostDone
            rw [if_neg (not_not.mpr hlf)]
            rfl
          dsimp only
          rw [show xs ++ ch :: rest = (xs ++ [ch]) ++ rest by simp, calling_ok he']
          change Outcome l _ (Local.advance (Local.set _ (onHeaderAlmostDone ch (q.enter .headerAlmostDone)).core) [ch],
            (onHeaderAlmostDone ch (q.enter .headerAlmostDone)).flow, rest)
          rw [hdone]
          refine .silent hm.header hu hb hp (by simp) (bytePass_trans hp' hch) (hmarks rfl rfl) ?_ ?_ rfl
            (fun h => by cases h) ⟨⟨trivial, hk.size_le hst.size⟩, fun h => by cases h⟩ he'
          · simp [Local.advance, Local.set, hu]
          · simp [Local.advance, Local.set, hb]
        · rw [hc]
          exact .refused herr' hcb

theorem readBody_spec (data : Bytes) (hm : Marked l) (hq : l.parser.state = .bodyIdentity ∨ l.parser.state = .chunkData) :
    (readBody data l).urlMark = none ∧
      (readBody data l).bodyMark = some (l.bodyMark.getD [] ++ data.take (min l.parser.contentLength data.length)) ∧
      (readBody data l).parser = { l.parser with toCore := l.parser.bodyBytes (min l.parser.contentLength data.length) } ∧
      (readBody data l).callbacks = l.callbacks := by
  have hu : l.urlMark = none := hm.no_url (by rcases hq with hq | hq <;> rw [hq] <;> exact fun h => by cases h)
  exact ⟨by simp [readBody, Local.advance, Local.set, hu], rfl, rfl, rfl⟩

theorem sound_body (hq : q.state = .bodyIdentity ∨ q.state = .chunkData) (hs : Sound q) (hsize : q.contentLength ≤ ullongMax)
    {n : Nat} (hle : n < q.contentLength) (_ : n ≠ 0) : Sound (q.bodyBytes n) := by
  rcases hq with hq | hq
  all_goals
    simp only [Sound, Core.bodyBytes, hq] at hs ⊢
  · exact ⟨by omega, by omega⟩
  · exact ⟨hs.1, by omega, by omega⟩

/-- The part of a body that a call finds. -/
structure BodyRead (l : Local) (data xs : Bytes) : Prop where
  split : data = xs ++ data.drop (min l.parser.contentLength data.length)
  ne : xs ≠ []
  le : xs.length ≤ l.parser.contentLength
  marked : seen (readBody data l) = seen l ++ xs.map Letter.body
  header : (readBody data l).headerMarks = (false, false)
  url : (readBody data l).urlMark = none
  body : (readBody data l).bodyMark = some (l.bodyMark.getD [] ++ xs)
  parser : (readBody data l).parser = { l.parser with toCore := l.parser.bodyBytes xs.length }
  callbacks : (readBody data l).callbacks = l.callbacks

theorem readBody_read (hst : Firm l.parser.toCore) (hm : Marked l)
    (hq : l.parser.state = .bodyIdentity ∨ l.parser.state = .chunkData) (hne : data ≠ []) :
    ∃ xs, BodyRead l data xs := by
  have hu : l.urlMark = none := hm.no_url (by rcases hq with hq | hq <;> rw [hq] <;> exact fun h => by cases h)
  obtain ⟨h1, h2, h3, h4⟩ := readBody_spec data hm hq
  have hpos : l.parser.contentLength ≠ 0 := by
    have := hst.sound
    rcases hq with hq | hq <;> simp only [Sound, hq] at this
    · exact this.1
    · exact this.2.1
  have hlen : (data.take (min l.parser.contentLength data.length)).length = min l.parser.contentLength data.length := by
    simp
  have hdata := List.length_pos_iff.mpr hne
  refine ⟨data.take (min l.parser.contentLength data.length), (List.take_append_drop ..).symm, ?_, ?_, ?_, ?_, h1, h2, ?_, h4⟩
  · exact List.ne_nil_of_length_pos (by omega)
  · omega
  · simp [seen, pending, h1, h2, h3, h4, hu]
  · have hmarks : l.headerMarks = (false, false) := by
      rw [hm.header]
      rcases hq with hq | hq <;> rw [hq] <;> rfl
    exact hmarks
  · rw [hlen]
    exact h3

/-- A call that does not reach the end of the body. -/
theorem BodyRead.part_outcome {xs : Bytes} (hr : BodyRead l data xs) (hst : Firm l.parser.toCore) (he : l.parser.errno = .ok)
    (hq : l.parser.state = .bodyIdentity ∨ l.parser.state = .chunkData) (hless : xs.length < l.parser.contentLength) :
    Outcome l data (readBody data l, .next, data.drop (min l.parser.contentLength data.length)) := by
  have hpass := bytePass_body hq hr.ne hr.le
  rw [if_neg hless.ne] at hpass
  have hurl : inUrl l.parser.state = false := by rcases hq with hq | hq <;> rw [hq] <;> rfl
  have hbody : inBody l.parser.state = true := by rcases hq with hq | hq <;> rw [hq] <;> rfl
  have hsize : l.parser.state ≠ .chunkSizeStart := by rcases hq with hq | hq <;> rw [hq] <;> exact fun h => by cases h
  refine .passed xs _ hr.split hr.ne (by rw [hr.parser]; exact hpass) hr.marked ⟨?_, ?_, ?_⟩ ?_ ?_ (.inl rfl)
  · rw [hr.header, hr.parser]
    rcases hq with hq | hq
    all_goals
      show _ = marksOf l.parser.state
      rw [hq]
      rfl
  · rw [hr.url, hr.parser]
    exact hurl.symm
  · rw [hr.parser]
    exact fun _ => hbody
  · rw [hr.parser]
    have hsound := sound_body hq hst.sound hst.size hless (List.length_pos_iff.mpr hr.ne).ne'
    exact ⟨⟨hsound, (Nat.sub_le ..).trans hst.size⟩, fun h => absurd h hsize⟩
  · rw [hr.parser]
    exact he

/-- The call behind the last byte of a body. -/
theorem bodyIdentity_done {xs : Bytes} (hr : BodyRead l data xs) (hq : l.parser.state = .bodyIdentity) (last : Nat) :
    Local.perform [] { (readBody data l).callbackBody last with p := last }
        (onMessageDone ((l.parser.bodyBytes xs.length).enter .messageDone)) =
      { parser := { l.parser with toCore := (bodyDone (l.parser.bodyBytes xs.length)).1 }
        p := last
        headerFieldMark := false
        headerValueMark := false
        urlMark := none
        bodyMark := none
        callbacks :=
          l.callbacks ++ [(last, .body (l.bodyMark.getD [] ++ xs)), (last + 1, .messageComplete)] } := by
  have hs : (l.parser.bodyBytes xs.length).state = .bodyIdentity := hq
  obtain ⟨hfield, hvalue⟩ := Prod.mk.inj hr.header
  simp only [Local.perform, onMessageDone, Local.callbackBody, hfield, hvalue, hr.body, hr.url, hr.callbacks, hr.parser, bodyDone, hs,
    if_true, List.foldl, Local.act, Local.notify, Local.set, List.append_assoc, List.cons_append, List.nil_append]
  rfl

theorem onBodyIdentity_outcome (hst : Firm l.parser.toCore) (hm : Marked l) (he : l.parser.errno = .ok)
    (hq : l.parser.state = .bodyIdentity) (hne : data ≠ []) : Outcome l data (onBodyIdentity data l) := by
  obtain ⟨xs, hr⟩ := readBody_read hst hm (.inl hq) hne
  have hpass := bytePass_body (.inl hq) hr.ne hr.le
  have hu : l.urlMark = none := hm.no_url (by rw [hq]; intro h; cases h)
  unfold onBodyIdentity
  dsimp only
  rw [hr.parser]
  dsimp only
  split_ifs with hzero
  · have hall : xs.length = l.parser.contentLength := Nat.le_antisymm hr.le (Nat.le_of_sub_eq_zero hzero)
    have hs : (l.parser.bodyBytes xs.length).state = .bodyIdentity := hq
    rw [if_pos hall] at hpass
    rw [calling_ok (by rw [hr.parser]; exact he), bodyIdentity_done hr hq]
    have hdone : bodyDone (l.parser.bodyBytes xs.length) = ((l.parser.bodyBytes xs.length).enter
        (newMessage (l.parser.bodyBytes xs.length)), [.messageComplete]) := if_pos hs
    rw [hdone] at hpass ⊢
    refine .passed xs _ hr.split hr.ne hpass ?_ ⟨(marksOf_newMessage _).symm, ?_, fun h => by cases h⟩ ⟨⟨sound_newMessage _ _, (Nat.sub_le ..).trans hst.size⟩, fun h =>
      absurd h (newMessage_ne _)⟩ he ?_
    · simp [seen, pending, letters, eventLetters, hu]
    · simp [Core.enter, inUrl_eq, phase_newMessage]
    · exact (onMessageDone_flow _).imp id (fun h => ⟨h.1, h.2, phase_newMessage _⟩)
  · exact hr.part_outcome hst he (.inl hq) (Nat.lt_of_sub_ne_zero hzero)


theorem onChunkData_outcome (hst : Firm l.parser.toCore) (hm : Marked l) (he : l.parser.errno = .ok)
    (hq : l.parser.state = .chunkData) (hne : data ≠ []) : Outcome l data (onChunkData data l) := by
  obtain ⟨xs, hr⟩ := readBody_read hst hm (.inr hq) hne
  have hpass := bytePass_body (.inr hq) hr.ne hr.le
  have hsound := hst.sound
  simp only [Sound, hq] at hsound
  unfold onChunkData
  dsimp only
  rw [hr.parser]
  dsimp only
  split_ifs with hzero
  · have hall : xs.length = l.parser.contentLength := Nat.le_antisymm hr.le (Nat.le_of_sub_eq_zero hzero)
    have hdone : bodyDone (l.parser.bodyBytes xs.length) = ((l.parser.bodyBytes xs.length).enter .chunkDataAlmostDone, []) := by
      simp [bodyDone, Core.bodyBytes, hq]
    rw [if_pos hall, hdone, List.append_nil] at hpass
    refine .passed xs _ hr.split hr.ne hpass ?_ ⟨hr.header, ?_, fun _ => rfl⟩ ⟨⟨⟨hsound.1, hzero⟩, (Nat.sub_le ..).trans hst.size⟩, fun h => by cases h⟩ he
      (.inl rfl)
    · rw [← hr.marked]
      simp [seen, pending, Local.set, hr.url]
    · simp [Local.set, hr.url, Core.enter, inUrl]
  · exact hr.part_outcome hst he (.inr hq) (Nat.lt_of_sub_ne_zero hzero)

theorem onState_of_not_scans (he : l.parser.errno = .ok) (h : scans l.parser.state = false) :
    onState beyond ch rest l =
      (l.take ((ch :: rest ++ beyond).takeWhile (· ≠ 0)) ch (onByte ch l.parser.toCore),
        (onByte ch l.parser.toCore).flow, rest) := by
  unfold onState
  split
  case h_5 =>
    dsimp only
    rw [calling_ok he, ite_self]
    rfl
  all_goals simp_all [scans]

theorem byteStep_of_not_scans (h : scans q.state = false) :
    byteStep ch q =
      if (onByte ch q).core.errno = .ok then some ((onByte ch q).core, stepLetters ch (onByte ch q)) else none := by
  unfold byteStep
  split
  case h_5 => rfl
  all_goals simp_all [scans]

/-- The switch over the states. -/
theorem onState_outcome (hst : Firm l.parser.toCore) (hm : Marked l) (he : l.parser.errno = .ok)
    (hn : l.parser.state = .headerValue → 0 < l.parser.nread) (ch : UInt8) (rest : Bytes) :
    Outcome l (ch :: rest) (onState beyond ch rest l) := by
  have hne : ch :: rest ≠ [] := List.cons_ne_nil _ _
  by_cases hscan : scans l.parser.state = false
  · rw [onState_of_not_scans he hscan]
    rcases onByte_legal ch hst.sound hscan with href | hl
    · rw [href.flow]
      refine .refused ?_ (acts_silent href.acts _).2.2.1
      rw [show (l.take ((ch :: rest ++ beyond).takeWhile (· ≠ 0)) ch (onByte ch l.parser.toCore)).parser.toCore =
        (onByte ch l.parser.toCore).core from (take_same _ l).1]
      exact href.errno
    · have ht : Took ch l (onByte ch l.parser.toCore)
          (l.take ((ch :: rest ++ beyond).takeWhile (· ≠ 0)) ch (onByte ch l.parser.toCore)) :=
        take_took hm hscan hl (onByte_marks ch hscan)
      have herrno : (onByte ch l.parser.toCore).core.errno = .ok := hl.carried.1.trans he
      have hpass : bytePass [ch] l.parser.toCore =
          some ((onByte ch l.parser.toCore).core, stepLetters ch (onByte ch l.parser.toCore)) := by
        rw [bytePass_singleton, byteStep_of_not_scans hscan, if_pos herrno]
      refine .passed [ch] _ rfl (List.cons_ne_nil _ _) (by rw [ht.core]; exact hpass) ht.seen ht.marked ⟨⟨?_, ?_⟩, ?_⟩
        (by rw [ht.core]; exact herrno) (by rw [ht.core]; exact hl.flow)
      · rw [ht.core]
        exact hl.sound
      · rw [ht.core]
        rcases hl.carried.2 with hc | hc
        · exact hc.trans_le hst.size
        · exact hc
      · rw [ht.core, ht.nread]
        exact fun h => if_pos (hl.counted h)
  · cases hs : l.parser.state
    case headerField =>
      simp only [onState, hs]
      exact onHeaderField_outcome hst hm he hs hne
    case headerValue =>
      simp only [onState, hs]
      exact onHeaderValue_outcome hst hm he hs hne (hn hs)
    case bodyIdentity =>
      simp only [onState, hs]
      exact onBodyIdentity_outcome hst hm he hs hne
    case chunkData =>
      simp only [onState, hs]
      exact onChunkData_outcome hst hm he hs hne
    all_goals simp [scans, hs] at hscan

/-- The assertions hold, the byte being counted. -/
theorem asserted_of_steady {q : Parser} (hst : Steady q) (n : Nat) (hn : parsingHeader q.state = true → n = q.nread + 1) :
    asserted { q with nread := n } = true := by
  have hsound := hst.sound
  have hsize := hst.size
  unfold asserted
  cases hs : q.state <;> simp only [Sound, hs] at hsound
  case chunkSizeStart =>
    have := hn (by rw [hs]; rfl)
    simp [this, hst.counted hs, hsound]
  case chunkData => simp [hsound, hsound.2.2.ne]
  all_goals simp [hsound]

theorem iteration_outcome (beyond : Bytes) (hst : Steady l.parser) (hm : Marked l) (he : l.parser.errno = .ok) (ch : UInt8) (rest : Bytes) :
    Outcome l (ch :: rest) (iteration beyond ch rest l) := by
  unfold iteration
  by_cases hp : parsingHeader l.parser.state = true
  · rw [if_pos hp]
    rcases count_cases l 1 with ⟨hc, -⟩ | ⟨l', hc, herr, hcb⟩
    · rw [hc]
      dsimp only
      rw [if_pos (asserted_of_steady hst _ (fun _ => rfl))]
      exact (onState_outcome (l := { l with parser := { l.parser with nread := l.parser.nread + 1 } }) hst.toFirm
        ⟨hm.header, hm.url, hm.body⟩ he (fun _ => Nat.succ_pos _) ch rest).congr rfl rfl rfl
    · rw [hc]
      exact .refused herr hcb
  · rw [if_neg hp]
    dsimp only
    rw [if_pos (asserted_of_steady hst l.parser.nread (fun h => absurd h hp))]
    exact onState_outcome hst.toFirm hm he (fun h => absurd (by rw [h]; rfl) hp) ch rest


/-! Whole calls. -/

/-- The bytes of a call pass through the machine, up to an upgrade or a refused byte if there
is one. -/
inductive Called (q : Core) (data : Bytes) (before : List Letter) : Parser → List Letter → Prop
  | whole {q' ls} (hpass : bytePass data q = some (q'.toCore, ls)) (hsteady : Steady q') (herrno : q'.errno = .ok) :
    Called q data before q' (before ++ ls)
  | upgraded {q' ls} (xs rest : Bytes) (hdata : data = xs ++ rest) (hpass : bytePass xs q = some (q'.toCore, ls))
    (hsteady : Steady q') (herrno : q'.errno = .ok) (hupgrade : q'.upgrade = true) : Called q data before q' (before ++ ls)
  | refused {q' seen} (xs rest : Bytes) (q1 : Core) (ls : List Letter) (hdata : data = xs ++ rest)
    (hpass : bytePass xs q = some (q1, ls)) (hseen : seen <+: before ++ ls) (herrno : q'.errno ≠ .ok) :
    Called q data before q' seen

theorem letters_leftOver (l : Local) : letters (leftOver beyond l).callbacks = seen l := by
  unfold leftOver seen pending Local.callbackUrl
  cases hu : l.urlMark <;> cases hb : l.bodyMark <;>
    simp [Local.callbackBody, Local.notify, letters, eventLetters]

theorem leftOver_same (l : Local) : (leftOver beyond l).parser = l.parser := by
  unfold leftOver Local.callbackUrl
  cases hu : l.urlMark <;> cases hb : l.bodyMark <;> simp [Local.callbackBody, Local.notify]

theorem letters_prefix (l : Local) : letters l.callbacks <+: seen l := List.prefix_append _ _

/-- An iteration in front of the rest of a call. -/
theorem Called.cons {xs : Bytes} {before ls out : List Letter} {q1 : Core} {r : Parser} (hdata : data = xs ++ rest)
    (hpass : bytePass xs q = some (q1, ls)) (h : Called q1 rest (before ++ ls) r out) : Called q data before r out := by
  subst hdata
  cases h with
  | whole hp hst he =>
    rw [List.append_assoc]
    exact .whole (bytePass_trans hpass hp) hst he
  | upgraded ys rest' hd hp hst he hup =>
    rw [List.append_assoc]
    exact .upgraded (xs ++ ys) rest' (by rw [hd, List.append_assoc]) (bytePass_trans hpass hp) hst he hup
  | refused ys rest' q2 ls' hd hp hseen he =>
    exact .refused (xs ++ ys) rest' q2 (ls ++ ls') (by rw [hd, List.append_assoc]) (bytePass_trans hpass hp)
      (by rwa [← List.append_assoc]) he

/-- No two marks are set at once. -/
theorem Marked.marks_le (hm : Marked l) : l.marks ≤ 1 := by
  obtain ⟨hfield, hvalue⟩ := Prod.mk.inj hm.header
  have hurl := hm.url
  have hbody := hm.body
  unfold Local.marks
  rw [hfield, hvalue, hurl]
  cases hb : l.bodyMark.isSome
  · cases l.parser.state <;> decide
  · have hin := hbody hb
    cases hs : l.parser.state <;> simp [hs, inBody] at hin <;> decide

theorem executeLoop_nil (fuel : Nat) (hm : Marked l) (he : l.parser.errno = .ok) :
    executeLoop beyond fuel [] l = (leftOver beyond l, .next) := by
  cases fuel <;> exact if_pos ⟨hm.marks_le, he⟩

theorem executeLoop_called (beyond : Bytes) (fuel : Nat) (hfuel : data.length ≤ fuel) (hst : Steady l.parser) (hm : Marked l)
    (he : l.parser.errno = .ok) :
    Called l.parser.toCore data (seen l) (executeLoop beyond fuel data l).1.parser
        (letters (executeLoop beyond fuel data l).1.callbacks) ∧ (executeLoop beyond fuel data l).2 ≠ .abort := by
  have hnil {l : Local} {fuel : Nat} (hst : Steady l.parser) (hm : Marked l) (he : l.parser.errno = .ok) :
      Called l.parser.toCore [] (seen l) (executeLoop beyond fuel [] l).1.parser
        (letters (executeLoop beyond fuel [] l).1.callbacks) ∧ (executeLoop beyond fuel [] l).2 ≠ .abort := by
    have h : Called l.parser.toCore [] (seen l) l.parser (seen l ++ []) := .whole rfl hst he
    rw [List.append_nil] at h
    rw [executeLoop_nil fuel hm he, letters_leftOver, leftOver_same]
    exact ⟨h, fun h => by cases h⟩
  induction fuel generalizing data l with
  | zero =>
    obtain rfl : data = [] := List.length_eq_zero_iff.mp (Nat.le_zero.mp hfuel)
    exact hnil hst hm he
  | succ fuel ih =>
    cases data with
    | nil => exact hnil hst hm he
    | cons ch rest =>
      have h := iteration_outcome beyond hst hm he ch rest
      rw [executeLoop]
      generalize iteration beyond ch rest l = r at h ⊢
      cases h with
      | @passed l' flow rest' xs ls hdata hx hpass hseen hmarked hsteady herrno hflow =>
        rcases hflow with rfl | ⟨rfl, hup, hidle⟩
        · have hlen := congrArg List.length hdata
          have hpos := List.length_pos_iff.mpr hx
          rw [List.length_append, List.length_cons] at hlen
          rw [List.length_cons] at hfuel
          have hle : rest'.length ≤ fuel := by omega
          obtain ⟨hcalled, hna⟩ := ih hle hsteady hmarked herrno
          rw [hseen] at hcalled
          exact ⟨.cons hdata hpass hcalled, hna⟩
        · refine ⟨?_, fun h => by cases h⟩
          have hu := hmarked.no_url (by rw [hidle]; intro h; cases h)
          have hb := hmarked.no_body (not_inBody_of_phase (by rw [hidle]; intro h; cases h))
          have hletters : letters l'.callbacks = seen l ++ ls := by
            rw [← hseen]
            simp [seen, pending, hu, hb]
          rw [hletters]
          exact .upgraded xs rest' hdata hpass hsteady herrno hup
      | refused herrno hsame =>
        refine ⟨.refused [] (ch :: rest) l.parser.toCore [] rfl rfl ?_ herrno, fun h => by cases h⟩
        rw [hsame, List.append_nil]
        exact letters_prefix l

theorem start_marked (q : Parser) : Marked (start q) ∧ seen (start q) = [] := by
  refine ⟨⟨rfl, ?_, fun h => by cases h⟩, ?_⟩
  · cases h : inUrl q.state <;> simp [start, h]
  · cases h : inUrl q.state <;> simp [start, h, seen, pending, letters]

/-- One call of http_parser_execute on a parser in order. -/
theorem execute_called {q : Parser} (beyond : Bytes) (hst : Steady q) (he : q.errno = .ok) (hne : data ≠ []) :
    Called q.toCore data [] (execute beyond q data).1 (letters (execute beyond q data).2) ∧
      (executeLoop beyond data.length data (start q)).2 ≠ .abort := by
  obtain ⟨hm, hs⟩ := start_marked q
  have h := executeLoop_called (l := start q) beyond data.length le_rfl hst hm he
  rw [hs] at h
  unfold execute
  rw [if_neg (not_not.mpr he), if_neg hne]
  exact h

end ArduinoHomeKit.HttpMachine
