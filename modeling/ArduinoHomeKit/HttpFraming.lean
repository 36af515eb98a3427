import ArduinoHomeKit.HttpMessages

/-! The end of a body is told in one way only: by its Content-Length, or by its last chunk. -/

namespace ArduinoHomeKit.HttpMachine

variable {q q' : Core} {ch : UInt8} {data : Bytes} {ls : List Letter}

/-- The states of a body in chunks. -/
def inChunks : State → Bool
  | .chunkSizeStart | .chunkSize | .chunkParameters | .chunkSizeAlmostDone | .chunkData | .chunkDataAlmostDone
  | .chunkDataDone => true
  | _ => false

/-- The states of a head, in front of a body or behind the last chunk. -/
def inHead : State → Bool
  | .dead | .startReq | .headersDone | .messageDone | .bodyIdentity => false
  | s => !inChunks s

theorem inChunks_eq_false {s : State} (h : inHead s = true) : inChunks s = false := by
  revert h
  cases s <;> simp [inHead, inChunks]

/-- What the head has said of the body so far. -/
structure Announced (q : Core) : Prop where
  size : q.flags.trailing = false → q.contentLength = ullongMax ∨ q.flags.contentlength = true
  reading : q.state = .headerValue → q.headerState = .contentLength → q.flags.contentlength = true

/-- How the end of the body is told. -/
structure Framing (q : Core) : Prop where
  chunks : inChunks q.state = true → q.flags.chunked = true ∧ q.flags.contentlength = false ∧ q.flags.trailing = false
  sized : q.state = .bodyIdentity → q.flags.chunked = false ∧ q.flags.contentlength = true
  head : inHead q.state = true → Announced q
  settled : q.state ≠ .headersDone

theorem framing_idle (h : phase q.state = .idle) : Framing q := by
  refine ⟨fun hs => ?_, fun hs => ?_, fun hs => ?_, fun hs => ?_⟩
  all_goals
    exfalso
    revert h hs
    cases q.state <;> simp [phase, inChunks, inHead]

theorem framing_head (h : Announced q) (hs : inHead q.state = true) : Framing q := by
  refine ⟨fun hc => ?_, fun hb => ?_, fun _ => h, fun hd => ?_⟩
  · rw [inChunks_eq_false hs] at hc
    cases hc
  · rw [hb] at hs
    cases hs
  · rw [hd] at hs
    cases hs

theorem framing_chunks (h : q.flags.chunked = true ∧ q.flags.contentlength = false ∧ q.flags.trailing = false)
    (hs : inChunks q.state = true) : Framing q := by
  refine ⟨fun _ => h, fun hb => ?_, fun hh => ?_, fun hd => ?_⟩
  · rw [hb] at hs
    cases hs
  · rw [inChunks_eq_false hh] at hs
    cases hs
  · rw [hd] at hs
    cases hs

/-- A step that says nothing of the body. -/
theorem Announced.same (h : Announced q) (hf : q'.flags.trailing = q.flags.trailing)
    (hc : q'.flags.contentlength = q.flags.contentlength) (hn : q'.contentLength = q.contentLength)
    (hs : q'.state ≠ .headerValue) : Announced q' :=
  ⟨fun ht => by rw [hn, hc]; exact h.size (hf.symm.trans ht), fun hv => absurd hv hs⟩

theorem Announced.enter (h : Announced q) {t : State} (ht : inHead t = true) (hv : t ≠ .headerValue) :
    Framing (q.enter t) := framing_head (h.same rfl rfl rfl hv) ht

/-! The end of a head. -/

theorem onHeadersDone_framing (hc : q.flags.chunked = true → q.flags.contentlength = false) (ht : q.flags.trailing = false)
    (hn : q.contentLength = ullongMax ∨ q.flags.contentlength = true) : Framing (onHeadersDone lf q).core := by
  have hidle : Framing (q.enter (newMessage q)) := framing_idle (phase_newMessage q)
  unfold onHeadersDone
  rw [if_neg (not_not.mpr rfl)]
  dsimp only
  split_ifs with h1 h2 h3 h4 h5
  · exact hidle
  · exact hidle
  · exact framing_chunks ⟨h3, hc h3, ht⟩ rfl
  · exact hidle
  · refine ⟨(fun h => by cases h), fun _ => ⟨eq_false_of_ne_true h3, hn.resolve_left h5⟩, (fun h => by cases h), ?_⟩
    exact fun h => by cases h
  · exact hidle

theorem onHeadersAlmostDone_framing (h : Announced q) (he : (onHeadersAlmostDone ch q).core.errno = .ok) :
    Framing (onHeadersAlmostDone ch q).core := by
  revert he
  unfold onHeadersAlmostDone
  split_ifs with h1 h2 h3
  · exact fun he => by cases he
  · exact fun _ => framing_idle (phase_newMessage _)
  · exact fun he => by cases he
  · obtain rfl := not_not.mp h1
    have ht : q.flags.trailing = false := by simpa using h2
    exact fun _ => onHeadersDone_framing (q := { q with
      state := .headersDone
      upgrade := (q.flags.upgrade && q.flags.connectionUpgrade) || q.method = .connect })
      (fun hc => by simpa using fun hl => h3 ⟨hc, hl⟩) ht (h.size ht)

/-! Fields. -/

theorem onHeaderFieldStart_framing (h : Announced q) (he : (onHeaderFieldStart ch q).core.errno = .ok) :
    Framing (onHeaderFieldStart ch q).core := by
  revert he
  unfold onHeaderFieldStart
  split_ifs
  · exact fun _ => h.enter rfl (fun h => by cases h)
  · exact onHeadersAlmostDone_framing (h.same rfl rfl rfl (fun h => by cases h))
  · exact fun he => by cases he
  · exact fun _ => framing_head (h.same rfl rfl rfl (fun h => by cases h)) rfl

/-- A value begins. -/
theorem onHeaderValueStart_framing (h : Announced q) (he : (onHeaderValueStart ch q).core.errno = .ok) :
    Framing (onHeaderValueStart ch q).core := by
  have hother {q' : Core} (hf : q'.flags.trailing = q.flags.trailing) (hc : q'.flags.contentlength = q.flags.contentlength)
      (hn : q'.contentLength = q.contentLength) (hs : q'.state = .headerValue) (hh : q'.headerState ≠ .contentLength) :
      Framing q' :=
    framing_head ⟨fun ht => by rw [hn, hc]; exact h.size (hf.symm.trans ht), fun _ hl => absurd hl hh⟩ (by rw [hs]; rfl)
  have hstate (c : UInt8) {t : HeaderState} (ht : t ≠ .contentLength) : connectionState c t ≠ .contentLength := by
    unfold connectionState
    split_ifs
    · exact fun h => by cases h
    · exact fun h => by cases h
    · exact fun h => by cases h
    · exact ht
  revert he
  unfold onHeaderValueStart firstValueChar
  dsimp only [Step.behind]
  split
  case h_1 => exact fun _ => hother rfl rfl rfl rfl (fun h => by cases h)
  case h_2 =>
    refine fun _ => hother rfl rfl rfl rfl ?_
    dsimp only [Core.next]
    split_ifs <;> exact fun h => by cases h
  case h_3 =>
    split_ifs
    · exact fun he => by cases he
    · exact fun he => by cases he
    · exact fun _ => framing_head ⟨fun _ => .inr rfl, fun _ _ => rfl⟩ rfl
  case h_4 => exact fun _ => hother rfl rfl rfl rfl (hstate _ (fun h => by cases h))
  case h_5 hs => exact fun _ => hother rfl rfl rfl rfl (by dsimp only [Core.next]; rw [hs]; exact fun h => by cases h)
  case h_6 => exact fun _ => hother rfl rfl rfl rfl (fun h => by cases h)

/-- The flags of a finished field say nothing of the size. -/
theorem finishHeader_same (q : Core) :
    (finishHeader q).trailing = q.flags.trailing ∧ (finishHeader q).contentlength = q.flags.contentlength := by
  unfold finishHeader
  split <;> exact ⟨rfl, rfl⟩

theorem Announced.finish (h : Announced q) : Announced { q with flags := finishHeader q, state := .headerFieldStart } :=
  h.same (finishHeader_same q).1 (finishHeader_same q).2 rfl (fun h => by cases h)

theorem onHeaderValueDiscardWs_framing (h : Announced q) (hq : q.state = .headerValueDiscardWs)
    (he : (onHeaderValueDiscardWs ch q).core.errno = .ok) : Framing (onHeaderValueDiscardWs ch q).core := by
  revert he
  unfold onHeaderValueDiscardWs
  split_ifs
  · exact fun _ => framing_head h (by rw [Core.next, hq]; rfl)
  · exact fun _ => h.enter rfl (fun h => by cases h)
  · exact fun _ => h.enter rfl (fun h => by cases h)
  · exact onHeaderValueStart_framing h

theorem onHeaderValueLws_framing (h : Announced q) (he : (onHeaderValueLws ch q).core.errno = .ok) :
    Framing (onHeaderValueLws ch q).core := by
  revert he
  unfold onHeaderValueLws
  split_ifs
  · exact onHeaderValueStart_framing (h.same rfl rfl rfl (fun h => by cases h))
  · exact onHeaderFieldStart_framing h.finish

theorem onHeaderValueDiscardLws_framing (h : Announced q) (he : (onHeaderValueDiscardLws ch q).core.errno = .ok) :
    Framing (onHeaderValueDiscardLws ch q).core := by
  revert he
  unfold onHeaderValueDiscardLws
  split_ifs
  · exact fun _ => h.enter rfl (fun h => by cases h)
  · exact onHeaderFieldStart_framing h.finish

/-! The request line and the chunks. -/

theorem urlChar_framing (h : Announced q) {t : State} {acts : List Act} (he : (urlChar t ch acts q).core.errno = .ok) :
    Framing (urlChar t ch acts q).core := by
  revert he
  unfold urlChar
  dsimp only
  split_ifs with hdead
  · exact fun he => by cases he
  · have hp : phase (parseUrlChar t ch) = .url := phase_parseUrlChar hdead
    refine fun _ => h.enter ?_ ?_
    · revert hp
      cases parseUrlChar t ch <;> simp [phase, inHead, inChunks]
    · intro hs
      rw [hs] at hp
      cases hp

theorem onReqMethod_framing (h : Announced q) (hq : q.state = .reqMethod) (he : (onReqMethod ch q).core.errno = .ok) :
    Framing (onReqMethod ch q).core := by
  have hgo {q' : Core} (hf : q'.flags = q.flags) (hn : q'.contentLength = q.contentLength)
      (hs : q'.state = .reqMethod ∨ q'.state = .reqSpacesBeforeUrl) : Framing q' := by
    refine framing_head (h.same (by rw [hf]) (by rw [hf]) hn ?_) ?_
    · rcases hs with hs | hs <;> rw [hs] <;> exact fun h => by cases h
    · rcases hs with hs | hs <;> rw [hs] <;> rfl
  revert he
  unfold onReqMethod
  dsimp only
  split_ifs
  · exact fun he => by cases he
  · exact fun _ => hgo rfl rfl (.inr rfl)
  · exact fun _ => hgo rfl rfl (.inl hq)
  · split
    · exact fun _ => hgo rfl rfl (.inl hq)
    · exact fun he => by cases he
  · exact fun _ => hgo rfl rfl (.inl hq)
  · exact fun he => by cases he

theorem onUrl_framing (h : Announced q) (he : (onUrl ch q).core.errno = .ok) : Framing (onUrl ch q).core := by
  revert he
  unfold onUrl
  split_ifs
  · exact fun _ => h.enter rfl (fun h => by cases h)
  · exact fun _ => framing_head (h.same rfl rfl rfl (fun h => by cases h)) rfl
  · exact fun _ => framing_head (h.same rfl rfl rfl (fun h => by cases h)) rfl
  · exact urlChar_framing h

theorem onStartReq_framing (h : Framing q) (he : (onStartReq ch q).core.errno = .ok) : Framing (onStartReq ch q).core := by
  revert he
  unfold onStartReq
  dsimp only
  split_ifs
  · exact fun _ => h
  · exact fun he => by cases he
  · split
    · exact fun he => by cases he
    · exact fun _ => framing_head ⟨fun _ => .inl rfl, fun h => by cases h⟩ rfl

theorem strictly_framing (h : Announced q) {expected : UInt8} {t : State} (ht : inHead t = true) (hv : t ≠ .headerValue)
    (he : (strictly expected ch t q).core.errno = .ok) : Framing (strictly expected ch t q).core := by
  revert he
  unfold strictly
  split_ifs
  · exact fun he => by cases he
  · exact fun _ => h.enter ht hv

theorem onChunkSize_framing (h : Framing q) (hq : q.state = .chunkSize) (he : (onChunkSize ch q).core.errno = .ok) :
    Framing (onChunkSize ch q).core := by
  have hc := h.chunks (by rw [hq]; rfl)
  revert he
  unfold onChunkSize
  split
  · exact fun _ => framing_chunks hc rfl
  · split
    · split_ifs
      · exact fun _ => framing_chunks hc rfl
      · exact fun he => by cases he
    · split_ifs
      · exact fun he => by cases he
      · exact fun _ => framing_chunks hc (by rw [Core.next, hq]; rfl)

theorem onChunkSizeAlmostDone_framing (h : Framing q) (hq : q.state = .chunkSizeAlmostDone)
    (he : (onChunkSizeAlmostDone ch q).core.errno = .ok) : Framing (onChunkSizeAlmostDone ch q).core := by
  have hc := h.chunks (by rw [hq]; rfl)
  revert he
  unfold onChunkSizeAlmostDone
  split_ifs
  · exact fun he => by cases he
  · exact fun _ => framing_head ⟨(fun ht => by cases ht), fun h => by cases h⟩ rfl
  · exact fun _ => framing_chunks hc rfl

/-- The digits and the points of a version. -/
theorem version_framing (ha : Announced q) (hq : q.state = .reqFirstHttpMajor ∨ q.state = .reqHttpMajor ∨
    q.state = .reqFirstHttpMinor ∨ q.state = .reqHttpMinor) (he : (onByte ch q).core.errno = .ok) :
    Framing (onByte ch q).core := by
  have hsame {q' : Core} (hf : q'.flags = q.flags) (hn : q'.contentLength = q.contentLength) (hs : inHead q'.state = true)
      (hv : q'.state ≠ .headerValue) : Framing q' :=
    framing_head (ha.same (by rw [hf]) (by rw [hf]) hn hv) hs
  revert he
  rcases hq with hq | hq | hq | hq
  · simp only [onByte, hq, onReqFirstHttpMajor]
    split_ifs
    · exact fun he => by cases he
    · exact fun _ => hsame rfl rfl rfl (fun h => by cases h)
  · simp only [onByte, hq, onReqHttpMajor]
    split_ifs
    · exact fun _ => hsame rfl rfl rfl (fun h => by cases h)
    · split
      · exact fun _ => hsame rfl rfl (by rw [Core.next]; rfl) (fun h => by cases h)
      · exact fun he => by cases he
  · simp only [onByte, hq, onReqFirstHttpMinor]
    split_ifs
    · exact fun he => by cases he
    · exact fun _ => hsame rfl rfl rfl (fun h => by cases h)
  · simp only [onByte, hq, onReqHttpMinor]
    split_ifs
    · exact fun _ => hsame rfl rfl rfl (fun h => by cases h)
    · exact fun _ => hsame rfl rfl rfl (fun h => by cases h)
    · split
      · exact fun _ => hsame rfl rfl (by rw [Core.next]; rfl) (fun h => by cases h)
      · exact fun he => by cases he

theorem onByte_framing (h : Framing q) (hscan : scans q.state = false) (he : (onByte ch q).core.errno = .ok) :
    Framing (onByte ch q).core := by
  have ha := h.head
  have hc := h.chunks
  by_cases hversion : q.state = .reqFirstHttpMajor ∨ q.state = .reqHttpMajor ∨ q.state = .reqFirstHttpMinor ∨
      q.state = .reqHttpMinor
  · exact version_framing (ha (by rcases hversion with hq | hq | hq | hq <;> rw [hq] <;> rfl)) hversion he
  revert he
  unfold onByte
  cases hq : q.state <;> dsimp only <;> simp only [hq, inHead, inChunks, Bool.not_false, Bool.false_eq_true, false_imp_iff,
    forall_const] at ha hc
  case dead =>
    split_ifs
    · exact fun _ => h
    · exact fun he => by cases he
  case startReq => exact onStartReq_framing h
  case reqMethod => exact onReqMethod_framing ha hq
  case reqSpacesBeforeUrl =>
    unfold onReqSpacesBeforeUrl
    split_ifs
    · exact fun _ => h
    · exact urlChar_framing ha
    · exact urlChar_framing ha
  case reqSchema | reqSchemaSlash | reqSchemaSlashSlash | reqServerStart =>
    unfold onUrlScheme
    split_ifs
    · exact fun he => by cases he
    · exact urlChar_framing ha
  case reqServer | reqServerWithAt | reqPath | reqQueryStringStart | reqQueryString | reqFragmentStart | reqFragment =>
    exact onUrl_framing ha
  case reqHttpStart =>
    unfold onReqHttpStart
    split_ifs
    · exact fun _ => ha.enter rfl (fun h => by cases h)
    · exact fun _ => h
    · exact fun he => by cases he
  case reqHttpH | reqHttpHT | reqHttpHTT | reqHttpHTTP | headerValueDiscardWsAlmostDone =>
    exact strictly_framing ha rfl (fun h => by cases h)
  case reqFirstHttpMajor | reqHttpMajor | reqFirstHttpMinor | reqHttpMinor => simp [hq] at hversion
  case reqLineAlmostDone =>
    split_ifs
    · exact fun he => by cases he
    · exact fun _ => ha.enter rfl (fun h => by cases h)
  case headerFieldStart => exact onHeaderFieldStart_framing ha
  case headerValueDiscardWs => exact onHeaderValueDiscardWs_framing ha hq
  case headerValueDiscardLws => exact onHeaderValueDiscardLws_framing ha
  case headerValueStart => exact onHeaderValueStart_framing ha
  case headerValueLws => exact onHeaderValueLws_framing ha
  case headerAlmostDone =>
    unfold onHeaderAlmostDone
    split_ifs
    · exact fun he => by cases he
    · exact fun _ => ha.enter rfl (fun h => by cases h)
  case chunkSizeStart =>
    unfold onChunkSizeStart
    split
    · exact fun he => by cases he
    · exact fun _ => framing_chunks hc rfl
  case chunkSize => exact onChunkSize_framing h hq
  case chunkParameters =>
    split_ifs
    · exact fun _ => framing_chunks hc rfl
    · exact fun _ => h
  case chunkSizeAlmostDone => exact onChunkSizeAlmostDone_framing h hq
  case headersAlmostDone => exact onHeadersAlmostDone_framing ha
  case headersDone => exact absurd hq h.settled
  case chunkDataAlmostDone =>
    split_ifs
    · exact fun he => by cases he
    · exact fun _ => framing_chunks hc rfl
  case chunkDataDone =>
    split_ifs
    · exact fun he => by cases he
    · exact fun _ => framing_chunks hc rfl
  case messageDone => exact fun _ => framing_idle (phase_newMessage q)
  case headerField | headerValue | bodyIdentity | chunkData => simp [hq, scans] at hscan

/-! The loops. -/

theorem headerFieldChar_flags (h : headerFieldChar ch q = some q') :
    q'.flags = q.flags ∧ q'.contentLength = q.contentLength ∧ q'.state = q.state := by
  unfold headerFieldChar at h
  dsimp only at h
  split at h
  case h_10 | h_11 | h_12 | h_13 =>
    obtain rfl := Option.some.inj h
    split_ifs <;> exact ⟨rfl, rfl, rfl⟩
  case h_14 => cases h
  all_goals
    obtain rfl := Option.some.inj h
    exact ⟨rfl, rfl, rfl⟩

theorem connectionListed_flags {flags : Flags} (h1 : flags.trailing = q.flags.trailing)
    (h2 : flags.contentlength = q.flags.contentlength) :
    (connectionListed ch flags q).flags.trailing = q.flags.trailing ∧
      (connectionListed ch flags q).flags.contentlength = q.flags.contentlength ∧
        (connectionListed ch flags q).contentLength = q.contentLength := by
  unfold connectionListed
  split_ifs
  · exact ⟨h1, h2, rfl⟩
  · exact ⟨rfl, rfl, rfl⟩
  · exact ⟨rfl, rfl, rfl⟩

/-- One character of a value: the size changes only where one is read. -/
theorem headerValueChar_announced (ha : Announced q) (hs : q.state = .headerValue) (h : headerValueChar ch q = .ok q') :
    Announced q' := by
  have hother {q' : Core} (hf : q'.flags.trailing = q.flags.trailing) (hc : q'.flags.contentlength = q.flags.contentlength)
      (hn : q'.contentLength = q.contentLength) (hh : q'.headerState ≠ .contentLength) : Announced q' :=
    ⟨fun ht => by rw [hn, hc]; exact ha.size (hf.symm.trans ht), fun _ hl => absurd hl hh⟩
  have hlisted {flags : Flags} (h1 : flags.trailing = q.flags.trailing) (h2 : flags.contentlength = q.flags.contentlength)
      (hh : q.headerState ≠ .contentLength) : Announced (connectionListed ch flags q) := by
    obtain ⟨h3, h4, h5⟩ := connectionListed_flags h1 h2
    refine hother h3 h4 h5 ?_
    unfold connectionListed
    split_ifs
    · exact fun h => by cases h
    · exact fun h => by cases h
    · exact hh
  have hname (name : Bytes) {found failed : HeaderState} (c : UInt8) (hf : found ≠ .contentLength)
      (hf' : failed ≠ .contentLength) (hh : q.headerState ≠ .contentLength) : Announced (matchName name found failed c q) :=
    hother rfl rfl rfl (matchName_headerState (p := fun t => t ≠ .contentLength) hf hf' hh)
  unfold headerValueChar at h
  dsimp only at h
  split at h
  case h_1 hh =>
    have hl := ha.reading hs hh
    split_ifs at h
    · obtain rfl := Except.ok.inj h
      exact ha
    · obtain rfl := Except.ok.inj h
      exact ⟨fun _ => .inr hl, fun _ _ => hl⟩
  case h_2 hh | h_4 hh | h_5 hh | h_6 hh =>
    obtain rfl := Except.ok.inj h
    exact hname _ _ (fun h => by cases h) (fun h => by cases h) (by rw [hh]; exact fun h => by cases h)
  case h_3 hh =>
    obtain rfl := Except.ok.inj h
    refine hother rfl rfl rfl ?_
    dsimp only
    unfold connectionState
    split_ifs <;> exact fun h => by cases h
  case h_7 hh =>
    obtain rfl := Except.ok.inj h
    split_ifs
    · exact hother rfl rfl rfl (fun h => by cases h)
    · exact ha
  case h_8 hh =>
    obtain rfl := Except.ok.inj h
    split_ifs
    · exact hother rfl rfl rfl (fun h => by cases h)
    · exact ha
  case h_9 hh | h_10 hh | h_11 hh =>
    obtain rfl := Except.ok.inj h
    exact hlisted rfl rfl (by rw [hh]; exact fun h => by cases h)
  case h_12 | h_13 => cases h
  case h_14 =>
    obtain rfl := Except.ok.inj h
    exact ha
  case h_15 =>
    obtain rfl := Except.ok.inj h
    exact hother rfl rfl rfl (fun h => by cases h)

theorem byteStep_framing (h : Framing q) (hb : byteStep ch q = some (q', ls)) (hf : Firm q) : Framing q' := by
  by_cases hscan : scans q.state = false
  · rw [byteStep_of_not_scans hscan] at hb
    split_ifs at hb with he
    obtain ⟨rfl, -⟩ := Prod.mk.inj (Option.some.inj hb)
    exact onByte_framing h hscan he
  · cases hs : q.state
    case headerField =>
      have ha := h.head (by rw [hs]; rfl)
      simp only [byteStep, hs] at hb
      split_ifs at hb
      · obtain ⟨rfl, -⟩ := Prod.mk.inj (Option.some.inj hb)
        exact ha.enter rfl (fun h => by cases h)
      · obtain ⟨q1, h1, heq⟩ := Option.map_eq_some_iff.mp hb
        obtain ⟨rfl, -⟩ := Prod.mk.inj heq
        obtain ⟨hfl, hn, hst⟩ := headerFieldChar_flags h1
        rw [hs] at hst
        exact framing_head (ha.same (by rw [hfl]) (by rw [hfl]) hn (by rw [hst]; exact fun h => by cases h))
          (by rw [hst]; rfl)
    case headerValue =>
      have ha := h.head (by rw [hs]; rfl)
      simp only [byteStep, hs] at hb
      split_ifs at hb
      · obtain ⟨rfl, -⟩ := Prod.mk.inj (Option.some.inj hb)
        exact ha.enter rfl (fun h => by cases h)
      · obtain ⟨rfl, -⟩ := Prod.mk.inj (Option.some.inj hb)
        exact ha.enter rfl (fun h => by cases h)
      · obtain ⟨rfl, -⟩ := Prod.mk.inj (Option.some.inj hb)
        exact h
      · cases hc : headerValueChar ch q with
        | error r => simp [hc, Except.toOption] at hb
        | ok q1 =>
          rw [hc] at hb
          obtain ⟨rfl, -⟩ := Prod.mk.inj (Option.some.inj hb)
          have hv := hf.sound
          simp only [Sound, hs] at hv
          have hst : q1.state = .headerValue := (headerValueChar_ok (not_or.mpr hv) hc).1.state.trans hs
          exact framing_head (headerValueChar_announced ha hs hc) (by rw [hst]; rfl)
    case bodyIdentity =>
      have hdone : bodyDone (q.bodyBytes 1) =
          ((q.bodyBytes 1).enter (newMessage (q.bodyBytes 1)), [.messageComplete]) := if_pos hs
      simp only [byteStep, hs, hdone] at hb
      split_ifs at hb
      · obtain ⟨rfl, -⟩ := Prod.mk.inj (Option.some.inj hb)
        exact framing_idle (phase_newMessage _)
      · obtain ⟨rfl, -⟩ := Prod.mk.inj (Option.some.inj hb)
        refine ⟨h.chunks, h.sized, fun hh => ?_, h.settled⟩
        rw [show (q.bodyBytes 1).state = .bodyIdentity from hs] at hh
        cases hh
    case chunkData =>
      have hc := h.chunks (by rw [hs]; rfl)
      have hdone : bodyDone (q.bodyBytes 1) = ((q.bodyBytes 1).enter .chunkDataAlmostDone, []) := by
        simp [bodyDone, Core.bodyBytes, hs]
      simp only [byteStep, hs, hdone] at hb
      split_ifs at hb
      · obtain ⟨rfl, -⟩ := Prod.mk.inj (Option.some.inj hb)
        exact framing_chunks hc rfl
      · obtain ⟨rfl, -⟩ := Prod.mk.inj (Option.some.inj hb)
        exact framing_chunks hc (by rw [show (q.bodyBytes 1).state = .chunkData from hs]; rfl)
    all_goals simp [scans, hs] at hscan

theorem bytePass_framing (hf : Firm q) (h : Framing q) (hb : bytePass data q = some (q', ls)) : Framing q' :=
  (Transducer.run_keeps (P := fun q => Firm q ∧ Framing q) (R := fun _ _ _ => True) (fun _ => trivial) (fun _ _ => trivial)
    (fun h hb => ⟨⟨(byteStep_keeps h.1 hb).1, byteStep_framing h.2 hb h.1⟩, trivial⟩) ⟨hf, h⟩ hb).1.2

/-! Connections. -/

theorem execute_framing {q : Parser} {beyond : Bytes} (hq : InOrder q) (h : q.errno = .ok → Framing q.toCore)
    (he : (execute beyond q data).1.errno = .ok) : Framing (execute beyond q data).1.toCore := by
  by_cases hok : q.errno = .ok
  · by_cases hd : data = []
    · subst hd
      rcases (execute_empty beyond hok).2 with heq | herr
      · rw [heq]
        exact h hok
      · exact absurd he herr
    · have hst := hq.resolve_left (not_not.mpr hok)
      obtain ⟨hcalled, -⟩ := execute_called beyond hst hok hd
      generalize execute beyond q data = r at hcalled he ⊢
      obtain ⟨q', cbs⟩ := r
      dsimp only at hcalled he ⊢
      generalize letters cbs = out at hcalled
      cases hcalled with
      | whole hpass _ _ => exact bytePass_framing hst.toFirm (h hok) hpass
      | upgraded _ _ _ hpass _ _ _ => exact bytePass_framing hst.toFirm (h hok) hpass
      | refused _ _ _ _ _ _ _ herr => exact absurd he herr
  · rw [execute_failed hok] at he
    exact absurd he hok

theorem deliver_framed (ds : List Delivery) {q : Parser} (hq : InOrder q) (h : q.errno = .ok → Framing q.toCore)
    (he : (deliver q ds).1.errno = .ok) : Framing (deliver q ds).1.toCore := by
  induction ds generalizing q with
  | nil => exact h he
  | cons d ds ih => exact ih (execute_inOrder hq) (fun he => execute_framing hq h he) he

/-- In a body the size of a Content-Length and chunks exclude each other, on every connection and
however it is cut. -/
theorem deliver_framing (ds : List Delivery) (he : (deliver httpParserInit ds).1.errno = .ok) :
    (inChunks (deliver httpParserInit ds).1.state = true →
        (deliver httpParserInit ds).1.flags.chunked = true ∧ (deliver httpParserInit ds).1.flags.contentlength = false) ∧
      ((deliver httpParserInit ds).1.state = .bodyIdentity →
        (deliver httpParserInit ds).1.flags.chunked = false ∧ (deliver httpParserInit ds).1.flags.contentlength = true) := by
  have h := deliver_framed ds inOrder_init (fun _ => framing_idle rfl) he
  exact ⟨fun hc => ⟨(h.chunks hc).1, (h.chunks hc).2.1⟩, h.sized⟩

theorem deliver_framing_put :
    (deliver httpParserInit [⟨putHalf, []⟩]).1.state = .bodyIdentity ∧
      (deliver httpParserInit [⟨putHalf, []⟩]).1.flags.chunked = false ∧
        (deliver httpParserInit [⟨putHalf, []⟩]).1.flags.contentlength = true :=
  ⟨rfl, (deliver_framing [⟨putHalf, []⟩] rfl).2 rfl⟩

end ArduinoHomeKit.HttpMachine
