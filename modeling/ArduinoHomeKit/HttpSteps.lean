import ArduinoHomeKit.HttpMachine

/-! What one byte can do to the parser: how far the message has come, which callbacks are made,
and that the assertions of the states hold. -/

namespace ArduinoHomeKit.HttpMachine

variable {q q' : Core} {ch : UInt8} {s : Step}

/-- How far a message has come. -/
inductive Phase
  | idle
  | named
  | url
  | rest
  deriving DecidableEq

def phase : State → Phase
  | .dead | .startReq => .idle
  | .reqMethod | .reqSpacesBeforeUrl => .named
  | .reqSchema | .reqSchemaSlash | .reqSchemaSlashSlash | .reqServerStart | .reqServer | .reqServerWithAt | .reqPath
  | .reqQueryStringStart | .reqQueryString | .reqFragmentStart | .reqFragment => .url
  | _ => .rest

theorem inUrl_eq (t : State) : inUrl t = decide (phase t = .url) := by
  cases t <;> rfl

/-- The states of the loop over a header field. -/
def fieldState : HeaderState → Bool
  | .general | .c | .co | .con | .matchingConnection | .matchingProxyConnection | .matchingContentLength
  | .matchingTransferEncoding | .matchingUpgrade | .connection | .contentLength | .transferEncoding | .upgrade => true
  | _ => false

/-- What the assertions rest on. -/
def Sound (q : Core) : Prop :=
  match q.state with
  | .chunkSizeStart | .chunkDataDone => q.flags.chunked = true
  | .chunkSize | .chunkParameters | .chunkSizeAlmostDone => q.flags.chunked = true ∧ q.contentLength < ullongMax
  | .chunkData => q.flags.chunked = true ∧ q.contentLength ≠ 0 ∧ q.contentLength < ullongMax
  | .chunkDataAlmostDone => q.flags.chunked = true ∧ q.contentLength = 0
  | .bodyIdentity => q.contentLength ≠ 0 ∧ q.contentLength ≠ ullongMax
  | .headerField => fieldState q.headerState = true
  | .headerValue => q.headerState ≠ .connection ∧ q.headerState ≠ .transferEncoding
  | _ => True

/-- The macros that the server sees nothing of. -/
def Act.quiet : Act → Bool
  | .markHeaderField | .markHeaderValue | .callbackHeaderValue | .chunkHeader | .chunkComplete | .clearNread => true
  | _ => false

def Silent (acts : List Act) : Prop := ∀ a ∈ acts, a.quiet = true

theorem silent_nil : Silent [] := fun _ ha => absurd ha List.not_mem_nil

theorem silent_cons {a : Act} {acts : List Act} (ha : a.quiet = true) (h : Silent acts) : Silent (a :: acts) :=
  List.forall_mem_cons.mpr ⟨ha, h⟩

theorem Silent.append {acts acts' : List Act} (h : Silent acts) (h' : Silent acts') : Silent (acts ++ acts') :=
  List.forall_mem_append.mpr ⟨h, h'⟩

/-- The callbacks of a step and the phase that it leads to. -/
inductive Shape (q : Core) : Step → Prop
  | quiet {q' acts f} (ha : Silent acts) (hu : phase q.state ≠ .url)
    (hp : phase q'.state = phase q.state) (hb : q.state ≠ .chunkDataAlmostDone) : Shape q ⟨q', acts, f⟩
  | begins {q' f} (hp : phase q.state = .idle) (hp' : phase q'.state = .named) : Shape q ⟨q', [.messageBegin], f⟩
  | marks {q' f} (hp : phase q.state = .named) (hp' : phase q'.state = .url) : Shape q ⟨q', [.markUrl], f⟩
  | inside {q' f} (hp : phase q.state = .url) (hp' : phase q'.state = .url) (hm : q'.method = q.method) :
    Shape q ⟨q', [], f⟩
  | leaves {q' f} (hp : phase q.state = .url) (hp' : phase q'.state = .rest) (hm : q'.method = q.method) :
    Shape q ⟨q', [.callbackUrl], f⟩
  | completes {q' acts f} (ha : Silent acts) (hp : phase q.state = .rest) (hb : q.state ≠ .chunkDataAlmostDone)
    (hp' : phase q'.state = .idle) : Shape q ⟨q', acts ++ [.messageComplete], f⟩
  | endsBody {q' f} (hq : q.state = .chunkDataAlmostDone) (hq' : q'.state = .chunkDataDone) :
    Shape q ⟨q', [.callbackBody], f⟩

/-- No error, and no more than 64 bits of content length. -/
abbrev Carried (q q' : Core) : Prop :=
  q'.errno = q.errno ∧ (q'.contentLength = q.contentLength ∨ q'.contentLength ≤ ullongMax)

/-- A step that is no error. -/
structure Legal (q : Core) (s : Step) : Prop where
  shape : Shape q s
  sound : Sound s.core
  counted : s.core.state = .chunkSizeStart → .clearNread ∈ s.acts
  carried : Carried q s.core
  flow : s.flow = .next ∨ s.flow = .stop ∧ s.core.upgrade = true ∧ phase s.core.state = .idle

/-- A refused byte. -/
structure Refused (s : Step) : Prop where
  errno : s.core.errno ≠ .ok
  acts : Silent s.acts
  flow : s.flow = .stop

theorem fail_refused {e : Errno} (he : e ≠ .ok) : Refused (q.fail e) := ⟨he, silent_nil, rfl⟩

theorem Refused.behind {acts : List Act} (ha : Silent acts) (h : Refused s) : Refused (s.behind acts) :=
  ⟨h.errno, ha.append h.acts, h.flow⟩

theorem phase_newMessage (q : Core) : phase (newMessage q) = .idle := by
  unfold newMessage
  split <;> rfl

theorem sound_newMessage (q q' : Core) : Sound (q.enter (newMessage q')) := by
  unfold newMessage
  split <;> trivial

theorem newMessage_ne (q : Core) : newMessage q ≠ .chunkSizeStart := by
  unfold newMessage
  split <;> exact fun h => by cases h

theorem phase_parseUrlChar {t : State} (h : parseUrlChar t ch ≠ .dead) : phase (parseUrlChar t ch) = .url := by
  unfold parseUrlChar at h ⊢
  split at h
  · exact absurd rfl h
  · rename_i hc
    rw [if_neg hc]
    cases t <;> simp only [] at h ⊢ <;> (repeat' split at h) <;> simp_all [phase]

theorem sound_of_url (h : phase q.state = .url) : Sound q ∧ q.state ≠ .chunkSizeStart := by
  unfold Sound
  cases hs : q.state <;> simp_all [phase]

/-- The states behind the request line that take one byte. -/
structure Headed (q : Core) : Prop where
  phase : phase q.state = .rest
  noBody : q.state ≠ .chunkDataAlmostDone

/-- A `break` that stays in the phase. -/
theorem Headed.next (h : Headed q) (hp : HttpMachine.phase q'.state = .rest) (hs : Sound q') (hc : q'.state ≠ .chunkSizeStart)
    (he : Carried q q') : Legal q q'.next where
  shape := .quiet silent_nil (by rw [h.phase]; intro h; cases h) (hp.trans h.phase.symm) h.noBody
  sound := hs
  counted := fun hq => absurd hq hc
  carried := he
  flow := .inl rfl

theorem Headed.complete {acts : List Act} {f : Flow} (h : Headed q) (ha : Silent acts) (he : Carried q q')
    (hf : f = .next ∨ f = .stop ∧ q'.upgrade = true) :
    Legal q ⟨q'.enter (newMessage q'), acts ++ [.messageComplete], f⟩ where
  shape := .completes ha h.phase h.noBody (phase_newMessage q')
  sound := sound_newMessage q' q'
  counted := fun hq => absurd hq (newMessage_ne q')
  carried := he
  flow := hf.imp id (fun h => ⟨h.1, h.2, phase_newMessage q'⟩)

theorem Headed.clear {acts : List Act} (h : Headed q) (ha : Silent acts) (hp : HttpMachine.phase q'.state = .rest)
    (hs : Sound q') (he : Carried q q') : Legal q ⟨q', .clearNread :: acts, .next⟩ where
  shape := .quiet (silent_cons rfl ha) (by rw [h.phase]; intro h; cases h) (hp.trans h.phase.symm) h.noBody
  sound := hs
  counted := fun _ => List.mem_cons_self ..
  carried := he
  flow := .inl rfl

/-- Macros in front that the server sees nothing of. -/
theorem Legal.behind {acts : List Act} (hq : Headed q) (ha : Silent acts) (h : Legal q s) : Legal q (s.behind acts) where
  shape := by
    have hrest := hq.phase
    cases h.shape with
    | quiet ha' hu hp hb => exact .quiet (ha.append ha') hu hp hb
    | begins hp _ => rw [hp] at hrest; cases hrest
    | marks hp _ => rw [hp] at hrest; cases hrest
    | inside hp _ _ => rw [hp] at hrest; cases hrest
    | leaves hp _ _ => rw [hp] at hrest; cases hrest
    | @completes q' acts' f ha' hp hb hp' =>
      have hshape : Shape q ⟨q', (acts ++ acts') ++ [.messageComplete], f⟩ := .completes (ha.append ha') hp hb hp'
      rwa [List.append_assoc] at hshape
    | endsBody hs _ => exact absurd hs hq.noBody
  sound := h.sound
  counted := fun hs => List.mem_append_right _ (h.counted hs)
  carried := h.carried
  flow := h.flow

theorem onMessageDone_flow (q : Core) :
    (onMessageDone q).flow = .next ∨ (onMessageDone q).flow = .stop ∧ q.upgrade = true := by
  cases h : q.upgrade <;> simp [onMessageDone, h]

theorem onMessageDone_legal (h : Headed q) (he : Carried q q') : Legal q (onMessageDone q') :=
  h.complete silent_nil he (onMessageDone_flow q')

theorem onHeadersDone_legal (h : Headed q) (he : Carried q q') :
    Refused (onHeadersDone ch q') ∨ Legal q (onHeadersDone ch q') := by
  have hcomplete {f : Flow} (hf : f = .next ∨ f = .stop ∧ q'.upgrade = true) :
      Legal q ⟨q'.enter (newMessage q'), [.clearNread, .messageComplete], f⟩ :=
    h.complete (silent_cons rfl silent_nil) he hf
  dsimp only [onHeadersDone]
  split_ifs with h1 h2 h3 h4 h5 h6
  · exact .inl (fail_refused (fun h => by cases h))
  · exact .inr (hcomplete (.inr ⟨rfl, h2.1⟩))
  · exact .inr (hcomplete (.inl rfl))
  · exact .inr (h.clear silent_nil rfl h4 he)
  · exact .inr (hcomplete (.inl rfl))
  · exact .inr (h.clear silent_nil rfl ⟨h5, h6⟩ he)
  · exact .inr (hcomplete (.inl rfl))

theorem onHeadersAlmostDone_legal (h : Headed q) (he : Carried q q') :
    Refused (onHeadersAlmostDone ch q') ∨ Legal q (onHeadersAlmostDone ch q') := by
  unfold onHeadersAlmostDone
  split_ifs
  · exact .inl (fail_refused (fun h => by cases h))
  · exact .inr ((onMessageDone_legal h he).behind h (silent_cons rfl silent_nil))
  · exact .inl (fail_refused (fun h => by cases h))
  · exact onHeadersDone_legal h he

theorem fieldState_first (c : UInt8) : fieldState (firstHeaderState c) = true := by
  unfold firstHeaderState
  split_ifs <;> rfl

theorem onHeaderFieldStart_legal (h : Headed q) (he : Carried q q') :
    Refused (onHeaderFieldStart ch q') ∨ Legal q (onHeaderFieldStart ch q') := by
  unfold onHeaderFieldStart
  split_ifs
  · exact .inr (h.next rfl trivial (fun h => by cases h) he)
  · exact onHeadersAlmostDone_legal h he
  · exact .inl (fail_refused (fun h => by cases h))
  · have hnext : Legal q
        (Core.next { q' with index := 0, state := .headerField, headerState := firstHeaderState (token ch) }) :=
      h.next rfl (fieldState_first _) (fun h => by cases h) he
    exact .inr (hnext.behind h (silent_cons rfl silent_nil))

theorem connectionState_ne {c : UInt8} {t : HeaderState} (h : t ≠ .connection ∧ t ≠ .transferEncoding) :
    connectionState c t ≠ .connection ∧ connectionState c t ≠ .transferEncoding := by
  unfold connectionState
  split_ifs
  · exact ⟨(fun h => by cases h), fun h => by cases h⟩
  · exact ⟨(fun h => by cases h), fun h => by cases h⟩
  · exact ⟨(fun h => by cases h), fun h => by cases h⟩
  · exact h

theorem digit_le (ch : UInt8) : ch.toNat - 48 ≤ ullongMax := by
  have := ch.toNat_lt
  unfold ullongMax
  omega

theorem firstValueChar_legal (h : Headed q) (he : Carried q q') :
    Refused (firstValueChar ch { q' with state := .headerValue, index := 0 }) ∨
      Legal q (firstValueChar ch { q' with state := .headerValue, index := 0 }) := by
  unfold firstValueChar
  dsimp only
  split
  case h_2 =>
    refine .inr (h.next rfl ?_ (fun h => by cases h) he)
    show (if _ then _ else _) ≠ _ ∧ (if _ then _ else _) ≠ _
    split_ifs
    · exact ⟨(fun h => by cases h), fun h => by cases h⟩
    · exact ⟨(fun h => by cases h), fun h => by cases h⟩
  case h_3 =>
    split_ifs
    · exact .inl (fail_refused (fun h => by cases h))
    · exact .inl (fail_refused (fun h => by cases h))
    · exact .inr (h.next rfl ⟨by simp_all, by simp_all⟩ (fun h => by cases h) ⟨he.1, .inr (digit_le ch)⟩)
  case h_4 => exact .inr (h.next rfl (connectionState_ne ⟨(fun h => by cases h), fun h => by cases h⟩) (fun h => by cases h) he)
  case h_5 hs => exact .inr (h.next rfl ⟨by simp_all, by simp_all⟩ (fun h => by cases h) he)
  all_goals exact .inr (h.next rfl ⟨(fun h => by cases h), fun h => by cases h⟩ (fun h => by cases h) he)

theorem onHeaderValueStart_legal (h : Headed q) (he : Carried q q') :
    Refused (onHeaderValueStart ch q') ∨ Legal q (onHeaderValueStart ch q') :=
  (firstValueChar_legal h he).imp (Refused.behind (silent_cons rfl silent_nil))
    (Legal.behind h (silent_cons rfl silent_nil))

theorem onHeaderValueDiscardWs_legal (h : Headed q) (he : Carried q q') (hq : phase q'.state = .rest)
    (hs : Sound q') (hc : q'.state ≠ .chunkSizeStart) :
    Refused (onHeaderValueDiscardWs ch q') ∨ Legal q (onHeaderValueDiscardWs ch q') := by
  unfold onHeaderValueDiscardWs
  split_ifs
  · exact .inr (h.next hq hs hc he)
  · exact .inr (h.next rfl trivial (fun h => by cases h) he)
  · exact .inr (h.next rfl trivial (fun h => by cases h) he)
  · exact onHeaderValueStart_legal h he

theorem onHeaderValueLws_legal (h : Headed q) (he : Carried q q') :
    Refused (onHeaderValueLws ch q') ∨ Legal q (onHeaderValueLws ch q') := by
  unfold onHeaderValueLws
  split_ifs
  · exact onHeaderValueStart_legal h he
  · exact onHeaderFieldStart_legal h he

theorem onHeaderValueDiscardLws_legal (h : Headed q) (he : Carried q q') :
    Refused (onHeaderValueDiscardLws ch q') ∨ Legal q (onHeaderValueDiscardLws ch q') := by
  unfold onHeaderValueDiscardLws
  split_ifs
  · exact .inr (h.next rfl trivial (fun h => by cases h) he)
  · have hempty : Silent [.markHeaderValue, .callbackHeaderValue] := silent_cons rfl (silent_cons rfl silent_nil)
    have hfield : Refused (onHeaderFieldStart ch { q' with flags := finishHeader q', state := .headerFieldStart }) ∨
        Legal q (onHeaderFieldStart ch { q' with flags := finishHeader q', state := .headerFieldStart }) :=
      onHeaderFieldStart_legal h he
    exact hfield.imp (Refused.behind hempty) (Legal.behind h hempty)

theorem unhex_lt {n : Nat} (h : unhex ch = some n) : n < 16 := by
  unfold unhex at h
  split_ifs at h with h1 h2 h3
  · obtain ⟨_, hb⟩ := Bool.and_eq_true_iff.mp h1
    have : ch.toNat ≤ 57 := by simpa [chr] using UInt8.le_iff_toNat_le.mp (of_decide_eq_true hb)
    obtain rfl := Option.some.inj h
    omega
  · have : ch.toNat ≤ 70 := by simpa [chr] using UInt8.le_iff_toNat_le.mp h2.2
    obtain rfl := Option.some.inj h
    omega
  · have : ch.toNat ≤ 102 := by simpa [chr] using UInt8.le_iff_toNat_le.mp h3.2
    obtain rfl := Option.some.inj h
    omega
  · obtain rfl := Option.some.inj h
    omega

theorem onChunkSizeStart_legal (hq : q.state = .chunkSizeStart) (hs : Sound q) :
    Refused (onChunkSizeStart ch q) ∨ Legal q (onChunkSizeStart ch q) := by
  have h : Headed q := ⟨by rw [hq]; rfl, by rw [hq]; intro h; cases h⟩
  simp only [Sound, hq] at hs
  unfold onChunkSizeStart
  split
  · exact .inl (fail_refused (fun h => by cases h))
  · rename_i value hv
    have := unhex_lt hv
    exact .inr (h.next rfl ⟨hs, show value < ullongMax by unfold ullongMax; omega⟩ (fun h => by cases h)
      ⟨rfl, .inr (show value ≤ ullongMax by unfold ullongMax; omega)⟩)

theorem onChunkSize_legal (hq : q.state = .chunkSize) (hs : Sound q) :
    Refused (onChunkSize ch q) ∨ Legal q (onChunkSize ch q) := by
  have h : Headed q := ⟨by rw [hq]; rfl, by rw [hq]; intro h; cases h⟩
  have hs' := hs
  simp only [Sound, hq] at hs'
  unfold onChunkSize
  split
  · exact .inr (h.next rfl hs' (fun h => by cases h) ⟨rfl, .inl rfl⟩)
  split
  · split
    · exact .inr (h.next rfl hs' (fun h => by cases h) ⟨rfl, .inl rfl⟩)
    · exact .inl (fail_refused (fun h => by cases h))
  rename_i value hv
  have hlt := unhex_lt hv
  split
  · exact .inl (fail_refused (fun h => by cases h))
  rename_i hover
  have hsound : Sound { q with contentLength := q.contentLength * 16 + value } := by
    simp only [Sound, hq]
    refine ⟨hs'.1, ?_⟩
    unfold ullongMax at hover ⊢
    omega
  exact .inr (h.next (by rw [hq]; rfl) hsound (by rw [hq]; intro h; cases h)
    ⟨rfl, .inr (show q.contentLength * 16 + value ≤ ullongMax by unfold ullongMax at hover ⊢; omega)⟩)

theorem onChunkSizeAlmostDone_legal (hq : q.state = .chunkSizeAlmostDone) (hs : Sound q) :
    Refused (onChunkSizeAlmostDone ch q) ∨ Legal q (onChunkSizeAlmostDone ch q) := by
  have h : Headed q := ⟨by rw [hq]; rfl, by rw [hq]; intro h; cases h⟩
  simp only [Sound, hq] at hs
  unfold onChunkSizeAlmostDone
  split_ifs with h1 h2
  · exact .inl (fail_refused (fun h => by cases h))
  · exact .inr (h.clear (silent_cons rfl silent_nil) rfl trivial ⟨rfl, .inl rfl⟩)
  · exact .inr (h.clear (silent_cons rfl silent_nil) rfl ⟨hs.1, h2, hs.2⟩ ⟨rfl, .inl rfl⟩)

theorem onStartReq_legal (hq : q.state = .startReq) : Refused (onStartReq ch q) ∨ Legal q (onStartReq ch q) := by
  have hp : phase q.state = .idle := by rw [hq]; rfl
  unfold onStartReq
  split
  · refine .inr ⟨.quiet silent_nil (by rw [hp]; intro h; cases h) rfl (by rw [hq]; intro h; cases h), ?_, by simp [Core.next, hq], ⟨rfl, .inl rfl⟩, .inl rfl⟩
    simp [Core.next, Sound, hq]
  dsimp only
  split
  · exact .inl (fail_refused (fun h => by cases h))
  split
  · exact .inl (fail_refused (fun h => by cases h))
  · exact .inr ⟨.begins hp rfl, trivial, (fun h => by cases h), ⟨rfl, .inr le_rfl⟩, .inl rfl⟩

theorem onReqMethod_legal (hq : q.state = .reqMethod) : Refused (onReqMethod ch q) ∨ Legal q (onReqMethod ch q) := by
  have hgo (q' : Core) (h : q'.state = .reqMethod ∨ q'.state = .reqSpacesBeforeUrl) (he : Carried q q') :
      Legal q (Core.next { q' with index := q'.index + 1 }) := by
    have hp : phase q.state = .named := by rw [hq]; rfl
    refine ⟨.quiet silent_nil (by rw [hp]; intro h; cases h) ?_ (by rw [hq]; intro h; cases h), ?_, ?_, he, .inl rfl⟩
    · rw [hp]
      show phase q'.state = .named
      rcases h with h | h <;> rw [h] <;> rfl
    · rcases h with h | h <;> simp [Core.next, Sound, h]
    · rcases h with h | h <;> simp [Core.next, h]
  unfold onReqMethod
  dsimp only
  split_ifs
  · exact .inl (fail_refused (fun h => by cases h))
  · exact .inr (hgo _ (.inr rfl) ⟨rfl, .inl rfl⟩)
  · exact .inr (hgo _ (.inl hq) ⟨rfl, .inl rfl⟩)
  · split
    · rename_i method _
      exact .inr (hgo { q with method := method } (.inl hq) ⟨rfl, .inl rfl⟩)
    · exact .inl (fail_refused (fun h => by cases h))
  · exact .inr (hgo { q with method := .msearch } (.inl hq) ⟨rfl, .inl rfl⟩)
  · exact .inl (fail_refused (fun h => by cases h))

theorem urlChar_legal {t : State} {acts : List Act}
    (h : ∀ q', phase q'.state = .url → q'.method = q.method → Shape q ⟨q', acts, .next⟩) :
    Refused (urlChar t ch acts q) ∨ Legal q (urlChar t ch acts q) := by
  unfold urlChar
  dsimp only
  split_ifs with hd
  · exact .inl (fail_refused (fun h => by cases h))
  · have hp : phase (q.enter (parseUrlChar t ch)).state = .url := phase_parseUrlChar hd
    obtain ⟨hs, hc⟩ := sound_of_url hp
    exact .inr ⟨h _ hp rfl, hs, fun hq => absurd hq hc, ⟨rfl, .inl rfl⟩, .inl rfl⟩

theorem onReqSpacesBeforeUrl_legal (hq : q.state = .reqSpacesBeforeUrl) :
    Refused (onReqSpacesBeforeUrl ch q) ∨ Legal q (onReqSpacesBeforeUrl ch q) := by
  have hp : phase q.state = .named := by rw [hq]; rfl
  unfold onReqSpacesBeforeUrl
  split
  · refine .inr ⟨.quiet silent_nil (by rw [hp]; intro h; cases h) rfl (by rw [hq]; intro h; cases h), ?_, by simp [Core.next, hq], ⟨rfl, .inl rfl⟩, .inl rfl⟩
    simp [Core.next, Sound, hq]
  · exact urlChar_legal (fun q' hq' _ => .marks hp hq')

theorem onUrlScheme_legal (hp : phase q.state = .url) : Refused (onUrlScheme ch q) ∨ Legal q (onUrlScheme ch q) := by
  unfold onUrlScheme
  split
  · exact .inl (fail_refused (fun h => by cases h))
  · exact urlChar_legal (fun q' hq' hm => .inside hp hq' hm)

theorem onUrl_legal (hp : phase q.state = .url) : Refused (onUrl ch q) ∨ Legal q (onUrl ch q) := by
  unfold onUrl
  split
  · exact .inr ⟨.leaves hp rfl rfl, trivial, (fun h => by cases h), ⟨rfl, .inl rfl⟩, .inl rfl⟩
  split
  · refine .inr ⟨.leaves hp ?_ rfl, ?_, ?_, ⟨rfl, .inl rfl⟩, .inl rfl⟩
    · dsimp only
      split <;> rfl
    · by_cases hc : ch = cr
      · simp only [Sound, hc, if_true]
      · simp only [Sound, hc, if_false]
    · dsimp only
      split <;> exact fun h => by cases h
  · exact urlChar_legal (fun q' hq' hm => .inside hp hq' hm)

theorem onReqHttpStart_legal (hq : q.state = .reqHttpStart) :
    Refused (onReqHttpStart ch q) ∨ Legal q (onReqHttpStart ch q) := by
  have h : Headed q := ⟨by rw [hq]; rfl, by rw [hq]; intro h; cases h⟩
  unfold onReqHttpStart
  split_ifs
  · exact .inr (h.next rfl trivial (fun h => by cases h) ⟨rfl, .inl rfl⟩)
  · exact .inr (h.next h.phase (by simp [Sound, hq]) (by rw [hq]; intro h; cases h) ⟨rfl, .inl rfl⟩)
  · exact .inl (fail_refused (fun h => by cases h))

theorem strictly_legal {expected : UInt8} {t : State} (h : Headed q) (ht : phase t = .rest) (hs : Sound (q.enter t))
    (hc : t ≠ .chunkSizeStart) : Refused (strictly expected ch t q) ∨ Legal q (strictly expected ch t q) := by
  unfold strictly
  split_ifs
  · exact .inl (fail_refused (fun h => by cases h))
  · exact .inr (h.next ht hs hc ⟨rfl, .inl rfl⟩)

theorem onReqFirstHttpMajor_legal (h : Headed q) :
    Refused (onReqFirstHttpMajor ch q) ∨ Legal q (onReqFirstHttpMajor ch q) := by
  unfold onReqFirstHttpMajor
  split_ifs
  · exact .inl (fail_refused (fun h => by cases h))
  · exact .inr (h.next rfl trivial (fun h => by cases h) ⟨rfl, .inl rfl⟩)

theorem onReqHttpMajor_legal (hq : q.state = .reqHttpMajor) :
    Refused (onReqHttpMajor ch q) ∨ Legal q (onReqHttpMajor ch q) := by
  have h : Headed q := ⟨by rw [hq]; rfl, by rw [hq]; intro h; cases h⟩
  unfold onReqHttpMajor
  split_ifs
  · exact .inr (h.next rfl trivial (fun h => by cases h) ⟨rfl, .inl rfl⟩)
  · split
    · exact .inr (h.next h.phase (by simp [Sound, hq]) (by rw [hq]; intro h; cases h) ⟨rfl, .inl rfl⟩)
    · exact .inl (fail_refused (fun h => by cases h))

theorem onReqFirstHttpMinor_legal (h : Headed q) :
    Refused (onReqFirstHttpMinor ch q) ∨ Legal q (onReqFirstHttpMinor ch q) := by
  unfold onReqFirstHttpMinor
  split_ifs
  · exact .inl (fail_refused (fun h => by cases h))
  · exact .inr (h.next rfl trivial (fun h => by cases h) ⟨rfl, .inl rfl⟩)

theorem onReqHttpMinor_legal (hq : q.state = .reqHttpMinor) :
    Refused (onReqHttpMinor ch q) ∨ Legal q (onReqHttpMinor ch q) := by
  have h : Headed q := ⟨by rw [hq]; rfl, by rw [hq]; intro h; cases h⟩
  unfold onReqHttpMinor
  split_ifs
  · exact .inr (h.next rfl trivial (fun h => by cases h) ⟨rfl, .inl rfl⟩)
  · exact .inr (h.next rfl trivial (fun h => by cases h) ⟨rfl, .inl rfl⟩)
  · split
    · exact .inr (h.next h.phase (by simp [Sound, hq]) (by rw [hq]; intro h; cases h) ⟨rfl, .inl rfl⟩)
    · exact .inl (fail_refused (fun h => by cases h))

/-- The states that look at more than one byte. -/
def scans : State → Bool
  | .headerField | .headerValue | .bodyIdentity | .chunkData => true
  | _ => false

/-- One case for each state. -/
theorem onByte_legal (ch : UInt8) (hs : Sound q) (hscan : scans q.state = false) : Refused (onByte ch q) ∨ Legal q (onByte ch q) := by
  have stay (hp : phase q.state = .rest ∨ phase q.state = .idle) (hc : q.state ≠ .chunkSizeStart)
      (hb : q.state ≠ .chunkDataAlmostDone) : Legal q q.next :=
    ⟨.quiet silent_nil (by rcases hp with hp | hp <;> rw [hp] <;> exact fun h => by cases h) rfl hb, hs, fun hq => absurd hq hc, ⟨rfl, .inl rfl⟩, .inl rfl⟩
  unfold onByte
  cases hq : q.state <;> dsimp only
  case dead =>
    split_ifs
    · exact .inr (stay (.inr (by rw [hq]; rfl)) (by rw [hq]; intro h; cases h) (by rw [hq]; intro h; cases h))
    · exact .inl (fail_refused (fun h => by cases h))
  case startReq => exact onStartReq_legal hq
  case reqMethod => exact onReqMethod_legal hq
  case reqSpacesBeforeUrl => exact onReqSpacesBeforeUrl_legal hq
  case reqSchema | reqSchemaSlash | reqSchemaSlashSlash | reqServerStart =>
    exact onUrlScheme_legal (by rw [hq]; rfl)
  case reqServer | reqServerWithAt | reqPath | reqQueryStringStart | reqQueryString | reqFragmentStart | reqFragment =>
    exact onUrl_legal (by rw [hq]; rfl)
  case reqHttpStart => exact onReqHttpStart_legal hq
  case reqHttpMajor => exact onReqHttpMajor_legal hq
  case reqHttpMinor => exact onReqHttpMinor_legal hq
  case chunkSizeStart => exact onChunkSizeStart_legal hq hs
  case chunkSize => exact onChunkSize_legal hq hs
  case chunkSizeAlmostDone => exact onChunkSizeAlmostDone_legal hq hs
  case chunkDataAlmostDone =>
    simp only [Sound, hq] at hs
    split_ifs
    · exact .inl (fail_refused (fun h => by cases h))
    · exact .inr ⟨.endsBody hq rfl, hs.1, (fun h => by cases h), ⟨rfl, .inl rfl⟩, .inl rfl⟩
  case headerField | headerValue | bodyIdentity | chunkData => simp [hq, scans] at hscan
  all_goals have h : Headed q := ⟨by rw [hq]; rfl, by rw [hq]; intro h; cases h⟩
  case reqHttpH | reqHttpHT | reqHttpHTT | reqHttpHTTP | headerValueDiscardWsAlmostDone =>
    exact strictly_legal h rfl trivial (fun h => by cases h)
  case reqFirstHttpMajor => exact onReqFirstHttpMajor_legal h
  case reqFirstHttpMinor => exact onReqFirstHttpMinor_legal h
  case headerFieldStart => exact onHeaderFieldStart_legal h ⟨rfl, .inl rfl⟩
  case headerValueDiscardWs => exact onHeaderValueDiscardWs_legal h ⟨rfl, .inl rfl⟩ h.phase hs (by rw [hq]; intro h; cases h)
  case headerValueDiscardLws => exact onHeaderValueDiscardLws_legal h ⟨rfl, .inl rfl⟩
  case headerValueStart => exact onHeaderValueStart_legal h ⟨rfl, .inl rfl⟩
  case headerValueLws => exact onHeaderValueLws_legal h ⟨rfl, .inl rfl⟩
  case headersAlmostDone => exact onHeadersAlmostDone_legal h ⟨rfl, .inl rfl⟩
  case headersDone => exact onHeadersDone_legal h ⟨rfl, .inl rfl⟩
  case messageDone => exact .inr (onMessageDone_legal h ⟨rfl, .inl rfl⟩)
  case reqLineAlmostDone =>
    split_ifs
    · exact .inl (fail_refused (fun h => by cases h))
    · exact .inr (h.next rfl trivial (fun h => by cases h) ⟨rfl, .inl rfl⟩)
  case headerAlmostDone =>
    unfold onHeaderAlmostDone
    split_ifs
    · exact .inl (fail_refused (fun h => by cases h))
    · exact .inr (h.next rfl trivial (fun h => by cases h) ⟨rfl, .inl rfl⟩)
  case chunkParameters =>
    split_ifs
    · simp only [Sound, hq] at hs
      exact .inr (h.next rfl hs (fun h => by cases h) ⟨rfl, .inl rfl⟩)
    · exact .inr (stay (.inl h.phase) (by rw [hq]; intro h; cases h) h.noBody)
  case chunkDataDone =>
    simp only [Sound, hq] at hs
    split_ifs
    · exact .inl (fail_refused (fun h => by cases h))
    · exact .inr (h.clear (silent_cons rfl silent_nil) rfl hs ⟨rfl, .inl rfl⟩)


/-! The marks of a header. -/

/-- What a macro does to the marks for a field and for a value. -/
def headerMark (m : Bool × Bool) : Act → Bool × Bool
  | .markHeaderField => (true, m.2)
  | .markHeaderValue => (m.1, true)
  | .callbackHeaderValue => (m.1, false)
  | _ => m

def headerMarks (acts : List Act) (m : Bool × Bool) : Bool × Bool := acts.foldl headerMark m

/-- The mark that a state needs. -/
def marksOf (t : State) : Bool × Bool := (t = .headerField, t = .headerValue)

/-- A step without marks leaves the mark that its state needs. -/
def MarksState (s : Step) : Prop := headerMarks s.acts (false, false) = marksOf s.core.state

theorem marksState_next (h : marksOf q.state = (false, false)) : MarksState q.next := h.symm

theorem marksState_fail {e : Errno} (h : marksOf q.state = (false, false)) : MarksState (q.fail e) := h.symm

theorem marksOf_newMessage (q : Core) : marksOf (newMessage q) = (false, false) := by
  unfold newMessage
  split <;> rfl

theorem onHeadersDone_marks (h : marksOf q.state = (false, false)) : MarksState (onHeadersDone ch q) := by
  have hnew : (false, false) = marksOf (newMessage q) := (marksOf_newMessage q).symm
  dsimp only [onHeadersDone]
  split_ifs
  · exact marksState_fail h
  · exact hnew
  · exact hnew
  · rfl
  · exact hnew
  · rfl
  · exact hnew

theorem onHeadersAlmostDone_marks (h : marksOf q.state = (false, false)) : MarksState (onHeadersAlmostDone ch q) := by
  unfold onHeadersAlmostDone
  split_ifs
  · exact marksState_fail h
  · exact (marksOf_newMessage _).symm
  · exact marksState_fail h
  · exact onHeadersDone_marks rfl

theorem onHeaderFieldStart_marks (h : marksOf q.state = (false, false)) : MarksState (onHeaderFieldStart ch q) := by
  unfold onHeaderFieldStart
  split_ifs
  · exact marksState_next rfl
  · exact onHeadersAlmostDone_marks rfl
  · exact marksState_fail h
  · rfl

/-- The mark is set in front of the switch, whether or not the character is refused. -/
theorem onHeaderValueStart_marks : MarksState (onHeaderValueStart ch q) := by
  unfold onHeaderValueStart firstValueChar
  dsimp only
  split
  case h_3 => split_ifs <;> rfl
  all_goals rfl

theorem onHeaderValueLines_marks (h : marksOf q.state = (false, false)) :
    MarksState (onHeaderValueDiscardWs ch q) ∧ MarksState (onHeaderValueLws ch q) ∧
      MarksState (onHeaderValueDiscardLws ch q) := by
  refine ⟨?_, ?_, ?_⟩
  · unfold onHeaderValueDiscardWs
    split_ifs
    · exact marksState_next h
    · exact marksState_next rfl
    · exact marksState_next rfl
    · exact onHeaderValueStart_marks
  · unfold onHeaderValueLws
    split_ifs
    · exact onHeaderValueStart_marks
    · exact onHeaderFieldStart_marks rfl
  · unfold onHeaderValueDiscardLws
    split_ifs
    · exact marksState_next rfl
    -- the value was empty: its mark is gone before the next field is marked
    · exact onHeaderFieldStart_marks (q := { q with flags := finishHeader q, state := .headerFieldStart }) rfl

theorem urlChar_marks {t : State} {acts : List Act} (ha : headerMarks acts (false, false) = (false, false)) :
    MarksState (urlChar t ch acts q) := by
  unfold urlChar
  dsimp only
  split_ifs with hd
  · exact marksState_fail (congrArg marksOf hd)
  · have hp : phase (parseUrlChar t ch) = .url := phase_parseUrlChar hd
    have hmarks : marksOf (parseUrlChar t ch) = (false, false) := by
      cases ht : parseUrlChar t ch <;> simp_all [marksOf, phase]
    exact ha.trans hmarks.symm

theorem onUrl_marks (h : marksOf q.state = (false, false)) : MarksState (onUrl ch q) ∧ MarksState (onUrlScheme ch q) := by
  constructor
  · unfold onUrl
    split
    · rfl
    split
    · rename_i hline
      rcases hline with rfl | rfl <;> rfl
    · exact urlChar_marks rfl
  · unfold onUrlScheme
    split_ifs
    · exact marksState_fail h
    · exact urlChar_marks rfl

theorem onReqMethod_marks (h : marksOf q.state = (false, false)) : MarksState (onReqMethod ch q) := by
  unfold onReqMethod
  dsimp only
  split_ifs
  · exact marksState_fail h
  · exact marksState_next rfl
  · exact marksState_next h
  · split
    · exact marksState_next h
    · exact marksState_fail h
  · exact marksState_next h
  · exact marksState_fail h

theorem onStartReq_marks (h : marksOf q.state = (false, false)) : MarksState (onStartReq ch q) := by
  unfold onStartReq
  dsimp only
  split_ifs
  · exact marksState_next h
  · exact marksState_fail h
  · split
    · exact marksState_fail h
    · rfl

/-- The versions. -/
theorem onHttpVersion_marks (h : marksOf q.state = (false, false)) :
    MarksState (onReqFirstHttpMajor ch q) ∧ MarksState (onReqHttpMajor ch q) ∧ MarksState (onReqFirstHttpMinor ch q) ∧
      MarksState (onReqHttpMinor ch q) := by
  refine ⟨?_, ?_, ?_, ?_⟩
  · unfold onReqFirstHttpMajor
    split_ifs
    · exact marksState_fail h
    · rfl
  · unfold onReqHttpMajor
    split_ifs
    · rfl
    · split
      · exact marksState_next h
      · exact marksState_fail h
  · unfold onReqFirstHttpMinor
    split_ifs
    · exact marksState_fail h
    · rfl
  · unfold onReqHttpMinor
    split_ifs
    · rfl
    · rfl
    · split
      · exact marksState_next h
      · exact marksState_fail h

theorem onChunkSize_marks (h : marksOf q.state = (false, false)) :
    MarksState (onChunkSizeStart ch q) ∧ MarksState (onChunkSize ch q) ∧ MarksState (onChunkSizeAlmostDone ch q) := by
  refine ⟨?_, ?_, ?_⟩
  · unfold onChunkSizeStart
    split
    · exact marksState_fail h
    · rfl
  · unfold onChunkSize
    split
    · rfl
    split
    · split_ifs
      · rfl
      · exact marksState_fail h
    · split_ifs
      · exact marksState_fail h
      · exact marksState_next h
  · unfold onChunkSizeAlmostDone
    split_ifs
    · exact marksState_fail h
    · rfl
    · rfl

theorem strictly_marks {expected : UInt8} {t : State} (h : marksOf q.state = (false, false))
    (ht : marksOf t = (false, false)) : MarksState (strictly expected ch t q) := by
  unfold strictly
  split_ifs
  · exact marksState_fail h
  · exact marksState_next ht

/-- A byte in a state without a mark leaves the mark of the state behind it. -/
theorem onByte_marks (ch : UInt8) (hscan : scans q.state = false) : MarksState (onByte ch q) := by
  have h : marksOf q.state = (false, false) := by
    cases hs : q.state <;> simp_all [scans, marksOf]
  unfold onByte
  cases hs : q.state <;> dsimp only
  case headerField | headerValue | bodyIdentity | chunkData => simp [hs, scans] at hscan
  case startReq => exact onStartReq_marks h
  case reqMethod => exact onReqMethod_marks h
  case reqSchema | reqSchemaSlash | reqSchemaSlashSlash | reqServerStart => exact (onUrl_marks h).2
  case reqServer | reqServerWithAt | reqPath | reqQueryStringStart | reqQueryString | reqFragmentStart | reqFragment =>
    exact (onUrl_marks h).1
  case reqHttpH | reqHttpHT | reqHttpHTT | reqHttpHTTP | headerValueDiscardWsAlmostDone => exact strictly_marks h rfl
  case reqFirstHttpMajor => exact (onHttpVersion_marks h).1
  case reqHttpMajor => exact (onHttpVersion_marks h).2.1
  case reqFirstHttpMinor => exact (onHttpVersion_marks h).2.2.1
  case reqHttpMinor => exact (onHttpVersion_marks h).2.2.2
  case headerFieldStart => exact onHeaderFieldStart_marks h
  case headerValueDiscardWs => exact (onHeaderValueLines_marks h).1
  case headerValueLws => exact (onHeaderValueLines_marks h).2.1
  case headerValueDiscardLws => exact (onHeaderValueLines_marks h).2.2
  case headerValueStart => exact onHeaderValueStart_marks
  case chunkSizeStart => exact (onChunkSize_marks h).1
  case chunkSize => exact (onChunkSize_marks h).2.1
  case chunkSizeAlmostDone => exact (onChunkSize_marks h).2.2
  case headersAlmostDone => exact onHeadersAlmostDone_marks h
  case headersDone => exact onHeadersDone_marks h
  case messageDone => exact (marksOf_newMessage q).symm
  case reqSpacesBeforeUrl =>
    unfold onReqSpacesBeforeUrl
    split_ifs
    · exact marksState_next h
    · exact urlChar_marks rfl
    · exact urlChar_marks rfl
  case reqHttpStart =>
    unfold onReqHttpStart
    split_ifs
    · rfl
    · exact marksState_next h
    · exact marksState_fail h
  case headerAlmostDone =>
    unfold onHeaderAlmostDone
    split_ifs
    · exact marksState_fail h
    · rfl
  case chunkParameters =>
    split_ifs
    · rfl
    · exact marksState_next h
  case dead =>
    split_ifs
    · exact marksState_next h
    · exact marksState_fail h
  case reqLineAlmostDone | chunkDataAlmostDone | chunkDataDone =>
    split_ifs
    · exact marksState_fail h
    · rfl

/-! What the server sees of a call, byte by byte. -/

inductive Letter
  | messageBegin
  | url (kind : HttpMethod) (b : UInt8)
  | body (b : UInt8)
  | messageComplete
  deriving DecidableEq

def eventLetters : ParserEvent → List Letter
  | .messageBegin => [.messageBegin]
  | .url kind data _ => data.map (Letter.url kind)
  | .body data => data.map Letter.body
  | .messageComplete => [.messageComplete]

def letters (callbacks : List (Nat × ParserEvent)) : List Letter := callbacks.flatMap (fun c => eventLetters c.2)

/-- The bytes that wait behind a mark. -/
def pending (l : Local) : List Letter :=
  (l.urlMark.getD []).map (Letter.url l.parser.method.kind) ++ (l.bodyMark.getD []).map Letter.body

/-- The callbacks made and those that will be made for the bytes read so far. -/
def seen (l : Local) : List Letter := letters l.callbacks ++ pending l

/-- The states of a body of which a part may have been read. -/
def inBody : State → Bool
  | .bodyIdentity | .chunkData | .chunkDataAlmostDone => true
  | _ => false

/-- The marks for a field and for a value. -/
def Local.headerMarks (l : Local) : Bool × Bool := (l.headerFieldMark, l.headerValueMark)

/-- The marks are where the state says. -/
structure Marked (l : Local) : Prop where
  header : l.headerMarks = marksOf l.parser.state
  url : l.urlMark.isSome = inUrl l.parser.state
  body : l.bodyMark.isSome = true → inBody l.parser.state = true

/-- What the server sees of a macro. -/
def Act.letters : Act → List Letter
  | .messageBegin => [.messageBegin]
  | .messageComplete => [.messageComplete]
  | _ => []

/-- What the server sees of one byte. -/
def stepLetters (ch : UInt8) (s : Step) : List Letter :=
  s.acts.flatMap Act.letters ++ if phase s.core.state = .url then [.url s.core.method.kind ch] else []

theorem letters_append (a b : List (Nat × ParserEvent)) : letters (a ++ b) = letters a ++ letters b :=
  List.flatMap_append

variable {l : Local} {behind : Bytes}

theorem Marked.no_url (h : Marked l) (hp : phase l.parser.state ≠ .url) : l.urlMark = none := by
  have := h.url
  rw [inUrl_eq, decide_eq_false hp] at this
  simpa using this

theorem Marked.some_url (h : Marked l) (hp : phase l.parser.state = .url) : ∃ data, l.urlMark = some data := by
  have := h.url
  rw [inUrl_eq, decide_eq_true hp] at this
  exact Option.isSome_iff_exists.mp this

theorem Marked.no_body (h : Marked l) (hb : inBody l.parser.state = false) : l.bodyMark = none := by
  cases hm : l.bodyMark with
  | none => rfl
  | some data =>
    have := h.body (by rw [hm]; rfl)
    simp [hb] at this

theorem not_inBody_of_phase {t : State} (h : phase t ≠ .rest) : inBody t = false := by
  cases t <;> simp_all [phase, inBody]

/-- The call after a step that takes the byte. -/
def Local.take (behind : Bytes) (ch : UInt8) (l : Local) (s : Step) : Local := (l.perform behind s).advance [ch]

structure Took (ch : UInt8) (l : Local) (s : Step) (l' : Local) : Prop where
  marked : Marked l'
  seen : seen l' = seen l ++ stepLetters ch s
  core : l'.parser.toCore = s.core
  nread : l'.parser.nread = if .clearNread ∈ s.acts then 0 else l.parser.nread

theorem act_core (l : Local) (a : Act) : (l.act behind a).parser.toCore = l.parser.toCore := by
  cases a
  case callbackUrl => simp only [Local.act, Local.callbackUrl]; split <;> rfl
  case callbackBody => simp only [Local.act, Local.callbackBody]; split <;> rfl
  all_goals rfl

theorem act_marks (l : Local) (a : Act) : (l.act behind a).headerMarks = headerMark l.headerMarks a := by
  cases a
  case callbackUrl => simp only [Local.act, Local.callbackUrl]; split <;> rfl
  case callbackBody => simp only [Local.act, Local.callbackBody]; split <;> rfl
  all_goals rfl

/-- Macros change neither the state nor the marks of a header but by their name. -/
theorem acts_same (acts : List Act) (l : Local) :
    (acts.foldl (Local.act behind) l).parser.toCore = l.parser.toCore ∧
      (acts.foldl (Local.act behind) l).headerMarks = headerMarks acts l.headerMarks := by
  induction acts generalizing l with
  | nil => exact ⟨rfl, rfl⟩
  | cons a acts ih =>
    obtain ⟨hcore, hmarks⟩ := ih (l.act behind a)
    refine ⟨hcore.trans (act_core l a), hmarks.trans ?_⟩
    rw [act_marks]
    rfl

/-- Macros that the server sees nothing of. -/
theorem acts_silent {acts : List Act} (ha : Silent acts) (l : Local) :
    (acts.foldl (Local.act behind) l).urlMark = l.urlMark ∧ (acts.foldl (Local.act behind) l).bodyMark = l.bodyMark ∧
      (acts.foldl (Local.act behind) l).callbacks = l.callbacks ∧
      (acts.foldl (Local.act behind) l).parser.nread = if .clearNread ∈ acts then 0 else l.parser.nread := by
  induction acts generalizing l with
  | nil => exact ⟨rfl, rfl, rfl, rfl⟩
  | cons a acts ih =>
    obtain ⟨ha, hacts⟩ := List.forall_mem_cons.mp ha
    obtain ⟨hu, hb, hc, hn⟩ := ih hacts (l.act behind a)
    rw [List.foldl_cons, hu, hb, hc, hn]
    cases a <;> simp_all [Local.act, Act.quiet]

theorem silent_letters {acts : List Act} (ha : Silent acts) : acts.flatMap Act.letters = [] :=
  List.flatMap_eq_nil_iff.mpr (fun a hmem => by
    have hq := ha a hmem
    cases a <;> simp_all [Act.quiet, Act.letters])

theorem take_same (s : Step) (l : Local) :
    (l.take behind ch s).parser.toCore = s.core ∧ (l.take behind ch s).headerMarks = headerMarks s.acts l.headerMarks :=
  acts_same s.acts (l.set s.core)

theorem take_took (h : Marked l) (hscan : scans l.parser.state = false) (hl : Legal l.parser.toCore s)
    (hmarks : MarksState s) : Took ch l s (l.take behind ch s) := by
  have hshape := hl.shape
  have hbody (hb : l.parser.state ≠ .chunkDataAlmostDone) : l.bodyMark = none := by
    refine h.no_body ?_
    cases hs : l.parser.state <;> simp_all [scans, inBody]
  have hsame : (l.take behind ch s).parser.toCore = s.core ∧
      (l.take behind ch s).headerMarks = headerMarks s.acts l.headerMarks := take_same s l
  have hcore := hsame.1
  have hstate : (l.take behind ch s).parser.state = s.core.state := congrArg Core.state hcore
  have hzero : l.headerMarks = (false, false) := by
    rw [h.header]
    cases hs : l.parser.state <;> simp_all [scans, marksOf]
  have hheader : (l.take behind ch s).headerMarks = marksOf (l.take behind ch s).parser.state := by
    rw [hsame.2, hzero, hstate]
    exact hmarks
  cases hshape with
  | @quiet q' acts f ha hu hp hb =>
    have h1 := h.no_url hu
    have h2 := hbody hb
    obtain ⟨hurl, hbodyMark, hcallbacks, hnread⟩ :
        (acts.foldl (Local.act behind) (l.set q')).urlMark = l.urlMark ∧
          (acts.foldl (Local.act behind) (l.set q')).bodyMark = l.bodyMark ∧
          (acts.foldl (Local.act behind) (l.set q')).callbacks = l.callbacks ∧
          (acts.foldl (Local.act behind) (l.set q')).parser.nread = if .clearNread ∈ acts then 0 else l.parser.nread :=
      acts_silent ha (l.set q')
    refine ⟨⟨hheader, ?_, ?_⟩, ?_, hcore, hnread⟩
    · rw [hstate]
      simp [Local.take, Local.perform, Local.advance, hurl, h1, inUrl_eq, hp, hu]
    · simp [Local.take, Local.perform, Local.advance, hbodyMark, h2]
    · simp [Local.take, Local.perform, Local.advance, seen, pending, stepLetters, silent_letters ha, hurl, hbodyMark,
        hcallbacks, h1, h2, hp, hu]
  | begins hp hp' =>
    have hu : phase l.parser.state ≠ .url := by rw [hp]; intro h; cases h
    have h1 := h.no_url hu
    have h2 := h.no_body (not_inBody_of_phase (by rw [hp]; intro h; cases h))
    refine ⟨⟨hheader, ?_, ?_⟩, ?_, hcore, rfl⟩
    · simp [Local.take, Local.perform, Local.act, Local.set, Local.notify, Local.advance, h1, inUrl_eq, hp']
    · simp [Local.take, Local.perform, Local.act, Local.set, Local.notify, Local.advance, h2]
    · simp [Local.take, Local.perform, Local.act, Local.set, Local.notify, Local.advance, seen, pending, stepLetters,
        Act.letters, letters, eventLetters, h1, h2, hp']
  | marks hp hp' =>
    have hu : phase l.parser.state ≠ .url := by rw [hp]; intro h; cases h
    have h1 := h.no_url hu
    have h2 := h.no_body (not_inBody_of_phase (by rw [hp]; intro h; cases h))
    refine ⟨⟨hheader, ?_, ?_⟩, ?_, hcore, rfl⟩
    · simp [Local.take, Local.perform, Local.act, Local.set, Local.advance, inUrl_eq, hp']
    · simp [Local.take, Local.perform, Local.act, Local.set, Local.advance, h2]
    · simp [Local.take, Local.perform, Local.act, Local.set, Local.advance, seen, pending, stepLetters, Act.letters, h1, h2,
        hp']
  | inside hp hp' hm =>
    obtain ⟨data, h1⟩ := h.some_url hp
    have h2 := h.no_body (not_inBody_of_phase (by rw [hp]; intro h; cases h))
    refine ⟨⟨hheader, ?_, ?_⟩, ?_, hcore, rfl⟩
    · simp [Local.take, Local.perform, Local.set, Local.advance, inUrl_eq, hp', h1]
    · simp [Local.take, Local.perform, Local.set, Local.advance, h2]
    · simp [Local.take, Local.perform, Local.set, Local.advance, seen, pending, stepLetters, h1, h2, hp', hm]
  | leaves hp hp' hm =>
    obtain ⟨data, h1⟩ := h.some_url hp
    have h2 := h.no_body (not_inBody_of_phase (by rw [hp]; intro h; cases h))
    refine ⟨⟨hheader, ?_, ?_⟩, ?_, hcore, ?_⟩
    · simp [Local.take, Local.perform, Local.act, Local.callbackUrl, Local.set, Local.notify, Local.advance, inUrl_eq,
        hp', h1]
    · simp [Local.take, Local.perform, Local.act, Local.callbackUrl, Local.set, Local.notify, Local.advance, h1, h2]
    · simp [Local.take, Local.perform, Local.act, Local.callbackUrl, Local.set, Local.notify, Local.advance, seen,
        pending, stepLetters, Act.letters, letters, eventLetters, h1, h2, hp', hm]
    · simp [Local.take, Local.perform, Local.act, Local.callbackUrl, Local.set, Local.notify, Local.advance, h1]
  | @completes q' acts f ha hp hb hp' =>
    have hu : phase l.parser.state ≠ .url := by rw [hp]; intro h; cases h
    have h1 := h.no_url hu
    have h2 := hbody hb
    obtain ⟨hurl, hbodyMark, hcallbacks, hnread⟩ :
        (acts.foldl (Local.act behind) (l.set q')).urlMark = l.urlMark ∧
          (acts.foldl (Local.act behind) (l.set q')).bodyMark = l.bodyMark ∧
          (acts.foldl (Local.act behind) (l.set q')).callbacks = l.callbacks ∧
          (acts.foldl (Local.act behind) (l.set q')).parser.nread = if .clearNread ∈ acts then 0 else l.parser.nread :=
      acts_silent ha (l.set q')
    refine ⟨⟨hheader, ?_, ?_⟩, ?_, hcore, ?_⟩
    · rw [hstate]
      simp [Local.take, Local.perform, Local.act, Local.notify, Local.advance, hurl, h1, inUrl_eq, hp']
    · simp [Local.take, Local.perform, Local.act, Local.notify, Local.advance, hbodyMark, h2]
    · simp [Local.take, Local.perform, Local.act, Local.notify, Local.advance, seen, pending, stepLetters, Act.letters,
        silent_letters ha, letters, eventLetters, hurl, hbodyMark, hcallbacks, h1, h2, hp']
    · simp [Local.take, Local.perform, Local.act, Local.notify, Local.advance, hnread]
  | endsBody hq hq' =>
    have h1 := h.no_url (by rw [hq]; intro h; cases h)
    cases h2 : l.bodyMark
    all_goals
      refine ⟨⟨hheader, ?_, ?_⟩, ?_, hcore, ?_⟩
      · simp [Local.take, Local.perform, Local.act, Local.callbackBody, Local.set, Local.notify, Local.advance, h1, h2,
          hq', inUrl]
      · simp [Local.take, Local.perform, Local.act, Local.callbackBody, Local.set, Local.notify, Local.advance, h2]
      · simp [Local.take, Local.perform, Local.act, Local.callbackBody, Local.set, Local.notify, Local.advance, seen,
          pending, stepLetters, Act.letters, letters, eventLetters, h1, h2, hq', phase]
      · simp [Local.take, Local.perform, Local.act, Local.callbackBody, Local.set, Local.notify, Local.advance, h2]

end ArduinoHomeKit.HttpMachine
