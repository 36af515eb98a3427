import ArduinoHomeKit.HttpHeaders
import ArduinoHomeKit.HttpMessages

/-! Requests, written to the wire one behind the other and read back, however the bytes are cut. -/

namespace ArduinoHomeKit.HttpMachine

variable {q q' q1 : Core} {ch : UInt8} {xs : Bytes} {m m1 : Method} {n : Nat}

/-! The method. -/

/-- The characters of a method. -/
def Method.bytes : Method → Bytes
  | .delete => [68, 69, 76, 69, 84, 69]
  | .get => [71, 69, 84]
  | .head => [72, 69, 65, 68]
  | .post => [80, 79, 83, 84]
  | .put => [80, 85, 84]
  | .connect => [67, 79, 78, 78, 69, 67, 84]
  | .options => [79, 80, 84, 73, 79, 78, 83]
  | .trace => [84, 82, 65, 67, 69]
  | .copy => [67, 79, 80, 89]
  | .lock => [76, 79, 67, 75]
  | .mkcol => [77, 75, 67, 79, 76]
  | .move => [77, 79, 86, 69]
  | .propfind => [80, 82, 79, 80, 70, 73, 78, 68]
  | .proppatch => [80, 82, 79, 80, 80, 65, 84, 67, 72]
  | .search => [83, 69, 65, 82, 67, 72]
  | .unlock => [85, 78, 76, 79, 67, 75]
  | .bind => [66, 73, 78, 68]
  | .rebind => [82, 69, 66, 73, 78, 68]
  | .unbind => [85, 78, 66, 73, 78, 68]
  | .acl => [65, 67, 76]
  | .report => [82, 69, 80, 79, 82, 84]
  | .mkactivity => [77, 75, 65, 67, 84, 73, 86, 73, 84, 89]
  | .checkout => [67, 72, 69, 67, 75, 79, 85, 84]
  | .merge => [77, 69, 82, 71, 69]
  | .msearch => [77, 45, 83, 69, 65, 82, 67, 72]
  | .notify => [78, 79, 84, 73, 70, 89]
  | .subscribe => [83, 85, 66, 83, 67, 82, 73, 66, 69]
  | .unsubscribe => [85, 78, 83, 85, 66, 83, 67, 82, 73, 66, 69]
  | .patch => [80, 65, 84, 67, 72]
  | .purge => [80, 85, 82, 71, 69]
  | .mkcalendar => [77, 75, 67, 65, 76, 69, 78, 68, 65, 82]
  | .link => [76, 73, 78, 75]
  | .unlink => [85, 78, 76, 73, 78, 75]

theorem methodString_eq (m : Method) : methodString m = m.bytes := by
  cases m <;> exact ascii_ofList

/-- What one character does to the method that the characters before it have left. -/
def methodStep (ch : UInt8) (m : Method × Nat) : Option (Method × Nat) :=
  if ch = m.1.bytes.getD m.2 0 then some (m.1, m.2 + 1)
  else if isAlpha ch then (laterMethod m.1 m.2 ch).map (fun m' => (m', m.2 + 1))
  else if ch = chr '-' ∧ m.2 = 1 ∧ m.1 = .mkcol then some (.msearch, m.2 + 1)
  else none

def methodRun : Bytes → Method × Nat → Option (Method × Nat)
  | [], m => some m
  | ch :: rest, m => (methodStep ch m).bind (methodRun rest)

/-- The methods are told apart by their characters. -/
structure ToldApart (m : Method) (ch : UInt8) (xs : Bytes) (m1 : Method) : Prop where
  bytes : m.bytes = ch :: xs
  alpha : isAlpha ch = true
  first : firstMethod ch = some m1
  run : methodRun xs (m1, 1) = some (m, m.bytes.length)
  printed : xs.all (fun c => c != 0 && c != chr ' ') = true

theorem method_toldApart (m : Method) : ∃ ch xs m1, ToldApart m ch xs m1 := by
  cases m <;> exact ⟨_, _, _, rfl, rfl, rfl, rfl, rfl⟩

theorem method_head {xs : Bytes} {m' : Method × Nat} (hq : q.state = .reqMethod) (he : q.errno = .ok) (hup : q.upgrade = false)
    (hx : ∀ c ∈ xs, c ≠ 0 ∧ c ≠ chr ' ') (h : methodRun xs (q.method, q.index) = some m') :
    Head xs q { q with method := m'.1, index := m'.2 } [] := by
  induction xs generalizing q with
  | nil =>
    obtain rfl := Option.some.inj h
    exact .nil
  | cons ch xs ih =>
    obtain ⟨hz, hspace⟩ := hx ch (List.mem_cons_self ..)
    obtain ⟨⟨m1, i⟩, hstep, hrest⟩ := Option.bind_eq_some_iff.mp h
    have hs : onByte ch q = Core.next { q with method := m1, index := i } := by
      have hon : onByte ch q = onReqMethod ch q := by simp only [onByte, hq]
      rw [hon]
      unfold onReqMethod
      unfold methodStep at hstep
      simp only [methodString_eq, if_neg hz, hspace, false_and, if_false]
      split_ifs at hstep ⊢
      · obtain ⟨rfl, rfl⟩ := Prod.mk.inj (Option.some.inj hstep)
        rfl
      · obtain ⟨m2, hm2, heq⟩ := Option.map_eq_some_iff.mp hstep
        obtain ⟨rfl, rfl⟩ := Prod.mk.inj heq
        rw [hm2]
      · obtain ⟨rfl, rfl⟩ := Prod.mk.inj (Option.some.inj hstep)
        rfl
    have hone : Head [ch] q { q with method := m1, index := i } [] := by
      have hl : stepLetters ch (Core.next { q with method := m1, index := i }) = [] := by
        simp [stepLetters, Core.next, hq, phase]
      rw [← hl]
      exact Head.byte hs (by rw [hq]; rfl) (by rw [hq]; rfl) he hup (fun h => by cases h)
    exact hone.trans (ih hq he hup (fun c hc => hx c (List.mem_cons_of_mem _ hc)) hrest)

/-- The parser behind the method. -/
def named (q : Core) (m : Method) (i : Nat) : Core :=
  { q with state := .reqSpacesBeforeUrl, flags := noFlags, contentLength := ullongMax, method := m, index := i }

theorem method_line (m : Method) (hq : q.state = .startReq) (he : q.errno = .ok) (hup : q.upgrade = false) :
    ∃ i, Head (m.bytes ++ [chr ' ']) q (named q m i) [.messageBegin] := by
  obtain ⟨ch, xs, m1, h⟩ := method_toldApart m
  let q1 : Core := { q with state := .reqMethod, flags := noFlags, contentLength := ullongMax, method := m1, index := 1 }
  have hfirst : Head [ch] q q1 [.messageBegin] := by
    have hs : onByte ch q = ⟨q1, [.messageBegin], .next⟩ := by
      have hcrlf : ¬ (ch = cr ∨ ch = lf) := by
        rintro (rfl | rfl) <;> exact absurd h.alpha (by decide)
      simp only [onByte, hq]
      unfold onStartReq
      simp only [if_neg hcrlf, h.alpha, h.first, reduceCtorEq, if_false]
      rfl
    exact Head.byte hs (by rw [hq]; rfl) (by rw [hq]; rfl) he hup (by simp)
  have hxs : Head xs q1 { q1 with method := m, index := m.bytes.length } [] :=
    method_head (q := q1) rfl he hup (fun c hc => by simpa using List.all_eq_true.mp h.printed c hc) h.run
  have hspace : Head [chr ' '] { q1 with method := m, index := m.bytes.length } (named q m (m.bytes.length + 1)) [] := by
    have hend : (methodString m).getD m.bytes.length 0 = 0 := by
      rw [methodString_eq]
      simp
    have hs : onByte (chr ' ') { q1 with method := m, index := m.bytes.length } = (named q m (m.bytes.length + 1)).next := by
      show onReqMethod (chr ' ') _ = _
      unfold onReqMethod
      rw [if_neg (by decide), if_pos ⟨rfl, hend⟩]
      rfl
    exact Head.byte hs rfl rfl he hup (fun h => by cases h)
  refine ⟨m.bytes.length + 1, ?_⟩
  have hbytes : m.bytes ++ [chr ' '] = [ch] ++ xs ++ [chr ' '] := by
    rw [h.bytes]
    rfl
  rw [hbytes]
  exact (hfirst.trans hxs).trans hspace

/-! The target and the version. -/

/-- The states in a target that starts with a slash. -/
def inTarget : State → Bool
  | .reqPath | .reqQueryStringStart | .reqQueryString | .reqFragmentStart | .reqFragment => true
  | _ => false

/-- What may stand in a target. -/
def IsTarget (xs : Bytes) : Prop := ∀ c ∈ xs, isUrlChar c = true ∨ c = chr '?' ∨ c = chr '#'

theorem isTarget_blank {c : UInt8} (h : isUrlChar c = true ∨ c = chr '?' ∨ c = chr '#') :
    ¬ (c = chr ' ' ∨ c = cr ∨ c = lf ∨ c = 9 ∨ c = 12) := by
  rintro (rfl | rfl | rfl | rfl | rfl) <;> revert h <;> decide

theorem parseUrlChar_inTarget {t : State} {c : UInt8} (ht : inTarget t = true)
    (h : isUrlChar c = true ∨ c = chr '?' ∨ c = chr '#') : inTarget (parseUrlChar t c) = true := by
  unfold parseUrlChar
  rw [if_neg (isTarget_blank h)]
  cases t <;> simp only [inTarget, Bool.false_eq_true] at ht <;> dsimp only <;> split_ifs <;> first | rfl | simp_all

theorem inTarget_phase {t : State} (ht : inTarget t = true) : phase t = .url ∧ t ≠ .dead ∧ scans t = false ∧ parsingHeader t = true := by
  cases t <;> simp_all [inTarget, phase, scans, parsingHeader]

theorem target_head (hq : inTarget q.state = true) (he : q.errno = .ok) (hup : q.upgrade = false) (hx : IsTarget xs) :
    ∃ t, inTarget t = true ∧ Head xs q (q.enter t) (xs.map (Letter.url q.method.kind)) := by
  induction xs generalizing q with
  | nil => exact ⟨q.state, hq, .nil⟩
  | cons ch xs ih =>
    have hch := hx ch (List.mem_cons_self ..)
    have ht := parseUrlChar_inTarget hq hch
    obtain ⟨-, -, hscan, hparse⟩ := inTarget_phase hq
    obtain ⟨hphase, hdead, -, -⟩ := inTarget_phase ht
    have hs : onByte ch q = ⟨q.enter (parseUrlChar q.state ch), [], .next⟩ := by
      have hblank := isTarget_blank hch
      have hon : onByte ch q = onUrl ch q := by
        unfold onByte
        cases hs : q.state <;> simp_all [inTarget]
      rw [hon]
      unfold onUrl urlChar
      rw [if_neg (fun h => hblank (.inl h)), if_neg (fun h => hblank (h.elim (fun h => .inr (.inl h)) (fun h => .inr (.inr (.inl h)))))]
      exact if_neg hdead
    have hone : Head [ch] q (q.enter (parseUrlChar q.state ch)) [.url q.method.kind ch] := by
      have hl : stepLetters ch ⟨q.enter (parseUrlChar q.state ch), [], .next⟩ = [.url q.method.kind ch] := by
        simp [stepLetters, Core.enter, hphase]
      rw [← hl]
      exact Head.byte hs hscan hparse he hup (fun h => by cases h)
    obtain ⟨t, htt, hrest⟩ := ih (q := q.enter (parseUrlChar q.state ch)) ht he hup (fun c hc => hx c (List.mem_cons_of_mem _ hc))
    exact ⟨t, htt, hone.trans hrest⟩

/-- " HTTP/1.1" and the end of the line. -/
def version : Bytes := [32, 72, 84, 84, 80, 47, 49, 46, 49, 13, 10]

theorem version_head (hq : inTarget q.state = true) (he : q.errno = .ok) (hup : q.upgrade = false) :
    Head version q { q with state := .headerFieldStart, httpMajor := 1, httpMinor := 1 } [] := by
  obtain ⟨-, -, hscan, hparse⟩ := inTarget_phase hq
  have h1 : Head [32] q (q.enter .reqHttpStart) [] := by
    have hs : onByte 32 q = ⟨q.enter .reqHttpStart, [.callbackUrl], .next⟩ := by
      have hon : onByte 32 q = onUrl 32 q := by
        unfold onByte
        cases hs : q.state <;> simp_all [inTarget]
      rw [hon]
      rfl
    exact Head.byte hs hscan hparse he hup (by simp)
  have h2 : Head [72] (q.enter .reqHttpStart) (q.enter .reqHttpH) [] := Head.byte (s := Core.next _) rfl rfl rfl he hup (fun h => by cases h)
  have h3 : Head [84] (q.enter .reqHttpH) (q.enter .reqHttpHT) [] := Head.byte (s := Core.next _) rfl rfl rfl he hup (fun h => by cases h)
  have h4 : Head [84] (q.enter .reqHttpHT) (q.enter .reqHttpHTT) [] := Head.byte (s := Core.next _) rfl rfl rfl he hup (fun h => by cases h)
  have h5 : Head [80] (q.enter .reqHttpHTT) (q.enter .reqHttpHTTP) [] := Head.byte (s := Core.next _) rfl rfl rfl he hup (fun h => by cases h)
  have h6 : Head [47] (q.enter .reqHttpHTTP) (q.enter .reqFirstHttpMajor) [] :=
    Head.byte (s := Core.next _) rfl rfl rfl he hup (fun h => by cases h)
  have h7 : Head [49] (q.enter .reqFirstHttpMajor) { q with state := .reqHttpMajor, httpMajor := 1 } [] :=
    Head.byte (s := Core.next _) rfl rfl rfl he hup (fun h => by cases h)
  have h8 : Head [46] { q with state := .reqHttpMajor, httpMajor := 1 } { q with state := .reqFirstHttpMinor, httpMajor := 1 } [] :=
    Head.byte (s := Core.next _) rfl rfl rfl he hup (fun h => by cases h)
  have h9 : Head [49] { q with state := .reqFirstHttpMinor, httpMajor := 1 }
      { q with state := .reqHttpMinor, httpMajor := 1, httpMinor := 1 } [] := Head.byte (s := Core.next _) rfl rfl rfl he hup (fun h => by cases h)
  have h10 : Head [13] { q with state := .reqHttpMinor, httpMajor := 1, httpMinor := 1 }
      { q with state := .reqLineAlmostDone, httpMajor := 1, httpMinor := 1 } [] := Head.byte (s := Core.next _) rfl rfl rfl he hup (fun h => by cases h)
  have h11 : Head [10] { q with state := .reqLineAlmostDone, httpMajor := 1, httpMinor := 1 }
      { q with state := .headerFieldStart, httpMajor := 1, httpMinor := 1 } [] := Head.byte (s := Core.next _) rfl rfl rfl he hup (fun h => by cases h)
  exact h1.trans (h2.trans (h3.trans (h4.trans (h5.trans (h6.trans (h7.trans (h8.trans (h9.trans (h10.trans h11)))))))))

/-! Requests. -/

/-- The content length of a request and its body. -/
structure Sized where
  name : Bytes
  body : Bytes
  known : name.map token = Known.contentLength.name
  short : body.length < 10 ^ 19

/-- A request as a controller writes it. -/
structure Request where
  method : Method
  path : Bytes
  fields : List Field
  sized : Option Sized
  more : List Field
  notConnect : method ≠ .connect
  target : IsTarget path

namespace Request

variable (r : Request)

def body : Bytes := r.sized.elim [] Sized.body

def sizeLines : Bytes := r.sized.elim [] (fun s => sizeLine s.name s.body.length)

def lines : Bytes :=
  methodString r.method ++ [chr ' '] ++ ([chr '/'] ++ (r.path ++ (version ++ (r.fields.flatMap Field.line ++ (r.sizeLines ++
    r.more.flatMap Field.line)))))

def head : Bytes := r.lines ++ [cr, lf]

/-- The bytes of the request. -/
def wire : Bytes := r.head ++ r.body

/-- What the server is to see of it. -/
def message : Message where
  kind := r.method.kind
  target := chr '/' :: r.path
  body := r.body
  nonempty := List.cons_ne_nil _ _

end Request

/-- The parser in front of the end of a head. -/
structure Framed (m : Method) (sized : Bool) (n : Nat) (q : Core) : Prop where
  line : AtLine q
  errno : (lineStart q).errno = .ok
  upgrade : (lineStart q).upgrade = false
  method : (lineStart q).method = m
  flags : (lineStart q).flags = { noFlags with contentlength := sized }
  size : (lineStart q).contentLength = n
  major : (lineStart q).httpMajor = 1
  minor : (lineStart q).httpMinor = 1

theorem Framed.same {sized : Bool} (h : Framed m sized n q) (hs : SameHead q q') (hl : AtLine q') : Framed m sized n q' := by
  have he := congrArg Core.errno hs
  have hup := congrArg Core.upgrade hs
  have hm := congrArg Core.method hs
  have hf := congrArg Core.flags hs
  have hn := congrArg Core.contentLength hs
  have h1 := congrArg Core.httpMajor hs
  have h2 := congrArg Core.httpMinor hs
  exact ⟨hl, he.trans h.errno, hup.trans h.upgrade, hm.trans h.method, hf.trans h.flags, hn.trans h.size, h1.trans h.major,
    h2.trans h.minor⟩

/-- More lines. -/
theorem Framed.fields {sized : Bool} (h : Framed m sized n q) (fs : List Field) :
    ∃ q', Head (fs.flatMap Field.line) q q' [] ∧ Framed m sized n q' := by
  obtain ⟨q', hq', hl, hs⟩ := fields_head fs h.line h.errno h.upgrade
  exact ⟨q', hq', h.same hs hl⟩

theorem sized_head (sized : Option Sized) (h : Framed m false ullongMax q) :
    ∃ q', Head (sized.elim [] (fun s => sizeLine s.name s.body.length)) q q' [] ∧
      Framed m sized.isSome (sized.elim ullongMax (fun s => s.body.length)) q' := by
  cases sized with
  | none => exact ⟨q, .nil, h⟩
  | some s =>
    obtain ⟨t, i, hh, rfl⟩ := size_head s.known s.short h.line (by rw [h.flags]) h.errno h.upgrade
    refine ⟨_, hh, ⟨.inr (.inl rfl), h.errno, h.upgrade, h.method, ?_, rfl, h.major, h.minor⟩⟩
    show { (lineStart q).flags with contentlength := true } = _
    rw [h.flags]
    rfl

/-- The request line and all the fields. -/
theorem Request.lines_head (r : Request) (hq : q.state = .startReq) (he : q.errno = .ok) (hup : q.upgrade = false) :
    ∃ q', Head r.lines q q' (.messageBegin :: r.message.target.map (Letter.url r.method.kind)) ∧
      Framed r.method r.sized.isSome (r.sized.elim ullongMax (fun s => s.body.length)) q' := by
  obtain ⟨i, h1⟩ := method_line r.method hq he hup
  have h2 : Head [chr '/'] (named q r.method i) ((named q r.method i).enter .reqPath) [.url r.method.kind (chr '/')] := by
    have hs : onByte (chr '/') (named q r.method i) = ⟨(named q r.method i).enter .reqPath, [.markUrl], .next⟩ := by
      show onReqSpacesBeforeUrl (chr '/') _ = _
      have hm : (named q r.method i).method ≠ .connect := r.notConnect
      unfold onReqSpacesBeforeUrl
      rw [if_neg (by decide), if_neg hm]
      rfl
    exact Head.byte hs rfl rfl he hup (by simp)
  obtain ⟨t, ht, h3⟩ := target_head (q := (named q r.method i).enter .reqPath) rfl he hup r.target
  have h4 := version_head (q := ((named q r.method i).enter .reqPath).enter t) ht he hup
  have hframed : Framed r.method false ullongMax { named q r.method i with state := .headerFieldStart, httpMajor := 1, httpMinor := 1 } :=
    ⟨.inl rfl, he, hup, rfl, rfl, rfl, rfl, rfl⟩
  obtain ⟨q5, h5, hf5⟩ := hframed.fields r.fields
  obtain ⟨q6, h6, hf6⟩ := sized_head r.sized hf5
  obtain ⟨q7, h7, hf7⟩ := hf6.fields r.more
  refine ⟨q7, ?_, hf7⟩
  have hall := h1.trans (h2.trans (h3.trans (h4.trans (h5.trans (h6.trans h7)))))
  rw [← methodString_eq] at hall
  simpa [Request.lines, Request.sizeLines, Request.message, Core.enter, named] using hall

/-! The end of a head, and the body. -/

theorem newMessage_keepAlive {sized : Bool} (hf : q.flags = { noFlags with contentlength := sized }) (h1 : q.httpMajor = 1)
    (h2 : q.httpMinor = 1) : newMessage q = .startReq := by
  simp [newMessage, httpShouldKeepAlive, hf, h1, h2, noFlags]

theorem onHeadersAlmostDone_framed {sized : Bool} (hf : q.flags = { noFlags with contentlength := sized })
    (hm : q.method ≠ .connect) (hup : q.upgrade = false) (h1 : q.httpMajor = 1) (h2 : q.httpMinor = 1) :
    onHeadersAlmostDone lf q =
      if q.contentLength = 0 ∨ q.contentLength = ullongMax then ⟨q.enter .startReq, [.clearNread, .messageComplete], .next⟩
      else ⟨q.enter .bodyIdentity, [.clearNread], .next⟩ := by
  have hsame : { q with state := .headersDone, upgrade := (q.flags.upgrade && q.flags.connectionUpgrade) || q.method = .connect } =
      q.enter .headersDone := by
    simp [Core.enter, hf, noFlags, hm, hup]
  unfold onHeadersAlmostDone
  rw [if_neg (not_not.mpr rfl), if_neg (by simp [hf, noFlags]), if_neg (by simp [hf, noFlags]), hsame]
  have hnew : newMessage (q.enter .headersDone) = .startReq := newMessage_keepAlive hf h1 h2
  have hup' : (q.enter .headersDone).upgrade = false := hup
  have hskip : (q.enter .headersDone).flags.skipbody = false := by simp [Core.enter, hf, noFlags]
  have hchunked : (q.enter .headersDone).flags.chunked = false := by simp [Core.enter, hf, noFlags]
  have hsize : (q.enter .headersDone).contentLength = q.contentLength := rfl
  unfold onHeadersDone
  simp only [hnew, hup', hskip, hchunked, hsize, ne_eq, not_true_eq_false, if_false, Bool.false_eq_true, false_and]
  split_ifs <;> first | rfl | simp_all

theorem body_guarded (hs : q.state = .bodyIdentity) (hup : q.upgrade = false) (hn : n ≤ httpMaxHeaderSize) (hx : xs ≠ [])
    (hlen : xs.length = q.contentLength) :
    guardedPass xs ⟨q, n⟩ =
      some (⟨(q.bodyBytes xs.length).enter (newMessage q), n⟩, xs.map Letter.body ++ [.messageComplete]) := by
  induction xs generalizing q with
  | nil => exact absurd rfl hx
  | cons ch xs ih =>
    have hcharge : charge ⟨q, n⟩ = n := by simp [charge, hs, parsingHeader]
    have hacts : .clearNread ∉ (onByte ch q).acts := by simp [onByte, hs, Core.next]
    have hone {q1 : Core} {ls : List Letter} (hstep : byteStep ch q = some (q1, ls)) (hup1 : q1.upgrade = false) :
        guardedPass [ch] ⟨q, n⟩ = some (⟨q1, n⟩, ls) := by
      refine Transducer.run_singleton.trans ?_
      unfold guardedStep
      rw [hcharge, if_pos ⟨hn, fun h => absurd (hs.symm.trans h) (fun h => by cases h)⟩, hstep, Option.bind_some, if_neg (by simp [hup1]),
        if_neg hacts]
    have hstep : byteStep ch q = some (
        if (q.bodyBytes 1).contentLength = 0 then ((bodyDone (q.bodyBytes 1)).1, .body ch :: (bodyDone (q.bodyBytes 1)).2)
        else (q.bodyBytes 1, [.body ch])) := by simp only [byteStep, hs]
    have hdone : bodyDone (q.bodyBytes 1) = ((q.bodyBytes 1).enter (newMessage q), [.messageComplete]) := if_pos hs
    cases xs with
    | nil =>
      have hzero : (q.bodyBytes 1).contentLength = 0 := by
        show q.contentLength - 1 = 0
        rw [← hlen]
        rfl
      rw [if_pos hzero, hdone] at hstep
      exact hone hstep hup
    | cons c xs =>
      have hne : ¬ (q.bodyBytes 1).contentLength = 0 := by
        show ¬ q.contentLength - 1 = 0
        rw [← hlen]
        simp
      rw [if_neg hne] at hstep
      have hrest := ih (q := q.bodyBytes 1) hs hup (List.cons_ne_nil _ _) (by
        show (c :: xs).length = q.contentLength - 1
        rw [← hlen]
        rfl)
      have hall := Transducer.run_trans (hone hstep hup) hrest
      have heq : ((q.bodyBytes 1).bodyBytes (c :: xs).length).enter (newMessage (q.bodyBytes 1)) =
          (q.bodyBytes (ch :: c :: xs).length).enter (newMessage q) := by
        simp only [Core.bodyBytes, Core.enter, Nat.sub_sub, List.length_cons, Nat.add_comm 1]
        rfl
      rw [heq] at hall
      exact hall

/-- A parser that waits for a request. -/
structure Ready (g : Parser) : Prop where
  state : g.state = .startReq
  errno : g.errno = .ok
  upgrade : g.upgrade = false
  nread : g.nread = 0

theorem Framed.last {sized : Bool} (h : Framed m sized n q) (hm : m ≠ .connect) {k : Nat} (hk : k + 4 ≤ httpMaxHeaderSize) :
    guardedPass [cr, lf] ⟨q, k⟩ = some (
      if n = 0 ∨ n = ullongMax then (⟨(lineStart q).enter .startReq, 0⟩, [.messageComplete])
      else (⟨(lineStart q).enter .bodyIdentity, 0⟩, [])) := by
  have h1 : Head [cr] q ((lineStart q).enter .headersAlmostDone) [] := by
    have hs : onByte cr q = ⟨(lineStart q).enter .headersAlmostDone, lineMarks q, .next⟩ := by
      rw [onByte_lineStart h.line (by decide) (by decide)]
      exact congrArg (Step.mk _ · _) (List.append_nil _)
    obtain ⟨hsilent, hcount⟩ := lineMarks_silent q
    have hbyte := Head.byte hs h.line.scans.1 h.line.scans.2 h.errno h.upgrade hcount
    rwa [stepLetters_silent hsilent (fun h => by cases h)] at hbyte
  have hs := onHeadersAlmostDone_framed (q := (lineStart q).enter .headersAlmostDone) h.flags (h.method ▸ hm) h.upgrade h.major h.minor
  have hsize : ((lineStart q).enter .headersAlmostDone).contentLength = n := h.size
  rw [hsize] at hs
  have h2 : guardedPass [lf] ⟨(lineStart q).enter .headersAlmostDone, k + 2⟩ = some (
      if n = 0 ∨ n = ullongMax then (⟨(lineStart q).enter .startReq, 0⟩, [.messageComplete])
      else (⟨(lineStart q).enter .bodyIdentity, 0⟩, [])) := by
    have hcharge : charge ⟨(lineStart q).enter .headersAlmostDone, k + 2⟩ = k + 4 := rfl
    have hstep : onByte lf ((lineStart q).enter .headersAlmostDone) = onHeadersAlmostDone lf ((lineStart q).enter .headersAlmostDone) := rfl
    have herr : (lineStart q).errno = .ok := h.errno
    have hup : (lineStart q).upgrade = false := h.upgrade
    refine Transducer.run_singleton.trans ?_
    unfold guardedStep
    rw [hcharge, if_pos ⟨hk, fun h => by cases h⟩, byteStep_of_not_scans rfl, hstep, hs]
    split_ifs <;> simp_all [Core.enter, stepLetters, Act.letters, phase]
  exact Transducer.run_trans (h1 k (by simp only [List.length_singleton]; omega)) h2

/-- One request. -/
theorem Request.guarded (r : Request) {g : Parser} (hg : Ready g) (hsmall : 2 * r.head.length ≤ httpMaxHeaderSize) :
    ∃ g', guardedPass r.wire g = some (g', r.message.letters) ∧ Ready g' := by
  obtain ⟨q, hlines, hframed⟩ := r.lines_head hg.state hg.errno hg.upgrade
  have hlen : r.head.length = r.lines.length + 2 := by simp [Request.head]
  have h1 := hlines 0 (by omega)
  rw [Nat.zero_add] at h1
  have h2 := hframed.last r.notConnect (k := 2 * r.lines.length) (by omega)
  obtain ⟨g0, n0⟩ := g
  obtain rfl : n0 = 0 := hg.nread
  have hwire : r.wire = r.lines ++ [cr, lf] ++ r.body := rfl
  have hend (hbody : r.body = []) (hn : r.sized.elim ullongMax (fun s => s.body.length) = 0 ∨
      r.sized.elim ullongMax (fun s => s.body.length) = ullongMax) :
      ∃ g', guardedPass r.wire ⟨g0, 0⟩ = some (g', r.message.letters) ∧ Ready g' := by
    rw [if_pos hn] at h2
    refine ⟨⟨(lineStart q).enter .startReq, 0⟩, ?_, ⟨rfl, hframed.errno, hframed.upgrade, rfl⟩⟩
    have hletters : r.message.letters =
        .messageBegin :: r.message.target.map (Letter.url r.method.kind) ++ [.messageComplete] := by
      have hb : r.message.body = [] := hbody
      simp only [Message.letters, hb, List.map_nil, List.append_nil]
      rfl
    rw [hwire, hbody, List.append_nil, hletters]
    exact Transducer.run_trans h1 h2
  cases hs : r.sized with
  | none => exact hend (by simp [Request.body, hs]) (.inr (by simp [hs]))
  | some s =>
    by_cases hb : s.body = []
    · exact hend (by simp [Request.body, hs, hb]) (.inl (by simp [hs, hb]))
    · have hbody : r.body = s.body := by simp [Request.body, hs]
      have hsize : r.sized.elim ullongMax (fun s => s.body.length) = s.body.length := by rw [hs]; rfl
      have hpos := List.length_pos_iff.mpr hb
      have hshort := s.short
      have hn : ¬ (s.body.length = 0 ∨ s.body.length = ullongMax) := by
        unfold ullongMax
        omega
      rw [hsize, if_neg hn] at h2
      have hlength : s.body.length = ((lineStart q).enter .bodyIdentity).contentLength :=
        (hsize.symm.trans hframed.size.symm)
      have h3 := body_guarded (q := (lineStart q).enter .bodyIdentity) (n := 0) rfl hframed.upgrade (Nat.zero_le _) hb hlength
      have hnew : newMessage ((lineStart q).enter .bodyIdentity) = .startReq :=
        newMessage_keepAlive hframed.flags hframed.major hframed.minor
      rw [hnew] at h3
      refine ⟨⟨(((lineStart q).enter .bodyIdentity).bodyBytes s.body.length).enter .startReq, 0⟩, ?_,
        ⟨rfl, hframed.errno, hframed.upgrade, rfl⟩⟩
      have hletters : r.message.letters =
          .messageBegin :: r.message.target.map (Letter.url r.method.kind) ++ [] ++ (s.body.map Letter.body ++ [.messageComplete]) := by
        have hb : r.message.body = s.body := hbody
        simp only [Message.letters, hb, List.append_nil, List.append_assoc]
        rfl
      rw [hwire, hbody, hletters]
      exact Transducer.run_trans (Transducer.run_trans h1 h2) h3

/-- Requests, one behind the other. -/
theorem requests_guarded (rs : List Request) {g : Parser} (hg : Ready g)
    (hsmall : ∀ r ∈ rs, 2 * r.head.length ≤ httpMaxHeaderSize) :
    ∃ g', guardedPass (rs.flatMap Request.wire) g = some (g', rs.flatMap (fun r => r.message.letters)) ∧ Ready g' := by
  induction rs generalizing g with
  | nil => exact ⟨g, rfl, hg⟩
  | cons r rs ih =>
    obtain ⟨g1, h1, hg1⟩ := r.guarded hg (hsmall r (List.mem_cons_self ..))
    obtain ⟨g2, h2, hg2⟩ := ih hg1 (fun r hr => hsmall r (List.mem_cons_of_mem _ hr))
    exact ⟨g2, Transducer.run_trans h1 h2, hg2⟩

/-- Requests whose heads have no more than half the limit are read as they were written, whatever
cuts the network makes, and the parser waits for the next one. -/
theorem deliver_requests (rs : List Request) (ds : List Delivery) (hsmall : ∀ r ∈ rs, 2 * r.head.length ≤ httpMaxHeaderSize)
    (hds : ∀ d ∈ ds, d.data ≠ []) (hb : bytesOf ds = rs.flatMap Request.wire) :
    letters (deliver httpParserInit ds).2 = rs.flatMap (fun r => r.message.letters) ∧
      (deliver httpParserInit ds).1.errno = .ok ∧ (deliver httpParserInit ds).1.state = .startReq := by
  obtain ⟨g', hpass, hready⟩ := requests_guarded rs (g := httpParserInit) ⟨rfl, rfl, rfl, rfl⟩ hsmall
  have hreached : Reached httpParserInit httpParserInit :=
    ⟨⟨⟨trivial, Nat.zero_le _⟩, fun h => by cases h⟩, rfl, rfl, le_rfl, Nat.zero_le _, rfl⟩
  rw [← hb] at hpass
  obtain ⟨-, hr, hl⟩ := deliver_guarded hds hreached hpass
  refine ⟨hl, hr.errno, ?_⟩
  rw [← hready.state, hr.core]

/-- The field `Host:a`. -/
def hostField : Field where
  name := [72, 111, 115, 116]
  value := [97]
  ne := List.cons_ne_nil _ _
  token := by decide +kernel
  other k := by
    rw [Known.name_eq]
    cases k <;> exact fun h => by cases h
  text ch hch := by
    obtain rfl := List.mem_singleton.mp hch
    decide

/-- A PUT to `/c` with a field and a body of two bytes. -/
def putRequest : Request where
  method := .put
  path := [99]
  fields := [hostField]
  sized := some {
    name := [99, 111, 110, 116, 101, 110, 116, 45, 108, 101, 110, 103, 116, 104]
    body := [97, 98]
    known := by
      rw [Known.name_eq]
      decide +kernel
    short := by decide }
  more := []
  notConnect := fun h => by cases h
  target c hc := by
    obtain rfl := List.mem_singleton.mp hc
    decide

/-- A GET of `/`. -/
def slashRequest : Request where
  method := .get
  path := []
  fields := []
  sized := none
  more := [hostField]
  notConnect := fun h => by cases h
  target := fun _ h => by cases h

def putWire : Bytes :=
  [80, 85, 84, 32, 47, 99, 32, 72, 84, 84, 80, 47, 49, 46, 49, 13, 10, 72, 111, 115, 116, 58, 97, 13, 10,
    99, 111, 110, 116, 101, 110, 116, 45, 108, 101, 110, 103, 116, 104, 58, 32, 50, 13, 10, 13, 10, 97, 98]

def slashWire : Bytes :=
  [71, 69, 84, 32, 47, 32, 72, 84, 84, 80, 47, 49, 46, 49, 13, 10, 72, 111, 115, 116, 58, 97, 13, 10, 13, 10]

theorem putRequest_wire : putRequest.wire = putWire := by
  unfold Request.wire Request.head Request.lines
  rw [methodString_eq]
  have hdecimal : decimal 2 = [50] := decimal_of_lt (by decide)
  simp only [putRequest, Request.sizeLines, Option.elim, sizeLine, List.length_cons, List.length_nil, hdecimal]
  rfl

theorem slashRequest_wire : slashRequest.wire = slashWire := by
  unfold Request.wire Request.head Request.lines
  rw [methodString_eq]
  rfl

/-- Two requests in three reads: the cuts go through a field of the first and through its body. -/
def threeReads : List Delivery :=
  [⟨putWire.take 19, []⟩, ⟨(putWire.drop 19).take 28, []⟩, ⟨putWire.drop 47 ++ slashWire, []⟩]

theorem deliver_requests_put :
    letters (deliver httpParserInit threeReads).2 =
        [putRequest, slashRequest].flatMap (fun r => r.message.letters) ∧
      (deliver httpParserInit threeReads).1.errno = .ok ∧
        (deliver httpParserInit threeReads).1.state = .startReq := by
  refine deliver_requests [putRequest, slashRequest] threeReads ?_ ?_ ?_
  · have hlong (r : Request) (n : Nat) (h : r.wire.length = n) : r.head.length ≤ n := by
      rw [← h, Request.wire, List.length_append]
      exact Nat.le_add_right ..
    intro r hr
    have hr : r = putRequest ∨ r = slashRequest := by simpa using hr
    rcases hr with rfl | rfl
    · exact (Nat.mul_le_mul_left 2 (hlong _ 48 (by rw [putRequest_wire]; rfl))).trans (by decide)
    · exact (Nat.mul_le_mul_left 2 (hlong _ 26 (by rw [slashRequest_wire]; rfl))).trans (by decide)
  · simp [threeReads, putWire]
  · simp only [List.flatMap_cons, List.flatMap_nil, putRequest_wire, slashRequest_wire]
    rfl

end ArduinoHomeKit.HttpMachine
