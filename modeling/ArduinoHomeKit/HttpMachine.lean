import ArduinoHomeKit.Server

/-! The vendored HTTP parser, http_parser_execute, as it reads requests: strict mode, no lenient
headers, and only the callbacks that the server registers. -/

namespace ArduinoHomeKit.HttpMachine

def chr (c : Char) : UInt8 := UInt8.ofNat c.toNat

abbrev cr : UInt8 := 13
abbrev lf : UInt8 := 10

/-! Character classes. -/

def lower (c : UInt8) : UInt8 := c ||| 0x20

def isAlpha (c : UInt8) : Bool := chr 'a' ≤ lower c && lower c ≤ chr 'z'

def isNum (c : UInt8) : Bool := chr '0' ≤ c && c ≤ chr '9'

def isMark (c : UInt8) : Bool := ['-', '_', '.', '!', '~', '*', '\'', '(', ')'].any (fun m => c == chr m)

def isUserinfoChar (c : UInt8) : Bool :=
  isAlpha c || isNum c || isMark c || ['%', ';', ':', '&', '=', '+', '$', ','].any (fun m => c == chr m)

/-- The table `tokens`: 0, or the character in lower case. -/
def token (c : UInt8) : UInt8 :=
  if chr 'A' ≤ c ∧ c ≤ chr 'Z' then c + 32
  else if isAlpha c || isNum c || ['!', '#', '$', '%', '&', '\'', '*', '+', '-', '.', '^', '_', '`', '|', '~'].any
      (fun m => c == chr m) then c
  else 0

/-- The table `normal_url_char` in strict mode. -/
def isUrlChar (c : UInt8) : Bool := 32 < c && c < 127 && c != chr '#' && c != chr '?'

def isHeaderChar (c : UInt8) : Bool := c == cr || c == lf || c == 9 || (31 < c && c != 127)

/-- The table `unhex`. Its initialiser ends at 127, so that the entries behind are 0. -/
def unhex (c : UInt8) : Option Nat :=
  if isNum c then some (c.toNat - 48)
  else if chr 'A' ≤ c ∧ c ≤ chr 'F' then some (c.toNat - 55)
  else if chr 'a' ≤ c ∧ c ≤ chr 'f' then some (c.toNat - 87)
  else if 128 ≤ c then some 0
  else none

/-! The parser. -/

inductive Method
  | delete | get | head | post | put | connect | options | trace | copy | lock | mkcol | move | propfind
  | proppatch | search | unlock | bind | rebind | unbind | acl | report | mkactivity | checkout | merge | msearch
  | notify | subscribe | unsubscribe | patch | purge | mkcalendar | link | unlink
  deriving DecidableEq

/-- `method_strings`. -/
def methodString : Method → Bytes
  | .delete => ascii "DELETE"
  | .get => ascii "GET"
  | .head => ascii "HEAD"
  | .post => ascii "POST"
  | .put => ascii "PUT"
  | .connect => ascii "CONNECT"
  | .options => ascii "OPTIONS"
  | .trace => ascii "TRACE"
  | .copy => ascii "COPY"
  | .lock => ascii "LOCK"
  | .mkcol => ascii "MKCOL"
  | .move => ascii "MOVE"
  | .propfind => ascii "PROPFIND"
  | .proppatch => ascii "PROPPATCH"
  | .search => ascii "SEARCH"
  | .unlock => ascii "UNLOCK"
  | .bind => ascii "BIND"
  | .rebind => ascii "REBIND"
  | .unbind => ascii "UNBIND"
  | .acl => ascii "ACL"
  | .report => ascii "REPORT"
  | .mkactivity => ascii "MKACTIVITY"
  | .checkout => ascii "CHECKOUT"
  | .merge => ascii "MERGE"
  | .msearch => ascii "M-SEARCH"
  | .notify => ascii "NOTIFY"
  | .subscribe => ascii "SUBSCRIBE"
  | .unsubscribe => ascii "UNSUBSCRIBE"
  | .patch => ascii "PATCH"
  | .purge => ascii "PURGE"
  | .mkcalendar => ascii "MKCALENDAR"
  | .link => ascii "LINK"
  | .unlink => ascii "UNLINK"

/-- What the url callback compares `parser->method` with. -/
def Method.kind : Method → HttpMethod
  | .get => .get
  | .post => .post
  | .put => .put
  | _ => .other

/-- The states of a parser of requests. -/
inductive State
  | dead | startReq | reqMethod | reqSpacesBeforeUrl | reqSchema | reqSchemaSlash | reqSchemaSlashSlash
  | reqServerStart | reqServer | reqServerWithAt | reqPath | reqQueryStringStart | reqQueryString
  | reqFragmentStart | reqFragment | reqHttpStart | reqHttpH | reqHttpHT | reqHttpHTT | reqHttpHTTP
  | reqFirstHttpMajor | reqHttpMajor | reqFirstHttpMinor | reqHttpMinor | reqLineAlmostDone
  | headerFieldStart | headerField | headerValueDiscardWs | headerValueDiscardWsAlmostDone
  | headerValueDiscardLws | headerValueStart | headerValue | headerValueLws | headerAlmostDone
  | chunkSizeStart | chunkSize | chunkParameters | chunkSizeAlmostDone | headersAlmostDone | headersDone
  | chunkData | chunkDataAlmostDone | chunkDataDone | bodyIdentity | messageDone
  deriving DecidableEq

/-- `PARSING_HEADER`. -/
def parsingHeader : State → Bool
  | .chunkData | .chunkDataAlmostDone | .chunkDataDone | .bodyIdentity | .messageDone => false
  | _ => true

/-- The states in which a call starts with `url_mark` at the start of its data. -/
def inUrl : State → Bool
  | .reqPath | .reqSchema | .reqSchemaSlash | .reqSchemaSlashSlash | .reqServerStart | .reqServer
  | .reqServerWithAt | .reqQueryStringStart | .reqQueryString | .reqFragmentStart | .reqFragment => true
  | _ => false

inductive HeaderState
  | general | c | co | con | matchingConnection | matchingProxyConnection | matchingContentLength
  | matchingTransferEncoding | matchingUpgrade | connection | contentLength | transferEncoding | upgrade
  | matchingTransferEncodingChunked | matchingConnectionTokenStart | matchingConnectionKeepAlive
  | matchingConnectionClose | matchingConnectionUpgrade | matchingConnectionToken | transferEncodingChunked
  | connectionKeepAlive | connectionClose | connectionUpgrade
  deriving DecidableEq

inductive Errno
  | ok | invalidEofState | headerOverflow | closedConnection | invalidVersion | invalidMethod | invalidUrl
  | lfExpected | invalidHeaderToken | invalidContentLength | unexpectedContentLength | invalidChunkSize
  | invalidConstant | strict
  deriving DecidableEq

structure Flags where
  chunked : Bool
  connectionKeepAlive : Bool
  connectionClose : Bool
  connectionUpgrade : Bool
  trailing : Bool
  upgrade : Bool
  skipbody : Bool
  contentlength : Bool
  deriving DecidableEq

def noFlags : Flags := ⟨false, false, false, false, false, false, false, false⟩

/-- The fields of the parser without `nread` and without what only responses use. -/
structure Core where
  state : State
  headerState : HeaderState
  flags : Flags
  index : Nat
  contentLength : Nat
  httpMajor : Nat
  httpMinor : Nat
  method : Method
  errno : Errno
  upgrade : Bool
  deriving DecidableEq

/-- The states count the bytes of a header in `nread` and never look at it. -/
structure Parser extends Core where
  nread : Nat
  deriving DecidableEq

/-- http_parser_init for requests. -/
def httpParserInit : Parser :=
  { state := .startReq, headerState := .general, flags := noFlags, index := 0, nread := 0, contentLength := 0,
    httpMajor := 0, httpMinor := 0, method := .delete, errno := .ok, upgrade := false }

def ullongMax : Nat := 2 ^ 64 - 1

def httpMaxHeaderSize : Nat := 80 * 1024

/-- A request never needs to be ended by EOF. -/
def httpShouldKeepAlive (q : Core) : Bool :=
  if 0 < q.httpMajor ∧ 0 < q.httpMinor then !q.flags.connectionClose else q.flags.connectionKeepAlive

/-- `NEW_MESSAGE`. -/
def newMessage (q : Core) : State := if httpShouldKeepAlive q then .startReq else .dead

/-- parse_url_char. -/
def parseUrlChar (s : State) (ch : UInt8) : State :=
  if ch = chr ' ' ∨ ch = cr ∨ ch = lf ∨ ch = 9 ∨ ch = 12 then .dead
  else
    match s with
    | .reqSpacesBeforeUrl =>
      if ch = chr '/' ∨ ch = chr '*' then .reqPath else if isAlpha ch then .reqSchema else .dead
    | .reqSchema => if isAlpha ch then .reqSchema else if ch = chr ':' then .reqSchemaSlash else .dead
    | .reqSchemaSlash => if ch = chr '/' then .reqSchemaSlashSlash else .dead
    | .reqSchemaSlashSlash => if ch = chr '/' then .reqServerStart else .dead
    | .reqServerWithAt | .reqServerStart | .reqServer =>
      if s = .reqServerWithAt ∧ ch = chr '@' then .dead
      else if ch = chr '/' then .reqPath
      else if ch = chr '?' then .reqQueryStringStart
      else if ch = chr '@' then .reqServerWithAt
      else if isUserinfoChar ch || ch = chr '[' || ch = chr ']' then .reqServer
      else .dead
    | .reqPath =>
      if isUrlChar ch then .reqPath
      else if ch = chr '?' then .reqQueryStringStart
      else if ch = chr '#' then .reqFragmentStart
      else .dead
    | .reqQueryStringStart | .reqQueryString =>
      if isUrlChar ch || ch = chr '?' then .reqQueryString
      else if ch = chr '#' then .reqFragmentStart
      else .dead
    | .reqFragmentStart =>
      if isUrlChar ch || ch = chr '?' then .reqFragment
      else if ch = chr '#' then .reqFragmentStart
      else .dead
    | .reqFragment => if isUrlChar ch || ch = chr '?' || ch = chr '#' then .reqFragment else .dead
    | _ => .dead

/-! What a state does with a byte. -/

/-- The macros that a state uses besides `UPDATE_STATE`. -/
inductive Act
  | messageBegin
  | markUrl
  | callbackUrl
  | markHeaderField
  | markHeaderValue
  | callbackHeaderValue
  | callbackBody
  | messageComplete
  | chunkHeader
  | chunkComplete
  | clearNread
  deriving DecidableEq

/-- The macros that assert that there is no error, whether or not the server has a callback. -/
def Act.isCallback : Act → Bool
  | .markUrl | .markHeaderField | .markHeaderValue | .clearNread => false
  | _ => true

/-- A failed assertion aborts the program. -/
inductive Flow
  | next
  | stop
  | abort
  deriving DecidableEq

structure Step where
  core : Core
  acts : List Act
  flow : Flow

/-- A step behind the macros in front of it. -/
def Step.behind (acts : List Act) (s : Step) : Step := { s with acts := acts ++ s.acts }

namespace Core

def enter (q : Core) (s : State) : Core := { q with state := s }

/-- `break`. -/
def next (q : Core) : Step := ⟨q, [], .next⟩

/-- `SET_ERRNO` and `goto error`. -/
def fail (q : Core) (e : Errno) : Step := ⟨{ q with errno := e }, [], .stop⟩

end Core

/-! The states that end a message. -/

/-- The message is complete; with an upgrade the rest of the data is another protocol's. -/
def onMessageDone (q : Core) : Step :=
  ⟨q.enter (newMessage q), [.messageComplete], if q.upgrade then .stop else .next⟩

def onHeadersDone (ch : UInt8) (q : Core) : Step :=
  if ch ≠ lf then q.fail .strict
  else
    let hasBody := q.flags.chunked || (0 < q.contentLength && q.contentLength ≠ ullongMax)
    let complete := ⟨q.enter (newMessage q), [.clearNread, .messageComplete], .next⟩
    if q.upgrade ∧ (q.method = .connect ∨ q.flags.skipbody ∨ hasBody = false) then { complete with flow := .stop }
    else if q.flags.skipbody then complete
    else if q.flags.chunked then ⟨q.enter .chunkSizeStart, [.clearNread], .next⟩
    else if q.contentLength = 0 then complete
    else if q.contentLength ≠ ullongMax then ⟨q.enter .bodyIdentity, [.clearNread], .next⟩
    else complete

def onHeadersAlmostDone (ch : UInt8) (q : Core) : Step :=
  if ch ≠ lf then q.fail .strict
  else if q.flags.trailing then (onMessageDone (q.enter .messageDone)).behind [.chunkComplete]
  else if q.flags.chunked ∧ q.flags.contentlength then q.fail .unexpectedContentLength
  else
    onHeadersDone ch
      { q with
        state := .headersDone
        upgrade := (q.flags.upgrade && q.flags.connectionUpgrade) || q.method = .connect }

/-! Header fields. -/

def firstHeaderState (c : UInt8) : HeaderState :=
  if c = chr 'c' then .c
  else if c = chr 'p' then .matchingProxyConnection
  else if c = chr 't' then .matchingTransferEncoding
  else if c = chr 'u' then .matchingUpgrade
  else .general

def onHeaderFieldStart (ch : UInt8) (q : Core) : Step :=
  if ch = cr then (q.enter .headersAlmostDone).next
  else if ch = lf then onHeadersAlmostDone ch (q.enter .headersAlmostDone)
  else if token ch = 0 then q.fail .invalidHeaderToken
  else
    ⟨{ q with index := 0, state := .headerField, headerState := firstHeaderState (token ch) }, [.markHeaderField], .next⟩

/-- The comparison with one name, `sizeof(NAME) - 1` being its length. -/
def matchName (name : Bytes) (found failed : HeaderState) (c : UInt8) (q : Core) : Core :=
  let index := q.index + 1
  { q with
    index := index
    headerState :=
      if name.length < index ∨ c ≠ name.getD index 0 then failed
      else if index = name.length - 1 then found
      else q.headerState }

/-- One character of a header field. Nothing is the failed assertion of an unknown state. -/
def headerFieldChar (ch : UInt8) (q : Core) : Option Core :=
  let c := token ch
  match q.headerState with
  | .general => some q
  | .c => some { q with index := q.index + 1, headerState := if c = chr 'o' then .co else .general }
  | .co => some { q with index := q.index + 1, headerState := if c = chr 'n' then .con else .general }
  | .con =>
    some
      { q with
        index := q.index + 1
        headerState :=
          if c = chr 'n' then .matchingConnection else if c = chr 't' then .matchingContentLength else .general }
  | .matchingConnection => some (matchName (ascii "connection") .connection .general c q)
  | .matchingProxyConnection => some (matchName (ascii "proxy-connection") .connection .general c q)
  | .matchingContentLength => some (matchName (ascii "content-length") .contentLength .general c q)
  | .matchingTransferEncoding => some (matchName (ascii "transfer-encoding") .transferEncoding .general c q)
  | .matchingUpgrade => some (matchName (ascii "upgrade") .upgrade .general c q)
  | .connection | .contentLength | .transferEncoding | .upgrade =>
    some (if ch ≠ chr ' ' then { q with headerState := .general } else q)
  | _ => none

/-- The loop over a header field: what is left at its end, and the parser. -/
def scanHeaderField : Bytes → Core → Option (Bytes × Core)
  | [], q => some ([], q)
  | ch :: rest, q =>
    if token ch = 0 then some (ch :: rest, q) else (headerFieldChar ch q).bind (scanHeaderField rest)

/-! Header values. -/

def connectionState (c : UInt8) (otherwise : HeaderState) : HeaderState :=
  if c = chr 'k' then .matchingConnectionKeepAlive
  else if c = chr 'c' then .matchingConnectionClose
  else if c = chr 'u' then .matchingConnectionUpgrade
  else otherwise

/-- The switch over the field that the value belongs to. -/
def firstValueChar (ch : UInt8) (q : Core) : Step :=
  let c := lower ch
  match q.headerState with
  | .upgrade => Core.next { q with flags := { q.flags with upgrade := true }, headerState := .general }
  | .transferEncoding =>
    Core.next { q with headerState := if c = chr 'c' then .matchingTransferEncodingChunked else .general }
  | .contentLength =>
    if isNum ch = false then q.fail .invalidContentLength
    else if q.flags.contentlength then q.fail .unexpectedContentLength
    else Core.next { q with flags := { q.flags with contentlength := true }, contentLength := ch.toNat - 48 }
  | .connection => Core.next { q with headerState := connectionState c .matchingConnectionToken }
  | .matchingConnectionTokenStart => q.next
  | _ => Core.next { q with headerState := .general }

def onHeaderValueStart (ch : UInt8) (q : Core) : Step :=
  (firstValueChar ch { q with state := .headerValue, index := 0 }).behind [.markHeaderValue]

def onHeaderValueDiscardWs (ch : UInt8) (q : Core) : Step :=
  if ch = chr ' ' ∨ ch = 9 then q.next
  else if ch = cr then (q.enter .headerValueDiscardWsAlmostDone).next
  else if ch = lf then (q.enter .headerValueDiscardLws).next
  else onHeaderValueStart ch q

/-- What the end of a header leaves in the flags. -/
def finishHeader (q : Core) : Flags :=
  match q.headerState with
  | .connectionKeepAlive => { q.flags with connectionKeepAlive := true }
  | .connectionClose => { q.flags with connectionClose := true }
  | .transferEncodingChunked => { q.flags with chunked := true }
  | .connectionUpgrade => { q.flags with connectionUpgrade := true }
  | _ => q.flags

def onHeaderValueLws (ch : UInt8) (q : Core) : Step :=
  if ch = chr ' ' ∨ ch = 9 then onHeaderValueStart ch (q.enter .headerValueStart)
  else onHeaderFieldStart ch { q with flags := finishHeader q, state := .headerFieldStart }

/-- Where the line does not go on, the value was empty. -/
def onHeaderValueDiscardLws (ch : UInt8) (q : Core) : Step :=
  if ch = chr ' ' ∨ ch = 9 then (q.enter .headerValueDiscardWs).next
  else
    (onHeaderFieldStart ch { q with flags := finishHeader q, state := .headerFieldStart }).behind
      [.markHeaderValue, .callbackHeaderValue]

def onHeaderAlmostDone (ch : UInt8) (q : Core) : Step :=
  if ch ≠ lf then q.fail .lfExpected else (q.enter .headerValueLws).next

/-- A list of connection tokens goes on behind a comma. -/
def connectionListed (ch : UInt8) (flags : Flags) (q : Core) : Core :=
  if ch = chr ',' then { q with flags := flags, headerState := .matchingConnectionTokenStart, index := 0 }
  else if ch ≠ chr ' ' then { q with headerState := .matchingConnectionToken }
  else q

/-- Why the loop over a header value is left early. -/
inductive Halt
  | error (e : Errno)
  | abort

/-- One character of a header value, `h_state` being kept in the parser. -/
def headerValueChar (ch : UInt8) (q : Core) : Except Halt Core :=
  let c := lower ch
  match q.headerState with
  | .contentLength =>
    if ch = chr ' ' then .ok q
    else if isNum ch = false then .error (.error .invalidContentLength)
    else if (ullongMax - 10) / 10 < q.contentLength then .error (.error .invalidContentLength)
    else .ok { q with contentLength := q.contentLength * 10 + (ch.toNat - 48) }
  | .matchingTransferEncodingChunked => .ok (matchName (ascii "chunked") .transferEncodingChunked .general c q)
  | .matchingConnectionTokenStart =>
    .ok
      { q with
        headerState :=
          connectionState c
            (if token c ≠ 0 then .matchingConnectionToken
            else if c = chr ' ' ∨ c = 9 then .matchingConnectionTokenStart
            else .general) }
  | .matchingConnectionKeepAlive =>
    .ok (matchName (ascii "keep-alive") .connectionKeepAlive .matchingConnectionToken c q)
  | .matchingConnectionClose => .ok (matchName (ascii "close") .connectionClose .matchingConnectionToken c q)
  | .matchingConnectionUpgrade => .ok (matchName (ascii "upgrade") .connectionUpgrade .matchingConnectionToken c q)
  | .matchingConnectionToken =>
    .ok (if ch = chr ',' then { q with headerState := .matchingConnectionTokenStart, index := 0 } else q)
  | .transferEncodingChunked => .ok (if ch ≠ chr ' ' then { q with headerState := .general } else q)
  | .connectionKeepAlive => .ok (connectionListed ch { q.flags with connectionKeepAlive := true } q)
  | .connectionClose => .ok (connectionListed ch { q.flags with connectionClose := true } q)
  | .connectionUpgrade => .ok (connectionListed ch { q.flags with connectionUpgrade := true } q)
  | .connection | .transferEncoding => .error .abort
  | .general => .ok q
  | _ => .ok { q with headerState := .general }

/-- The two calls of memchr for a value that is of no interest: the first CR or LF within
HTTP_MAX_HEADER_SIZE bytes, or the end of the data. -/
def skipValue (data : Bytes) : Bytes :=
  let line := (data.take httpMaxHeaderSize).takeWhile (fun c => c ≠ cr ∧ c ≠ lf)
  if line.length = min data.length httpMaxHeaderSize then [] else data.drop line.length

/-- The loop over a header value. It ends in front of a CR or LF, at the end of the data or
with an error. -/
def scanHeaderValue : Bytes → Core → Bytes × Core × Option Halt
  | [], q => ([], q, none)
  | ch :: rest, q =>
    if ch = cr ∨ ch = lf then (ch :: rest, q, none)
    else if isHeaderChar ch = false then (ch :: rest, q, some (.error .invalidHeaderToken))
    else if q.headerState = .general then (skipValue (ch :: rest), q, none)
    else
      match headerValueChar ch q with
      | .error e => (ch :: rest, q, some e)
      | .ok q => scanHeaderValue rest q

/-! Chunks. -/

def onChunkSizeStart (ch : UInt8) (q : Core) : Step :=
  match unhex ch with
  | none => q.fail .invalidChunkSize
  | some value => Core.next { q with contentLength := value, state := .chunkSize }

def onChunkSize (ch : UInt8) (q : Core) : Step :=
  if ch = cr then (q.enter .chunkSizeAlmostDone).next
  else
    match unhex ch with
    | none => if ch = chr ';' ∨ ch = chr ' ' then (q.enter .chunkParameters).next else q.fail .invalidChunkSize
    | some value =>
      if (ullongMax - 16) / 16 < q.contentLength then q.fail .invalidContentLength
      else Core.next { q with contentLength := q.contentLength * 16 + value }

def onChunkSizeAlmostDone (ch : UInt8) (q : Core) : Step :=
  if ch ≠ lf then q.fail .strict
  else if q.contentLength = 0 then
    ⟨{ q with flags := { q.flags with trailing := true }, state := .headerFieldStart }, [.clearNread, .chunkHeader], .next⟩
  else ⟨q.enter .chunkData, [.clearNread, .chunkHeader], .next⟩

/-! The request line. -/

def firstMethod (ch : UInt8) : Option Method :=
  [('A', Method.acl), ('B', .bind), ('C', .connect), ('D', .delete), ('G', .get), ('H', .head), ('L', .lock),
    ('M', .mkcol), ('N', .notify), ('O', .options), ('P', .post), ('R', .report), ('S', .subscribe), ('T', .trace),
    ('U', .unlock)].find? (fun m => ch == chr m.1) |>.map Prod.snd

def onStartReq (ch : UInt8) (q : Core) : Step :=
  if ch = cr ∨ ch = lf then q.next
  else
    let q := { q with flags := noFlags, contentLength := ullongMax }
    if isAlpha ch = false then q.fail .invalidMethod
    else
      match firstMethod ch with
      | none => Core.fail { q with method := .delete, index := 1 } .invalidMethod
      | some method => ⟨{ q with method := method, index := 1, state := .reqMethod }, [.messageBegin], .next⟩

/-- The methods that are told apart by a later character. -/
def laterMethod (m : Method) (index : Nat) (ch : UInt8) : Option Method :=
  [(Method.post, 1, 'U', Method.put), (.post, 1, 'A', .patch), (.connect, 1, 'H', .checkout),
    (.connect, 2, 'P', .copy), (.mkcol, 1, 'O', .move), (.mkcol, 1, 'E', .merge), (.mkcol, 2, 'A', .mkactivity),
    (.mkcol, 3, 'A', .mkcalendar), (.subscribe, 1, 'E', .search), (.report, 2, 'B', .rebind),
    (.post, 1, 'R', .propfind), (.propfind, 4, 'P', .proppatch), (.put, 2, 'R', .purge), (.lock, 1, 'I', .link),
    (.unlock, 2, 'S', .unsubscribe), (.unlock, 2, 'B', .unbind), (.unlock, 3, 'I', .unlink)].find?
      (fun x => m == x.1 && index == x.2.1 && ch == chr x.2.2.1) |>.map (fun x => x.2.2.2)

def onReqMethod (ch : UInt8) (q : Core) : Step :=
  let expected := (methodString q.method).getD q.index 0
  let go (q : Core) : Step := Core.next { q with index := q.index + 1 }
  if ch = 0 then q.fail .invalidMethod
  else if ch = chr ' ' ∧ expected = 0 then go (q.enter .reqSpacesBeforeUrl)
  else if ch = expected then go q
  else if isAlpha ch then
    match laterMethod q.method q.index ch with
    | some method => go { q with method := method }
    | none => q.fail .invalidMethod
  else if ch = chr '-' ∧ q.index = 1 ∧ q.method = .mkcol then go { q with method := .msearch }
  else q.fail .invalidMethod

/-- UPDATE_STATE(parse_url_char(...)), which refuses what leads to s_dead. -/
def urlChar (s : State) (ch : UInt8) (acts : List Act) (q : Core) : Step :=
  let q := q.enter (parseUrlChar s ch)
  if q.state = .dead then q.fail .invalidUrl else ⟨q, acts, .next⟩

def onReqSpacesBeforeUrl (ch : UInt8) (q : Core) : Step :=
  if ch = chr ' ' then q.next
  else urlChar (if q.method = .connect then .reqServerStart else .reqSpacesBeforeUrl) ch [.markUrl] q

def onUrlScheme (ch : UInt8) (q : Core) : Step :=
  if ch = chr ' ' ∨ ch = cr ∨ ch = lf then q.fail .invalidUrl else urlChar q.state ch [] q

def onUrl (ch : UInt8) (q : Core) : Step :=
  if ch = chr ' ' then ⟨q.enter .reqHttpStart, [.callbackUrl], .next⟩
  else if ch = cr ∨ ch = lf then
    ⟨{ q with
        httpMajor := 0
        httpMinor := 9
        state := if ch = cr then .reqLineAlmostDone else .headerFieldStart }, [.callbackUrl], .next⟩
  else urlChar q.state ch [] q

def onReqHttpStart (ch : UInt8) (q : Core) : Step :=
  if ch = chr 'H' then (q.enter .reqHttpH).next
  else if ch = chr ' ' then q.next
  else q.fail .invalidConstant

/-- STRICT_CHECK(ch != expected). -/
def strictly (expected ch : UInt8) (s : State) (q : Core) : Step :=
  if ch ≠ expected then q.fail .strict else (q.enter s).next

/-- A digit of a version, behind the first one. -/
def versionDigit (value : Nat) (ch : UInt8) : Option Nat :=
  if isNum ch ∧ value * 10 + (ch.toNat - 48) ≤ 999 then some (value * 10 + (ch.toNat - 48)) else none

def onReqFirstHttpMajor (ch : UInt8) (q : Core) : Step :=
  if ch < chr '1' ∨ chr '9' < ch then q.fail .invalidVersion
  else Core.next { q with httpMajor := ch.toNat - 48, state := .reqHttpMajor }

def onReqHttpMajor (ch : UInt8) (q : Core) : Step :=
  if ch = chr '.' then (q.enter .reqFirstHttpMinor).next
  else
    match versionDigit q.httpMajor ch with
    | some value => Core.next { q with httpMajor := value }
    | none => q.fail .invalidVersion

def onReqFirstHttpMinor (ch : UInt8) (q : Core) : Step :=
  if isNum ch = false then q.fail .invalidVersion
  else Core.next { q with httpMinor := ch.toNat - 48, state := .reqHttpMinor }

def onReqHttpMinor (ch : UInt8) (q : Core) : Step :=
  if ch = cr then (q.enter .reqLineAlmostDone).next
  else if ch = lf then (q.enter .headerFieldStart).next
  else
    match versionDigit q.httpMinor ch with
    | some value => Core.next { q with httpMinor := value }
    | none => q.fail .invalidVersion

/-- The assertions in front of the states. -/
def asserted (q : Parser) : Bool :=
  match q.state with
  | .chunkSizeStart => q.nread == 1 && q.flags.chunked
  | .chunkSize | .chunkParameters | .chunkSizeAlmostDone | .chunkDataDone => q.flags.chunked
  | .chunkDataAlmostDone => q.flags.chunked && q.contentLength == 0
  | .chunkData => q.flags.chunked && q.contentLength != 0 && q.contentLength != ullongMax
  | .bodyIdentity => q.contentLength != 0 && q.contentLength != ullongMax
  | _ => true

/-- The states that look at one byte. -/
def onByte (ch : UInt8) (q : Core) : Step :=
  match q.state with
  | .dead => if ch = cr ∨ ch = lf then q.next else q.fail .closedConnection
  | .startReq => onStartReq ch q
  | .reqMethod => onReqMethod ch q
  | .reqSpacesBeforeUrl => onReqSpacesBeforeUrl ch q
  | .reqSchema | .reqSchemaSlash | .reqSchemaSlashSlash | .reqServerStart => onUrlScheme ch q
  | .reqServer | .reqServerWithAt | .reqPath | .reqQueryStringStart | .reqQueryString | .reqFragmentStart
  | .reqFragment => onUrl ch q
  | .reqHttpStart => onReqHttpStart ch q
  | .reqHttpH => strictly (chr 'T') ch .reqHttpHT q
  | .reqHttpHT => strictly (chr 'T') ch .reqHttpHTT q
  | .reqHttpHTT => strictly (chr 'P') ch .reqHttpHTTP q
  | .reqHttpHTTP => strictly (chr '/') ch .reqFirstHttpMajor q
  | .reqFirstHttpMajor => onReqFirstHttpMajor ch q
  | .reqHttpMajor => onReqHttpMajor ch q
  | .reqFirstHttpMinor => onReqFirstHttpMinor ch q
  | .reqHttpMinor => onReqHttpMinor ch q
  | .reqLineAlmostDone => if ch ≠ lf then q.fail .lfExpected else (q.enter .headerFieldStart).next
  | .headerFieldStart => onHeaderFieldStart ch q
  | .headerValueDiscardWs => onHeaderValueDiscardWs ch q
  | .headerValueDiscardWsAlmostDone => strictly lf ch .headerValueDiscardLws q
  | .headerValueDiscardLws => onHeaderValueDiscardLws ch q
  | .headerValueStart => onHeaderValueStart ch q
  | .headerValueLws => onHeaderValueLws ch q
  | .headerAlmostDone => onHeaderAlmostDone ch q
  | .chunkSizeStart => onChunkSizeStart ch q
  | .chunkSize => onChunkSize ch q
  | .chunkParameters => if ch = cr then (q.enter .chunkSizeAlmostDone).next else q.next
  | .chunkSizeAlmostDone => onChunkSizeAlmostDone ch q
  | .headersAlmostDone => onHeadersAlmostDone ch q
  | .headersDone => onHeadersDone ch q
  | .chunkDataAlmostDone =>
    if ch ≠ cr then q.fail .strict else ⟨q.enter .chunkDataDone, [.callbackBody], .next⟩
  | .chunkDataDone =>
    if ch ≠ lf then q.fail .strict else ⟨q.enter .chunkSizeStart, [.clearNread, .chunkComplete], .next⟩
  | .messageDone => onMessageDone q
  -- the states below look at more than one byte
  | .headerField | .headerValue | .bodyIdentity | .chunkData => q.next

/-! One call of http_parser_execute. -/

/-- The locals of a call. A mark holds the bytes between it and `p`; of the marks that the server
has no callback for, only whether they are set. -/
structure Local where
  parser : Parser
  p : Nat
  headerFieldMark : Bool
  headerValueMark : Bool
  urlMark : Option Bytes
  bodyMark : Option Bytes
  callbacks : List (Nat × ParserEvent)

namespace Local

def set (l : Local) (q : Core) : Local := { l with parser := { l.parser with toCore := q } }

/-- A callback, with the number of bytes that are consumed. -/
def notify (l : Local) (consumed : Nat) (e : ParserEvent) : Local :=
  { l with callbacks := l.callbacks ++ [(consumed, e)] }

def callbackUrl (l : Local) (consumed : Nat) (behind : Bytes) : Local :=
  match l.urlMark with
  | some data => { l.notify consumed (.url l.parser.method.kind data behind) with urlMark := none }
  | none => l

def callbackBody (l : Local) (consumed : Nat) : Local :=
  match l.bodyMark with
  | some data => { l.notify consumed (.body data) with bodyMark := none }
  | none => l

/-- A macro at the byte `p`. `behind` is the memory from there on, up to a NUL. A message
begins in front of its first byte. -/
def act (behind : Bytes) (l : Local) : Act → Local
  | .messageBegin => l.notify l.p .messageBegin
  | .markUrl => { l with urlMark := some (l.urlMark.getD []) }
  | .callbackUrl => l.callbackUrl (l.p + 1) behind
  | .markHeaderField => { l with headerFieldMark := true }
  | .markHeaderValue => { l with headerValueMark := true }
  | .callbackHeaderValue => { l with headerValueMark := false }
  | .callbackBody => l.callbackBody (l.p + 1)
  | .messageComplete => l.notify (l.p + 1) .messageComplete
  | .chunkHeader | .chunkComplete => l
  | .clearNread => { l with parser := { l.parser with nread := 0 } }

/-- What a state does, at the byte `p`. -/
def perform (behind : Bytes) (l : Local) (s : Step) : Local := s.acts.foldl (act behind) (l.set s.core)

/-- `p++` past some bytes. -/
def advance (l : Local) (bytes : Bytes) : Local :=
  { l with
    p := l.p + bytes.length
    urlMark := l.urlMark.map (· ++ bytes)
    bodyMark := l.bodyMark.map (· ++ bytes) }

/-- `COUNT_HEADER_SIZE`. -/
def count (l : Local) (n : Nat) : Local × Flow :=
  let l := { l with parser := { l.parser with nread := l.parser.nread + n } }
  if httpMaxHeaderSize < l.parser.nread then (l.set { l.parser.toCore with errno := .headerOverflow }, .stop)
  else (l, .next)

/-- The assertion of a callback, that there is no error. -/
def calling (l : Local) (data : Bytes) (r : Local × Flow × Bytes) : Local × Flow × Bytes :=
  if l.parser.errno = .ok then r else (l, .abort, data)

/-- How many marks are set. -/
def marks (l : Local) : Nat :=
  l.headerFieldMark.toNat + l.headerValueMark.toNat + l.urlMark.isSome.toNat + l.bodyMark.isSome.toNat

end Local

def onHeaderField (data : Bytes) (l : Local) : Local × Flow × Bytes :=
  match scanHeaderField data l.parser.toCore with
  | none => (l, .abort, data)
  | some (rest, q) =>
    let scanned := data.take (data.length - rest.length)
    match ((l.set q).advance scanned).count scanned.length with
    | (l, .next) =>
      match rest with
      | [] => (l, .next, [])
      | ch :: rest =>
        if ch = chr ':' then
          l.calling (ch :: rest)
            (({ l with headerFieldMark := false }.set (q.enter .headerValueDiscardWs)).advance [ch], .next, rest)
        else (l.set (q.fail .invalidHeaderToken).core, .stop, ch :: rest)
    | (l, flow) => (l, flow, rest)

def onHeaderValue (data : Bytes) (l : Local) : Local × Flow × Bytes :=
  let r := scanHeaderValue data l.parser.toCore
  let q := r.2.1
  let scanned := data.take (data.length - r.1.length)
  let l := (l.set q).advance scanned
  match r.2.2 with
  | some (.error e) => (l.set (q.fail e).core, .stop, r.1)
  | some .abort => (l, .abort, r.1)
  | none =>
    match r.1 with
    | [] => ((l.count scanned.length).1, (l.count scanned.length).2, [])
    | ch :: rest =>
      let l := l.set (q.enter .headerAlmostDone)
      if ch = cr then
        l.calling (ch :: rest)
          (match { l with headerValueMark := false }.count scanned.length with
          | (l, .next) => (l.advance [ch], .next, rest)
          | (l, flow) => (l, flow, ch :: rest))
      else
        match l.count scanned.length with
        | (l, .next) =>
          let s := onHeaderAlmostDone ch l.parser.toCore
          l.calling (ch :: rest) (({ l with headerValueMark := false }.set s.core).advance [ch], s.flow, rest)
        | (l, flow) => (l, flow, ch :: rest)

/-- The bytes of a body that are there, with `MARK(body)` in front of them. -/
def readBody (data : Bytes) (l : Local) : Local :=
  let q := l.parser.toCore
  let toRead := min q.contentLength data.length
  let l := { l with bodyMark := some (l.bodyMark.getD []) }
  (l.set { q with contentLength := q.contentLength - toRead }).advance (data.take toRead)

def onBodyIdentity (data : Bytes) (l : Local) : Local × Flow × Bytes :=
  let rest := data.drop (min l.parser.contentLength data.length)
  let l := readBody data l
  if l.parser.contentLength = 0 then
    -- the last byte of the body is seen again by s_message_done
    let last := l.p - 1
    let s := onMessageDone (l.parser.enter .messageDone)
    l.calling rest ({ ({ l.callbackBody last with p := last }).perform [] s with p := l.p }, s.flow, rest)
  else (l, .next, rest)

def onChunkData (data : Bytes) (l : Local) : Local × Flow × Bytes :=
  let rest := data.drop (min l.parser.contentLength data.length)
  let l := readBody data l
  (if l.parser.contentLength = 0 then l.set (l.parser.enter .chunkDataAlmostDone) else l, .next, rest)

/-- The switch over the states: what it leaves of the data. -/
def onState (beyond : Bytes) (ch : UInt8) (rest : Bytes) (l : Local) : Local × Flow × Bytes :=
  match l.parser.state with
  | .headerField => onHeaderField (ch :: rest) l
  | .headerValue => onHeaderValue (ch :: rest) l
  | .bodyIdentity => onBodyIdentity (ch :: rest) l
  | .chunkData => onChunkData (ch :: rest) l
  | _ =>
    let s := onByte ch l.parser.toCore
    let r := ((l.perform ((ch :: rest ++ beyond).takeWhile (· ≠ 0)) s).advance [ch], s.flow, rest)
    -- an error is set behind all callbacks
    if s.acts.any Act.isCallback then l.calling (ch :: rest) r else r

/-- The body of the loop. -/
def iteration (beyond : Bytes) (ch : UInt8) (rest : Bytes) (l : Local) : Local × Flow × Bytes :=
  match if parsingHeader l.parser.state then l.count 1 else (l, .next) with
  | (l, .next) => if asserted l.parser then onState beyond ch rest l else (l, .abort, ch :: rest)
  | (l, flow) => (l, flow, ch :: rest)

/-- The callbacks for the marks that are left. -/
def leftOver (beyond : Bytes) (l : Local) : Local :=
  ({ l with headerFieldMark := false, headerValueMark := false }.callbackUrl l.p
    (beyond.takeWhile (· ≠ 0))).callbackBody l.p

/-- Behind the loop at most one mark is set, and there is no error. -/
def afterLoop (beyond : Bytes) (l : Local) : Local × Flow :=
  if l.marks ≤ 1 ∧ l.parser.errno = .ok then (leftOver beyond l, .next) else (l, .abort)

/-- The loop over the data; each iteration consumes at least one byte. -/
def executeLoop (beyond : Bytes) : Nat → Bytes → Local → Local × Flow
  | _, [], l => afterLoop beyond l
  | 0, _ :: _, l => (l, .next)
  | fuel + 1, ch :: rest, l =>
    match iteration beyond ch rest l with
    | (l, .next, rest) => executeLoop beyond fuel rest l
    | (l, flow, _) => (l, flow)

def start (q : Parser) : Local :=
  { parser := q
    p := 0
    headerFieldMark := q.state = .headerField
    headerValueMark := q.state = .headerValue
    urlMark := if inUrl q.state then some [] else none
    bodyMark := none
    callbacks := [] }

/-- http_parser_execute, with the memory beyond the data. -/
def execute (beyond : Bytes) (q : Parser) (data : Bytes) : Parser × List (Nat × ParserEvent) :=
  if q.errno ≠ .ok then (q, [])
  else if data = [] then
    match q.state with
    | .dead | .startReq => (q, [])
    | _ => ({ q with errno := .invalidEofState }, [])
  else
    let l := (executeLoop beyond data.length data (start q)).1
    (l.parser, l.callbacks)

end ArduinoHomeKit.HttpMachine
