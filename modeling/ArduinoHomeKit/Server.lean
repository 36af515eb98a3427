import Mathlib.Logic.Function.Basic
import ArduinoHomeKit.Storage
import ArduinoHomeKit.Tlv

/-! The state of the server: its connections, the pairing contexts, the store, and the
log of the calls that the properties speak about. -/

namespace ArduinoHomeKit

/-- Connections are numbered in the order they were accepted. -/
abbrev ClientId := Nat
abbrev ContextId := Nat

inductive ClientStep
  | none
  | pairSetup1Of3
  | pairSetup2Of3
  | pairSetup3Of3
  | pairVerify1Of2
  | pairVerify2Of2
  | done
  deriving DecidableEq

inductive Endpoint
  | unknown
  | pairSetup
  | pairVerify
  | identify
  | getAccessories
  | getCharacteristics
  | updateCharacteristics
  | pairings
  | resource
  deriving DecidableEq

inductive HttpMethod
  | get
  | post
  | put
  | other
  deriving DecidableEq

/-- Where a byte handed to the parser comes from: a plaintext read, a frame opened
under a key, or memory of the heap that nobody wrote. -/
inductive Origin
  | plain
  | opened (key : Bytes)
  | heap
  deriving DecidableEq

inductive SendResult
  | sent
  | notConnected
  | failed
  deriving DecidableEq

/-- The callbacks of one http_parser_execute call. A url fragment comes with the memory
that follows it, up to a NUL. -/
inductive ParserEvent
  | messageBegin
  | url (method : HttpMethod) (data behind : Bytes)
  | body (data : Bytes)
  | messageComplete
  deriving DecidableEq

/-- The vendored HTTP parser: one call handles the whole buffer and lists its callbacks,
each with the number of bytes consumed by then. A request begins before its first byte. -/
structure HttpParser (π : Type) where
  init : π
  failed : π → Bool
  execute : π → Bytes → π × List (Nat × ParserEvent)

/-- The accessory database with its handlers: the payloads that each handler passes to
client_send, in order. -/
structure Application (α : Type) where
  serve : Endpoint → (paired : Bool) → ClientId → (params : Option Bytes) → (body : Bytes) → α →
    α × List Bytes
  events : ClientId → α → α × List Bytes
  clearNotifyCallbacks : ClientId → α → α

/-- What the hardware and the network decide, by the number of the call. -/
structure Environment where
  flash : FlashChip
  socketWrite : Nat → SendResult
  random : Nat → Bytes
  /-- The bytes behind or inside a block of memory that nobody initialised. -/
  heap : Nat → Nat → UInt8
  /-- The string found at an address that was freed. -/
  freedString : Nat → Bytes

structure Platform where
  Parser : Type
  App : Type
  crypto : WolfCrypt
  http : HttpParser Parser
  app : Application App
  env : Environment

structure PairVerifyContext where
  secret : Bytes
  sessionKey : Bytes
  devicePublicKey : Bytes
  accessoryPublicKey : Bytes
  deriving DecidableEq

/-- pairing_context_t. An empty public key is NULL. -/
structure PairingContext where
  srp : Srp
  publicKey : Bytes
  client : Option ClientId

/-- A WiFiClient: the bytes received and not yet read, and whether the peer is there. -/
structure Socket where
  rx : Bytes
  connected : Bool

/-- WiFiClient::connected: unread data counts as a connection. -/
def Socket.isConnected (s : Socket) : Bool := s.connected || !s.rx.isEmpty

/-- client_context_t. The log `pending` holds the origins of the bytes of the message
that the parser is reading. -/
structure Client (P : Platform) where
  socket : Option Socket
  endpoint : Endpoint
  endpointParams : Option Bytes
  data : Bytes
  dataAvailable : Nat
  body : Bytes
  parser : P.Parser
  pairingId : Int
  permissions : UInt8
  disconnect : Bool
  encrypted : Bool
  readKey : Bytes
  writeKey : Bytes
  countReads : Nat
  countWrites : Nat
  verifyContext : Option PairVerifyContext
  step : ClientStep
  errorWrite : Bool
  pending : Option (List Origin)

/-- What an M5 or a pair-verify M3 presents to the signature check. -/
structure SignedRequest where
  identifier : Bytes
  key : Ed25519Key
  info : Bytes
  signature : Bytes
  deriving DecidableEq

/-- The buffers of homekit_server_on_pairings. -/
inductive Buffer
  | pairingPublicKey
  | deviceIdentifier
  deriving DecidableEq

/-- The calls that the properties speak about, in the order they are made. -/
inductive Event
  | connected (c : ClientId)
  | closed (c : ClientId)
  | sent (c : ClientId) (data : Bytes)
  | response (c : ClientId) (values : List Tlv)
  | parsed (c : ClientId) (payload : Bytes)
  | completed (c : ClientId) (endpoint : Endpoint)
  | dispatched (c : ClientId) (endpoint : Endpoint) (origins : List Origin)
  | contextOpened (k : ContextId) (c : ClientId)
  | contextFreed (k : ContextId)
  | srpVerified (k : ContextId) (c : ClientId)
  | addPairing (k : ContextId) (c : ClientId) (request : SignedRequest) (r : Int)
  | verifyStarted (c : ClientId) (devicePublicKey accessoryPublicKey : Bytes)
  | verified (c : ClientId) (request : SignedRequest)
  | pairingRemoved (c : ClientId) (deviceId : Bytes)
  | freed (c : ClientId) (buffer : Buffer)
  | useAfterFree (c : ClientId)
  deriving DecidableEq

/-- homekit_server_t with the globals of the file. Blocks keep their content when they
are freed: `client` and `contexts` are the memory, `clients` the linked list. -/
structure World (P : Platform) where
  accessoryId : Bytes
  accessoryKey : Ed25519Key
  password : Option Bytes
  paired : Bool
  pairingContext : Option ContextId
  nfds : Int
  clients : List ClientId
  savedPreinitPairingContext : Option ContextId
  contexts : ContextId → PairingContext
  contextCount : Nat
  client : ClientId → Client P
  clientCount : Nat
  flash : Flash
  app : P.App
  now : Nat
  sends : Nat
  trace : List Event

variable {P : Platform}

def World.log (w : World P) (e : Event) : World P := { w with trace := w.trace ++ [e] }

def World.tick (w : World P) : World P := { w with now := w.now + 1 }

def World.setClient (w : World P) (c : ClientId) (x : Client P) : World P :=
  { w with client := Function.update w.client c x }

def World.setContext (w : World P) (k : ContextId) (x : PairingContext) : World P :=
  { w with contexts := Function.update w.contexts k x }

/-- pairing_context_free on a context that is not NULL. -/
def pairingContextFree (w : World P) (k : ContextId) : World P :=
  { w with
    savedPreinitPairingContext :=
      if w.savedPreinitPairingContext = some k then none else w.savedPreinitPairingContext
  }.log (.contextFreed k)

/-- Unlinking a node: the head, or the successor of the first node whose `next` it is. -/
def unlink (c : ClientId) : List ClientId → List ClientId
  | [] => []
  | d :: ds => if d = c then ds else d :: unlink c ds

def homekitServerCloseClient (w : World P) (c : ClientId) : World P :=
  let w := w.setClient c { w.client c with step := .done, socket := none }
  let w := { w with nfds := w.nfds - 1 }
  let w := match w.pairingContext with
    | some k =>
      if (w.contexts k).client = some c then { pairingContextFree w k with pairingContext := none }
      else w
    | none => w
  { w with
    clients := unlink c w.clients
    app := P.app.clearNotifyCallbacks c w.app
  }.log (.closed c)

/-- The socket may refuse the data; then the client is closed at once. -/
def write (w : World P) (c : ClientId) (data : Bytes) : World P :=
  match (w.client c).socket with
  | none => w
  | some socket =>
    let r := P.env.socketWrite w.sends
    let w := { w with sends := w.sends + 1 }
    if socket.isConnected = false ∨ r = .notConnected then w
    else if (w.client c).errorWrite then w
    else if r = .failed then
      homekitServerCloseClient
        (w.setClient c { w.client c with errorWrite := true, disconnect := true }) c
    else w.log (.sent c data)

/-- The digits of a counter, from nonce byte `i` on. -/
def writeCounter : Nat → Nat → Nat → Bytes → Bytes
  | 0, _, _, nonce => nonce
  | fuel + 1, i, x, nonce =>
    if x = 0 then nonce
    else writeCounter fuel (i + 1) (x / 256) (nonce.set i (UInt8.ofNat (x % 256)))

def zeroNonce : Bytes := List.replicate 12 0

/-- The nonce of a frame. The counters are ints, so eight digits are enough. -/
def frameNonce (nonce : Bytes) (count : Nat) : Bytes := writeCounter 8 4 count nonce

def clientSendEncryptedLoop (c : ClientId) : Nat → Bytes → Bytes → World P → World P
  | 0, _, _, w => w
  | fuel + 1, nonce, payload, w =>
    if payload = [] then w
    else
      let chunk := payload.take 1024
      let aead := [UInt8.ofNat (chunk.length % 256), UInt8.ofNat (chunk.length / 256)]
      let nonce := frameNonce nonce (w.client c).countReads
      let w := w.setClient c { w.client c with countReads := (w.client c).countReads + 1 }
      match cryptoChacha20Poly1305Encrypt P.crypto (w.client c).readKey nonce aead chunk 1040 with
      | .error _ => w
      | .ok encrypted =>
        clientSendEncryptedLoop c fuel nonce (payload.drop 1024) (write w c (aead ++ encrypted))

def clientSend (w : World P) (c : ClientId) (data : Bytes) : World P :=
  if (w.client c).encrypted then clientSendEncryptedLoop c data.length zeroNonce data w
  else write w c data

def decimal (n : Nat) : Bytes := ascii (toString n)

def tlvResponseHeaders (payloadSize : Nat) : Bytes :=
  ascii "HTTP/1.1 200 OK\r\nContent-Type: application/pairing+tlv8\r\nContent-Length: "
    ++ decimal payloadSize ++ ascii "\r\nConnection: keep-alive\r\n\r\n"

/-- The payload has the size that tlv_format asks for; what it writes behind that is lost. -/
def sendTlvResponse (w : World P) (c : ClientId) (values : List Tlv) : World P :=
  let payloadSize := tlvFormatSize values
  clientSend (w.log (.response c values)) c
    (tlvResponseHeaders payloadSize ++ (tlvFormat values).take payloadSize)

def tlvErrorResponse (state : Int) (error : TLVError) : List Tlv :=
  [tlvAddIntegerValue TLVType.state 1 state, tlvAddIntegerValue TLVType.error 1 error.code]

def sendTlvErrorResponse (w : World P) (c : ClientId) (state : Int) (error : TLVError) : World P :=
  sendTlvResponse w c (tlvErrorResponse state error)

def send404Response (w : World P) (c : ClientId) : World P :=
  clientSend w c (ascii "HTTP/1.1 404 Not Found\r\n\r\n")

def sendAll (w : World P) (c : ClientId) (payloads : List Bytes) : World P :=
  payloads.foldl (fun w data => clientSend w c data) w

/-- The bytes a TLV body or a decrypted message is parsed from: block `site` of the
current call, followed by whatever the heap holds behind it. -/
def behind (w : World P) (site : Nat) : Nat → UInt8 := fun i => P.env.heap w.now (4096 * site + i)

def isAdminSession (w : World P) (c : ClientId) : Bool := isAdmin (w.client c).permissions

end ArduinoHomeKit
