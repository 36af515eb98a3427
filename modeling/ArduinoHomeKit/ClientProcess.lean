import ArduinoHomeKit.Pairings

/-! From the sockets to the handlers: decryption, the parser callbacks, the dispatch of
complete requests, and the server loop. -/

namespace ArduinoHomeKit

variable {P : Platform}

def urlCharacteristics : Bytes := ascii "/characteristics"

/-- `!strncmp(data, url, length)`: any prefix of the route passes. -/
def urlMatches (data : Bytes) (url : String) : Bool :=
  CString.strncmp data.length data (ascii url) == 0

/-- The endpoint of a url fragment, and the query if there is one. -/
def urlEndpoint (method : HttpMethod) (data behind : Bytes) : Endpoint × Option Bytes :=
  match method with
  | .get =>
    if urlMatches data "/accessories" then (.getAccessories, none)
    else
      let next := (data ++ behind).getD urlCharacteristics.length 0
      if urlCharacteristics.length ≤ data.length ∧
          CString.strncmp urlCharacteristics.length data urlCharacteristics = 0 ∧
          (next = 0 ∨ next = 63) then
        if next = 63 then
          let query := (data ++ behind).drop (urlCharacteristics.length + 1)
          -- with the `?` outside the fragment the length wraps around
          (.getCharacteristics, some (CString.strndup query
            (if urlCharacteristics.length + 1 ≤ data.length then
              data.length - urlCharacteristics.length - 1 else query.length)))
        else (.getCharacteristics, none)
      else (.unknown, none)
  | .post =>
    if urlMatches data "/identify" then (.identify, none)
    else if urlMatches data "/pair-setup" then (.pairSetup, none)
    else if urlMatches data "/pair-verify" then (.pairVerify, none)
    else if urlMatches data "/pairings" then (.pairings, none)
    else if urlMatches data "/resource" then (.resource, none)
    else (.unknown, none)
  | .put => if urlMatches data "/characteristics" then (.updateCharacteristics, none) else (.unknown, none)
  | .other => (.unknown, none)

def homekitServerOnUrl (w : World P) (c : ClientId) (method : HttpMethod) (data behind : Bytes) :
    World P :=
  let r := urlEndpoint method data behind
  w.setClient c
    { w.client c with
      endpoint := r.1
      endpointParams := r.2.orElse (fun _ => (w.client c).endpointParams) }

def homekitServerOnBody (w : World P) (c : ClientId) (data : Bytes) : World P :=
  w.setClient c { w.client c with body := (w.client c).body ++ data }

/-- The handlers of the accessory database. -/
def serve (w : World P) (c : ClientId) (endpoint : Endpoint) : World P :=
  let r := P.app.serve endpoint w.paired c (w.client c).endpointParams (w.client c).body w.app
  sendAll { w with app := r.1 } c r.2

/-- A request handed to a handler of a verified session. -/
def dispatch (w : World P) (c : ClientId) (origins : List Origin) : Except Fault (World P) :=
  let endpoint := (w.client c).endpoint
  match endpoint with
  | .identify | .getAccessories | .getCharacteristics | .updateCharacteristics | .resource =>
    .ok (serve (w.log (.dispatched c endpoint origins)) c endpoint)
  | .pairings => homekitServerOnPairings (w.log (.dispatched c endpoint origins)) c (w.client c).body
  | .unknown | .pairSetup | .pairVerify => .ok (send404Response w c)

/-- The body and the query go; a client that a failed write has closed is still used here. -/
def messageEnd (w : World P) (c : ClientId) : World P :=
  let w := if c ∈ w.clients then w else w.log (.useAfterFree c)
  w.setClient c { w.client c with endpointParams := none, body := [] }

/-- The world when the handler of a complete message is entered. -/
def messageEntry (w : World P) (c : ClientId) : World P :=
  (w.tick.setClient c { w.client c with pending := none }).log (.completed c (w.client c).endpoint)

def handleMessage (w : World P) (c : ClientId) (origins : List Origin) : Except Fault (World P) :=
  if (w.client c).encrypted = false then
    match (w.client c).endpoint with
    | .pairSetup => homekitServerOnPairSetup w c (w.client c).body
    | .pairVerify => homekitServerOnPairVerify w c (w.client c).body
    | _ => .ok (send404Response w c)
  else dispatch w c origins

def homekitServerOnMessageComplete (w : World P) (c : ClientId) : Except Fault (World P) :=
  (handleMessage (messageEntry w c) c ((w.client c).pending.getD [])).map (fun w => messageEnd w c)

def handleEvent (w : World P) (c : ClientId) : ParserEvent → Except Fault (World P)
  | .messageBegin => .ok (w.setClient c { w.client c with pending := some [] })
  | .url method data behind => .ok (homekitServerOnUrl w c method data behind)
  | .body data => .ok (homekitServerOnBody w c data)
  | .messageComplete => homekitServerOnMessageComplete w c

/-- Bytes consumed between two callbacks belong to the message being read, if any. -/
def consume (w : World P) (c : ClientId) (origins : List Origin) : World P :=
  w.setClient c { w.client c with pending := (w.client c).pending.map (· ++ origins) }

/-- The callbacks of one http_parser_execute call over a buffer with the given origins;
`pos` bytes are consumed. -/
def runCallbacks (c : ClientId) (origins : List Origin) :
    Nat → List (Nat × ParserEvent) → World P → Except Fault (World P)
  | pos, [], w => .ok (consume w c (origins.drop pos))
  | pos, (next, event) :: events, w =>
    match handleEvent (consume w c ((origins.take next).drop pos)) c event with
    | .error e => .error e
    | .ok w => runCallbacks c origins next events w

/-- http_parser_execute on a payload. -/
def httpParserExecute (w : World P) (c : ClientId) (payload : Bytes) (origins : List Origin) :
    Except Fault (World P) :=
  let r := P.http.execute (w.client c).parser payload
  let w := (w.setClient c { w.client c with parser := r.1 }).log (.parsed c payload)
  runCallbacks c origins 0 r.2 w

def sizeMax : Nat := 2 ^ 32

/-- Blocks larger than the RAM cannot be had; smaller ones are taken to be available. -/
def dramSize : Nat := 81920

def requiredDecryptedSize (payloadSize : Nat) : Nat :=
  let full := payloadSize / 1042 * 1024
  if payloadSize % 1042 > 0 then (full + (payloadSize % 1042 + sizeMax - 16 - 2)) % sizeMax else full

/-- A byte of the decryption buffer with its origin. -/
abbrev Cell := UInt8 × Origin

/-- The frame loop of client_decrypt_: the offset reached, the write counter and the
buffer. Every frame is written to the start of the buffer. `none` is a failed decryption,
and a frame decrypted into NULL is a fault. -/
def clientDecryptLoop (wc : WolfCrypt) (key : Bytes) (data : Bytes) (decryptedSize : Nat) :
    Nat → Bytes → Nat → Nat → Nat → Option (List Cell) →
      Except Fault (Option Nat × Nat × Option (List Cell))
  | 0, _, offset, _, count, out => .ok (some offset, count, out)
  | fuel + 1, nonce, offset, decryptedOffset, count, out =>
    if offset < data.length then
      let chunkSize := (data.getD offset 0).toNat + (data.getD (offset + 1) 0).toNat * 256
      if chunkSize + 18 > data.length - offset then .ok (some offset, count, out)
      else
        let nonce := frameNonce nonce count
        match cryptoChacha20Poly1305Decrypt wc key nonce ((data.drop offset).take 2)
            ((data.drop (offset + 2)).take (chunkSize + 16)) (decryptedSize - decryptedOffset) with
        | .error _ => .ok (none, count + 1, out)
        | .ok plain =>
          match out with
          | none => .error .nullDereference
          | some cells =>
            clientDecryptLoop wc key data decryptedSize fuel nonce (offset + chunkSize + 18)
              (decryptedOffset + plain.length) (count + 1)
              (some (plain.map (fun b => (b, Origin.opened key)) ++ cells.drop plain.length))
    else .ok (some offset, count, out)

/-- client_decrypt_ on an encrypted session: the return value, `*decrypted_size`, the write
counter and the buffer. -/
def clientDecrypt (wc : WolfCrypt) (key : Bytes) (count : Nat) (data : Bytes)
    (out : Option (List Cell)) (decryptedSize : Nat) :
    Except Fault (Int × Nat × Nat × Option (List Cell)) :=
  let required := requiredDecryptedSize data.length
  if decryptedSize < required then .ok (-2, required, count, out)
  else
    match clientDecryptLoop wc key data required data.length zeroNonce 0 0 count out with
    | .error e => .error e
    | .ok (none, count, out) => .ok (-1, required, count, out)
    | .ok (some offset, count, out) => .ok (offset, required, count, out)

/-- The buffer malloc returns for the decrypted data, NULL if there is no room. -/
def decryptBuffer (w : World P) (size : Nat) : Option (List Cell) :=
  if size ≤ dramSize then some ((List.range size).map (fun i => (P.env.heap w.now i, Origin.heap)))
  else none

/-- The two calls of client_decrypt_: the first asks for the size, the second decrypts. -/
def decryptPayload (w : World P) (c : ClientId) (payload : Bytes) :
    Except Fault (Int × Nat × Nat × Option (List Cell)) :=
  let key := (w.client c).writeKey
  match clientDecrypt P.crypto key (w.client c).countWrites payload none 0 with
  | .error e => .error e
  | .ok (_, decryptedSize, count, _) =>
    clientDecrypt P.crypto key count payload (decryptBuffer w decryptedSize) decryptedSize

/-- The encrypted branch of homekit_client_process. -/
def processEncrypted (w : World P) (c : ClientId) (payload : Bytes) : Except Fault (World P) :=
  match decryptPayload w c payload with
  | .error e => .error e
  | .ok (r, decryptedSize, count, decrypted) =>
    let w := w.setClient c { w.client c with countWrites := count }
    if r < 0 then .ok w
    else
      let rest := (payload.drop r.toNat)
      let w := w.setClient c
        { w.client c with
          dataAvailable := rest.length
          data := rest ++ (w.client c).data.drop rest.length }
      match decrypted with
      | some cells =>
        httpParserExecute w c (cells.map Prod.fst |>.take decryptedSize) (cells.map Prod.snd)
      | none => if P.http.failed (w.client c).parser then .ok w else .error .nullDereference

/-- What reached the socket of a client since the last pass. -/
structure Arrival where
  bytes : Bytes
  connected : Bool

def arrive (w : World P) (c : ClientId) (a : Arrival) : World P :=
  w.setClient c
    { w.client c with
      socket := (w.client c).socket.map (fun s => { rx := s.rx ++ a.bytes, connected := a.connected }) }

/-- What a read takes: as much as fits behind the bytes left over. -/
def readable (w : World P) (c : ClientId) (socket : Socket) : Bytes :=
  socket.rx.take (1042 - (w.client c).dataAvailable)

def readClient (w : World P) (c : ClientId) (socket : Socket) : World P :=
  let got := readable w c socket
  let at' := (w.client c).dataAvailable
  w.setClient c
    { w.client c with
      socket := some { socket with rx := socket.rx.drop (1042 - at') }
      data := (w.client c).data.take at' ++ got ++ (w.client c).data.drop (at' + got.length) }

/-- The unencrypted branch of homekit_client_process. -/
def processPlain (w : World P) (c : ClientId) (payload : Bytes) : Except Fault (World P) :=
  let w := w.setClient c { w.client c with dataAvailable := 0 }
  httpParserExecute w c payload (payload.map (fun _ => Origin.plain))

def homekitClientProcess (w : World P) (c : ClientId) : Except Fault (World P) :=
  match (w.client c).socket with
  | none => .ok w
  | some socket =>
    let w := w.tick
    let got := readable w c socket
    if got = [] then
      if socket.isConnected = false then
        .ok (homekitServerCloseClient (w.setClient c { w.client c with disconnect := true }) c)
      else .ok w
    else
      let w := readClient w c socket
      -- as many bytes as were read, but from the start of the buffer
      let payload := (w.client c).data.take got.length
      if (w.client c).encrypted then processEncrypted w c payload else processPlain w c payload

end ArduinoHomeKit
