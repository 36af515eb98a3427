import ArduinoHomeKit.AccessoryBench
import ArduinoHomeKit.Handlers

/-! The server with its accessory side: the platform on which the requests of a session are served
by the handlers of the database. -/

namespace ArduinoHomeKit

variable {υ : Type}

/-- The parameters of the request; the memory behind the query is what the heap holds. -/
def requestParams (rt : Runtime) (query : Option Bytes) (s : AccessoryState υ) : Except Fault (List QueryParam) :=
  match query with
  | none => .ok []
  | some query => queryParamsParse (bufferOf (query ++ [0]) (rt.heap s.now))

/-- The handler of an endpoint. -/
def handleRequest (sketch : Sketch υ) (rt : Runtime) (endpoint : Endpoint) (paired : Bool) (c : ClientId)
    (query : Option Bytes) (body : Bytes) (s : AccessoryState υ) : Except Fault (AccessoryState υ × Answer) :=
  match endpoint with
  | .identify => homekitServerOnIdentify sketch rt paired s
  | .getAccessories => homekitServerOnGetAccessories sketch rt c s
  | .getCharacteristics =>
    match requestParams rt query s with
    | .error e => .error e
    | .ok params => homekitServerOnGetCharacteristics sketch rt c params s
  | .updateCharacteristics => homekitServerOnUpdateCharacteristics sketch rt c body s
  | .resource => .ok (homekitServerOnResource sketch body s)
  | .unknown | .pairSetup | .pairVerify | .pairings => .ok (s, .notFound)

/-- After a fault the accessory side is gone. -/
def accessoryServe (sketch : Sketch υ) (rt : Runtime) (endpoint : Endpoint) (paired : Bool) (c : ClientId)
    (query : Option Bytes) (body : Bytes) :
    Except Fault (AccessoryState υ) → Except Fault (AccessoryState υ) × List Bytes
  | .error e => (.error e, [])
  | .ok s =>
    match handleRequest sketch rt endpoint paired c query body s with
    | .error e => (.error e, [])
    | .ok (s, answer) =>
      match answer.payloads with
      | .error e => (.error e, [])
      | .ok payloads => (.ok s, payloads)

def accessoryEvents (sketch : Sketch υ) (rt : Runtime) (c : ClientId) :
    Except Fault (AccessoryState υ) → Except Fault (AccessoryState υ) × List Bytes
  | .error e => (.error e, [])
  | .ok s =>
    match clientEvents sketch rt c s with
    | .error e => (.error e, [])
    | .ok (s, payloads) => (.ok s, payloads)

/-- homekit_accessories_clear_notify_callbacks for a client that is closed. -/
def AccessoryState.clearNotifyCallbacks (c : ClientId) (s : AccessoryState υ) : AccessoryState υ :=
  { s with database := s.database.homekitAccessoriesClearNotifyCallbacks (clientCallback c) }

def accessoryApplication (sketch : Sketch υ) (rt : Runtime) : Application (Except Fault (AccessoryState υ)) where
  serve := accessoryServe sketch rt
  events := accessoryEvents sketch rt
  clearNotifyCallbacks c app := app.map (AccessoryState.clearNotifyCallbacks c)

/-- The platform with this accessory side. -/
def accessoryPlatform {π : Type} (sketch : Sketch υ) (rt : Runtime) (crypto : WolfCrypt) (http : HttpParser π)
    (env : Environment) : Platform where
  Parser := π
  App := Except Fault (AccessoryState υ)
  crypto := crypto
  http := http
  app := accessoryApplication sketch rt
  env := env

/-- The bench with an accessory side. -/
def accessoryBench : Platform := accessoryPlatform benchSketch benchRuntime benchCrypto benchHttp bench.env

def accessoryClient : Client accessoryBench where
  socket := some { rx := [], connected := true }
  endpoint := .unknown
  endpointParams := none
  data := []
  dataAvailable := 0
  body := []
  parser := ()
  pairingId := 0
  permissions := 0
  disconnect := false
  encrypted := false
  readKey := []
  writeKey := []
  countReads := 0
  countWrites := 0
  verifyContext := none
  step := .none
  errorWrite := false
  pending := none

def accessoryBoot : World accessoryBench :=
  serverBoot (ascii "AA:BB:CC:DD:EE:FF") { p := benchKey 1, k := [] } (some (ascii "111-11-111"))
    (benchFlash []) (.ok (benchState [])) (fun _ => accessoryClient)
    (fun _ => { srp := cryptoSrpNew, publicKey := [], client := none })

end ArduinoHomeKit
