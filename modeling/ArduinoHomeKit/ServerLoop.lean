import ArduinoHomeKit.ClientProcess

/-! The server loop: accepting, processing every client, sending notifications. -/

namespace ArduinoHomeKit

variable {P : Platform}

def homekitMaxClients : Int := 8

/-- client_context_new on a block with the content `raw`. -/
def clientContextNew (raw : Client P) : Client P :=
  { raw with
    socket := some { rx := [], connected := true }
    endpointParams := none
    dataAvailable := 0
    body := []
    parser := P.http.init
    pairingId := -1
    disconnect := false
    encrypted := false
    countReads := 0
    countWrites := 0
    verifyContext := none
    step := .none
    errorWrite := false
    pending := none }

/-- homekit_server_accept_client when a connection is waiting. -/
def homekitServerAcceptClient (w : World P) (raw : Client P) : World P :=
  if w.nfds ≥ homekitMaxClients then w
  else
    let c := w.clientCount
    { w.setClient c (clientContextNew raw) with
      clientCount := c + 1
      clients := c :: w.clients
      nfds := w.nfds + 1 }.log (.connected c)

/-- One client of homekit_server_process_notifications. -/
def processNotifications (w : World P) (c : ClientId) : World P :=
  if (w.client c).step ≠ .pairVerify2Of2 then w
  else
    let r := P.app.events c w.app
    sendAll { w with app := r.1 } c r.2

/-- The loop over the list as it was when the loop began: only the current client can be
closed by its own processing, and its `next` is still read after that. -/
def homekitServerProcessNotifications (w : World P) : World P :=
  w.clients.foldl processNotifications w

def processClients (arrivals : ClientId → Arrival) :
    List ClientId → World P → Except Fault (World P)
  | [], w => .ok w
  | c :: cs, w =>
    match homekitClientProcess (arrive w c (arrivals c)) c with
    | .error e => .error e
    | .ok w => processClients arrivals cs w

/-- What one pass of the loop meets: a waiting connection, and the data of each client. -/
structure Pass (P : Platform) where
  incoming : Option (Client P)
  arrivals : ClientId → Arrival

def homekitServerProcess (w : World P) (pass : Pass P) : Except Fault (World P) :=
  let w := match pass.incoming with
    | some raw => homekitServerAcceptClient w raw
    | none => w
  match processClients pass.arrivals w.clients w with
  | .error e => .error e
  | .ok w => .ok (homekitServerProcessNotifications w)

/-- arduino_homekit_loop. -/
def arduinoHomekitLoop (w : World P) (pass : Pass P) : Except Fault (World P) :=
  let w := if w.paired then w else (arduinoHomekitPreinit w.tick).2
  homekitServerProcess w pass

/-- The server after homekit_server_init has read the store `flash`. -/
def serverBoot (accessoryId : Bytes) (accessoryKey : Ed25519Key) (password : Option Bytes)
    (flash : Flash) (app : P.App) (clients : ClientId → Client P)
    (contexts : ContextId → PairingContext) : World P where
  accessoryId := accessoryId
  accessoryKey := accessoryKey
  password := password
  paired := homekitIsPaired P.crypto P.env.flash flash
  pairingContext := none
  nfds := 0
  clients := []
  savedPreinitPairingContext := none
  contexts := contexts
  contextCount := 0
  client := clients
  clientCount := 0
  flash := flash
  app := app
  now := 0
  sends := 0
  trace := []

end ArduinoHomeKit
