import ArduinoHomeKit.ServerLoop
import ArduinoHomeKit.Library.Runs

/-! The server as a machine, at two levels: the calls the loop makes, and the single
parser callbacks within them. Every run of the loop is a run of either machine, and the
runs of the machines allow every interleaving of connections and messages. -/

namespace ArduinoHomeKit

open Runs

variable {P : Platform}

/-- The calls made by the loop. -/
inductive Call (P : Platform)
  | accept (raw : Client P)
  | preinit
  | process (c : ClientId) (arrival : Arrival)
  | notify (c : ClientId)

/-- A client that was never accepted has no context to call anything with. -/
def call (w : World P) : Call P → Except Fault (World P)
  | .accept raw => .ok (homekitServerAcceptClient w raw)
  | .preinit => .ok (arduinoHomekitPreinit w.tick).2
  | .process c arrival =>
    if c < w.clientCount then homekitClientProcess (arrive w c arrival) c else .ok w
  | .notify c => if c < w.clientCount then .ok (processNotifications w c) else .ok w

/-- The part of a client that reading and parsing change between two callbacks. -/
structure Buffering (P : Platform) where
  socket : Socket
  data : Bytes
  dataAvailable : Nat
  countWrites : Nat
  parser : P.Parser
  pending : Option (List Origin)

def setBuffering (w : World P) (c : ClientId) (b : Buffering P) : World P :=
  w.setClient c
    { w.client c with
      socket := (w.client c).socket.map (fun _ => b.socket)
      data := b.data
      dataAvailable := b.dataAvailable
      countWrites := b.countWrites
      parser := b.parser
      pending := b.pending }

inductive Action (P : Platform)
  | accept (raw : Client P)
  | preinit
  | tick
  | buffer (c : ClientId) (b : Buffering P)
  | parsed (c : ClientId) (payload : Bytes)
  | event (c : ClientId) (e : ParserEvent)
  | close (c : ClientId)
  | notify (c : ClientId)

/-- One action of the server. -/
def step (w : World P) : Action P → Except Fault (World P)
  | .accept raw => .ok (homekitServerAcceptClient w raw)
  | .preinit => .ok (arduinoHomekitPreinit w.tick).2
  | .tick => .ok w.tick
  | .buffer c b => if c < w.clientCount then .ok (setBuffering w c b) else .ok w
  | .parsed c payload => .ok (w.log (.parsed c payload))
  | .event c e => if c < w.clientCount then handleEvent w c e else .ok w
  | .close c =>
    if c < w.clientCount then
      .ok (homekitServerCloseClient (w.setClient c { w.client c with disconnect := true }) c)
    else .ok w
  | .notify c => if c < w.clientCount then .ok (processNotifications w c) else .ok w

end ArduinoHomeKit
