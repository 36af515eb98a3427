import Mathlib.Data.List.Nodup
import ArduinoHomeKit.Library.Links
import ArduinoHomeKit.ClientTable

/-! The two loops over the clients, as they walk along the nodes of the list. A client that is
closed on the way leaves the list, and the loop reads its link all the same. -/

namespace ArduinoHomeKit

open Growth Links Runs

variable {P : Platform} {c d : ClientId} {w v w' : World P} {S : Scope P} {e : Event}

/-- The server with the nodes of its client list. -/
structure Nodes (P : Platform) where
  world : World P
  memory : Memory ClientId

/-- The links after a call that may have closed the client. -/
def relink (w w' : World P) (c : ClientId) (m : Memory ClientId) : Memory ClientId :=
  if c ∈ w.clients ∧ c ∉ w'.clients then m.remove w.clients.length c else m

def acceptNode (s : Nodes P) (raw : Client P) : Nodes P where
  world := homekitServerAcceptClient s.world raw
  memory := if s.world.nfds ≥ homekitMaxClients then s.memory else s.memory.push s.world.clientCount

def processNode (arrivals : ClientId → Arrival) (s : Nodes P) (c : ClientId) : Except Fault (Nodes P) :=
  (homekitClientProcess (arrive s.world c (arrivals c)) c).map
    (fun w => { world := w, memory := relink s.world w c s.memory })

def notifyNode (s : Nodes P) (c : ClientId) : Except Fault (Nodes P) :=
  let w := processNotifications s.world c
  .ok { world := w, memory := relink s.world w c s.memory }

/-- The visits of the two loops of a pass, and how it ends. -/
structure PassLog (P : Platform) where
  accepted : Nodes P
  processed : List (Visit ClientId (Nodes P))
  notified : List (Visit ClientId (Nodes P))
  outcome : Except Fault (Nodes P)

/-- homekit_server_process over the nodes. A loop is cut off after as many steps as the list
has nodes. -/
def homekitServerProcessNodes (s : Nodes P) (pass : Pass P) : PassLog P :=
  let s := match pass.incoming with
    | some raw => acceptNode s raw
    | none => s
  let first := walk (processNode pass.arrivals) Nodes.memory s.world.clients.length s.memory.head s
  match first.2 with
  | .error e => { accepted := s, processed := first.1, notified := [], outcome := .error e }
  | .ok (_, t) =>
    let second := walk notifyNode Nodes.memory t.world.clients.length t.memory.head t
    { accepted := s, processed := first.1, notified := second.1, outcome := second.2.map Prod.snd }

/-- arduino_homekit_loop before it comes to the clients. -/
def preparedNodes (s : Nodes P) : Nodes P :=
  { s with world := if s.world.paired then s.world else (arduinoHomekitPreinit s.world.tick).2 }

/-- arduino_homekit_loop over the nodes. -/
def arduinoHomekitLoopNodes (s : Nodes P) (pass : Pass P) : Except Fault (Nodes P) :=
  (homekitServerProcessNodes (preparedNodes s) pass).outcome

def nodesBoot (w : World P) (raw : ClientId → Option ClientId) : Nodes P where
  world := w
  memory := { head := none, next := raw }

/-! What happens to the client whose turn it is. -/

/-- Nothing can be read from the client, and its peer is gone. -/
def FoundDisconnected (w : World P) (c : ClientId) : Prop :=
  ∃ socket, (w.client c).socket = some socket ∧ readable w c socket = [] ∧ socket.isConnected = false

/-- The server when the bytes of the client have been read. -/
def received (w : World P) (c : ClientId) : World P :=
  match (w.client c).socket with
  | none => w
  | some socket => readClient w.tick c socket

/-- One of the writes between two states fails, and the socket was connected. -/
def FailsWrite (w w' : World P) (c : ClientId) : Prop :=
  ∃ socket n, (w.client c).socket = some socket ∧ socket.isConnected = true ∧ w.sends ≤ n ∧ n < w'.sends ∧
    P.env.socketWrite n = .failed

/-- No client is found disconnected at its turn, and no write to a client fails. -/
structure Undisturbed (arrivals : ClientId → Arrival) (r : PassLog P) : Prop where
  connected : ∀ v ∈ r.processed, ¬ FoundDisconnected (arrive v.before.world v.node (arrivals v.node)) v.node
  answered : ∀ v ∈ r.processed,
    ¬ FailsWrite (received (arrive v.before.world v.node (arrivals v.node)) v.node) v.after.world v.node
  notified : ∀ v ∈ r.notified, ¬ FailsWrite v.before.world v.after.world v.node

/-- Every client that stays is processed exactly once. The link of a client is read while it is
in the list, and no handler goes on with a client that was closed. -/
structure PassRight (r : PassLog P) (s : Nodes P) : Prop where
  once : ∀ c ∈ r.accepted.world.clients, c ∈ s.world.clients → (r.processed.map Visit.node).count c = 1
  links : ∀ v ∈ r.processed ++ r.notified, v.node ∈ v.after.world.clients
  uses : ∀ d, .useAfterFree d ∈ s.world.trace → .useAfterFree d ∈ r.accepted.world.trace

/-! One client between two states. -/

/-- The connection is there as it was, or a failed write has closed it. -/
structure Held (c : ClientId) (w v : World P) : Prop where
  clientCount : v.clientCount = w.clientCount
  others : ∀ d, d ≠ c → (v.client d).errorWrite = (w.client d).errorWrite
  sends : w.sends ≤ v.sends
  outcome :
    (v.clients = w.clients ∧ (v.client c).socket = (w.client c).socket ∧ (v.client c).errorWrite = false ∧
      ¬ FailsWrite w v c ∧ ∀ d, .useAfterFree d ∈ v.trace → .useAfterFree d ∈ w.trace) ∨
    (v.clients = w.clients.erase c ∧ (v.client c).socket = none ∧ FailsWrite w v c)

theorem not_failsWrite_self (w v : World P) (h : v.sends ≤ w.sends) : ¬ FailsWrite w v c := by
  rintro ⟨_, n, _, _, h1, h2, _⟩
  omega

theorem Held.refl (he : (w.client c).errorWrite = false) : Held c w w :=
  ⟨rfl, fun _ _ => rfl, Nat.le_refl _, Or.inl ⟨rfl, rfl, he, not_failsWrite_self w w (Nat.le_refl _), fun _ h => h⟩⟩

/-- Updates that touch neither the connection nor its socket. -/
theorem Held.congr (h : Held c w v) (h1 : w'.clientCount = v.clientCount) (h2 : w'.sends = v.sends)
    (h3 : w'.clients = v.clients) (h4 : (w'.client c).socket = (v.client c).socket)
    (h5 : ∀ d, (w'.client d).errorWrite = (v.client d).errorWrite)
    (h6 : ∀ d, .useAfterFree d ∈ w'.trace → .useAfterFree d ∈ v.trace) : Held c w w' where
  clientCount := h1.trans h.clientCount
  others d hd := (h5 d).trans (h.others d hd)
  sends := h2 ▸ h.sends
  outcome := by
    have hf : FailsWrite w w' c ↔ FailsWrite w v c := by simp only [FailsWrite, h2]
    rw [h3, h4, h5, hf]
    exact h.outcome.imp (fun ⟨ha, hb, hc, hd, he⟩ => ⟨ha, hb, hc, hd, fun d hm => he d (h6 d hm)⟩) id

theorem Held.log (h : Held c w v) (he : ∀ d, e ≠ .useAfterFree d) : Held c w (v.log e) := by
  refine h.congr rfl rfl rfl rfl (fun _ => rfl) (fun d hm => ?_)
  rcases List.mem_append.mp hm with hm | hm
  · exact hm
  · exact absurd (List.mem_singleton.mp hm).symm (he d)

theorem Held.client {x : Client P} (h : Held c w v) (h1 : x.socket = (v.client d).socket)
    (h2 : x.errorWrite = (v.client d).errorWrite) : Held c w (v.setClient d x) :=
  h.congr rfl rfl rfl (apply_setClient Client.socket h1 c) (apply_setClient Client.errorWrite h2) (fun _ h => h)

theorem close_sends (w : World P) (c : ClientId) : (homekitServerCloseClient w c).sends = w.sends := by
  by_cases ho : Owns w c
  · obtain ⟨k, hk, ho⟩ := ho
    rw [homekitServerCloseClient_of_owner hk ho]
    rfl
  · rw [homekitServerCloseClient_of_not_owner ho]
    rfl

/-- A write is the next answer of the network. -/
theorem Held.write (h : Held c w v) (data : Bytes) : Held c w (write v c data) := by
  rcases h.outcome with ⟨hcl, hs, he, hf, hu⟩ | ⟨hcl, hs, hf⟩
  · unfold ArduinoHomeKit.write
    split
    · exact h
    · rename_i socket hsock
      have hnext : ¬ (socket.isConnected = true ∧ P.env.socketWrite v.sends = .failed) →
          Held c w { v with sends := v.sends + 1 } := by
        intro hn
        refine ⟨h.clientCount, h.others, Nat.le_succ_of_le h.sends, Or.inl ⟨hcl, hs, he, ?_, hu⟩⟩
        rintro ⟨s, n, h1, h2, h3, h4, h5⟩
        have hlast : n < v.sends ∨ n = v.sends := Nat.lt_succ_iff_lt_or_eq.mp h4
        rcases hlast with hlt | rfl
        · exact hf ⟨s, n, h1, h2, h3, hlt, h5⟩
        · obtain rfl : socket = s := Option.some.inj (hsock.symm.trans (hs.trans h1))
          exact hn ⟨h2, h5⟩
      dsimp only
      split
      · rename_i hc
        refine hnext (fun hn => ?_)
        rcases hc with hc | hc
        · simp [hc] at hn
        · simp [hc] at hn
      · rename_i hc
        simp only [not_or, Bool.not_eq_false] at hc
        split
        · rename_i he'
          exact absurd he' (by simp [he])
        · split
          · rename_i hr
            have hclose := homekitServerCloseClient_closes
              (({ v with sends := v.sends + 1 } : World P).setClient c
                { v.client c with errorWrite := true, disconnect := true }) c
            refine ⟨hclose.clientCount.trans h.clientCount, fun d hd => ?_, ?_, Or.inr ⟨?_, ?_, ?_⟩⟩
            · rw [hclose.client, Function.update_of_ne hd, setClient_of_ne hd]
              exact h.others d hd
            · rw [close_sends]
              exact Nat.le_succ_of_le h.sends
            · rw [hclose.clients]
              exact congrArg (fun l => l.erase c) hcl
            · simp [hclose.client]
            · refine ⟨socket, v.sends, hs ▸ hsock, hc.1, h.sends, ?_, hr⟩
              rw [close_sends]
              exact Nat.lt_succ_self _
          · rename_i hr
            exact (hnext (fun hn => hr hn.2)).log (fun d => by simp)
  · have hw : ArduinoHomeKit.write v c data = v := by simp [ArduinoHomeKit.write, hs]
    rw [hw]
    exact h

theorem Held.send (h : Held c w v) (data : Bytes) : Held c w (clientSend v c data) :=
  clientSend_rule c (fun _ _ h => h.client rfl rfl) (fun _ data h => h.write data) v data h

theorem Held.sendAll (h : Held c w v) (payloads : List Bytes) : Held c w (sendAll v c payloads) := by
  induction payloads generalizing v with
  | nil => exact h
  | cons data payloads ih => exact ih (h.send data)

theorem IsRoutine.ne_useAfterFree (h : IsRoutine e) (d : ClientId) : e ≠ .useAfterFree d := by
  rintro rfl
  exact h

/-- A handler stumbles over its closed client only after the client was closed. -/
theorem Held.change (h : Held c w v) (hc : c ∈ w.clients) (hu : Change S c v w') : Held c w w' := by
  cases hu with
  | client d x hx => exact h.client hx.socket hx.errorWrite
  | log e he => exact h.log he.ne_useAfterFree
  | stray hs =>
    rcases h.outcome with ⟨hcl, _⟩ | hl
    · exact absurd (hcl ▸ hc) hs
    · exact ⟨h.clientCount, h.others, h.sends, Or.inr hl⟩
  | globals flash paired now => exact h.congr rfl rfl rfl rfl (fun _ => rfl) (fun _ hm => hm)
  | serve endpoint _ => exact h.congr rfl rfl rfl rfl (fun _ => rfl) (fun _ hm => hm)
  | preinit =>
    rcases arduinoHomekitPreinit_cases v with ⟨_, he⟩ | ⟨_, ⟨_, he⟩ | ⟨_, he⟩⟩
    · rw [he]
      exact h
    · rw [he]
      exact h.congr rfl rfl rfl rfl (fun _ => rfl) (fun _ hm => by
        simpa [pairingContextFree, World.log, prepared, World.setContext] using hm)
    · rw [he]
      exact h.congr rfl rfl rfl rfl (fun _ => rfl) (fun _ hm => hm)
  | opened k _ _ _ =>
    exact h.congr rfl rfl rfl rfl (fun _ => rfl) (fun _ hm => by
      simpa [openContext, World.log, World.setContext] using hm)
  | refused k srp key _ => exact h.congr rfl rfl rfl rfl (fun _ => rfl) (fun _ hm => hm)
  | spent k srp _ => exact h.congr rfl rfl rfl rfl (fun _ => rfl) (fun _ hm => hm)
  | free k _ => exact h.congr rfl rfl rfl rfl (fun _ => rfl) (fun _ hm => by simpa [pairingContextFree, World.log] using hm)
  | session request pairing _ _ =>
    have hx : Held c w (v.setClient c { v.client c with
        pairingId := pairing.id, permissions := pairing.permissions, encrypted := true, step := .pairVerify2Of2 }) :=
      h.client rfl rfl
    exact hx.log (e := .verified c request) (fun _ => by simp)

theorem Held.handling (h : Held c w v) (hc : c ∈ w.clients) (hh : Handling S c v w') : Held c w w' := by
  obtain ⟨payloads, hp⟩ := hh
  exact hp.invariant (fun _ _ hv hu => hv.change hc hu) (fun _ data hv => hv.send data) h

theorem Held.consume (h : Held c w v) (origins : List Origin) : Held c w (consume v c origins) := h.client rfl rfl

theorem Held.event (h : Held c w v) (hc : c ∈ w.clients) (hcount : c < w.clientCount) {q : ParserEvent}
    (hq : handleEvent v c q = .ok w') : Held c w w' := by
  cases q with
  | messageBegin => exact Except.ok.inj hq ▸ h.client rfl rfl
  | url method data behind => exact Except.ok.inj hq ▸ h.client rfl rfl
  | body data => exact Except.ok.inj hq ▸ h.client rfl rfl
  | messageComplete => exact h.handling hc (messageComplete_handling (h.clientCount ▸ hcount) hq)

theorem Held.callbacks (h : Held c w v) (hc : c ∈ w.clients) (hcount : c < w.clientCount) {origins : List Origin}
    {pos : Nat} {events : List (Nat × ParserEvent)} (hr : runCallbacks c origins pos events v = .ok w') :
    Held c w w' := by
  induction events generalizing pos v with
  | nil => exact Except.ok.inj hr ▸ h.consume _
  | cons q events ih =>
    obtain ⟨next, q⟩ := q
    simp only [runCallbacks] at hr
    split at hr
    · simp at hr
    · rename_i v₁ hv
      exact ih ((h.consume _).event hc hcount hv) hr

theorem Held.execute (h : Held c w v) (hc : c ∈ w.clients) (hcount : c < w.clientCount) {payload : Bytes}
    {origins : List Origin} (hr : httpParserExecute v c payload origins = .ok w') : Held c w w' := by
  unfold httpParserExecute at hr
  have hp : Held c w (v.setClient c { v.client c with parser := (P.http.execute (v.client c).parser payload).1 }) :=
    h.client rfl rfl
  exact (hp.log (e := .parsed c payload) (fun _ => by simp)).callbacks hc hcount hr

theorem Held.processEncrypted (h : Held c w v) (hc : c ∈ w.clients) (hcount : c < w.clientCount) {payload : Bytes}
    (hr : processEncrypted v c payload = .ok w') : Held c w w' := by
  have hset : ∀ k, Held c w (v.setClient c { v.client c with countWrites := k }) := fun k => h.client rfl rfl
  unfold ArduinoHomeKit.processEncrypted at hr
  dsimp only at hr
  split at hr
  · simp at hr
  · split at hr
    · exact Except.ok.inj hr ▸ hset _
    · split at hr
      · exact ((hset _).client (by simp) (by simp)).execute hc hcount hr
      · split at hr
        · exact Except.ok.inj hr ▸ (hset _).client (by simp) (by simp)
        · simp at hr

/-- After its turn a client of the list is there as it was, or it is gone for one of two reasons. -/
structure Turn (c : ClientId) (w w' : World P) (found failed : Prop) : Prop where
  clientCount : w'.clientCount = w.clientCount
  others : ∀ d, d ≠ c → (w'.client d).errorWrite = (w.client d).errorWrite
  outcome :
    (w'.clients = w.clients ∧ (w'.client c).errorWrite = false ∧ (¬ found ∧ ¬ failed) ∧
      ∀ d, .useAfterFree d ∈ w'.trace → .useAfterFree d ∈ w.trace) ∨
    (w'.clients = w.clients.erase c ∧ (found ∨ failed))

theorem Held.turn {found : Prop} (h : Held c v w') (hv : v.clients = w.clients) (hn : v.clientCount = w.clientCount)
    (ho : ∀ d, d ≠ c → (v.client d).errorWrite = (w.client d).errorWrite) (ht : v.trace = w.trace) (hf : ¬ found) :
    Turn c w w' found (FailsWrite v w' c) where
  clientCount := h.clientCount.trans hn
  others d hd := (h.others d hd).trans (ho d hd)
  outcome := by
    rcases h.outcome with ⟨h1, _, h3, h4, h5⟩ | ⟨h1, _, h3⟩
    · exact Or.inl ⟨h1.trans hv, h3, ⟨hf, h4⟩, ht ▸ h5⟩
    · exact Or.inr ⟨hv ▸ h1, Or.inr h3⟩

theorem homekitClientProcess_turn (hc : c ∈ w.clients) (hcount : c < w.clientCount)
    (he : (w.client c).errorWrite = false) (h : homekitClientProcess w c = .ok w') :
    Turn c w w' (FoundDisconnected w c) (FailsWrite (received w c) w' c) := by
  unfold homekitClientProcess at h
  cases hs : (w.client c).socket with
  | none =>
    simp only [hs, Except.ok.injEq] at h
    subst h
    have hr : received w c = w := by rw [received, hs]
    rw [hr]
    refine Held.turn (Held.refl he) rfl rfl (fun _ _ => rfl) rfl ?_
    rintro ⟨socket, hsock, _⟩
    simp [hs] at hsock
  | some socket =>
    have hr : received w c = readClient w.tick c socket := by rw [received, hs]
    have hsame : ∀ s, (w.client c).socket = some s → s = socket := fun s h => Option.some.inj (h.symm.trans hs)
    have hother : ∀ d, d ≠ c → ((readClient w.tick c socket).client d).errorWrite = (w.client d).errorWrite :=
      fun d hd => congrArg Client.errorWrite (setClient_of_ne hd ..)
    have hread : Held c (readClient w.tick c socket) (readClient w.tick c socket) :=
      Held.refl (by rw [readClient, setClient_self]; exact he)
    have htick : readable w.tick c socket = readable w c socket := rfl
    simp only [hs, htick] at h
    rw [hr]
    by_cases hgot : readable w c socket = []
    · rw [if_pos hgot] at h
      by_cases hconn : socket.isConnected = false
      · rw [if_pos hconn] at h
        obtain rfl := Except.ok.inj h
        have hcl := homekitServerCloseClient_closes (w.tick.setClient c { w.tick.client c with disconnect := true }) c
        refine ⟨hcl.clientCount, fun d hd => ?_, Or.inr ⟨hcl.clients, Or.inl ⟨socket, hs, hgot, hconn⟩⟩⟩
        rw [hcl.client, Function.update_of_ne hd, setClient_of_ne hd]
        rfl
      · rw [if_neg hconn] at h
        obtain rfl := Except.ok.inj h
        refine ⟨rfl, fun _ _ => rfl,
          Or.inl ⟨rfl, he, ⟨?_, not_failsWrite_self _ _ (Nat.le_refl _)⟩, fun _ hm => hm⟩⟩
        rintro ⟨s, hsock, _, hd⟩
        obtain rfl := hsame s hsock
        exact hconn hd
    · have hfound : ¬ FoundDisconnected w c := by
        rintro ⟨s, hsock, hn, _⟩
        obtain rfl := hsame s hsock
        exact hgot hn
      rw [if_neg hgot] at h
      refine Held.turn ?_ rfl rfl hother rfl hfound
      split at h
      · exact hread.processEncrypted hc hcount h
      · unfold processPlain at h
        have hplain : Held c (readClient w.tick c socket) ((readClient w.tick c socket).setClient c
            { (readClient w.tick c socket).client c with dataAvailable := 0 }) := hread.client rfl rfl
        exact hplain.execute hc hcount h

theorem processNotifications_turn (he : (w.client c).errorWrite = false) :
    Turn c w (processNotifications w c) False (FailsWrite w (processNotifications w c) c) := by
  refine Held.turn ?_ rfl rfl (fun _ _ => rfl) rfl id
  unfold processNotifications
  split
  · exact Held.refl he
  · have happ : Held c w { w with app := (P.app.events c w.app).1 } :=
      (Held.refl he).congr rfl rfl rfl rfl (fun _ => rfl) (fun _ hm => hm)
    exact happ.sendAll _

theorem arrive_socketless (w : World P) (c : ClientId) (a : Arrival) :
    (arrive w c a).clients = w.clients ∧ (arrive w c a).clientCount = w.clientCount ∧
      (∀ d, ((arrive w c a).client d).errorWrite = (w.client d).errorWrite) ∧ (arrive w c a).trace = w.trace :=
  ⟨rfl, rfl, apply_setClient Client.errorWrite rfl, rfl⟩

/-! The loops. -/

/-- The memory holds the list, and no client of it has failed a write. -/
structure NodesRight (s : Nodes P) : Prop where
  holds : s.memory.Holds s.world.clients
  distinct : s.world.clients.Nodup
  bound : ∀ c ∈ s.world.clients, c < s.world.clientCount
  alive : ∀ c ∈ s.world.clients, (s.world.client c).errorWrite = false

/-- A turn keeps what hangs behind the client. -/
theorem Turn.nodes {s : Nodes P} {found failed : Prop} {pre rest : List ClientId} (h : NodesRight s)
    (hl : s.world.clients = pre ++ c :: rest) (ht : Turn c s.world w' found failed) :
    let t : Nodes P := { world := w', memory := relink s.world w' c s.memory }
    NodesRight t ∧ Chain t.memory.next (t.memory.next c) rest ∧ ∃ pre', w'.clients = pre' ++ rest := by
  have hmem : c ∈ s.world.clients := by simp [hl]
  have hholds : s.memory.Holds (pre ++ c :: rest) := hl ▸ h.holds
  have hnodup : (pre ++ c :: rest).Nodup := hl ▸ h.distinct
  have hpre : c ∉ pre := fun hm => (List.nodup_append.mp hnodup).2.2 c hm c (by simp) rfl
  intro t
  rcases ht.outcome with ⟨hcl, he, _⟩ | ⟨hcl, _⟩
  · have hm : relink s.world w' c s.memory = s.memory := by simp [relink, hcl, hmem]
    have halive : ∀ d ∈ w'.clients, (w'.client d).errorWrite = false := by
      intro d hd
      by_cases hdc : d = c
      · rw [hdc, he]
      · rw [ht.others d hdc]
        exact h.alive d (hcl ▸ hd)
    refine ⟨⟨?_, ?_, ?_, halive⟩, ?_, pre ++ [c], by simp [hcl, hl]⟩
    · show (relink s.world w' c s.memory).Holds w'.clients
      rw [hm, hcl]
      exact h.holds
    · exact hcl ▸ h.distinct
    · intro d hd
      exact ht.clientCount ▸ h.bound d (hcl ▸ hd)
    · show Chain (relink s.world w' c s.memory).next ((relink s.world w' c s.memory).next c) rest
      rw [hm]
      exact hholds.tail
  · have herase : w'.clients = pre ++ rest := by rw [hcl, hl, List.erase_append_right _ hpre, List.erase_cons_head]
    have hnot : c ∉ w'.clients := by
      rw [hcl, h.distinct.mem_erase_iff]
      exact fun hh => hh.1 rfl
    have hm : relink s.world w' c s.memory = s.memory.remove s.world.clients.length c := by
      simp [relink, hmem, hnot]
    have hlen : pre.length ≤ s.world.clients.length := by simp [hl]
    have hr := hholds.remove hnodup hlen
    have hsub : ∀ d ∈ w'.clients, d ∈ s.world.clients ∧ d ≠ c :=
      fun d hd => ⟨List.mem_of_mem_erase (hcl ▸ hd), fun he => hnot (he ▸ hd)⟩
    refine ⟨⟨?_, ?_, ?_, ?_⟩, ?_, pre, herase⟩
    · show (relink s.world w' c s.memory).Holds w'.clients
      rw [hm, herase]
      exact hr.1
    · exact hcl ▸ h.distinct.erase c
    · exact fun d hd => ht.clientCount ▸ h.bound d (hsub d hd).1
    · intro d hd
      rw [ht.others d (hsub d hd).2]
      exact h.alive d (hsub d hd).1
    · show Chain (relink s.world w' c s.memory).next ((relink s.world w' c s.memory).next c) rest
      rw [hm]
      exact hr.2

/-- The nodes of the rest of the loop are the end of the list. -/
def Ahead (s : Nodes P) (l : List ClientId) : Prop := NodesRight s ∧ ∃ pre, s.world.clients = pre ++ l

theorem Ahead.mem {s : Nodes P} {l : List ClientId} (h : Ahead s (c :: l)) : c ∈ s.world.clients := by
  obtain ⟨_, pre, hl⟩ := h
  simp [hl]

/-- The turn of a client in the first loop. -/
def ProcessTurn (arrivals : ClientId → Arrival) (s t : Nodes P) (c : ClientId) : Prop :=
  Turn c s.world t.world (FoundDisconnected (arrive s.world c (arrivals c)) c)
    (FailsWrite (received (arrive s.world c (arrivals c)) c) t.world c)

theorem processNode_turn {arrivals : ClientId → Arrival} {s t : Nodes P} {l : List ClientId} (h : Ahead s (c :: l))
    (ht : processNode arrivals s c = .ok t) :
    ProcessTurn arrivals s t c ∧ t.memory = relink s.world t.world c s.memory := by
  unfold processNode at ht
  cases hp : homekitClientProcess (arrive s.world c (arrivals c)) c with
  | error e => simp [hp, Except.map] at ht
  | ok w' =>
    simp only [hp, Except.map, Except.ok.injEq] at ht
    subst ht
    obtain ⟨_, _, he, htr⟩ := arrive_socketless s.world c (arrivals c)
    have hturn := homekitClientProcess_turn (w := arrive s.world c (arrivals c)) h.mem (h.1.bound c h.mem)
      ((he c).trans (h.1.alive c h.mem)) hp
    refine ⟨⟨hturn.clientCount, fun d hd => (hturn.others d hd).trans (he d), ?_⟩, rfl⟩
    exact htr ▸ hturn.outcome

theorem notifyNode_turn {s t : Nodes P} {l : List ClientId} (h : Ahead s (c :: l)) (ht : notifyNode s c = .ok t) :
    Turn c s.world t.world False (FailsWrite s.world t.world c) ∧ t.memory = relink s.world t.world c s.memory := by
  obtain rfl := Except.ok.inj ht
  exact ⟨processNotifications_turn (h.1.alive c h.mem), rfl⟩

theorem Turn.ahead {s t : Nodes P} {found failed : Prop} {l : List ClientId} (h : Ahead s (c :: l))
    (ht : Turn c s.world t.world found failed) (hm : t.memory = relink s.world t.world c s.memory) :
    Ahead t l ∧ Chain t.memory.next (t.memory.next c) l := by
  obtain ⟨hr, pre, hl⟩ := h
  obtain ⟨h1, h2, h3⟩ := ht.nodes hr hl
  obtain ⟨world, memory⟩ := t
  obtain rfl : memory = relink s.world world c s.memory := hm
  exact ⟨⟨h1, h3⟩, h2⟩

theorem NodesRight.ahead {s : Nodes P} (h : NodesRight s) : Ahead s s.world.clients := ⟨h, [], rfl⟩

theorem processNode_walk {arrivals : ClientId → Arrival} {s : Nodes P} (h : NodesRight s) :
    walk (processNode arrivals) Nodes.memory s.world.clients.length s.memory.head s =
      (trail (processNode arrivals) s s.world.clients,
        (run (processNode arrivals) s s.world.clients).map (fun t => (none, t))) :=
  walk_eq (I := Ahead) (fun _ _ _ _ hs ht => (processNode_turn hs ht).1.ahead hs (processNode_turn hs ht).2) h.ahead
    h.holds (Nat.le_refl _)

theorem notifyNode_walk {s : Nodes P} (h : NodesRight s) :
    walk notifyNode Nodes.memory s.world.clients.length s.memory.head s =
      (trail notifyNode s s.world.clients, (run notifyNode s s.world.clients).map (fun t => (none, t))) :=
  walk_eq (I := Ahead) (fun _ _ _ _ hs ht => (notifyNode_turn hs ht).1.ahead hs (notifyNode_turn hs ht).2) h.ahead
    h.holds (Nat.le_refl _)

/-! A pass. -/

theorem NodesRight.congr {s t : Nodes P} (h : NodesRight s) (h1 : t.memory = s.memory)
    (h2 : t.world.clients = s.world.clients) (h3 : t.world.clientCount = s.world.clientCount)
    (h4 : t.world.client = s.world.client) : NodesRight t := by
  refine ⟨?_, ?_, ?_, ?_⟩
  · rw [h1, h2]
    exact h.holds
  · exact h2 ▸ h.distinct
  · rw [h2, h3]
    exact h.bound
  · rw [h2, h4]
    exact h.alive

theorem NodesRight.accept {s : Nodes P} (h : NodesRight s) (raw : Client P) : NodesRight (acceptNode s raw) := by
  unfold acceptNode homekitServerAcceptClient
  split
  · exact h
  · have hnew : s.world.clientCount ∉ s.world.clients := fun hm => Nat.lt_irrefl _ (h.bound _ hm)
    refine ⟨h.holds.push hnew, List.nodup_cons.mpr ⟨hnew, h.distinct⟩, fun c hc => ?_, fun c hc => ?_⟩
    · rcases List.mem_cons.mp hc with rfl | hc
      · exact Nat.lt_succ_self _
      · exact Nat.lt_succ_of_lt (h.bound c hc)
    · rcases List.mem_cons.mp hc with rfl | hc
      · exact congrArg Client.errorWrite (setClient_self ..)
      · have hne : c ≠ s.world.clientCount := ne_of_mem_of_not_mem hc hnew
        exact (congrArg Client.errorWrite (setClient_of_ne hne ..)).trans (h.alive c hc)

theorem NodesRight.prepared {s : Nodes P} (h : NodesRight s) : NodesRight (preparedNodes s) := by
  have hq := arduinoHomekitPreinit_cases s.world.tick
  unfold preparedNodes
  split
  · exact h
  · rcases hq with ⟨_, he⟩ | ⟨_, ⟨_, he⟩ | ⟨_, he⟩⟩ <;> rw [he] <;> exact h.congr rfl rfl rfl rfl

/-- The loop over a list reaches its end with the memory right. -/
theorem NodesRight.run {visit : Nodes P → ClientId → Except Fault (Nodes P)} {s t : Nodes P}
    (hv : ∀ s c l t, Ahead s (c :: l) → visit s c = .ok t → Ahead t l) (h : NodesRight s)
    (hr : Runs.run visit s s.world.clients = .ok t) : NodesRight t := by
  have hrun : ∀ (l : List ClientId) (s : Nodes P), Ahead s l → Runs.run visit s l = .ok t → NodesRight t := by
    intro l
    induction l with
    | nil => exact fun s hs hr => Except.ok.inj hr ▸ hs.1
    | cons c l ih =>
      intro s hs hr
      obtain ⟨u, hu, ht⟩ := run_cons_ok.mp hr
      exact ih u (hv s c l u hs hu) ht
  exact hrun _ s h.ahead hr

theorem processNode_ahead {arrivals : ClientId → Arrival} (s : Nodes P) (c : ClientId) (l : List ClientId) (t : Nodes P)
    (hs : Ahead s (c :: l)) (ht : processNode arrivals s c = .ok t) : Ahead t l :=
  ((processNode_turn hs ht).1.ahead hs (processNode_turn hs ht).2).1

theorem notifyNode_ahead (s : Nodes P) (c : ClientId) (l : List ClientId) (t : Nodes P) (hs : Ahead s (c :: l))
    (ht : notifyNode s c = .ok t) : Ahead t l :=
  ((notifyNode_turn hs ht).1.ahead hs (notifyNode_turn hs ht).2).1

/-- A pass that returns has run both loops over the lists as they were when the loops began. -/
theorem homekitServerProcessNodes_loops {s s' : Nodes P} {pass : Pass P} (h : NodesRight s)
    (hs : (homekitServerProcessNodes s pass).outcome = .ok s') :
    ∃ a t, NodesRight a ∧ NodesRight t ∧ NodesRight s' ∧
      run (processNode pass.arrivals) a a.world.clients = .ok t ∧ run notifyNode t t.world.clients = .ok s' ∧
      homekitServerProcessNodes s pass =
        { accepted := a
          processed := trail (processNode pass.arrivals) a a.world.clients
          notified := trail notifyNode t t.world.clients
          outcome := .ok s' } := by
  unfold homekitServerProcessNodes at hs ⊢
  generalize ha : (match pass.incoming with
    | some raw => acceptNode s raw
    | none => s) = a at hs ⊢
  have hright : NodesRight a := by
    cases hi : pass.incoming with
    | none =>
      simp only [hi] at ha
      exact ha ▸ h
    | some raw =>
      simp only [hi] at ha
      exact ha ▸ h.accept raw
  dsimp only at hs ⊢
  rw [processNode_walk hright] at hs ⊢
  cases hp : run (processNode pass.arrivals) a a.world.clients with
  | error e => simp [hp, Except.map] at hs
  | ok t =>
    have ht := hright.run processNode_ahead hp
    simp only [hp, Except.map] at hs ⊢
    rw [notifyNode_walk ht] at hs ⊢
    cases hn : run notifyNode t t.world.clients with
    | error e => simp [hn, Except.map] at hs
    | ok u =>
      simp only [hn, Except.map, Except.ok.injEq] at hs ⊢
      obtain rfl := hs
      exact ⟨a, t, hright, ht, ht.run notifyNode_ahead hn, hp, hn, rfl⟩

theorem Turn.stays_iff {found failed : Prop} (h : Turn c w w' found failed) (hd : w.clients.Nodup) (hc : c ∈ w.clients) :
    c ∈ w'.clients ↔ ¬ found ∧ ¬ failed := by
  rcases h.outcome with ⟨hcl, _, hn, _⟩ | ⟨hcl, hn⟩
  · exact ⟨fun _ => hn, fun _ => hcl ▸ hc⟩
  · constructor
    · intro hm
      rw [hcl, hd.mem_erase_iff] at hm
      exact absurd rfl hm.1
    · rintro ⟨h1, h2⟩
      exact absurd hn (not_or.mpr ⟨h1, h2⟩)

/-- Nothing is lost between two states. -/
structure Whole (w w' : World P) : Prop where
  clients : w'.clients = w.clients
  uses : ∀ d, .useAfterFree d ∈ w'.trace → .useAfterFree d ∈ w.trace

theorem Whole.trans {w'' : World P} (h : Whole w w') (hh : Whole w' w'') : Whole w w'' :=
  ⟨hh.clients.trans h.clients, fun d hd => h.uses d (hh.uses d hd)⟩

theorem Turn.whole {found failed : Prop} (h : Turn c w w' found failed) (h1 : ¬ found) (h2 : ¬ failed) : Whole w w' := by
  rcases h.outcome with ⟨hcl, _, _, hu⟩ | ⟨_, hn⟩
  · exact ⟨hcl, hu⟩
  · exact absurd hn (not_or.mpr ⟨h1, h2⟩)

theorem processNode_visits {arrivals : ClientId → Arrival} {s : Nodes P} (h : NodesRight s)
    {v : Visit ClientId (Nodes P)} (hv : v ∈ trail (processNode arrivals) s s.world.clients) :
    ProcessTurn arrivals v.before v.after v.node ∧ v.before.world.clients.Nodup ∧ v.node ∈ v.before.world.clients := by
  obtain ⟨hvisit, rest, ha⟩ := trail_invariant processNode_ahead h.ahead hv
  exact ⟨(processNode_turn ha hvisit).1, ha.1.distinct, ha.mem⟩

theorem notifyNode_visits {s : Nodes P} (h : NodesRight s) {v : Visit ClientId (Nodes P)}
    (hv : v ∈ trail notifyNode s s.world.clients) :
    Turn v.node v.before.world v.after.world False (FailsWrite v.before.world v.after.world v.node) ∧
      v.before.world.clients.Nodup ∧ v.node ∈ v.before.world.clients := by
  obtain ⟨hvisit, rest, ha⟩ := trail_invariant notifyNode_ahead h.ahead hv
  exact ⟨(notifyNode_turn ha hvisit).1, ha.1.distinct, ha.mem⟩

theorem homekitServerProcessNodes_right_iff {s s' : Nodes P} {pass : Pass P} (h : NodesRight s)
    (hs : (homekitServerProcessNodes s pass).outcome = .ok s') :
    PassRight (homekitServerProcessNodes s pass) s' ↔
      Undisturbed pass.arrivals (homekitServerProcessNodes s pass) := by
  obtain ⟨a, t, ha, ht, _, hp, hn, hlog⟩ := homekitServerProcessNodes_loops h hs
  rw [hlog]
  have hfirst := fun v (hv : v ∈ trail (processNode pass.arrivals) a a.world.clients) => processNode_visits ha hv
  have hsecond := fun v hv => notifyNode_visits ht (v := v) hv
  constructor
  · intro hr
    have hstay := fun v (hv : v ∈ trail (processNode pass.arrivals) a a.world.clients) =>
      ((hfirst v hv).1.stays_iff (hfirst v hv).2.1 (hfirst v hv).2.2).mp (hr.links v (List.mem_append_left _ hv))
    exact ⟨fun v hv => (hstay v hv).1, fun v hv => (hstay v hv).2, fun v hv =>
      (((hsecond v hv).1.stays_iff (hsecond v hv).2.1 (hsecond v hv).2.2).mp
        (hr.links v (List.mem_append_right _ hv))).2⟩
  · intro hu
    have hw1 : Whole a.world t.world :=
      trail_trans (R := fun s t => Whole s.world t.world) (fun _ => ⟨rfl, fun _ hd => hd⟩)
        (fun _ _ _ => Whole.trans) hp (fun v hv => (hfirst v hv).1.whole (hu.connected v hv) (hu.answered v hv))
    have hw2 : Whole t.world s'.world :=
      trail_trans (R := fun s t => Whole s.world t.world) (fun _ => ⟨rfl, fun _ hd => hd⟩)
        (fun _ _ _ => Whole.trans) hn (fun v hv => (hsecond v hv).1.whole id (hu.notified v hv))
    refine ⟨fun c hc _ => ?_, fun v hv => ?_, fun d hd => hw1.uses d (hw2.uses d hd)⟩
    · rw [trail_nodes hp]
      exact List.count_eq_one_of_mem ha.distinct hc
    · rcases List.mem_append.mp hv with hv | hv
      · exact ((hfirst v hv).1.stays_iff (hfirst v hv).2.1 (hfirst v hv).2.2).mpr
          ⟨hu.connected v hv, hu.answered v hv⟩
      · exact ((hsecond v hv).1.stays_iff (hsecond v hv).2.1 (hsecond v hv).2.2).mpr ⟨id, hu.notified v hv⟩

theorem arduinoHomekitLoopNodes_right (s : Nodes P) (pass : Pass P) (s' : Nodes P) (h : NodesRight s)
    (hs : arduinoHomekitLoopNodes s pass = .ok s') : NodesRight s' := by
  obtain ⟨_, _, _, _, hr, _⟩ := homekitServerProcessNodes_loops h.prepared hs
  exact hr

theorem nodesBoot_right {w : World P} (hw : w.clients = []) (raw : ClientId → Option ClientId) :
    NodesRight (nodesBoot w raw) := by
  have hcl : (nodesBoot w raw).world.clients = [] := hw
  refine ⟨?_, ?_, ?_, ?_⟩
  · rw [hcl]
    exact .nil
  · simp [hcl]
  · simp [hcl]
  · simp [hcl]

/-- The loop over the nodes is the loop over the list as it was when the loop began. -/
theorem arduinoHomekitLoopNodes_world {s s' : Nodes P} {pass : Pass P} (h : NodesRight s)
    (hs : arduinoHomekitLoopNodes s pass = .ok s') : arduinoHomekitLoop s.world pass = .ok s'.world := by
  have hclients : ∀ (l : List ClientId) (s t : Nodes P), run (processNode pass.arrivals) s l = .ok t →
      processClients pass.arrivals l s.world = .ok t.world := by
    intro l
    induction l with
    | nil => exact fun s t hr => congrArg (Except.map Nodes.world) hr
    | cons c l ih =>
      intro s t hr
      obtain ⟨u, hu, ht⟩ := run_cons_ok.mp hr
      unfold processNode at hu
      cases hp : homekitClientProcess (arrive s.world c (pass.arrivals c)) c with
      | error e => simp [hp, Except.map] at hu
      | ok w' =>
        simp only [hp, Except.map, Except.ok.injEq] at hu
        subst hu
        simp only [processClients, hp]
        exact ih _ t ht
  have hnotify : ∀ (l : List ClientId) (s t : Nodes P), run notifyNode s l = .ok t →
      l.foldl processNotifications s.world = t.world := by
    intro l
    induction l with
    | nil => exact fun s t hr => congrArg Nodes.world (Except.ok.inj hr)
    | cons c l ih =>
      intro s t hr
      obtain ⟨u, hu, ht⟩ := run_cons_ok.mp hr
      obtain rfl := Except.ok.inj hu
      exact ih _ t ht
  obtain ⟨a, t, _, _, _, hp, hn, hlog⟩ := homekitServerProcessNodes_loops h.prepared hs
  have hacc : a = (homekitServerProcessNodes (preparedNodes s) pass).accepted := by rw [hlog]
  have haw : a.world = match pass.incoming with
      | some raw => homekitServerAcceptClient (preparedNodes s).world raw
      | none => (preparedNodes s).world := by
    rw [hacc]
    unfold homekitServerProcessNodes
    dsimp only
    cases pass.incoming with
    | none => split <;> rfl
    | some raw => split <;> rfl
  have hpre : (preparedNodes s).world = if s.world.paired then s.world else (arduinoHomekitPreinit s.world.tick).2 := rfl
  unfold arduinoHomekitLoop homekitServerProcess
  dsimp only
  rw [← hpre]
  cases hi : pass.incoming with
  | none =>
    simp only [hi] at haw ⊢
    rw [← haw, hclients _ a t hp]
    dsimp only
    rw [homekitServerProcessNotifications, hnotify _ t s' hn]
  | some raw =>
    simp only [hi] at haw ⊢
    rw [← haw, hclients _ a t hp]
    dsimp only
    rw [homekitServerProcessNotifications, hnotify _ t s' hn]

/-- From boot on, every pass is right exactly if no client is lost in it. -/
theorem passRight_iff (accessoryId : Bytes) (accessoryKey : Ed25519Key) (password : Option Bytes)
    (flash : Flash) (app : P.App) (clients : ClientId → Client P) (contexts : ContextId → PairingContext)
    (raw : ClientId → Option ClientId) {passes : List (Pass P)} {pass : Pass P} {s s' : Nodes P}
    (hr : run arduinoHomekitLoopNodes
      (nodesBoot (serverBoot accessoryId accessoryKey password flash app clients contexts) raw) passes = .ok s)
    (hs : arduinoHomekitLoopNodes s pass = .ok s') :
    PassRight (homekitServerProcessNodes (preparedNodes s) pass) s' ↔
      Undisturbed pass.arrivals (homekitServerProcessNodes (preparedNodes s) pass) :=
  homekitServerProcessNodes_right_iff
    (Runs.invariant arduinoHomekitLoopNodes_right (nodesBoot_right rfl raw) hr).prepared hs

/-- A pass in which nothing arrives. -/
def silentPass (incoming : Option (Client bench)) : Pass bench where
  incoming := incoming
  arrivals _ := { bytes := [], connected := true }

/-- The peer of the first connection is gone. -/
def leavingPass : Pass bench where
  incoming := none
  arrivals c := { bytes := [], connected := c != 0 }

def benchNodes : Nodes bench := nodesBoot (benchBoot []) (fun _ => none)

/-- The two clients are processed, and the links that are read belong to clients of the list or not. -/
def passEnds (passes : List (Pass bench)) (pass : Pass bench) (links : List (ClientId × Bool)) : Bool :=
  match run arduinoHomekitLoopNodes benchNodes passes with
  | .error _ => false
  | .ok s =>
    (match arduinoHomekitLoopNodes s pass with
      | .ok _ => true
      | .error _ => false) &&
      decide ((homekitServerProcessNodes (preparedNodes s) pass).processed.map
        (fun v => (v.node, decide (v.node ∈ v.after.world.clients))) = links)

theorem passEnds_spec {passes : List (Pass bench)} {pass : Pass bench} {links : List (ClientId × Bool)}
    (h : passEnds passes pass links = true) :
    ∃ s s', run arduinoHomekitLoopNodes benchNodes passes = .ok s ∧ arduinoHomekitLoopNodes s pass = .ok s' ∧
      (homekitServerProcessNodes (preparedNodes s) pass).processed.map
        (fun v => (v.node, decide (v.node ∈ v.after.world.clients))) = links := by
  unfold passEnds at h
  split at h
  · simp at h
  · rename_i s hs
    rw [Bool.and_eq_true, decide_eq_true_eq] at h
    cases hs' : arduinoHomekitLoopNodes s pass with
    | error e => simp [hs'] at h
    | ok s' => exact ⟨s, s', hs, hs', h.2⟩

theorem quiet_pass_run :
    passEnds [silentPass (some benchClient), silentPass (some benchClient)] (silentPass none)
    [(1, true), (0, true)] = true := by
  decide +kernel

/-- Nothing happens on two connections: their pass is right exactly if it is undisturbed. -/
theorem passRight_iff_bench :
    ∃ s s', run arduinoHomekitLoopNodes benchNodes [silentPass (some benchClient), silentPass (some benchClient)] =
        .ok s ∧
      arduinoHomekitLoopNodes s (silentPass none) = .ok s' ∧
      (PassRight (homekitServerProcessNodes (preparedNodes s) (silentPass none)) s' ↔
        Undisturbed (silentPass none).arrivals (homekitServerProcessNodes (preparedNodes s) (silentPass none))) := by
  obtain ⟨s, s', hs, hs', _⟩ := passEnds_spec quiet_pass_run
  exact ⟨s, s', hs, hs', passRight_iff _ _ _ _ _ _ _ _ hs hs'⟩

theorem leaving_pass_run :
    passEnds [silentPass (some benchClient), silentPass (some benchClient)] leavingPass
    [(1, true), (0, false)] = true := by
  decide +kernel

/-- The first of two clients is found disconnected and closed, and then its link is read. -/
theorem closed_client_followed :
    ∃ s s', run arduinoHomekitLoopNodes benchNodes [silentPass (some benchClient), silentPass (some benchClient)] =
        .ok s ∧
      arduinoHomekitLoopNodes s leavingPass = .ok s' ∧
      ¬ PassRight (homekitServerProcessNodes (preparedNodes s) leavingPass) s' := by
  obtain ⟨s, s', hs, hs', hl⟩ := passEnds_spec leaving_pass_run
  refine ⟨s, s', hs, hs', fun hr => ?_⟩
  have hmem : (0, false) ∈ (homekitServerProcessNodes (preparedNodes s) leavingPass).processed.map
      (fun v => (v.node, decide (v.node ∈ v.after.world.clients))) := by simp [hl]
  obtain ⟨v, hv, he⟩ := List.mem_map.mp hmem
  have hlink := hr.links v (List.mem_append_left _ hv)
  simp [hlink] at he

end ArduinoHomeKit
