import Mathlib.Data.List.Perm.Basic
import ArduinoHomeKit.Library.Growth
import ArduinoHomeKit.ServerLoop

/-! Sending data to a client. Nothing else moves but the client's own connection, which a
failed write closes on the spot. -/

namespace ArduinoHomeKit

open Growth

variable {P : Platform} {c : ClientId} {w w' w'' : World P}

/-- The entries that sending may add to the log. -/
def IsOutput (c : ClientId) : Event → Prop
  | .sent d _ | .closed d => d = c
  | .contextFreed _ => True
  | _ => False

/-- What stays of a client whatever is sent to it. -/
def Client.core (x : Client P) : Client P :=
  { x with socket := none, disconnect := false, countReads := 0, step := .none, errorWrite := false }

/-- The connection has survived. -/
structure StillOpen (c : ClientId) (w w' : World P) : Prop where
  clients : w'.clients = w.clients
  pairingContext : w'.pairingContext = w.pairingContext
  saved : w'.savedPreinitPairingContext = w.savedPreinitPairingContext
  socket : (w'.client c).socket = (w.client c).socket
  step : (w'.client c).step = (w.client c).step
  disconnect : (w'.client c).disconnect = (w.client c).disconnect
  errorWrite : (w'.client c).errorWrite = (w.client c).errorWrite

/-- The connection was closed on the way. -/
structure ClosedNow (c : ClientId) (w w' : World P) : Prop where
  opened : (w.client c).socket ≠ none
  clients : w'.clients = w.clients.erase c
  pairingContext : w'.pairingContext = w.pairingContext ∨ w'.pairingContext = none
  saved : w'.savedPreinitPairingContext = w.savedPreinitPairingContext ∨
    w'.savedPreinitPairingContext = none
  dropped : ∀ k, w.pairingContext = some k → w'.savedPreinitPairingContext = some k →
    w'.pairingContext = some k
  socket : (w'.client c).socket = none
  step : (w'.client c).step = .done
  disconnect : (w'.client c).disconnect = true

structure Sends (c : ClientId) (w w' : World P) : Prop where
  flash : w'.flash = w.flash
  paired : w'.paired = w.paired
  now : w'.now = w.now
  contexts : w'.contexts = w.contexts
  contextCount : w'.contextCount = w.contextCount
  clientCount : w'.clientCount = w.clientCount
  core : (w'.client c).core = (w.client c).core
  other : ∀ d, d ≠ c → w'.client d = w.client d
  trace : Adds (IsOutput c) w.trace w'.trace
  outcome : StillOpen c w w' ∨ ClosedNow c w w'

@[simp] theorem setClient_self (w : World P) (c : ClientId) (x : Client P) :
    (w.setClient c x).client c = x := Function.update_self ..

theorem setClient_of_ne {d : ClientId} (h : d ≠ c) (w : World P) (x : Client P) :
    (w.setClient c x).client d = w.client d := Function.update_of_ne h ..

/-- What the new client has in common with the old one, all clients have. -/
theorem apply_setClient {β : Type*} (f : Client P → β) {x : Client P} (hx : f x = f (w.client c)) (d : ClientId) :
    f ((w.setClient c x).client d) = f (w.client d) := by
  by_cases hd : d = c
  · rw [hd, setClient_self, hx]
  · rw [setClient_of_ne hd]

theorem unlink_eq_erase (c : ClientId) (l : List ClientId) : unlink c l = l.erase c := by
  induction l with
  | nil => rfl
  | cons d ds ih =>
    by_cases h : d = c
    · simp [unlink, h]
    · simp [unlink, h, ih]

theorem StillOpen.refl (c : ClientId) (w : World P) : StillOpen c w w :=
  ⟨rfl, rfl, rfl, rfl, rfl, rfl, rfl⟩

theorem StillOpen.trans (h : StillOpen c w w') (hh : StillOpen c w' w'') : StillOpen c w w'' :=
  ⟨hh.clients.trans h.clients, hh.pairingContext.trans h.pairingContext, hh.saved.trans h.saved,
    hh.socket.trans h.socket, hh.step.trans h.step, hh.disconnect.trans h.disconnect,
    hh.errorWrite.trans h.errorWrite⟩

theorem StillOpen.closed (h : StillOpen c w w') (hh : ClosedNow c w' w'') : ClosedNow c w w'' where
  opened := h.socket ▸ hh.opened
  clients := h.clients ▸ hh.clients
  pairingContext := h.pairingContext ▸ hh.pairingContext
  saved := h.saved ▸ hh.saved
  dropped k hk := hh.dropped k (h.pairingContext.trans hk)
  socket := hh.socket
  step := hh.step
  disconnect := hh.disconnect

theorem ClosedNow.stillOpen (h : ClosedNow c w w') (hh : StillOpen c w' w'') : ClosedNow c w w'' where
  opened := h.opened
  clients := hh.clients.trans h.clients
  pairingContext := hh.pairingContext ▸ h.pairingContext
  saved := hh.saved ▸ h.saved
  dropped k hk hs := hh.pairingContext.trans (h.dropped k hk (hh.saved ▸ hs))
  socket := hh.socket.trans h.socket
  step := hh.step.trans h.step
  disconnect := hh.disconnect.trans h.disconnect

theorem Sends.refl (c : ClientId) (w : World P) : Sends c w w :=
  ⟨rfl, rfl, rfl, rfl, rfl, rfl, rfl, fun _ _ => rfl, Adds.refl _ _, Or.inl (StillOpen.refl c w)⟩

theorem Sends.trans (h : Sends c w w') (hh : Sends c w' w'') : Sends c w w'' where
  flash := hh.flash.trans h.flash
  paired := hh.paired.trans h.paired
  now := hh.now.trans h.now
  contexts := hh.contexts.trans h.contexts
  contextCount := hh.contextCount.trans h.contextCount
  clientCount := hh.clientCount.trans h.clientCount
  core := hh.core.trans h.core
  other d hd := (hh.other d hd).trans (h.other d hd)
  trace := h.trace.trans hh.trace
  outcome := by
    rcases h.outcome with ho | hc <;> rcases hh.outcome with ho' | hc'
    · exact Or.inl (ho.trans ho')
    · exact Or.inr (ho.closed hc')
    · exact Or.inr (hc.stillOpen ho')
    -- a closed client has no socket left to be closed again
    · exact absurd hc.socket hc'.opened

theorem Sends.log {e : Event} (he : IsOutput c e) (w : World P) : Sends c w (w.log e) :=
  ⟨rfl, rfl, rfl, rfl, rfl, rfl, rfl, fun _ _ => rfl, Adds.single _ he, Or.inl ⟨rfl, rfl, rfl, rfl, rfl, rfl, rfl⟩⟩

theorem Sends.countReads (c : ClientId) (w : World P) (n : Nat) :
    Sends c w (w.setClient c { w.client c with countReads := n }) where
  flash := rfl
  paired := rfl
  now := rfl
  contexts := rfl
  contextCount := rfl
  clientCount := rfl
  core := by simp [Client.core]
  other d hd := setClient_of_ne hd ..
  trace := Adds.refl _ _
  outcome := Or.inl ⟨rfl, rfl, rfl, by simp, by simp, by simp, by simp⟩

/-- What closing the client `c` does. -/
structure Closes (c : ClientId) (w w' : World P) : Prop where
  flash : w'.flash = w.flash
  paired : w'.paired = w.paired
  now : w'.now = w.now
  contexts : w'.contexts = w.contexts
  contextCount : w'.contextCount = w.contextCount
  clientCount : w'.clientCount = w.clientCount
  client : w'.client = Function.update w.client c { w.client c with step := .done, socket := none }
  clients : w'.clients = w.clients.erase c
  pairingContext : w'.pairingContext = w.pairingContext ∨ w'.pairingContext = none
  saved : w'.savedPreinitPairingContext = w.savedPreinitPairingContext ∨
    w'.savedPreinitPairingContext = none
  dropped : ∀ k, w.pairingContext = some k → w'.savedPreinitPairingContext = some k →
    w'.pairingContext = some k
  trace : Adds (IsOutput c) w.trace w'.trace

theorem pairingContextFree_saved (w : World P) (k : ContextId) :
    (pairingContextFree w k).savedPreinitPairingContext ≠ some k := by
  by_cases hs : w.savedPreinitPairingContext = some k
  · simp [pairingContextFree, World.log, hs]
  · simp [pairingContextFree, World.log, hs]

/-- The pairing context in use is the one of the connection. -/
def Owns (w : World P) (c : ClientId) : Prop :=
  ∃ k, w.pairingContext = some k ∧ (w.contexts k).client = some c

/-- Closing the client, its pairing context apart. -/
def unlinked (w : World P) (c : ClientId) : World P :=
  { w.setClient c { w.client c with step := .done, socket := none } with
    nfds := w.nfds - 1
    clients := unlink c w.clients
    app := P.app.clearNotifyCallbacks c w.app }

theorem homekitServerCloseClient_of_owner {k : ContextId} (hk : w.pairingContext = some k)
    (ho : (w.contexts k).client = some c) :
    homekitServerCloseClient w c =
      { pairingContextFree (unlinked w c) k with pairingContext := none }.log (.closed c) := by
  simp [homekitServerCloseClient, unlinked, World.setClient, hk, ho, pairingContextFree, World.log]

theorem homekitServerCloseClient_of_not_owner (ho : ¬ Owns w c) :
    homekitServerCloseClient w c = (unlinked w c).log (.closed c) := by
  simp only [Owns, not_exists, not_and] at ho
  simp only [homekitServerCloseClient, unlinked, World.setClient]
  split
  · rename_i k hk
    simp [ho k hk]
  · rfl

theorem homekitServerCloseClient_closes (w : World P) (c : ClientId) :
    Closes c w (homekitServerCloseClient w c) := by
  have hclosed : IsOutput c (.closed c) := rfl
  by_cases ho : Owns w c
  · obtain ⟨k, hk, ho⟩ := ho
    rw [homekitServerCloseClient_of_owner hk ho]
    refine ⟨rfl, rfl, rfl, rfl, rfl, rfl, rfl, unlink_eq_erase c _, Or.inr rfl, ?_, ?_, ?_⟩
    · by_cases hs : w.savedPreinitPairingContext = some k
      · exact Or.inr (if_pos hs)
      · exact Or.inl (if_neg hs)
    · intro j hj hs
      obtain rfl : k = j := Option.some.inj (hk.symm.trans hj)
      exact absurd hs (pairingContextFree_saved _ k)
    · exact (Adds.single _ (by trivial : IsOutput c (.contextFreed k))).trans (Adds.single _ hclosed)
  · rw [homekitServerCloseClient_of_not_owner ho]
    exact ⟨rfl, rfl, rfl, rfl, rfl, rfl, rfl, unlink_eq_erase c _, Or.inl rfl, Or.inl rfl,
      fun _ hk _ => hk, Adds.single _ hclosed⟩

/-- Closing a client whose mark is set, as both callers do. -/
theorem Sends.close (w : World P) (c : ClientId) (b : Bool) (h : (w.client c).socket ≠ none) :
    Sends c w (homekitServerCloseClient
      (w.setClient c { w.client c with errorWrite := b, disconnect := true }) c) := by
  have h' := homekitServerCloseClient_closes
    (w.setClient c { w.client c with errorWrite := b, disconnect := true }) c
  refine ⟨h'.flash, h'.paired, h'.now, h'.contexts, h'.contextCount, h'.clientCount, ?_, ?_, h'.trace,
    Or.inr ⟨h, h'.clients, h'.pairingContext, h'.saved, h'.dropped, ?_, ?_, ?_⟩⟩
  · simp [h'.client, Client.core]
  · intro d hd
    rw [h'.client, Function.update_of_ne hd, setClient_of_ne hd]
  all_goals simp [h'.client]

theorem Sends.sends (h : Sends c { w with sends := w.sends + 1 } w') : Sends c w w' :=
  ⟨h.flash, h.paired, h.now, h.contexts, h.contextCount, h.clientCount, h.core, h.other, h.trace,
    h.outcome.imp (fun ho => ⟨ho.1, ho.2, ho.3, ho.4, ho.5, ho.6, ho.7⟩)
      (fun hc => ⟨hc.1, hc.2, hc.3, hc.4, hc.5, hc.6, hc.7, hc.8⟩)⟩

theorem write_sends (w : World P) (c : ClientId) (data : Bytes) : Sends c w (write w c data) := by
  unfold write
  split
  · exact Sends.refl c w
  · rename_i socket hs
    apply Sends.sends
    dsimp only
    split
    · exact Sends.refl c _
    · split
      · exact Sends.refl c _
      · split
        · exact Sends.close _ c true (by simp [hs])
        · exact Sends.log (e := .sent c data) rfl _

theorem clientSendEncryptedLoop_sends (fuel : Nat) (nonce payload : Bytes) (w : World P) (c : ClientId) :
    Sends c w (clientSendEncryptedLoop c fuel nonce payload w) := by
  induction fuel generalizing nonce payload w with
  | zero => exact Sends.refl c w
  | succ fuel ih =>
    unfold clientSendEncryptedLoop
    split
    · exact Sends.refl c w
    · dsimp only
      split
      · exact Sends.countReads c w _
      · exact (Sends.countReads c w _).trans ((write_sends _ c _).trans (ih _ _ _))

theorem clientSend_sends (w : World P) (c : ClientId) (data : Bytes) : Sends c w (clientSend w c data) := by
  unfold clientSend
  split
  · exact clientSendEncryptedLoop_sends _ _ _ w c
  · exact write_sends w c data

/-- What every write keeps, and every count of a frame, sending keeps. -/
theorem clientSend_rule {I : World P → Prop} (c : ClientId)
    (hcount : ∀ w n, I w → I (w.setClient c { w.client c with countReads := n }))
    (hwrite : ∀ w data, I w → I (write w c data)) (w : World P) (data : Bytes) (h : I w) : I (clientSend w c data) := by
  have hloop : ∀ fuel nonce payload (w : World P), I w → I (clientSendEncryptedLoop c fuel nonce payload w) := by
    intro fuel
    induction fuel with
    | zero => exact fun _ _ _ h => h
    | succ fuel ih =>
      intro nonce payload w h
      unfold clientSendEncryptedLoop
      split
      · exact h
      · dsimp only
        split
        · exact hcount _ _ h
        · exact ih _ _ _ (hwrite _ _ (hcount _ _ h))
  unfold clientSend
  split
  · exact hloop _ _ _ w h
  · exact hwrite w data h

theorem sendTlvResponse_sends (w : World P) (c : ClientId) (values : List Tlv) :
    Sends c (w.log (.response c values)) (sendTlvResponse w c values) :=
  clientSend_sends _ c _

theorem send404Response_sends (w : World P) (c : ClientId) : Sends c w (send404Response w c) :=
  clientSend_sends w c _

theorem sendAll_sends (w : World P) (c : ClientId) (payloads : List Bytes) :
    Sends c w (sendAll w c payloads) := by
  induction payloads generalizing w with
  | nil => exact Sends.refl c w
  | cons data payloads ih => exact (clientSend_sends w c data).trans (ih _)

end ArduinoHomeKit
