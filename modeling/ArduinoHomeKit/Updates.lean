import ArduinoHomeKit.Library.Labelled
import ArduinoHomeKit.Messages

/-! What a call of the server is made of: client_send, and elementary updates between its
calls. Whatever each of them keeps, every run keeps. -/

namespace ArduinoHomeKit

open Labelled

variable {P : Platform} {c : ClientId} {w₀ w w' : World P}

/-- What the messages and the network may do: who opens a pairing context, what is read, and which
endpoints of the accessory side are served. -/
structure Scope (P : Platform) where
  opens : World P → ClientId → Prop
  reads : Buffering P → Prop
  serves : Endpoint → Prop := fun _ => True

/-- The entries of the log that stand for no change of a connection or a pairing context. -/
def IsNeutral : Event → Prop
  | .connected .. | .closed .. | .sent .. | .contextOpened .. | .contextFreed .. | .verified .. => False
  | _ => True

/-- What the handlers leave alone in a client between two calls of client_send. -/
structure Retains (x y : Client P) : Prop where
  encrypted : y.encrypted = x.encrypted
  readKey : x.encrypted = true → y.readKey = x.readKey
  countReads : y.countReads = x.countReads
  socket : y.socket = x.socket
  errorWrite : y.errorWrite = x.errorWrite

/-- The updates besides client_send. -/
inductive Update (S : Scope P) : World P → World P → Prop
  | client {w : World P} (c : ClientId) (x : Client P) (h : Retains (w.client c) x) : Update S w (w.setClient c x)
  | log {w : World P} (e : Event) (h : IsNeutral e) : Update S w (w.log e)
  | globals {w : World P} (flash : Flash) (paired : Bool) (app : P.App) (now : Nat) :
    Update S w { w with flash := flash, paired := paired, app := app, now := now }
  | accept {w : World P} (raw : Client P) : Update S w (homekitServerAcceptClient w raw)
  | buffer {w : World P} (c : ClientId) (b : Buffering P) (h : S.reads b) : Update S w (setBuffering w c b)
  | close {w : World P} (c : ClientId) : Update S w (homekitServerCloseClient w c)
  | preinit {w : World P} : Update S w (arduinoHomekitPreinit w).2
  | opened {w : World P} (c : ClientId) (k : ContextId) (h : S.opens w c) (hn : w.pairingContext = none)
    (hk : w.savedPreinitPairingContext = some k) : Update S w (openContext w c k)
  | context {w : World P} (k : ContextId) (x : PairingContext) (h : x.client = (w.contexts k).client) :
    Update S w (w.setContext k x)
  | free {w : World P} (k : ContextId) (h : w.pairingContext = some k) :
    Update S w { pairingContextFree w k with pairingContext := none }
  | session {w : World P} (c : ClientId) (request : SignedRequest) (pairing : Pairing)
    (hc : c < w.clientCount) (h : (w.client c).encrypted = false) :
    Update S w (openSession w c request pairing)

/-- The neutral entries, the use of a client that was closed apart. -/
def IsRoutine : Event → Prop
  | .connected .. | .closed .. | .sent .. | .contextOpened .. | .contextFreed .. | .verified .. | .useAfterFree .. =>
    False
  | _ => True

/-- The updates that a handler makes for its client. -/
inductive Change (S : Scope P) (c : ClientId) : World P → World P → Prop
  | client {w : World P} (d : ClientId) (x : Client P) (h : Retains (w.client d) x) : Change S c w (w.setClient d x)
  | log {w : World P} (e : Event) (h : IsRoutine e) : Change S c w (w.log e)
  | stray {w : World P} (h : c ∉ w.clients) : Change S c w (w.log (.useAfterFree c))
  | globals {w : World P} (flash : Flash) (paired : Bool) (now : Nat) :
    Change S c w { w with flash := flash, paired := paired, now := now }
  | serve {w : World P} (endpoint : Endpoint) (h : S.serves endpoint) :
    Change S c w { w with app := (P.app.serve endpoint w.paired c (w.client c).endpointParams (w.client c).body w.app).1 }
  | preinit {w : World P} : Change S c w (arduinoHomekitPreinit w).2
  | opened {w : World P} (k : ContextId) (h : S.opens w c) (hn : w.pairingContext = none)
    (hk : w.savedPreinitPairingContext = some k) : Change S c w (openContext w c k)
  | refused {w : World P} (k : ContextId) (srp : Srp) (key : Bytes)
    (h : cryptoSrpComputeKey P.crypto (w.contexts k).srp key (w.contexts k).publicKey = (false, srp)) :
    Change S c w (w.setContext k { w.contexts k with srp := srp })
  | spent {w : World P} (k : ContextId) (srp : Srp) (h : w.pairingContext = some k) :
    Change S c w (w.setContext k { w.contexts k with srp := srp, publicKey := [] })
  | free {w : World P} (k : ContextId) (h : w.pairingContext = some k) :
    Change S c w { pairingContextFree w k with pairingContext := none }
  | session {w : World P} (request : SignedRequest) (pairing : Pairing)
    (hc : c < w.clientCount) (h : (w.client c).encrypted = false) :
    Change S c w (openSession w c request pairing)

/-- A run with its calls of client_send. -/
abbrev Calls (S : Scope P) : World P → List (ClientId × Bytes) → World P → Prop :=
  Path (Update S) (fun w x => clientSend w x.1 x.2)

def Works (S : Scope P) (w w' : World P) : Prop := ∃ calls, Calls S w calls w'

/-- The work of a handler for its client: changes, and calls of client_send between them. -/
def Handling (S : Scope P) (c : ClientId) (w w' : World P) : Prop :=
  ∃ payloads, Path (Change S c) (fun w data => clientSend w c data) w payloads w'

variable {S : Scope P}

theorem IsRoutine.isNeutral {e : Event} (h : IsRoutine e) : IsNeutral e := by
  cases e <;> first | exact h.elim | trivial

theorem Change.update (h : Change S c w w') : Update S w w' := by
  cases h with
  | client d x h => exact .client d x h
  | log e h => exact .log e h.isNeutral
  | stray _ => exact .log _ trivial
  | globals flash paired now => exact .globals flash paired w.app now
  | serve endpoint _ => exact .globals w.flash w.paired _ w.now
  | preinit => exact .preinit
  | opened k h hn hk => exact .opened c k h hn hk
  | refused k srp key h => exact .context k _ rfl
  | spent k srp _ => exact .context k _ rfl
  | free k h => exact .free k h
  | session request pairing hc h => exact .session c request pairing hc h

theorem Handling.works (h : Handling S c w w') : Works S w w' := by
  obtain ⟨payloads, h⟩ := h
  exact ⟨_, (h.mono (fun _ _ hc => hc.update)).relabel (fun data => (c, data)) (fun _ _ => rfl)⟩

theorem Sends.encrypted (h : Sends c w w') : (w'.client c).encrypted = (w.client c).encrypted := by
  have hh := congrArg Client.encrypted h.core
  exact hh

theorem Handling.refl (w : World P) : Handling S c w w := ⟨[], .refl⟩

theorem Handling.change (h : Handling S c w₀ w) (hu : Change S c w w') : Handling S c w₀ w' := by
  obtain ⟨payloads, h⟩ := h
  exact ⟨payloads, h.silent hu⟩

theorem Handling.send (h : Handling S c w₀ w) (data : Bytes) : Handling S c w₀ (clientSend w c data) := by
  obtain ⟨payloads, h⟩ := h
  exact ⟨payloads ++ [data], h.act data⟩

theorem Handling.log (h : Handling S c w₀ w) {e : Event} (he : IsRoutine e) : Handling S c w₀ (w.log e) :=
  h.change (.log e he)

theorem Handling.client (h : Handling S c w₀ w) {d : ClientId} {x : Client P} (hx : Retains (w.client d) x) :
    Handling S c w₀ (w.setClient d x) := h.change (.client d x hx)

theorem Handling.step (h : Handling S c w₀ w) (s : ClientStep) :
    Handling S c w₀ (w.setClient c { w.client c with step := s }) := h.client ⟨rfl, fun _ => rfl, rfl, rfl, rfl⟩

theorem Handling.flash (h : Handling S c w₀ w) (f : Flash) : Handling S c w₀ { w with flash := f } :=
  h.change (.globals f w.paired w.now)

theorem Handling.respond (h : Handling S c w₀ w) (values : List Tlv) :
    Handling S c w₀ (sendTlvResponse w c values) :=
  (h.log (e := .response c values) trivial).send _

theorem Handling.sendError (h : Handling S c w₀ w) (state : Int) (error : TLVError) :
    Handling S c w₀ (sendTlvErrorResponse w c state error) := h.respond _

theorem Handling.sendAll (h : Handling S c w₀ w) (payloads : List Bytes) :
    Handling S c w₀ (sendAll w c payloads) := by
  induction payloads generalizing w with
  | nil => exact h
  | cons data payloads ih => exact ih (h.send data)

theorem Handling.serve (h : Handling S c w₀ w) {endpoint : Endpoint} (hs : S.serves endpoint) :
    Handling S c w₀ (serve w c endpoint) :=
  (h.change (.serve endpoint hs)).sendAll _

theorem Handling.marks (h : Handling S c w₀ w) (id : Int) : Handling S c w₀ (markDisconnected w id) := by
  unfold markDisconnected
  generalize w.clients = l
  induction l generalizing w with
  | nil => exact h
  | cons d l ih =>
    rw [List.foldl_cons]
    split
    · exact ih (h.client ⟨rfl, fun _ => rfl, rfl, rfl, rfl⟩)
    · exact ih h

/-! Pair-setup. -/

/-- The key pair of the next context. -/
def preparedKey (w : World P) : Option Bytes × Srp :=
  cryptoSrpGetPublicKey P.crypto
    (cryptoSrpInit P.crypto cryptoSrpNew (ascii "Pair-Setup") (setupPassword w) ((P.env.random w.now).take 16))
    ((P.env.random w.now).drop 16)

/-- The world with a new context, before it is kept or given up. -/
def prepared (w : World P) : World P :=
  { w.setContext w.contextCount
      { srp := (preparedKey w).2, publicKey := (preparedKey w).1.getD [], client := none } with
    contextCount := w.contextCount + 1 }

/-- A context is waiting already, or a new one is prepared and kept unless its key is missing. -/
theorem arduinoHomekitPreinit_cases (w : World P) :
    (∃ k, w.savedPreinitPairingContext = some k) ∧ arduinoHomekitPreinit w = (true, w) ∨
      w.savedPreinitPairingContext = none ∧
        ((preparedKey w).1 = none ∧
            arduinoHomekitPreinit w = (false, pairingContextFree (prepared w) w.contextCount) ∨
          (preparedKey w).1 ≠ none ∧
            arduinoHomekitPreinit w = (true, { prepared w with savedPreinitPairingContext := some w.contextCount })) := by
  unfold arduinoHomekitPreinit
  cases hs : w.savedPreinitPairingContext with
  | some k => exact Or.inl ⟨⟨k, rfl⟩, rfl⟩
  | none =>
    refine Or.inr ⟨rfl, ?_⟩
    by_cases hk : (preparedKey w).1 = none
    · exact Or.inl ⟨hk, if_pos hk⟩
    · exact Or.inr ⟨hk, if_neg hk⟩

theorem arduinoHomekitPreinit_clients (w : World P) : (arduinoHomekitPreinit w).2.clients = w.clients := by
  rcases arduinoHomekitPreinit_cases w with ⟨_, h⟩ | ⟨_, ⟨_, h⟩ | ⟨_, h⟩⟩ <;> rw [h] <;> rfl

theorem arduinoHomekitPreinit_fst (w : World P) :
    (arduinoHomekitPreinit w).1 = (w.savedPreinitPairingContext.isSome || (preparedKey w).1.isSome) := by
  rcases arduinoHomekitPreinit_cases w with ⟨⟨k, hk⟩, h⟩ | ⟨hs, ⟨hn, h⟩ | ⟨hn, h⟩⟩
  · simp [h, hk]
  · simp [h, hs, hn]
  · simp [h, hs, Option.isSome_iff_ne_none.mpr hn]

/-- The connection that asks plays no part. -/
theorem arduinoHomekitPreinit_setClient (w : World P) (c : ClientId) (x : Client P) :
    (arduinoHomekitPreinit (w.setClient c x)).1 = (arduinoHomekitPreinit w).1 := by
  rw [arduinoHomekitPreinit_fst, arduinoHomekitPreinit_fst]
  rfl

theorem Handling.pairSetupM2 (h : Handling S c w₀ w) (k : ContextId) :
    Handling S c w₀ (pairSetupM2 w c k) := by
  unfold ArduinoHomeKit.pairSetupM2
  rw [cryptoSrpGetSalt_sized]
  exact (h.respond _).step _

theorem Handling.pairSetupM1 (h : Handling S c w₀ w)
    (ho : w.paired = false → w.pairingContext = none → (arduinoHomekitPreinit w).1 = true →
      S.opens (arduinoHomekitPreinit w).2 c) : Handling S c w₀ (pairSetupM1 w c) := by
  unfold ArduinoHomeKit.pairSetupM1
  split
  · exact h.sendError _ _
  · rename_i hp
    split
    · split
      · exact h.sendError _ _
      · exact h.pairSetupM2 _
    · rename_i hn
      have hpre := h.change Change.preinit
      have hq := (arduinoHomekitPreinit_quiet w c).context
      split
      · rename_i w₁ hw
        rw [hw] at hpre
        exact hpre.sendError _ _
      · rename_i w₁ hw
        rw [hw] at hpre hq
        have hopens := ho (by simpa using hp) hn (by rw [hw])
        rw [hw] at hopens
        split
        · exact hpre.sendError _ _
        · rename_i k hk
          have hn₁ : w₁.pairingContext = none := hq.elim (fun he => he.trans hn) id
          exact (hpre.change (.opened k hopens hn₁ hk)).pairSetupM2 k

theorem Handling.pairSetupM3 (h : Handling S c w₀ w) {message : List Tlv} (hm : pairSetupM3 w c message = .ok w') :
    Handling S c w₀ w' := by
  unfold ArduinoHomeKit.pairSetupM3 at hm
  split at hm
  · exact Except.ok.inj hm ▸ h.sendError _ _
  · split at hm
    · exact Except.ok.inj hm ▸ h.sendError _ _
    · split at hm
      · simp at hm
      · rename_i k hk
        have hspent : ∀ srp, Handling S c w₀ (w.setContext k { w.contexts k with srp := srp, publicKey := [] }) :=
          fun srp => h.change (.spent k srp hk)
        split at hm
        · rename_i srp hkey
          exact Except.ok.inj hm ▸ (h.change (.refused k srp _ hkey)).sendError _ _
        · split at hm
          · exact Except.ok.inj hm ▸ (hspent _).sendError _ _
          · obtain rfl := Except.ok.inj hm
            exact (((hspent _).log (e := .srpVerified _ c) trivial).respond _).step _

theorem Handling.pairSetupM5Finish (h : Handling S c w₀ w) {response : List Tlv}
    (hm : pairSetupM5Finish w c response = .ok w') : Handling S c w₀ w' := by
  unfold ArduinoHomeKit.pairSetupM5Finish at hm
  dsimp only at hm
  split at hm
  · simp at hm
  · rename_i k hk
    obtain rfl := Except.ok.inj hm
    have hfree := (h.respond response).change (.free k hk)
    exact (hfree.change (.globals _ true _)).step _

theorem Handling.pairSetupM5 (h : Handling S c w₀ w) {message : List Tlv} (hm : pairSetupM5 w c message = .ok w') :
    Handling S c w₀ w' := by
  unfold ArduinoHomeKit.pairSetupM5 at hm
  split at hm
  · simp at hm
  · rename_i k _
    dsimp only at hm
    split at hm
    · exact Except.ok.inj hm ▸ h.sendError _ _
    · split at hm
      · simp at hm
      · exact Except.ok.inj hm ▸ h.sendError _ _
      · rename_i request _
        split at hm
        · exact Except.ok.inj hm ▸ h.sendError _ _
        · unfold pairSetupM5Store at hm
          split at hm
          · simp at hm
          · rename_i r f _
            have hst := (h.flash f).log (e := .addPairing k c request r) trivial
            dsimp only at hm
            split at hm
            · exact Except.ok.inj hm ▸ hst.sendError _ _
            · split at hm
              · exact Except.ok.inj hm ▸ hst.sendError _ _
              · exact hst.pairSetupM5Finish hm

theorem Handling.pairSetup (h : Handling S c w₀ w) {data : Bytes}
    (ho : ∀ message, tlvParse (bufferOf (data ++ [0]) (behind w 0)) data.length = .ok message →
      tlvGetIntegerValue message TLVType.state (-1) = 1 → w.paired = false → w.pairingContext = none →
      (arduinoHomekitPreinit (restarted w c)).1 = true → S.opens (arduinoHomekitPreinit (restarted w c)).2 c)
    (hm : homekitServerOnPairSetup w c data = .ok w') : Handling S c w₀ w' := by
  have hr : Handling S c w₀ (restarted w c) := h.step _
  unfold homekitServerOnPairSetup at hm
  dsimp only at hm
  split at hm
  · simp at hm
  · rename_i message hparse
    split at hm
    · rename_i h1
      exact Except.ok.inj hm ▸ hr.pairSetupM1 (ho message hparse h1)
    · split at hm
      · exact hr.pairSetupM3 hm
      · split at hm
        · exact hr.pairSetupM5 hm
        · exact Except.ok.inj hm ▸ hr

/-! Pair-verify. -/

theorem Handling.pairVerifyM1 (h : Handling S c w₀ w) (message : List Tlv) :
    Handling S c w₀ (pairVerifyM1 w c message) := by
  unfold ArduinoHomeKit.pairVerifyM1
  split
  · exact h.sendError _ _
  · rename_i context response _
    have hcl := (h.respond response).client (c := c) (x := { (sendTlvResponse w c response).client c with
      verifyContext := some context, step := .pairVerify1Of2 }) ⟨rfl, fun _ => rfl, rfl, rfl, rfl⟩
    exact hcl.log (e := .verifyStarted c context.devicePublicKey context.accessoryPublicKey) trivial

theorem Handling.freeVerifyContext (h : Handling S c w₀ w) : Handling S c w₀ (freeVerifyContext w c) :=
  h.client ⟨rfl, fun _ => rfl, rfl, rfl, rfl⟩

theorem Handling.pairVerifyM4 (h : Handling S c w₀ w) (hc : c < w.clientCount) (he : (w.client c).encrypted = false)
    (context : PairVerifyContext) (request : SignedRequest) (pairing : Pairing) :
    Handling S c w₀ (pairVerifyM4 w c context request pairing) := by
  -- the keys are only written while the connection is plain
  have hkeys : ∀ (w : World P) (r s : Bytes), (w.client c).encrypted = false → Handling S c w₀ w →
      Handling S c w₀ (w.setClient c { w.client c with readKey := r, writeKey := s }) := by
    intro w r s he h
    exact h.client ⟨rfl, fun ht => by simp [he] at ht, rfl, rfl, rfl⟩
  unfold ArduinoHomeKit.pairVerifyM4
  split
  · exact (h.freeVerifyContext).sendError _ _
  · rename_i readKey _
    have h1 := hkeys w readKey (w.client c).writeKey he h
    set w₁ := w.setClient c { w.client c with readKey := readKey } with hw₁
    have he1 : (w₁.client c).encrypted = false := by rw [hw₁, setClient_self]; exact he
    dsimp only
    split
    · exact (h1.freeVerifyContext).sendError _ _
    · rename_i writeKey _
      have h2 := hkeys w₁ (w₁.client c).readKey writeKey he1 h1
      set w₂ := w₁.setClient c { w₁.client c with writeKey := writeKey } with hw₂
      have h3 := (h2.freeVerifyContext).respond [tlvAddIntegerValue TLVType.state 1 4]
      have hs := sendTlvResponse_sends (ArduinoHomeKit.freeVerifyContext w₂ c) c [tlvAddIntegerValue TLVType.state 1 4]
      refine h3.change (.session request pairing ?_ ?_)
      · rw [hs.clientCount]
        exact hc
      · rw [hs.encrypted]
        simp [ArduinoHomeKit.freeVerifyContext, World.log, hw₂, he1]

theorem Handling.pairVerifyM3 (h : Handling S c w₀ w) (hc : c < w.clientCount) (he : (w.client c).encrypted = false)
    {message : List Tlv} (hm : pairVerifyM3 w c message = .ok w') : Handling S c w₀ w' := by
  unfold ArduinoHomeKit.pairVerifyM3 at hm
  split at hm
  · exact Except.ok.inj hm ▸ h.sendError _ _
  · split at hm
    · simp at hm
    · exact Except.ok.inj hm ▸ (h.freeVerifyContext).sendError _ _
    · split at hm
      · exact Except.ok.inj hm ▸ (h.freeVerifyContext).sendError _ _
      · exact Except.ok.inj hm ▸ h.pairVerifyM4 hc he _ _ _

theorem Handling.pairVerify (h : Handling S c w₀ w) (hc : c < w.clientCount) (he : (w.client c).encrypted = false)
    {data : Bytes} (hm : homekitServerOnPairVerify w c data = .ok w') : Handling S c w₀ w' := by
  have hr : Handling S c w₀ (restarted w c) := h.step _
  have hre : ((restarted w c).client c).encrypted = false := (restarted_quiet w c).encrypted.trans he
  unfold homekitServerOnPairVerify at hm
  dsimp only at hm
  split at hm
  · simp at hm
  · split at hm
    · exact Except.ok.inj hm ▸ hr.pairVerifyM1 _
    · split at hm
      · exact hr.pairVerifyM3 hc hre hm
      · exact Except.ok.inj hm ▸ hr

/-! Pairings. -/

theorem Handling.addPairingUpdate (h : Handling S c w₀ w) {identifier : Bytes} {permissions : Int}
    (hm : addPairingUpdate w c identifier permissions = .ok w') : Handling S c w₀ w' := by
  unfold ArduinoHomeKit.addPairingUpdate at hm
  split at hm
  · simp at hm
  · rename_i r f _
    have hst := (h.flash f).log (e := .freed c .deviceIdentifier) trivial
    dsimp only at hm
    split at hm
    · exact Except.ok.inj hm ▸ hst.sendError _ _
    · exact Except.ok.inj hm ▸ hst.respond _

theorem Handling.addPairingExisting (h : Handling S c w₀ w) {request : AddPairingRequest} {pairing : Pairing}
    (hm : addPairingExisting w c request pairing = .ok w') : Handling S c w₀ w' := by
  have hfail : ∀ w : World P, Handling S c w₀ w → Handling S c w₀ (sendTlvErrorResponse
      ((w.log (.freed c .pairingPublicKey)).log (.freed c .deviceIdentifier)) c 2 .unknown) :=
    fun w h => ((h.log (by trivial)).log (by trivial)).sendError _ _
  unfold ArduinoHomeKit.addPairingExisting at hm
  dsimp only at hm
  refine Handling.addPairingUpdate (Handling.log ?_ (e := .freed c .pairingPublicKey) trivial) hm
  split
  · split
    · exact hfail _ (hfail w h)
    · exact hfail w h
  · split
    · exact hfail w h
    · exact h

theorem Handling.addPairingNew (h : Handling S c w₀ w) {request : AddPairingRequest}
    (hm : addPairingNew w c request = .ok w') : Handling S c w₀ w' := by
  unfold ArduinoHomeKit.addPairingNew at hm
  dsimp only at hm
  split at hm
  · exact Except.ok.inj hm ▸ (h.log (by trivial)).sendError _ _
  · split at hm
    · simp at hm
    · rename_i r f _
      have hst := (h.flash f).log (e := .freed c .deviceIdentifier) trivial
      split at hm
      · exact Except.ok.inj hm ▸ hst.sendError _ _
      · exact Except.ok.inj hm ▸ hst.respond _

theorem Handling.removePairing (h : Handling S c w₀ w) (message : List Tlv) :
    Handling S c w₀ (removePairing w c message) := by
  unfold ArduinoHomeKit.removePairing
  split
  · exact h.sendError _ _
  · split
    · exact h.sendError _ _
    · dsimp only
      split
      · exact (h.log (by trivial)).respond _
      · rename_i t _ _ pairing _
        have hf := h.flash (homekitStorageRemovePairing P.env.flash w.flash
          (CString.strndup t.value t.value.length)).2
        split
        · exact (hf.log (by trivial)).sendError _ _
        · refine Handling.respond (Handling.log ?_ (by trivial)) _
          have hmark := (hf.log (e := .pairingRemoved c (CString.strndup t.value t.value.length)) trivial).marks
            pairing.id
          split
          · exact hmark.change (.globals _ false _)
          · exact hmark

theorem Handling.pairings (h : Handling S c w₀ w) {data : Bytes} (hm : homekitServerOnPairings w c data = .ok w') :
    Handling S c w₀ w' := by
  unfold homekitServerOnPairings at hm
  split at hm
  · simp at hm
  · split at hm
    · exact Except.ok.inj hm ▸ h.sendError _ _
    · dsimp only at hm
      split at hm
      · unfold addPairing at hm
        split at hm
        · exact Except.ok.inj hm ▸ h.sendError _ _
        · split at hm
          · exact Except.ok.inj hm ▸ h.sendError _ _
          · split at hm
            · exact h.addPairingExisting hm
            · exact h.addPairingNew hm
      · split at hm
        · exact Except.ok.inj hm ▸ h.removePairing _
        · split at hm
          · obtain rfl := Except.ok.inj hm
            unfold listPairings
            split
            · exact h.sendError _ _
            · exact h.respond _
          · exact Except.ok.inj hm ▸ h.sendError _ _

/-! Messages and actions. -/

/-- The message of a complete pair-setup request on a connection that is still plain. -/
def setupMessage (w : World P) (c : ClientId) : Option (List Tlv) :=
  if (w.client c).encrypted = false ∧ (w.client c).endpoint = .pairSetup then
    (tlvParse (bufferOf ((w.client c).body ++ [0]) (behind w 0)) (w.client c).body.length).toOption
  else none

def messageState (message : List Tlv) : Int := tlvGetIntegerValue message TLVType.state (-1)

/-- The message is an M1 that opens a pairing context. -/
def opensAttempt (w : World P) (c : ClientId) : Prop :=
  (∃ message, setupMessage w c = some message ∧ messageState message = 1) ∧ w.paired = false ∧
    w.pairingContext = none ∧ (arduinoHomekitPreinit w).1 = true

theorem Handling.messageEnd (h : Handling S c w₀ w) : Handling S c w₀ (messageEnd w c) := by
  unfold ArduinoHomeKit.messageEnd
  split
  · exact h.client ⟨rfl, fun _ => rfl, rfl, rfl, rfl⟩
  · rename_i hc
    exact (h.change (.stray hc)).client ⟨rfl, fun _ => rfl, rfl, rfl, rfl⟩

theorem Handling.messageEntry (h : Handling S c w₀ w) : Handling S c w₀ (messageEntry w c) := by
  have ht : Handling S c w₀ w.tick := h.change (.globals w.flash w.paired (w.now + 1))
  have hcl := ht.client (c := c) (x := { w.client c with pending := none }) ⟨rfl, fun _ => rfl, rfl, rfl, rfl⟩
  exact hcl.log (e := .completed c (w.client c).endpoint) trivial

theorem Handling.handleMessage (h : Handling S c w₀ w) (hc : c < w.clientCount) {origins : List Origin}
    (hserves : ∀ endpoint, S.serves endpoint)
    (ho : (w.client c).encrypted = false ∧ (w.client c).endpoint = .pairSetup →
      homekitServerOnPairSetup w c (w.client c).body = .ok w' → Handling S c w₀ w')
    (hm : handleMessage w c origins = .ok w') : Handling S c w₀ w' := by
  unfold ArduinoHomeKit.handleMessage at hm
  split at hm
  · rename_i he
    split at hm
    · rename_i hep
      exact ho ⟨he, hep⟩ hm
    · exact h.pairVerify hc he hm
    · exact Except.ok.inj hm ▸ h.send _
  · unfold dispatch at hm
    dsimp only at hm
    split at hm
    all_goals first
      | (obtain rfl := Except.ok.inj hm; exact (h.log (by trivial)).serve (hserves _))
      | exact (h.log (by trivial)).pairings hm
      | (obtain rfl := Except.ok.inj hm; exact h.send _)

/-- The messages and reads of one action. A context is opened by an M1, on the list of clients
that was found. -/
def actionScope (w : World P) (a : Action P) : Scope P where
  opens v c := a = .event c .messageComplete ∧ c < w.clientCount ∧ opensAttempt (messageEntry w c) c ∧
    v.clients = w.clients
  reads b := ∃ c, a = .buffer c b

theorem messageComplete_handling (hc : c < w.clientCount) (hm : homekitServerOnMessageComplete w c = .ok w') :
    Handling (actionScope w (.event c .messageComplete)) c w w' := by
  have hentry : Handling (actionScope w (.event c .messageComplete)) c w (ArduinoHomeKit.messageEntry w c) :=
    (Handling.refl w).messageEntry
  unfold homekitServerOnMessageComplete at hm
  cases hh : ArduinoHomeKit.handleMessage (ArduinoHomeKit.messageEntry w c) c ((w.client c).pending.getD []) with
  | error e => simp [hh, Except.map] at hm
  | ok w₁ =>
    simp only [hh, Except.map, Except.ok.injEq] at hm
    refine hm ▸ Handling.messageEnd ?_
    refine hentry.handleMessage hc (fun _ => trivial) (fun hs hset => hentry.pairSetup ?_ hset) hh
    intro message hparse h1 hp hn hpre
    refine ⟨rfl, hc, ⟨⟨message, ?_, h1⟩, hp, hn, ?_⟩, arduinoHomekitPreinit_clients _⟩
    · rw [setupMessage, if_pos hs, hparse]
      rfl
    · rwa [restarted, arduinoHomekitPreinit_setClient] at hpre

theorem Works.refl (w : World P) : Works S w w := ⟨[], .refl⟩

theorem Works.update (h : Works S w₀ w) (hu : Update S w w') : Works S w₀ w' := by
  obtain ⟨calls, h⟩ := h
  exact ⟨calls, h.silent hu⟩

theorem Works.send (h : Works S w₀ w) (c : ClientId) (data : Bytes) : Works S w₀ (clientSend w c data) := by
  obtain ⟨calls, h⟩ := h
  exact ⟨calls ++ [(c, data)], h.act (c, data)⟩

theorem Works.sendAll (h : Works S w₀ w) (c : ClientId) (payloads : List Bytes) :
    Works S w₀ (sendAll w c payloads) := by
  induction payloads generalizing w with
  | nil => exact h
  | cons data payloads ih => exact ih (h.send c data)

/-- Every action of the server is made of the updates. -/
theorem step_works {a : Action P} (h : step w a = .ok w') : Works (actionScope w a) w w' := by
  have hw : Works (actionScope w a) w w := Works.refl w
  have ht : Works (actionScope w a) w w.tick := hw.update (.globals w.flash w.paired w.app (w.now + 1))
  cases a with
  | accept raw => exact Except.ok.inj h ▸ hw.update (.accept raw)
  | preinit => exact Except.ok.inj h ▸ ht.update .preinit
  | tick => exact Except.ok.inj h ▸ ht
  | parsed c payload => exact Except.ok.inj h ▸ hw.update (.log (.parsed c payload) trivial)
  | buffer c b =>
    simp only [step] at h
    split at h
    · exact Except.ok.inj h ▸ hw.update (.buffer c b ⟨c, rfl⟩)
    · exact Except.ok.inj h ▸ hw
  | close c =>
    simp only [step] at h
    split at h
    · refine Except.ok.inj h ▸ Works.update ?_ (.close c)
      exact hw.update (.client c _ ⟨rfl, fun _ => rfl, rfl, rfl, rfl⟩)
    · exact Except.ok.inj h ▸ hw
  | notify c =>
    simp only [step] at h
    split at h
    · obtain rfl := Except.ok.inj h
      unfold processNotifications
      split
      · exact hw
      · exact (hw.update (.globals w.flash w.paired _ w.now)).sendAll c _
    · exact Except.ok.inj h ▸ hw
  | event c e =>
    simp only [step] at h
    split at h
    · rename_i hc
      cases e with
      | messageBegin => exact Except.ok.inj h ▸ hw.update (.client c _ ⟨rfl, fun _ => rfl, rfl, rfl, rfl⟩)
      | url method data behind => exact Except.ok.inj h ▸ hw.update (.client c _ ⟨rfl, fun _ => rfl, rfl, rfl, rfl⟩)
      | body data => exact Except.ok.inj h ▸ hw.update (.client c _ ⟨rfl, fun _ => rfl, rfl, rfl, rfl⟩)
      | messageComplete => exact (messageComplete_handling hc h).works
    · exact Except.ok.inj h ▸ hw

theorem Works.trans (h : Works S w₀ w) (hh : Works S w w') : Works S w₀ w' := by
  obtain ⟨calls, h⟩ := h
  obtain ⟨calls', hh⟩ := hh
  exact ⟨calls ++ calls', h.trans hh⟩

theorem Update.mono {T : Scope P} (ho : ∀ w c, S.opens w c → T.opens w c) (hr : ∀ b, S.reads b → T.reads b)
    (h : Update S w w') : Update T w w' := by
  cases h with
  | client c x h => exact .client c x h
  | log e h => exact .log e h
  | globals flash paired app now => exact .globals flash paired app now
  | accept raw => exact .accept raw
  | buffer c b h => exact .buffer c b (hr b h)
  | close c => exact .close c
  | preinit => exact .preinit
  | opened c k h hn hk => exact .opened c k (ho _ _ h) hn hk
  | context k x h => exact .context k x h
  | free k h => exact .free k h
  | session c request pairing hc h => exact .session c request pairing hc h

/-- What client_send and every update keep, an action keeps. -/
theorem step_invariant {I : World P → Prop} {a : Action P} (hu : ∀ w w', I w → Update (actionScope w₀ a) w w' → I w')
    (hs : ∀ w c data, I w → I (clientSend w c data)) (h : step w₀ a = .ok w') (hi : I w₀) : I w' := by
  obtain ⟨calls, hcalls⟩ := step_works h
  exact hcalls.invariant hu (fun w x hw => hs w x.1 x.2 hw) hi

end ArduinoHomeKit
