import ArduinoHomeKit.Library.Pieces
import ArduinoHomeKit.Decoding
import ArduinoHomeKit.Nonces
import ArduinoHomeKit.Updates

/-! The frames of a session. Whatever the server sends on it, in whatever pieces, the frames
are sealed under one key with the nonces 0, 1, 2 and so on, and open to what was sent. -/

namespace ArduinoHomeKit

open Growth Labelled Runs

variable {P : Platform} {c d : ClientId} {w w' : World P} {S : Scope P} {wc : WolfCrypt} {key : Bytes} {count : Nat}

/-- Sealing succeeds and can be undone, and the network takes what it is given. -/
structure Reliable (P : Platform) : Prop where
  seals : ∀ key nonce aad plain, P.crypto.wcChaCha20Poly1305Encrypt key nonce aad plain ≠ none
  opens : OpensSealed P.crypto
  sends : ∀ n, P.env.socketWrite n = .sent

/-- The pieces of a payload. -/
def piecesOf (payload : Bytes) : List Bytes := Pieces.cut 1024 payload.length payload

/-- The frames of one direction, opened in order. -/
def openFrames (wc : WolfCrypt) (key : Bytes) : Nat → List Bytes → Option Bytes
  | _, [] => some []
  | count, frame :: frames =>
    match openFrame wc key count frame, openFrames wc key (count + 1) frames with
    | some chunk, some rest => some (chunk ++ rest)
    | _, _ => none

/-- The frames of a session, from the first one on. -/
structure FramesRight (wc : WolfCrypt) (key : Bytes) (frames payloads : List Bytes) : Prop where
  form : ∀ k (hk : k < frames.length), ∃ chunk cipher, 1 ≤ chunk.length ∧ chunk.length ≤ 1024 ∧
    wc.wcChaCha20Poly1305Encrypt key ([0, 0, 0, 0] ++ le64 k) (frameHeader chunk.length) chunk = some cipher ∧
    frames[k] = frameHeader chunk.length ++ cipher
  fresh : ∀ i < frames.length, ∀ j < frames.length, le64 i = le64 j → i = j
  opened : openFrames wc key 0 frames = some payloads.flatten

/-! Sealing and opening a list of chunks. -/

theorem sealFrames_get {chunks frames : List Bytes} (h : sealFrames wc key count chunks = some frames) :
    frames.length = chunks.length ∧ ∀ k (hk : k < frames.length), ∃ chunk ∈ chunks,
      sealFrame wc key (count + k) chunk = some frames[k] := by
  induction chunks generalizing count frames with
  | nil =>
    obtain rfl : [] = frames := Option.some.inj h
    exact ⟨rfl, fun k hk => absurd hk (Nat.not_lt_zero k)⟩
  | cons chunk chunks ih =>
    obtain ⟨frame, rest, h1, h2, rfl⟩ := sealFrames_cons h
    obtain ⟨hlen, hget⟩ := ih h2
    refine ⟨by simp [hlen], fun k hk => ?_⟩
    cases k with
    | zero => exact ⟨chunk, List.mem_cons_self .., h1⟩
    | succ k =>
      obtain ⟨chunk', hmem, hseal⟩ := hget k (by simpa using hk)
      refine ⟨chunk', List.mem_cons_of_mem _ hmem, ?_⟩
      rw [show count + (k + 1) = count + 1 + k by omega]
      exact hseal

theorem sealFrames_append {chunks chunks' frames frames' : List Bytes} (h : sealFrames wc key count chunks = some frames)
    (hh : sealFrames wc key (count + frames.length) chunks' = some frames') :
    sealFrames wc key count (chunks ++ chunks') = some (frames ++ frames') := by
  induction chunks generalizing count frames with
  | nil =>
    obtain rfl : [] = frames := Option.some.inj h
    exact hh
  | cons chunk chunks ih =>
    obtain ⟨frame, rest, h1, h2, rfl⟩ := sealFrames_cons h
    have hrest := ih h2 (by rwa [List.length_cons, Nat.add_comm rest.length, ← Nat.add_assoc] at hh)
    simp [sealFrames, h1, hrest]

/-- What was sealed in order opens in order. -/
theorem openFrames_sealFrames {chunks frames : List Bytes} (hs : OpensSealed wc)
    (hsize : ∀ chunk ∈ chunks, 0 < chunk.length ∧ chunk.length ≤ 1024)
    (h : sealFrames wc key count chunks = some frames) : openFrames wc key count frames = some chunks.flatten := by
  induction chunks generalizing count frames with
  | nil =>
    obtain rfl : [] = frames := Option.some.inj h
    rfl
  | cons chunk chunks ih =>
    obtain ⟨frame, rest, h1, h2, rfl⟩ := sealFrames_cons h
    obtain ⟨hpos, hle⟩ := hsize chunk (List.mem_cons_self ..)
    have hopen := (openFrame_sealFrame hs hpos hle h1).2.2
    have hrest := ih (fun chunk hc => hsize chunk (List.mem_cons_of_mem _ hc)) h2
    simp [openFrames, hopen, hrest]

theorem flatten_piecesOf (payload : Bytes) : (piecesOf payload).flatten = payload :=
  Pieces.flatten_cut (by omega) (Nat.le_refl _)

theorem flatten_flatMap_piecesOf (payloads : List Bytes) : (payloads.flatMap piecesOf).flatten = payloads.flatten := by
  induction payloads with
  | nil => rfl
  | cons payload payloads ih => rw [List.flatMap_cons, List.flatten_append, List.flatten_cons, flatten_piecesOf, ih]

theorem sealFrames_framesRight {frames payloads : List Bytes} (hs : OpensSealed wc)
    (h : sealFrames wc key 0 (payloads.flatMap piecesOf) = some frames) (hlt : frames.length < 2 ^ 31) :
    FramesRight wc key frames payloads := by
  have hsize : ∀ chunk ∈ payloads.flatMap piecesOf, 0 < chunk.length ∧ chunk.length ≤ 1024 := by
    intro chunk hc
    obtain ⟨payload, _, hc⟩ := List.mem_flatMap.mp hc
    exact Pieces.length_of_mem_cut (by omega) hc
  refine ⟨fun k hk => ?_, fun i hi j hj he => le64_injective (by omega) (by omega) he, ?_⟩
  · obtain ⟨chunk, hmem, hseal⟩ := (sealFrames_get h).2 k hk
    obtain ⟨hpos, hle⟩ := hsize chunk hmem
    obtain ⟨cipher, hcipher, he⟩ := Option.map_eq_some_iff.mp hseal
    rw [Nat.zero_add, frameNonce_eq (countsTo_zeroNonce 0) (Nat.zero_le k)] at hcipher
    exact ⟨chunk, cipher, hpos, hle, hcipher, he.symm⟩
  · rw [openFrames_sealFrames hs hsize h, flatten_flatMap_piecesOf]

/-! One call of client_send. -/

/-- A socket, if there is one, takes data. -/
def Writable (x : Client P) : Prop :=
  ∀ socket, x.socket = some socket → socket.isConnected = true ∧ x.errorWrite = false

theorem write_of_writable (hP : Reliable P) (hw : Writable (w.client c)) (hs : (w.client c).socket ≠ none)
    (data : Bytes) : write w c data = { w with sends := w.sends + 1 }.log (.sent c data) := by
  obtain ⟨socket, hsocket⟩ := Option.ne_none_iff_exists'.mp hs
  obtain ⟨hc, he⟩ := hw socket hsocket
  simp [write, hsocket, hP.sends, hc, he]

theorem exists_seal (hP : Reliable P) (key nonce : Bytes) {chunk : Bytes} (h : chunk.length ≤ 1024) :
    ∃ cipher, P.crypto.wcChaCha20Poly1305Encrypt key nonce (frameHeader chunk.length) chunk = some cipher ∧
      cryptoChacha20Poly1305Encrypt P.crypto key nonce (frameHeader chunk.length) chunk 1040 = .ok cipher := by
  obtain ⟨cipher, hc⟩ := Option.ne_none_iff_exists'.mp (hP.seals key nonce (frameHeader chunk.length) chunk)
  refine ⟨cipher, hc, ?_⟩
  rw [cryptoChacha20Poly1305Encrypt, if_neg (by omega), hc]

theorem clientSendEncryptedLoop_succ (fuel : Nat) (nonce : Bytes) {payload : Bytes} (hp : payload ≠ []) :
    clientSendEncryptedLoop c (fuel + 1) nonce payload w =
      match cryptoChacha20Poly1305Encrypt P.crypto
          ((w.setClient c { w.client c with countReads := (w.client c).countReads + 1 }).client c).readKey
          (frameNonce nonce (w.client c).countReads) (frameHeader (payload.take 1024).length)
          (payload.take 1024) 1040 with
      | .error _ => w.setClient c { w.client c with countReads := (w.client c).countReads + 1 }
      | .ok encrypted =>
        clientSendEncryptedLoop c fuel (frameNonce nonce (w.client c).countReads) (payload.drop 1024)
          (write (w.setClient c { w.client c with countReads := (w.client c).countReads + 1 }) c
            (frameHeader (payload.take 1024).length ++ encrypted)) := by
  rw [clientSendEncryptedLoop, if_neg hp]
  rfl

/-- The loop writes the pieces as frames with consecutive counters. The nonce buffer holds
what the last frame of the call has left in it. -/
theorem clientSendEncryptedLoop_frames (hP : Reliable P) {nonce : Bytes} {last : Nat} (fuel : Nat) (payload : Bytes)
    (hw : Writable (w.client c)) (hs : (w.client c).socket ≠ none) (hn : CountsTo last nonce)
    (hle : last ≤ (w.client c).countReads) :
    ∃ frames, sealFrames P.crypto (w.client c).readKey (w.client c).countReads (Pieces.cut 1024 fuel payload) = some frames ∧
      (clientSendEncryptedLoop c fuel nonce payload w).trace = w.trace ++ frames.map (.sent c) ∧
      (clientSendEncryptedLoop c fuel nonce payload w).client c =
        { w.client c with countReads := (w.client c).countReads + frames.length } := by
  induction fuel generalizing nonce last payload w with
  | zero => exact ⟨[], rfl, by simp [clientSendEncryptedLoop], rfl⟩
  | succ fuel ih =>
    by_cases hp : payload = []
    · subst hp
      exact ⟨[], by rw [Pieces.cut_nil]; rfl, by simp [clientSendEncryptedLoop], by simp [clientSendEncryptedLoop]⟩
    · have hlen : (payload.take 1024).length ≤ 1024 := List.length_take_le ..
      obtain ⟨cipher, hcipher, hseal⟩ := exists_seal hP (w.client c).readKey
        (frameNonce nonce (w.client c).countReads) hlen
      set x : Client P := { w.client c with countReads := (w.client c).countReads + 1 } with hx
      have hwx : Writable ((w.setClient c x).client c) := by rwa [setClient_self]
      have hsx : ((w.setClient c x).client c).socket ≠ none := by rwa [setClient_self]
      have hseal' : cryptoChacha20Poly1305Encrypt P.crypto ((w.setClient c x).client c).readKey
          (frameNonce nonce (w.client c).countReads) (frameHeader (payload.take 1024).length) (payload.take 1024) 1040 =
          .ok cipher := by
        rw [setClient_self]
        exact hseal
      have hstep := clientSendEncryptedLoop_succ (w := w) (c := c) fuel nonce hp
      rw [← hx, hseal'] at hstep
      dsimp only at hstep
      rw [write_of_writable hP hwx hsx] at hstep
      set v : World P := { w.setClient c x with sends := (w.setClient c x).sends + 1 }.log
        (.sent c (frameHeader (payload.take 1024).length ++ cipher)) with hv
      have hvc : v.client c = x := setClient_self w c x
      obtain ⟨frames, hframes, htrace, hclient⟩ := ih (w := v) (payload.drop 1024) (hvc ▸ hw) (hvc ▸ hs)
        (countsTo_frameNonce hn hle) (by rw [hvc]; exact Nat.le_succ _)
      rw [hvc] at hframes hclient
      refine ⟨(frameHeader (payload.take 1024).length ++ cipher) :: frames, ?_, ?_, ?_⟩
      · have hfirst : sealFrame P.crypto (w.client c).readKey (w.client c).countReads (payload.take 1024) =
            some (frameHeader (payload.take 1024).length ++ cipher) := by
          rw [sealFrame, ← frameNonce_congr hn hle, hcipher]
          rfl
        rw [Pieces.cut_succ hp, sealFrames, hfirst, hframes]
      · rw [hstep, htrace, hv]
        simp [World.log, World.setClient]
      · rw [hstep, hclient, hx, List.length_cons]
        simp only [Nat.add_assoc, Nat.add_comm 1]

theorem clientSend_frames (hP : Reliable P) (he : (w.client c).encrypted = true) (hw : Writable (w.client c))
    (hs : (w.client c).socket ≠ none) (payload : Bytes) :
    ∃ frames, sealFrames P.crypto (w.client c).readKey (w.client c).countReads (piecesOf payload) = some frames ∧
      (clientSend w c payload).trace = w.trace ++ frames.map (.sent c) ∧
      (clientSend w c payload).client c =
        { w.client c with countReads := (w.client c).countReads + frames.length } := by
  rw [clientSend, if_pos he]
  exact clientSendEncryptedLoop_frames hP payload.length payload hw hs (countsTo_zeroNonce 0) (Nat.zero_le _)

/-! Runs. -/

/-- Any connection may ask for anything, and what is read shows it connected. -/
def connectedScope (P : Platform) : Scope P where
  opens _ _ := True
  reads b := b.socket.isConnected = true

/-- The reads of a run whose sockets stay connected. -/
def StaysConnected : Action P → Prop
  | .buffer _ b => b.socket.isConnected = true
  | _ => True

/-- The frames among the entries of a log that were written to the client. -/
def sentTo (c : ClientId) (es : List Event) : List Bytes :=
  es.filterMap (fun e => match e with
    | .sent d data => if d = c then some data else none
    | _ => none)

/-- The payloads that client_send was called with for the client. -/
def payloadsTo (c : ClientId) (calls : List (ClientId × Bytes)) : List Bytes :=
  calls.filterMap (fun x => if x.1 = c then some x.2 else none)

/-- A plain connection has just been made a session. -/
def SessionOpens (c : ClientId) (request : SignedRequest) (w : World P) : Prop :=
  ∃ v pairing, c < v.clientCount ∧ (v.client c).encrypted = false ∧ w = openSession v c request pairing

/-- The counter of a plain connection has not moved, and sockets take data. -/
structure Ready (w : World P) : Prop where
  plain : ∀ c < w.clientCount, (w.client c).encrypted = false → (w.client c).countReads = 0
  writable : ∀ c < w.clientCount, Writable (w.client c)

theorem sentTo_append (c : ClientId) (es fs : List Event) : sentTo c (es ++ fs) = sentTo c es ++ sentTo c fs :=
  List.filterMap_append ..

theorem sentTo_of_forall {es : List Event} (h : ∀ e ∈ es, ∀ data, e ≠ .sent c data) : sentTo c es = [] := by
  refine List.filterMap_eq_nil_iff.mpr (fun e he => ?_)
  cases e with
  | sent d data =>
    by_cases hd : d = c
    · exact absurd (hd ▸ rfl) (h _ he data)
    · exact if_neg hd
  | _ => rfl

theorem sentTo_map_sent (c : ClientId) (frames : List Bytes) : sentTo c (frames.map (.sent c)) = frames := by
  simp [sentTo, List.filterMap_map]

theorem Ready.client {x : Client P} (h : Ready w) (hc : c < w.clientCount → x.encrypted = false → x.countReads = 0)
    (hw : c < w.clientCount → Writable x) : Ready (w.setClient c x) where
  plain d hd := by
    by_cases hdc : d = c
    · subst hdc
      rw [setClient_self]
      exact hc hd
    · rw [setClient_of_ne hdc]
      exact h.plain d hd
  writable d hd := by
    by_cases hdc : d = c
    · subst hdc
      rw [setClient_self]
      exact hw hd
    · rw [setClient_of_ne hdc]
      exact h.writable d hd

theorem Ready.close (h : Ready w) (c : ClientId) : Ready (homekitServerCloseClient w c) := by
  have hc := homekitServerCloseClient_closes w c
  have hr : Ready (w.setClient c { w.client c with step := .done, socket := none }) :=
    h.client (fun hlt he => h.plain c hlt he) (fun _ socket hs => by simp at hs)
  have hcl : ∀ d, (homekitServerCloseClient w c).client d =
      (w.setClient c { w.client c with step := .done, socket := none }).client d := fun d => congrFun hc.client d
  refine ⟨fun d hd => ?_, fun d hd => ?_⟩
  · rw [hcl]
    exact hr.plain d (hc.clientCount ▸ hd)
  · rw [hcl]
    exact hr.writable d (hc.clientCount ▸ hd)

theorem Writable.setSocket {x y : Client P} (h : Writable x) (hs : y.socket = x.socket) (he : y.errorWrite = x.errorWrite) :
    Writable y := by
  intro socket hy
  rw [he]
  exact h socket (hs ▸ hy)

theorem Update.ready (hS : ∀ b, S.reads b → b.socket.isConnected = true) (hu : Update S w w') (h : Ready w) :
    Ready w' := by
  cases hu with
  | client c x hx =>
    refine h.client (fun hc he => ?_) (fun hc => (h.writable c hc).setSocket hx.socket hx.errorWrite)
    rw [hx.countReads]
    exact h.plain c hc (hx.encrypted ▸ he)
  | log e _ => exact ⟨h.plain, h.writable⟩
  | globals flash paired app now => exact ⟨h.plain, h.writable⟩
  | accept raw =>
    unfold homekitServerAcceptClient
    split
    · exact h
    · have hnew : ∀ d < w.clientCount + 1, d = w.clientCount ∧
          (w.setClient w.clientCount (clientContextNew raw)).client d = clientContextNew raw ∨
          d < w.clientCount ∧ (w.setClient w.clientCount (clientContextNew raw)).client d = w.client d := by
        intro d hd
        rcases Nat.lt_succ_iff_lt_or_eq.mp hd with hlt | rfl
        · exact Or.inr ⟨hlt, setClient_of_ne (Nat.ne_of_lt hlt) ..⟩
        · exact Or.inl ⟨rfl, setClient_self ..⟩
      refine ⟨fun d hd he => ?_, fun d hd => ?_⟩
      · rcases hnew d hd with ⟨_, hcl⟩ | ⟨hlt, hcl⟩
        · exact congrArg Client.countReads hcl
        · exact (congrArg Client.countReads hcl).trans (h.plain d hlt ((congrArg Client.encrypted hcl).symm.trans he))
      · rcases hnew d hd with ⟨_, hcl⟩ | ⟨hlt, hcl⟩
        · refine Writable.setSocket (x := clientContextNew raw) ?_ (congrArg Client.socket hcl)
            (congrArg Client.errorWrite hcl)
          intro socket hs
          obtain rfl := Option.some.inj hs
          exact ⟨rfl, rfl⟩
        · exact (h.writable d hlt).setSocket (congrArg Client.socket hcl) (congrArg Client.errorWrite hcl)
  | buffer c b hb =>
    refine h.client (fun hc he => h.plain c hc he) (fun hc socket hs => ?_)
    obtain ⟨before, hbefore, rfl⟩ := Option.map_eq_some_iff.mp hs
    exact ⟨hS b hb, (h.writable c hc before hbefore).2⟩
  | close c => exact h.close c
  | preinit =>
    rcases arduinoHomekitPreinit_cases w with ⟨_, he⟩ | ⟨_, ⟨_, he⟩ | ⟨_, he⟩⟩ <;> rw [he] <;>
      exact ⟨h.plain, h.writable⟩
  | opened c k _ _ _ => exact ⟨h.plain, h.writable⟩
  | context k x _ => exact ⟨h.plain, h.writable⟩
  | free k _ => exact ⟨h.plain, h.writable⟩
  | session c request pairing _ _ =>
    have hcl : Ready (w.setClient c { w.client c with
        pairingId := pairing.id, permissions := pairing.permissions, encrypted := true, step := .pairVerify2Of2 }) :=
      h.client (fun _ he => by simp at he) (fun hc => h.writable c hc)
    exact ⟨hcl.plain, hcl.writable⟩

theorem write_countReads (w : World P) (c : ClientId) (data : Bytes) :
    ((write w c data).client c).countReads = (w.client c).countReads := by
  unfold write
  split
  · rfl
  · dsimp only
    split
    · rfl
    · split
      · rfl
      · split
        · rw [(homekitServerCloseClient_closes _ c).client]
          simp
        · rfl

theorem Ready.send (h : Ready w) (c : ClientId) (data : Bytes) : Ready (clientSend w c data) := by
  have hs := clientSend_sends w c data
  refine ⟨fun d hd he => ?_, fun d hd => ?_⟩
  · rw [hs.clientCount] at hd
    by_cases hdc : d = c
    · subst hdc
      have hplain : (w.client d).encrypted = false := hs.encrypted.symm.trans he
      rw [clientSend, if_neg (by simp [hplain]), write_countReads]
      exact h.plain d hd hplain
    · rw [hs.other d hdc] at he ⊢
      exact h.plain d hd he
  · rw [hs.clientCount] at hd
    by_cases hdc : d = c
    · subst hdc
      rcases hs.outcome with ho | hcl
      · exact (h.writable d hd).setSocket ho.socket ho.errorWrite
      · intro socket hsome
        exact absurd (hcl.socket.symm.trans hsome) (by simp)
    · rw [hs.other d hdc]
      exact h.writable d hd

/-- What the session of `c` has sent since the log read `start`, against the calls made. -/
structure InSession (c : ClientId) (key : Bytes) (start : List Event) (calls : List (ClientId × Bytes)) (w : World P) :
    Prop where
  known : c < w.clientCount
  encrypted : (w.client c).encrypted = true
  readKey : (w.client c).readKey = key
  frames : ∃ es, w.trace = start ++ es ∧ ((w.client c).socket ≠ none →
    sealFrames P.crypto key 0 ((payloadsTo c calls).flatMap piecesOf) = some (sentTo c es) ∧
      (w.client c).countReads = (sentTo c es).length)

variable {start : List Event} {calls : List (ClientId × Bytes)}

/-- Updates that write nothing to the client and do not touch its session. -/
theorem InSession.keep (h : InSession c key start calls w) (hn : w.clientCount ≤ w'.clientCount)
    (he : (w'.client c).encrypted = (w.client c).encrypted) (hk : (w'.client c).readKey = (w.client c).readKey)
    (hs : (w'.client c).socket ≠ none → (w.client c).socket ≠ none ∧ (w'.client c).countReads = (w.client c).countReads)
    (ht : Adds (fun e => ∀ data, e ≠ .sent c data) w.trace w'.trace) : InSession c key start calls w' where
  known := Nat.lt_of_lt_of_le h.known hn
  encrypted := he.trans h.encrypted
  readKey := hk.trans h.readKey
  frames := by
    obtain ⟨es, htrace, hframes⟩ := h.frames
    obtain ⟨fs, hfs, hne⟩ := ht
    refine ⟨es ++ fs, by rw [hfs, htrace, List.append_assoc], fun hsome => ?_⟩
    obtain ⟨hsome', hcount⟩ := hs hsome
    rw [sentTo_append, sentTo_of_forall hne, List.append_nil, hcount]
    exact hframes hsome'

theorem InSession.same (h : InSession c key start calls w) (hn : w.clientCount ≤ w'.clientCount)
    (hc : w'.client c = w.client c) (ht : Adds (fun e => ∀ data, e ≠ .sent c data) w.trace w'.trace) :
    InSession c key start calls w' :=
  h.keep hn (by rw [hc]) (by rw [hc]) (fun hs => ⟨hc ▸ hs, by rw [hc]⟩) ht

/-- The entries of the log that no update but client_send and the opening of a session makes. -/
def IsSilent : Event → Prop
  | .sent .. | .verified .. => False
  | _ => True

theorem IsNeutral.isSilent {e : Event} (h : IsNeutral e) : IsSilent e := by
  cases e <;> first | exact h.elim | trivial

theorem closeClient_silent (w : World P) (c : ClientId) : Adds IsSilent w.trace (homekitServerCloseClient w c).trace := by
  by_cases ho : Owns w c
  · obtain ⟨k, hk, ho⟩ := ho
    rw [homekitServerCloseClient_of_owner hk ho]
    exact (Adds.single _ (by trivial : IsSilent (.contextFreed k))).trans
      (Adds.single _ (by trivial : IsSilent (.closed c)))
  · rw [homekitServerCloseClient_of_not_owner ho]
    exact Adds.single _ (by trivial : IsSilent (.closed c))

/-- An update opens a session or adds no entry of interest. -/
theorem Update.silent_or_session (hu : Update S w w') :
    Adds IsSilent w.trace w'.trace ∨
      ∃ c request pairing, (w.client c).encrypted = false ∧ c < w.clientCount ∧
        w' = openSession w c request pairing := by
  cases hu with
  | client c x _ => exact Or.inl (Adds.refl _ _)
  | log e he => exact Or.inl (Adds.single _ he.isSilent)
  | globals flash paired app now => exact Or.inl (Adds.refl _ _)
  | accept raw =>
    unfold homekitServerAcceptClient
    split
    · exact Or.inl (Adds.refl _ _)
    · exact Or.inl (Adds.single _ (by trivial : IsSilent (.connected _)))
  | buffer c b _ => exact Or.inl (Adds.refl _ _)
  | close c => exact Or.inl (closeClient_silent w c)
  | preinit =>
    rcases arduinoHomekitPreinit_cases w with ⟨_, he⟩ | ⟨_, ⟨_, he⟩ | ⟨_, he⟩⟩
    · rw [he]
      exact Or.inl (Adds.refl _ _)
    · rw [he]
      exact Or.inl (Adds.single _ (by trivial : IsSilent (.contextFreed _)))
    · rw [he]
      exact Or.inl (Adds.refl _ _)
  | opened c k _ _ _ => exact Or.inl (Adds.single _ (by trivial : IsSilent (.contextOpened k c)))
  | context k x _ => exact Or.inl (Adds.refl _ _)
  | free k _ => exact Or.inl (Adds.single _ (by trivial : IsSilent (.contextFreed k)))
  | session c request pairing hc he => exact Or.inr ⟨c, request, pairing, he, hc, rfl⟩

/-- What an update leaves of a client with a session. -/
theorem Update.client_of_encrypted (hu : Update S w w') (hc : c < w.clientCount) (he : (w.client c).encrypted = true) :
    (w'.client c).encrypted = true ∧ (w'.client c).readKey = (w.client c).readKey ∧
      (w'.client c).countReads = (w.client c).countReads ∧
      ((w'.client c).socket ≠ none → (w.client c).socket ≠ none) := by
  have hsame : w'.client c = w.client c → (w'.client c).encrypted = true ∧
      (w'.client c).readKey = (w.client c).readKey ∧ (w'.client c).countReads = (w.client c).countReads ∧
      ((w'.client c).socket ≠ none → (w.client c).socket ≠ none) := by
    intro h
    rw [h]
    exact ⟨he, rfl, rfl, id⟩
  cases hu with
  | client d x hx =>
    by_cases hd : c = d
    · subst hd
      rw [setClient_self]
      exact ⟨hx.encrypted.trans he, hx.readKey he, hx.countReads, fun hs => hx.socket ▸ hs⟩
    · exact hsame (setClient_of_ne hd ..)
  | accept raw =>
    refine hsame ?_
    unfold homekitServerAcceptClient
    split
    · rfl
    · exact Function.update_of_ne (Nat.ne_of_lt hc) ..
  | buffer d b _ =>
    by_cases hd : c = d
    · subst hd
      rw [setBuffering, setClient_self]
      exact ⟨he, rfl, rfl, fun hs hn => hs (by simp [hn])⟩
    · exact hsame (setClient_of_ne hd ..)
  | close d =>
    rw [(homekitServerCloseClient_closes w d).client] at hsame ⊢
    by_cases hd : c = d
    · subst hd
      rw [Function.update_self]
      exact ⟨he, rfl, rfl, fun hs => absurd rfl hs⟩
    · exact hsame (Function.update_of_ne hd ..)
  | preinit => exact hsame (by rcases arduinoHomekitPreinit_cases w with ⟨_, h⟩ | ⟨_, ⟨_, h⟩ | ⟨_, h⟩⟩ <;> rw [h] <;> rfl)
  | session d request pairing _ hd =>
    have hne : c ≠ d := by
      rintro rfl
      simp [he] at hd
    exact hsame (openSession_of_ne hne)
  | log | globals | opened | context | free => exact hsame rfl

theorem Update.clientCount (hu : Update S w w') : w.clientCount ≤ w'.clientCount := by
  cases hu with
  | accept raw =>
    unfold homekitServerAcceptClient
    split
    · exact Nat.le_refl _
    · exact Nat.le_succ _
  | close d => exact Nat.le_of_eq (homekitServerCloseClient_closes w d).clientCount.symm
  | preinit => rcases arduinoHomekitPreinit_cases w with ⟨_, h⟩ | ⟨_, ⟨_, h⟩ | ⟨_, h⟩⟩ <;> rw [h] <;> exact Nat.le_refl _
  | client | log | globals | buffer | opened | context | free | session => exact Nat.le_refl _

theorem Update.inSession (hu : Update S w w') (h : InSession c key start calls w) : InSession c key start calls w' := by
  obtain ⟨he, hk, hcount, hs⟩ := hu.client_of_encrypted h.known h.encrypted
  refine h.keep hu.clientCount (he.trans h.encrypted.symm) hk (fun hsome => ⟨hs hsome, hcount⟩) ?_
  rcases hu.silent_or_session with ht | ⟨d, request, pairing, _, _, rfl⟩
  · exact ht.mono (fun e he data heq => by simp [heq, IsSilent] at he)
  · exact Adds.single _ (by simp)

theorem payloadsTo_append (c d : ClientId) (calls : List (ClientId × Bytes)) (data : Bytes) :
    payloadsTo c (calls ++ [(d, data)]) = payloadsTo c calls ++ if d = c then [data] else [] := by
  by_cases hd : d = c <;> simp [payloadsTo, hd]

/-- A call of client_send continues the frames of its client. -/
theorem InSession.send (hP : Reliable P) (hr : Ready w) (h : InSession c key start calls w) (d : ClientId) (data : Bytes) :
    InSession c key start (calls ++ [(d, data)]) (clientSend w d data) := by
  have hs := clientSend_sends w d data
  by_cases hd : d = c
  · subst hd
    by_cases hsock : (w.client d).socket = none
    · -- nothing is written to a closed connection
      have hnone : (((clientSend w d data).client d).socket) = none := by
        rcases hs.outcome with ho | hcl
        · exact ho.socket.trans hsock
        · exact hcl.socket
      have hkey := congrArg Client.readKey hs.core
      obtain ⟨es, htrace, _⟩ := h.frames
      obtain ⟨fs, hfs, _⟩ := hs.trace
      exact ⟨hs.clientCount ▸ h.known, hs.encrypted.trans h.encrypted, Eq.trans hkey h.readKey,
        es ++ fs, by rw [hfs, htrace, List.append_assoc], fun hsome => absurd hnone hsome⟩
    · obtain ⟨frames, hseal, htrace, hclient⟩ :=
        clientSend_frames hP h.encrypted (hr.writable d h.known) hsock data
      obtain ⟨es, hes, hframes⟩ := h.frames
      obtain ⟨hold, hcount⟩ := hframes hsock
      refine ⟨hs.clientCount ▸ h.known, hs.encrypted.trans h.encrypted, ?_, es ++ frames.map (.sent d), ?_, fun _ => ?_⟩
      · rw [hclient]
        exact h.readKey
      · rw [htrace, hes, List.append_assoc]
      · rw [h.readKey, hcount] at hseal
        rw [sentTo_append, sentTo_map_sent, payloadsTo_append, if_pos rfl, List.flatMap_append, hclient,
          List.length_append, hcount]
        refine ⟨sealFrames_append hold ?_, rfl⟩
        rw [Nat.zero_add, List.flatMap_singleton]
        exact hseal
  · have hkeep := h.same (Nat.le_of_eq hs.clientCount.symm) (hs.other c (Ne.symm hd))
      (hs.trace.mono (fun e he data heq => by simp only [heq, IsOutput] at he; exact hd he.symm))
    refine ⟨hkeep.known, hkeep.encrypted, hkeep.readKey, ?_⟩
    rw [payloadsTo_append, if_neg hd, List.append_nil]
    exact hkeep.frames

theorem calls_ready (hS : ∀ b, S.reads b → b.socket.isConnected = true) (h : Calls S w calls w') (hr : Ready w) :
    Ready w' :=
  h.invariant (fun _ _ hr hu => hu.ready hS hr) (fun _ x hr => hr.send x.1 x.2) hr

theorem calls_inSession (hP : Reliable P) (hS : ∀ b, S.reads b → b.socket.isConnected = true) (h : Calls S w calls w')
    (hr : Ready w) (hi : InSession c key start [] w) : InSession c key start calls w' := by
  have hboth := h.invariant_of (I := fun calls v => Ready v ∧ InSession c key start calls v)
    (fun _ _ _ hi hu => ⟨hu.ready hS hi.1, hu.inSession hi.2⟩)
    (fun _ _ x hi => ⟨hi.1.send x.1 x.2, hi.2.send hP hi.1 x.1 x.2⟩) ⟨hr, hi⟩
  exact hboth.2

theorem openSession_inSession {v : World P} {request : SignedRequest} {pairing : Pairing} (hr : Ready v)
    (hc : c < v.clientCount) (he : (v.client c).encrypted = false) :
    InSession c (v.client c).readKey (openSession v c request pairing).trace [] (openSession v c request pairing) where
  known := hc
  encrypted := by rw [openSession_self]
  readKey := by rw [openSession_self]
  frames := by
    refine ⟨[], by simp, fun _ => ⟨rfl, ?_⟩⟩
    rw [openSession_self]
    exact hr.plain c hc he

/-- Behind every session stands the moment it was opened. -/
theorem calls_sessionOpens {request : SignedRequest} (h : Calls S w calls w') (h0 : .verified c request ∉ w.trace)
    (hv : .verified c request ∈ w'.trace) :
    ∃ v pairing before rest, Calls S w before v ∧ c < v.clientCount ∧ (v.client c).encrypted = false ∧
      Calls S (openSession v c request pairing) rest w' := by
  induction h with
  | refl => exact absurd hv h0
  | @silent calls t u h hu ih =>
    by_cases ht : .verified c request ∈ t.trace
    · obtain ⟨v, pairing, before, rest, hbefore, hc, he, hrest⟩ := ih ht
      exact ⟨v, pairing, before, rest, hbefore, hc, he, hrest.silent hu⟩
    · rcases hu.silent_or_session with hadds | ⟨d, q, pairing, he, hd, rfl⟩
      · exact absurd ((hadds.mem_iff (id : ¬ IsSilent (.verified c request))).mp hv) ht
      · obtain ⟨rfl, rfl⟩ : c = d ∧ request = q := by
          have hmem := List.mem_append.mp hv
          simpa [ht] using hmem.resolve_left ht
        exact ⟨t, pairing, calls, [], h, hd, he, .refl⟩
  | @act calls t h x ih =>
    have hs := clientSend_sends t x.1 x.2
    obtain ⟨v, pairing, before, rest, hbefore, hc, he, hrest⟩ :=
      ih ((hs.trace.mem_iff (id : ¬ IsOutput x.1 (.verified c request))).mp hv)
    exact ⟨v, pairing, before, rest ++ [x], hbefore, hc, he, hrest.act x⟩

/-- Every run whose sockets stay connected is made of calls of client_send and updates. -/
theorem run_works {as : List (Action P)} (has : ∀ a ∈ as, StaysConnected a) (h : run step w as = .ok w') :
    Works (connectedScope P) w w' := by
  induction as generalizing w with
  | nil => exact Except.ok.inj h ▸ Works.refl w
  | cons a as ih =>
    obtain ⟨u, hu, hrest⟩ := run_cons_ok.mp h
    have ha := has a (List.mem_cons_self ..)
    obtain ⟨calls, hcalls⟩ := step_works hu
    have hmono : Works (connectedScope P) w u := by
      refine ⟨calls, hcalls.mono (fun _ _ hup => hup.mono (fun _ _ _ => trivial) ?_)⟩
      rintro b ⟨c, rfl⟩
      exact ha
    exact hmono.trans (ih (fun a hm => has a (List.mem_cons_of_mem _ hm)) hrest)

theorem sendAll_calls (w : World P) (c : ClientId) (payloads : List Bytes) :
    Calls S w (payloads.map (fun data => (c, data))) (sendAll w c payloads) := by
  induction payloads generalizing w with
  | nil => exact .refl
  | cons data payloads ih =>
    have hfirst : Calls S w [(c, data)] (clientSend w c data) := Path.act .refl (c, data)
    exact hfirst.trans (ih (clientSend w c data))

theorem payloadsTo_map (c : ClientId) (calls : List (ClientId × Bytes)) (payloads : List Bytes) :
    payloadsTo c (calls ++ payloads.map (fun data => (c, data))) = payloadsTo c calls ++ payloads := by
  simp [payloadsTo, List.filterMap_map]

theorem sendAll_socket (hP : Reliable P) (hr : Ready w) (hc : c < w.clientCount) (he : (w.client c).encrypted = true)
    (hs : (w.client c).socket ≠ none) (payloads : List Bytes) : ((sendAll w c payloads).client c).socket ≠ none := by
  induction payloads generalizing w with
  | nil => exact hs
  | cons data payloads ih =>
    obtain ⟨frames, _, _, hclient⟩ := clientSend_frames hP he (hr.writable c hc) hs data
    have hsends := clientSend_sends w c data
    exact ih (hr.send c data) (hsends.clientCount ▸ hc) (hsends.encrypted.trans he) (by rw [hclient]; exact hs)

/-- The key of a session stays. -/
theorem run_readKey {bs : List (Action P)} (hc : c < w.clientCount) (he : (w.client c).encrypted = true)
    (h : run step w bs = .ok w') : (w'.client c).readKey = (w.client c).readKey := by
  have hinv := Runs.invariant (I := fun v : World P => c < v.clientCount ∧ (v.client c).encrypted = true ∧
    (v.client c).readKey = (w.client c).readKey) ?_ ⟨hc, he, rfl⟩ h
  · exact hinv.2.2
  · intro v a v' hv hstep
    refine step_invariant (I := fun v : World P => c < v.clientCount ∧ (v.client c).encrypted = true ∧
      (v.client c).readKey = (w.client c).readKey) ?_ ?_ hstep hv
    · rintro u u' ⟨h1, h2, h3⟩ hu
      obtain ⟨he', hk, _, _⟩ := hu.client_of_encrypted h1 h2
      exact ⟨Nat.lt_of_lt_of_le h1 hu.clientCount, he', hk.trans h3⟩
    · rintro u d data ⟨h1, h2, h3⟩
      have hs := clientSend_sends u d data
      by_cases hd : c = d
      · subst hd
        have hk := congrArg Client.readKey hs.core
        exact ⟨hs.clientCount ▸ h1, hs.encrypted.trans h2, Eq.trans hk h3⟩
      · rw [hs.other c hd]
        exact ⟨hs.clientCount ▸ h1, h2, h3⟩

/-- In every run from boot, the frames that a session has sent since it was opened, together
with those of any further calls of client_send, are sealed under its one key with the nonces
0, 1, 2 and so on, and open to the payloads of the calls. -/
theorem session_frames (hP : Reliable P) (accessoryId : Bytes) (accessoryKey : Ed25519Key) (password : Option Bytes)
    (flash : Flash) (app : P.App) (clients : ClientId → Client P) (contexts : ContextId → PairingContext)
    {as : List (Action P)} {request : SignedRequest}
    (h : run step (serverBoot accessoryId accessoryKey password flash app clients contexts) as = .ok w)
    (has : ∀ a ∈ as, StaysConnected a) (hv : .verified c request ∈ w.trace) (hs : (w.client c).socket ≠ none) :
    ∃ w₀ calls, SessionOpens c request w₀ ∧ Calls (connectedScope P) w₀ calls w ∧
      (∀ bs w', run step w bs = .ok w' → (w'.client c).readKey = (w₀.client c).readKey) ∧
      ∀ payloads,
        let frames := sentTo c ((sendAll w c payloads).trace.drop w₀.trace.length)
        frames.length < 2 ^ 31 →
          FramesRight P.crypto (w₀.client c).readKey frames (payloadsTo c calls ++ payloads) := by
  have hS : ∀ b, (connectedScope P).reads b → b.socket.isConnected = true := fun _ hb => hb
  have hboot : Ready (serverBoot accessoryId accessoryKey password flash app clients contexts) :=
    ⟨fun c hc => absurd hc (Nat.not_lt_zero c), fun c hc => absurd hc (Nat.not_lt_zero c)⟩
  obtain ⟨all, hall⟩ := run_works has h
  obtain ⟨v, pairing, before, calls, hbefore, hc, he, hcalls⟩ := calls_sessionOpens hall List.not_mem_nil hv
  have hrv : Ready v := calls_ready hS hbefore hboot
  have hro : Ready (openSession v c request pairing) :=
    (Update.session (S := connectedScope P) c request pairing hc he).ready hS hrv
  have hopen : InSession c (v.client c).readKey (openSession v c request pairing).trace []
      (openSession v c request pairing) := openSession_inSession hrv hc he
  have hkey : ((openSession v c request pairing).client c).readKey = (v.client c).readKey := by rw [openSession_self]
  have hin := calls_inSession hP hS hcalls hro hopen
  refine ⟨_, calls, ⟨v, pairing, hc, he, rfl⟩, hcalls, fun bs w' hbs => ?_, fun payloads => ?_⟩
  · rw [run_readKey hin.known hin.encrypted hbs, hkey]
    exact hin.readKey
  · intro frames hlt
    have hend := calls_inSession hP hS (hcalls.trans (sendAll_calls w c payloads)) hro hopen
    obtain ⟨es, htrace, hframes⟩ := hend.frames
    obtain ⟨hseal, _⟩ := hframes (sendAll_socket hP (calls_ready hS hcalls hro) hin.known hin.encrypted hs payloads)
    have hes : frames = sentTo c es := by
      show sentTo c ((sendAll w c payloads).trace.drop _) = sentTo c es
      rw [htrace, List.drop_left]
    rw [payloadsTo_map] at hseal
    rw [hkey, hes]
    exact sealFrames_framesRight hP.opens hseal (hes ▸ hlt)

theorem bench_reliable : Reliable bench where
  seals _ _ _ _ := by simp [bench, benchCrypto]
  opens := benchCrypto_opens
  sends _ := rfl

theorem verified_run :
    ends step (benchBoot [benchRecord 2 1]) (verifyAs 0 2) (fun w =>
    (w.client 0).socket.isSome && w.trace.any (fun e => match e with
      | .verified 0 _ => true
      | _ => false)) = true := by
  decide +kernel

/-- What controller 2 is sent once its session is open. -/
theorem session_frames_bench :
    ∃ (w w₀ : World bench) (calls : List (ClientId × Bytes)), run step (benchBoot [benchRecord 2 1]) (verifyAs 0 2) = .ok w ∧
      Calls (connectedScope bench) w₀ calls w ∧
      ∀ payloads, (sentTo 0 ((sendAll w 0 payloads).trace.drop w₀.trace.length)).length < 2 ^ 31 →
        FramesRight benchCrypto (w₀.client 0).readKey
          (sentTo 0 ((sendAll w 0 payloads).trace.drop w₀.trace.length)) (payloadsTo 0 calls ++ payloads) := by
  obtain ⟨w, hw, hp⟩ := ends_spec verified_run
  simp only [Bool.and_eq_true, List.any_eq_true] at hp
  obtain ⟨hs, e, he, hv⟩ := hp
  split at hv
  · rename_i request
    have has : ∀ a ∈ verifyAs 0 2, StaysConnected a := by
      simp [verifyAs, post, StaysConnected]
    obtain ⟨w₀, calls, _, hcalls, _, hframes⟩ := session_frames bench_reliable _ _ _ _ _ _ _ hw has he
      (Option.isSome_iff_ne_none.mp hs)
    exact ⟨w, w₀, calls, hw, hcalls, hframes⟩
  · simp at hv

end ArduinoHomeKit
