import Mathlib.Data.List.GetD
import ArduinoHomeKit.Frames
import ArduinoHomeKit.Bench

/-! The stream decoder of a session. It hands on what the controller sent as long as every
read takes one frame. -/

namespace ArduinoHomeKit

open Runs Growth

variable {P : Platform} {c d : ClientId} {w w' w'' : World P} {wc : WolfCrypt} {key payload chunk : Bytes} {count : Nat}

def frameHeader (n : Nat) : Bytes := [UInt8.ofNat (n % 256), UInt8.ofNat (n / 256)]

/-- The frame a controller sends for a chunk. -/
def sealFrame (wc : WolfCrypt) (key : Bytes) (count : Nat) (chunk : Bytes) : Option Bytes :=
  (wc.wcChaCha20Poly1305Encrypt key (frameNonce zeroNonce count) (frameHeader chunk.length) chunk).map
    (frameHeader chunk.length ++ ·)

def sealFrames (wc : WolfCrypt) (key : Bytes) : Nat → List Bytes → Option (List Bytes)
  | _, [] => some []
  | count, chunk :: chunks =>
    match sealFrame wc key count chunk, sealFrames wc key (count + 1) chunks with
    | some frame, some frames => some (frame :: frames)
    | _, _ => none

/-- Decryption returns the plaintext of what was sealed. -/
def OpensSealed (wc : WolfCrypt) : Prop :=
  ∀ key nonce aad plain cipher, wc.wcChaCha20Poly1305Encrypt key nonce aad plain = some cipher →
    wc.wcChaCha20Poly1305Decrypt key nonce aad (cipher.take plain.length) (cipher.drop plain.length) = some plain

/-- The payloads that reach the parser of the connection. -/
def passed (c : ClientId) (w w' : World P) : List Bytes :=
  (news w w').filterMap (fun e => match e with
    | .parsed d payload => if d = c then some payload else none
    | _ => none)

/-- The parser has seen a part of the plaintext, and all of it once everything is read. -/
def Decodes (c : ClientId) (chunks : List Bytes) (w w' : World P) : Prop :=
  (passed c w w').flatten <+: chunks.flatten ∧
    ∀ socket, (w'.client c).socket = some socket → socket.rx = [] → (passed c w w').flatten = chunks.flatten

/-- The bytes that a call brings to the connection. -/
def arrivingAt (c : ClientId) : Call P → Bytes
  | .process d arrival => if d = c then arrival.bytes else []
  | _ => []

/-- A read of the connection takes one whole frame. -/
def ReadsFrames (c : ClientId) (w : World P) : Call P → Prop
  | .process d arrival =>
    d = c → ∀ v payload, reading (arrive w c arrival) c = some (v, payload) → IsFrame payload
  | _ => True

theorem sealFrames_cons {chunks frames : List Bytes} (h : sealFrames wc key count (chunk :: chunks) = some frames) :
    ∃ frame rest, sealFrame wc key count chunk = some frame ∧ sealFrames wc key (count + 1) chunks = some rest ∧
      frames = frame :: rest := by
  simp only [sealFrames] at h
  split at h
  · rename_i frame rest h1 h2
    exact ⟨frame, rest, h1, h2, (Option.some.inj h).symm⟩
  · simp at h

/-- A sealed frame is a frame, and opens to its chunk. -/
theorem openFrame_sealFrame {frame : Bytes} (hs : OpensSealed wc) (h1 : 0 < chunk.length) (h2 : chunk.length ≤ 1024)
    (h : sealFrame wc key count chunk = some frame) :
    IsFrame frame ∧ frame.length = chunk.length + 18 ∧ openFrame wc key count frame = some chunk := by
  obtain ⟨cipher, hc, rfl⟩ := Option.map_eq_some_iff.mp h
  have hlen := wc.encrypt_length hc
  have hsize : chunkSize (frameHeader chunk.length ++ cipher) = chunk.length := by
    simp only [chunkSize, frameHeader, List.cons_append, List.nil_append, List.getD_cons_zero, List.getD_cons_succ,
      UInt8.toNat_ofNat']
    omega
  have hall : (frameHeader chunk.length ++ cipher).length = chunk.length + 18 := by
    simp only [frameHeader, List.length_append, List.length_cons, List.length_nil, hlen]
    omega
  refine ⟨⟨by omega, by omega⟩, hall, ?_⟩
  rw [openFrame, hsize]
  exact hs _ _ _ _ _ hc

/-- The first frame of a stream is determined by the stream. -/
theorem frame_unique {frame rest rest' : Bytes} (h : IsFrame payload) (hf : IsFrame frame)
    (he : payload ++ rest = frame ++ rest') : payload = frame := by
  have hget : ∀ i, i < 2 → payload.getD i 0 = frame.getD i 0 := by
    intro i hi
    have h1 : i < payload.length := by have := h.1; omega
    have h2 : i < frame.length := by have := hf.1; omega
    have hh := congrArg (fun l => l.getD i 0) he
    simpa only [List.getD_append _ _ _ _ h1, List.getD_append _ _ _ _ h2] using hh
  have hsize : chunkSize payload = chunkSize frame := by
    rw [chunkSize, chunkSize, hget 0 (by omega), hget 1 (by omega)]
  exact (List.append_inj he (by rw [h.2, hf.2, hsize])).1

theorem call_adds {a : Call P} (h : call w a = .ok w') : Adds (fun _ => True) w.trace w'.trace :=
  (call_reaches h).invariant (I := fun v => Adds (fun _ => True) w.trace v.trace)
    (fun _ _ _ hv h => hv.trans (step_adds h)) (Adds.refl _ _)

theorem passed_append (h : Adds (fun _ => True) w.trace w'.trace) (hh : Adds (fun _ => True) w'.trace w''.trace)
    (c : ClientId) : passed c w w'' = passed c w w' ++ passed c w' w'' := by
  have hnews : news w w'' = news w w' ++ news w' w'' := by
    obtain ⟨es, he, _⟩ := h
    obtain ⟨fs, hf, _⟩ := hh
    simp [news, hf, he]
  rw [passed, passed, passed, hnews, List.filterMap_append]

theorem passed_of_adds (h : Adds (fun e => ∀ payload, e ≠ .parsed c payload) w.trace w'.trace) :
    passed c w w' = [] := by
  refine List.filterMap_eq_nil_iff.mpr (fun e he => ?_)
  have hne := mem_news h he
  cases e with
  | parsed d payload =>
    by_cases hd : d = c
    · exact absurd (hd ▸ rfl) (hne payload)
    · exact if_neg hd
  | _ => rfl

theorem passed_of_parsed (h : Adds (fun e => ∀ payload, e ≠ .parsed c payload) (w.log (.parsed c payload)).trace w'.trace) :
    passed c w w' = [payload] := by
  obtain ⟨es, he, hp⟩ := h
  have hes : es.filterMap (fun e => match e with
      | .parsed d payload => if d = c then some payload else none
      | _ => none) = [] := by
    refine List.filterMap_eq_nil_iff.mpr (fun e hm => ?_)
    cases e with
    | parsed d payload =>
      by_cases hd : d = c
      · exact absurd (hd ▸ rfl) (hp _ hm payload)
      · exact if_neg hd
    | _ => rfl
  simp [passed, news, he, World.log, hes]

/-- The connection waits for the frames of the given chunks, of which the last bytes are still
to arrive. A closed connection waits for nothing. -/
structure Receiving (c : ClientId) (key : Bytes) (chunks : List Bytes) (later : Bytes) (w : World P) : Prop where
  known : c < w.clientCount
  encrypted : (w.client c).encrypted = true
  writeKey : (w.client c).writeKey = key
  dataAvailable : (w.client c).dataAvailable = 0
  sizes : ∀ chunk ∈ chunks, 0 < chunk.length ∧ chunk.length ≤ 1024
  stream : ∀ socket, (w.client c).socket = some socket →
    ∃ frames, sealFrames P.crypto key (w.client c).countWrites chunks = some frames ∧
      socket.rx ++ later = frames.flatten

theorem Apart.receiving {chunks : List Bytes} {later : Bytes} (h : Apart c w w')
    (hr : Receiving c key chunks later w) : Receiving c key chunks later w' where
  known := Nat.lt_of_lt_of_le hr.known h.clientCount
  encrypted := h.encrypted.trans hr.encrypted
  writeKey := (h.writeKey hr.encrypted).trans hr.writeKey
  dataAvailable := (congrArg (fun x => x.2.1) h.decoder).trans hr.dataAvailable
  sizes := hr.sizes
  stream socket hs := by
    have hcount : (w'.client c).countWrites = (w.client c).countWrites := congrArg (fun x => x.2.2.1) h.decoder
    rcases h.socket with he | he
    · rw [hcount]
      exact hr.stream socket (he ▸ hs)
    · rw [he] at hs
      simp at hs

theorem arrive_receiving {chunks : List Bytes} {later : Bytes} (arrival : Arrival)
    (h : Receiving c key chunks (arrival.bytes ++ later) w) : Receiving c key chunks later (arrive w c arrival) := by
  have hcl := arrive_client w c arrival
  refine ⟨h.known, ?_, ?_, ?_, h.sizes, fun socket hs => ?_⟩
  · rw [hcl]
    exact h.encrypted
  · rw [hcl]
    exact h.writeKey
  · rw [hcl]
    exact h.dataAvailable
  · rw [hcl] at hs ⊢
    obtain ⟨before, hb, rfl⟩ := Option.map_eq_some_iff.mp hs
    obtain ⟨frames, hf, he⟩ := h.stream before hb
    exact ⟨frames, hf, by rw [← he, List.append_assoc]⟩

/-- What a read takes when nothing is left over from the last one. -/
theorem reading_of_empty {v : World P} (hr : reading w c = some (v, payload)) (hd : (w.client c).dataAvailable = 0) :
    ∃ socket, (w.client c).socket = some socket ∧ payload = socket.rx.take 1042 ∧ payload ≠ [] ∧
      v.trace = w.trace ∧ v.clientCount = w.clientCount ∧
      v.client c =
        { w.client c with socket := some { socket with rx := socket.rx.drop 1042 }, data := (v.client c).data } := by
  obtain ⟨_, socket, hs, hne, rfl, hp⟩ := reading_some hr
  have hread : readable w c socket = socket.rx.take 1042 := by rw [readable, hd]
  have hpayload : payload = socket.rx.take 1042 := by
    have hread' : readable w.tick c socket = socket.rx.take 1042 := hread
    rw [hp, readClient, setClient_self, hread']
    simp [World.tick, hd, hread]
  refine ⟨socket, hs, hpayload, hpayload ▸ hread ▸ hne, rfl, rfl, ?_⟩
  simp [readClient, World.tick, hd]

/-- One frame is read, opened and parsed. -/
theorem process_receiving {chunks : List Bytes} {later : Bytes} {v : World P} (hs : OpensSealed P.crypto)
    (h : Receiving c key chunks later w) (hr : reading w c = some (v, payload)) (hf : IsFrame payload)
    (hp : homekitClientProcess w c = .ok w') :
    ∃ chunk rest, chunks = chunk :: rest ∧ passed c w w' = [chunk] ∧ Receiving c key rest later w' := by
  have hle := (reading_some hr).1
  obtain ⟨socket, hsock, hpay, hne, htrace, hcount, hvc⟩ := reading_of_empty hr h.dataAvailable
  have hrx : socket.rx = payload ++ socket.rx.drop 1042 := by rw [hpay, List.take_append_drop]
  obtain ⟨frames, hseal, hstream⟩ := h.stream socket hsock
  cases chunks with
  | nil =>
    obtain rfl : [] = frames := Option.some.inj hseal
    rw [hrx] at hstream
    simp [hne] at hstream
  | cons chunk rest =>
    obtain ⟨frame, frames', hframe, hrest, rfl⟩ := sealFrames_cons hseal
    obtain ⟨h1, h2⟩ := h.sizes chunk (List.mem_cons_self ..)
    obtain ⟨hisf, _, hopen⟩ := openFrame_sealFrame hs h1 h2 hframe
    have hstream' : payload ++ (socket.rx.drop 1042 ++ later) = frame ++ frames'.flatten := by
      rw [← List.append_assoc, ← hrx, hstream, List.flatten_cons]
    obtain rfl := frame_unique hf hisf hstream'
    have hlater := List.append_cancel_left hstream'
    have hkey : (v.client c).writeKey = key := by rw [hvc]; exact h.writeKey
    have henc : (v.client c).encrypted = true := by rw [hvc]; exact h.encrypted
    have hcw : (v.client c).countWrites = (w.client c).countWrites := by rw [hvc]
    have hopen' : openFrame P.crypto (v.client c).writeKey (v.client c).countWrites payload = some chunk := by
      rw [hkey, hcw]
      exact hopen
    rw [homekitClientProcess_reading hr, if_pos henc, processEncrypted_opened hf hle hopen'] at hp
    unfold httpParserExecute at hp
    dsimp only at hp
    set z := ((decoded v c).setClient c { (decoded v c).client c with
      parser := (P.http.execute ((decoded v c).client c).parser chunk).1 }) with hz
    have hzc : z.client c = { v.client c with
        countWrites := (v.client c).countWrites + 1
        dataAvailable := 0
        parser := (z.client c).parser } := by simp [hz, decoded]
    have hkn : c < (z.log (.parsed c chunk)).clientCount := by
      have hn : (z.log (.parsed c chunk)).clientCount = v.clientCount := rfl
      rw [hn, hcount]
      exact h.known
    have hcalled := runCallbacks_called hkn hp
    have hzclient : (z.log (.parsed c chunk)).client c = z.client c := rfl
    have hdec := hcalled.decoder c
    rw [hzclient, hzc] at hdec
    have hses := hcalled.session c (by rw [hzclient, hzc]; exact henc)
    refine ⟨chunk, rest, rfl, ?_, ?_⟩
    · have hzt : z.trace = w.trace := htrace
      have hpassed : passed c z w' = [chunk] :=
        passed_of_parsed (hcalled.trace.mono (fun e he bytes hb => by rw [hb] at he; exact he))
      rw [passed, news, hzt] at hpassed
      exact hpassed
    · refine ⟨hcalled.clientCount ▸ hkn, hses.1, ?_, congrArg (fun x => x.2.1) hdec,
        fun x hx => h.sizes x (List.mem_cons_of_mem _ hx), fun socket' hs' => ?_⟩
      · rw [hses.2, hzclient, hzc]
        exact hkey
      · have hcw' : (w'.client c).countWrites = (v.client c).countWrites + 1 := congrArg (fun x => x.2.2.1) hdec
        rcases hcalled.socket c with he | he
        · rw [he, hzclient, hzc, hvc] at hs'
          obtain rfl := Option.some.inj hs'
          exact ⟨frames', by rw [hcw', hcw]; exact hrest, hlater⟩
        · rw [he] at hs'
          simp at hs'

/-- What the parser sees in one call is the next part of the plaintext. -/
theorem call_receiving {chunks : List Bytes} {later : Bytes} {a : Call P} (hs : OpensSealed P.crypto)
    (h : Receiving c key chunks (arrivingAt c a ++ later) w) (hf : ReadsFrames c w a) (hp : call w a = .ok w') :
    ∃ rest, chunks = passed c w w' ++ rest ∧ Receiving c key rest later w' := by
  have hother : (∀ arrival, a ≠ .process c arrival) → ∃ rest, chunks = passed c w w' ++ rest ∧
      Receiving c key rest later w' := by
    intro ha
    have hnone : arrivingAt c a = [] := by
      cases a with
      | process d arrival => exact if_neg (fun hd : d = c => ha arrival (by rw [hd]))
      | _ => rfl
    have hapart := call_apart h.known ha hp
    rw [hnone, List.nil_append] at h
    exact ⟨chunks, by rw [passed_of_adds hapart.trace]; rfl, hapart.receiving h⟩
  cases a with
  | accept raw => exact hother (fun _ => by simp)
  | preinit => exact hother (fun _ => by simp)
  | notify d => exact hother (fun _ => by simp)
  | process d arrival =>
    by_cases hd : d = c
    · subst hd
      have hbytes : arrivingAt d (.process d arrival : Call P) = arrival.bytes := if_pos rfl
      rw [hbytes] at h
      simp only [call, h.known, if_true] at hp
      have harr := arrive_receiving arrival h
      cases hr : reading (arrive w d arrival) d with
      | none =>
        have hrest : Receiving d key chunks later w' ∧ passed d (arrive w d arrival) w' = [] := by
          rcases homekitClientProcess_idle hr hp with rfl | hq
          · exact ⟨harr, passed_of_adds (Adds.refl _ _)⟩
          · have ht : Apart d (arrive w d arrival) (arrive w d arrival).tick := Apart.of_eq (Nat.le_refl _) rfl rfl
            have ha := ht.trans (hq.apart d)
            exact ⟨ha.receiving harr, passed_of_adds ha.trace⟩
        exact ⟨chunks, by rw [show passed d w w' = [] from hrest.2]; rfl, hrest.1⟩
      | some vp =>
        obtain ⟨v, payload⟩ := vp
        obtain ⟨chunk, rest, rfl, hpass, hrec⟩ := process_receiving hs harr hr (hf rfl v payload hr) hp
        exact ⟨rest, by rw [show passed d w w' = [chunk] from hpass]; rfl, hrec⟩
    · exact hother (fun arrival' he => hd (by simpa using (Call.process.inj he).1))

theorem run_receiving {as : List (Call P)} {chunks : List Bytes} (hs : OpensSealed P.crypto)
    (h : Receiving c key chunks (as.flatMap (arrivingAt c)) w) (hf : Always call (fun w a _ => ReadsFrames c w a) w as)
    (hr : run call w as = .ok w') :
    Adds (fun _ => True) w.trace w'.trace ∧ ∃ rest, chunks = passed c w w' ++ rest ∧ Receiving c key rest [] w' := by
  induction as generalizing w chunks with
  | nil =>
    obtain rfl := Except.ok.inj hr
    exact ⟨Adds.refl _ _, chunks, by rw [passed_of_adds (Adds.refl _ _)]; rfl, h⟩
  | cons a as ih =>
    obtain ⟨u, hu, hr⟩ := run_cons_ok.mp hr
    obtain ⟨hfa, hfs⟩ := hf u hu
    rw [List.flatMap_cons] at h
    obtain ⟨rest, rfl, hrec⟩ := call_receiving hs h hfa hu
    obtain ⟨hadds, rest', rfl, hrec'⟩ := ih hrec hfs hr
    have hcall := call_adds hu
    exact ⟨hcall.trans hadds, rest', by rw [passed_append hcall hadds, List.append_assoc], hrec'⟩

/-- A session whose reads take one frame each decodes every stream of frames, in any cut. -/
theorem decodes_run {as : List (Call P)} {chunks frames : List Bytes} {socket : Socket} (hs : OpensSealed P.crypto)
    (hc : c < w.clientCount) (he : (w.client c).encrypted = true) (hd : (w.client c).dataAvailable = 0)
    (hsock : (w.client c).socket = some socket) (hsizes : ∀ chunk ∈ chunks, 1 ≤ chunk.length ∧ chunk.length ≤ 1024)
    (hseal : sealFrames P.crypto (w.client c).writeKey (w.client c).countWrites chunks = some frames)
    (hstream : socket.rx ++ as.flatMap (arrivingAt c) = frames.flatten)
    (hf : Always call (fun w a _ => ReadsFrames c w a) w as) (hr : run call w as = .ok w') :
    Decodes c chunks w w' := by
  have hrec : Receiving c (w.client c).writeKey chunks (as.flatMap (arrivingAt c)) w :=
    ⟨hc, he, rfl, hd, hsizes, fun s hs' => ⟨frames, hseal, by rwa [Option.some.inj (hsock.symm.trans hs')] at hstream⟩⟩
  obtain ⟨_, rest, rfl, hend⟩ := run_receiving hs hrec hf hr
  refine ⟨?_, fun s hs' hrx => ?_⟩
  · rw [List.flatten_append]
    exact List.prefix_append _ _
  · obtain ⟨left, hleft, hempty⟩ := hend.stream s hs'
    cases rest with
    | nil => rw [List.append_nil]
    | cons chunk rest =>
      obtain ⟨frame, _, hframe, _, rfl⟩ := sealFrames_cons hleft
      obtain ⟨h1, h2⟩ := hend.sizes chunk (List.mem_cons_self ..)
      have hlen := (openFrame_sealFrame hs h1 h2 hframe).2.1
      have hzero := congrArg List.length hempty
      simp only [hrx, List.append_nil, List.length_nil, List.flatten_cons, List.length_append] at hzero
      omega

theorem benchCrypto_opens : OpensSealed benchCrypto := by
  intro key nonce aad plain cipher h
  obtain rfl := Option.some.inj h
  simp [benchCrypto]

/-- A request in two chunks. -/
def requestChunks : List Bytes := [ascii "GET /acc", ascii "essories HTTP/1.1\r\n\r\n"]

/-- The state of the session that the frames of the chunks are sealed for. -/
def awaits (w : World bench) (chunks frames : List Bytes) : Bool :=
  decide (0 < w.clientCount) && (w.client 0).encrypted && (w.client 0).dataAvailable == 0 &&
    (w.client 0).socket.any (fun s => s.rx == []) &&
    sealFrames benchCrypto (w.client 0).writeKey (w.client 0).countWrites chunks == some frames

theorem request_frames_run :
    ends call (benchBoot [benchRecord 2 1]) (sessionCalls 2) (fun w =>
      awaits w requestChunks (requestChunks.zipIdx.map (fun x => sealedFrame 2 x.2 x.1)) &&
        checks call (fun w a => match a with
          | .process 0 arrival => (reading (arrive w 0 arrival) 0).all (fun x => decide (IsFrame x.2))
          | _ => false) w ((requestChunks.zipIdx.map (fun x => sealedFrame 2 x.2 x.1)).map processing) &&
        ends call w ((requestChunks.zipIdx.map (fun x => sealedFrame 2 x.2 x.1)).map processing) (fun _ => true)) = true := by
  decide +kernel

/-- Two frames in reads of their own. -/
theorem decodes_run_session :
    ∃ w w', run call (benchBoot [benchRecord 2 1]) (sessionCalls 2) = .ok w ∧
      run call w ((requestChunks.zipIdx.map (fun x => sealedFrame 2 x.2 x.1)).map processing) = .ok w' ∧
      Decodes 0 requestChunks w w' := by
  obtain ⟨w, hw, hp⟩ := ends_spec request_frames_run
  simp only [awaits, Bool.and_eq_true, decide_eq_true_eq, beq_iff_eq, Option.any_eq_true] at hp
  obtain ⟨⟨⟨⟨⟨⟨hc, he⟩, hd⟩, socket, hs, hrx⟩, hseal⟩, hf⟩, hend⟩ := hp
  obtain ⟨w', hw', _⟩ := ends_spec hend
  refine ⟨w, w', hw, hw', decodes_run benchCrypto_opens hc he hd hs (by decide) hseal ?_ ?_ hw'⟩
  · rw [hrx]
    decide
  · refine checks_spec (fun v a _ h => ?_) hf
    split at h
    · rename_i arrival
      intro _ u payload hr
      simpa [hr] using h
    · simp at h

theorem request_in_one_read_run :
    ends call (benchBoot [benchRecord 2 1]) (sessionCalls 2) (fun w =>
      awaits w requestChunks (requestChunks.zipIdx.map (fun x => sealedFrame 2 x.2 x.1)) &&
        match call w (processing (requestChunks.zipIdx.map (fun x => sealedFrame 2 x.2 x.1)).flatten) with
        | .ok w' => !(passed 0 w w').flatten.isPrefixOf requestChunks.flatten
        | .error _ => false) = true := by
  decide +kernel

/-- Both frames in one read: the second is decrypted over the first. -/
theorem frames_lost_in_one_read :
    ∃ w w', run call (benchBoot [benchRecord 2 1]) (sessionCalls 2) = .ok w ∧
      awaits w requestChunks (requestChunks.zipIdx.map (fun x => sealedFrame 2 x.2 x.1)) = true ∧
      call w (processing (requestChunks.zipIdx.map (fun x => sealedFrame 2 x.2 x.1)).flatten) = .ok w' ∧
      ¬ Decodes 0 requestChunks w w' := by
  obtain ⟨w, hw, hp⟩ := ends_spec request_in_one_read_run
  simp only [Bool.and_eq_true] at hp
  obtain ⟨ha, hp⟩ := hp
  split at hp
  · rename_i w' hw'
    refine ⟨w, w', hw, ha, hw', fun hd => ?_⟩
    have hpre := List.isPrefixOf_iff_prefix.mpr hd.1
    simp [hpre] at hp
  · simp at hp

end ArduinoHomeKit
