import ArduinoHomeKit.Refinement

/-! Reading one frame: what client_decrypt_ and homekit_client_process do with a read that is
a single frame, and what the processing of the other connections leaves alone. -/

namespace ArduinoHomeKit

open Growth

variable {P : Platform} {c d : ClientId} {w w' w'' : World P} {wc : WolfCrypt} {key payload : Bytes} {count : Nat}

/-- The length that the header of a frame announces. -/
def chunkSize (payload : Bytes) : Nat := (payload.getD 0 0).toNat + (payload.getD 1 0).toNat * 256

/-- One whole frame with a nonempty chunk, and nothing else. -/
def IsFrame (payload : Bytes) : Prop := 18 < payload.length ∧ payload.length = chunkSize payload + 18

instance (payload : Bytes) : Decidable (IsFrame payload) := inferInstanceAs (Decidable (_ ∧ _))

/-- The chunk of a frame, if its tag is right for the counter. -/
def openFrame (wc : WolfCrypt) (key : Bytes) (count : Nat) (payload : Bytes) : Option Bytes :=
  wc.wcChaCha20Poly1305Decrypt key (frameNonce zeroNonce count) (payload.take 2)
    ((payload.drop 2).take (chunkSize payload)) ((payload.drop 2).drop (chunkSize payload))

theorem requiredDecryptedSize_frame (h1 : 18 < payload.length) (h2 : payload.length ≤ 1042) :
    requiredDecryptedSize payload.length = payload.length - 18 := by
  simp only [requiredDecryptedSize, sizeMax]
  split <;> omega

theorem decrypt_frame (h : IsFrame payload) {size : Nat} (hs : chunkSize payload ≤ size) :
    cryptoChacha20Poly1305Decrypt wc key (frameNonce zeroNonce count) (payload.take 2)
      ((payload.drop 2).take (chunkSize payload + 16)) size =
        match openFrame wc key count payload with
        | some plain => .ok plain
        | none => .error (chunkSize payload) := by
  obtain ⟨h1, h2⟩ := h
  have hlen : ((payload.drop 2).take (chunkSize payload + 16)).length = chunkSize payload + 16 := by
    rw [List.length_take, List.length_drop]
    omega
  have hall : (payload.drop 2).take (chunkSize payload + 16) = payload.drop 2 :=
    List.take_of_length_le (by rw [List.length_drop]; omega)
  unfold cryptoChacha20Poly1305Decrypt
  rw [hlen, if_neg (by omega), if_neg (by omega), Nat.add_sub_cancel, hall]
  cases ho : openFrame wc key count payload with
  | none => rw [show wc.wcChaCha20Poly1305Decrypt .. = none from ho]
  | some plain => rw [show wc.wcChaCha20Poly1305Decrypt .. = some plain from ho]

theorem openFrame_length {plain : Bytes} (h : IsFrame payload) (ho : openFrame wc key count payload = some plain) :
    plain.length = chunkSize payload := by
  obtain ⟨h1, h2⟩ := h
  have hlen := wc.decrypt_length ho
  rw [List.length_take, List.length_drop] at hlen
  omega

theorem clientDecryptLoop_frame (h : IsFrame payload) (cells : List Cell) (hc : cells.length = chunkSize payload) :
    clientDecryptLoop wc key payload (chunkSize payload) payload.length zeroNonce 0 0 count (some cells) =
      match openFrame wc key count payload with
      | some plain => .ok (some payload.length, count + 1, some (plain.map (fun b => (b, Origin.opened key))))
      | none => .ok (none, count + 1, some cells) := by
  have hend : chunkSize payload + 18 = payload.length := h.2.symm
  obtain ⟨n, hn⟩ : ∃ n, payload.length = n + 2 := ⟨payload.length - 2, by have := h.1; omega⟩
  have hsize : (payload.getD 0 0).toNat + (payload.getD (0 + 1) 0).toNat * 256 = chunkSize payload := rfl
  rw [show clientDecryptLoop wc key payload (chunkSize payload) payload.length zeroNonce 0 0 count (some cells) =
    clientDecryptLoop wc key payload (chunkSize payload) (n + 2) zeroNonce 0 0 count (some cells) by rw [hn]]
  simp only [clientDecryptLoop, hsize, Nat.sub_zero, List.drop_zero, Nat.zero_add, hend]
  rw [if_pos (by omega), if_neg (Nat.lt_irrefl _), decrypt_frame h (Nat.le_refl _)]
  cases ho : openFrame wc key count payload with
  | none => rfl
  | some plain =>
    have hl := openFrame_length h ho
    simp only [Nat.lt_irrefl, if_false]
    rw [List.drop_of_length_le (by omega), List.append_nil]

theorem decryptPayload_frame (h : IsFrame payload) (hle : payload.length ≤ 1042) :
    decryptPayload w c payload =
      match openFrame P.crypto (w.client c).writeKey (w.client c).countWrites payload with
      | some plain => .ok (payload.length, chunkSize payload, (w.client c).countWrites + 1,
          some (plain.map (fun b => (b, Origin.opened (w.client c).writeKey))))
      | none => .ok (-1, chunkSize payload, (w.client c).countWrites + 1, decryptBuffer w (chunkSize payload)) := by
  have hr : requiredDecryptedSize payload.length = chunkSize payload := by
    rw [requiredDecryptedSize_frame h.1 hle, h.2, Nat.add_sub_cancel]
  have hpos : 0 < chunkSize payload := by have := h.1; have := h.2; omega
  have hbuf : decryptBuffer w (chunkSize payload) =
      some ((List.range (chunkSize payload)).map (fun i => (P.env.heap w.now i, Origin.heap))) := by
    rw [decryptBuffer, if_pos (by have := h.2; unfold dramSize; omega)]
  simp only [decryptPayload, clientDecrypt, hr, if_pos hpos, Nat.lt_irrefl, if_false, hbuf]
  rw [clientDecryptLoop_frame h _ (by simp)]
  cases openFrame P.crypto (w.client c).writeKey (w.client c).countWrites payload <;> rfl

/-- A frame that is opened leaves nothing over. -/
def decoded (w : World P) (c : ClientId) : World P :=
  w.setClient c { w.client c with countWrites := (w.client c).countWrites + 1, dataAvailable := 0 }

theorem processEncrypted_opened {plain : Bytes} (h : IsFrame payload) (hle : payload.length ≤ 1042)
    (ho : openFrame P.crypto (w.client c).writeKey (w.client c).countWrites payload = some plain) :
    processEncrypted w c payload =
      httpParserExecute (decoded w c) c plain (plain.map (fun _ => Origin.opened (w.client c).writeKey)) := by
  have hl := openFrame_length h ho
  have hmap : (plain.map (fun b => (b, Origin.opened (w.client c).writeKey))).map Prod.fst = plain := by
    simp [Function.comp_def]
  have hneg : ¬ ((payload.length : Int) < 0) := by omega
  simp only [processEncrypted, decryptPayload_frame h hle, ho, if_neg hneg, Int.toNat_natCast,
    List.drop_length, List.length_nil, List.nil_append, List.drop_zero, hmap, setClient_self]
  rw [List.take_of_length_le (by omega)]
  simp [decoded, World.setClient, Function.comp_def]

/-- A read too short for a frame opens nothing. -/
theorem clientDecryptLoop_short (wc : WolfCrypt) (key : Bytes) (count : Nat) (h : payload.length ≤ 18) (size fuel : Nat)
    (out : Option (List Cell)) :
    ∃ r k, clientDecryptLoop wc key payload size fuel zeroNonce 0 0 count out = .ok (r, k, out) := by
  cases fuel with
  | zero => exact ⟨_, _, rfl⟩
  | succ fuel =>
    simp only [clientDecryptLoop, Nat.sub_zero, Nat.zero_add]
    split
    · split
      · exact ⟨_, _, rfl⟩
      · have hlen : ((payload.drop 2).take ((payload.getD 0 0).toNat + (payload.getD 1 0).toNat * 256 + 16)).length ≤ 16 := by
          rw [List.length_take, List.length_drop]
          omega
        simp only [cryptoChacha20Poly1305Decrypt, if_pos hlen]
        exact ⟨_, _, rfl⟩
    · exact ⟨_, _, rfl⟩

theorem clientDecrypt_short (wc : WolfCrypt) (key : Bytes) (count : Nat) (h : payload.length ≤ 18) (size : Nat)
    (out : Option (List Cell)) :
    ∃ r k, clientDecrypt wc key count payload out size = .ok (r, requiredDecryptedSize payload.length, k, out) := by
  obtain ⟨r, k, hl⟩ := clientDecryptLoop_short wc key count h (requiredDecryptedSize payload.length) payload.length out
  simp only [clientDecrypt, hl]
  split
  · exact ⟨_, _, rfl⟩
  · cases r <;> exact ⟨_, _, rfl⟩

theorem decryptPayload_short (h : payload.length ≤ 18) {r : Int} {n k : Nat} {cells : List Cell}
    (hd : decryptPayload w c payload = .ok (r, n, k, some cells)) : cells = [] := by
  obtain ⟨r₁, k₁, h₁⟩ := clientDecrypt_short P.crypto (w.client c).writeKey (w.client c).countWrites h 0 none
  obtain ⟨r₂, k₂, h₂⟩ := clientDecrypt_short P.crypto (w.client c).writeKey k₁ h
    (requiredDecryptedSize payload.length) (decryptBuffer w (requiredDecryptedSize payload.length))
  simp only [decryptPayload, h₁, h₂] at hd
  have hbuf := (Prod.mk.inj (Prod.mk.inj (Prod.mk.inj (Except.ok.inj hd)).2).2).2
  have hsize : requiredDecryptedSize payload.length = 0 ∨ dramSize < requiredDecryptedSize payload.length := by
    simp only [requiredDecryptedSize, sizeMax, dramSize]
    split <;> omega
  rcases hsize with h0 | hlarge
  · rw [h0] at hbuf
    simpa [decryptBuffer] using hbuf.symm
  · rw [decryptBuffer, if_neg (by omega)] at hbuf
    simp at hbuf

theorem processEncrypted_cases (h : processEncrypted w c payload = .ok w') :
    ∃ k n data, let v := w.setClient c { w.client c with countWrites := k, dataAvailable := n, data := data }
      w' = v ∨ ∃ r size cells, decryptPayload w c payload = .ok (r, size, k, some cells) ∧ 0 ≤ r ∧
        httpParserExecute v c ((cells.map Prod.fst).take size) (cells.map Prod.snd) = .ok w' := by
  unfold processEncrypted at h
  split at h
  · simp at h
  · rename_i r size k decrypted hd
    dsimp only at h
    split at h
    · exact ⟨k, (w.client c).dataAvailable, (w.client c).data, Or.inl (Except.ok.inj h).symm⟩
    · rename_i hr
      have hset : ∀ n data, (w.setClient c { w.client c with countWrites := k }).setClient c
          { (w.setClient c { w.client c with countWrites := k }).client c with dataAvailable := n, data := data } =
            w.setClient c { w.client c with countWrites := k, dataAvailable := n, data := data } := by
        intro n data
        simp [World.setClient]
      rw [hset] at h
      split at h
      · exact ⟨k, _, _, Or.inr ⟨r, size, _, hd, by omega, h⟩⟩
      · split at h
        · exact ⟨k, _, _, Or.inl (Except.ok.inj h).symm⟩
        · simp at h

/-- The world after a read, and the bytes that are handed on. -/
def reading (w : World P) (c : ClientId) : Option (World P × Bytes) :=
  match (w.client c).socket with
  | none => none
  | some socket =>
    if readable w c socket = [] then none
    else
      let v := readClient w.tick c socket
      some (v, (v.client c).data.take (readable w c socket).length)

theorem homekitClientProcess_reading {v : World P} (h : reading w c = some (v, payload)) :
    homekitClientProcess w c =
      if (v.client c).encrypted then processEncrypted v c payload else processPlain v c payload := by
  unfold reading at h
  split at h
  · simp at h
  · rename_i socket hs
    split at h
    · simp at h
    · rename_i hr
      obtain ⟨rfl, rfl⟩ := Prod.mk.inj (Option.some.inj h)
      have hr' : readable w.tick c socket ≠ [] := hr
      simp only [homekitClientProcess, hs, if_neg hr']
      rfl

/-- Without a read there is at most a close. -/
theorem homekitClientProcess_idle (h : reading w c = none) (hp : homekitClientProcess w c = .ok w') :
    w' = w ∨ Quiet c w.tick w' := by
  unfold reading at h
  unfold homekitClientProcess at hp
  split at h
  · rename_i hs
    simp only [hs] at hp
    exact Or.inl (Except.ok.inj hp).symm
  · rename_i socket hs
    split at h
    · rename_i hr
      have hr' : readable w.tick c socket = [] := hr
      simp only [hs, hr', if_true] at hp
      split at hp
      · have hq := (Sends.close w.tick c (w.client c).errorWrite (by simp [World.tick, hs])).quiet
        exact Or.inr (Except.ok.inj hp ▸ hq)
      · exact Or.inr (Except.ok.inj hp ▸ Quiet.refl c w.tick)
    · simp at h

theorem reading_some {v : World P} (h : reading w c = some (v, payload)) :
    payload.length ≤ 1042 ∧ ∃ socket, (w.client c).socket = some socket ∧ readable w c socket ≠ [] ∧
      v = readClient w.tick c socket ∧ payload = (v.client c).data.take (readable w c socket).length := by
  unfold reading at h
  split at h
  · simp at h
  · rename_i socket hs
    split at h
    · simp at h
    · rename_i hr
      obtain ⟨rfl, rfl⟩ := Prod.mk.inj (Option.some.inj h)
      refine ⟨?_, socket, hs, hr, rfl, rfl⟩
      rw [readable, List.length_take, List.length_take]
      omega

theorem arrive_client (w : World P) (c : ClientId) (a : Arrival) :
    (arrive w c a).client c = { w.client c with
      socket := (w.client c).socket.map (fun s => { rx := s.rx ++ a.bytes, connected := a.connected }) } :=
  setClient_self ..

/-- Work that is not a read of the connection `d`. -/
structure Apart (d : ClientId) (w w' : World P) : Prop where
  clientCount : w.clientCount ≤ w'.clientCount
  decoder : (w'.client d).decoder = (w.client d).decoder
  socket : (w'.client d).socket = (w.client d).socket ∨ (w'.client d).socket = none
  encrypted : (w'.client d).encrypted = (w.client d).encrypted
  writeKey : (w.client d).encrypted = true → (w'.client d).writeKey = (w.client d).writeKey
  pending : (w'.client d).pending = (w.client d).pending
  trace : Adds (fun e => ∀ payload, e ≠ .parsed d payload) w.trace w'.trace

theorem Apart.refl (d : ClientId) (w : World P) : Apart d w w :=
  ⟨Nat.le_refl _, rfl, Or.inl rfl, rfl, fun _ => rfl, rfl, Adds.refl _ _⟩

theorem Apart.trans (h : Apart d w w') (hh : Apart d w' w'') : Apart d w w'' where
  clientCount := Nat.le_trans h.clientCount hh.clientCount
  decoder := hh.decoder.trans h.decoder
  socket := hh.socket.elim (fun he => he ▸ h.socket) Or.inr
  encrypted := hh.encrypted.trans h.encrypted
  writeKey he := (hh.writeKey (h.encrypted.trans he)).trans (h.writeKey he)
  pending := hh.pending.trans h.pending
  trace := h.trace.trans hh.trace

theorem Called.apart (h : Called c w w') (hd : d ≠ c) : Apart d w w' where
  clientCount := Nat.le_of_eq h.clientCount.symm
  decoder := h.decoder d
  socket := h.socket d
  encrypted := (h.others d hd).1
  writeKey he := (h.session d he).2
  pending := (h.others d hd).2
  trace := h.trace.mono (fun e he payload hp => by rw [hp] at he; exact he)

/-- Quiet work reads nothing, of no connection. -/
theorem Quiet.apart (h : Quiet c w w') (d : ClientId) : Apart d w w' := by
  have hh := h.handled
  by_cases hd : d = c
  · subst hd
    exact ⟨Nat.le_of_eq h.clientCount.symm, hh.decoder d, hh.socket d, h.encrypted, fun he => (hh.session d he).2,
      hh.pending, hh.trace.mono (fun e he payload hp => by rw [hp] at he; exact he)⟩
  · exact hh.toCalled.apart hd

theorem Apart.of_eq (hn : w.clientCount ≤ w'.clientCount) (hc : w'.client d = w.client d) (ht : w'.trace = w.trace) :
    Apart d w w' := by
  refine ⟨hn, ?_, Or.inl ?_, ?_, fun _ => ?_, ?_, Adds.of_eq ht⟩
  all_goals rw [hc]

theorem Apart.client (hd : d ≠ c) (x : Client P) : Apart d w (w.setClient c x) :=
  Apart.of_eq (Nat.le_refl _) (setClient_of_ne hd ..) rfl

theorem Apart.log {e : Event} (he : ∀ payload, e ≠ .parsed d payload) (w : World P) : Apart d w (w.log e) :=
  ⟨Nat.le_refl _, rfl, Or.inl rfl, rfl, fun _ => rfl, rfl, Adds.single _ he⟩

theorem httpParserExecute_apart {origins : List Origin} (hd : d ≠ c) (hc : c < w.clientCount)
    (h : httpParserExecute w c payload origins = .ok w') : Apart d w w' ∧ w'.clientCount = w.clientCount := by
  have hcalled := runCallbacks_called
    (w := (w.setClient c { w.client c with parser := (P.http.execute (w.client c).parser payload).1 }).log
      (.parsed c payload)) hc h
  have hlog : ∀ bytes, Event.parsed c payload ≠ .parsed d bytes := fun bytes he =>
    hd (Event.parsed.inj he).1.symm
  exact ⟨(Apart.client hd _).trans ((Apart.log hlog _).trans (hcalled.apart hd)), hcalled.clientCount⟩

theorem homekitClientProcess_apart (hd : d ≠ c) (hc : c < w.clientCount) (h : homekitClientProcess w c = .ok w') :
    Apart d w w' ∧ w'.clientCount = w.clientCount := by
  have ht : Apart d w w.tick := Apart.of_eq (Nat.le_refl _) rfl rfl
  cases hr : reading w c with
  | none =>
    rcases homekitClientProcess_idle hr h with rfl | hq
    · exact ⟨Apart.refl d _, rfl⟩
    · exact ⟨ht.trans (hq.apart d), hq.clientCount⟩
  | some vp =>
    obtain ⟨v, bytes⟩ := vp
    rw [homekitClientProcess_reading hr] at h
    obtain ⟨_, socket, _, _, hv, _⟩ := reading_some hr
    have hread : Apart d w v := by
      rw [hv]
      exact ht.trans (Apart.client hd _)
    have hcv : v.clientCount = w.clientCount := by
      rw [hv]
      rfl
    split at h
    · obtain ⟨k, n, data, rfl | ⟨_, _, _, _, _, h⟩⟩ := processEncrypted_cases h
      · exact ⟨hread.trans (Apart.client hd _), hcv⟩
      · obtain ⟨ha, hn⟩ := httpParserExecute_apart
          (w := v.setClient c { v.client c with countWrites := k, dataAvailable := n, data := data }) hd (hcv ▸ hc) h
        exact ⟨hread.trans ((Apart.client hd _).trans ha), hn.trans hcv⟩
    · obtain ⟨ha, hn⟩ := httpParserExecute_apart
        (w := v.setClient c { v.client c with dataAvailable := 0 }) hd (hcv ▸ hc) h
      exact ⟨hread.trans ((Apart.client hd _).trans ha), hn.trans hcv⟩

theorem homekitServerAcceptClient_apart (raw : Client P) (hd : d < w.clientCount) :
    Apart d w (homekitServerAcceptClient w raw) := by
  unfold homekitServerAcceptClient
  split
  · exact Apart.refl d w
  · refine (Apart.of_eq (Nat.le_succ _) (setClient_of_ne (Nat.ne_of_lt hd) ..) rfl : Apart d w
      { w.setClient w.clientCount (clientContextNew raw) with
        clientCount := w.clientCount + 1
        clients := w.clientCount :: w.clients
        nfds := w.nfds + 1 }).trans (Apart.log (by simp) _)

/-- The calls that do not process the connection. -/
theorem call_apart {a : Call P} (hd : d < w.clientCount) (ha : ∀ arrival, a ≠ .process d arrival)
    (h : call w a = .ok w') : Apart d w w' := by
  cases a with
  | accept raw => exact Except.ok.inj h ▸ homekitServerAcceptClient_apart raw hd
  | preinit =>
    have hq := arduinoHomekitPreinit_quiet w.tick 0
    exact Except.ok.inj h ▸ (Apart.of_eq (Nat.le_refl _) rfl rfl : Apart d w w.tick).trans (hq.apart d)
  | notify c =>
    simp only [call] at h
    split at h
    · exact Except.ok.inj h ▸ (processNotifications_quiet w c).apart d
    · exact Except.ok.inj h ▸ Apart.refl d w
  | process c arrival =>
    have hdc : d ≠ c := fun he => ha arrival (he ▸ rfl)
    simp only [call] at h
    split at h
    · rename_i hc
      have harr : Apart d w (arrive w c arrival) := Apart.client hdc _
      exact harr.trans (homekitClientProcess_apart (w := arrive w c arrival) hdc hc h).1
    · exact Except.ok.inj h ▸ Apart.refl d w

end ArduinoHomeKit
