import ArduinoHomeKit.Decoding
import ArduinoHomeKit.Nonces

/-! One call of client_decrypt_: the size it reports for a payload of any bytes, and what it
makes of a buffer that holds several frames. -/

namespace ArduinoHomeKit

open Runs

variable {P : Platform} {wc : WolfCrypt} {key nonce plain cipher buffer rest data payload : Bytes} {count n size : Nat}
  {plains : List Bytes} {w : World P} {c : ClientId}

/-! The call that asks for the size. -/

/-- The required size in arithmetic that cannot wrap. -/
def plainSize (n : Nat) : Int :=
  ((n / 1042 * 1024 : Nat) : Int) + (if n % 1042 > 0 then ((n % 1042 : Nat) : Int) - 16 - 2 else 0)

/-- What is expected of the call with a NULL buffer of size 0. -/
def QueryRight (w : World P) (c : ClientId) (payload : Bytes) : Prop :=
  ∃ r size, clientDecrypt P.crypto (w.client c).writeKey (w.client c).countWrites payload none 0 =
      .ok (r, size, (w.client c).countWrites, none) ∧
    (size : Int) = plainSize payload.length ∧ size ≤ payload.length ∧
    ∀ r' processed k out, decryptPayload w c payload = .ok (r', processed, k, out) → processed = size

theorem clientDecrypt_size {out out' : Option (List Cell)} {r : Int} {k reported : Nat}
    (h : clientDecrypt wc key count data out size = .ok (r, reported, k, out')) :
    reported = requiredDecryptedSize data.length := by
  have hfst : ∀ {r r' : Int} {a a' k k' : Nat} {o o' : Option (List Cell)},
      (Except.ok (r, a, k, o) : Except Fault (Int × Nat × Nat × Option (List Cell))) = .ok (r', a', k', o') → a' = a := by
    intro r r' a a' k k' o o' he
    exact (Prod.mk.inj (Prod.mk.inj (Except.ok.inj he)).2).1.symm
  simp only [clientDecrypt] at h
  split at h
  · exact hfst h
  · split at h
    · simp at h
    · exact hfst h
    · exact hfst h

theorem decryptPayload_size {out : Option (List Cell)} {r : Int} {k processed : Nat}
    (h : decryptPayload w c payload = .ok (r, processed, k, out)) :
    processed = requiredDecryptedSize payload.length := by
  simp only [decryptPayload] at h
  split at h
  · simp at h
  · exact clientDecrypt_size h

theorem clientDecrypt_refused {out : Option (List Cell)} (h : size < requiredDecryptedSize data.length) :
    clientDecrypt wc key count data out size = .ok (-2, requiredDecryptedSize data.length, count, out) := by
  simp only [clientDecrypt, if_pos h]

/-- Header and tag alone: the frame loop is entered with the NULL buffer. -/
theorem clientDecrypt_empty (h : payload.length = 18) :
    clientDecrypt wc key count payload none 0 =
      if chunkSize payload = 0 then .ok (-1, 0, count + 1, none) else .ok (0, 0, count, none) := by
  have hreq : requiredDecryptedSize 18 = 0 := by decide
  have hlen : ((payload.drop 2).take 16).length = 16 := by
    rw [List.length_take, List.length_drop]
    omega
  have hsize : (payload.getD 0 0).toNat + (payload.getD 1 0).toNat * 256 = chunkSize payload := rfl
  simp only [clientDecrypt, h, hreq, Nat.lt_irrefl, if_false, clientDecryptLoop, Nat.zero_add, hsize]
  by_cases hz : chunkSize payload = 0
  · simp [hz, cryptoChacha20Poly1305Decrypt, hlen]
  · have hmore : chunkSize payload + 18 > 18 - 0 := by omega
    simp [hz, hmore]

/-- The size query is right unless the payload is shorter than a header with its tag, or is just
that for an empty chunk. -/
theorem queryRight_iff (w : World P) (c : ClientId) (payload : Bytes) (h1 : 1 ≤ payload.length)
    (h2 : payload.length ≤ 1042) :
    QueryRight w c payload ↔ 18 < payload.length ∨ payload.length = 18 ∧ chunkSize payload ≠ 0 := by
  have hreported : ∀ s, s = requiredDecryptedSize payload.length → ∀ r' processed k out,
      decryptPayload w c payload = .ok (r', processed, k, out) → processed = s := by
    intro s hs r' processed k out he
    rw [hs]
    exact decryptPayload_size he
  constructor
  · rintro ⟨r, size, hq, _, hle, _⟩
    have hsize := clientDecrypt_size hq
    by_contra hn
    by_cases h18 : payload.length = 18
    · have hz : chunkSize payload = 0 := by
        by_contra hc
        exact hn (Or.inr ⟨h18, hc⟩)
      rw [clientDecrypt_empty h18, if_pos hz] at hq
      have hcount := (Prod.mk.inj (Prod.mk.inj (Prod.mk.inj (Except.ok.inj hq)).2).2).1
      omega
    · have hlt : payload.length < 18 := by omega
      have hwrap : payload.length < requiredDecryptedSize payload.length := by
        rw [requiredDecryptedSize, if_pos (by omega)]
        simp only [sizeMax]
        omega
      omega
  · intro h
    by_cases h18 : payload.length = 18
    · have hz : chunkSize payload ≠ 0 := by
        rcases h with h | h
        · omega
        · exact h.2
      refine ⟨0, 0, ?_, ?_, by omega, hreported 0 (by rw [h18]; decide)⟩
      · rw [clientDecrypt_empty h18, if_neg hz]
      · rw [h18]
        decide
    · have hlt : 18 < payload.length := by omega
      have hreq := requiredDecryptedSize_frame hlt h2
      refine ⟨-2, payload.length - 18, ?_, ?_, by omega, hreported _ hreq.symm⟩
      · rw [clientDecrypt_refused (by omega), hreq]
      · simp only [plainSize]
        split <;> omega

/-- A whole frame of one byte. -/
theorem queryRight_iff_frame :
    QueryRight (benchBoot []) 0 (List.replicate 19 1) ↔
      18 < (List.replicate 19 (1 : UInt8)).length ∨
        (List.replicate 19 (1 : UInt8)).length = 18 ∧ chunkSize (List.replicate 19 1) ≠ 0 :=
  queryRight_iff (benchBoot []) 0 (List.replicate 19 1) (by decide) (by decide)

/-- The first byte of a frame alone: the size wraps around. -/
theorem short_payload_wraps : ¬ QueryRight (benchBoot []) 0 [5] := by
  rintro ⟨r, size, hq, _, hle, _⟩
  have hsize := clientDecrypt_size hq
  rw [hsize] at hle
  exact absurd hle (by decide)

/-! Several frames in one buffer. -/

/-- The frames of plaintexts, sealed under the nonces of consecutive counters. -/
inductive Sealed (wc : WolfCrypt) (key : Bytes) : Nat → List Bytes → Bytes → Prop
  | nil (count : Nat) : Sealed wc key count [] []
  | cons {count : Nat} {plain cipher rest : Bytes} {plains : List Bytes} (h1 : 1 ≤ plain.length)
      (h2 : plain.length ≤ 1024)
      (hc : wc.wcChaCha20Poly1305Encrypt key ([0, 0, 0, 0] ++ le64 count) (frameHeader plain.length) plain = some cipher)
      (hr : Sealed wc key (count + 1) plains rest) :
      Sealed wc key count (plain :: plains) (frameHeader plain.length ++ cipher ++ rest)

/-- Every frame is opened, and the plaintexts stand one after the other in the output, whatever
was in it. -/
def DecryptsAll (wc : WolfCrypt) (key : Bytes) (count : Nat) (plains : List Bytes) (buffer : Bytes) : Prop :=
  ∀ size (cells : List Cell), plains.flatten.length ≤ size → cells.length = size →
    ∃ out, clientDecrypt wc key count buffer (some cells) size =
        .ok (buffer.length, plains.flatten.length, count + plains.length, some out) ∧
      (out.map Prod.fst).take plains.flatten.length = plains.flatten

/-- The output after one more frame: it is written to the start. -/
def overwrite (key : Bytes) (cells : List Cell) (plain : Bytes) : List Cell :=
  plain.map (fun b => (b, Origin.opened key)) ++ cells.drop plain.length

theorem Sealed.length (h : Sealed wc key count plains buffer) :
    buffer.length = plains.flatten.length + 18 * plains.length := by
  induction h with
  | nil count => rfl
  | cons h1 h2 hc hr ih =>
    have hlen := wc.encrypt_length hc
    simp only [frameHeader, List.length_append, List.length_cons, List.length_nil, List.flatten_cons, hlen, ih]
    omega

theorem Sealed.positive (h : Sealed wc key count plains buffer) : ∀ plain ∈ plains, 1 ≤ plain.length := by
  induction h with
  | nil count => exact fun _ hm => absurd hm (List.not_mem_nil)
  | cons h1 h2 hc hr ih => exact List.forall_mem_cons.mpr ⟨h1, ih⟩

/-- One turn of the loop, at the start of a sealed frame. -/
theorem clientDecryptLoop_sealed (hs : OpensSealed wc) {last offset written fuel : Nat} (hn : CountsTo last nonce)
    (hle : last ≤ count) (h2 : plain.length ≤ 1024)
    (hc : wc.wcChaCha20Poly1305Encrypt key ([0, 0, 0, 0] ++ le64 count) (frameHeader plain.length) plain = some cipher)
    (h1 : 1 ≤ plain.length) (hd : data.drop offset = frameHeader plain.length ++ cipher ++ rest)
    (hroom : written + plain.length ≤ size) (cells : List Cell) :
    clientDecryptLoop wc key data size (fuel + 1) nonce offset written count (some cells) =
      clientDecryptLoop wc key data size fuel (frameNonce nonce count) (offset + plain.length + 18)
        (written + plain.length) (count + 1) (some (overwrite key cells plain)) := by
  have hlen := wc.encrypt_length hc
  have hheader : (frameHeader plain.length).length = 2 := rfl
  have htotal : data.length - offset = plain.length + 18 + rest.length := by
    rw [← List.length_drop, hd, List.length_append, List.length_append, hheader, hlen]
    omega
  have hget : ∀ i, data.getD (offset + i) 0 = (data.drop offset).getD i 0 := by
    intro i
    rw [List.getD_eq_getElem?_getD, List.getD_eq_getElem?_getD, List.getElem?_drop]
  have hsize : (data.getD offset 0).toNat + (data.getD (offset + 1) 0).toNat * 256 = plain.length := by
    rw [show data.getD offset 0 = (data.drop offset).getD 0 0 from hget 0, hget 1, hd]
    simp only [frameHeader, List.cons_append, List.nil_append, List.getD_cons_zero, List.getD_cons_succ,
      UInt8.toNat_ofNat']
    omega
  have hbody : (data.drop (offset + 2)).take (plain.length + 16) = cipher := by
    rw [← List.drop_drop, hd, List.append_assoc, List.drop_append_of_le_length (by omega), ← hheader, List.drop_length,
      List.nil_append, ← hlen, List.take_left]
  have haad : (data.drop offset).take 2 = frameHeader plain.length := by
    rw [hd, List.append_assoc, ← hheader, List.take_left]
  have hopen := hs _ _ _ _ _ hc
  simp only [clientDecryptLoop, hsize]
  rw [if_pos (by omega), if_neg (by omega), frameNonce_eq hn hle, haad, hbody]
  have hdecrypt : cryptoChacha20Poly1305Decrypt wc key ([0, 0, 0, 0] ++ le64 count) (frameHeader plain.length) cipher
      (size - written) = .ok plain := by
    simp only [cryptoChacha20Poly1305Decrypt, hlen, Nat.add_sub_cancel]
    rw [if_neg (by omega), if_neg (by omega), hopen]
  rw [hdecrypt]
  rfl

/-- The loop over sealed frames writes every plaintext to the start of the output. -/
theorem clientDecryptLoop_sealedAll (hs : OpensSealed wc) (h : Sealed wc key count plains buffer) (data : Bytes)
    (size : Nat) (cells : List Cell) :
    ∀ {last offset written fuel : Nat} {nonce : Bytes}, CountsTo last nonce → last ≤ count →
      data.drop offset = buffer → offset ≤ data.length → buffer.length ≤ fuel →
      written + plains.flatten.length ≤ size →
      clientDecryptLoop wc key data size fuel nonce offset written count (some cells) =
        .ok (some data.length, count + plains.length, some (plains.foldl (overwrite key) cells)) := by
  induction h generalizing cells with
  | nil count =>
    intro last offset written fuel nonce hn hle hd ho hf hroom
    have hend : offset = data.length := by
      have := congrArg List.length hd
      rw [List.length_drop, List.length_nil] at this
      omega
    cases fuel with
    | zero => rw [clientDecryptLoop, hend]; rfl
    | succ fuel =>
      rw [clientDecryptLoop, if_neg (by omega), hend]
      rfl
  | @cons count plain cipher rest plains h1 h2 hc hr ih =>
    intro last offset written fuel nonce hn hle hd ho hf hroom
    have hlen := wc.encrypt_length hc
    have hheader : (frameHeader plain.length).length = 2 := rfl
    have hframe : (frameHeader plain.length ++ cipher).length = plain.length + 18 := by
      rw [List.length_append, hheader, hlen]
      omega
    have hrest : data.drop (offset + plain.length + 18) = rest := by
      rw [Nat.add_assoc, ← List.drop_drop, hd, ← hframe, List.drop_left]
    have hall := congrArg List.length hd
    rw [List.length_drop, List.length_append, hframe] at hall
    rw [List.length_append, hframe] at hf
    rw [List.flatten_cons, List.length_append] at hroom
    have hend : offset + plain.length + 18 ≤ data.length := by omega
    obtain ⟨fuel, rfl⟩ : ∃ k, fuel = k + 1 := ⟨fuel - 1, by omega⟩
    rw [clientDecryptLoop_sealed hs hn hle h2 hc h1 hd (by omega),
      ih _ (countsTo_frameNonce hn hle) (Nat.le_succ count) hrest hend (by omega) (by omega), List.length_cons,
      List.foldl_cons, Nat.add_right_comm count 1, Nat.add_assoc count plains.length]

/-- Behind the longest plaintext the output is what it was. -/
theorem foldl_overwrite_getElem? {j : Nat} (plains : List Bytes) (cells : List Cell)
    (h : ∀ plain ∈ plains, plain.length ≤ j) :
    (plains.foldl (overwrite key) cells)[j]? = cells[j]? := by
  induction plains generalizing cells with
  | nil => rfl
  | cons plain plains ih =>
    obtain ⟨hj, hrest⟩ := List.forall_mem_cons.mp h
    rw [List.foldl_cons, ih _ hrest, overwrite, List.getElem?_append_right (by simpa using hj), List.length_map,
      List.getElem?_drop, Nat.add_sub_cancel' hj]

theorem length_add_le_flatten (hpos : ∀ plain ∈ plains, 1 ≤ plain.length) :
    ∀ plain ∈ plains, plain.length + plains.length ≤ plains.flatten.length + 1 := by
  have hsum : ∀ {ps : List Bytes}, (∀ p ∈ ps, 1 ≤ p.length) → ps.length ≤ ps.flatten.length := by
    intro ps hps
    induction ps with
    | nil => exact Nat.le_refl 0
    | cons p ps ih =>
      obtain ⟨hp, hps⟩ := List.forall_mem_cons.mp hps
      have := ih hps
      rw [List.flatten_cons, List.length_append, List.length_cons]
      omega
  induction plains with
  | nil => exact fun plain hm => absurd hm List.not_mem_nil
  | cons p ps ih =>
    obtain ⟨hp, hps⟩ := List.forall_mem_cons.mp hpos
    intro plain hm
    rw [List.flatten_cons, List.length_append, List.length_cons]
    rcases List.mem_cons.mp hm with rfl | hm
    · have := hsum hps
      omega
    · have := ih hps plain hm
      omega

/-- What a call returns that the claimed size lets through. -/
theorem clientDecrypt_sealed (hs : OpensSealed wc) (h : Sealed wc key count plains buffer)
    (hreq : requiredDecryptedSize buffer.length = plains.flatten.length) (hsize : plains.flatten.length ≤ size)
    (cells : List Cell) :
    clientDecrypt wc key count buffer (some cells) size =
      .ok (buffer.length, plains.flatten.length, count + plains.length, some (plains.foldl (overwrite key) cells)) := by
  have hloop := clientDecryptLoop_sealedAll hs h buffer plains.flatten.length cells
    (countsTo_zeroNonce 0) (Nat.zero_le count) (List.drop_zero ..) (Nat.zero_le _) (Nat.le_refl _)
    (Nat.le_of_eq (Nat.zero_add _))
  simp only [clientDecrypt, hreq, hloop, if_neg (Nat.not_lt.mpr hsize)]

/-- Only a buffer of one frame is decrypted to its plaintexts. -/
theorem decryptsAll_iff (hs : OpensSealed wc) (h : Sealed wc key count plains buffer) (hne : plains ≠ []) :
    DecryptsAll wc key count plains buffer ↔ plains.length = 1 := by
  have hpos := h.positive
  constructor
  · intro hd
    by_contra hone
    have htwo : 2 ≤ plains.length := by
      have := List.length_pos_of_ne_nil hne
      omega
    have hlong := length_add_le_flatten hpos
    -- the last byte of the output is the one the caller left there, whatever it was
    have hlast : ∀ b : UInt8, plains.flatten[plains.flatten.length - 1]? = some b := by
      intro b
      let cells : List Cell := List.replicate plains.flatten.length (b, Origin.heap)
      have hcells : cells.length = plains.flatten.length := List.length_replicate
      obtain ⟨out, hcall, hout⟩ := hd _ cells (Nat.le_refl _) hcells
      have hreq := clientDecrypt_size hcall
      rw [clientDecrypt_sealed hs h hreq.symm (Nat.le_refl _)] at hcall
      have he := (Prod.mk.inj (Prod.mk.inj (Prod.mk.inj (Except.ok.inj hcall)).2).2).2
      have hfold := Option.some.inj he
      have hlt : plains.flatten.length - 1 < plains.flatten.length := by
        obtain ⟨plain, hm⟩ := List.exists_mem_of_ne_nil plains hne
        have := hlong plain hm
        omega
      have hkeep : (plains.foldl (overwrite key) cells)[plains.flatten.length - 1]? = some (b, Origin.heap) := by
        rw [foldl_overwrite_getElem? plains cells (fun plain hm => by have := hlong plain hm; omega)]
        exact List.getElem?_replicate_of_lt hlt
      have hget : (out.map Prod.fst)[plains.flatten.length - 1]? = some b := by
        rw [← hfold, List.getElem?_map, hkeep]
        rfl
      rw [← List.getElem?_take_of_lt hlt, hout] at hget
      exact hget
    have h01 := (hlast 0).symm.trans (hlast 1)
    exact absurd (Option.some.inj h01) (by decide)
  · intro hone
    obtain ⟨plain, rfl⟩ := List.length_eq_one_iff.mp hone
    intro size cells hsize hcells
    have hbound : plain.length ≤ 1024 := by
      cases h with
      | cons h1 h2 hc hr => exact h2
    have hlen := h.length
    have hplain := hpos plain (List.mem_singleton_self plain)
    have hflat : [plain].flatten = plain := by simp
    rw [hflat] at hlen hsize
    have hreq : requiredDecryptedSize buffer.length = [plain].flatten.length := by
      rw [hflat, requiredDecryptedSize_frame (by omega) (by omega)]
      omega
    refine ⟨_, clientDecrypt_sealed hs h hreq (by rwa [hflat]) cells, ?_⟩
    rw [hflat, List.foldl_cons, List.foldl_nil, overwrite, List.map_append, List.map_map]
    have hid : plain.map (Prod.fst ∘ fun b => ((b, Origin.opened key) : Cell)) = plain := by
      simp [Function.comp_def]
    rw [hid, List.take_left]

/-- Two frames with one byte each. -/
def twoFrames : Bytes := sealedFrame 2 0 [65] ++ sealedFrame 2 1 [66]

theorem twoFrames_sealed : Sealed benchCrypto (benchKey 2).1 0 [[65], [66]] twoFrames := by
  have hzero : Sealed benchCrypto (benchKey 2).1 2 [] [] := Sealed.nil 2
  have hone : Sealed benchCrypto (benchKey 2).1 1 [[66]] (sealedFrame 2 1 [66] ++ []) :=
    .cons (by decide) (by decide) (by decide) hzero
  have htwo : Sealed benchCrypto (benchKey 2).1 0 [[65], [66]] (sealedFrame 2 0 [65] ++ (sealedFrame 2 1 [66] ++ [])) :=
    .cons (by decide) (by decide) (by decide) hone
  exact htwo

/-- The frames above. -/
theorem decryptsAll_iff_twoFrames :
    DecryptsAll benchCrypto (benchKey 2).1 0 [[65], [66]] twoFrames ↔ ([[65], [66]] : List Bytes).length = 1 :=
  decryptsAll_iff benchCrypto_opens twoFrames_sealed (by decide)

/-- The second plaintext is written over the first, and the size is that of one frame. -/
theorem second_frame_overwrites :
    Sealed benchCrypto (benchKey 2).1 0 [[65], [66]] twoFrames ∧
      ¬ DecryptsAll benchCrypto (benchKey 2).1 0 [[65], [66]] twoFrames := by
  refine ⟨twoFrames_sealed, fun hd => ?_⟩
  obtain ⟨out, hcall, _⟩ := hd 20 (List.replicate 20 (0, Origin.heap)) (by decide) List.length_replicate
  exact absurd (clientDecrypt_size hcall) (by decide)

end ArduinoHomeKit
