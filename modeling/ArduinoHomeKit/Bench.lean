import ArduinoHomeKit.Steps

/-! A bench to run the server on: cryptography that seals with a tag anyone could compute,
a parser for whole requests, and a board whose flash and network never fail. A freed
identifier still reads as the one of controller 3. -/

namespace ArduinoHomeKit

def benchTag (key nonce : Bytes) : Bytes := List.replicate 16 (key.headD 0 + nonce.getD 4 0)

/-- A signature is the key of the signer with 32 bytes behind it. -/
def benchValid (key : Bytes32) (_msg sig : Bytes) : Bool := 64 ≤ sig.length && sig.take 32 == key.1

def benchCrypto : WolfCrypt where
  wcHKDF key _ _ := some (List.replicate 32 (key.headD 7))
  wcChaCha20Poly1305Encrypt key nonce _ input := some (input ++ benchTag key nonce)
  wcChaCha20Poly1305Decrypt key nonce _ input authTag :=
    if authTag = benchTag key nonce then some input else none
  encrypt_length h := by simp [benchTag] at h; simp [← h]
  decrypt_length h := by simp at h; simp [h.2]
  wcEd25519VerifyMsg sig msg key :=
    if sig.length < 64 then (-173, 0) else if benchValid key msg sig then (0, 1) else (-229, 0)
  wcEd25519SignMsg _ key := some (key.p.1 ++ List.replicate 32 0)
  geCompressKey _ _ := none
  wcCurve25519MakeKey _ := some (List.replicate 32 3)
  wcCurve25519ImportPublic b := if b.length = 32 then some b else none
  wcCurve25519ExportPublic b := some b
  wcCurve25519SharedSecret _ b := some b
  wcSrpSetVerifier _ password _ := password
  wcSrpGetPublic state _ := (some [1, 2, 3], state)
  wcSrpComputeKey state _ _ := (some (List.replicate 64 9), state)
  wcSrpVerifyPeersProof state _ proof := (proof == state, state)
  wcSrpGetProof state _ := (some [5, 6], state)

theorem benchCrypto_verifies : VerifyMsgSpec benchCrypto (fun key msg sig => benchValid key msg sig = true) where
  accepts {key msg sig} h := by
    have hlen : ¬ sig.length < 64 := by
      simp only [benchValid, Bool.and_eq_true, decide_eq_true_eq] at h
      omega
    simp [benchCrypto, hlen, h]
  rejects {key msg sig} h := by
    by_cases hlen : sig.length < 64
    · simp [benchCrypto, hlen]
    · simp [benchCrypto, hlen, h]

def benchMethod (data : Bytes) : HttpMethod :=
  if data.head? = some 71 then .get
  else if data.take 2 = [80, 79] then .post
  else if data.take 2 = [80, 85] then .put
  else .other

def benchDecimal (data : Bytes) : Nat :=
  (data.takeWhile (fun b => 48 ≤ b && b ≤ 57)).foldl (fun n b => n * 10 + (b.toNat - 48)) 0

/-- The bytes behind the first occurrence of a pattern. -/
def after (pattern : Bytes) : Bytes → Option Bytes
  | [] => none
  | b :: data => if pattern.isPrefixOf (b :: data) then some ((b :: data).drop pattern.length) else after pattern data

/-- The callbacks for the requests that lie complete in a payload. -/
def benchParse : Nat → Nat → Bytes → List (Nat × ParserEvent)
  | 0, _, _ => []
  | fuel + 1, pos, data =>
    match after (ascii "\r\n\r\n") data with
    | none => []
    | some rest =>
      let header := data.take (data.length - rest.length)
      let length := ((after (ascii "Content-Length: ") header).map benchDecimal).getD 0
      if rest.length < length then []
      else
        let url := ((header.dropWhile (· != 32)).drop 1).takeWhile (· != 32)
        let next := pos + header.length + length
        [(pos, ParserEvent.messageBegin), (pos + header.length, .url (benchMethod data) url [32])] ++
          (if length = 0 then [] else [(next, .body (rest.take length))]) ++
          (next, .messageComplete) :: benchParse fuel next (rest.drop length)

def benchHttp : HttpParser Unit where
  init := ()
  failed _ := false
  execute s data := (s, benchParse data.length 0 data)

def benchChip : FlashChip where
  eepromStart := 0x3FB000
  positive := by decide
  aligned := by decide
  succeeds _ := true

def bench : Platform where
  Parser := Unit
  App := Unit
  crypto := benchCrypto
  http := benchHttp
  app := { serve := fun _ _ _ _ _ app => (app, []), events := fun _ app => (app, []),
           clearNotifyCallbacks := fun _ app => app }
  env := { flash := benchChip, socketWrite := fun _ => .sent, random := fun _ => [],
           heap := fun _ _ => 0, freedString := fun _ => List.replicate 36 3 }

def benchClient : Client bench where
  socket := none
  endpoint := .unknown
  endpointParams := none
  data := []
  dataAvailable := 0
  body := []
  parser := ()
  pairingId := 0
  permissions := 0
  disconnect := false
  encrypted := false
  readKey := []
  writeKey := []
  countReads := 0
  countWrites := 0
  verifyContext := none
  step := .none
  errorWrite := false
  pending := none

/-- A client context as it comes from the heap, on any platform. -/
def rawClient (P : Platform) (parser : P.Parser) : Client P where
  socket := none
  endpoint := .unknown
  endpointParams := none
  data := []
  dataAvailable := 0
  body := []
  parser := parser
  pairingId := 0
  permissions := 0
  disconnect := false
  encrypted := false
  readKey := []
  writeKey := []
  countReads := 0
  countWrites := 0
  verifyContext := none
  step := .none
  errorWrite := false
  pending := none

def benchKey (n : UInt8) : Bytes32 := ⟨List.replicate 32 n, List.length_replicate ..⟩

/-- The identifier of controller `n`. -/
def benchId (n : UInt8) : Bytes := List.replicate 36 n

/-- The record of controller `n`. -/
def benchRecord (n permissions : UInt8) : PairingData := newPairingData (benchId n) (benchKey n) permissions

/-- A formatted store with the given records in its first slots. -/
def benchFlash (records : List PairingData) : Flash where
  mem a :=
    if a < 0x3FB000 then 0xFF
    else if a < 0x3FB004 then magic1.getD (a - 0x3FB000) 0
    else if a < 0x3FB080 then 0xFF
    else (records.flatMap PairingData.toBytes).getD (a - 0x3FB080) 0xFF
  ops := 0

/-- A slot whose record was erased. -/
def deadRecord : PairingData where
  magic := List.replicate 4 0
  permissions := 0
  deviceId := List.replicate 36 0
  devicePublicKey := benchKey 0
  reserved := List.replicate 7 0
  magic_length := List.length_replicate ..
  deviceId_length := List.length_replicate ..
  reserved_length := (benchRecord 0 0).reserved_length

theorem flatMap_toBytes_getElem? (ds : List PairingData) {i k : Nat} (hk : k < sizeofPairingData) :
    (ds.flatMap PairingData.toBytes)[sizeofPairingData * i + k]? = (ds[i]?).bind (fun d => d.toBytes[k]?) := by
  induction ds generalizing i with
  | nil => simp
  | cons d ds ih =>
    rw [List.flatMap_cons]
    cases i with
    | zero =>
      rw [Nat.mul_zero, Nat.zero_add, List.getElem?_append_left (by rw [d.length_toBytes]; exact hk)]
      rfl
    | succ i =>
      have hidx : sizeofPairingData * (i + 1) + k - d.toBytes.length = sizeofPairingData * i + k := by
        rw [d.length_toBytes, Nat.mul_succ]
        omega
      rw [List.getElem?_append_right (by rw [d.length_toBytes, Nat.mul_succ]; omega), hidx, ih]
      rfl

theorem benchFlash_slot (ds : List PairingData) {i k : Nat} (hk : k < sizeofPairingData) :
    (benchFlash ds).mem (slotAddr benchChip i + k) = (ds[i]?).elim 0xFF (fun d => d.toBytes.getD k 0xFF) := by
  have haddr : slotAddr benchChip i + k = 0x3FB080 + (sizeofPairingData * i + k) := by
    simp only [slotAddr, pairingsAddr, storageBaseAddr, benchChip, pairingsOffset]
    omega
  have h1 : ¬ 0x3FB080 + (sizeofPairingData * i + k) < 0x3FB000 := by omega
  have h2 : ¬ 0x3FB080 + (sizeofPairingData * i + k) < 0x3FB004 := by omega
  have h3 : ¬ 0x3FB080 + (sizeofPairingData * i + k) < 0x3FB080 := by omega
  rw [haddr]
  simp only [benchFlash, h1, h2, h3, if_false, Nat.add_sub_cancel_left, List.getD_eq_getElem?_getD,
    flatMap_toBytes_getElem? ds hk]
  cases ds[i]? <;> rfl

/-- What the bench store holds. -/
theorem records_benchFlash (ds : List PairingData) (i : Nat) :
    records benchChip (benchFlash ds) i = (ds[i]?).filter (fun d => isLive d.magic) := by
  cases hd : ds[i]? with
  | none =>
    refine records_blank (fun k hk => ?_)
    rw [benchFlash_slot ds hk, hd]
    rfl
  | some d =>
    have hread : readPairing benchChip (benchFlash ds) i = d := by
      apply PairingData.ofMemory_of_read
      rw [← d.length_toBytes, Nor.read_eq_iff]
      intro k hk
      rw [benchFlash_slot ds (d.length_toBytes ▸ hk), hd]
      simp [hk]
    simp only [records, hread, Option.filter]

def benchBoot (records : List PairingData) : World bench :=
  serverBoot (ascii "AA:BB:CC:DD:EE:FF") { p := benchKey 1, k := [] } (some (ascii "111-11-111"))
    (benchFlash records) () (fun _ => benchClient)
    (fun _ => { srp := cryptoSrpNew, publicKey := [], client := none })

def stateTlv (n : UInt8) : Tlv := { type := TLVType.state, value := [n] }

/-- The callbacks of a whole POST request on a connection. -/
def post (c : ClientId) (url : String) (message : List Tlv) : List (Action bench) :=
  [.event c .messageBegin, .event c (.url .post (ascii url) []), .event c (.body (tlvFormat message)),
    .event c .messageComplete]

/-- The encrypted part of an M5 or M3, sealed under a key that starts with `n`. -/
def sealed (n : UInt8) (message : List Tlv) : Tlv where
  type := TLVType.encryptedData
  value := tlvFormat message ++ List.replicate 16 (n + 80)

def setupM1 (c : ClientId) : List (Action bench) := post c "/pair-setup" [stateTlv 1]

def setupM3 (c : ClientId) (password : String) : List (Action bench) :=
  post c "/pair-setup"
    [stateTlv 3, { type := TLVType.publicKey, value := [1] }, { type := TLVType.proof, value := ascii password }]

/-- An M5 of controller `n` that carries the given signature. -/
def setupM5 (c : ClientId) (key n : UInt8) (signature : Bytes) : List (Action bench) :=
  post c "/pair-setup"
    [stateTlv 5, sealed key
      [{ type := TLVType.identifier, value := benchId n }, { type := TLVType.publicKey, value := (benchKey n).1 },
       { type := TLVType.signature, value := signature }]]

def verifyMessage1 (n : UInt8) : List Tlv :=
  [stateTlv 1, { type := TLVType.publicKey, value := (benchKey n).1 }]

def verifyMessage3 (n : UInt8) (signature : Bytes) : List Tlv :=
  [stateTlv 3, sealed n
    [{ type := TLVType.identifier, value := benchId n }, { type := TLVType.signature, value := signature }]]

/-- A valid signature of controller `n`. -/
def signedBy (n : UInt8) : Bytes := List.replicate 64 n

/-- Controller `n` opens a session on a new connection. -/
def verifyAs (c : ClientId) (n : UInt8) : List (Action bench) :=
  .accept benchClient :: (post c "/pair-verify" (verifyMessage1 n) ++
    post c "/pair-verify" (verifyMessage3 n (signedBy n)))

/-- An AddPairing for controller `n` with the public key of controller `key`. -/
def addMessageFor (n key permissions : UInt8) : List Tlv :=
  [stateTlv 1, { type := TLVType.method, value := [3] }, { type := TLVType.identifier, value := benchId n },
   { type := TLVType.publicKey, value := (benchKey key).1 }, { type := TLVType.permissions, value := [permissions] }]

def addMessage (n permissions : UInt8) : List Tlv := addMessageFor n n permissions

def removeMessage (n : UInt8) : List Tlv :=
  [stateTlv 1, { type := TLVType.method, value := [4] }, { type := TLVType.identifier, value := benchId n }]

/-- The bytes of a request. -/
def httpRequest (method url : String) (body : Bytes) : Bytes :=
  ascii (method ++ " " ++ url ++ " HTTP/1.1\r\nContent-Length: " ++ toString body.length ++ "\r\n\r\n") ++ body

/-- A frame of the session of controller `n`. -/
def sealedFrame (n : UInt8) (count : Nat) (plain : Bytes) : Bytes :=
  [UInt8.ofNat (plain.length % 256), UInt8.ofNat (plain.length / 256)] ++ plain ++
    benchTag (benchKey n).1 (frameNonce zeroNonce count)

/-- A pass that meets these bytes on the first connection. -/
def arriving (bytes : Bytes) : Pass bench where
  incoming := none
  arrivals c := { bytes := if c = 0 then bytes else [], connected := true }

/-- Controller `n` connects and opens a session. -/
def sessionPasses (n : UInt8) : List (Pass bench) :=
  [{ incoming := some benchClient, arrivals := fun _ => { bytes := [], connected := true } },
    arriving (httpRequest "POST" "/pair-verify" (tlvFormat (verifyMessage1 n))),
    arriving (httpRequest "POST" "/pair-verify" (tlvFormat (verifyMessage3 n (signedBy n))))]

/-- The call that reads these bytes on the first connection. -/
def processing (bytes : Bytes) : Call bench := .process 0 { bytes := bytes, connected := true }

/-- The calls of a connection on which controller `n` opens a session. -/
def sessionCalls (n : UInt8) : List (Call bench) :=
  [.accept benchClient, processing (httpRequest "POST" "/pair-verify" (tlvFormat (verifyMessage1 n))),
    processing (httpRequest "POST" "/pair-verify" (tlvFormat (verifyMessage3 n (signedBy n))))]

/-- A run reaches its end in a state with the property. -/
def ends {α : Type} (step : World bench → α → Except Fault (World bench)) (s : World bench) (as : List α)
    (p : World bench → Bool) : Bool :=
  match Runs.run step s as with
  | .ok w => p w
  | .error _ => false

theorem ends_spec {α : Type} {step : World bench → α → Except Fault (World bench)} {s : World bench}
    {as : List α} {p : World bench → Bool} (h : ends step s as p = true) :
    ∃ w, Runs.run step s as = .ok w ∧ p w = true := by
  unfold ends at h
  split at h
  · rename_i w hw
    exact ⟨w, hw, h⟩
  · simp at h

/-- Every step of a run passes a test on the state before it and on its action. -/
def checks {α : Type} (step : World bench → α → Except Fault (World bench)) (p : World bench → α → Bool) :
    World bench → List α → Bool
  | _, [] => true
  | s, a :: as =>
    p s a &&
      match step s a with
      | .ok t => checks step p t as
      | .error _ => true

theorem checks_spec {α : Type} {step : World bench → α → Except Fault (World bench)}
    {p : World bench → α → Bool} {q : World bench → α → World bench → Prop}
    (hpq : ∀ s a t, p s a = true → q s a t) {s : World bench} {as : List α} (h : checks step p s as = true) :
    Runs.Always step q s as := by
  induction as generalizing s with
  | nil => trivial
  | cons a as ih =>
    intro t ht
    simp only [checks, ht, Bool.and_eq_true] at h
    exact ⟨hpq s a t h.1, ih h.2⟩

/-- Controller `n` runs pair-setup on a new connection. -/
def pairAs (c : ClientId) (n : UInt8) : List (Action bench) :=
  .accept benchClient :: (setupM1 c ++ setupM3 c "111-11-111" ++ setupM5 c 9 n (signedBy n))

end ArduinoHomeKit
