import ArduinoHomeKit.PairSetup

/-! homekit_server_on_pair_verify: M1 prepares a verify context, M3 turns the connection
into an encrypted session. -/

namespace ArduinoHomeKit

variable {P : Platform}

/-- The verify context and the answer of M1. Every failure is answered with the same error. -/
def pairVerifyM2 (w : World P) (devicePublicKey : Bytes) : Option (PairVerifyContext × List Tlv) := do
  let deviceKey ← P.crypto.wcCurve25519ImportPublic devicePublicKey
  let myKey ← P.crypto.wcCurve25519MakeKey (P.env.random w.now)
  let myKeyPublic ← P.crypto.wcCurve25519ExportPublic myKey
  let sharedSecret ← P.crypto.wcCurve25519SharedSecret myKey deviceKey
  let accessorySignature ←
    cryptoEd25519Sign P.crypto w.accessoryKey (myKeyPublic ++ w.accessoryId ++ devicePublicKey)
  let subResponse := tlvFormat
    [{ type := TLVType.identifier, value := w.accessoryId },
     { type := TLVType.signature, value := accessorySignature }]
  let sessionKey ← cryptoHkdf P.crypto sharedSecret
    (ascii "Pair-Verify-Encrypt-Salt") (ascii "Pair-Verify-Encrypt-Info")
  let encrypted ← encryptSized P.crypto sessionKey (messageNonce "PV-Msg02") [] subResponse
  some ({ secret := sharedSecret, sessionKey := sessionKey,
          devicePublicKey := devicePublicKey, accessoryPublicKey := myKeyPublic },
    [tlvAddIntegerValue TLVType.state 1 2,
     { type := TLVType.publicKey, value := myKeyPublic },
     { type := TLVType.encryptedData, value := encrypted }])

def pairVerifyM1 (w : World P) (c : ClientId) (message : List Tlv) : World P :=
  match (tlvGetValue message TLVType.publicKey).bind (fun t => pairVerifyM2 w t.value) with
  | none => sendTlvErrorResponse w c 2 .unknown
  | some (context, response) =>
    let w := sendTlvResponse w c response
    let w := w.setClient c
      { w.client c with verifyContext := some context, step := .pairVerify1Of2 }
    w.log (.verifyStarted c context.devicePublicKey context.accessoryPublicKey)

/-- What M3 presents to the signature check, with the pairing found for it. -/
def pairVerifyM3Request (w : World P) (context : PairVerifyContext) (message : List Tlv) :
    Except Fault (Option (SignedRequest × Pairing)) :=
  match tlvGetValue message TLVType.encryptedData with
  | none => .ok none
  | some encryptedData =>
    match decryptSized P.crypto context.sessionKey (messageNonce "PV-Msg03") []
        encryptedData.value with
    | none => .ok none
    | some decryptedData =>
      match tlvParse (bufferOf decryptedData (behind w 1)) decryptedData.length with
      | .error e => .error e
      | .ok decryptedMessage => .ok (do
        let deviceId ← tlvGetValue decryptedMessage TLVType.identifier
        let deviceSignature ← tlvGetValue decryptedMessage TLVType.signature
        let pairing ← homekitStorageFindPairing P.crypto P.env.flash w.flash
          (CString.strndup deviceId.value deviceId.value.length)
        some ({ identifier := deviceId.value, key := pairing.deviceKey,
                info := context.devicePublicKey ++ deviceId.value ++ context.accessoryPublicKey,
                signature := deviceSignature.value }, pairing))

def freeVerifyContext (w : World P) (c : ClientId) : World P :=
  w.setClient c { w.client c with verifyContext := none }

/-- M3 after the signature check: the session keys, and the session itself. -/
def pairVerifyM4 (w : World P) (c : ClientId) (context : PairVerifyContext)
    (request : SignedRequest) (pairing : Pairing) : World P :=
  match cryptoHkdf P.crypto context.secret (ascii "Control-Salt")
      (ascii "Control-Read-Encryption-Key") with
  | none => sendTlvErrorResponse (freeVerifyContext w c) c 4 .unknown
  | some readKey =>
    let w := w.setClient c { w.client c with readKey := readKey }
    match cryptoHkdf P.crypto context.secret (ascii "Control-Salt")
        (ascii "Control-Write-Encryption-Key") with
    | none => sendTlvErrorResponse (freeVerifyContext w c) c 4 .unknown
    | some writeKey =>
      let w := w.setClient c { w.client c with writeKey := writeKey }
      let w := sendTlvResponse (freeVerifyContext w c) c [tlvAddIntegerValue TLVType.state 1 4]
      let w := w.setClient c
        { w.client c with
          pairingId := pairing.id
          permissions := pairing.permissions
          encrypted := true
          step := .pairVerify2Of2 }
      w.log (.verified c request)

def pairVerifyM3 (w : World P) (c : ClientId) (message : List Tlv) : Except Fault (World P) :=
  match (w.client c).verifyContext with
  | none => .ok (sendTlvErrorResponse w c 4 .authentication)
  | some context =>
    match pairVerifyM3Request w context message with
    | .error e => .error e
    | .ok none => .ok (sendTlvErrorResponse (freeVerifyContext w c) c 4 .authentication)
    | .ok (some (request, pairing)) =>
      if cryptoEd25519Verify P.crypto request.key request.info request.signature ≠ 0 then
        .ok (sendTlvErrorResponse (freeVerifyContext w c) c 4 .authentication)
      else .ok (pairVerifyM4 w c context request pairing)

def homekitServerOnPairVerify (w : World P) (c : ClientId) (data : Bytes) :
    Except Fault (World P) :=
  let w := w.setClient c { w.client c with step := .none }
  match tlvParse (bufferOf (data ++ [0]) (behind w 0)) data.length with
  | .error e => .error e
  | .ok message =>
    let state := tlvGetIntegerValue message TLVType.state (-1)
    if state = 1 then .ok (pairVerifyM1 w c message)
    else if state = 3 then pairVerifyM3 w c message
    else .ok w

end ArduinoHomeKit
