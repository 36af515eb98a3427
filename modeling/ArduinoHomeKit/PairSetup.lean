import ArduinoHomeKit.Server

/-! homekit_server_on_pair_setup: the messages M1, M3 and M5 of one pairing attempt. -/

namespace ArduinoHomeKit

variable {P : Platform}

def saltEncrypt : Bytes := ascii "Pair-Setup-Encrypt-Salt"
def infoEncrypt : Bytes := ascii "Pair-Setup-Encrypt-Info"
def saltControllerSign : Bytes := ascii "Pair-Setup-Controller-Sign-Salt"
def infoControllerSign : Bytes := ascii "Pair-Setup-Controller-Sign-Info"
def saltAccessorySign : Bytes := ascii "Pair-Setup-Accessory-Sign-Salt"
def infoAccessorySign : Bytes := ascii "Pair-Setup-Accessory-Sign-Info"

def messageNonce (name : String) : Bytes := [0, 0, 0, 0] ++ ascii name

/-- A random password of the form ddd-dd-ddd. -/
def randomPassword (random : Bytes) : Bytes :=
  (List.range 10).map (fun i =>
    if i = 3 ∨ i = 6 then 45 else UInt8.ofNat ((random.getD i 0).toNat % 10 + 48))

def setupPassword (w : World P) : Bytes :=
  match w.password with
  | some password => password
  | none => randomPassword (P.env.random w.now)

/-- Creates the context of the next pairing attempt unless one is waiting. -/
def arduinoHomekitPreinit (w : World P) : Bool × World P :=
  match w.savedPreinitPairingContext with
  | some _ => (true, w)
  | none =>
    let k := w.contextCount
    let random := P.env.random w.now
    let srp := cryptoSrpInit P.crypto cryptoSrpNew (ascii "Pair-Setup") (setupPassword w) (random.take 16)
    match cryptoSrpGetPublicKey P.crypto srp (random.drop 16) with
    | (r, srp) =>
      let w := { w.setContext k { srp := srp, publicKey := r.getD [], client := none } with
        contextCount := k + 1 }
      if r = none then (false, pairingContextFree w k)
      else (true, { w with savedPreinitPairingContext := some k })

/-- The answer to M1 on the context `k` that belongs to the connection. -/
def pairSetupM2 (w : World P) (c : ClientId) (k : ContextId) : World P :=
  match cryptoSrpGetSalt (w.contexts k).srp (reportedSize (cryptoSrpGetSalt (w.contexts k).srp 0)) with
  | .error _ =>
    sendTlvErrorResponse { pairingContextFree w k with pairingContext := none } c 2 .unknown
  | .ok salt =>
    let w := sendTlvResponse w c
      [{ type := TLVType.publicKey, value := (w.contexts k).publicKey },
       { type := TLVType.salt, value := salt },
       tlvAddIntegerValue TLVType.state 1 2]
    w.setClient c { w.client c with step := .pairSetup1Of3 }

def pairSetupM1 (w : World P) (c : ClientId) : World P :=
  if w.paired then sendTlvErrorResponse w c 2 .unavailable
  else
    match w.pairingContext with
    | some k =>
      if (w.contexts k).client ≠ some c then sendTlvErrorResponse w c 2 .busy
      else pairSetupM2 w c k
    | none =>
      match arduinoHomekitPreinit w with
      | (false, w) => sendTlvErrorResponse w c 2 .unknown
      | (true, w) =>
        match w.savedPreinitPairingContext with
        | none => sendTlvErrorResponse w c 2 .unknown
        | some k =>
          let w := { w.setContext k { w.contexts k with client := some c } with
            pairingContext := some k }
          pairSetupM2 (w.log (.contextOpened k c)) c k

/-- No owner check here: M3 works on whatever context the server holds. -/
def pairSetupM3 (w : World P) (c : ClientId) (message : List Tlv) : Except Fault (World P) :=
  match tlvGetValue message TLVType.publicKey with
  | none => .ok (sendTlvErrorResponse w c 4 .authentication)
  | some devicePublicKey =>
    match tlvGetValue message TLVType.proof with
    | none => .ok (sendTlvErrorResponse w c 4 .authentication)
    | some proof =>
      match w.pairingContext with
      | none => .error .nullDereference
      | some k =>
        match cryptoSrpComputeKey P.crypto (w.contexts k).srp devicePublicKey.value
            (w.contexts k).publicKey with
        | (false, srp) =>
          let w := w.setContext k { w.contexts k with srp := srp }
          .ok (sendTlvErrorResponse w c 4 .authentication)
        | (true, srp) =>
          -- the public key is spent even if the proof turns out wrong
          match cryptoSrpVerify P.crypto srp proof.value with
          | (false, srp) =>
            let w := w.setContext k { w.contexts k with srp := srp, publicKey := [] }
            .ok (sendTlvErrorResponse w c 4 .authentication)
          | (true, srp) =>
            match cryptoSrpGetProof P.crypto srp with
            | (serverProof, srp) =>
              let w := w.setContext k { w.contexts k with srp := srp, publicKey := [] }
              let w := w.log (.srpVerified k c)
              let w := sendTlvResponse w c
                [tlvAddIntegerValue TLVType.state 1 4,
                 { type := TLVType.proof, value := serverProof.getD ((List.range 64).map (behind w 3)) }]
              .ok (w.setClient c { w.client c with step := .pairSetup2Of3 })

/-- M5 up to the signature check. Every failure is answered with the same error. -/
def pairSetupM5Request (w : World P) (srp : Srp) (sharedSecret : Bytes) (message : List Tlv) :
    Except Fault (Option SignedRequest) :=
  match tlvGetValue message TLVType.encryptedData with
  | none => .ok none
  | some encryptedData =>
    match decryptSized P.crypto sharedSecret (messageNonce "PS-Msg05") [] encryptedData.value with
    | none => .ok none
    | some decryptedData =>
      match tlvParse (bufferOf decryptedData (behind w 1)) decryptedData.length with
      | .error e => .error e
      | .ok decryptedMessage => .ok (do
        let deviceId ← tlvGetValue decryptedMessage TLVType.identifier
        let devicePublicKey ← tlvGetValue decryptedMessage TLVType.publicKey
        let deviceSignature ← tlvGetValue decryptedMessage TLVType.signature
        let deviceKey ← cryptoEd25519ImportPublicKey P.crypto devicePublicKey.value
        let deviceX ← cryptoSrpHkdf P.crypto srp saltControllerSign infoControllerSign
        some { identifier := deviceId.value, key := deviceKey,
               info := deviceX ++ deviceId.value ++ devicePublicKey.value,
               signature := deviceSignature.value })

/-- M5 after the pairing is stored: the encrypted M6, or the error to answer with. -/
def pairSetupM6 (w : World P) (srp : Srp) (sharedSecret : Bytes) : Except TLVError (List Tlv) :=
  match cryptoEd25519ExportPublicKey w.accessoryKey with
  | none => .error .authentication
  | some accessoryPublicKey =>
    match cryptoSrpHkdf P.crypto srp saltAccessorySign infoAccessorySign with
    | none => .error .unknown
    | some accessoryX =>
      match cryptoEd25519Sign P.crypto w.accessoryKey
          (accessoryX ++ w.accessoryId ++ accessoryPublicKey) with
      | none => .error .unknown
      | some accessorySignature =>
        let responseMessage := tlvFormat
          [{ type := TLVType.identifier, value := w.accessoryId },
           { type := TLVType.publicKey, value := accessoryPublicKey },
           { type := TLVType.signature, value := accessorySignature }]
        match encryptSized P.crypto sharedSecret (messageNonce "PS-Msg06") [] responseMessage with
        | none => .error .unknown
        | some encrypted =>
          .ok [tlvAddIntegerValue TLVType.state 1 6,
               { type := TLVType.encryptedData, value := encrypted }]

/-- The identifier as the C string that add_pairing is given: it is not terminated, so the
string goes on with the bytes behind the TLV value. An empty value is NULL. -/
def storedIdentifier (w : World P) (identifier : Bytes) : Option Bytes :=
  if identifier = [] then none
  else some (identifier ++ (List.range deviceIdSize).map (behind w 2))

/-- The end of M5, once the pairing is stored. -/
def pairSetupM5Finish (w : World P) (c : ClientId) (response : List Tlv) :
    Except Fault (World P) :=
  let w := sendTlvResponse w c response
  match w.pairingContext with
  | none => .error .nullDereference
  | some k =>
    let w := { pairingContextFree w k with pairingContext := none, paired := true }
    .ok (w.setClient c { w.client c with step := .pairSetup3Of3 })

/-- The new controller is an admin. -/
def setupStore (w : World P) (request : SignedRequest) : Except Fault (Int × Flash) :=
  homekitStorageAddPairing P.env.flash w.flash (storedIdentifier w request.identifier) request.key
    pairingPermissionsAdmin

/-- M5 after the signature check. -/
def pairSetupM5Store (w : World P) (c : ClientId) (k : ContextId) (srp : Srp) (sharedSecret : Bytes)
    (request : SignedRequest) : Except Fault (World P) :=
  match setupStore w request with
  | .error e => .error e
  | .ok (r, flash) =>
    let w := { w with flash := flash }.log (.addPairing k c request r)
    if r ≠ 0 then .ok (sendTlvErrorResponse w c 6 .unknown)
    else
      match pairSetupM6 w srp sharedSecret with
      | .error e => .ok (sendTlvErrorResponse w c 6 e)
      | .ok response => pairSetupM5Finish w c response

/-- No owner check and no check that a proof was verified. -/
def pairSetupM5 (w : World P) (c : ClientId) (message : List Tlv) : Except Fault (World P) :=
  match w.pairingContext with
  | none => .error .nullDereference
  | some k =>
    let srp := (w.contexts k).srp
    match cryptoSrpHkdf P.crypto srp saltEncrypt infoEncrypt with
    | none => .ok (sendTlvErrorResponse w c 6 .authentication)
    | some sharedSecret =>
      match pairSetupM5Request w srp sharedSecret message with
      | .error e => .error e
      | .ok none => .ok (sendTlvErrorResponse w c 6 .authentication)
      | .ok (some request) =>
        if cryptoEd25519Verify P.crypto request.key request.info request.signature ≠ 0 then
          .ok (sendTlvErrorResponse w c 6 .authentication)
        else pairSetupM5Store w c k srp sharedSecret request

def homekitServerOnPairSetup (w : World P) (c : ClientId) (data : Bytes) :
    Except Fault (World P) :=
  let w := w.setClient c { w.client c with step := .none }
  -- the body is stored with a NUL behind it
  match tlvParse (bufferOf (data ++ [0]) (behind w 0)) data.length with
  | .error e => .error e
  | .ok message =>
    let state := tlvGetIntegerValue message TLVType.state (-1)
    if state = 1 then .ok (pairSetupM1 w c)
    else if state = 3 then pairSetupM3 w c message
    else if state = 5 then pairSetupM5 w c message
    else .ok w

end ArduinoHomeKit
