import ArduinoHomeKit.Machine

/-! What a complete message asks of the pairing store and of the sessions, read off the
message and the state before it. -/

namespace ArduinoHomeKit

variable {P : Platform}

/-- The decisive requests. A request is only one if all that its sender contributes is
there: the fields, the encryption, the admin session. The signature is not looked at. -/
inductive Request
  | store (k : ContextId) (sharedSecret : Bytes) (request : SignedRequest)
  | verify (context : PairVerifyContext) (request : SignedRequest) (pairing : Pairing)
  | add (request : AddPairingRequest)
  | remove (deviceId : Bytes)

def setupRequest (w : World P) (message : List Tlv) : Option Request :=
  match w.pairingContext with
  | none => none
  | some k =>
    match cryptoSrpHkdf P.crypto (w.contexts k).srp saltEncrypt infoEncrypt with
    | none => none
    | some sharedSecret =>
      match pairSetupM5Request w (w.contexts k).srp sharedSecret message with
      | .ok (some request) => some (.store k sharedSecret request)
      | _ => none

/-- The session keys derive from the shared secret alone. -/
def sessionKeysDerive (wc : WolfCrypt) (context : PairVerifyContext) : Bool :=
  (cryptoHkdf wc context.secret (ascii "Control-Salt") (ascii "Control-Read-Encryption-Key")).isSome &&
    (cryptoHkdf wc context.secret (ascii "Control-Salt") (ascii "Control-Write-Encryption-Key")).isSome

def verifyRequest (w : World P) (c : ClientId) (message : List Tlv) : Option Request :=
  match (w.client c).verifyContext with
  | none => none
  | some context =>
    match pairVerifyM3Request w context message with
    | .ok (some (request, pairing)) =>
      if sessionKeysDerive P.crypto context then some (.verify context request pairing) else none
    | _ => none

def pairingsRequest (w : World P) (c : ClientId) (message : List Tlv) : Option Request :=
  if isAdminSession w c then
    if tlvGetIntegerValue message TLVType.method (-1) = TLVMethod.addPairing then
      (addPairingRequest P.crypto message).map Request.add
    else if tlvGetIntegerValue message TLVType.method (-1) = TLVMethod.removePairing then
      (tlvGetValue message TLVType.identifier).map (fun t =>
        .remove (CString.strndup t.value t.value.length))
    else none
  else none

/-- The request of the message that is complete on the connection. -/
def messageRequest (w : World P) (c : ClientId) : Option Request :=
  let data := (w.client c).body
  match tlvParse (bufferOf (data ++ [0]) (behind w 0)) data.length with
  | .error _ => none
  | .ok message =>
    let state := tlvGetIntegerValue message TLVType.state (-1)
    match (w.client c).encrypted, (w.client c).endpoint with
    | false, .pairSetup => if state = 5 then setupRequest w message else none
    | false, .pairVerify => if state = 3 then verifyRequest w c message else none
    | true, .pairings => if state = 1 then pairingsRequest w c message else none
    | _, _ => none

/-- The connection and the request of an action. -/
def requested (w : World P) : Action P → Option (ClientId × Request)
  | .event c .messageComplete =>
    if c < w.clientCount then (messageRequest (messageEntry w c) c).map (fun r => (c, r)) else none
  | _ => none

/-- The identifier an update is made for: after the buffers were freed it is whatever
string is found there. -/
def updatedIdentifier (w : World P) (request : AddPairingRequest) (pairing : Pairing) : Bytes :=
  if cryptoEd25519ExportPublicKey pairing.deviceKey ≠ some request.publicKey then
    P.env.freedString w.now
  else CString.strndup request.identifier request.identifier.length

/-- The store operation of an AddPairing request, its result and the store it leaves. -/
def addPairingStore (w : World P) (request : AddPairingRequest) : Except Fault (Int × Flash) :=
  match homekitStorageFindPairing P.crypto P.env.flash w.flash
      (CString.strndup request.identifier request.identifier.length) with
  | some pairing =>
    homekitStorageUpdatePairing P.env.flash w.flash (updatedIdentifier w request pairing)
      (permissionByte request.permissions)
  | none =>
    homekitStorageAddPairing P.env.flash w.flash
      (some (CString.strndup request.identifier request.identifier.length)) request.key
      (permissionByte request.permissions)

end ArduinoHomeKit
