import ArduinoHomeKit.PairVerify

/-! homekit_server_on_pairings: AddPairing, RemovePairing and ListPairings. -/

namespace ArduinoHomeKit

variable {P : Platform}

/-- What an AddPairing request asks for. -/
structure AddPairingRequest where
  identifier : Bytes
  publicKey : Bytes
  permissions : Int
  key : Ed25519Key

def addPairingRequest (crypto : WolfCrypt) (message : List Tlv) : Option AddPairingRequest := do
  let identifier ← tlvGetValue message TLVType.identifier
  let publicKey ← tlvGetValue message TLVType.publicKey
  let permissions := tlvGetIntegerValue message TLVType.permissions (-1)
  if permissions = -1 then none
  else
    let key ← cryptoEd25519ImportPublicKey crypto publicKey.value
    some { identifier := identifier.value, publicKey := publicKey.value,
           permissions := permissions, key := key }

/-- The permissions argument of the store is a byte. -/
def permissionByte (permissions : Int) : UInt8 := UInt8.ofNat (permissions % 256).toNat

def respondOk (w : World P) (c : ClientId) : World P :=
  sendTlvResponse w c [tlvAddIntegerValue TLVType.state 1 2]

/-- The end of an update. The identifier is the string found at its address. -/
def addPairingUpdate (w : World P) (c : ClientId) (identifier : Bytes) (permissions : Int) :
    Except Fault (World P) :=
  match homekitStorageUpdatePairing P.env.flash w.flash identifier (permissionByte permissions) with
  | .error e => .error e
  | .ok (r, flash) =>
    let w := { w with flash := flash }
    if r ≠ 0 then
      .ok (sendTlvErrorResponse (w.log (.freed c .deviceIdentifier)) c 2 .unknown)
    else .ok (respondOk (w.log (.freed c .deviceIdentifier)) c)

/-- AddPairing for an identifier that is already paired. A failed export and a differing
key free both buffers and answer with an error, and then go on. -/
def addPairingExisting (w : World P) (c : ClientId) (request : AddPairingRequest)
    (pairing : Pairing) : Except Fault (World P) :=
  let exported := cryptoEd25519ExportPublicKey pairing.deviceKey
  let fail (w : World P) : World P :=
    sendTlvErrorResponse ((w.log (.freed c .pairingPublicKey)).log (.freed c .deviceIdentifier)) c 2
      .unknown
  let identifier := CString.strndup request.identifier request.identifier.length
  let w' := if exported = none then fail w else w
  let w'' := if exported ≠ some request.publicKey then fail w' else w'
  let identifier := if exported ≠ some request.publicKey then P.env.freedString w.now else identifier
  addPairingUpdate (w''.log (.freed c .pairingPublicKey)) c identifier request.permissions

def addPairingNew (w : World P) (c : ClientId) (request : AddPairingRequest) :
    Except Fault (World P) :=
  let identifier := CString.strndup request.identifier request.identifier.length
  if homekitStorageCanAddPairing P.env.flash w.flash = false then
    .ok (sendTlvErrorResponse (w.log (.freed c .deviceIdentifier)) c 2 .maxPeers)
  else
    match homekitStorageAddPairing P.env.flash w.flash (some identifier) request.key
        (permissionByte request.permissions) with
    | .error e => .error e
    | .ok (r, flash) =>
      let w := { w with flash := flash }
      if r ≠ 0 then
        .ok (sendTlvErrorResponse (w.log (.freed c .deviceIdentifier)) c 2 .unknown)
      else .ok (respondOk (w.log (.freed c .deviceIdentifier)) c)

def addPairing (w : World P) (c : ClientId) (message : List Tlv) : Except Fault (World P) :=
  if isAdminSession w c = false then .ok (sendTlvErrorResponse w c 2 .authentication)
  else
    match addPairingRequest P.crypto message with
    | none => .ok (sendTlvErrorResponse w c 2 .unknown)
    | some request =>
      match homekitStorageFindPairing P.crypto P.env.flash w.flash
          (CString.strndup request.identifier request.identifier.length) with
      | some pairing => addPairingExisting w c request pairing
      | none => addPairingNew w c request

/-- The walk over the client list that marks the sessions of a removed pairing. -/
def markDisconnected (w : World P) (pairingId : Int) : World P :=
  w.clients.foldl (fun w c =>
    if (w.client c).pairingId = pairingId then
      w.setClient c { w.client c with disconnect := true }
    else w) w

def removePairing (w : World P) (c : ClientId) (message : List Tlv) : World P :=
  if isAdminSession w c = false then sendTlvErrorResponse w c 2 .authentication
  else
    match tlvGetValue message TLVType.identifier with
    | none => sendTlvErrorResponse w c 2 .unknown
    | some t =>
      let identifier := CString.strndup t.value t.value.length
      match homekitStorageFindPairing P.crypto P.env.flash w.flash identifier with
      | none => respondOk (w.log (.freed c .deviceIdentifier)) c
      | some pairing =>
        match homekitStorageRemovePairing P.env.flash w.flash identifier with
        | (r, flash) =>
          let w := { w with flash := flash }
          if r ≠ 0 then
            sendTlvErrorResponse (w.log (.freed c .deviceIdentifier)) c 2 .unknown
          else
            let w := markDisconnected (w.log (.pairingRemoved c identifier)) pairing.id
            let w :=
              if isAdmin pairing.permissions &&
                  !homekitIsPaired P.crypto P.env.flash w.flash then { w with paired := false }
              else w
            respondOk (w.log (.freed c .deviceIdentifier)) c

/-- The entries of ListPairings, with separators between them. -/
def listPairingsLoop (wc : WolfCrypt) (chip : FlashChip) (f : Flash) :
    Nat → List Nat → Bool → List Tlv → List Tlv
  | 0, _, _, response => response
  | fuel + 1, it, first, response =>
    match homekitStorageNextPairing wc chip f it with
    | none => response
    | some (pairing, it) =>
      let separator : List Tlv := if first then [] else [{ type := TLVType.separator, value := [] }]
      listPairingsLoop wc chip f fuel it false (response ++ separator ++
        [{ type := TLVType.identifier, value := pairing.deviceId },
         { type := TLVType.publicKey, value := pairing.deviceKey.p },
         tlvAddIntegerValue TLVType.permissions 1 pairing.permissions.toNat])

def listPairings (w : World P) (c : ClientId) : World P :=
  if isAdminSession w c = false then sendTlvErrorResponse w c 2 .authentication
  else
    sendTlvResponse w c (listPairingsLoop P.crypto P.env.flash w.flash maxPairings slots true
      [tlvAddIntegerValue TLVType.state 1 2])

def homekitServerOnPairings (w : World P) (c : ClientId) (data : Bytes) :
    Except Fault (World P) :=
  match tlvParse (bufferOf (data ++ [0]) (behind w 0)) data.length with
  | .error e => .error e
  | .ok message =>
    if tlvGetIntegerValue message TLVType.state (-1) ≠ 1 then
      .ok (sendTlvErrorResponse w c 2 .unknown)
    else
      let method := tlvGetIntegerValue message TLVType.method (-1)
      if method = TLVMethod.addPairing then addPairing w c message
      else if method = TLVMethod.removePairing then .ok (removePairing w c message)
      else if method = TLVMethod.listPairings then .ok (listPairings w c)
      else .ok (sendTlvErrorResponse w c 2 .unknown)

end ArduinoHomeKit
