import Mathlib.Algebra.GroupWithZero.Nat
import Mathlib.Data.List.Basic

/-! The wrappers of crypto.c over the vendored wolfCrypt primitives. The arithmetic of
the primitives is a parameter; argument checks and result folding are the code's own. -/

namespace ArduinoHomeKit

abbrev Bytes := List UInt8

/-- The ways a call can fail to return. -/
inductive Fault
  | nullDereference
  | endlessLoop
  | wildWrite
  | invalidFree
  deriving DecidableEq

def ascii (s : String) : Bytes := s.toList.map (fun c => UInt8.ofNat c.toNat)

/-- A literal is the list of its characters. -/
theorem ascii_ofList {l : List Char} : ascii (String.ofList l) = l.map (fun c => UInt8.ofNat c.toNat) :=
  congrArg _ String.toList_ofList

abbrev Bytes32 := { b : Bytes // b.length = 32 }

/-- ed25519_key: `p` is the compressed public key, `k` the private half. -/
structure Ed25519Key where
  p : Bytes32
  k : Bytes
  deriving DecidableEq

/-- Srp. An empty `key` is NULL with keySz 0; `state` stands for the big integers and
running hashes that only wolfCrypt reads. -/
structure Srp where
  salt : Bytes
  key : Bytes
  state : Bytes
  deriving DecidableEq

/-- The primitives of wolfCrypt. `none` is any nonzero return code. -/
structure WolfCrypt where
  wcHKDF : (key salt info : Bytes) → Option Bytes
  wcChaCha20Poly1305Encrypt : (key nonce aad input : Bytes) → Option Bytes
  wcChaCha20Poly1305Decrypt : (key nonce aad input authTag : Bytes) → Option Bytes
  encrypt_length : ∀ {key nonce aad input output},
    wcChaCha20Poly1305Encrypt key nonce aad input = some output →
      output.length = input.length + 16
  decrypt_length : ∀ {key nonce aad input authTag output},
    wcChaCha20Poly1305Decrypt key nonce aad input authTag = some output →
      output.length = input.length
  /-- The return code and the value stored through `res`. -/
  wcEd25519VerifyMsg : (sig msg : Bytes) → (key : Bytes32) → Int × Int
  wcEd25519SignMsg : (msg : Bytes) → (key : Ed25519Key) → Option Bytes
  geCompressKey : (x y : Bytes) → Option Bytes32
  wcCurve25519MakeKey : (random : Bytes) → Option Bytes
  wcCurve25519ImportPublic : Bytes → Option Bytes
  wcCurve25519ExportPublic : (privateKey : Bytes) → Option Bytes
  wcCurve25519SharedSecret : (privateKey publicKey : Bytes) → Option Bytes
  wcSrpSetVerifier : (username password salt : Bytes) → Bytes
  wcSrpGetPublic : (state random : Bytes) → Option Bytes × Bytes
  wcSrpComputeKey : (state clientPubKey serverPubKey : Bytes) → Option Bytes × Bytes
  wcSrpVerifyPeersProof : (state key proof : Bytes) → Bool × Bytes
  wcSrpGetProof : (state key : Bytes) → Option Bytes × Bytes

variable (wc : WolfCrypt)

def cryptoSrpNew : Srp := { salt := [], key := [], state := [] }

/-- The return codes of the setup calls are ignored by the only caller. -/
def cryptoSrpInit (srp : Srp) (username password salt : Bytes) : Srp :=
  { srp with salt := salt, state := wc.wcSrpSetVerifier username password salt }

def cryptoSrpGetPublicKey (srp : Srp) (random : Bytes) : Option Bytes × Srp :=
  let (r, state) := wc.wcSrpGetPublic srp.state random
  (r, { srp with state := state })

/-- The error carries what is left in `*buffer_size`. -/
def cryptoSrpGetSalt (srp : Srp) (bufferSize : Nat) : Except Nat Bytes :=
  if bufferSize < srp.salt.length then .error srp.salt.length else .ok srp.salt

/-- wc_SrpComputeKey refuses empty public keys before it touches the context, and
installs the session key only when it succeeds. -/
def cryptoSrpComputeKey (srp : Srp) (clientPublicKey serverPublicKey : Bytes) : Bool × Srp :=
  if clientPublicKey = [] ∨ serverPublicKey = [] then (false, srp)
  else
    match wc.wcSrpComputeKey srp.state clientPublicKey serverPublicKey with
    | (some key, state) => (true, { srp with key := key, state := state })
    | (none, state) => (false, { srp with state := state })

def cryptoSrpVerify (srp : Srp) (proof : Bytes) : Bool × Srp :=
  let (r, state) := wc.wcSrpVerifyPeersProof srp.state srp.key proof
  (r, { srp with state := state })

def cryptoSrpGetProof (srp : Srp) : Option Bytes × Srp :=
  let (r, state) := wc.wcSrpGetProof srp.state srp.key
  (r, { srp with state := state })

def cryptoHkdf (key salt info : Bytes) : Option Bytes := wc.wcHKDF key salt info

def cryptoSrpHkdf (srp : Srp) (salt info : Bytes) : Option Bytes := cryptoHkdf wc srp.key salt info

/-- The error carries what is left in `*decrypted_size`. -/
def cryptoChacha20Poly1305Decrypt (key nonce aad message : Bytes) (decryptedSize : Nat) :
    Except Nat Bytes :=
  if message.length ≤ 16 then .error decryptedSize
  else if decryptedSize < message.length - 16 then .error (message.length - 16)
  else
    match wc.wcChaCha20Poly1305Decrypt key nonce aad (message.take (message.length - 16))
        (message.drop (message.length - 16)) with
    | some decrypted => .ok decrypted
    | none => .error (message.length - 16)

/-- The error carries what is left in `*encrypted_size`. -/
def cryptoChacha20Poly1305Encrypt (key nonce aad message : Bytes) (encryptedSize : Nat) :
    Except Nat Bytes :=
  if encryptedSize < message.length + 16 then .error (message.length + 16)
  else
    match wc.wcChaCha20Poly1305Encrypt key nonce aad message with
    | some encrypted => .ok encrypted
    | none => .error (message.length + 16)

/-- The size a query call with a NULL buffer reports. -/
def reportedSize : Except Nat Bytes → Nat
  | .error n => n
  | .ok b => b.length

/-- The two-call pattern of the handlers: ask for the size, then decrypt. -/
def decryptSized (key nonce aad message : Bytes) : Option Bytes :=
  (cryptoChacha20Poly1305Decrypt wc key nonce aad message
    (reportedSize (cryptoChacha20Poly1305Decrypt wc key nonce aad message 0))).toOption

def encryptSized (key nonce aad message : Bytes) : Option Bytes :=
  (cryptoChacha20Poly1305Encrypt wc key nonce aad message
    (reportedSize (cryptoChacha20Poly1305Encrypt wc key nonce aad message 0))).toOption

/-- wc_ed25519_import_public: a 0x40 prefix, an uncompressed point, or 32 raw bytes. -/
def cryptoEd25519ImportPublicKey (data : Bytes) : Option Ed25519Key :=
  if data.length < 32 then none
  else if h : data.head? = some 0x40 ∧ data.length > 32 then
    some { p := ⟨(data.drop 1).take 32, by simp; omega⟩, k := [] }
  else if data.head? = some 0x04 ∧ data.length > 2 * 32 then
    (wc.geCompressKey ((data.drop 1).take 32) ((data.drop 33).take 32)).map
      (fun p => { p := p, k := [] })
  else if h : data.length = 32 then some { p := ⟨data, h⟩, k := [] }
  else none

/-- Fails only on NULL arguments. -/
def cryptoEd25519ExportPublicKey (key : Ed25519Key) : Option Bytes := some key.p

def cryptoEd25519Sign (key : Ed25519Key) (message : Bytes) : Option Bytes :=
  wc.wcEd25519SignMsg message key

/-- The returned int is `!r && !verified`. -/
def cryptoEd25519Verify (key : Ed25519Key) (message signature : Bytes) : Int :=
  let (r, verified) := wc.wcEd25519VerifyMsg signature message key.p
  if r = 0 ∧ verified = 0 then 1 else 0

/-- wc_ed25519_verify_msg accepts exactly the signatures that `valid` accepts. -/
structure VerifyMsgSpec (valid : Bytes32 → Bytes → Bytes → Prop) : Prop where
  accepts : ∀ {key msg sig}, valid key msg sig → wc.wcEd25519VerifyMsg sig msg key = (0, 1)
  rejects : ∀ {key msg sig}, ¬ valid key msg sig →
    (wc.wcEd25519VerifyMsg sig msg key).1 ≠ 0 ∧ (wc.wcEd25519VerifyMsg sig msg key).2 = 0

/-- Whatever the signature, the wrapper reports success. -/
theorem cryptoEd25519Verify_eq_zero {valid : Bytes32 → Bytes → Bytes → Prop}
    (hs : VerifyMsgSpec wc valid) (key : Ed25519Key) (message signature : Bytes) :
    cryptoEd25519Verify wc key message signature = 0 := by
  by_cases h : valid key.p message signature
  · simp [cryptoEd25519Verify, hs.accepts h]
  · simp [cryptoEd25519Verify, (hs.rejects h).1]

theorem cryptoEd25519ImportPublicKey_32 (data : Bytes32) :
    cryptoEd25519ImportPublicKey wc data = some { p := data, k := [] } := by
  have h := data.2
  simp [cryptoEd25519ImportPublicKey, h]

end ArduinoHomeKit
