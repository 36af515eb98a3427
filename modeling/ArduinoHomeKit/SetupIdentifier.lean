import ArduinoHomeKit.Bench
import ArduinoHomeKit.Invariants

/-! The identifier of M5 on its way into the store. M5 hands over the address of the TLV value,
which nothing terminates, where the later handlers hand over terminated copies. -/

namespace ArduinoHomeKit

open CString SlotStore

variable {P : Platform} {w w' : World P} {c : ClientId} {message : List Tlv} {request : SignedRequest} {f : Flash}

/-- An M5 with a valid signature, whose pairing the store takes. -/
structure StoresPairing (w : World P) (message : List Tlv) (request : SignedRequest) (f : Flash) : Prop where
  accepted : ∃ k sharedSecret, setupRequest w message = some (.store k sharedSecret request)
  signed : cryptoEd25519Verify P.crypto request.key request.info request.signature = 0
  stored : setupStore w request = .ok (0, f)

/-- The record in slot `n` is the one of the request: it is stored under the identifier that was
sent, and as long as the records stay, M3 finds it under that identifier and RemovePairing removes
it. -/
structure KnownAs (P : Platform) (f : Flash) (request : SignedRequest) (n : Nat) : Prop where
  record : ∃ d, records P.env.flash f n = some d ∧ recordId d = request.identifier ∧
    d.devicePublicKey = request.key.p
  found : ∀ w : World P, records P.env.flash w.flash = records P.env.flash f →
    (homekitStorageFindPairing P.crypto P.env.flash w.flash
      (strndup request.identifier request.identifier.length)).map Pairing.id = some n
  verified : ∀ (w : World P) context message presented pairing,
    records P.env.flash w.flash = records P.env.flash f →
      pairVerifyM3Request w context message = .ok (some (presented, pairing)) →
        presented.identifier = request.identifier → pairing.id = n ∧ pairing.deviceKey.p = request.key.p
  removed : ∀ (w : World P) c message t, records P.env.flash w.flash = records P.env.flash f →
    isAdminSession w c = true → P.env.flash.succeeds w.flash.ops = true →
      tlvGetValue message TLVType.identifier = some t → t.value = request.identifier →
        records P.env.flash (removePairing w c message).flash n = none

/-- The slot that add_pairing takes for the record. -/
def IdentifierKept (w : World P) (f : Flash) (request : SignedRequest) : Prop :=
  ∃ n f₀, findBlock P.env.flash w.flash = .ok (some n, f₀) ∧ KnownAs P f request n

/-- The identifier fills the field of the record, or it happens to be terminated. -/
def EndsThere (w : World P) (identifier : Bytes) : Prop :=
  identifier.length = deviceIdSize ∨ behind w 2 0 = 0

/-- No record in front of the free slot bears the identifier already. -/
def FirstOfItsName (w : World P) (identifier : Bytes) : Prop :=
  ∀ n f₀, findBlock P.env.flash w.flash = .ok (some n, f₀) →
    ∀ i < n, ∀ d, records P.env.flash f₀ i = some d → recordId d ≠ identifier

/-- The store goes on from the flash of the M5. -/
theorem StoresPairing.flash (h : StoresPairing w message request f) (hm : pairSetupM5 w c message = .ok w') :
    w'.flash = f := by
  obtain ⟨k, s, hr⟩ := h.accepted
  obtain ⟨_, hs⟩ := pairSetupM5_stored hm hr
  rw [if_neg (by simp [h.signed])] at hs
  cases hs with
  | failed w₁ r g hq hst _ hh =>
    obtain ⟨_, rfl⟩ := Prod.mk.inj (Except.ok.inj (h.stored.symm.trans hst))
    exact hh.flash
  | finished w₁ w₂ g hq hst _ hq' _ hh =>
    obtain ⟨_, rfl⟩ := Prod.mk.inj (Except.ok.inj (h.stored.symm.trans hst))
    exact hh.flash.trans hq'.flash

/-- What is kept of an identifier and the bytes behind it. -/
theorem controllerId_raw {identifier : Bytes} {tail : Nat → UInt8} (hlen : identifier.length ≤ deviceIdSize)
    (hnul : (0 : UInt8) ∉ identifier) :
    controllerId (identifier ++ (List.range deviceIdSize).map tail) = identifier ↔
      identifier.length = deviceIdSize ∨ tail 0 = 0 := by
  have hself : ∀ b ∈ identifier, (b != 0) = true := fun b hb => by
    simpa using fun he : b = 0 => hnul (he ▸ hb)
  obtain ⟨k, hk⟩ := Nat.exists_eq_add_of_le hlen
  have hsplit : controllerId (identifier ++ (List.range deviceIdSize).map tail) =
      identifier ++ strndup ((List.range deviceIdSize).map tail) k := by
    rw [controllerId, strndup, strndup, hk, List.take_append, List.take_of_length_le (by omega),
      Nat.add_sub_cancel_left, List.takeWhile_append_of_pos hself]
  rw [hsplit, List.append_right_eq_self]
  have hrange : (List.range deviceIdSize).map tail = tail 0 :: (List.range 35).map (fun i => tail (i + 1)) := by
    rw [deviceIdSize, List.range_succ_eq_map, List.map_cons, List.map_map]
    rfl
  cases k with
  | zero => simp [hk]
  | succ k =>
    rw [hrange, strndup_cons]
    by_cases hz : tail 0 = 0
    · simp [hz]
    · have hne : identifier.length ≠ deviceIdSize := by omega
      simp [hz, hne]

/-- A copy of an identifier that fits is the identifier. -/
theorem controllerId_copy {identifier : Bytes} (hlen : identifier.length ≤ deviceIdSize)
    (hnul : (0 : UInt8) ∉ identifier) :
    controllerId (strndup identifier identifier.length) = identifier := by
  have hself : ∀ b ∈ identifier, (b != 0) = true := fun b hb => by
    simpa using fun he : b = 0 => hnul (he ▸ hb)
  rw [controllerId, strndup_full, strndup, List.take_of_length_le hlen, List.takeWhile_eq_self_iff]
  exact hself

theorem homekitStorageAddPairing_stored {chip : FlashChip} {f f' : Flash} {deviceId : Option Bytes}
    {key : Ed25519Key} {permissions : UInt8}
    (h : homekitStorageAddPairing chip f deviceId key permissions = .ok (0, f')) :
    ∃ id n f₀, deviceId = some id ∧ findBlock chip f = .ok (some n, f₀) ∧ n < maxPairings ∧
      records chip f' = put (records chip f₀) n (newPairingData id key.p permissions) := by
  unfold homekitStorageAddPairing at h
  split at h
  · simp at h
  · simp at h
  · rename_i n f₀ hb
    obtain ⟨hlt, hblank⟩ := (findBlock_cases hb).2 n rfl
    split at h
    · simp at h
    · rename_i id
      split at h
      · simp at h
      · rename_i g hg
        obtain ⟨_, rfl⟩ := Prod.mk.inj (Except.ok.inj h)
        exact ⟨id, n, f₀, rfl, hb, hlt, records_write isLive_magic1 hblank hg⟩

/-- A pairing that M3 finds is the one the identifier of the message leads to. -/
theorem pairVerifyM3Request_found {context : PairVerifyContext} {presented : SignedRequest} {pairing : Pairing}
    (h : pairVerifyM3Request w context message = .ok (some (presented, pairing))) :
    homekitStorageFindPairing P.crypto P.env.flash w.flash
      (strndup presented.identifier presented.identifier.length) = some pairing := by
  unfold pairVerifyM3Request at h
  split at h
  · simp at h
  · split at h
    · simp at h
    · split at h
      · simp at h
      · simp only [Except.ok.injEq, Option.bind_eq_bind, Option.bind_eq_some_iff, Option.some.injEq,
          Prod.mk.injEq] at h
        obtain ⟨deviceId, _, signature, _, found, hf, rfl, rfl⟩ := h
        exact hf

/-- RemovePairing kills the first record of the identifier. -/
theorem removePairing_kills {t : Tlv} {n : Nat} (ha : isAdminSession w c = true)
    (hw : P.env.flash.succeeds w.flash.ops = true) (ht : tlvGetValue message TLVType.identifier = some t)
    (hm : matchSlot P.env.flash w.flash (strndup t.value t.value.length) = some n) :
    records P.env.flash (removePairing w c message).flash n = none := by
  cases removePairing_removed ha ht rfl with
  | absent hnone _ => simp [hm] at hnone
  | refused w₁ r g _ hs hr _ =>
    simp only [homekitStorageRemovePairing, hm, spiflashWrite, hw, if_true] at hs
    exact absurd (Prod.mk.inj hs).1.symm hr
  | done w₁ g pairing _ _ hs hh =>
    rw [hh.flash, (revoke_revokes w₁ c _ pairing g).flash]
    rcases homekitStorageRemovePairing_cases hs with ⟨_, hnone, _⟩ | ⟨i, hi, ⟨hr, _⟩ | ⟨_, hk⟩⟩
    · simp [hm] at hnone
    · exact absurd rfl hr
    · obtain rfl : i = n := Option.some.inj (hi.symm.trans hm)
      rw [hk]
      simp [kill]

/-- The record of an M5 answers to its identifier exactly if all of it was stored and no earlier
record does. -/
theorem StoresPairing.knownAs_iff {n : Nat} {f₀ : Flash} (h : StoresPairing w message request f)
    (hlen : request.identifier.length ≤ deviceIdSize) (hnul : (0 : UInt8) ∉ request.identifier)
    (hn : findBlock P.env.flash w.flash = .ok (some n, f₀)) :
    KnownAs P f request n ↔ EndsThere w request.identifier ∧
      ∀ i < n, ∀ d, records P.env.flash f₀ i = some d → recordId d ≠ request.identifier := by
  obtain ⟨id, m, f₁, hid, hm, hlt, hput⟩ := homekitStorageAddPairing_stored h.stored
  obtain ⟨hmn, rfl⟩ := Prod.mk.inj (Except.ok.inj (hm.symm.trans hn))
  obtain rfl := Option.some.inj hmn
  have hraw : id = request.identifier ++ (List.range deviceIdSize).map (behind w 2) := by
    unfold storedIdentifier at hid
    split at hid
    · simp at hid
    · exact (Option.some.inj hid).symm
  have hat : records P.env.flash f m = some (newPairingData id request.key.p pairingPermissionsAdmin) := by
    rw [hput, put_self]
  have hkey := recordId_newPairingData id request.key.p pairingPermissionsAdmin
  have hends : controllerId id = request.identifier ↔ EndsThere w request.identifier := by
    rw [hraw]
    exact controllerId_raw hlen hnul
  have hbefore : ∀ j < m, records P.env.flash f j = records P.env.flash f₁ j := fun j hj => by
    rw [hput, put_of_ne (Nat.ne_of_lt hj)]
  constructor
  · intro hk
    obtain ⟨d, hd, hrec, _⟩ := hk.record
    obtain rfl := Option.some.inj (hat.symm.trans hd)
    refine ⟨hends.mp (hkey ▸ hrec), fun i hi elder helder hname => ?_⟩
    have hfound := hk.found { w with flash := f } rfl
    rw [homekitStorageFindPairing_eq, Option.map_map, Option.map_eq_some_iff] at hfound
    obtain ⟨j, hj, hjm⟩ := hfound
    change j = m at hjm
    subst hjm
    rw [matchSlot_eq_lookup, lookup_eq_some_iff, controllerId_copy hlen hnul] at hj
    exact hj.2.2 i hi elder ((hbefore i hi).trans helder) hname
  · rintro ⟨he, hfirst⟩
    have hname := hends.mpr he
    have hslot : ∀ u : World P, records P.env.flash u.flash = records P.env.flash f →
        matchSlot P.env.flash u.flash (strndup request.identifier request.identifier.length) = some m := by
      intro u hu
      rw [matchSlot_eq_lookup, hu, lookup_eq_some_iff, controllerId_copy hlen hnul]
      refine ⟨hlt, ⟨_, hat, hkey.trans hname⟩, fun j hj d hd => ?_⟩
      exact hfirst j hj d ((hbefore j hj).symm.trans hd)
    have hfind : ∀ u : World P, records P.env.flash u.flash = records P.env.flash f →
        homekitStorageFindPairing P.crypto P.env.flash u.flash
            (strndup request.identifier request.identifier.length) =
          some (pairingOf m (newPairingData id request.key.p pairingPermissionsAdmin)) := by
      intro u hu
      have hlive : records P.env.flash u.flash m =
          some (newPairingData id request.key.p pairingPermissionsAdmin) := by rw [hu, hat]
      rw [homekitStorageFindPairing_eq, hslot u hu, Option.map_some, (records_some hlive).1]
    refine ⟨⟨_, hat, hkey.trans hname, rfl⟩, ?_, ?_, ?_⟩
    · intro u hu
      rw [hfind u hu]
      rfl
    · intro u context message presented pairing hu hm hp
      have hf := pairVerifyM3Request_found hm
      rw [hp, hfind u hu, Option.some.injEq] at hf
      subst hf
      exact ⟨rfl, rfl⟩
    · intro u c message t hu ha hw ht hv
      exact removePairing_kills ha hw ht (hv ▸ hslot u hu)

/-- M5 keeps an identifier that fits the record exactly if it fills it or a zero byte happens to
lie behind it, and no earlier record bears it. -/
theorem identifierKept_iff (h : StoresPairing w message request f)
    (hlen : 1 ≤ request.identifier.length ∧ request.identifier.length ≤ deviceIdSize)
    (hnul : (0 : UInt8) ∉ request.identifier) :
    IdentifierKept w f request ↔ EndsThere w request.identifier ∧ FirstOfItsName w request.identifier := by
  constructor
  · rintro ⟨n, f₀, hn, hk⟩
    obtain ⟨he, hfirst⟩ := (h.knownAs_iff hlen.2 hnul hn).mp hk
    refine ⟨he, fun m f₁ hm => ?_⟩
    obtain ⟨hmn, rfl⟩ := Prod.mk.inj (Except.ok.inj (hn.symm.trans hm))
    obtain rfl := Option.some.inj hmn
    exact hfirst
  · rintro ⟨he, hfirst⟩
    obtain ⟨_, n, f₀, _, hn, _, _⟩ := homekitStorageAddPairing_stored h.stored
    exact ⟨n, f₀, hn, (h.knownAs_iff hlen.2 hnul hn).mpr ⟨he, hfirst n f₀ hn⟩⟩

section Bench

/-! The bench with other bytes in its heap. -/

def littered (b : UInt8) : Platform := { bench with env := { bench.env with heap := fun _ _ => b } }

def litteredBoot (b : UInt8) : World (littered b) :=
  serverBoot (ascii "AA:BB:CC:DD:EE:FF") { p := benchKey 1, k := [] } (some (ascii "111-11-111")) (benchFlash []) ()
    (fun _ => rawClient (littered b) ()) (fun _ => { srp := cryptoSrpNew, publicKey := [], client := none })

def setupPost (b : UInt8) (message : List Tlv) : List (Action (littered b)) :=
  [.event 0 .messageBegin, .event 0 (.url .post (ascii "/pair-setup") []), .event 0 (.body (tlvFormat message)),
    .event 0 .messageComplete]

/-- A controller that has proved the setup code. -/
def provenController (b : UInt8) : List (Action (littered b)) :=
  .accept (rawClient (littered b) ()) :: (setupPost b [stateTlv 1] ++
    setupPost b [stateTlv 3, { type := TLVType.publicKey, value := [1] },
      { type := TLVType.proof, value := ascii "111-11-111" }])

def identifierM5 (identifier : Bytes) : List Tlv :=
  [stateTlv 5, sealed 9
    [{ type := TLVType.identifier, value := identifier }, { type := TLVType.publicKey, value := (benchKey 3).1 },
     { type := TLVType.signature, value := signedBy 3 }]]

/-- The pairing that M5 stores, with the store it leaves. -/
def storing (w : World P) (message : List Tlv) : Option (SignedRequest × Flash) :=
  match setupRequest w message with
  | some (.store _ _ request) =>
    if cryptoEd25519Verify P.crypto request.key request.info request.signature = 0 then
      match setupStore w request with
      | .ok (0, f) => some (request, f)
      | _ => none
    else none
  | _ => none

theorem storing_spec (h : storing w message = some (request, f)) : StoresPairing w message request f := by
  unfold storing at h
  split at h
  · rename_i k s q hq
    split at h
    · rename_i hv
      split at h
      · rename_i g hg
        obtain ⟨rfl, rfl⟩ := Prod.mk.inj (Option.some.inj h)
        exact ⟨⟨k, s, hq⟩, hv, hg⟩
      · simp at h
    · simp at h
  · simp at h

/-- The M5 with this identifier is stored in the first slot. -/
def storesFirst (identifier : Bytes) (w : World P) : Bool :=
  (storing w (identifierM5 identifier)).any (fun p => p.1.identifier == identifier) &&
    match findBlock P.env.flash w.flash with
    | .ok (some 0, _) => true
    | _ => false

/-- The run of a controller with this identifier up to its M5. -/
def setupPasses (b : UInt8) (identifier : Bytes) : Bool :=
  match Runs.run step (litteredBoot b) (provenController b) with
  | .ok w => storesFirst identifier w
  | .error _ => false

theorem setupPasses_spec {b : UInt8} {identifier : Bytes} (h : setupPasses b identifier = true) :
    ∃ w request f, Runs.run step (litteredBoot b) (provenController b) = .ok w ∧
      StoresPairing w (identifierM5 identifier) request f ∧ request.identifier = identifier ∧
      FirstOfItsName w identifier := by
  unfold setupPasses at h
  split at h
  · rename_i w hw
    simp only [storesFirst, Bool.and_eq_true, Option.any_eq_true] at h
    obtain ⟨⟨⟨request, f⟩, hs, hi⟩, hb⟩ := h
    refine ⟨w, request, f, hw, storing_spec hs, by simpa using hi, fun n f₀ hn i hlt => ?_⟩
    split at hb
    · rename_i f₁ hf
      obtain ⟨hz, _⟩ := Prod.mk.inj (Except.ok.inj (hf.symm.trans hn))
      obtain rfl := Option.some.inj hz
      exact absurd hlt (Nat.not_lt_zero i)
    · simp at hb
  · simp at h

theorem full_identifier_run : setupPasses 65 (benchId 3) = true := by decide +kernel

theorem short_identifier_run : setupPasses 65 [3] = true := by decide +kernel

/-- An identifier of 36 bytes is kept whatever lies behind it. -/
theorem identifierKept_full : ∃ w request f,
    Runs.run step (litteredBoot 65) (provenController 65) = .ok w ∧
      StoresPairing w (identifierM5 (benchId 3)) request f ∧ IdentifierKept w f request := by
  obtain ⟨w, request, f, hw, hs, hi, hfirst⟩ := setupPasses_spec full_identifier_run
  refine ⟨w, request, f, hw, hs, (identifierKept_iff hs ?_ ?_).mpr ⟨Or.inl ?_, hi ▸ hfirst⟩⟩
  · rw [hi]
    decide
  · rw [hi]
    decide
  · rw [hi]
    rfl

/-- A shorter one runs on into the heap. -/
theorem short_identifier_lost : ∃ w request f,
    Runs.run step (litteredBoot 65) (provenController 65) = .ok w ∧
      StoresPairing w (identifierM5 [3]) request f ∧ request.identifier = [3] ∧
      ¬ IdentifierKept w f request := by
  obtain ⟨w, request, f, hw, hs, hi, _⟩ := setupPasses_spec short_identifier_run
  refine ⟨w, request, f, hw, hs, hi, ?_⟩
  rintro ⟨n, f₀, hn, hk⟩
  obtain ⟨he, _⟩ := (hs.knownAs_iff (hi ▸ by decide) (hi ▸ by decide) hn).mp hk
  rw [hi] at he
  rcases he with he | he
  · simp [deviceIdSize] at he
  · change (65 : UInt8) = 0 at he
    simp at he

end Bench

end ArduinoHomeKit
