import ArduinoHomeKit.Compaction

/-! homekit_server_init: the identity of the accessory comes from the store, or is made anew
and stored. -/

namespace ArduinoHomeKit

open CString SlotStore

/-- What homekit_random_fill delivers, and the key that wc_ed25519_make_key leaves behind. -/
structure Entropy where
  random : Bytes
  key : Ed25519Key
  random_length : random.length = 6
  key_length : key.k.length = 32

/-- The fields of homekit_server_config_t that homekit_server_init checks. -/
structure ServerConfig where
  hasAccessories : Bool
  password : Option Bytes
  hasPasswordCallback : Bool
  setupId : Option Bytes

def strlen (s : Bytes) : Nat := (s.takeWhile (fun b => b != 0)).length

def isdigit (c : UInt8) : Bool := 48 ≤ c && c ≤ 57

def isBase36 (c : UInt8) : Bool := isdigit c || 65 ≤ c && c ≤ 90

def validPassword (p : Bytes) : Bool :=
  strlen p == 10 && isdigit (p.getD 0 0) && isdigit (p.getD 1 0) && isdigit (p.getD 2 0) && p.getD 3 0 == 45 &&
    isdigit (p.getD 4 0) && isdigit (p.getD 5 0) && p.getD 6 0 == 45 && isdigit (p.getD 7 0) &&
    isdigit (p.getD 8 0) && isdigit (p.getD 9 0)

def validSetupId (p : Bytes) : Bool :=
  strlen p == 4 && isBase36 (p.getD 0 0) && isBase36 (p.getD 1 0) && isBase36 (p.getD 2 0) && isBase36 (p.getD 3 0)

def ServerConfig.isValid (config : ServerConfig) : Bool :=
  config.hasAccessories && (config.password.isSome || config.hasPasswordCallback) &&
    config.password.all validPassword && config.setupId.all validSetupId

def toupper (c : UInt8) : UInt8 := if 97 ≤ c ∧ c ≤ 122 then c - 32 else c

def ishex (c : UInt8) : Bool := isdigit (toupper c) || 65 ≤ toupper c && toupper c ≤ 70

/-- The loop over the characters of the accessory id, from character `i` on. -/
def checkAccessoryId : Nat → Bytes → Int
  | _, [] => 0
  | i, c :: data =>
    if i % 3 = 2 then if c ≠ 58 then -3 else checkAccessoryId (i + 1) data
    else if ishex c = false then -4 else checkAccessoryId (i + 1) data

/-- The digit that %X prints. -/
def hexDigit (n : Nat) : UInt8 := UInt8.ofNat (if n < 10 then 48 + n else 55 + n)

/-- One "%02X". -/
def hexByte (b : UInt8) : Bytes := [hexDigit (b.toNat / 16), hexDigit (b.toNat % 16)]

def homekitAccessoryIdGenerate (buf : Bytes) : Bytes :=
  hexByte (buf.getD 0 0) ++ 58 :: hexByte (buf.getD 1 0) ++ 58 :: hexByte (buf.getD 2 0) ++ 58 ::
    hexByte (buf.getD 3 0) ++ 58 :: hexByte (buf.getD 4 0) ++ 58 :: hexByte (buf.getD 5 0)

/-- The 64 bytes of `k`: the private half and a copy of the public key. -/
def cryptoEd25519ExportKey (key : Ed25519Key) : Bytes := key.k ++ key.p.1

def cryptoEd25519ImportKey (wc : WolfCrypt) (data : Bytes) : Option Ed25519Key :=
  (cryptoEd25519ImportPublicKey wc ((data.drop 32).take 32)).map (fun key => { key with k := data.take 32 })

section Storage

variable (wc : WolfCrypt) (chip : FlashChip)

def homekitStorageSaveAccessoryId (f : Flash) (accessoryId : Bytes) : Flash :=
  (spiflashWrite chip f (accessoryIdAddr chip) (accessoryId.take accessoryIdSize)).2

def homekitStorageLoadAccessoryId (f : Flash) : Except Int Bytes :=
  let data := Nor.read f.mem (accessoryIdAddr chip) accessoryIdSize
  if data.getD 0 0 = 0 then .error (-2)
  else if checkAccessoryId 0 data ≠ 0 then .error (checkAccessoryId 0 data)
  else .ok data

def homekitStorageSaveAccessoryKey (f : Flash) (key : Ed25519Key) : Flash :=
  (spiflashWrite chip f (accessoryKeyAddr chip) (cryptoEd25519ExportKey key)).2

def homekitStorageLoadAccessoryKey (f : Flash) : Except Int Ed25519Key :=
  match cryptoEd25519ImportKey wc (Nor.read f.mem (accessoryKeyAddr chip) accessoryKeySize) with
  | none => .error (-2)
  | some key => .ok key

def loadIdentity (f : Flash) : Except Int (Bytes × Ed25519Key) :=
  match homekitStorageLoadAccessoryId chip f with
  | .error r => .error r
  | .ok accessoryId =>
    match homekitStorageLoadAccessoryKey wc chip f with
    | .error r => .error r
    | .ok accessoryKey => .ok (accessoryId, accessoryKey)

/-- A new id and a new key are stored. -/
def renewIdentity (e : Entropy) (f : Flash) : (Bytes × Ed25519Key) × Flash :=
  let accessoryId := homekitAccessoryIdGenerate e.random
  ((accessoryId, e.key),
    homekitStorageSaveAccessoryKey chip (homekitStorageSaveAccessoryId chip f accessoryId) e.key)

/-- The part of homekit_server_init between homekit_storage_init and the pairings. -/
def bootStorage (e : Entropy) (f : Flash) : (Bytes × Ed25519Key) × Flash :=
  match homekitStorageInit chip f with
  | (r, f) =>
    match (if r = 0 then loadIdentity wc chip f else .error r) with
    | .ok identity => (identity, f)
    | .error r => renewIdentity chip e (if r < 0 then (homekitStorageReset chip f).2 else f)

end Storage

/-- With an invalid configuration no server is started. -/
def homekitServerInit {P : Platform} (config : ServerConfig) (e : Entropy) (flash : Flash) (app : P.App)
    (clients : ClientId → Client P) (contexts : ContextId → PairingContext) : Option (World P) :=
  if config.isValid = false then none
  else
    match bootStorage P.crypto P.env.flash e flash with
    | ((accessoryId, accessoryKey), flash) =>
      some (serverBoot accessoryId accessoryKey config.password flash app clients contexts)

def IsHexDigit (c : UInt8) : Prop := 48 ≤ c ∧ c ≤ 57 ∨ 65 ≤ c ∧ c ≤ 70 ∨ 97 ≤ c ∧ c ≤ 102

instance (c : UInt8) : Decidable (IsHexDigit c) := inferInstanceAs (Decidable (_ ∨ _ ∨ _))

/-- XX:XX:XX:XX:XX:XX -/
def AccessoryIdForm (id : Bytes) : Prop :=
  id.length = 17 ∧ ∀ i (h : i < id.length), if i % 3 = 2 then id[i] = 58 else IsHexDigit id[i]

variable {wc : WolfCrypt} {chip : FlashChip} {f f' : Flash} {e : Entropy} {identity : Bytes × Ed25519Key}

theorem ishex_iff (c : UInt8) : ishex c = true ↔ IsHexDigit c := by
  have hsub : 97 ≤ c → (c - 32).toNat = c.toNat - 32 := fun h => by
    rw [UInt8.toNat_sub_of_le]
    · rfl
    · rw [UInt8.le_iff_toNat_le] at *
      exact Nat.le_trans (by decide) h
  simp only [ishex, isdigit, IsHexDigit, Bool.or_eq_true, Bool.and_eq_true, decide_eq_true_eq]
  rw [toupper]
  split
  · rename_i h
    have hs := hsub h.1
    simp only [UInt8.le_iff_toNat_le, hs, UInt8.reduceToNat] at *
    omega
  · rename_i h
    simp only [UInt8.le_iff_toNat_le, UInt8.reduceToNat] at *
    omega

theorem ishex_hexDigit {n : Nat} (h : n < 16) : ishex (hexDigit n) = true := by
  revert n
  decide

/-- The check accepts exactly the digits and colons in their places. -/
theorem checkAccessoryId_eq_zero {i : Nat} {data : Bytes} :
    checkAccessoryId i data = 0 ↔
      ∀ j (h : j < data.length), if (i + j) % 3 = 2 then data[j] = 58 else IsHexDigit data[j] := by
  induction data generalizing i with
  | nil => simp [checkAccessoryId]
  | cons c data ih =>
    have hsplit : (∀ j (h : j < (c :: data).length),
        if (i + j) % 3 = 2 then (c :: data)[j] = 58 else IsHexDigit (c :: data)[j]) ↔
        (if i % 3 = 2 then c = 58 else IsHexDigit c) ∧
          ∀ j (h : j < data.length), if (i + 1 + j) % 3 = 2 then data[j] = 58 else IsHexDigit data[j] := by
      constructor
      · intro h
        refine ⟨h 0 (Nat.zero_lt_succ _), fun j hj => ?_⟩
        have := h (j + 1) (Nat.succ_lt_succ hj)
        rwa [show i + (j + 1) = i + 1 + j by omega] at this
      · rintro ⟨h0, h⟩ j hj
        cases j with
        | zero => exact h0
        | succ j =>
          have := h j (Nat.lt_of_succ_lt_succ hj)
          rwa [show i + 1 + j = i + (j + 1) by omega] at this
    rw [hsplit, ← ih, checkAccessoryId, ← ishex_iff]
    split
    · by_cases hc : c = 58 <;> simp [hc]
    · by_cases hc : ishex c = true <;> simp [hc]

theorem checkAccessoryId_nonpos (i : Nat) (data : Bytes) : checkAccessoryId i data ≤ 0 := by
  induction data generalizing i with
  | nil => exact Int.le_refl 0
  | cons c data ih =>
    rw [checkAccessoryId]
    split_ifs
    · decide
    · exact ih (i + 1)
    · decide
    · exact ih (i + 1)

theorem length_homekitAccessoryIdGenerate (buf : Bytes) : (homekitAccessoryIdGenerate buf).length = 17 := rfl

/-- The generator and the check agree. -/
theorem homekitAccessoryIdGenerate_form (buf : Bytes) : AccessoryIdForm (homekitAccessoryIdGenerate buf) := by
  have hhi : ∀ b : UInt8, ishex (hexDigit (b.toNat / 16)) = true := fun b =>
    ishex_hexDigit (by have := b.toNat_lt; omega)
  have hlo : ∀ b : UInt8, ishex (hexDigit (b.toNat % 16)) = true := fun b =>
    ishex_hexDigit (Nat.mod_lt _ (by decide))
  have hcheck : checkAccessoryId 0 (homekitAccessoryIdGenerate buf) = 0 := by
    simp [homekitAccessoryIdGenerate, hexByte, checkAccessoryId, hhi, hlo]
  refine ⟨rfl, fun i h => ?_⟩
  simpa only [Nat.zero_add] using checkAccessoryId_eq_zero.mp hcheck i h

/-- Whatever loads has the form of an id. -/
theorem homekitStorageLoadAccessoryId_ok {id : Bytes} :
    homekitStorageLoadAccessoryId chip f = .ok id ↔
      Nor.read f.mem (accessoryIdAddr chip) accessoryIdSize = id ∧ AccessoryIdForm id := by
  have hlen := Nor.length_read f.mem (accessoryIdAddr chip) accessoryIdSize
  unfold homekitStorageLoadAccessoryId
  set data := Nor.read f.mem (accessoryIdAddr chip) accessoryIdSize
  have hform : AccessoryIdForm data ↔ checkAccessoryId 0 data = 0 := by
    rw [checkAccessoryId_eq_zero]
    simp only [Nat.zero_add]
    exact and_iff_right hlen
  by_cases hz : data.getD 0 0 = 0
  · -- no digit is a zero byte
    simp only [hz, if_true, reduceCtorEq, false_iff, not_and]
    rintro rfl hf
    have hpos : 0 < data.length := by rw [hlen]; decide
    have hd : data.getD 0 0 = data[0] := by simp [hpos]
    have h0 : IsHexDigit data[0] := hf.2 0 hpos
    rw [← hd, hz] at h0
    exact absurd h0 (by decide)
  · simp only [hz, if_false]
    by_cases hc : checkAccessoryId 0 data = 0
    · simp only [hc, ne_eq, not_true_eq_false, if_false, Except.ok.injEq]
      constructor
      · rintro rfl
        exact ⟨rfl, hform.mpr hc⟩
      · exact fun h => h.1
    · simp only [hc, ne_eq, not_false_eq_true, if_true, reduceCtorEq, false_iff, not_and]
      rintro rfl hf
      exact hc (hform.mp hf)

theorem homekitStorageLoadAccessoryKey_ok {key : Ed25519Key}
    (h : Nor.read f.mem (accessoryKeyAddr chip) accessoryKeySize = cryptoEd25519ExportKey key)
    (hlen : key.k.length = 32) : homekitStorageLoadAccessoryKey wc chip f = .ok key := by
  obtain ⟨p, k⟩ := key
  have hp : ((cryptoEd25519ExportKey { p := p, k := k }).drop 32).take 32 = p.1 := by
    rw [cryptoEd25519ExportKey, List.drop_left' hlen, List.take_of_length_le (Nat.le_of_eq p.2)]
  have hk : (cryptoEd25519ExportKey { p := p, k := k }).take 32 = k := List.take_left' hlen
  simp only [homekitStorageLoadAccessoryKey, cryptoEd25519ImportKey, h, hp, hk, cryptoEd25519ImportPublicKey_32,
    Option.map_some]

/-- Every key area holds a key. -/
theorem homekitStorageLoadAccessoryKey_succeeds (wc : WolfCrypt) (chip : FlashChip) (f : Flash) :
    ∃ key, homekitStorageLoadAccessoryKey wc chip f = .ok key := by
  have hlen : ((Nor.read f.mem (accessoryKeyAddr chip) accessoryKeySize).drop 32 |>.take 32).length = 32 := by
    simp [accessoryKeySize]
  have himp := cryptoEd25519ImportPublicKey_32 wc ⟨_, hlen⟩
  simp only at himp
  simp only [homekitStorageLoadAccessoryKey, cryptoEd25519ImportKey, himp, Option.map_some]
  exact ⟨_, rfl⟩

/-- An identity that does not load makes the boot reset the sector. -/
theorem loadIdentity_error {r : Int} (h : loadIdentity wc chip f = .error r) : r < 0 := by
  obtain ⟨key, hkey⟩ := homekitStorageLoadAccessoryKey_succeeds wc chip f
  simp only [loadIdentity, hkey] at h
  split at h
  · rename_i r' hid
    obtain rfl := Except.error.inj h
    unfold homekitStorageLoadAccessoryId at hid
    have hle := checkAccessoryId_nonpos 0 (Nor.read f.mem (accessoryIdAddr chip) accessoryIdSize)
    dsimp only at hid
    split_ifs at hid with hz hc
    · exact Except.error.inj hid ▸ (by decide)
    · have hr := Except.error.inj hid
      omega
  · simp at h

/-- The store of a running accessory: it is formatted and its identity loads. -/
structure Running (wc : WolfCrypt) (chip : FlashChip) (f : Flash) (identity : Bytes × Ed25519Key) : Prop where
  magic : strncmp 4 (Nor.read f.mem (magicAddr chip) 4) magic1 = 0
  identity : loadIdentity wc chip f = .ok identity

theorem Running.form (h : Running wc chip f identity) : AccessoryIdForm identity.1 := by
  have hid := h.identity
  unfold loadIdentity at hid
  cases hl : homekitStorageLoadAccessoryId chip f with
  | error r => simp [hl] at hid
  | ok id =>
    simp only [hl] at hid
    split at hid
    · simp at hid
    · obtain rfl := Except.ok.inj hid
      exact (homekitStorageLoadAccessoryId_ok.mp hl).2

/-- A boot from the store of a running accessory only reads it. -/
theorem Running.bootStorage (h : Running wc chip f identity) (e : Entropy) :
    bootStorage wc chip e f = (identity, f) := by
  rw [ArduinoHomeKit.bootStorage, homekitStorageInit_valid h.magic]
  simp only [if_true, h.identity]

section Succeeding

variable (hf : ∀ n, chip.succeeds n = true)
include hf

/-- A new identity is stored whole in a formatted sector. -/
theorem renewIdentity_running {m : Nor.Memory} (e : Entropy) (h : f.mem = formattedMem chip m) :
    Running wc chip (renewIdentity chip e f).2 (renewIdentity chip e f).1 := by
  set id := homekitAccessoryIdGenerate e.random with hid
  have hidlen : id.length = accessoryIdSize := length_homekitAccessoryIdGenerate e.random
  have hkeylen : (cryptoEd25519ExportKey e.key).length = accessoryKeySize := by
    rw [cryptoEd25519ExportKey, List.length_append, e.key_length, e.key.p.2, accessoryKeySize]
  have hblank : ∀ a, storageBaseAddr chip + 4 ≤ a → a < storageBaseAddr chip + spiFlashSectorSize → f.mem a = 0xFF :=
    fun a hlo hhi => by rw [h, formattedMem_blank hlo hhi]
  obtain ⟨g, hg⟩ := spiflashWrite_succeeds hf f (accessoryIdAddr chip) (id.take accessoryIdSize)
  obtain ⟨g', hg'⟩ := spiflashWrite_succeeds hf g (accessoryKeyAddr chip) (cryptoEd25519ExportKey e.key)
  have hrenew : renewIdentity chip e f = ((id, e.key), g') := by
    simp only [renewIdentity, homekitStorageSaveAccessoryId, homekitStorageSaveAccessoryKey, ← hid, hg, hg']
  have hmem := spiflashWrite_true hg
  have hmem' := spiflashWrite_true hg'
  rw [List.take_of_length_le (Nat.le_of_eq hidlen)] at hmem
  simp only [accessoryIdSize] at hidlen
  simp only [accessoryKeySize] at hkeylen
  have hmagic : Nor.read g'.mem (magicAddr chip) 4 = magic1 := by
    rw [hmem', Nor.read_program_disjoint, hmem, Nor.read_program_disjoint, h]
    · exact (formattedMem_formatted m 0).magic
    · left
      simp only [magicAddr, accessoryIdAddr, accessoryIdOffset]
      omega
    · left
      simp only [magicAddr, accessoryKeyAddr, accessoryKeyOffset]
      omega
  have hidread : Nor.read g'.mem (accessoryIdAddr chip) accessoryIdSize = id := by
    rw [hmem', Nor.read_program_disjoint, hmem]
    · have hb : Nor.read (Nor.program f.mem (accessoryIdAddr chip) id) (accessoryIdAddr chip) id.length = id := by
        refine Nor.read_program_blank (fun i hi => hblank _ ?_ ?_)
        · simp only [accessoryIdAddr, accessoryIdOffset]
          omega
        · simp only [accessoryIdAddr, accessoryIdOffset, spiFlashSectorSize]
          omega
      rwa [hidlen] at hb
    · left
      simp only [accessoryIdAddr, accessoryIdOffset, accessoryKeyAddr, accessoryKeyOffset, accessoryIdSize]
      omega
  have hkeyread : Nor.read g'.mem (accessoryKeyAddr chip) accessoryKeySize = cryptoEd25519ExportKey e.key := by
    have hb : Nor.read (Nor.program g.mem (accessoryKeyAddr chip) (cryptoEd25519ExportKey e.key))
        (accessoryKeyAddr chip) (cryptoEd25519ExportKey e.key).length = cryptoEd25519ExportKey e.key := by
      refine Nor.read_program_blank (fun i hi => ?_)
      rw [hmem, Nor.program_outside, hblank]
      · simp only [accessoryKeyAddr, accessoryKeyOffset]
        omega
      · simp only [accessoryKeyAddr, accessoryKeyOffset, spiFlashSectorSize]
        omega
      · right
        simp only [accessoryKeyAddr, accessoryKeyOffset, accessoryIdAddr, accessoryIdOffset]
        omega
    rw [hmem']
    rwa [hkeylen] at hb
  rw [hrenew]
  refine ⟨by rw [hmagic]; decide, ?_⟩
  have hload := homekitStorageLoadAccessoryId_ok.mpr ⟨hidread, homekitAccessoryIdGenerate_form e.random⟩
  simp only [loadIdentity, hload, homekitStorageLoadAccessoryKey_ok hkeyread e.key_length]

theorem bootStorage_running (wc : WolfCrypt) (e : Entropy) (f : Flash) :
    Running wc chip (bootStorage wc chip e f).2 (bootStorage wc chip e f).1 := by
  by_cases hm : strncmp 4 (Nor.read f.mem (magicAddr chip) 4) magic1 = 0
  · rw [bootStorage, homekitStorageInit_valid hm]
    simp only [if_true]
    cases hl : loadIdentity wc chip f with
    | ok identity => exact ⟨hm, hl⟩
    | error r =>
      have hr := loadIdentity_error hl
      simp only [hr, if_true, homekitStorageReset_eq hf]
      exact renewIdentity_running hf e rfl
  · rw [bootStorage, homekitStorageInit_formats hf hm]
    exact renewIdentity_running hf e rfl

/-- The second boot reads what the first one left and changes nothing. -/
theorem bootStorage_idempotent (wc : WolfCrypt) (e e' : Entropy) (f : Flash) :
    bootStorage wc chip e' (bootStorage wc chip e f).2 = bootStorage wc chip e f :=
  (bootStorage_running hf wc e f).bootStorage e'

end Succeeding

section Server

variable {P : Platform} {config : ServerConfig} {flash : Flash} {app : P.App} {clients : ClientId → Client P}
  {contexts : ContextId → PairingContext} {w : World P}

theorem homekitServerInit_valid (h : config.isValid = true) (e : Entropy) :
    homekitServerInit config e flash app clients contexts =
      some (serverBoot (bootStorage P.crypto P.env.flash e flash).1.1 (bootStorage P.crypto P.env.flash e flash).1.2
        config.password (bootStorage P.crypto P.env.flash e flash).2 app clients contexts) := by
  simp only [homekitServerInit, h, Bool.true_eq_false, if_false]

/-- The store and the identity of a server that was started. -/
theorem homekitServerInit_some {e : Entropy} (h : homekitServerInit config e flash app clients contexts = some w) :
    config.isValid = true ∧ w.flash = (bootStorage P.crypto P.env.flash e flash).2 ∧
      (w.accessoryId, w.accessoryKey) = (bootStorage P.crypto P.env.flash e flash).1 ∧
      w.paired = homekitIsPaired P.crypto P.env.flash w.flash := by
  cases hv : config.isValid with
  | false => simp [homekitServerInit, hv] at h
  | true =>
    rw [homekitServerInit_valid hv] at h
    obtain rfl := Option.some.inj h
    exact ⟨rfl, rfl, rfl, rfl⟩

/-- Boot is idempotent. -/
theorem homekitServerInit_idempotent (e e' : Entropy) (hf : ∀ n, P.env.flash.succeeds n = true)
    (h : homekitServerInit config e flash app clients contexts = some w) :
    AccessoryIdForm w.accessoryId ∧
      ∃ w', homekitServerInit config e' w.flash app clients contexts = some w' ∧
        w'.flash = w.flash ∧ w'.accessoryId = w.accessoryId ∧ w'.accessoryKey = w.accessoryKey ∧
        iteratedPairings P.crypto P.env.flash w'.flash = iteratedPairings P.crypto P.env.flash w.flash ∧
        w'.paired = w.paired := by
  obtain ⟨hvalid, hflash, hid, hpaired⟩ := homekitServerInit_some h
  have hrun := bootStorage_running hf P.crypto e flash
  rw [← hflash, ← hid] at hrun
  refine ⟨hrun.form, _, homekitServerInit_valid hvalid e', ?_⟩
  rw [hrun.bootStorage e']
  exact ⟨rfl, rfl, rfl, rfl, hpaired.symm⟩

end Server

def benchEntropy (n : UInt8) : Entropy where
  random := List.replicate 6 n
  key := { p := benchKey n, k := List.replicate 32 n }
  random_length := List.length_replicate ..
  key_length := (benchKey n).2

def benchConfig : ServerConfig where
  hasAccessories := true
  password := some (ascii "111-11-111")
  hasPasswordCallback := false
  setupId := none

def benchContext (_ : ContextId) : PairingContext := { srp := cryptoSrpNew, publicKey := [], client := none }

def zeroFlash : Flash := { mem := fun _ => 0, ops := 0 }

/-- A server that starts on a sector of zeros. -/
theorem homekitServerInit_idempotent_zeros :
    ∃ w : World bench, homekitServerInit benchConfig (benchEntropy 171) zeroFlash () (fun _ => benchClient) benchContext =
        some w ∧ AccessoryIdForm w.accessoryId ∧
      ∃ w', homekitServerInit benchConfig (benchEntropy 7) w.flash () (fun _ => benchClient) benchContext = some w' ∧
        w'.flash = w.flash ∧ w'.accessoryId = w.accessoryId ∧ w'.accessoryKey = w.accessoryKey ∧
        iteratedPairings bench.crypto bench.env.flash w'.flash = iteratedPairings bench.crypto bench.env.flash w.flash ∧
        w'.paired = w.paired := by
  have h : homekitServerInit (P := bench) benchConfig (benchEntropy 171) zeroFlash () (fun _ => benchClient)
    benchContext = _ := homekitServerInit_valid (by decide) (benchEntropy 171)
  exact ⟨_, h, homekitServerInit_idempotent (benchEntropy 171) (benchEntropy 7) (fun _ => rfl) h⟩

end ArduinoHomeKit
