import ArduinoHomeKit.Library.Nor
import ArduinoHomeKit.Library.CString
import ArduinoHomeKit.Crypto

/-! The pairing store of storage.c: records of 80 bytes in one sector of NOR flash. -/

namespace ArduinoHomeKit

open CString

/-- The EEPROM sector of the board. Which erase and write operations succeed is decided
by their number. Reads always succeed. -/
structure FlashChip where
  eepromStart : Nat
  positive : 0 < eepromStart
  aligned : eepromStart % 4096 = 0
  succeeds : Nat → Bool

structure Flash where
  mem : Nor.Memory
  ops : Nat

def spiFlashSectorSize : Nat := 4096
def accessoryIdOffset : Nat := 4
def accessoryKeyOffset : Nat := 32
def pairingsOffset : Nat := 128
def maxPairings : Nat := 16
def deviceIdSize : Nat := 36
def accessoryIdSize : Nat := 17
def accessoryKeySize : Nat := 64
def sizeofPairingData : Nat := 80

def magic1 : Bytes := [72, 65, 80, 0]

/-- pairing_data_t, with the sizes of its arrays. -/
structure PairingData where
  magic : Bytes
  permissions : UInt8
  deviceId : Bytes
  devicePublicKey : Bytes32
  reserved : Bytes
  magic_length : magic.length = 4
  deviceId_length : deviceId.length = 36
  reserved_length : reserved.length = 7

def PairingData.toBytes (d : PairingData) : Bytes :=
  d.magic ++ d.permissions :: (d.deviceId ++ d.devicePublicKey.1 ++ d.reserved)

/-- The record at an address. -/
def PairingData.ofMemory (m : Nor.Memory) (addr : Nat) : PairingData where
  magic := Nor.read m addr 4
  permissions := m (addr + 4)
  deviceId := Nor.read m (addr + 5) 36
  devicePublicKey := ⟨Nor.read m (addr + 41) 32, by simp⟩
  reserved := Nor.read m (addr + 73) 7
  magic_length := by simp
  deviceId_length := by simp
  reserved_length := by simp

/-- pairing_t. The id is the slot of the record. -/
structure Pairing where
  id : Nat
  deviceId : Bytes
  deviceKey : Ed25519Key
  permissions : UInt8
  deriving DecidableEq

def pairingPermissionsAdmin : UInt8 := 1

def isAdmin (permissions : UInt8) : Bool := permissions &&& pairingPermissionsAdmin != 0

variable (wc : WolfCrypt) (chip : FlashChip)

def storageBaseAddr : Nat := chip.eepromStart
def magicAddr : Nat := storageBaseAddr chip
def accessoryIdAddr : Nat := storageBaseAddr chip + accessoryIdOffset
def accessoryKeyAddr : Nat := storageBaseAddr chip + accessoryKeyOffset
def pairingsAddr : Nat := storageBaseAddr chip + pairingsOffset
def slotAddr (i : Nat) : Nat := pairingsAddr chip + sizeofPairingData * i

def spiflashWrite (f : Flash) (addr : Nat) (data : Bytes) : Bool × Flash :=
  if chip.succeeds f.ops then (true, { mem := Nor.program f.mem addr data, ops := f.ops + 1 })
  else (false, { f with ops := f.ops + 1 })

def spiflashEraseSector (f : Flash) (addr : Nat) : Bool × Flash :=
  if chip.succeeds f.ops then
    (true, { mem := Nor.erase f.mem (addr / spiFlashSectorSize * spiFlashSectorSize) spiFlashSectorSize,
             ops := f.ops + 1 })
  else (false, { f with ops := f.ops + 1 })

def isLive (magic : Bytes) : Bool := strncmp 4 magic magic1 = 0

def homekitStorageInit (f : Flash) : Int × Flash :=
  if strncmp 4 (Nor.read f.mem (magicAddr chip) 4) magic1 ≠ 0 then
    match spiflashEraseSector chip f (storageBaseAddr chip) with
    | (false, f) => (-1, f)
    | (true, f) =>
      match spiflashWrite chip f (magicAddr chip) (strncpy 4 magic1) with
      | (false, f) => (-1, f)
      | (true, f) => (1, f)
  else (0, f)

def homekitStorageReset (f : Flash) : Int × Flash :=
  match spiflashWrite chip f (magicAddr chip) (List.replicate 4 0) with
  | (false, f) => (-1, f)
  | (true, f) => homekitStorageInit chip f

def slots : List Nat := List.range maxPairings

def readPairing (f : Flash) (i : Nat) : PairingData := PairingData.ofMemory f.mem (slotAddr chip i)

def homekitStorageCanAddPairing (f : Flash) : Bool :=
  slots.any (fun i => !isLive (readPairing chip f i).magic)

/-- The loop of compact_data over its copy of the sector. The destination index is taken
from PAIRINGS_ADDR, the flash address, so the copy may fall outside the buffer. -/
def compactLoop : List Nat → Nor.Memory → Nat → Except Fault (Nor.Memory × Nat)
  | [], data, next => .ok (data, next)
  | i :: is, data, next =>
    let pairingData := PairingData.ofMemory data (pairingsOffset + sizeofPairingData * i)
    if isLive pairingData.magic then
      if i ≠ next then
        let target := pairingsAddr chip + sizeofPairingData * next
        if target + sizeofPairingData ≤ spiFlashSectorSize then
          compactLoop is (fun a =>
            if target ≤ a ∧ a < target + sizeofPairingData then pairingData.toBytes.getD (a - target) 0
            else data a) (next + 1)
        else .error .wildWrite
      else compactLoop is data (next + 1)
    else compactLoop is data next

def compactData (f : Flash) : Except Fault (Int × Flash) :=
  match compactLoop chip slots (fun a => f.mem (storageBaseAddr chip + a)) 0 with
  | .error e => .error e
  | .ok (data, next) =>
    if next = maxPairings then .ok (0, f)
    else
      match homekitStorageReset chip f with
      | (r, f) =>
        if r ≠ 0 then .ok (-1, f)
        else
          match spiflashWrite chip f (storageBaseAddr chip)
              (Nor.read data 0 (pairingsOffset + sizeofPairingData * next)) with
          | (true, f) => .ok (0, f)
          | (false, f) => .ok (-1, f)

def findEmptyBlock (f : Flash) : Option Nat :=
  slots.find? (fun i =>
    (Nor.read f.mem (slotAddr chip i) sizeofPairingData).all (fun b => b == 0xff))

/-- The block for a new record, after a compaction if there was none. -/
def findBlock (f : Flash) : Except Fault (Option Nat × Flash) :=
  match findEmptyBlock chip f with
  | some i => .ok (some i, f)
  | none =>
    match compactData chip f with
    | .error e => .error e
    | .ok (_, f) => .ok (findEmptyBlock chip f, f)

def newPairingData (deviceId : Bytes) (deviceKey : Bytes32) (permissions : UInt8) : PairingData where
  magic := strncpy 4 magic1
  permissions := permissions
  deviceId := strncpy deviceIdSize deviceId
  devicePublicKey := deviceKey
  reserved := List.replicate 7 0
  magic_length := by simp
  deviceId_length := by simp [deviceIdSize]
  reserved_length := by simp

/-- The device id is a pointer that may be NULL. -/
def homekitStorageAddPairing (f : Flash) (deviceId : Option Bytes) (deviceKey : Ed25519Key)
    (permissions : UInt8) : Except Fault (Int × Flash) :=
  match findBlock chip f with
  | .error e => .error e
  | .ok (none, f) => .ok (-2, f)
  | .ok (some next, f) =>
    match deviceId with
    | none => .error .nullDereference
    | some deviceId =>
      match spiflashWrite chip f (slotAddr chip next)
          (newPairingData deviceId deviceKey.p permissions).toBytes with
      | (false, f) => .ok (-1, f)
      | (true, f) => .ok (0, f)

/-- The slot the scans by device id stop at. -/
def matchSlot (f : Flash) (deviceId : Bytes) : Option Nat :=
  slots.find? (fun i =>
    isLive (readPairing chip f i).magic &&
      strncmp deviceIdSize (readPairing chip f i).deviceId deviceId == 0)

def homekitStorageUpdatePairing (f : Flash) (deviceId : Bytes) (permissions : UInt8) :
    Except Fault (Int × Flash) :=
  match matchSlot chip f deviceId with
  | none => .ok (-1, f)
  | some i =>
    let data := readPairing chip f i
    match findBlock chip f with
    | .error e => .error e
    | .ok (none, f) => .ok (-2, f)
    | .ok (some next, f) =>
      match spiflashWrite chip f (slotAddr chip next) { data with permissions := permissions }.toBytes with
      | (false, f) => .ok (-1, f)
      | (true, f) =>
        match spiflashWrite chip f (slotAddr chip i) (List.replicate sizeofPairingData 0) with
        | (false, f) => .ok (-2, f)
        | (true, f) => .ok (0, f)

def homekitStorageRemovePairing (f : Flash) (deviceId : Bytes) : Int × Flash :=
  match matchSlot chip f deviceId with
  | none => (0, f)
  | some i =>
    match spiflashWrite chip f (slotAddr chip i) (List.replicate sizeofPairingData 0) with
    | (false, f) => (-2, f)
    | (true, f) => (0, f)

/-- The record of a slot as find_pairing and next_pairing hand it out. -/
def loadPairing (f : Flash) (i : Nat) : Option Pairing :=
  (cryptoEd25519ImportPublicKey wc (readPairing chip f i).devicePublicKey.1).map (fun key =>
    { id := i, deviceId := strndup (readPairing chip f i).deviceId deviceIdSize,
      deviceKey := key, permissions := (readPairing chip f i).permissions })

def homekitStorageFindPairing (f : Flash) (deviceId : Bytes) : Option Pairing :=
  (matchSlot chip f deviceId).bind (loadPairing wc chip f)

/-- The pairing the iterator reaches next, with the iterator behind it. -/
def homekitStorageNextPairing (f : Flash) : List Nat → Option (Pairing × List Nat)
  | [] => none
  | i :: it =>
    if isLive (readPairing chip f i).magic then
      match loadPairing wc chip f i with
      | some pairing => some (pairing, it)
      | none => homekitStorageNextPairing f it
    else homekitStorageNextPairing f it

/-- The loop over all pairings that stops at the first admin. -/
def adminFound (f : Flash) : Nat → List Nat → Bool
  | 0, _ => false
  | fuel + 1, it =>
    match homekitStorageNextPairing wc chip f it with
    | none => false
    | some (pairing, it) => if isAdmin pairing.permissions then true else adminFound f fuel it

def homekitIsPaired (f : Flash) : Bool := adminFound wc chip f maxPairings slots

end ArduinoHomeKit
