import ArduinoHomeKit.Server
import ArduinoHomeKit.EventQueue
import ArduinoHomeKit.Library.CString

/-! The accessory database of accessories.c: values, lookups and the notification
callbacks of the characteristics, with the event queues that the callbacks fill. -/

namespace ArduinoHomeKit

abbrev AccessoryId := Nat
abbrev ServiceId := Nat
abbrev CharacteristicId := Nat

inductive Format
  | bool
  | uint8
  | uint16
  | uint32
  | uint64
  | int
  | float
  | string
  | tlv
  | data
  deriving DecidableEq

inductive Units
  | none
  | celsius
  | percentage
  | arcdegrees
  | lux
  | seconds
  deriving DecidableEq

namespace Permissions
def pairedRead : Nat := 1
def pairedWrite : Nat := 2
def notify : Nat := 4
def additionalAuthorization : Nat := 8
def timedWrite : Nat := 16
def hidden : Nat := 32
end Permissions

/-- Whether a flag of an enumeration of flags is set. -/
def hasFlag (flags flag : Nat) : Bool := flags &&& flag != 0

/-- Who keeps a block of memory: the one value that points to it, the application for
good, or the request being handled. What is found in a freed block is anything. -/
inductive Lifetime
  | owned
  | static
  | request
  | freed
  deriving DecidableEq

inductive Pointer (α : Type)
  | null
  | block (life : Lifetime) (content : α)
  deriving DecidableEq

/-- What a dereference finds. -/
def Pointer.deref {α : Type} : Pointer α → Except Fault α
  | null => .error .nullDereference
  | block _ content => .ok content

def Pointer.isNull {α : Type} : Pointer α → Bool
  | null => true
  | block _ _ => false

/-- What free() does with the block: it takes only what malloc returned, and only once. -/
def Pointer.free {α : Type} : Pointer α → Except Fault Unit
  | null => .ok ()
  | block .owned _ => .ok ()
  | block _ _ => .error .invalidFree

/-- The union of homekit_value_t. The scalar members overlay one word of 64 bits; a float
is its bit pattern. -/
inductive Union
  | bits (word : Nat)
  | string (p : Pointer Bytes)
  | tlvValues (p : Pointer (List Tlv))
  | data (p : Pointer Bytes) (size : Nat)
  deriving DecidableEq

/-- homekit_value_t. -/
structure HomekitValue where
  isNull : Bool
  isStatic : Bool
  format : Format
  union : Union
  deriving DecidableEq

/-- The low bits of the word. A member is read under the format it was written with, and
any other reading of the union finds nothing. -/
def Union.low (width : Nat) : Union → Nat
  | bits word => word % 2 ^ width
  | _ => 0

def Union.stringValue : Union → Pointer Bytes
  | string p => p
  | _ => .null

def Union.tlvList : Union → Pointer (List Tlv)
  | tlvValues p => p
  | _ => .null

def Union.dataValue : Union → Pointer Bytes
  | data p _ => p
  | _ => .null

def Union.dataSize : Union → Nat
  | data _ size => size
  | _ => 0

namespace HomekitValue

def boolValue (v : HomekitValue) : Bool := v.union.low 8 != 0
def uint8Value (v : HomekitValue) : UInt8 := UInt8.ofNat (v.union.low 8)
def uint16Value (v : HomekitValue) : UInt16 := UInt16.ofNat (v.union.low 16)
def uint32Value (v : HomekitValue) : UInt32 := UInt32.ofNat (v.union.low 32)
def uint64Value (v : HomekitValue) : UInt64 := UInt64.ofNat (v.union.low 64)
def intValue (v : HomekitValue) : Int := (v.union.low 32 : Int).bmod (2 ^ 32)
def floatBits (v : HomekitValue) : Nat := v.union.low 32

end HomekitValue

/-- A float is NaN when its exponent is full and its fraction is not zero. -/
def isNaN (f : Nat) : Bool := f % 2 ^ 31 > 0x7f800000

/-- The operator `==` on floats: NaN equals nothing, and the two zeros are equal. -/
def floatEqual (f g : Nat) : Bool :=
  !isNaN f && !isNaN g && (f == g || (f % 2 ^ 31 == 0 && g % 2 ^ 31 == 0))

/-- The loop over two TLV lists; values are compared as strings of `size` bytes. -/
def tlvListEqual : List Tlv → List Tlv → Bool
  | [], [] => true
  | a :: as, b :: bs =>
    if a.type ≠ b.type ∨ a.value.length ≠ b.value.length then false
    else if CString.strncmp a.value.length a.value b.value ≠ 0 then false
    else tlvListEqual as bs
  | _, _ => false

def homekitValueEqual (a b : HomekitValue) : Except Fault Bool :=
  if a.isNull ≠ b.isNull then .ok false
  else if a.format ≠ b.format then .ok false
  else
    match a.format with
    | .bool => .ok (a.boolValue == b.boolValue)
    | .uint8 | .uint16 | .uint32 | .uint64 | .int => .ok (a.intValue == b.intValue)
    | .float => .ok (floatEqual a.floatBits b.floatBits)
    | .string =>
      match a.union.stringValue.deref, b.union.stringValue.deref with
      | .ok s, .ok t => .ok (CString.strdup s == CString.strdup t)
      | _, _ => .error .nullDereference
    | .tlv =>
      match a.union.tlvList, b.union.tlvList with
      | .null, .null => .ok true
      | .block _ s, .block _ t => .ok (tlvListEqual s t)
      | _, _ => .ok false
    | .data =>
      match a.union.dataValue, b.union.dataValue with
      | .null, .null => .ok true
      | .block _ s, .block _ t =>
        .ok (a.union.dataSize == b.union.dataSize &&
          s.take a.union.dataSize == t.take a.union.dataSize)
      | _, _ => .ok false

/-- The union that homekit_value_copy fills in; every integer is copied as an int. -/
def copyUnion (src : HomekitValue) : Except Fault Union :=
  match src.format with
  | .bool => .ok (.bits (src.union.low 8))
  | .uint8 | .uint16 | .uint32 | .uint64 | .int => .ok (.bits (src.union.low 32))
  | .float => .ok (.bits (src.union.low 32))
  | .string =>
    if src.isStatic then .ok (.string src.union.stringValue)
    else src.union.stringValue.deref.map (fun s => .string (.block .owned (CString.strdup s)))
  | .tlv =>
    if src.isStatic then .ok (.tlvValues src.union.tlvList)
    else src.union.tlvList.deref.map (fun l => .tlvValues (.block .owned l))
  | .data =>
    if src.isStatic then .ok (.data src.union.dataValue src.union.dataSize)
    else if src.union.dataSize = 0 then .ok (.data (.block .owned []) 0)
    else src.union.dataValue.deref.map
      (fun d => .data (.block .owned (d.take src.union.dataSize)) src.union.dataSize)

/-- The formats whose copy is marked static when the source is. -/
def Format.isPointer : Format → Bool
  | .string | .tlv | .data => true
  | _ => false

def homekitValueCopy (src : HomekitValue) : Except Fault HomekitValue :=
  if src.isNull then .ok { isNull := true, isStatic := false, format := src.format, union := .bits 0 }
  else
    (copyUnion src).map (fun u =>
      { isNull := false, isStatic := src.isStatic && src.format.isPointer, format := src.format, union := u })

def homekitValueDestruct (value : HomekitValue) : Except Fault Unit :=
  if value.isNull || value.isStatic then .ok ()
  else
    match value.format with
    | .string => value.union.stringValue.free
    | .tlv => value.union.tlvList.free
    | .data => value.union.dataValue.free
    | _ => .ok ()

/-- Only strings, lists and data are freed. -/
theorem homekitValueDestruct_scalar {v : HomekitValue} (h : v.format.isPointer = false) :
    homekitValueDestruct v = .ok () := by
  rw [homekitValueDestruct]
  split
  · rfl
  · cases hf : v.format <;> simp_all [Format.isPointer]

theorem map_eq_ok {ε α β : Type} {f : α → β} {r : Except ε α} {b : β} :
    r.map f = .ok b ↔ ∃ a, r = .ok a ∧ f a = b := by
  cases r <;> simp [Except.map]

/-- The function of a callback: the server's own, or one of the application's. -/
inductive CallbackFunction
  | clientNotifyCharacteristic
  | user (n : Nat)
  deriving DecidableEq

/-- homekit_characteristic_change_callback_t; the context of the server's is a client. -/
structure Callback where
  function : CallbackFunction
  context : Nat
  deriving DecidableEq

/-- homekit_characteristic_t. Getters and setters are functions of the application, by number. -/
structure Characteristic where
  service : ServiceId
  id : UInt32
  type : Bytes
  description : Option Bytes
  format : Format
  unit : Units
  permissions : Nat
  value : HomekitValue
  minValue : Option Nat
  maxValue : Option Nat
  minStep : Option Nat
  maxLen : Option Int
  maxDataLen : Option Int
  validValues : List UInt8
  validValuesRanges : List (UInt8 × UInt8)
  getter : Option Nat := none
  setter : Option Nat := none
  callback : List Callback
  getterEx : Option Nat
  setterEx : Option Nat
  context : Nat := 0

structure Service where
  accessory : AccessoryId
  id : UInt32
  type : Bytes
  hidden : Bool
  primary : Bool
  linked : Option (List ServiceId)
  characteristics : List CharacteristicId

structure Accessory where
  id : UInt32
  category : UInt32 := 1
  services : List ServiceId

/-- The accessories of the configuration, and the memory their pointers lead to. -/
structure Database where
  accessories : List AccessoryId
  accessory : AccessoryId → Accessory
  service : ServiceId → Service
  characteristic : CharacteristicId → Characteristic

/-- characteristic_event_t and client_event_t. -/
structure CharacteristicEvent where
  characteristic : CharacteristicId
  value : HomekitValue
  deriving DecidableEq

/-- The accessory side of the server: the database, the queue and the write in progress
of every client, and the variables `user` of the application. A client that has not
written yet has whatever the heap held for the write in progress. -/
structure AccessoryState (υ : Type) where
  database : Database
  eventQueue : ClientId → Queue CharacteristicEvent
  currentCharacteristic : ClientId → Option CharacteristicId
  currentValue : ClientId → Option HomekitValue
  user : υ
  now : Nat

/-- What the code of the application may do from a getter or a setter. -/
inductive UserCall
  | assign (ch : CharacteristicId) (value : HomekitValue)
  | notify (ch : CharacteristicId) (value : HomekitValue)

/-- The functions of the application. -/
structure Sketch (υ : Type) where
  getter : Nat → CharacteristicId → Database → υ → υ × List UserCall × HomekitValue
  setter : Nat → CharacteristicId → HomekitValue → Database → υ → υ × List UserCall
  callback : Nat → CharacteristicId → HomekitValue → Nat → υ → υ
  onResource : Option (Bytes → υ → υ × List Bytes)

namespace Database

def setCharacteristic (db : Database) (ch : CharacteristicId) (x : Characteristic) : Database :=
  { db with characteristic := Function.update db.characteristic ch x }

/-- The characteristics of an accessory, in the order of the nested loops over it. -/
def characteristicsOf (db : Database) (a : AccessoryId) : List CharacteristicId :=
  (db.accessory a).services.flatMap (fun s => (db.service s).characteristics)

def characteristics (db : Database) : List CharacteristicId := db.accessories.flatMap db.characteristicsOf

end Database

theorem setCharacteristic_self (db : Database) (ch : CharacteristicId) (x : Characteristic) :
    (db.setCharacteristic ch x).characteristic ch = x := Function.update_self ..

theorem setCharacteristic_of_ne {ch i : CharacteristicId} (h : i ≠ ch) (db : Database) (x : Characteristic) :
    (db.setCharacteristic ch x).characteristic i = db.characteristic i := Function.update_of_ne h ..

/-- Accessories with another id are skipped, and the search goes on after one with this id. -/
def homekitCharacteristicByAidAndIid (db : Database) (aid iid : UInt32) : Option CharacteristicId :=
  ((db.accessories.filter (fun a => (db.accessory a).id == aid)).flatMap db.characteristicsOf).find?
    (fun ch => (db.characteristic ch).id == iid)

/-- homekit_characteristic_add_notify_callback on the list of a characteristic. -/
def addCallback (cb : Callback) : List Callback → List Callback
  | [] => [cb]
  | c :: cs => if c = cb then c :: cs else c :: addCallback cb cs

/-- homekit_characteristic_remove_notify_callback: first at the head, then behind it. -/
def removeCallback (cb : Callback) (l : List Callback) : List Callback :=
  match l.dropWhile (fun c => c == cb) with
  | [] => []
  | c :: cs => c :: cs.filter (fun d => d != cb)

theorem removeCallback_eq (cb : Callback) (l : List Callback) :
    removeCallback cb l = l.filter (fun c => c != cb) := by
  induction l with
  | nil => rfl
  | cons c l ih =>
    by_cases hc : c = cb
    · subst hc
      simpa [removeCallback] using ih
    · simp [removeCallback, hc]

/-- A callback that is there is not added again. -/
theorem addCallback_eq (cb : Callback) (cbs : List Callback) :
    addCallback cb cbs = if cb ∈ cbs then cbs else cbs ++ [cb] := by
  induction cbs with
  | nil => rfl
  | cons a cbs ih =>
    rw [addCallback, ih]
    by_cases ha : a = cb
    · simp [ha]
    · have hne : cb ≠ a := fun h => ha h.symm
      rw [if_neg ha]
      by_cases hcb : cb ∈ cbs
      · simp [hcb]
      · simp [hcb, hne]

theorem mem_addCallback {cb d : Callback} {l : List Callback} :
    d ∈ addCallback cb l ↔ d = cb ∨ d ∈ l := by
  induction l with
  | nil => simp [addCallback]
  | cons c l ih =>
    rw [addCallback]
    split
    · rename_i hc
      subst hc
      simp
    · simp only [List.mem_cons, ih]
      tauto

namespace Database

def homekitCharacteristicAddNotifyCallback (db : Database) (ch : CharacteristicId) (cb : Callback) : Database :=
  db.setCharacteristic ch
    { db.characteristic ch with callback := addCallback cb (db.characteristic ch).callback }

def homekitCharacteristicRemoveNotifyCallback (db : Database) (ch : CharacteristicId) (cb : Callback) : Database :=
  db.setCharacteristic ch
    { db.characteristic ch with callback := removeCallback cb (db.characteristic ch).callback }

/-- Removes the callback from all characteristics. -/
def homekitAccessoriesClearNotifyCallbacks (db : Database) (cb : Callback) : Database :=
  db.characteristics.foldl (fun db ch => db.homekitCharacteristicRemoveNotifyCallback ch cb) db

def homekitCharacteristicHasNotifyCallback (db : Database) (ch : CharacteristicId) (cb : Callback) : Bool :=
  (db.characteristic ch).callback.any (fun c => c == cb)

end Database

/-- The callback that a subscription of the client puts on a characteristic. -/
def clientCallback (c : ClientId) : Callback :=
  { function := .clientNotifyCharacteristic, context := c }

variable {υ : Type}

/-- Whether the value is the one this client is writing. -/
def isOwnWrite (s : AccessoryState υ) (ch : CharacteristicId) (value : HomekitValue) (c : ClientId) :
    Except Fault Bool :=
  match s.currentValue c with
  | some current =>
    if s.currentCharacteristic c = some ch then homekitValueEqual current value else .ok false
  | none => .ok false

def clientNotifyCharacteristic (s : AccessoryState υ) (ch : CharacteristicId) (value : HomekitValue)
    (c : ClientId) : Except Fault (AccessoryState υ) :=
  match isOwnWrite s ch value c with
  | .error e => .error e
  | .ok true => .ok s
  | .ok false =>
    match homekitValueCopy value with
    | .error e => .error e
    | .ok copy =>
      .ok { s with
        eventQueue := Function.update s.eventQueue c
          (qPush (s.eventQueue c) { characteristic := ch, value := copy }).2 }

def runCallback (sketch : Sketch υ) (s : AccessoryState υ) (ch : CharacteristicId) (value : HomekitValue)
    (cb : Callback) : Except Fault (AccessoryState υ) :=
  match cb.function with
  | .clientNotifyCharacteristic => clientNotifyCharacteristic s ch value cb.context
  | .user n => .ok { s with user := sketch.callback n ch value cb.context s.user }

def notifyLoop (sketch : Sketch υ) (ch : CharacteristicId) (value : HomekitValue) :
    List Callback → AccessoryState υ → Except Fault (AccessoryState υ)
  | [], s => .ok s
  | cb :: cbs, s =>
    match runCallback sketch s ch value cb with
    | .error e => .error e
    | .ok s => notifyLoop sketch ch value cbs s

def homekitCharacteristicNotify (sketch : Sketch υ) (s : AccessoryState υ) (ch : CharacteristicId)
    (value : HomekitValue) : Except Fault (AccessoryState υ) :=
  notifyLoop sketch ch value (s.database.characteristic ch).callback s

def AccessoryState.setValue (s : AccessoryState υ) (ch : CharacteristicId) (value : HomekitValue) :
    AccessoryState υ :=
  { s with database := s.database.setCharacteristic ch { s.database.characteristic ch with value := value } }

def runUserCalls (sketch : Sketch υ) : List UserCall → AccessoryState υ → Except Fault (AccessoryState υ)
  | [], s => .ok s
  | .assign ch value :: calls, s => runUserCalls sketch calls (s.setValue ch value)
  | .notify ch value :: calls, s =>
    match homekitCharacteristicNotify sketch s ch value with
    | .error e => .error e
    | .ok s => runUserCalls sketch calls s

/-- ch->getter_ex(ch). -/
def callGetter (sketch : Sketch υ) (g : Nat) (ch : CharacteristicId) (s : AccessoryState υ) :
    Except Fault (AccessoryState υ × HomekitValue) :=
  let r := sketch.getter g ch s.database s.user
  (runUserCalls sketch r.2.1 { s with user := r.1 }).map (fun s => (s, r.2.2))

/-- ch->setter_ex(ch, value). -/
def callSetter (sketch : Sketch υ) (g : Nat) (ch : CharacteristicId) (value : HomekitValue)
    (s : AccessoryState υ) : Except Fault (AccessoryState υ) :=
  let r := sketch.setter g ch value s.database s.user
  runUserCalls sketch r.2 { s with user := r.1 }

/-- What a notification leaves alone: all but the queues and the application's variables. -/
structure Notified (s s' : AccessoryState υ) : Prop where
  database : s'.database = s.database
  currentCharacteristic : s'.currentCharacteristic = s.currentCharacteristic
  currentValue : s'.currentValue = s.currentValue
  now : s'.now = s.now

theorem Notified.refl (s : AccessoryState υ) : Notified s s := ⟨rfl, rfl, rfl, rfl⟩

theorem Notified.trans {s s' s'' : AccessoryState υ} (h : Notified s s') (h' : Notified s' s'') : Notified s s'' :=
  ⟨h'.database.trans h.database, h'.currentCharacteristic.trans h.currentCharacteristic,
    h'.currentValue.trans h.currentValue, h'.now.trans h.now⟩

variable {sketch : Sketch υ} {s s' : AccessoryState υ} {ch : CharacteristicId} {value : HomekitValue}

theorem clientNotifyCharacteristic_cases {c : ClientId} (h : clientNotifyCharacteristic s ch value c = .ok s') :
    (isOwnWrite s ch value c = .ok true ∧ s' = s) ∨
    (isOwnWrite s ch value c = .ok false ∧ ∃ copy, homekitValueCopy value = .ok copy ∧
      s' = { s with
        eventQueue := Function.update s.eventQueue c
          (qPush (s.eventQueue c) { characteristic := ch, value := copy }).2 }) := by
  rw [clientNotifyCharacteristic] at h
  cases ho : isOwnWrite s ch value c with
  | error e => simp [ho] at h
  | ok own =>
    cases own with
    | true =>
      simp only [ho, Except.ok.injEq] at h
      exact .inl ⟨rfl, h.symm⟩
    | false =>
      cases hc : homekitValueCopy value with
      | error e => simp [ho, hc] at h
      | ok copy =>
        simp only [ho, hc, Except.ok.injEq] at h
        exact .inr ⟨rfl, copy, rfl, h.symm⟩

theorem runCallback_notified {cb : Callback} (h : runCallback sketch s ch value cb = .ok s') : Notified s s' := by
  rw [runCallback] at h
  cases hf : cb.function with
  | clientNotifyCharacteristic =>
    simp only [hf] at h
    rcases clientNotifyCharacteristic_cases h with ⟨_, rfl⟩ | ⟨_, copy, _, rfl⟩
    · exact .refl _
    · exact ⟨rfl, rfl, rfl, rfl⟩
  | user n =>
    simp only [hf, Except.ok.injEq] at h
    rw [← h]
    exact ⟨rfl, rfl, rfl, rfl⟩

theorem notifyLoop_notified {cbs : List Callback} (h : notifyLoop sketch ch value cbs s = .ok s') : Notified s s' := by
  induction cbs generalizing s with
  | nil =>
    simp only [notifyLoop, Except.ok.injEq] at h
    exact h ▸ .refl s
  | cons cb cbs ih =>
    rw [notifyLoop] at h
    cases hr : runCallback sketch s ch value cb with
    | error e => simp [hr] at h
    | ok s₁ =>
      simp only [hr] at h
      exact (runCallback_notified hr).trans (ih h)

theorem homekitCharacteristicNotify_notified (h : homekitCharacteristicNotify sketch s ch value = .ok s') :
    Notified s s' := notifyLoop_notified h

/-- Databases that differ in the values of their characteristics only. -/
structure SameShape (db db' : Database) : Prop where
  accessories : db'.accessories = db.accessories
  accessory : db'.accessory = db.accessory
  service : db'.service = db.service
  characteristic : ∀ ch, db'.characteristic ch =
    { db.characteristic ch with value := (db'.characteristic ch).value }

theorem SameShape.refl (db : Database) : SameShape db db := ⟨rfl, rfl, rfl, fun _ => rfl⟩

theorem SameShape.trans {db db' db'' : Database} (h : SameShape db db') (h' : SameShape db' db'') :
    SameShape db db'' where
  accessories := h'.accessories.trans h.accessories
  accessory := h'.accessory.trans h.accessory
  service := h'.service.trans h.service
  characteristic := fun ch => by rw [h'.characteristic ch, h.characteristic ch]

theorem AccessoryState.setValue_shape (s : AccessoryState υ) (ch : CharacteristicId) (value : HomekitValue) :
    SameShape s.database (s.setValue ch value).database where
  accessories := rfl
  accessory := rfl
  service := rfl
  characteristic := by
    intro i
    by_cases hi : i = ch
    · subst hi
      simp [AccessoryState.setValue, Database.setCharacteristic]
    · simp [AccessoryState.setValue, Database.setCharacteristic, hi]

theorem runUserCalls_shape {calls : List UserCall} (h : runUserCalls sketch calls s = .ok s') :
    SameShape s.database s'.database := by
  induction calls generalizing s with
  | nil =>
    simp only [runUserCalls, Except.ok.injEq] at h
    exact h ▸ .refl s.database
  | cons c calls ih =>
    cases c with
    | assign i v => exact (s.setValue_shape i v).trans (ih h)
    | notify i v =>
      rw [runUserCalls] at h
      cases hn : homekitCharacteristicNotify sketch s i v with
      | error e => simp [hn] at h
      | ok s₁ =>
        simp only [hn] at h
        rw [← (homekitCharacteristicNotify_notified hn).database]
        exact ih h

theorem callGetter_shape {g : Nat} {r : AccessoryState υ × HomekitValue} (h : callGetter sketch g ch s = .ok r) :
    SameShape s.database r.1.database := by
  rw [callGetter] at h
  cases hc : runUserCalls sketch (sketch.getter g ch s.database s.user).2.1
      { s with user := (sketch.getter g ch s.database s.user).1 } with
  | error e => simp [hc, Except.map] at h
  | ok s₁ =>
    simp only [hc, Except.map, Except.ok.injEq] at h
    have hs := runUserCalls_shape hc
    rw [← h]
    exact hs

end ArduinoHomeKit
