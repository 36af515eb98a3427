import ArduinoHomeKit.EventMessages
import ArduinoHomeKit.ItemUpdates
import ArduinoHomeKit.ValueCopies

/-! What the other clients hear of a write. The value of the item has a different owner for every
format, and each subscriber gets its own copy of it. -/

namespace ArduinoHomeKit

variable {υ : Type} {sketch : Sketch υ} {rt : Runtime} {c d : ClientId} {ch : CharacteristicId} {j value : CJson}
  {s s' : AccessoryState υ} {u v w : HomekitValue} {x : Characteristic}

/-! The value that is written. -/

/-- What the constructors of types.c make for a format: a scalar, or a pointer to something of the
request, or to a block that nobody frees. -/
inductive Built (u : Uninitialised) : Format → HomekitValue → Prop
  | scalar (format : Format) (h : format.isPointer = false) (word : Nat) : Built u format (cppValue u format (.bits word))
  | string (text : Bytes) : Built u .string (cppValue u .string (.string (.block .request text)))
  | tlv (list : List Tlv) : Built u .tlv (cppValue u .tlv (.tlvValues (.block .request list)))
  | data (bytes : Bytes) (size : Nat) : Built u .data (cppValue u .data (.data (.block .static bytes) size))
  | noData (size : Nat) : Built u .data (cppValue u .data (.data .null size))

theorem Built.format_eq {uninitialised : Uninitialised} {format : Format} (h : Built uninitialised format v) :
    v.format = format := by
  cases h <;> rfl

theorem writtenValue_built {now : Nat} (h : writtenValue rt x now j = .ok (.ok v)) : Built (rt.stack now) x.format v := by
  rw [writtenValue] at h
  dsimp only at h
  cases hf : x.format with
  | bool =>
    simp only [hf] at h
    split at h
    · simp only [Except.ok.injEq] at h
      exact h ▸ .scalar .bool rfl _
    · simp at h
  | float =>
    simp only [hf] at h
    split at h
    · simp only [Except.ok.injEq] at h
      exact h ▸ .scalar .float rfl _
    · simp at h
  | string =>
    simp only [hf] at h
    split at h
    · simp only [Except.ok.injEq] at h
      exact h ▸ .string _
    · simp at h
  | tlv =>
    simp only [hf] at h
    split at h
    · split at h
      · simp at h
      · split at h
        · simp at h
        · obtain ⟨list, _, hv⟩ := map_eq_ok.mp h
          simp only [Except.ok.injEq] at hv
          exact hv ▸ .tlv list
    · simp at h
  | data =>
    simp only [hf] at h
    split at h
    · split at h
      · simp at h
      · obtain ⟨block, _, hv⟩ := map_eq_ok.mp h
        simp only [Except.ok.injEq] at hv
        rw [← hv]
        cases block with
        | some bytes => exact .data bytes _
        | none => exact .noData _
    · simp at h
  | _ =>
    simp only [hf] at h
    split at h
    · simp only [Except.ok.injEq] at h
      exact h ▸ .scalar _ rfl _
    · simp at h

/-- What the switch leaves of a value that may point to the list of the request: for a TLV
characteristic it has freed the list before it notifies anyone. -/
def afterSwitch (rt : Runtime) (now : Nat) (format : Format) (w : HomekitValue) : HomekitValue :=
  if format = .tlv then w.freeList (rt.freedList now) else w

/-- Nothing points to memory that the request has freed or will free. -/
def HomekitValue.IsLive (v : HomekitValue) : Prop :=
  match v.union with
  | .bits _ => True
  | .string p => ∀ life text, p = .block life text → life = .owned ∨ life = .static
  | .tlvValues p => ∀ life list, p = .block life list → life = .owned ∨ life = .static
  | .data p _ => ∀ life bytes, p = .block life bytes → life = .owned ∨ life = .static

/-- The value survives its way to the subscribers: it fits into an int, nothing shares a string or
a list of the request, and the freed list still reads as it did. -/
def Survives (found : List Tlv) (v : HomekitValue) : Prop :=
  match v.format with
  | .uint64 => v.union.low 64 < 2 ^ 32
  | .string => v.isStatic = false
  | .tlv => v.isStatic = false ∧ v.union.tlvList.content = some found
  | _ => True

/-- What a subscriber should be given: a live copy of the written value, which is the value that is
stored then. -/
structure DeliversCopy (v stored e : HomekitValue) : Prop where
  live : e.IsLive
  written : SameValue e v
  stored : SameValue e stored

theorem SameValue.refl (v : HomekitValue) : SameValue v v := ⟨rfl, rfl, fun _ => rfl⟩

/-- What a characteristic without a setter holds after the write: the value itself, or a copy. -/
def StoredAs (v stored : HomekitValue) : Prop :=
  if v.format.isPointer then homekitValueCopy v = .ok stored else stored = v

theorem storeWritten_plain (hset : (s.database.characteristic ch).setterEx = none)
    (h : storeWritten sketch ch v s = .ok s') : ∃ stored, StoredAs v stored ∧ s' = s.setValue ch stored := by
  simp only [storeWritten, hset] at h
  split at h
  · rename_i hp
    split at h
    · simp at h
    · obtain ⟨copy, hcopy, rfl⟩ := map_eq_ok.mp h
      exact ⟨copy, by rwa [StoredAs, if_pos hp], rfl⟩
  · rename_i hp
    exact ⟨v, by rw [StoredAs, if_neg hp], (Except.ok.inj h).symm⟩

/-- A scalar: the copy is cut to an int. -/
theorem deliversCopy_scalar {u : Uninitialised} {format : Format} {word : Nat} {stored e : HomekitValue} {now : Nat}
    (hf : format.isPointer = false) (hn : u.isNull = false) (hs : StoredAs (cppValue u format (.bits word)) stored)
    (he : homekitValueCopy (afterSwitch rt now format (cppValue u format (.bits word))) = .ok e) :
    DeliversCopy (cppValue u format (.bits word)) (afterSwitch rt now format stored) e ↔
      Survives (rt.freedList now) (cppValue u format (.bits word)) := by
  have htlv : format ≠ .tlv := fun h => by simp [h, Format.isPointer] at hf
  have hstored : stored = cppValue u format (.bits word) := by
    rw [StoredAs, if_neg (by simpa [cppValue] using hf)] at hs
    exact hs
  have hsame : afterSwitch rt now format (cppValue u format (.bits word)) = cppValue u format (.bits word) := if_neg htlv
  rw [hsame] at he
  have hlive : e.IsLive := by
    rw [homekitValueCopy, if_neg (by simp [cppValue, hn])] at he
    obtain ⟨union, hunion, rfl⟩ := map_eq_ok.mp he
    have : ∃ n, union = .bits n := by
      cases format <;> first | (exact ⟨_, (Except.ok.inj hunion).symm⟩) | simp [Format.isPointer] at hf
    obtain ⟨n, rfl⟩ := this
    trivial
  rw [hstored, hsame]
  have hcopy := (copyRight_of_copy he).symm.trans (copyRight_iff _)
  have hsurvives : Copyable (cppValue u format (.bits word)) ↔
      Survives (rt.freedList now) (cppValue u format (.bits word)) := by
    simp only [Copyable, Survives, cppValue, hn, Bool.false_eq_true, false_or]
    cases format <;> first | exact Iff.rfl | simp [Format.isPointer] at hf
  rw [← hsurvives, ← hcopy]
  exact ⟨fun h => h.written, fun h => ⟨hlive, h, h⟩⟩

/-- A string: the copy is its own one, unless it is shared as a static one. -/
theorem deliversCopy_string {u : Uninitialised} {text : Bytes} {stored e : HomekitValue} {now : Nat} (hn : u.isNull = false)
    (hs : StoredAs (cppValue u .string (.string (.block .request text))) stored)
    (he : homekitValueCopy (afterSwitch rt now .string (cppValue u .string (.string (.block .request text)))) = .ok e) :
    DeliversCopy (cppValue u .string (.string (.block .request text))) (afterSwitch rt now .string stored) e ↔
      Survives (rt.freedList now) (cppValue u .string (.string (.block .request text))) := by
  obtain ⟨isNull, isStatic, word⟩ := u
  dsimp only at hn
  subst hn
  have hstored : stored = e := Except.ok.inj (hs.symm.trans he)
  cases isStatic with
  | true =>
    obtain rfl := Except.ok.inj he
    refine iff_of_false (fun h => ?_) (fun h => Bool.noConfusion (h : true = false))
    rcases h.live .request text rfl with hl | hl <;> simp at hl
  | false =>
    rw [hstored]
    obtain rfl := Except.ok.inj he
    refine iff_of_true ⟨?_, ⟨rfl, rfl, fun _ => ?_⟩, SameValue.refl _⟩ rfl
    · intro life text' hp
      exact Or.inl (Pointer.block.inj hp).1.symm
    · exact congrArg (fun t => Content.string (some t)) (CString.strdup_strdup text)

/-- A TLV list: it is freed before the copies for the subscribers are made. -/
theorem deliversCopy_tlv {u : Uninitialised} {list : List Tlv} {stored e : HomekitValue} {now : Nat} (hn : u.isNull = false)
    (hs : StoredAs (cppValue u .tlv (.tlvValues (.block .request list))) stored)
    (he : homekitValueCopy (afterSwitch rt now .tlv (cppValue u .tlv (.tlvValues (.block .request list)))) = .ok e) :
    DeliversCopy (cppValue u .tlv (.tlvValues (.block .request list))) (afterSwitch rt now .tlv stored) e ↔
      Survives (rt.freedList now) (cppValue u .tlv (.tlvValues (.block .request list))) := by
  obtain ⟨isNull, isStatic, word⟩ := u
  dsimp only at hn
  subst hn
  cases isStatic with
  | true =>
    obtain rfl := Except.ok.inj he
    refine iff_of_false (fun h => ?_) (fun h => Bool.noConfusion (h.1 : true = false))
    rcases h.live .freed (rt.freedList now) rfl with hl | hl <;> simp at hl
  | false =>
    obtain rfl := Except.ok.inj he
    obtain rfl := Except.ok.inj hs
    constructor
    · intro h
      have hcontent : Content.tlv (some (rt.freedList now)) = .tlv (some list) := h.written.content rfl
      exact ⟨rfl, (Content.tlv.inj hcontent).symm⟩
    · intro h
      have hlist : list = rt.freedList now := Option.some.inj h.2
      refine ⟨fun life l hp => Or.inl (Pointer.block.inj hp).1.symm, ⟨rfl, rfl, fun _ => ?_⟩, ⟨rfl, rfl, fun _ => ?_⟩⟩
      · exact congrArg (fun l => Content.tlv (some l)) hlist.symm
      · exact congrArg (fun l => Content.tlv (some l)) hlist.symm

/-- Data: the block is never freed. -/
theorem deliversCopy_data {u : Uninitialised} {p : Pointer Bytes} {size : Nat} {stored e : HomekitValue} {now : Nat}
    (hn : u.isNull = false) (hp : ∀ life bytes, p = .block life bytes → life = .static)
    (hs : StoredAs (cppValue u .data (.data p size)) stored)
    (he : homekitValueCopy (afterSwitch rt now .data (cppValue u .data (.data p size))) = .ok e) :
    DeliversCopy (cppValue u .data (.data p size)) (afterSwitch rt now .data stored) e := by
  have hstored : stored = e := Except.ok.inj (hs.symm.trans he)
  have hsame : CopyRight (cppValue u .data (.data p size)) := by
    refine (copyRight_iff _).mpr (Or.inr ?_)
    by_contra hnot
    simp only [cppValue, dataSize_data, dataValue_data, ne_eq, not_or, Bool.not_eq_true, not_not] at hnot
    obtain ⟨hst, hsize, rfl⟩ := hnot
    have herror : homekitValueCopy (cppValue u .data (.data .null size)) = .error .nullDereference := by
      rw [homekitValueCopy, if_neg (by simp [cppValue, hn])]
      simp [copyUnion, cppValue, hst, hsize, Pointer.deref, Except.map]
    cases herror.symm.trans he
  rw [hstored]
  refine ⟨?_, (copyRight_of_copy he).mp hsame, SameValue.refl _⟩
  have hcopy : homekitValueCopy (cppValue u .data (.data p size)) = .ok e := he
  rw [homekitValueCopy, if_neg (by simp [cppValue, hn])] at hcopy
  obtain ⟨union, hunion, rfl⟩ := map_eq_ok.mp hcopy
  obtain ⟨isNull, isStatic, word⟩ := u
  cases isStatic with
  | true =>
    obtain rfl := Except.ok.inj hunion
    exact fun life bytes hb => Or.inr (hp life bytes hb)
  | false =>
    have howned : (if size = 0 then .ok (.data (.block .owned []) 0)
        else p.deref.map (fun d => .data (.block .owned (d.take size)) size)) = Except.ok union := hunion
    split at howned
    · obtain rfl := Except.ok.inj howned
      exact fun life bytes hb => Or.inl (Pointer.block.inj hb).1.symm
    · obtain ⟨bytes, _, rfl⟩ := map_eq_ok.mp howned
      exact fun life bytes hb => Or.inl (Pointer.block.inj hb).1.symm

/-- Over all formats. -/
theorem deliversCopy_iff {uninitialised : Uninitialised} {format : Format} {stored e : HomekitValue} {now : Nat}
    (hb : Built uninitialised format v) (hn : v.isNull = false) (hs : StoredAs v stored)
    (he : homekitValueCopy (afterSwitch rt now format v) = .ok e) :
    DeliversCopy v (afterSwitch rt now format stored) e ↔ Survives (rt.freedList now) v := by
  cases hb with
  | scalar _ hf word => exact deliversCopy_scalar hf hn hs he
  | string text => exact deliversCopy_string hn hs he
  | tlv list => exact deliversCopy_tlv hn hs he
  | data bytes size =>
    exact iff_of_true (deliversCopy_data hn (fun _ _ h => (Pointer.block.inj h).1.symm) hs he) trivial
  | noData size => exact iff_of_true (deliversCopy_data hn (fun _ _ h => by simp at h) hs he) trivial

/-! The notification. -/

theorem tlvListEqual_self (l : List Tlv) : tlvListEqual l l = true := by
  induction l with
  | nil => rfl
  | cons t l ih =>
    have hcmp : CString.strncmp t.value.length t.value t.value = 0 := CString.strncmp_eq_zero_iff.mpr rfl
    simp [tlvListEqual, hcmp, ih]

/-- Only a NaN differs from itself. -/
theorem homekitValueEqual_self {b : Bool} (h : homekitValueEqual v v = .ok b) :
    b = true ↔ (v.format = .float → isNaN v.floatBits = false) := by
  simp only [homekitValueEqual, ne_eq, not_true_eq_false, if_false] at h
  cases hf : v.format with
  | float =>
    simp only [hf, Except.ok.injEq] at h
    rw [← h]
    simp [floatEqual]
  | string =>
    cases hp : v.union.stringValue <;> simp [hf, hp, Pointer.deref] at h
    simp [← h]
  | tlv =>
    cases hp : v.union.tlvList <;> simp [hf, hp, tlvListEqual_self] at h <;> simp [← h]
  | data =>
    cases hp : v.union.dataValue <;> simp [hf, hp] at h <;> simp [← h]
  | _ =>
    simp only [hf, Except.ok.injEq, beq_self_eq_true] at h
    simp [← h]

/-- Whether the client is taken for the writer of the value while `c` writes it. -/
def takenForWriter (s : AccessoryState υ) (c : ClientId) (ch : CharacteristicId) (w : HomekitValue) (d : ClientId) :
    Except Fault Bool :=
  if d = c then homekitValueEqual w w else isOwnWrite s ch w d

/-- What a written value brings a client, from its queue before and after. -/
inductive Hears (s : AccessoryState υ) (c : ClientId) (ch : CharacteristicId) (w : HomekitValue) (d : ClientId)
    (q q' : Queue CharacteristicEvent) : Prop
  | nothing (hsub : ¬ Subscribed s.database ch d) (hq : q' = q)
  | own (hsub : Subscribed s.database ch d) (ho : takenForWriter s c ch w d = .ok true) (hq : q' = q)
  | event (hsub : Subscribed s.database ch d) (ho : takenForWriter s c ch w d = .ok false) (e : CharacteristicEvent)
    (he : EventOf (ch, w) e) (hq : q' = pushEvents q [e])

theorem notifyWritten_hears (hn : w.isNull = false)
    (honce : (s.database.characteristic ch).callback.count (clientCallback d) ≤ 1)
    (h : notifyWritten sketch c ch w s = .ok s') : Hears s c ch w d (s.eventQueue d) (s'.eventQueue d) := by
  rw [notifyWritten, if_neg (by simp [hn])] at h
  obtain ⟨s₁, hs₁, rfl⟩ := map_eq_ok.mp h
  have hown : isOwnWrite { s with
      currentCharacteristic := Function.update s.currentCharacteristic c (some ch)
      currentValue := Function.update s.currentValue c (some w) } ch w d = takenForWriter s c ch w d := by
    rw [isOwnWrite, takenForWriter]
    by_cases hd : d = c
    · subst hd
      simp
    · simp only [Function.update_of_ne hd, if_neg hd]
      rfl
  rw [homekitCharacteristicNotify] at hs₁
  by_cases hsub : Subscribed s.database ch d
  · have hcount : (s.database.characteristic ch).callback.count (clientCallback d) = 1 := by
      have := List.count_pos_iff.mpr hsub
      omega
    rcases notifyLoop_posted hcount hs₁ with ⟨ho, hq⟩ | ⟨ho, e, he, hq⟩
    · exact .own hsub (hown ▸ ho) hq
    · exact .event hsub (hown ▸ ho) e he hq
  · have hq := notifyLoop_other hsub hs₁
    exact .nothing hsub hq

/-! The queue of a client. -/

/-- As client_context_new sets it up. -/
structure SetUp (q : Queue CharacteristicEvent) : Prop where
  recNb : q.recNb = 4
  ovw : q.ovw = true

section Queues

variable {q q' : Queue CharacteristicEvent} {e e' : CharacteristicEvent}

theorem qPush_written (hovw : q.ovw = true) (e : CharacteristicEvent) :
    (qPush q e).2.queue q.inIdx = e ∧ (qPush q e).2.inIdx = incIdx q.inIdx q.recNb 0 := by
  have hcell : Function.update q.queue q.inIdx e q.inIdx = e := Function.update_self ..
  rw [qPush, if_neg (by simp [hovw])]
  cases q.isFull with
  | false => exact ⟨hcell, rfl⟩
  | true =>
    rw [if_neg (by simp), if_pos hovw]
    cases q.impl with
    | fifo => exact ⟨hcell, rfl⟩
    | lifo => exact ⟨hcell, rfl⟩

/-- The event can be read off the queue. -/
theorem SetUp.push_injective (hq : SetUp q) (h : pushEvents q [e] = pushEvents q [e']) : e = e' := by
  have hqueue : (qPush q e).2 = (qPush q e').2 := h
  rw [← (qPush_written hq.ovw e).1, hqueue, (qPush_written hq.ovw e').1]

theorem SetUp.push_ne (hq : SetUp q) (e : CharacteristicEvent) : pushEvents q [e] ≠ q := by
  intro h
  have hqueue : (qPush q e).2 = q := h
  have hidx := (qPush_written hq.ovw e).2
  rw [hqueue, hq.recNb, incIdx] at hidx
  split at hidx <;> omega

theorem Hears.of_push (h : Hears s c ch w d q q') (hq : SetUp q) (hp : q' = pushEvents q [e]) :
    takenForWriter s c ch w d = .ok false ∧ EventOf (ch, w) e := by
  cases h with
  | nothing _ hq' => exact absurd (hp.symm.trans hq') (hq.push_ne e)
  | own _ _ hq' => exact absurd (hp.symm.trans hq') (hq.push_ne e)
  | event _ ho e' he hq' =>
    obtain rfl := hq.push_injective (hp.symm.trans hq')
    exact ⟨ho, he⟩

theorem Hears.of_silent (h : Hears s c ch w d q q') (hq : SetUp q) (hsub : Subscribed s.database ch d) (hp : q' = q) :
    takenForWriter s c ch w d = .ok true := by
  cases h with
  | nothing hs _ => exact absurd hsub hs
  | own _ ho _ => exact ho
  | event _ _ e _ hq' => exact absurd (hq'.symm.trans hp) (hq.push_ne e)

theorem Hears.push (h : Hears s c ch w d q q') (hsub : Subscribed s.database ch d)
    (ho : takenForWriter s c ch w d ≠ .ok true) : ∃ e, EventOf (ch, w) e ∧ q' = pushEvents q [e] := by
  cases h with
  | nothing hs _ => exact absurd hsub hs
  | own _ hown _ => exact absurd hown ho
  | event _ _ e he hq' => exact ⟨e, he, hq'⟩

theorem Hears.silent (h : Hears s c ch w d q q')
    (ho : ¬ Subscribed s.database ch d ∨ takenForWriter s c ch w d ≠ .ok false) :
    q' = q := by
  cases h with
  | nothing _ hq' => exact hq'
  | own _ _ hq' => exact hq'
  | event hs hown _ _ _ => exact absurd hown (ho.resolve_left (fun hn => hn hs))

end Queues

/-! The whole write. -/

theorem freeWritten_eq (rt : Runtime) (x : Characteristic) (v : HomekitValue) (s : AccessoryState υ) :
    freeWritten rt x v s = (afterSwitch rt s.now x.format v, s.mapValues (afterSwitch rt s.now x.format)) := by
  by_cases hx : x.format = .tlv
  · have hfun : afterSwitch rt s.now x.format = HomekitValue.freeList (rt.freedList s.now) := funext (fun w => if_pos hx)
    rw [freeWritten, if_pos hx, hfun]
  · have hfun : afterSwitch rt s.now x.format = id := funext (fun w => if_neg hx)
    rw [freeWritten, if_neg hx, hfun]
    rfl

/-- Of a successful item, the part with the value came first and was successful. -/
theorem processCharacteristicsUpdate_value (hitem : itemCharacteristic rt s.database j = some ch)
    (hvalue : j.getObjectItem (ascii "value") = some value)
    (h : processCharacteristicsUpdate sketch rt c j s = .ok (s', .success)) :
    ∃ s₁, updateValue sketch rt c ch value s = .ok (s₁, .success) ∧ s'.eventQueue = s₁.eventQueue ∧
      (s'.database.characteristic ch).value = (s₁.database.characteristic ch).value := by
  simp only [processCharacteristicsUpdate, hitem, updateItemValue, hvalue] at h
  split at h
  · simp at h
  · rename_i s₁ hs₁
    refine ⟨s₁, hs₁, ?_⟩
    split at h
    · rename_i events _
      have hevents := updateEvents_values c ch events s₁ ch
      rw [Except.ok.inj h] at hevents
      exact hevents
    · obtain rfl := (Prod.mk.inj (Except.ok.inj h)).1
      exact ⟨rfl, rfl⟩
  · rename_i s₁ status hne _
    exact absurd (Prod.mk.inj (Except.ok.inj h)).2 (fun hs => hne (by rw [hs]))

/-- A successful write, step by step: stored, freed, notified. -/
theorem write_steps (hset : (s.database.characteristic ch).setterEx = none)
    (hv : writtenValue rt (s.database.characteristic ch) s.now value = .ok (.ok v))
    (h : updateValue sketch rt c ch value s = .ok (s', .success)) :
    ∃ stored, StoredAs v stored ∧
      notifyWritten sketch c ch (afterSwitch rt (s.now + 1) (s.database.characteristic ch).format v)
        ((({ s with now := s.now + 1 } : AccessoryState υ).setValue ch stored).mapValues
          (afterSwitch rt (s.now + 1) (s.database.characteristic ch).format)) = .ok s' := by
  simp only [updateValue, hv] at h
  split at h
  · simp at h
  · split at h
    · simp at h
    · rename_i s₁ hs₁
      obtain ⟨stored, hstored, rfl⟩ := storeWritten_plain (s := { s with now := s.now + 1 }) hset hs₁
      obtain ⟨s₂, hs₂, he⟩ := map_eq_ok.mp h
      obtain rfl := (Prod.mk.inj he).1
      rw [freeWritten_eq] at hs₂
      exact ⟨stored, hstored, hs₂⟩

/-- What the subscribers of the characteristic should hear of the write, and nobody else: one event,
with a live copy of the value. What the switch frees is gone from every queue. -/
structure WriteNotified (rt : Runtime) (c : ClientId) (ch : CharacteristicId) (v : HomekitValue)
    (s s' : AccessoryState υ) : Prop where
  others : ∀ d ≠ c, Subscribed s.database ch d →
    ∃ e, s'.eventQueue d = pushEvents ((s.mapValues (afterSwitch rt (s.now + 1) v.format)).eventQueue d) [e] ∧
      e.characteristic = ch ∧ DeliversCopy v (s'.database.characteristic ch).value e.value
  silent : ∀ d, d = c ∨ ¬ Subscribed s.database ch d →
    s'.eventQueue d = (s.mapValues (afterSwitch rt (s.now + 1) v.format)).eventQueue d

/-- The value can reach the others: it is there, it survives and none of them is marked as its
writer. The mark of the writer itself fails for a NaN only. -/
structure Notifiable (rt : Runtime) (c : ClientId) (ch : CharacteristicId) (v : HomekitValue) (s : AccessoryState υ) :
    Prop where
  others : ∀ d ≠ c, Subscribed s.database ch d → v.isNull = false ∧ Survives (rt.freedList (s.now + 1)) v ∧
    isOwnWrite s ch (afterSwitch rt (s.now + 1) v.format v) d ≠ .ok true
  own : Subscribed s.database ch c → v.isNull = false → v.format = .float → isNaN v.floatBits = false

theorem afterSwitch_isNull (now : Nat) (format : Format) (w : HomekitValue) :
    (afterSwitch rt now format w).isNull = w.isNull := by
  unfold afterSwitch HomekitValue.freeList
  split
  · split <;> rfl
  · rfl

@[simp] theorem freeList_format (found : List Tlv) (w : HomekitValue) : (w.freeList found).format = w.format := by
  unfold HomekitValue.freeList
  split <;> rfl

theorem afterSwitch_format (now : Nat) (format : Format) (w : HomekitValue) :
    (afterSwitch rt now format w).format = w.format := by
  rw [afterSwitch]
  split
  · exact freeList_format ..
  · rfl

/-- What is stored after the write, and what each client heard of it. -/
theorem updateValue_hears (hset : (s.database.characteristic ch).setterEx = none)
    (hv : writtenValue rt (s.database.characteristic ch) s.now value = .ok (.ok v))
    (honce : ∀ d, (s.database.characteristic ch).callback.count (clientCallback d) ≤ 1)
    (h : updateValue sketch rt c ch value s = .ok (s', .success)) :
    ∃ stored, StoredAs v stored ∧
      (s'.database.characteristic ch).value = afterSwitch rt (s.now + 1) v.format stored ∧
      ∀ d, if v.isNull then s'.eventQueue d = (s.mapValues (afterSwitch rt (s.now + 1) v.format)).eventQueue d
        else Hears s c ch (afterSwitch rt (s.now + 1) v.format v) d
          ((s.mapValues (afterSwitch rt (s.now + 1) v.format)).eventQueue d) (s'.eventQueue d) := by
  obtain ⟨stored, hstored, hn⟩ := write_steps hset hv h
  rw [← (writtenValue_built hv).format_eq] at hn
  generalize hf : afterSwitch rt (s.now + 1) v.format = f at hn ⊢
  have hshape : SameShape s.database
      ((({ s with now := s.now + 1 } : AccessoryState υ).setValue ch stored).mapValues f).database :=
    (AccessoryState.setValue_shape { s with now := s.now + 1 } ch stored).trans (mapValues_shape f _)
  have hcallback := congrArg Characteristic.callback (hshape.characteristic ch)
  refine ⟨stored, hstored, ?_, fun d => ?_⟩
  · rw [notifyWritten_database hn]
    exact congrArg (fun x : Characteristic => f x.value) (setCharacteristic_self ..)
  · have hnull : (f v).isNull = v.isNull := hf ▸ afterSwitch_isNull (s.now + 1) v.format v
    cases hv' : v.isNull with
    | true =>
      rw [notifyWritten, if_pos (hnull.trans hv')] at hn
      obtain rfl := Except.ok.inj hn
      exact rfl
    | false =>
      have hears := notifyWritten_hears (d := d) (hnull.trans hv') (hcallback ▸ honce d) hn
      have hsub := hshape.subscribed ch d
      cases hears with
      | nothing hs hq => exact .nothing (mt hsub.mpr hs) hq
      | own hs ho hq => exact .own (hsub.mp hs) ho hq
      | event hs ho e he hq => exact .event (hsub.mp hs) ho e he hq

/-- The writer of a value that is no NaN is taken for it. -/
theorem takenForWriter_self {now : Nat} {b : Bool} (h : takenForWriter s c ch (afterSwitch rt now v.format v) c = .ok b) :
    b = true ↔ (v.format = .float → isNaN v.floatBits = false) := by
  rw [takenForWriter, if_pos rfl] at h
  rw [homekitValueEqual_self h, afterSwitch_format]
  by_cases hf : v.format = .tlv
  · simp [hf]
  · rw [afterSwitch, if_neg hf]

theorem takenForWriter_other (hd : d ≠ c) (s : AccessoryState υ) (ch : CharacteristicId) (w : HomekitValue) :
    takenForWriter s c ch w d = isOwnWrite s ch w d := if_neg hd

/-- A successful write is heard right if and only if it can be. -/
theorem writeNotified_iff (hitem : itemCharacteristic rt s.database j = some ch)
    (hvalue : j.getObjectItem (ascii "value") = some value)
    (hset : (s.database.characteristic ch).setterEx = none)
    (hv : writtenValue rt (s.database.characteristic ch) s.now value = .ok (.ok v))
    (honce : ∀ d, (s.database.characteristic ch).callback.count (clientCallback d) ≤ 1)
    (hq : ∀ d, SetUp (s.eventQueue d))
    (h : processCharacteristicsUpdate sketch rt c j s = .ok (s', .success)) :
    WriteNotified rt c ch v s s' ↔ Notifiable rt c ch v s := by
  obtain ⟨s₁, hs₁, hqueue, hsame⟩ := processCharacteristicsUpdate_value hitem hvalue h
  obtain ⟨stored, hstored, hfound, hears⟩ := updateValue_hears hset hv honce hs₁
  rw [← hqueue] at hears
  rw [← hsame] at hfound
  have hbuilt := writtenValue_built hv
  rw [← hbuilt.format_eq] at hbuilt
  have hqs : ∀ d, SetUp ((s.mapValues (afterSwitch rt (s.now + 1) v.format)).eventQueue d) :=
    fun d => ⟨(hq d).recNb, (hq d).ovw⟩
  have hcopy : ∀ e, v.isNull = false → homekitValueCopy (afterSwitch rt (s.now + 1) v.format v) = .ok e →
      (DeliversCopy v (s'.database.characteristic ch).value e ↔ Survives (rt.freedList (s.now + 1)) v) := by
    intro e hnull he
    rw [hfound]
    exact deliversCopy_iff hbuilt hnull hstored he
  have htold : v.isNull = false → ∀ d, Hears s c ch (afterSwitch rt (s.now + 1) v.format v) d
      ((s.mapValues (afterSwitch rt (s.now + 1) v.format)).eventQueue d) (s'.eventQueue d) := by
    intro hnull d
    have hear := hears d
    rwa [if_neg (by simp [hnull])] at hear
  constructor
  · intro hn
    refine ⟨fun d hd hsub => ?_, fun hsub hnull hf => ?_⟩
    · obtain ⟨e, he, _, hright⟩ := hn.others d hd hsub
      cases hnull : v.isNull with
      | true =>
        have hsilent := hears d
        rw [if_pos hnull, he] at hsilent
        exact absurd hsilent ((hqs d).push_ne e)
      | false =>
        obtain ⟨ho, hevent⟩ := (htold hnull d).of_push (hqs d) he
        refine ⟨rfl, (hcopy e.value hnull hevent.2).mp hright, ?_⟩
        rw [← takenForWriter_other hd s ch, ho]
        simp
    · have ho := (htold hnull c).of_silent (hqs c) hsub (hn.silent c (Or.inl rfl))
      exact (takenForWriter_self ho).mp rfl hf
  · intro hn
    refine ⟨fun d hd hsub => ?_, fun d hd => ?_⟩
    · obtain ⟨hnull, hsurvives, ho⟩ := hn.others d hd hsub
      rw [← takenForWriter_other hd s ch] at ho
      obtain ⟨e, hevent, he⟩ := (htold hnull d).push hsub ho
      exact ⟨e, he, hevent.1, (hcopy e.value hnull hevent.2).mpr hsurvives⟩
    · cases hnull : v.isNull with
      | true =>
        have hsilent := hears d
        rwa [if_pos hnull] at hsilent
      | false =>
        refine (htold hnull d).silent ?_
        rcases hd with rfl | hd
        · by_cases hsub : Subscribed s.database ch d
          · refine Or.inr (fun ho => ?_)
            have hfalse := (takenForWriter_self ho).mpr (hn.own hsub hnull)
            simp at hfalse
          · exact Or.inl hsub
        · exact Or.inl hd

section Bench

/-- The lamp with two subscribers, the first of which writes it. -/
def heardLamp : Characteristic := { benchLamp with callback := [clientCallback 0, clientCallback 1] }

def lampOn : HomekitValue := cppValue { isNull := false, isStatic := false, word := 0 } .bool (.bits 1)

theorem writeNotified_iff_lamp : ∃ s',
    processCharacteristicsUpdate benchSketch benchRuntime 0 (benchItem "value" (.boolean true)) (benchState [heardLamp]) =
      .ok (s', .success) ∧
    WriteNotified benchRuntime 0 0 lampOn (benchState [heardLamp]) s' := by
  have hv : writtenValue benchRuntime heardLamp 0 (.boolean true) = .ok (.ok lampOn) := by decide
  have h : ∃ s', processCharacteristicsUpdate benchSketch benchRuntime 0 (benchItem "value" (.boolean true))
      (benchState [heardLamp]) = .ok (s', .success) := ⟨_, rfl⟩
  obtain ⟨s', hs'⟩ := h
  have honce : ∀ d, heardLamp.callback.count (clientCallback d) ≤ 1 := by
    intro d
    refine List.nodup_iff_count_le_one.mp ?_ _
    decide
  refine ⟨s', hs', (writeNotified_iff rfl rfl rfl hv honce (fun d => ⟨rfl, rfl⟩) hs').mpr ⟨fun d _ _ => ?_,
    fun _ _ hf => ?_⟩⟩
  · exact ⟨rfl, trivial, by simp [isOwnWrite, benchState]⟩
  · simp [lampOn, cppValue] at hf

/-- A TLV characteristic with a subscriber. -/
def heardTlv : Characteristic :=
  { benchCharacteristic 9 { isNull := true, isStatic := false, format := .tlv, union := .tlvValues .null } with
    callback := [clientCallback 1] }

theorem tlv_write_run :
    (match processCharacteristicsUpdate benchSketch benchRuntime 0
      (benchItem "value" (.string (ascii "AQEB"))) (benchState [heardTlv]) with
    | .ok (s, .success) => ((s.eventQueue 1).queue 0).value.content == .tlv (some [])
    | _ => false) = true := by
  decide +kernel

/-- The list that the event should carry has been freed before it is copied. -/
theorem freed_list_notified : ∃ v s',
    writtenValue benchRuntime heardTlv 0 (.string (ascii "AQEB")) = .ok (.ok v) ∧
    processCharacteristicsUpdate benchSketch benchRuntime 0 (benchItem "value" (.string (ascii "AQEB")))
      (benchState [heardTlv]) = .ok (s', .success) ∧
    ¬ WriteNotified benchRuntime 0 0 v (benchState [heardTlv]) s' := by
  have hrun := tlv_write_run
  split at hrun
  · rename_i s' hs'
    refine ⟨cppValue (benchRuntime.stack 0) .tlv (.tlvValues (.block .request [⟨1, [1]⟩])), s', by decide +kernel, hs', ?_⟩
    intro h
    obtain ⟨e, he, _, hright⟩ := h.others 1 (by decide) (List.mem_singleton.mpr rfl)
    have hcell : (s'.eventQueue 1).queue 0 = e := by
      rw [he]
      exact (qPush_written rfl e).1
    rw [hcell] at hrun
    have hcontent := hright.written.content rfl
    rw [eq_of_beq hrun] at hcontent
    exact absurd hcontent (by decide)
  · simp at hrun

end Bench

end ArduinoHomeKit
