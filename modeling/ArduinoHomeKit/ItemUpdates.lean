import ArduinoHomeKit.AccessoryBench
import ArduinoHomeKit.CharacteristicUpdate

/-! What one item of PUT /characteristics does to the subscriptions, and to the number in an
integer characteristic. -/

namespace ArduinoHomeKit

variable {υ : Type} {sketch : Sketch υ} {rt : Runtime} {c : ClientId} {ch : CharacteristicId} {j value events : CJson}
  {s s' s'' : AccessoryState υ} {status : HAPStatus} {x : Characteristic} {v : HomekitValue}

/-! What the part with the value leaves alone. -/

theorem mapValues_shape (f : HomekitValue → HomekitValue) (s : AccessoryState υ) :
    SameShape s.database (s.mapValues f).database := ⟨rfl, rfl, rfl, fun _ => rfl⟩

theorem storeWritten_shape (h : storeWritten sketch ch v s = .ok s') : SameShape s.database s'.database := by
  rw [storeWritten] at h
  split at h
  · rename_i g _
    exact runUserCalls_shape (s := { s with user := (sketch.setter g ch v s.database s.user).1 }) h
  · split at h
    · split at h
      · simp at h
      · obtain ⟨copy, _, rfl⟩ := map_eq_ok.mp h
        exact s.setValue_shape ch copy
    · obtain rfl := Except.ok.inj h
      exact s.setValue_shape ch v

theorem freeWritten_shape (rt : Runtime) (x : Characteristic) (v : HomekitValue) (s : AccessoryState υ) :
    SameShape s.database (freeWritten rt x v s).2.database := by
  rw [freeWritten]
  split
  · exact mapValues_shape _ s
  · exact .refl _

theorem notifyWritten_database (h : notifyWritten sketch c ch v s = .ok s') : s'.database = s.database := by
  rw [notifyWritten] at h
  split at h
  · rw [Except.ok.inj h]
  · obtain ⟨s₁, hs₁, rfl⟩ := map_eq_ok.mp h
    exact (homekitCharacteristicNotify_notified hs₁).database

/-- The check of the format that the value does not pass. -/
def Unwritable (rt : Runtime) (x : Characteristic) (j : CJson) : Prop :=
  match x.format with
  | .bool => writtenBool j = none
  | .float => writtenFloat rt x j = none
  | .string => writtenText (x.maxLen.getD 64) j = none
  | .tlv => ((writtenText (x.maxLen.getD 256) j).map CString.strdup).bind base64Decode = none
  | .data => ((writtenText (x.maxDataLen.getD 4096) j).map CString.strdup).bind base64Decode = none
  | _ => writtenInteger rt x j = none

/-- A value is refused by the check of its format, whatever is in the memory. -/
theorem writtenValue_refused_iff {now : Nat} :
    writtenValue rt x now j = .ok (.error status) ↔ Unwritable rt x j ∧ status = .invalidValue := by
  -- a decoded block is a value, or a fault
  have hmap : ∀ {α : Type} {r : Except Fault α} {f : α → HomekitValue},
      r.map (fun a => (Except.ok (f a) : Except HAPStatus HomekitValue)) ≠ .ok (.error status) := by
    intro α r f h
    obtain ⟨a, _, he⟩ := map_eq_ok.mp h
    simp at he
  have hsame : HAPStatus.invalidValue = status ↔ status = .invalidValue := ⟨Eq.symm, Eq.symm⟩
  cases hf : x.format with
  | bool => cases hb : writtenBool j <;> simp [writtenValue, Unwritable, hf, hb, hsame]
  | float => cases hb : writtenFloat rt x j <;> simp [writtenValue, Unwritable, hf, hb, hsame]
  | string => cases hb : writtenText (x.maxLen.getD 64) j <;> simp [writtenValue, Unwritable, hf, hb, hsame]
  | tlv =>
    simp only [writtenValue, Unwritable, hf]
    cases (writtenText (x.maxLen.getD 256) j).map CString.strdup with
    | none => simp [hsame]
    | some text =>
      cases hd : base64Decode text with
      | none => simp [hd, hsame]
      | some decoded =>
        cases hb : decodedBlock rt now text decoded with
        | error e => simp [hd, hb]
        | ok block => simp [hd, hb, hmap]
  | data =>
    simp only [writtenValue, Unwritable, hf]
    cases (writtenText (x.maxDataLen.getD 4096) j).map CString.strdup with
    | none => simp [hsame]
    | some text =>
      cases hd : base64Decode text with
      | none => simp [hd, hsame]
      | some decoded => simp [hd, hmap]
  | _ => cases hb : writtenInteger rt x j <;> simp [writtenValue, Unwritable, hf, hb, hsame]

/-- The item's value is refused before anything is stored. -/
def ValueRefused (rt : Runtime) (x : Characteristic) (now : Nat) (j : CJson) : Prop :=
  ∃ value, j.getObjectItem (ascii "value") = some value ∧
    (hasFlag x.permissions Permissions.pairedWrite = false ∨ ∃ status, writtenValue rt x now value = .ok (.error status))

/-- The part with the value refuses it and does nothing, or it succeeds and leaves the shape of
the database alone. -/
theorem updateItemValue_cases (h : updateItemValue sketch rt c ch j s = .ok (s', status)) :
    (ValueRefused rt (s.database.characteristic ch) s.now j ∧ s' = s ∧ status ≠ .success) ∨
      (¬ ValueRefused rt (s.database.characteristic ch) s.now j ∧ status = .success ∧ SameShape s.database s'.database) := by
  rw [updateItemValue] at h
  cases hv : j.getObjectItem (ascii "value") with
  | none =>
    simp only [hv, Except.ok.injEq, Prod.mk.injEq] at h
    obtain ⟨rfl, rfl⟩ := h
    refine Or.inr ⟨?_, rfl, .refl _⟩
    rintro ⟨value, he, _⟩
    rw [hv] at he
    simp at he
  | some value =>
    simp only [hv, updateValue] at h
    split at h
    · rename_i hp
      obtain ⟨rfl, rfl⟩ := Prod.mk.inj (Except.ok.inj h)
      exact Or.inl ⟨⟨value, hv, Or.inl hp⟩, rfl, by simp⟩
    · rename_i hp
      split at h
      · simp at h
      · rename_i st hw
        obtain ⟨rfl, rfl⟩ := Prod.mk.inj (Except.ok.inj h)
        refine Or.inl ⟨⟨value, hv, Or.inr ⟨_, hw⟩⟩, rfl, ?_⟩
        rw [(writtenValue_refused_iff.mp hw).2]
        simp
      · rename_i w hw
        split at h
        · simp at h
        · rename_i s₁ hs₁
          obtain ⟨s₂, hs₂, he⟩ := map_eq_ok.mp h
          obtain ⟨rfl, rfl⟩ := Prod.mk.inj he
          refine Or.inr ⟨?_, rfl, ?_⟩
          · rintro ⟨value', he, hr⟩
            obtain rfl : value = value' := Option.some.inj (hv.symm.trans he)
            rcases hr with hr | ⟨st, hr⟩
            · exact hp hr
            · rw [hw] at hr
              simp at hr
          · rw [notifyWritten_database hs₂]
            exact (storeWritten_shape (s := { s with now := s.now + 1 }) hs₁).trans (freeWritten_shape ..)

/-! Subscriptions. -/

/-- The client is among those that a notification of the characteristic goes to. -/
def Subscribed (db : Database) (ch : CharacteristicId) (c : ClientId) : Prop :=
  clientCallback c ∈ (db.characteristic ch).callback

/-- What is expected of an item with an event flag. -/
structure EventRight (s s' : AccessoryState υ) (c : ClientId) (ch : CharacteristicId) (events : CJson) (status : HAPStatus) :
    Prop where
  checked : status = .success → (∃ b, events = .boolean b) ∧
    hasFlag (s.database.characteristic ch).permissions Permissions.notify = true
  subscribes : status = .success → events = .boolean true → Subscribed s'.database ch c
  unsubscribes : status = .success → events = .boolean false → ¬ Subscribed s'.database ch c
  unchanged : status ≠ .success → (Subscribed s'.database ch c ↔ Subscribed s.database ch c)
  others : ∀ d ≠ c, ∀ i, Subscribed s'.database i d ↔ Subscribed s.database i d

theorem SameShape.subscribed {db db' : Database} (h : SameShape db db') (i : CharacteristicId) (d : ClientId) :
    Subscribed db' i d ↔ Subscribed db i d := by
  rw [Subscribed, Subscribed, h.characteristic i]

theorem subscribed_add (db : Database) (ch i : CharacteristicId) (c d : ClientId) :
    Subscribed (db.homekitCharacteristicAddNotifyCallback ch (clientCallback c)) i d ↔
      i = ch ∧ d = c ∨ Subscribed db i d := by
  rw [Subscribed, Database.homekitCharacteristicAddNotifyCallback]
  by_cases hi : i = ch
  · subst hi
    rw [setCharacteristic_self, mem_addCallback]
    simp [Subscribed, clientCallback]
  · rw [setCharacteristic_of_ne hi]
    simp [Subscribed, hi]

theorem subscribed_remove (db : Database) (ch i : CharacteristicId) (c d : ClientId) :
    Subscribed (db.homekitCharacteristicRemoveNotifyCallback ch (clientCallback c)) i d ↔
      ¬ (i = ch ∧ d = c) ∧ Subscribed db i d := by
  rw [Subscribed, Database.homekitCharacteristicRemoveNotifyCallback]
  by_cases hi : i = ch
  · subst hi
    rw [setCharacteristic_self, removeCallback_eq, List.mem_filter]
    simp [Subscribed, clientCallback, and_comm]
  · rw [setCharacteristic_of_ne hi]
    simp [Subscribed, hi]

/-- What the part with the event flag does, on a characteristic with any permission. -/
theorem updateEvents_right (c : ClientId) (events : CJson) (hp : (s.database.characteristic ch).permissions ≠ 0) :
    (updateEvents c ch events s).2 = .success ∧
      (events = .boolean true → Subscribed (updateEvents c ch events s).1.database ch c) ∧
      (events = .boolean false → ¬ Subscribed (updateEvents c ch events s).1.database ch c) ∧
      ∀ d ≠ c, ∀ i, Subscribed (updateEvents c ch events s).1.database i d ↔ Subscribed s.database i d := by
  by_cases ht : events = .boolean true
  · subst ht
    have he : updateEvents c ch (.boolean true) s =
        ({ s with database := s.database.homekitCharacteristicAddNotifyCallback ch (clientCallback c) }, .success) := by
      unfold updateEvents
      rw [if_neg hp]
    rw [he]
    refine ⟨rfl, fun _ => (subscribed_add ..).mpr (Or.inl ⟨rfl, rfl⟩), fun h => by simp at h, fun d hd i => ?_⟩
    rw [subscribed_add]
    simp [hd]
  · have he : updateEvents c ch events s =
        ({ s with database := s.database.homekitCharacteristicRemoveNotifyCallback ch (clientCallback c) }, .success) := by
      unfold updateEvents
      rw [if_neg hp]
      split
      · exact absurd rfl ht
      · rfl
    rw [he]
    refine ⟨rfl, fun h => absurd h ht, fun _ h => ((subscribed_remove ..).mp h).1 ⟨rfl, rfl⟩, fun d hd i => ?_⟩
    rw [subscribed_remove]
    simp [hd]

theorem updateEvents_unsupported (hp : (s.database.characteristic ch).permissions = 0) :
    updateEvents c ch events s = (s, .notificationsUnsupported) := by
  unfold updateEvents
  rw [if_pos hp]

/-- The values, and the events that wait, stay as they are. -/
theorem updateEvents_values (c : ClientId) (ch : CharacteristicId) (events : CJson) (s : AccessoryState υ)
    (i : CharacteristicId) :
    (updateEvents c ch events s).1.eventQueue = s.eventQueue ∧
      ((updateEvents c ch events s).1.database.characteristic i).value = (s.database.characteristic i).value := by
  have hset : ∀ x : Characteristic, x.value = (s.database.characteristic ch).value →
      ((s.database.setCharacteristic ch x).characteristic i).value = (s.database.characteristic i).value := by
    intro x hx
    by_cases hi : i = ch
    · rw [hi, setCharacteristic_self, hx]
    · rw [setCharacteristic_of_ne hi]
  unfold updateEvents
  split
  · exact ⟨rfl, rfl⟩
  · split
    · exact ⟨rfl, hset _ rfl⟩
    · exact ⟨rfl, hset _ rfl⟩

/-- An item with an event flag is treated right unless the flag is no boolean, or the
characteristic does not notify, and nothing else refuses the item. -/
theorem eventRight_iff (hch : itemCharacteristic rt s.database j = some ch)
    (hev : j.getObjectItem (ascii "ev") = some events)
    (h : processCharacteristicsUpdate sketch rt c j s = .ok (s', status)) :
    EventRight s s' c ch events status ↔
      ValueRefused rt (s.database.characteristic ch) s.now j ∨ (s.database.characteristic ch).permissions = 0 ∨
        (∃ b, events = .boolean b) ∧ hasFlag (s.database.characteristic ch).permissions Permissions.notify = true := by
  have hrefused : ∀ status', status' ≠ HAPStatus.success → SameShape s.database s'.database →
      EventRight s s' c ch events status' := by
    intro status' hne hs
    exact ⟨fun he => absurd he hne, fun he => absurd he hne, fun he => absurd he hne, fun _ => hs.subscribed ch c,
      fun d _ i => hs.subscribed i d⟩
  simp only [processCharacteristicsUpdate, hch] at h
  cases hv : updateItemValue sketch rt c ch j s with
  | error e => simp [hv] at h
  | ok r =>
    obtain ⟨s₁, st⟩ := r
    rcases updateItemValue_cases hv with ⟨href, rfl, hst⟩ | ⟨href, rfl, hs⟩
    · have he : s' = s₁ ∧ status = st := by
        cases st <;> simp [hv] at h hst ⊢ <;> exact ⟨h.1.symm, h.2.symm⟩
      obtain ⟨rfl, rfl⟩ := he
      exact ⟨fun _ => Or.inl href, fun _ => hrefused _ hst (.refl _)⟩
    · simp only [hv, hev, Except.ok.injEq] at h
      have hperm : (s₁.database.characteristic ch).permissions = (s.database.characteristic ch).permissions := by
        rw [hs.characteristic ch]
      by_cases hp : (s.database.characteristic ch).permissions = 0
      · rw [updateEvents_unsupported (hperm.trans hp)] at h
        obtain ⟨rfl, rfl⟩ := Prod.mk.inj h
        exact ⟨fun _ => Or.inr (Or.inl hp), fun _ => hrefused _ (by simp) hs⟩
      · obtain ⟨hok, hsub, hunsub, hothers⟩ := updateEvents_right c events (fun h0 => hp (hperm.symm.trans h0))
        rw [h] at hok hsub hunsub hothers
        obtain rfl : status = .success := hok
        constructor
        · intro hr
          exact Or.inr (Or.inr (hr.checked rfl))
        · rintro (hr | hr | hr)
          · exact absurd hr href
          · exact absurd hr hp
          · exact ⟨fun _ => hr, fun _ => hsub, fun _ => hunsub, fun hne => absurd rfl hne,
              fun d hd i => (hothers d hd i).trans (hs.subscribed i d)⟩

/-- An item for characteristic 9 of accessory 1, with one more member. -/
def benchItem (name : String) (value : CJson) : CJson :=
  .object [(ascii "aid", .number (.ofInt 1)), (ascii "iid", .number (.ofInt 9)), (ascii name, value)]

/-- A boolean characteristic with id 9. -/
def benchLamp : Characteristic := benchCharacteristic 9 (benchScalar .bool 0)

/-- A subscription to the lamp. -/
theorem eventRight_iff_lamp :
    EventRight (benchState [benchLamp]) (updateEvents 0 0 (.boolean true) (benchState [benchLamp])).1 0 0 (.boolean true)
        .success ↔
      ValueRefused benchRuntime benchLamp 0 (benchItem "ev" (.boolean true)) ∨ benchLamp.permissions = 0 ∨
        (∃ b, CJson.boolean true = .boolean b) ∧ hasFlag benchLamp.permissions Permissions.notify = true := by
  have h : processCharacteristicsUpdate benchSketch benchRuntime 0 (benchItem "ev" (.boolean true)) (benchState [benchLamp]) =
      .ok ((updateEvents 0 0 (.boolean true) (benchState [benchLamp])).1, .success) := rfl
  exact eventRight_iff rfl rfl h

/-- The lamp without the permission to notify. -/
def silentLamp : Characteristic := { benchLamp with permissions := Permissions.pairedRead + Permissions.pairedWrite }

theorem silent_lamp_subscribed :
    ∃ s', processCharacteristicsUpdate benchSketch benchRuntime 0 (benchItem "ev" (.boolean true)) (benchState [silentLamp]) =
        .ok (s', .success) ∧
      ¬ EventRight (benchState [silentLamp]) s' 0 0 (.boolean true) .success := by
  refine ⟨(updateEvents 0 0 (.boolean true) (benchState [silentLamp])).1, rfl, fun h => ?_⟩
  exact absurd (h.checked rfl).2 (by decide)

end ArduinoHomeKit
