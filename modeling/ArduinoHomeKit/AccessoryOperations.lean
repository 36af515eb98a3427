import Mathlib.Logic.Relation
import ArduinoHomeKit.EventMessages
import ArduinoHomeKit.ItemUpdates

/-! The elementary operations on the accessory side. Every handler of a request is a sequence of
them, so that what each operation keeps, every request keeps. -/

namespace ArduinoHomeKit

variable {υ : Type} {sketch : Sketch υ} {rt : Runtime} {c : ClientId} {ch : CharacteristicId} {value : HomekitValue}
  {j : CJson} {s s' : AccessoryState υ} {A : ClientId → CharacteristicId → Prop}

/-- One operation; `A` says who may subscribe to what. -/
inductive Operation (sketch : Sketch υ) (A : ClientId → CharacteristicId → Prop) :
    AccessoryState υ → AccessoryState υ → Prop
  | notify {s s' : AccessoryState υ} (ch : CharacteristicId) (value : HomekitValue)
      (h : homekitCharacteristicNotify sketch s ch value = .ok s') : Operation sketch A s s'
  | assign {s s' : AccessoryState υ} (hs : SameShape s.database s'.database) (hq : s'.eventQueue = s.eventQueue) :
      Operation sketch A s s'
  | free {s : AccessoryState υ} {f : HomekitValue → HomekitValue} (hf : Frees f) : Operation sketch A s (s.mapValues f)
  | subscribe {s : AccessoryState υ} (c : ClientId) (ch : CharacteristicId) (h : A c ch)
      (hch : ch ∈ s.database.characteristics) : Operation sketch A s
        { s with database := s.database.homekitCharacteristicAddNotifyCallback ch (clientCallback c) }
  | unsubscribe {s : AccessoryState υ} (c : ClientId) (ch : CharacteristicId) : Operation sketch A s
      { s with database := s.database.homekitCharacteristicRemoveNotifyCallback ch (clientCallback c) }

abbrev Operates (sketch : Sketch υ) (A : ClientId → CharacteristicId → Prop) :
    AccessoryState υ → AccessoryState υ → Prop :=
  Relation.ReflTransGen (Operation sketch A)

/-- What every operation keeps, a sequence of them keeps. -/
theorem Operates.invariant {I : AccessoryState υ → Prop} (hstep : ∀ s s', I s → Operation sketch A s s' → I s')
    (h : Operates sketch A s s') (hi : I s) : I s' := by
  induction h with
  | refl => exact hi
  | tail _ ho ih => exact hstep _ _ ih ho

/-- An assignment before other operations. -/
theorem Operates.after {t : AccessoryState υ} (h : Operates sketch A t s') (hs : SameShape s.database t.database)
    (hq : t.eventQueue = s.eventQueue) : Operates sketch A s s' := .head (.assign hs hq) h

theorem operates_assign (hs : SameShape s.database s'.database) (hq : s'.eventQueue = s.eventQueue) :
    Operates sketch A s s' := .single (.assign hs hq)

/-! The application. -/

theorem runUserCalls_operates {calls : List UserCall} (h : runUserCalls sketch calls s = .ok s') :
    Operates sketch A s s' := by
  induction calls generalizing s with
  | nil => exact Except.ok.inj h ▸ .refl
  | cons call calls ih =>
    cases call with
    | assign i v => exact (ih h).after (s.setValue_shape i v) rfl
    | notify i v =>
      rw [runUserCalls] at h
      cases hn : homekitCharacteristicNotify sketch s i v with
      | error e => simp [hn] at h
      | ok s₁ =>
        simp only [hn] at h
        exact .head (.notify i v hn) (ih h)

theorem callGetter_operates {g : Nat} {r : AccessoryState υ × HomekitValue} (h : callGetter sketch g ch s = .ok r) :
    Operates sketch A s r.1 := by
  obtain ⟨s₁, hs₁, rfl⟩ := map_eq_ok.mp h
  have h₁ : Operates sketch A _ s₁ := runUserCalls_operates hs₁
  exact h₁.after (.refl _) rfl

theorem callSetter_operates {g : Nat} (h : callSetter sketch g ch value s = .ok s') : Operates sketch A s s' := by
  rw [callSetter] at h
  have h₁ : Operates sketch A _ s' := runUserCalls_operates h
  exact h₁.after (.refl _) rfl

theorem readValue_operates {r : AccessoryState υ × HomekitValue} (h : readValue sketch ch s = .ok r) :
    Operates sketch A s r.1 := by
  rw [readValue] at h
  split at h
  · split at h
    · simp at h
    · rename_i r₁ hr₁
      obtain ⟨_, _, rfl⟩ := map_eq_ok.mp h
      exact callGetter_operates hr₁
  · exact Except.ok.inj h ▸ .refl

/-! Documents. -/

theorem writeCharacteristicJson_operates {client : ClientId} {format : Nat} {v : Option HomekitValue}
    {r : AccessoryState υ × List JsonCall} (h : writeCharacteristicJson sketch rt client format ch v s = .ok r) :
    Operates sketch A s r.1 := by
  unfold writeCharacteristicJson at h
  dsimp only at h
  split at h
  · exact Except.ok.inj h ▸ .refl
  · split at h
    · exact Except.ok.inj h ▸ .refl
    · obtain ⟨r₁, hr₁, rfl⟩ := map_eq_ok.mp h
      exact readValue_operates hr₁

theorem inObject_operates {body : Except Fault (AccessoryState υ × List JsonCall)}
    (hbody : ∀ r, body = .ok r → Operates sketch A s r.1) {r : AccessoryState υ × List JsonCall}
    (h : inObject body = .ok r) : Operates sketch A s r.1 := by
  obtain ⟨r₁, hr₁, rfl⟩ := map_eq_ok.mp h
  exact hbody r₁ hr₁

theorem withArray_operates {head : List JsonCall} {body : Except Fault (AccessoryState υ × List JsonCall)}
    (hbody : ∀ r, body = .ok r → Operates sketch A s r.1) {r : AccessoryState υ × List JsonCall}
    (h : withArray head body = .ok r) : Operates sketch A s r.1 := by
  obtain ⟨r₁, hr₁, rfl⟩ := map_eq_ok.mp h
  exact hbody r₁ hr₁

theorem loopCalls_operates {ι : Type} {body : ι → AccessoryState υ → Except Fault (AccessoryState υ × List JsonCall)}
    (hbody : ∀ i s r, body i s = .ok r → Operates sketch A s r.1) {l : List ι} {r : AccessoryState υ × List JsonCall}
    (h : loopCalls body l s = .ok r) : Operates sketch A s r.1 := by
  induction l generalizing s r with
  | nil => exact Except.ok.inj h ▸ .refl
  | cons i l ih =>
    rw [loopCalls] at h
    cases hi : body i s with
    | error e => simp [hi] at h
    | ok r₁ =>
      simp only [hi] at h
      obtain ⟨r₂, hr₂, rfl⟩ := map_eq_ok.mp h
      have h₂ : Operates sketch A r₁.1 r₂.1 := ih hr₂
      exact (hbody i s r₁ hi).trans h₂

theorem getAccessoriesCalls_operates {r : AccessoryState υ × List JsonCall}
    (h : getAccessoriesCalls sketch rt c s = .ok r) : Operates sketch A s r.1 := by
  have hch : ∀ ch (s : AccessoryState υ) r,
      inObject (writeCharacteristicJson sketch rt c accessoriesFormat ch none s) = .ok r → Operates sketch A s r.1 :=
    fun _ _ _ => inObject_operates (fun _ => writeCharacteristicJson_operates)
  have hservice : ∀ i (s : AccessoryState υ) r, serviceCalls sketch rt c i s = .ok r → Operates sketch A s r.1 :=
    fun _ _ _ => inObject_operates (fun _ => withArray_operates (fun _ => loopCalls_operates hch))
  have haccessory : ∀ i (s : AccessoryState υ) r, accessoryCalls sketch rt c i s = .ok r → Operates sketch A s r.1 :=
    fun _ _ _ => inObject_operates (fun _ => withArray_operates (fun _ => loopCalls_operates hservice))
  exact inObject_operates (fun _ => withArray_operates (fun _ => loopCalls_operates haccessory)) h

theorem componentCalls_operates {format : Nat} {success : Bool} {text : Bytes} {r : AccessoryState υ × List JsonCall}
    (h : componentCalls sketch rt c format success text s = .ok r) : Operates sketch A s r.1 := by
  rw [componentCalls] at h
  split at h
  · simp at h
  · split at h
    · exact Except.ok.inj h ▸ .refl
    · exact Except.ok.inj h ▸ .refl
    · refine inObject_operates (fun r hr => ?_) h
      obtain ⟨r₁, hr₁, rfl⟩ := map_eq_ok.mp hr
      show Operates sketch A s r₁.1
      exact writeCharacteristicJson_operates hr₁

theorem homekitServerOnGetCharacteristics_operates {params : List QueryParam} {r : AccessoryState υ × Answer}
    (h : homekitServerOnGetCharacteristics sketch rt c params s = .ok r) : Operates sketch A s r.1 := by
  rw [homekitServerOnGetCharacteristics] at h
  split at h
  · exact Except.ok.inj h ▸ .refl
  · split at h
    · simp at h
    · dsimp only at h
      split at h
      · exact Except.ok.inj h ▸ .refl
      · obtain ⟨r₁, hr₁, rfl⟩ := map_eq_ok.mp h
        exact inObject_operates (fun _ => withArray_operates (fun _ =>
          loopCalls_operates (fun _ _ _ => componentCalls_operates))) hr₁

/-! The items of PUT /characteristics. -/

theorem storeWritten_operates (h : storeWritten sketch ch value s = .ok s') : Operates sketch A s s' := by
  rw [storeWritten] at h
  split at h
  · exact callSetter_operates h
  · split at h
    · split at h
      · simp at h
      · obtain ⟨copy, _, rfl⟩ := map_eq_ok.mp h
        exact operates_assign (s.setValue_shape ch copy) rfl
    · exact Except.ok.inj h ▸ operates_assign (s.setValue_shape ch value) rfl

theorem freeWritten_operates (rt : Runtime) (x : Characteristic) (v : HomekitValue) (s : AccessoryState υ) :
    Operates sketch A s (freeWritten rt x v s).2 := by
  rw [freeWritten]
  split
  · exact .single (.free (.list _))
  · exact .refl

theorem notifyWritten_operates (h : notifyWritten sketch c ch value s = .ok s') : Operates sketch A s s' := by
  rw [notifyWritten] at h
  split at h
  · exact Except.ok.inj h ▸ .refl
  · obtain ⟨s₁, hs₁, rfl⟩ := map_eq_ok.mp h
    have hnotify : Operates sketch A _ s₁ := .single (.notify ch value hs₁)
    have hmarked : Operates sketch A s s₁ := hnotify.after (.refl _) rfl
    exact hmarked.trans (operates_assign (.refl _) rfl)

theorem updateItemValue_operates {status : HAPStatus} (h : updateItemValue sketch rt c ch j s = .ok (s', status)) :
    Operates sketch A s s' := by
  rw [updateItemValue] at h
  split at h
  · rw [updateValue] at h
    dsimp only at h
    split at h
    · exact (Prod.mk.inj (Except.ok.inj h)).1 ▸ .refl
    · split at h
      · simp at h
      · exact (Prod.mk.inj (Except.ok.inj h)).1 ▸ .refl
      · split at h
        · simp at h
        · rename_i v _ _ s₁ hs₁
          obtain ⟨s₂, hs₂, he⟩ := map_eq_ok.mp h
          obtain ⟨rfl, _⟩ := Prod.mk.inj he
          have hstore : Operates sketch A _ s₁ := storeWritten_operates hs₁
          have hfree : Operates sketch A s₁ _ := freeWritten_operates rt (s.database.characteristic ch) v s₁
          have hall : Operates sketch A _ s₂ := (hstore.trans hfree).trans (notifyWritten_operates hs₂)
          exact hall.after (.refl _) rfl
  · exact (Prod.mk.inj (Except.ok.inj h)).1 ▸ .refl

/-! What an item names does not depend on what the items before it did. -/

/-- Databases that differ in the values and the callbacks of their characteristics only. -/
structure SameFrame (db db' : Database) : Prop where
  accessories : db'.accessories = db.accessories
  accessory : db'.accessory = db.accessory
  service : db'.service = db.service
  characteristic : ∀ ch, ∃ v l, db'.characteristic ch = { db.characteristic ch with value := v, callback := l }

theorem SameShape.sameFrame {db db' : Database} (h : SameShape db db') : SameFrame db db' :=
  ⟨h.accessories, h.accessory, h.service, fun ch => ⟨_, _, h.characteristic ch⟩⟩

theorem SameFrame.trans {db db' db'' : Database} (h : SameFrame db db') (h' : SameFrame db' db'') : SameFrame db db'' := by
  refine ⟨h'.accessories.trans h.accessories, h'.accessory.trans h.accessory, h'.service.trans h.service, fun ch => ?_⟩
  obtain ⟨v, l, hch⟩ := h.characteristic ch
  obtain ⟨v', l', hch'⟩ := h'.characteristic ch
  exact ⟨v', l', by rw [hch', hch]⟩

theorem sameFrame_setCallbacks (db : Database) (ch : CharacteristicId) (l : List Callback) :
    SameFrame db (db.setCharacteristic ch { db.characteristic ch with callback := l }) := by
  refine ⟨rfl, rfl, rfl, fun i => ?_⟩
  by_cases hi : i = ch
  · subst hi
    exact ⟨_, l, setCharacteristic_self ..⟩
  · exact ⟨_, _, setCharacteristic_of_ne hi ..⟩

theorem Operation.sameFrame (h : Operation sketch A s s') : SameFrame s.database s'.database := by
  cases h with
  | notify ch value h =>
    rw [(homekitCharacteristicNotify_notified h).database]
    exact (SameShape.refl _).sameFrame
  | assign hs _ => exact hs.sameFrame
  | free hf => exact (mapValues_shape _ s).sameFrame
  | subscribe c ch _ _ => exact sameFrame_setCallbacks ..
  | unsubscribe c ch => exact sameFrame_setCallbacks ..

theorem Operates.sameFrame (h : Operates sketch A s s') : SameFrame s.database s'.database :=
  h.invariant (I := fun s' => SameFrame s.database s'.database) (fun _ _ h ho => h.trans ho.sameFrame)
    (SameShape.refl _).sameFrame

theorem SameFrame.characteristics {db db' : Database} (h : SameFrame db db') : db'.characteristics = db.characteristics := by
  unfold Database.characteristics Database.characteristicsOf
  rw [h.accessories, h.accessory, h.service]

theorem SameFrame.byAidAndIid {db db' : Database} (h : SameFrame db db') :
    homekitCharacteristicByAidAndIid db' = homekitCharacteristicByAidAndIid db := by
  have hof : db'.characteristicsOf = db.characteristicsOf := by
    unfold Database.characteristicsOf
    rw [h.accessory, h.service]
  have hid : ∀ ch, (db'.characteristic ch).id = (db.characteristic ch).id := by
    intro ch
    obtain ⟨v, l, hch⟩ := h.characteristic ch
    rw [hch]
  funext aid iid
  simp only [homekitCharacteristicByAidAndIid, h.accessories, h.accessory, hof, hid]

theorem SameFrame.itemCharacteristic {db db' : Database} (h : SameFrame db db') (rt : Runtime) (j : CJson) :
    itemCharacteristic rt db' j = itemCharacteristic rt db j := by
  rw [ArduinoHomeKit.itemCharacteristic, ArduinoHomeKit.itemCharacteristic, h.byAidAndIid]

/-- The item subscribes its client to the characteristic. -/
structure Subscribes (rt : Runtime) (db : Database) (now : Nat) (j : CJson) (ch : CharacteristicId) : Prop where
  names : itemCharacteristic rt db j = some ch
  asks : j.getObjectItem (ascii "ev") = some (.boolean true)
  permitted : (db.characteristic ch).permissions ≠ 0
  accepted : ¬ ValueRefused rt (db.characteristic ch) now j

theorem Subscribes.congr {db db' : Database} (h : SameFrame db db') {now now' : Nat} (hs : Subscribes rt db' now' j ch) :
    Subscribes rt db now j ch := by
  obtain ⟨v, l, hch⟩ := h.characteristic ch
  refine ⟨h.itemCharacteristic rt j ▸ hs.names, hs.asks, ?_, ?_⟩
  · have hp := hs.permitted
    rwa [hch] at hp
  · rintro ⟨value, hvalue, hrefused⟩
    refine hs.accepted ⟨value, hvalue, ?_⟩
    rw [hch]
    exact hrefused.imp id (fun ⟨status, hst⟩ => ⟨status, writtenValue_refused_iff.mpr (writtenValue_refused_iff.mp hst)⟩)

theorem itemCharacteristic_mem {db : Database} (h : itemCharacteristic rt db j = some ch) : ch ∈ db.characteristics := by
  rw [itemCharacteristic] at h
  split at h
  · rw [homekitCharacteristicByAidAndIid] at h
    have hmem := List.mem_of_find?_eq_some h
    obtain ⟨a, ha, hch⟩ := List.mem_flatMap.mp hmem
    exact List.mem_flatMap.mpr ⟨a, (List.mem_filter.mp ha).1, hch⟩
  · simp at h

theorem Operation.mono {B : ClientId → CharacteristicId → Prop} (hAB : ∀ c ch, A c ch → B c ch)
    (h : Operation sketch A s s') : Operation sketch B s s' := by
  cases h with
  | notify ch value h => exact .notify ch value h
  | assign hs hq => exact .assign hs hq
  | free hf => exact .free hf
  | subscribe c ch ha hch => exact .subscribe c ch (hAB c ch ha) hch
  | unsubscribe c ch => exact .unsubscribe c ch

theorem Operates.mono {B : ClientId → CharacteristicId → Prop} (hAB : ∀ c ch, A c ch → B c ch)
    (h : Operates sketch A s s') : Operates sketch B s s' := by
  induction h with
  | refl => exact .refl
  | tail _ ho ih => exact ih.tail (ho.mono hAB)

theorem updateEvents_operates {events : CJson}
    (ha : events = .boolean true → (s.database.characteristic ch).permissions ≠ 0 → A c ch)
    (hch : ch ∈ s.database.characteristics) : Operates sketch A s (updateEvents c ch events s).1 := by
  unfold updateEvents
  split
  · exact .refl
  · rename_i hp
    split
    · exact .single (.subscribe c ch (ha rfl hp) hch)
    · exact .single (.unsubscribe c ch)

theorem processCharacteristicsUpdate_operates {status : HAPStatus}
    (h : processCharacteristicsUpdate sketch rt c j s = .ok (s', status)) :
    Operates sketch (fun d i => d = c ∧ Subscribes rt s.database s.now j i) s s' := by
  rw [processCharacteristicsUpdate] at h
  split at h
  · exact (Prod.mk.inj (Except.ok.inj h)).1 ▸ .refl
  · rename_i ch hch
    split at h
    · simp at h
    · rename_i s₁ hs₁
      have hvalue : Operates sketch (fun d i => d = c ∧ Subscribes rt s.database s.now j i) s s₁ :=
        updateItemValue_operates hs₁
      split at h
      · rename_i events hevents
        have hrefused : ¬ ValueRefused rt (s.database.characteristic ch) s.now j := by
          rcases updateItemValue_cases hs₁ with ⟨_, _, hne⟩ | ⟨hn, _⟩
          · exact absurd rfl hne
          · exact hn
        obtain ⟨v, l, hx⟩ := hvalue.sameFrame.characteristic ch
        have hset : Operates sketch (fun d i => d = c ∧ Subscribes rt s.database s.now j i) s₁
            (updateEvents c ch events s₁).1 := updateEvents_operates
          (fun he hp => ⟨rfl, hch, he ▸ hevents, by rwa [hx] at hp, hrefused⟩)
          (hvalue.sameFrame.characteristics ▸ itemCharacteristic_mem hch)
        rw [Except.ok.inj h] at hset
        exact hvalue.trans hset
      · exact (Prod.mk.inj (Except.ok.inj h)).1 ▸ hvalue
    · rename_i s₁ status' _ hs₁
      exact (Prod.mk.inj (Except.ok.inj h)).1 ▸ updateItemValue_operates hs₁

theorem updateItems_operates {items : List CJson} {r : AccessoryState υ × List HAPStatus}
    (h : updateItems sketch rt c items s = .ok r) :
    Operates sketch (fun d i => d = c ∧ ∃ j ∈ items, Subscribes rt s.database s.now j i) s r.1 := by
  induction items generalizing s r with
  | nil => exact Except.ok.inj h ▸ .refl
  | cons j items ih =>
    rw [updateItems] at h
    split at h
    · simp at h
    · rename_i s₁ status hs₁
      obtain ⟨r₁, hr₁, rfl⟩ := map_eq_ok.mp h
      have hone := processCharacteristicsUpdate_operates hs₁
      have hrest := ih hr₁
      refine (hone.mono (fun d i hi => ⟨hi.1, j, by simp, hi.2⟩)).trans (hrest.mono (fun d i hi => ?_))
      obtain ⟨hd, j', hj', hsub⟩ := hi
      exact ⟨hd, j', by simp [hj'], hsub.congr hone.sameFrame⟩

/-- The requests that subscribe a client. -/
def RequestSubscribes (rt : Runtime) (endpoint : Endpoint) (body : Bytes) (s : AccessoryState υ)
    (ch : CharacteristicId) : Prop :=
  endpoint = .updateCharacteristics ∧ ∃ items, updateRequestItems rt body = some items ∧
    ∃ j ∈ items, Subscribes rt s.database s.now j ch

theorem homekitServerOnUpdateCharacteristics_operates {body : Bytes} {r : AccessoryState υ × Answer}
    (h : homekitServerOnUpdateCharacteristics sketch rt c body s = .ok r) :
    Operates sketch (fun d i => d = c ∧ RequestSubscribes rt .updateCharacteristics body s i) s r.1 := by
  rw [homekitServerOnUpdateCharacteristics] at h
  split at h
  · exact Except.ok.inj h ▸ .refl
  · rename_i items hitems
    split at h
    · simp at h
    · rename_i s₁ statuses hs₁
      obtain ⟨answer, _, rfl⟩ := map_eq_ok.mp h
      have hall := (updateItems_operates hs₁).mono
        (B := fun d i => d = c ∧ RequestSubscribes rt .updateCharacteristics body s i)
        (fun d i hi => ⟨hi.1, rfl, items, hitems, hi.2⟩)
      exact hall.tail (.free (.string _))

/-! Requests. -/

theorem homekitServerOnIdentify_operates {paired : Bool} {r : AccessoryState υ × Answer}
    (h : homekitServerOnIdentify sketch rt paired s = .ok r) : Operates sketch A s r.1 := by
  rw [homekitServerOnIdentify] at h
  split at h
  · exact Except.ok.inj h ▸ .refl
  · obtain ⟨s₁, hs₁, rfl⟩ := map_eq_ok.mp h
    rw [identify] at hs₁
    split at hs₁
    · exact Except.ok.inj hs₁ ▸ .refl
    · split at hs₁
      · exact Except.ok.inj hs₁ ▸ .refl
      · have hset : Operates sketch A _ s₁ := callSetter_operates hs₁
        exact hset.after (.refl _) rfl

theorem handleRequest_operates {endpoint : Endpoint} {paired : Bool} {query : Option Bytes} {body : Bytes}
    {r : AccessoryState υ × Answer} (h : handleRequest sketch rt endpoint paired c query body s = .ok r) :
    Operates sketch (fun d i => d = c ∧ RequestSubscribes rt endpoint body s i) s r.1 := by
  cases endpoint with
  | identify => exact homekitServerOnIdentify_operates h
  | getAccessories =>
    obtain ⟨r₁, hr₁, rfl⟩ := map_eq_ok.mp h
    exact getAccessoriesCalls_operates hr₁
  | getCharacteristics =>
    rw [handleRequest] at h
    split at h
    · simp at h
    · exact homekitServerOnGetCharacteristics_operates h
  | updateCharacteristics => exact homekitServerOnUpdateCharacteristics_operates h
  | resource =>
    obtain rfl := Except.ok.inj h
    rw [homekitServerOnResource]
    split
    · exact .refl
    · exact operates_assign (.refl _) rfl
  | _ => exact Except.ok.inj h ▸ .refl

/-- What the accessory side makes of a request, if it survives it. -/
theorem accessoryServe_operates {endpoint : Endpoint} {paired : Bool} {query : Option Bytes} {body : Bytes}
    {app : Except Fault (AccessoryState υ)}
    (h : (accessoryServe sketch rt endpoint paired c query body app).1 = .ok s') :
    ∃ s, app = .ok s ∧ Operates sketch (fun d i => d = c ∧ RequestSubscribes rt endpoint body s i) s s' := by
  cases app with
  | error e => simp [accessoryServe] at h
  | ok s =>
    rw [accessoryServe] at h
    split at h
    · simp at h
    · rename_i s₁ answer hs₁
      split at h
      · simp at h
      · obtain rfl := Except.ok.inj h
        exact ⟨s, rfl, handleRequest_operates hs₁⟩

/-- A pass takes the events from the queue of its client. -/
theorem accessoryEvents_drains {app : Except Fault (AccessoryState υ)} (h : (accessoryEvents sketch rt c app).1 = .ok s') :
    ∃ s q, app = .ok s ∧ Operates sketch A { s with eventQueue := Function.update s.eventQueue c q } s' := by
  cases app with
  | error e => simp [accessoryEvents] at h
  | ok s =>
    rw [accessoryEvents] at h
    split at h
    · simp at h
    · rename_i s₁ payloads hs₁
      obtain rfl := Except.ok.inj h
      unfold clientEvents at hs₁
      dsimp only at hs₁
      split at hs₁
      · obtain ⟨rfl, _⟩ := Prod.mk.inj (Except.ok.inj hs₁)
        exact ⟨s, s.eventQueue c, rfl, by rw [Function.update_eq_self]⟩
      · split at hs₁
        · simp at hs₁
        · split at hs₁
          · simp at hs₁
          · rename_i s₂ calls hs₂
            split at hs₁
            · simp at hs₁
            · obtain ⟨_, _, he⟩ := map_eq_ok.mp hs₁
              obtain ⟨rfl, _⟩ := Prod.mk.inj he
              rw [clientEventsCalls_eq] at hs₂
              obtain ⟨rfl, _⟩ := Prod.mk.inj (Except.ok.inj hs₂)
              exact ⟨s, _, rfl, .refl⟩

end ArduinoHomeKit
