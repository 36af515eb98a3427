import ArduinoHomeKit.AccessoryOperations
import ArduinoHomeKit.Handlers
import ArduinoHomeKit.WriteEvents

/-! When the items of PUT /characteristics are processed to the end: what of the items, of the
database and of its values before the request decides it. -/

namespace ArduinoHomeKit

variable {υ : Type} {sketch : Sketch υ} {rt : Runtime} {c d : ClientId} {ch i : CharacteristicId} {j value : CJson}
  {s s' t t' : AccessoryState υ} {v : HomekitValue} {x : Characteristic}

/-! What is asked of an item. -/

instance (rt : Runtime) (x : Characteristic) (j : CJson) : Decidable (Unwritable rt x j) := by
  unfold Unwritable
  split <;> exact inferInstance

/-- The setters of the application return, and assign to their own characteristic only. -/
structure SettersReturn (sketch : Sketch υ) : Prop where
  set : ∀ g ch value (s : AccessoryState υ), ∃ s', callSetter sketch g ch value s = .ok s'
  own : ∀ g ch value db u i v, .assign i v ∈ (sketch.setter g ch value db u).2 → i = ch

/-- What the application leaves alone. -/
structure UserKeeps (t t' : AccessoryState υ) : Prop where
  currentCharacteristic : t'.currentCharacteristic = t.currentCharacteristic
  currentValue : t'.currentValue = t.currentValue
  now : t'.now = t.now

theorem runUserCalls_keeps {calls : List UserCall} (h : runUserCalls sketch calls t = .ok t') :
    UserKeeps t t' ∧ ∀ i, (∀ v, .assign i v ∉ calls) →
      (t'.database.characteristic i).value = (t.database.characteristic i).value := by
  induction calls generalizing t with
  | nil =>
    obtain rfl := Except.ok.inj h
    exact ⟨⟨rfl, rfl, rfl⟩, fun _ _ => rfl⟩
  | cons call calls ih =>
    cases call with
    | assign k w =>
      obtain ⟨hkept, hvalues⟩ := ih (t := t.setValue k w) h
      refine ⟨⟨hkept.currentCharacteristic, hkept.currentValue, hkept.now⟩, fun i hi => ?_⟩
      have hik : i ≠ k := by
        rintro rfl
        exact hi w List.mem_cons_self
      rw [hvalues i (fun v hv => hi v (List.mem_cons_of_mem _ hv)), AccessoryState.setValue, setCharacteristic_of_ne hik]
    | notify k w =>
      rw [runUserCalls] at h
      cases hn : homekitCharacteristicNotify sketch t k w with
      | error e => simp [hn] at h
      | ok t₁ =>
        simp only [hn] at h
        have hnotified := homekitCharacteristicNotify_notified hn
        obtain ⟨hkept, hvalues⟩ := ih h
        refine ⟨⟨hkept.currentCharacteristic.trans hnotified.currentCharacteristic,
          hkept.currentValue.trans hnotified.currentValue, hkept.now.trans hnotified.now⟩, fun i hi => ?_⟩
        rw [hvalues i (fun v hv => hi v (List.mem_cons_of_mem _ hv)), hnotified.database]

/-! One write. -/

theorem homekitValueDestruct_freeList (found : List Tlv) (v : HomekitValue) :
    homekitValueDestruct (v.freeList found) = homekitValueDestruct v := by
  obtain ⟨isNull, isStatic, format, union⟩ := v
  cases union with
  | tlvValues p =>
    cases p with
    | null => rfl
    | block life list => cases life <;> rfl
  | _ => rfl

/-- A write changes the value of its own characteristic only, which can be freed afterwards unless
a setter takes care of it. -/
theorem storeWritten_keeps (hs : SettersReturn sketch) (h : storeWritten sketch ch v t = .ok t') :
    UserKeeps t t' ∧
      (∀ i ≠ ch, (t'.database.characteristic i).value = (t.database.characteristic i).value) ∧
      ((t.database.characteristic ch).setterEx = none →
        homekitValueDestruct (t'.database.characteristic ch).value = .ok ()) := by
  have hset : ∀ w, homekitValueDestruct w = .ok () → UserKeeps t (t.setValue ch w) ∧
      (∀ i ≠ ch, ((t.setValue ch w).database.characteristic i).value = (t.database.characteristic i).value) ∧
      ((t.database.characteristic ch).setterEx = none →
        homekitValueDestruct ((t.setValue ch w).database.characteristic ch).value = .ok ()) := by
    intro w hw
    refine ⟨⟨rfl, rfl, rfl⟩, fun i hi => ?_, fun _ => ?_⟩
    · rw [AccessoryState.setValue, setCharacteristic_of_ne hi]
    · rw [AccessoryState.setValue, setCharacteristic_self]
      exact hw
  rw [storeWritten] at h
  split at h
  · rename_i g hg
    obtain ⟨hkept, hvalues⟩ := runUserCalls_keeps h
    refine ⟨⟨hkept.currentCharacteristic, hkept.currentValue, hkept.now⟩, fun i hi => ?_, fun hn => ?_⟩
    · exact hvalues i (fun w hw => hi (hs.own _ _ _ _ _ _ _ hw))
    · cases hg.symm.trans hn
  · split at h
    · split at h
      · simp at h
      · obtain ⟨copy, hcopy, rfl⟩ := map_eq_ok.mp h
        exact hset copy (homekitValueDestruct_copy hcopy)
    · rename_i hp
      obtain rfl := Except.ok.inj h
      exact hset v (homekitValueDestruct_scalar (by simpa using hp))

/-- How far the items have come: what the writes of `earlier` items have made of the state before
the request. -/
structure Progress (c : ClientId) (s t : AccessoryState υ) (earlier : List (CharacteristicId × CJson)) : Prop where
  frame : SameFrame s.database t.database
  now : t.now = s.now + earlier.length
  currentValue : ∀ d ≠ c, t.currentValue d = s.currentValue d
  currentCharacteristic : ∀ d ≠ c, t.currentCharacteristic d = s.currentCharacteristic d
  subscribed : ∀ d ≠ c, ∀ i, Subscribed t.database i d ↔ Subscribed s.database i d
  freed : ∀ i, (s.database.characteristic i).setterEx = none →
    (homekitValueDestruct (t.database.characteristic i).value = .ok () ↔
      i ∈ earlier.map Prod.fst ∨ homekitValueDestruct (s.database.characteristic i).value = .ok ())

variable {earlier : List (CharacteristicId × CJson)}

theorem Progress.refl (c : ClientId) (s : AccessoryState υ) : Progress c s s [] where
  frame := (SameShape.refl _).sameFrame
  now := rfl
  currentValue _ _ := rfl
  currentCharacteristic _ _ := rfl
  subscribed _ _ _ := .rfl
  freed i _ := by simp

theorem updateEvents_database (c : ClientId) (ch : CharacteristicId) (events : CJson) (t : AccessoryState υ) :
    ∃ db, (updateEvents c ch events t).1 = { t with database := db } ∧ SameFrame t.database db := by
  unfold updateEvents
  split
  · exact ⟨t.database, rfl, (SameShape.refl _).sameFrame⟩
  · split
    · exact ⟨_, rfl, sameFrame_setCallbacks ..⟩
    · exact ⟨_, rfl, sameFrame_setCallbacks ..⟩

/-- An item with an event flag changes the subscription of its own client. -/
theorem Progress.events (h : Progress c s t earlier) (ch : CharacteristicId) (events : CJson) :
    Progress c s (updateEvents c ch events t).1 earlier := by
  obtain ⟨db, he, hframe⟩ := updateEvents_database c ch events t
  have hsubscribed : ∀ d ≠ c, ∀ i, Subscribed db i d ↔ Subscribed t.database i d := by
    intro d hd i
    by_cases hp : (t.database.characteristic ch).permissions = 0
    · rw [updateEvents_unsupported hp] at he
      rw [show t.database = db from congrArg AccessoryState.database he]
    · have hothers := (updateEvents_right c events hp).2.2.2 d hd i
      rwa [he] at hothers
  have hvalues : ∀ i, (db.characteristic i).value = (t.database.characteristic i).value := by
    intro i
    have hvalue := (updateEvents_values c ch events t i).2
    rwa [he] at hvalue
  rw [he]
  exact ⟨h.frame.trans hframe, h.now, h.currentValue, h.currentCharacteristic,
    fun d hd i => (hsubscribed d hd i).trans (h.subscribed d hd i), fun i hi => hvalues i ▸ h.freed i hi⟩

/-- Behind the write of a value there is one write more. -/
theorem Progress.write (hs : SettersReturn sketch) (h : Progress c s t earlier) {t₁ : AccessoryState υ}
    (hstore : storeWritten sketch ch v { t with now := t.now + 1 } = .ok t₁) {w : HomekitValue}
    (hn : notifyWritten sketch c ch w (freeWritten rt (t.database.characteristic ch) v t₁).2 = .ok t') (value : CJson) :
    Progress c s t' (earlier ++ [(ch, value)]) := by
  obtain ⟨hkept, hvalues, hch⟩ := storeWritten_keeps hs hstore
  have hshape : SameShape t.database t'.database := by
    rw [notifyWritten_database hn]
    exact (storeWritten_shape (s := { t with now := t.now + 1 }) hstore).trans (freeWritten_shape ..)
  have hmemory : (freeWritten rt (t.database.characteristic ch) v t₁).2.currentValue = t₁.currentValue ∧
      (freeWritten rt (t.database.characteristic ch) v t₁).2.currentCharacteristic = t₁.currentCharacteristic ∧
      (freeWritten rt (t.database.characteristic ch) v t₁).2.now = t₁.now := by
    rw [freeWritten]
    split <;> exact ⟨rfl, rfl, rfl⟩
  have hdestruct : ∀ i, homekitValueDestruct (t'.database.characteristic i).value =
      homekitValueDestruct (t₁.database.characteristic i).value := by
    intro i
    rw [notifyWritten_database hn, freeWritten]
    split
    · exact homekitValueDestruct_freeList _ _
    · rfl
  have hnotify : t'.now = t₁.now ∧ (∀ d ≠ c, t'.currentValue d = t₁.currentValue d) ∧
      ∀ d ≠ c, t'.currentCharacteristic d = t₁.currentCharacteristic d := by
    rw [← hmemory.1, ← hmemory.2.1, ← hmemory.2.2]
    rw [notifyWritten] at hn
    split at hn
    · obtain rfl := Except.ok.inj hn
      exact ⟨rfl, fun _ _ => rfl, fun _ _ => rfl⟩
    · obtain ⟨t₂, ht₂, rfl⟩ := map_eq_ok.mp hn
      have hnotified := homekitCharacteristicNotify_notified ht₂
      refine ⟨hnotified.now, fun d hd => ?_, fun d hd => ?_⟩
      · simp [hd, hnotified.currentValue]
      · simp [hd, hnotified.currentCharacteristic]
  refine ⟨h.frame.trans hshape.sameFrame, ?_, fun d hd => ?_, fun d hd => ?_, fun d hd i => ?_, fun i hi => ?_⟩
  · rw [hnotify.1, hkept.now, List.length_append, List.length_singleton, h.now, Nat.add_assoc]
  · rw [hnotify.2.1 d hd, hkept.currentValue, h.currentValue d hd]
  · rw [hnotify.2.2 d hd, hkept.currentCharacteristic, h.currentCharacteristic d hd]
  · exact (hshape.subscribed i d).trans (h.subscribed d hd i)
  · rw [hdestruct, List.map_append, List.mem_append, or_assoc, or_comm (a := i ∈ List.map Prod.fst [(ch, value)]), ← or_assoc,
      ← h.freed i hi]
    by_cases hich : i = ch
    · subst hich
      obtain ⟨w', l, hx⟩ := h.frame.characteristic i
      have hset : (t.database.characteristic i).setterEx = none := by rw [hx]; exact hi
      simp [hch hset]
    · simp [hvalues i hich, hich]

end ArduinoHomeKit
