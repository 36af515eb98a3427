import ArduinoHomeKit.AccessoryServer
import ArduinoHomeKit.MultiStatus

/-! The events of a client: what the notifications between two passes leave in its queue, and the
message that the next pass makes of it. -/

namespace ArduinoHomeKit

variable {υ : Type} {sketch : Sketch υ} {rt : Runtime} {c : ClientId} {s s' s₀ : AccessoryState υ} {db : Database}
  {ch : CharacteristicId} {value v u : HomekitValue}

/-! Copies. -/

section Copies

theorem low_low (width : Nat) (x : Union) : (Union.bits (x.low width)).low width = x.low width := by
  cases x <;> simp [Union.low]

/-- The union of a copy is copied as it is. -/
theorem copyUnion_copy {union : Union} (h : copyUnion v = .ok union) :
    copyUnion { isNull := false, isStatic := v.isStatic && v.format.isPointer, format := v.format, union := union } =
      .ok union := by
  obtain ⟨isNull, isStatic, format, source⟩ := v
  cases format with
  | string =>
    cases isStatic with
    | true =>
      obtain rfl := Except.ok.inj h
      rfl
    | false =>
      obtain ⟨text, _, rfl⟩ := map_eq_ok.mp h
      simp [copyUnion, Union.stringValue, Pointer.deref, Except.map, CString.strdup_strdup]
  | tlv =>
    cases isStatic with
    | true =>
      obtain rfl := Except.ok.inj h
      rfl
    | false =>
      obtain ⟨list, _, rfl⟩ := map_eq_ok.mp h
      rfl
  | data =>
    cases isStatic with
    | true =>
      obtain rfl := Except.ok.inj h
      rfl
    | false =>
      by_cases hsize : source.dataSize = 0
      · simp only [copyUnion, Bool.false_eq_true, if_false, hsize, if_true, Except.ok.injEq] at h
        rw [← h]
        rfl
      · simp only [copyUnion, Bool.false_eq_true, if_false, hsize] at h
        obtain ⟨content, _, rfl⟩ := map_eq_ok.mp h
        generalize source.dataSize = size at hsize ⊢
        simp [copyUnion, Format.isPointer, Union.dataSize, hsize, Union.dataValue, Pointer.deref, Except.map]
  | _ =>
    obtain rfl := Except.ok.inj h
    exact congrArg (fun word => Except.ok (Union.bits word)) (low_low _ source)

/-- What was copied is its own copy. -/
theorem homekitValueCopy_copy (h : homekitValueCopy v = .ok u) : homekitValueCopy u = .ok u := by
  rw [homekitValueCopy] at h
  split at h
  · obtain rfl := Except.ok.inj h
    rfl
  · obtain ⟨union, hu, rfl⟩ := map_eq_ok.mp h
    rw [homekitValueCopy, if_neg Bool.false_ne_true, copyUnion_copy hu]
    simp [Except.map]

/-- What was copied may be freed: it is marked static, or has its own block. -/
theorem homekitValueDestruct_copy (h : homekitValueCopy v = .ok u) : homekitValueDestruct u = .ok () := by
  rw [homekitValueCopy] at h
  split at h
  · obtain rfl := Except.ok.inj h
    rfl
  · obtain ⟨union, hu, rfl⟩ := map_eq_ok.mp h
    obtain ⟨isNull, isStatic, format, source⟩ := v
    cases isStatic with
    | true => cases format <;> rfl
    | false =>
      cases format with
      | string =>
        obtain ⟨text, _, rfl⟩ := map_eq_ok.mp hu
        rfl
      | tlv =>
        obtain ⟨list, _, rfl⟩ := map_eq_ok.mp hu
        rfl
      | data =>
        by_cases hsize : source.dataSize = 0
        · simp only [copyUnion, Bool.false_eq_true, if_false, hsize, if_true, Except.ok.injEq] at hu
          rw [← hu]
          rfl
        · simp only [copyUnion, Bool.false_eq_true, if_false, hsize] at hu
          obtain ⟨content, _, rfl⟩ := map_eq_ok.mp hu
          rfl
      | _ => rfl

/-- What the end of a request does to the values that are held: nothing, or the list or the strings
of the request are freed. -/
inductive Frees : (HomekitValue → HomekitValue) → Prop
  | nothing : Frees id
  | list (found : List Tlv) : Frees (HomekitValue.freeList found)
  | string (found : Bytes) : Frees (HomekitValue.freeString found)

/-- A copy that still points into the request is marked static, and copied as a pointer. -/
theorem Frees.copy {f : HomekitValue → HomekitValue} (hf : Frees f) (h : homekitValueCopy u = .ok u) :
    homekitValueCopy (f u) = .ok (f u) := by
  obtain ⟨isNull, isStatic, format, union⟩ := u
  cases hf with
  | nothing => exact h
  | list found =>
    cases union with
    | tlvValues p =>
      cases p with
      | null => exact h
      | block life list =>
        cases life with
        | request =>
          cases format <;> cases isNull <;> cases isStatic <;> cases h
          rfl
        | _ => exact h
    | _ => exact h
  | string found =>
    cases union with
    | string p =>
      cases p with
      | null => exact h
      | block life text =>
        cases life with
        | request =>
          cases format <;> cases isNull <;> cases isStatic <;> cases h
          rfl
        | _ => exact h
    | _ => exact h

end Copies

/-! Notifications. -/

section Notifications

/-- What a notification brings a client: nothing if it is not subscribed or writes the value itself. -/
def postedTo (s : AccessoryState υ) (ch : CharacteristicId) (value : HomekitValue) (c : ClientId) :
    List (CharacteristicId × HomekitValue) :=
  match isOwnWrite s ch value c with
  | .ok false => if clientCallback c ∈ (s.database.characteristic ch).callback then [(ch, value)] else []
  | _ => []

/-- The queue of the client after these events. -/
def pushEvents (q : Queue CharacteristicEvent) (events : List CharacteristicEvent) : Queue CharacteristicEvent :=
  events.foldl (fun q e => (qPush q e).2) q

/-- The event that stands for a notification. -/
def EventOf (p : CharacteristicId × HomekitValue) (e : CharacteristicEvent) : Prop :=
  e.characteristic = p.1 ∧ homekitValueCopy p.2 = .ok e.value

theorem isOwnWrite_notified (h : Notified s s') (c : ClientId) : isOwnWrite s' ch value c = isOwnWrite s ch value c := by
  rw [isOwnWrite, isOwnWrite, h.currentValue, h.currentCharacteristic]

/-- A callback of another client, or of the application, leaves the queue alone. -/
theorem runCallback_other {cb : Callback} (hcb : cb ≠ clientCallback c) (h : runCallback sketch s ch value cb = .ok s') :
    s'.eventQueue c = s.eventQueue c := by
  obtain ⟨function, context⟩ := cb
  cases function with
  | clientNotifyCharacteristic =>
    have hne : c ≠ context := fun he => hcb (by rw [he, clientCallback])
    rcases clientNotifyCharacteristic_cases h with ⟨_, rfl⟩ | ⟨_, copy, _, rfl⟩
    · rfl
    · exact Function.update_of_ne hne ..
  | user n =>
    obtain rfl := Except.ok.inj h
    rfl

theorem notifyLoop_other {cbs : List Callback} (hcbs : clientCallback c ∉ cbs)
    (h : notifyLoop sketch ch value cbs s = .ok s') : s'.eventQueue c = s.eventQueue c := by
  induction cbs generalizing s with
  | nil =>
    obtain rfl := Except.ok.inj h
    rfl
  | cons cb cbs ih =>
    obtain ⟨hcb, hcbs⟩ := not_or.mp (mt List.mem_cons.mpr hcbs)
    rw [notifyLoop] at h
    cases hr : runCallback sketch s ch value cb with
    | error e => simp [hr] at h
    | ok s₁ =>
      simp only [hr] at h
      rw [ih hcbs h, runCallback_other (Ne.symm hcb) hr]

/-- The callback of the client itself. -/
theorem runCallback_own (h : runCallback sketch s ch value (clientCallback c) = .ok s') :
    (isOwnWrite s ch value c = .ok true ∧ s'.eventQueue c = s.eventQueue c) ∨
      (isOwnWrite s ch value c = .ok false ∧ ∃ e, EventOf (ch, value) e ∧
        s'.eventQueue c = pushEvents (s.eventQueue c) [e]) := by
  rcases clientNotifyCharacteristic_cases h with ⟨hown, rfl⟩ | ⟨hown, copy, hcopy, rfl⟩
  · exact .inl ⟨hown, rfl⟩
  · refine .inr ⟨hown, { characteristic := ch, value := copy }, ⟨rfl, hcopy⟩, ?_⟩
    exact Function.update_self ..

/-- With the callback once in the list, the queue gets what was posted. -/
theorem notifyLoop_posted {cbs : List Callback} (hcount : cbs.count (clientCallback c) = 1)
    (h : notifyLoop sketch ch value cbs s = .ok s') :
    (isOwnWrite s ch value c = .ok true ∧ s'.eventQueue c = s.eventQueue c) ∨
      (isOwnWrite s ch value c = .ok false ∧ ∃ e, EventOf (ch, value) e ∧
        s'.eventQueue c = pushEvents (s.eventQueue c) [e]) := by
  induction cbs generalizing s with
  | nil => simp at hcount
  | cons cb cbs ih =>
    rw [notifyLoop] at h
    cases hr : runCallback sketch s ch value cb with
    | error e => simp [hr] at h
    | ok s₁ =>
      simp only [hr] at h
      by_cases hcb : cb = clientCallback c
      · subst hcb
        have hrest : clientCallback c ∉ cbs := by
          rw [← List.count_eq_zero]
          simpa using hcount
        rw [notifyLoop_other hrest h]
        exact runCallback_own hr
      · rw [← runCallback_other hcb hr, ← isOwnWrite_notified (runCallback_notified hr) c]
        exact ih (by simpa [hcb] using hcount) h

theorem homekitCharacteristicNotify_posted (honce : (s.database.characteristic ch).callback.count (clientCallback c) ≤ 1)
    (h : homekitCharacteristicNotify sketch s ch value = .ok s') :
    ∃ events, List.Forall₂ EventOf (postedTo s ch value c) events ∧
      s'.eventQueue c = pushEvents (s.eventQueue c) events := by
  by_cases hsub : clientCallback c ∈ (s.database.characteristic ch).callback
  · have hcount : (s.database.characteristic ch).callback.count (clientCallback c) = 1 := by
      have := List.count_pos_iff.mpr hsub
      omega
    rcases notifyLoop_posted hcount h with ⟨hown, hq⟩ | ⟨hown, e, he, hq⟩
    · exact ⟨[], by simp [postedTo, hown], hq⟩
    · exact ⟨[e], by simp [postedTo, hown, hsub, he], hq⟩
  · have hposted : postedTo s ch value c = [] := by
      rw [postedTo]
      split <;> simp [hsub]
    exact ⟨[], by simp [hposted], notifyLoop_other hsub h⟩

end Notifications

/-! Between two passes. -/

section Interval

/-- From `s₀` on, these notifications came for the client, oldest first. Nothing else than a
notification fills its queue; the values in it may be changed by the end of a request. -/
inductive Notices (sketch : Sketch υ) (c : ClientId) (s₀ : AccessoryState υ) :
    List (CharacteristicId × HomekitValue) → AccessoryState υ → Prop
  | start : Notices sketch c s₀ [] s₀
  | notify {l : List (CharacteristicId × HomekitValue)} {s s' : AccessoryState υ} {ch : CharacteristicId}
      {value : HomekitValue} (h : Notices sketch c s₀ l s)
      (honce : (s.database.characteristic ch).callback.count (clientCallback c) ≤ 1)
      (hn : homekitCharacteristicNotify sketch s ch value = .ok s') : Notices sketch c s₀ (l ++ postedTo s ch value c) s'
  | other {l : List (CharacteristicId × HomekitValue)} {s s' : AccessoryState υ} {f : HomekitValue → HomekitValue}
      (h : Notices sketch c s₀ l s) (hf : Frees f) (hq : s'.eventQueue c = (s.mapValues f).eventQueue c) :
      Notices sketch c s₀ l s'

/-- The events that are queued for a list of notifications, and those that are left of them. -/
structure Pending (n : Nat) (q : Queue CharacteristicEvent) (l : List (CharacteristicId × HomekitValue))
    (events : List CharacteristicEvent) : Prop where
  characteristics : events.map CharacteristicEvent.characteristic = l.map Prod.fst
  copies : ∀ e ∈ events, homekitValueCopy e.value = .ok e.value
  queued : Stacked n q (events.reverse.take n)

/-- A notification that reaches the client. -/
theorem Notices.posted {l : List (CharacteristicId × HomekitValue)} (h : Notices sketch c s₀ l s)
    (hp : postedTo s ch value c = [(ch, value)]) (honce : (s.database.characteristic ch).callback.count (clientCallback c) ≤ 1)
    (hn : homekitCharacteristicNotify sketch s ch value = .ok s') : Notices sketch c s₀ (l ++ [(ch, value)]) s' := by
  rw [← hp]
  exact .notify h honce hn

variable {l posted : List (CharacteristicId × HomekitValue)} {events pushed : List CharacteristicEvent} {n : Nat}
  {q : Queue CharacteristicEvent}

theorem Pending.push (h : Pending n q l events) (hp : List.Forall₂ EventOf posted pushed) :
    Pending n (pushEvents q pushed) (l ++ posted) (events ++ pushed) := by
  induction hp generalizing q l events with
  | nil => simpa [pushEvents] using h
  | @cons p e posted pushed he hp ih =>
    have hone : Pending n (qPush q e).2 (l ++ [p]) (events ++ [e]) := by
      refine ⟨by simp [h.characteristics, he.1], ?_, ?_⟩
      · rw [List.forall_mem_append, List.forall_mem_singleton]
        exact ⟨h.copies, homekitValueCopy_copy he.2⟩
      · rw [← Recent.keep_reverse_take]
        exact h.queued.push e
    have hrest := ih hone
    rw [List.append_assoc, List.append_assoc] at hrest
    exact hrest

theorem Pending.map (h : Pending n q l events) {f : HomekitValue → HomekitValue} (hf : Frees f) :
    Pending n { q with queue := fun i => { q.queue i with value := f (q.queue i).value } } l
      (events.map (fun e => { e with value := f e.value })) := by
  refine ⟨?_, ?_, ?_⟩
  · rw [← h.characteristics, List.map_map]
    rfl
  · intro e he
    obtain ⟨e', he', rfl⟩ := List.mem_map.mp he
    exact hf.copy (h.copies e' he')
  · rw [← List.map_reverse, ← List.map_take]
    exact h.queued.map (fun e => { e with value := f e.value })

/-- What the notifications since an empty queue have left in it. -/
theorem Notices.pending (h : Notices sketch c s₀ l s) (h0 : Stacked n (s₀.eventQueue c) []) :
    ∃ events, Pending n (s.eventQueue c) l events := by
  induction h with
  | start => exact ⟨[], rfl, fun e he => absurd he List.not_mem_nil, by simpa using h0⟩
  | notify _ honce hn ih =>
    obtain ⟨events, hp⟩ := ih
    obtain ⟨pushed, hposted, hq⟩ := homekitCharacteristicNotify_posted honce hn
    exact ⟨_, hq ▸ hp.push hposted⟩
  | other _ hf hq ih =>
    obtain ⟨events, hp⟩ := ih
    have hmap := hp.map hf
    exact ⟨_, by rw [hq]; exact hmap⟩

end Interval

/-! The message. -/

section Message

/-- The list that is made of the popped events. -/
def coalesced (popped : List CharacteristicEvent) : List CharacteristicEvent :=
  Recent.gather CharacteristicEvent.characteristic popped

theorem destructEvents_ok {events : List CharacteristicEvent} (h : ∀ e ∈ events, homekitValueCopy e.value = .ok e.value) :
    destructEvents events = .ok () := by
  induction events with
  | nil => rfl
  | cons e events ih =>
    obtain ⟨he, hevents⟩ := List.forall_mem_cons.mp h
    simp only [destructEvents, homekitValueDestruct_copy he]
    exact ih hevents

theorem collectEvents_ok {popped events : List CharacteristicEvent}
    (h : ∀ e ∈ popped, homekitValueCopy e.value = .ok e.value) (hevents : ∀ e ∈ events, homekitValueCopy e.value = .ok e.value) :
    collectEvents popped events = .ok (popped.foldl (Recent.put CharacteristicEvent.characteristic) events) := by
  induction popped generalizing events with
  | nil => rfl
  | cons e popped ih =>
    obtain ⟨he, hpopped⟩ := List.forall_mem_cons.mp h
    have hfound : destructEvents (events.find? (fun d => d.characteristic = e.characteristic)).toList = .ok () :=
      destructEvents_ok (fun d hd => hevents d (List.mem_of_find?_eq_some (Option.mem_toList.mp hd)))
    simp only [collectEvents, hfound, he, homekitValueDestruct_copy he]
    refine ih hpopped (fun d hd => ?_)
    rcases Recent.mem_put hd with rfl | hd
    · exact he
    · exact hevents d hd

theorem coalesced_copies {popped : List CharacteristicEvent} (h : ∀ e ∈ popped, homekitValueCopy e.value = .ok e.value) :
    ∀ e ∈ coalesced popped, homekitValueCopy e.value = .ok e.value := fun e he => h e (Recent.mem_of_mem_gather he)

theorem collectEvents_nil {popped : List CharacteristicEvent} (h : ∀ e ∈ popped, homekitValueCopy e.value = .ok e.value) :
    collectEvents popped [] = .ok (coalesced popped) := collectEvents_ok h (fun _ he => absurd he List.not_mem_nil)

/-- The object of an event. -/
def eventTree (rt : Runtime) (db : Database) (e : CharacteristicEvent) : JsonTree :=
  .object (idMembers db (db.characteristic e.characteristic) ++
    if hasFlag (db.characteristic e.characteristic).permissions Permissions.pairedRead then
      valueMembers rt (db.characteristic e.characteristic) e.value
    else [])

theorem headMembers_plain (ch : CharacteristicId) : headMembers rt db c ch 0 = idMembers db (db.characteristic ch) := by
  rw [headMembers_eq]
  simp [detailMembers, hasFlag]

theorem writeEvent_eq (e : CharacteristicEvent) (s : AccessoryState υ) :
    inObject (writeCharacteristicJson sketch rt c 0 e.characteristic (some e.value) s) =
      .ok (s, treeCalls (eventTree rt s.database e)) := by
  have hhead : characteristicHeadCalls rt s.database c e.characteristic 0 =
      memberCalls (idMembers s.database (s.database.characteristic e.characteristic)) := by
    rw [← memberCalls_headMembers, headMembers_plain]
  rw [writeCharacteristicJson, eventTree, treeCalls, memberCalls_append]
  cases hasFlag (s.database.characteristic e.characteristic).permissions Permissions.pairedRead with
  | false => simp [hhead, inObject, Except.map, memberCalls]
  | true => simp [hhead, inObject, Except.map, memberCalls_valueMembers]

theorem clientEventsCalls_eq (events : List CharacteristicEvent) (s : AccessoryState υ) :
    clientEventsCalls sketch rt c events s =
      .ok (s, treeCalls (characteristicsTree (events.map (eventTree rt s.database)))) := by
  have hloop : ∀ events : List CharacteristicEvent,
      loopCalls (fun e s => inObject (writeCharacteristicJson sketch rt c 0 e.characteristic (some e.value) s)) events s =
        .ok (s, itemCalls (events.map (eventTree rt s.database))) := by
    intro events
    induction events with
    | nil => rfl
    | cons e events ih =>
      rw [loopCalls, writeEvent_eq]
      dsimp only
      rw [ih]
      rfl
  rw [clientEventsCalls, hloop, treeCalls_characteristicsTree]
  simp [inObject, withArray, Except.map]

theorem eventTree_sound (e : CharacteristicEvent) :
    (∀ x, eventTree rt db e ≠ .string x) ∧ (eventTree rt db e).Exposed fitsBuffer ∧ (eventTree rt db e).depth ≤ 3 := by
  refine ⟨fun x hx => (nomatch hx), MembersSound.object ?_⟩
  rw [membersSound_append]
  refine ⟨idMembers_sound _, ?_⟩
  split
  · exact valueMembers_sound _ _
  · exact membersSound_nil 2

theorem eventsTree_depth (rt : Runtime) (db : Database) (events : List CharacteristicEvent) :
    (characteristicsTree (events.map (eventTree rt db))).depth ≤ jsonMaxDepth := by
  apply characteristicsTree_depth
  intro item hitem
  obtain ⟨e, _, rfl⟩ := List.mem_map.mp hitem
  exact (eventTree_sound e).2.2

/-- The pass over a queue with events. -/
theorem clientEvents_eq (sketch : Sketch υ) (rt : Runtime) {n : Nat} {popped : List CharacteristicEvent}
    (h : Stacked n (s.eventQueue c) popped)
    (hne : popped ≠ []) (hcopies : ∀ e ∈ popped, homekitValueCopy e.value = .ok e.value) :
    ∃ s' chunks, chunkedBody homekitJsonBufferSize
        (treeCalls (characteristicsTree ((coalesced popped).map (eventTree rt s.database)))) = .ok chunks ∧
      clientEvents sketch rt c s = .ok (s', eventHeaders :: chunks) ∧ Stacked n (s'.eventQueue c) [] := by
  obtain ⟨hdrain, hrest⟩ := h.drain (Nat.le_of_eq h.cnt.symm)
  have hsize : homekitJsonBufferSize ≤ 65535 := by decide
  obtain ⟨chunks, _, hchunks, _⟩ := chunkedBody_tree hsize
    (eventsTree_depth rt s.database (coalesced popped))
  refine ⟨{ s with eventQueue := Function.update s.eventQueue c (qDrain (s.eventQueue c).cnt (s.eventQueue c)).2 },
    chunks, hchunks, ?_, ?_⟩
  · rw [clientEvents]
    simp only [hdrain, if_neg hne, collectEvents_nil hcopies, clientEventsCalls_eq, chunkedPayloads, hchunks,
      Except.map, destructEvents_ok (coalesced_copies hcopies)]
  · simpa using hrest

end Message

/-! The pass of the server. -/

section Pass

variable {π : Type} {crypto : WolfCrypt} {http : HttpParser π} {env : Environment}
  {w : World (accessoryPlatform sketch rt crypto http env)} {events : List CharacteristicEvent}
  {l : List (CharacteristicId × HomekitValue)} {n : Nat}

/-- The pass sends the client one message made of these events, the coalesced content of its queue. -/
def PassSends (w : World (accessoryPlatform sketch rt crypto http env)) (c : ClientId) (s : AccessoryState υ)
    (events : List CharacteristicEvent) : Prop :=
  collectEvents (qDrain (s.eventQueue c).cnt (s.eventQueue c)).1 [] = .ok events ∧
    ∃ s' chunks, processNotifications w c = sendAll { w with app := .ok s' } c (eventHeaders :: chunks) ∧
      chunkedBody homekitJsonBufferSize (treeCalls (characteristicsTree (events.map (eventTree rt s.database)))) = .ok chunks

theorem processNotifications_eq (hstep : (w.client c).step = .pairVerify2Of2) (happ : w.app = .ok s)
    {payloads : List Bytes} (h : clientEvents sketch rt c s = .ok (s', payloads)) :
    processNotifications w c = sendAll { w with app := .ok s' } c payloads := by
  have hevents : accessoryEvents sketch rt c w.app = (.ok s', payloads) := by
    rw [happ]
    simp only [accessoryEvents, h]
  rw [processNotifications, if_neg (by simp [hstep])]
  show sendAll { w with app := (accessoryEvents sketch rt c w.app).1 } c (accessoryEvents sketch rt c w.app).2 = _
  rw [hevents]

/-- Nothing is sent when nothing was notified. -/
theorem pass_nothing (hstep : (w.client c).step = .pairVerify2Of2) (happ : w.app = .ok s)
    (h : Stacked n (s.eventQueue c) []) : processNotifications w c = w := by
  have hevents : clientEvents sketch rt c s = .ok (s, []) := by
    rw [clientEvents]
    simp [(h.drain (Nat.le_of_eq h.cnt.symm)).1]
  rw [processNotifications_eq hstep happ hevents, ← happ]
  rfl

/-- The message of a pass is made of the newest events, and of nothing else. -/
theorem passSends_coalesced {popped : List CharacteristicEvent} (hstep : (w.client c).step = .pairVerify2Of2)
    (happ : w.app = .ok s) (h : Stacked n (s.eventQueue c) popped) (hne : popped ≠ [])
    (hcopies : ∀ e ∈ popped, homekitValueCopy e.value = .ok e.value) :
    PassSends w c s events ↔ events = coalesced popped := by
  obtain ⟨s', chunks, hchunks, hevents, _⟩ := clientEvents_eq sketch rt h hne hcopies
  have hcollect : collectEvents (qDrain (s.eventQueue c).cnt (s.eventQueue c)).1 [] = .ok (coalesced popped) := by
    rw [(h.drain (Nat.le_of_eq h.cnt.symm)).1]
    exact collectEvents_nil hcopies
  constructor
  · rintro ⟨hc, _⟩
    exact Except.ok.inj (hc.symm.trans hcollect)
  · rintro rfl
    exact ⟨hcollect, s', chunks, processNotifications_eq hstep happ hevents, hchunks⟩

/-- The characteristics in the next message are those of the last four notifications, each once. -/
theorem message_of_last_four (hstep : (w.client c).step = .pairVerify2Of2) (happ : w.app = .ok s)
    (h : Notices sketch c s₀ l s) (h0 : Stacked 4 (s₀.eventQueue c) []) :
    (l = [] → processNotifications w c = w) ∧
      (l ≠ [] → ∃ events, PassSends w c s events ∧ (events.map CharacteristicEvent.characteristic).Nodup ∧
        ∀ ch, ch ∈ events.map CharacteristicEvent.characteristic ↔ ch ∈ (l.reverse.take 4).map Prod.fst) := by
  obtain ⟨all, hp⟩ := h.pending h0
  have hlength : all.length = l.length := by
    simpa using congrArg List.length hp.characteristics
  constructor
  · rintro rfl
    obtain rfl : all = [] := List.eq_nil_of_length_eq_zero hlength
    exact pass_nothing hstep happ hp.queued
  · intro hne
    have hpopped : all.reverse.take 4 ≠ [] := by
      intro hn
      have hpos := List.length_pos_of_ne_nil hne
      have hzero := congrArg List.length hn
      simp only [List.length_take, List.length_reverse, hlength, List.length_nil] at hzero
      omega
    have hcopies : ∀ e ∈ all.reverse.take 4, homekitValueCopy e.value = .ok e.value := fun e he =>
      hp.copies e (List.mem_reverse.mp (List.mem_of_mem_take he))
    refine ⟨_, (passSends_coalesced hstep happ hp.queued hpopped hcopies).mpr rfl, Recent.nodup_gather _, fun ch => ?_⟩
    rw [coalesced, Recent.mem_keys_gather, List.map_take, List.map_reverse, hp.characteristics, List.map_take,
      List.map_reverse]

end Pass

/-! Two switches, both subscribed to by client 0, whose session is open. -/

def eventSwitch (id : UInt32) : Characteristic :=
  { benchCharacteristic id (benchScalar .uint8 0) with callback := [clientCallback 0] }

/-- The server after the notifications, each of which the sketch makes. -/
def afterNotifications (l : List (CharacteristicId × HomekitValue)) : AccessoryState Unit :=
  match runUserCalls benchSketch (l.map (fun p => .notify p.1 p.2)) (benchState ((List.range 5).map (fun i => eventSwitch (UInt32.ofNat i)))) with
  | .ok s => s
  | .error _ => benchState []

def sessionWith (s : AccessoryState Unit) : World accessoryBench :=
  { accessoryBoot.setClient 0 { accessoryClient with step := .pairVerify2Of2 } with app := .ok s, clients := [0] }

/-- Five switches are turned on. -/
def fiveOn : List (CharacteristicId × HomekitValue) := (List.range 5).map (fun i => (i, benchScalar .uint8 1))

theorem benchState_stacked (characteristics : List Characteristic) :
    Stacked 4 ((benchState characteristics).eventQueue 0) [] := stacked_qInit _ (by decide)

theorem fiveOn_notices : Notices benchSketch 0 (afterNotifications []) fiveOn (afterNotifications fiveOn) := by
  have h0 : Notices benchSketch 0 (afterNotifications []) (fiveOn.take 0) (afterNotifications (fiveOn.take 0)) := .start
  have h1 : Notices benchSketch 0 (afterNotifications []) (fiveOn.take 1) (afterNotifications (fiveOn.take 1)) :=
    h0.posted rfl (by decide) rfl
  have h2 : Notices benchSketch 0 (afterNotifications []) (fiveOn.take 2) (afterNotifications (fiveOn.take 2)) :=
    h1.posted rfl (by decide) rfl
  have h3 : Notices benchSketch 0 (afterNotifications []) (fiveOn.take 3) (afterNotifications (fiveOn.take 3)) :=
    h2.posted rfl (by decide) rfl
  have h4 : Notices benchSketch 0 (afterNotifications []) (fiveOn.take 4) (afterNotifications (fiveOn.take 4)) :=
    h3.posted rfl (by decide) rfl
  exact h4.posted rfl (by decide) rfl

theorem message_of_last_four_fiveOn :
    (fiveOn = [] → processNotifications (sessionWith (afterNotifications fiveOn)) 0 =
      sessionWith (afterNotifications fiveOn)) ∧
      (fiveOn ≠ [] → ∃ events, PassSends (sessionWith (afterNotifications fiveOn)) 0 (afterNotifications fiveOn) events ∧
        (events.map CharacteristicEvent.characteristic).Nodup ∧
        ∀ ch, ch ∈ events.map CharacteristicEvent.characteristic ↔ ch ∈ (fiveOn.reverse.take 4).map Prod.fst) :=
  message_of_last_four rfl rfl fiveOn_notices (benchState_stacked _)

/-- Of five switches the first one is missing from the message. -/
theorem fifth_event_lost :
    Notices benchSketch 0 (afterNotifications []) fiveOn (afterNotifications fiveOn) ∧
      ¬ ∃ events, PassSends (sessionWith (afterNotifications fiveOn)) 0 (afterNotifications fiveOn) events ∧
        ∀ ch, ch ∈ events.map CharacteristicEvent.characteristic ↔ ch ∈ fiveOn.map Prod.fst := by
  refine ⟨fiveOn_notices, ?_⟩
  rintro ⟨events, ⟨hevents, _⟩, hall⟩
  have hfour : collectEvents (qDrain ((afterNotifications fiveOn).eventQueue 0).cnt
      ((afterNotifications fiveOn).eventQueue 0)).1 [] =
      .ok ([4, 3, 2, 1].map (fun ch => { characteristic := ch, value := benchScalar .uint8 1 })) := rfl
  obtain rfl := Except.ok.inj (hfour.symm.trans hevents)
  exact absurd ((hall 0).mpr (by decide)) (by decide)

end ArduinoHomeKit
