import ArduinoHomeKit.AccessoryDocument
import ArduinoHomeKit.Handlers

/-! The answer to GET /characteristics: one object for every component of the id parameter. -/

namespace ArduinoHomeKit

variable {υ : Type} {sketch : Sketch υ} {rt : Runtime} {c : ClientId} {s s' : AccessoryState υ} {db db' : Database}
  {params : List QueryParam} {text : Bytes}

/-! The trees of the answers. -/

def statusMember (status : HAPStatus) : Bytes × JsonTree :=
  member "status" (callTree (jsonUint8 (UInt8.ofNat (status.code % 256).toNat)))

def statusTree (aid iid : UInt32) (status : HAPStatus) : JsonTree :=
  .object [member "aid" (callTree (jsonUint32 aid)), member "iid" (callTree (jsonUint32 iid)), statusMember status]

def characteristicsTree (items : List JsonTree) : JsonTree := .object [member "characteristics" (.array items)]

theorem treeCalls_statusTree (aid iid : UInt32) (status : HAPStatus) :
    treeCalls (statusTree aid iid status) = writeCharacteristicError aid iid status := rfl

theorem treeCalls_characteristicsTree (items : List JsonTree) :
    treeCalls (characteristicsTree items) =
      .objectStart :: key "characteristics" :: .arrayStart :: (itemCalls items ++ [.arrayEnd, .objectEnd]) := by
  simp [characteristicsTree, member, treeCalls, memberCalls, key]

theorem characteristicsTree_injective {items items' : List JsonTree}
    (h : treeCalls (characteristicsTree items) = treeCalls (characteristicsTree items')) : items = items' := by
  have ht := treeCalls_injective h
  simpa [characteristicsTree, member] using ht

/-! A database that differs in values only answers the same requests. -/

theorem SameShape.characteristicsOf (h : SameShape db db') (a : AccessoryId) :
    db'.characteristicsOf a = db.characteristicsOf a := by
  rw [Database.characteristicsOf, Database.characteristicsOf, h.accessory, h.service]

theorem SameShape.byAidAndIid (h : SameShape db db') (aid iid : UInt32) :
    homekitCharacteristicByAidAndIid db' aid iid = homekitCharacteristicByAidAndIid db aid iid := by
  have hid : ∀ ch, (db'.characteristic ch).id = (db.characteristic ch).id := by
    intro ch
    rw [h.characteristic ch]
  have hof : db'.characteristicsOf = db.characteristicsOf := funext h.characteristicsOf
  simp only [homekitCharacteristicByAidAndIid, h.accessories, h.accessory, hof, hid]

theorem SameShape.permissions (h : SameShape db db') (ch : CharacteristicId) :
    (db'.characteristic ch).permissions = (db.characteristic ch).permissions := by
  rw [h.characteristic ch]

theorem SameShape.requested (h : SameShape db db') (aid iid : UInt32) : requested? db' aid iid = requested? db aid iid := by
  simp only [requested?, h.byAidAndIid, h.permissions]

theorem SameShape.idMembers (h : SameShape db db') (ch : CharacteristicId) :
    idMembers db' (db'.characteristic ch) = idMembers db (db.characteristic ch) := by
  rw [ArduinoHomeKit.idMembers, ArduinoHomeKit.idMembers, h.characteristic ch, h.accessory, h.service]

/-! The loops over the items. -/

section Loops

variable {ι : Type} {body : ι → AccessoryState υ → Except Fault (AccessoryState υ × List JsonCall)}
  {I : AccessoryState υ → Prop} {R : ι → JsonTree → Prop}

/-- A loop whose body keeps `I` and writes one tree writes one tree for every element. -/
theorem loopCalls_items (hbody : ∀ i s r, I s → body i s = .ok r → I r.1 ∧ ∃ t, r.2 = treeCalls t ∧ R i t)
    {l : List ι} {r : AccessoryState υ × List JsonCall} (hs : I s) (h : loopCalls body l s = .ok r) :
    I r.1 ∧ ∃ items, r.2 = itemCalls items ∧ List.Forall₂ R l items := by
  induction l generalizing s r with
  | nil =>
    obtain rfl := Except.ok.inj h
    exact ⟨hs, [], rfl, .nil⟩
  | cons i l ih =>
    rw [loopCalls] at h
    cases hb : body i s with
    | error e => simp [hb] at h
    | ok r₁ =>
      simp only [hb] at h
      obtain ⟨r₂, hrest, rfl⟩ := map_eq_ok.mp h
      obtain ⟨hs₁, t, ht, hR⟩ := hbody i s r₁ hs hb
      obtain ⟨hs₂, items, hitems, hall⟩ := ih hs₁ hrest
      exact ⟨hs₂, t :: items, by rw [ht, hitems, itemCalls], .cons hR hall⟩

end Loops

/-! One component of the id parameter. -/

/-- The HAPStatus of a component. -/
def componentStatus (db : Database) (text : Bytes) : HAPStatus :=
  match componentIds text with
  | none => .invalidValue
  | some (aid, iid) =>
    match requested? db aid iid with
    | .missing => .noResource
    | .unreadable _ => .writeOnly
    | .readable _ => .success

/-- The object that is written for a component. -/
def ItemFor (db : Database) (success : Bool) (text : Bytes) (item : JsonTree) : Prop :=
  ∃ aid iid, componentIds text = some (aid, iid) ∧
    match requested? db aid iid with
    | .missing => item = statusTree aid iid .noResource
    | .unreadable _ => item = statusTree aid iid .writeOnly
    | .readable ch => ∃ details, (∀ m ∈ details, m.1 ≠ ascii "status") ∧ MembersSound 2 details ∧
      item = .object (idMembers db (db.characteristic ch) ++ details ++ if success then [] else [statusMember .success])

/-- The members behind the ids. -/
def detailMembers (rt : Runtime) (db : Database) (client : ClientId) (ch : CharacteristicId) (format : Nat) :
    List (Bytes × JsonTree) :=
  let x := db.characteristic ch
  (if hasFlag format CharacteristicFormat.type then [member "type" (.string x.type)] else []) ++
  (if hasFlag format CharacteristicFormat.perms then [member "perms" (permissionsTree x.permissions)] else []) ++
  (if hasFlag format CharacteristicFormat.events && hasFlag x.permissions Permissions.notify
    then [member "ev" (.boolean (db.homekitCharacteristicHasNotifyCallback ch (clientCallback client)))] else []) ++
  (if hasFlag format CharacteristicFormat.metadata then metaMembers rt x else [])

theorem headMembers_eq (client : ClientId) (ch : CharacteristicId) (format : Nat) :
    headMembers rt db client ch format = idMembers db (db.characteristic ch) ++ detailMembers rt db client ch format := by
  simp only [headMembers, detailMembers, List.append_assoc]

theorem optionalMember_names {α : Type} {name : String} {call : α → JsonCall} (hname : ascii name ≠ ascii "status")
    (o : Option α) : ∀ m ∈ optionalMember name call o, m.1 ≠ ascii "status" := by
  cases o <;> simp [optionalMember, member, hname]

theorem member_names {name : String} (hname : ascii name ≠ ascii "status") (t : JsonTree) :
    ∀ m ∈ [member name t], m.1 ≠ ascii "status" := by
  simp [member, hname]

theorem metaMembers_names (x : Characteristic) : ∀ m ∈ metaMembers rt x, m.1 ≠ ascii "status" := by
  simp only [metaMembers, List.forall_mem_append]
  refine ⟨⟨⟨⟨⟨⟨⟨⟨⟨?_, ?_⟩, ?_⟩, ?_⟩, ?_⟩, ?_⟩, ?_⟩, ?_⟩, ?_⟩, ?_⟩
  · exact optionalMember_names (by decide) _
  · exact member_names (by decide) _
  · exact optionalMember_names (by decide) _
  · exact optionalMember_names (by decide) _
  · exact optionalMember_names (by decide) _
  · exact optionalMember_names (by decide) _
  · exact optionalMember_names (by decide) _
  · exact optionalMember_names (by decide) _
  · split
    · exact fun m hm => absurd hm List.not_mem_nil
    · exact member_names (by decide) _
  · split
    · exact fun m hm => absurd hm List.not_mem_nil
    · exact member_names (by decide) _

theorem detailMembers_names (client : ClientId) (ch : CharacteristicId) (format : Nat) :
    ∀ m ∈ detailMembers rt db client ch format, m.1 ≠ ascii "status" := by
  have hif : ∀ (p : Bool) (l : List (Bytes × JsonTree)), (∀ m ∈ l, m.1 ≠ ascii "status") →
      ∀ m ∈ (if p then l else []), m.1 ≠ ascii "status" := by
    intro p l hl
    cases p
    · exact fun m hm => absurd hm List.not_mem_nil
    · exact hl
  simp only [detailMembers, List.forall_mem_append]
  exact ⟨⟨⟨hif _ _ (member_names (by decide) _), hif _ _ (member_names (by decide) _)⟩,
    hif _ _ (member_names (by decide) _)⟩, hif _ _ (metaMembers_names _)⟩

theorem valueMembers_names (x : Characteristic) (v : HomekitValue) : ∀ m ∈ valueMembers rt x v, m.1 ≠ ascii "status" := by
  rw [valueMembers]
  split_ifs
  · exact member_names (by decide) _
  · exact fun m hm => absurd hm List.not_mem_nil
  · exact member_names (by decide) _

theorem detailMembers_sound (client : ClientId) (ch : CharacteristicId) (format : Nat) :
    MembersSound 2 (detailMembers rt db client ch format) := by
  have hif : ∀ (p : Bool) (l : List (Bytes × JsonTree)), MembersSound 2 l → MembersSound 2 (if p then l else []) := by
    intro p l hl
    cases p
    · exact membersSound_nil 2
    · exact hl
  simp only [detailMembers, membersSound_append]
  exact ⟨⟨⟨hif _ _ (membersSound_member (by decide) (scalar_sound ⟨_, rfl⟩ 2)),
    hif _ _ (membersSound_member (by decide) (permissionsTree_sound _))⟩,
    hif _ _ (membersSound_member (by decide) (boolean_sound _ 2))⟩, hif _ _ (metaMembers_sound _)⟩

theorem requested_readable {aid iid : UInt32} {ch : CharacteristicId} (h : requested? db aid iid = .readable ch) :
    hasFlag (db.characteristic ch).permissions Permissions.pairedRead = true := by
  rw [requested?] at h
  cases hf : homekitCharacteristicByAidAndIid db aid iid with
  | none => simp [hf] at h
  | some i =>
    simp only [hf] at h
    split at h
    · cases h
    · rename_i hp
      cases h
      simpa using hp

/-- What is written of a readable characteristic. -/
theorem writeCharacteristicJson_members {format : Nat} {ch : CharacteristicId} {r : AccessoryState υ × List JsonCall}
    (hp : hasFlag (s.database.characteristic ch).permissions Permissions.pairedRead = true)
    (h : writeCharacteristicJson sketch rt c format ch none s = .ok r) :
    SameShape s.database r.1.database ∧ ∃ details, (∀ m ∈ details, m.1 ≠ ascii "status") ∧ MembersSound 2 details ∧
      r.2 = memberCalls (idMembers s.database (s.database.characteristic ch) ++ details) := by
  simp only [writeCharacteristicJson, hp, Bool.true_eq_false, if_false] at h
  obtain ⟨r₁, hread, rfl⟩ := map_eq_ok.mp h
  refine ⟨readValue_shape hread, detailMembers rt s.database c ch format ++
    valueMembers rt (r₁.1.database.characteristic ch) r₁.2, ?_, ?_, ?_⟩
  · rw [List.forall_mem_append]
    exact ⟨detailMembers_names c ch format, valueMembers_names _ _⟩
  · rw [membersSound_append]
    exact ⟨detailMembers_sound c ch format, valueMembers_sound _ _⟩
  · rw [← List.append_assoc, ← headMembers_eq, memberCalls_append, memberCalls_headMembers, memberCalls_valueMembers]

theorem componentCalls_item {format : Nat} {success : Bool} {r : AccessoryState υ × List JsonCall}
    (hs : SameShape db s.database) (h : componentCalls sketch rt c format success text s = .ok r) :
    SameShape db r.1.database ∧ ∃ item, r.2 = treeCalls item ∧ ItemFor db success text item := by
  rw [componentCalls] at h
  cases hids : componentIds text with
  | none => simp [hids] at h
  | some ids =>
    obtain ⟨aid, iid⟩ := ids
    simp only [hids, hs.requested] at h
    cases hr : requested? db aid iid with
    | missing =>
      simp only [hr, Except.ok.injEq] at h
      subst h
      exact ⟨hs, statusTree aid iid .noResource, (treeCalls_statusTree ..).symm, aid, iid, hids, by rw [hr]⟩
    | unreadable ch =>
      simp only [hr, Except.ok.injEq] at h
      subst h
      exact ⟨hs, statusTree aid iid .writeOnly, (treeCalls_statusTree ..).symm, aid, iid, hids, by rw [hr]⟩
    | readable ch =>
      simp only [hr] at h
      obtain ⟨r₂, hobject, rfl⟩ := map_eq_ok.mp h
      obtain ⟨r₁, hwrite, rfl⟩ := map_eq_ok.mp hobject
      have hp : hasFlag (s.database.characteristic ch).permissions Permissions.pairedRead = true := by
        rw [hs.permissions]
        exact requested_readable hr
      obtain ⟨hshape, details, hnames, hsound, hcalls⟩ := writeCharacteristicJson_members hp hwrite
      refine ⟨hs.trans hshape, .object (idMembers db (db.characteristic ch) ++ details ++
        if success then [] else [statusMember .success]), ?_, aid, iid, hids,
          by rw [hr]; exact ⟨details, hnames, hsound, rfl⟩⟩
      rw [treeCalls, memberCalls_append, ← hs.idMembers, hcalls]
      cases success <;> rfl

def requestedComponents (params : List QueryParam) : Option (List Bytes) :=
  ((queryParamsFind params "id").bind QueryParam.value).map (fun value => strsep 44 (CString.strdup value))

/-- The handler, once the components are there. -/
theorem homekitServerOnGetCharacteristics_eq {texts : List Bytes} {success : Bool}
    (htexts : requestedComponents params = some texts) (hpass : firstPass s.database texts = some success) :
    homekitServerOnGetCharacteristics sketch rt c params s =
      (inObject (withArray [key "characteristics"]
        (loopCalls (componentCalls sketch rt c (requestedFormat params) success) texts s))).map
          (fun r => (r.1, .document (!success) r.2)) := by
  obtain ⟨value, hvalue, rfl⟩ := Option.map_eq_some_iff.mp htexts
  obtain ⟨param, hparam, hv⟩ := Option.bind_eq_some_iff.mp hvalue
  simp only [homekitServerOnGetCharacteristics, hparam, hv, hpass]

/-- What the second pass leaves. -/
theorem homekitServerOnGetCharacteristics_ok {texts : List Bytes} {success : Bool} {answer : Answer}
    (htexts : requestedComponents params = some texts) (hpass : firstPass s.database texts = some success)
    (h : homekitServerOnGetCharacteristics sketch rt c params s = .ok (s', answer)) :
    ∃ items, answer = .document (!success) (treeCalls (characteristicsTree items)) ∧
      List.Forall₂ (ItemFor s.database success) texts items := by
  rw [homekitServerOnGetCharacteristics_eq htexts hpass] at h
  obtain ⟨r, hobject, hr⟩ := map_eq_ok.mp h
  obtain ⟨r₁, harray, rfl⟩ := map_eq_ok.mp hobject
  obtain ⟨r₂, hloop, rfl⟩ := map_eq_ok.mp harray
  obtain ⟨_, items, hitems, hall⟩ := loopCalls_items (I := fun t => SameShape s.database t.database)
    (R := ItemFor s.database success) (fun text t r ht hb => componentCalls_item ht hb) (.refl _) hloop
  refine ⟨items, ?_, hall⟩
  rw [treeCalls_characteristicsTree, ← hitems]
  simpa using (congrArg Prod.snd hr).symm

theorem statusMember_sound (status : HAPStatus) : MembersSound 2 [statusMember status] :=
  membersSound_member (by decide) (number_sound' (treeFits_uint8 _) ⟨_, rfl⟩ 2)

theorem statusTree_depth (aid iid : UInt32) (status : HAPStatus) : (statusTree aid iid status).depth ≤ 3 := by
  refine MembersSound.object (d := 2) ?_ |>.2
  refine membersSound_member_cons (by decide) (number_sound' (treeFits_uint32 _) ⟨_, rfl⟩ 2) ?_
  exact membersSound_member_cons (by decide) (number_sound' (treeFits_uint32 _) ⟨_, rfl⟩ 2) (statusMember_sound status)

theorem ItemFor.depth {success : Bool} {item : JsonTree} (h : ItemFor db success text item) : item.depth ≤ 3 := by
  obtain ⟨aid, iid, _, hitem⟩ := h
  cases hr : requested? db aid iid with
  | missing =>
    simp only [hr] at hitem
    exact hitem ▸ statusTree_depth ..
  | unreadable ch =>
    simp only [hr] at hitem
    exact hitem ▸ statusTree_depth ..
  | readable ch =>
    simp only [hr] at hitem
    obtain ⟨details, _, hsound, rfl⟩ := hitem
    refine MembersSound.object (d := 2) ?_ |>.2
    rw [membersSound_append, membersSound_append]
    refine ⟨⟨idMembers_sound _, hsound⟩, ?_⟩
    cases success
    · exact statusMember_sound .success
    · exact membersSound_nil 2

theorem characteristicsTree_depth {items : List JsonTree} (h : ∀ item ∈ items, item.depth ≤ 3) :
    (characteristicsTree items).depth ≤ jsonMaxDepth := by
  have harray : (Json.Tree.array items : JsonTree).depth ≤ 4 := by
    rw [Json.Tree.depth]
    exact Nat.succ_le_succ (Json.itemsDepth_le.mpr h)
  have hobject : (characteristicsTree items).depth ≤ 5 := by
    rw [characteristicsTree, Json.Tree.depth]
    refine Nat.succ_le_succ (Json.membersDepth_le.mpr (fun m hm => ?_))
    rw [List.mem_singleton.mp hm]
    exact harray
  exact hobject.trans (by decide)

end ArduinoHomeKit
