import ArduinoHomeKit.MultiStatus
import ArduinoHomeKit.WrittenItems

/-! The answer to PUT /characteristics, and the statuses that the answers to PUT and GET carry. -/

namespace ArduinoHomeKit

variable {υ : Type} {sketch : Sketch υ} {rt : Runtime} {c : ClientId} {s : AccessoryState υ} {db : Database}
  {data text : Bytes} {status : HAPStatus}

/-! What PUT has to do. -/

/-- The entry of an item in the 207 body. -/
def EntryFor (rt : Runtime) (j : CJson) (status : HAPStatus) (entry : JsonTree) : Prop :=
  ∃ aid iid, j.getObjectItem (ascii "aid") = some aid ∧ j.getObjectItem (ascii "iid") = some iid ∧
    entry = statusTree (UInt32.ofNat (toUnsigned rt 32 aid.valuedouble)) (UInt32.ofNat (toUnsigned rt 32 iid.valuedouble)) status

/-- One entry for every item, in order, each with the status of the item. -/
inductive EntriesFor (rt : Runtime) : List CJson → List HAPStatus → List JsonTree → Prop
  | nil : EntriesFor rt [] [] []
  | cons {j : CJson} {status : HAPStatus} {entry : JsonTree} {items : List CJson} {statuses : List HAPStatus}
      {entries : List JsonTree} (h : EntryFor rt j status entry) (hs : EntriesFor rt items statuses entries) :
      EntriesFor rt (j :: items) (status :: statuses) (entry :: entries)

variable {items : List CJson} {statuses : List HAPStatus}

theorem updateItems_length {r : AccessoryState υ × List HAPStatus} (h : updateItems sketch rt c items s = .ok r) :
    r.2.length = items.length := by
  induction items generalizing s r with
  | nil =>
    obtain rfl := Except.ok.inj h
    rfl
  | cons j items ih =>
    rw [updateItems] at h
    cases hp : processCharacteristicsUpdate sketch rt c j s with
    | error e => simp [hp] at h
    | ok r₁ =>
      simp only [hp] at h
      obtain ⟨r₂, hrest, rfl⟩ := map_eq_ok.mp h
      simp [ih hrest]

theorem itemStatusCalls_ok {j : CJson} {calls : List JsonCall} (h : itemStatusCalls rt j status = .ok calls) :
    ∃ entry, calls = treeCalls entry ∧ EntryFor rt j status entry := by
  rw [itemStatusCalls] at h
  cases haid : j.getObjectItem (ascii "aid") with
  | none => simp [haid] at h
  | some aid =>
    cases hiid : j.getObjectItem (ascii "iid") with
    | none => simp [haid, hiid] at h
    | some iid =>
      simp only [haid, hiid, Except.ok.injEq] at h
      exact ⟨_, h.symm.trans (treeCalls_statusTree ..).symm, aid, iid, haid, hiid, rfl⟩

theorem statusesCalls_entries {calls : List JsonCall} (hlen : statuses.length = items.length)
    (h : statusesCalls rt items statuses = .ok calls) :
    ∃ entries, calls = itemCalls entries ∧ EntriesFor rt items statuses entries := by
  induction items generalizing statuses calls with
  | nil =>
    obtain rfl := List.eq_nil_of_length_eq_zero hlen
    obtain rfl := Except.ok.inj h
    exact ⟨[], rfl, .nil⟩
  | cons j items ih =>
    cases statuses with
    | nil => simp at hlen
    | cons status statuses =>
      rw [statusesCalls] at h
      cases hi : itemStatusCalls rt j status with
      | error e => simp [hi] at h
      | ok first =>
        simp only [hi] at h
        obtain ⟨rest, hrest, rfl⟩ := map_eq_ok.mp h
        obtain ⟨entry, rfl, hentry⟩ := itemStatusCalls_ok hi
        obtain ⟨entries, rfl, hentries⟩ := ih (Nat.succ.inj hlen) hrest
        exact ⟨entry :: entries, by rw [itemCalls], .cons hentry hentries⟩

theorem EntriesFor.depth {entries : List JsonTree} (h : EntriesFor rt items statuses entries) :
    ∀ entry ∈ entries, entry.depth ≤ 3 := by
  induction h with
  | nil => exact fun t ht => absurd ht List.not_mem_nil
  | cons hentry _ ih =>
    obtain ⟨aid, iid, _, _, rfl⟩ := hentry
    exact List.forall_mem_cons.mpr ⟨statusTree_depth .., ih⟩

theorem updateAnswer_success (h : ∀ status ∈ statuses, status = .success) :
    updateAnswer rt items statuses = .ok .noContent := by
  rw [updateAnswer, if_pos]
  simpa using h

theorem updateAnswer_failed (hlen : statuses.length = items.length) (h : ¬ ∀ status ∈ statuses, status = .success)
    {answer : Answer} (ha : updateAnswer rt items statuses = .ok answer) :
    ∃ entries, answer = .document true (treeCalls (characteristicsTree entries)) ∧ EntriesFor rt items statuses entries := by
  rw [updateAnswer, if_neg (by simpa using h)] at ha
  obtain ⟨calls, hcalls, rfl⟩ := map_eq_ok.mp ha
  obtain ⟨entries, rfl, hentries⟩ := statusesCalls_entries hlen hcalls
  exact ⟨entries, by rw [treeCalls_characteristicsTree], hentries⟩

/-- A string that the application points to, as in HOMEKIT_STRING_("my value"). -/
def literalValue (isStatic : Bool) : HomekitValue :=
  { isNull := false, isStatic := isStatic, format := .string, union := .string (.block .static (ascii "my value")) }

/-- A write of a string to characteristic 9. -/
def textItem : CJson :=
  .object [(ascii "characteristics", .array [.object [(ascii "aid", .number (.ofInt 1)), (ascii "iid", .number (.ofInt 9)),
    (ascii "value", .string (ascii "x"))]])]

def textItemRuntime : Runtime := { benchRuntime with cJSONParse := fun _ => some textItem }

/-- The old string is freed unless it is marked as static. -/
theorem literal_freed :
    homekitServerOnUpdateCharacteristics benchSketch textItemRuntime 0 []
      (benchState [benchCharacteristic 9 (literalValue false)]) = .error .invalidFree := rfl

/-! The statuses. -/

/-- The number that an object carries as its status. -/
def writtenStatus (item : JsonTree) : Option Bytes := (item.member (ascii "status")).number?

/-- The status that is written, if one is, is the status of the item. -/
def StatusRight (item : JsonTree) (status : HAPStatus) : Prop :=
  ∀ number, writtenStatus item = some number → number = integerText status.code

/-- The object for every item carries its status. -/
def StatusesRight (calls : List JsonCall) (statuses : List HAPStatus) : Prop :=
  ∃ items, calls = treeCalls (characteristicsTree items) ∧ List.Forall₂ StatusRight items statuses

/-- A document that answers GET or PUT, with the statuses that were determined for its items. -/
inductive Reports (sketch : Sketch υ) (rt : Runtime) (c : ClientId) (s : AccessoryState υ) :
    List JsonCall → List HAPStatus → Prop
  | get {params : List QueryParam} {texts : List Bytes} {s' : AccessoryState υ} {multi : Bool} {calls : List JsonCall}
      (htexts : requestedComponents params = some texts)
      (h : homekitServerOnGetCharacteristics sketch rt c params s = .ok (s', .document multi calls)) :
      Reports sketch rt c s calls (texts.map (componentStatus s.database))
  | put {data : Bytes} {items : List CJson} {s₁ s' : AccessoryState υ} {statuses : List HAPStatus} {calls : List JsonCall}
      (hitems : updateRequestItems rt data = some items) (hupdate : updateItems sketch rt c items s = .ok (s₁, statuses))
      (h : homekitServerOnUpdateCharacteristics sketch rt c data s = .ok (s', .document true calls)) :
      Reports sketch rt c s calls statuses

/-- Only the status 0 is what json_uint8 makes of it. -/
theorem statusMember_right (status : HAPStatus) :
    (statusMember status).2.number? = some (integerText status.code) ↔ status = .success := by
  cases status <;> decide

theorem writtenStatus_statusTree (aid iid : UInt32) (status : HAPStatus) :
    writtenStatus (statusTree aid iid status) = (statusMember status).2.number? := by
  have haid : ascii "aid" ≠ ascii "status" := by decide
  have hiid : ascii "iid" ≠ ascii "status" := by decide
  simp [writtenStatus, statusTree, Json.Tree.member, member, statusMember, haid, hiid]

theorem statusRight_statusTree (aid iid : UInt32) (status : HAPStatus) :
    StatusRight (statusTree aid iid status) status ↔ status = .success := by
  rw [StatusRight, writtenStatus_statusTree, ← statusMember_right]
  have hnumber : ∃ text, (statusMember status).2.number? = some text := ⟨_, rfl⟩
  obtain ⟨text, ht⟩ := hnumber
  simp [ht]

theorem member_append_of_names {l m : List (Bytes × JsonTree)} {k : Bytes} (h : ∀ x ∈ l, x.1 ≠ k) :
    (Json.Tree.object (l ++ m) : JsonTree).member k = (Json.Tree.object m : JsonTree).member k := by
  rw [Json.Tree.member, Json.Tree.member, List.find?_append]
  have hnone : l.find? (fun x => x.1 = k) = none := by
    rw [List.find?_eq_none]
    intro x hx
    simpa using h x hx
  rw [hnone, Option.none_or]

theorem statusRight_of_itemFor {success : Bool} {item : JsonTree} (h : ItemFor db success text item) :
    StatusRight item (componentStatus db text) ↔ componentStatus db text = .success := by
  obtain ⟨aid, iid, hids, hitem⟩ := h
  simp only [componentStatus, hids]
  cases hr : requested? db aid iid with
  | missing =>
    simp only [hr] at hitem
    rw [hitem]
    exact statusRight_statusTree ..
  | unreadable ch =>
    simp only [hr] at hitem
    rw [hitem]
    exact statusRight_statusTree ..
  | readable ch =>
    simp only [hr] at hitem
    obtain ⟨details, hnames, _, rfl⟩ := hitem
    have hfront : ∀ x ∈ idMembers db (db.characteristic ch) ++ details, x.1 ≠ ascii "status" := by
      rw [List.forall_mem_append]
      refine ⟨?_, hnames⟩
      simp only [idMembers, member, List.forall_mem_cons]
      exact ⟨by decide, by decide, fun x hx => absurd hx List.not_mem_nil⟩
    simp only [iff_true]
    intro number hn
    rw [writtenStatus, member_append_of_names hfront] at hn
    cases success
    · have hzero : writtenStatus (.object [statusMember .success]) = some (integerText 0) := by decide
      exact Option.some.inj (hn.symm.trans hzero)
    · cases hn

theorem EntriesFor.statusesRight {entries : List JsonTree} (h : EntriesFor rt items statuses entries) :
    List.Forall₂ StatusRight entries statuses ↔ ∀ status ∈ statuses, status = .success := by
  induction h with
  | nil => simp
  | cons hentry _ ih =>
    obtain ⟨aid, iid, _, _, rfl⟩ := hentry
    rw [List.forall₂_cons, ih, statusRight_statusTree, List.forall_mem_cons]

theorem forall₂_itemFor_statuses {success : Bool} {texts : List Bytes} {entries : List JsonTree}
    (h : List.Forall₂ (ItemFor db success) texts entries) :
    List.Forall₂ StatusRight entries (texts.map (componentStatus db)) ↔
      ∀ status ∈ texts.map (componentStatus db), status = .success := by
  induction h with
  | nil => simp
  | cons hitem _ ih =>
    rw [List.map_cons, List.forall₂_cons, ih, statusRight_of_itemFor hitem, List.forall_mem_cons]

theorem statusesRight_of_tree {entries : List JsonTree} :
    StatusesRight (treeCalls (characteristicsTree entries)) statuses ↔ List.Forall₂ StatusRight entries statuses := by
  constructor
  · rintro ⟨entries', he, hall⟩
    rw [characteristicsTree_injective he]
    exact hall
  · exact fun h => ⟨entries, rfl, h⟩

/-- The statuses written are right exactly if no item failed, so never in a 207 body. -/
theorem statusesRight_iff {calls : List JsonCall} (h : Reports sketch rt c s calls statuses) :
    StatusesRight calls statuses ↔ ∀ status ∈ statuses, status = .success := by
  cases h with
  | @get params texts s' multi calls htexts hget =>
    cases hpass : firstPass s.database texts with
    | none =>
      obtain ⟨value, hvalue, rfl⟩ := Option.map_eq_some_iff.mp htexts
      obtain ⟨param, hparam, hv⟩ := Option.bind_eq_some_iff.mp hvalue
      simp [homekitServerOnGetCharacteristics, hparam, hv, hpass] at hget
    | some success =>
      obtain ⟨items, hanswer, hall⟩ := homekitServerOnGetCharacteristics_ok htexts hpass hget
      obtain ⟨rfl, rfl⟩ : multi = !success ∧ calls = treeCalls (characteristicsTree items) := by simpa using hanswer
      rw [statusesRight_of_tree, forall₂_itemFor_statuses hall]
  | @put data items s₁ s' statuses calls hitems hupdate hput =>
    simp only [homekitServerOnUpdateCharacteristics, hitems, hupdate] at hput
    obtain ⟨answer, hanswer, hr⟩ := map_eq_ok.mp hput
    obtain rfl : answer = .document true calls := congrArg Prod.snd hr
    have hfailed : ¬ ∀ status ∈ statuses, status = .success := by
      intro hall
      cases (updateAnswer_success hall).symm.trans hanswer
    obtain ⟨entries, hdoc, hentries⟩ := updateAnswer_failed (updateItems_length hupdate) hfailed hanswer
    obtain rfl : calls = treeCalls (characteristicsTree entries) := by simpa using hdoc
    rw [statusesRight_of_tree, hentries.statusesRight]

/-- A GET of a characteristic that is not there. -/
def missingParams : List QueryParam := [{ name := ascii "id", value := some (ascii "1.9") }]

def missingCalls : List JsonCall := treeCalls (characteristicsTree [statusTree 1 9 .noResource])

theorem get_missing :
    Reports benchSketch benchRuntime 0 (benchState []) missingCalls [.noResource] := by
  have htexts : requestedComponents missingParams = some [ascii "1.9"] := by decide
  have hget : homekitServerOnGetCharacteristics benchSketch benchRuntime 0 missingParams (benchState []) =
      .ok (benchState [], .document true missingCalls) := rfl
  exact .get htexts hget

/-- The status written for the missing characteristic is 247. -/
theorem status_truncated :
    (statusMember .noResource).2.number? = some (ascii "247") ∧
      ∃ calls, Reports benchSketch benchRuntime 0 (benchState []) calls [.noResource] ∧
        ¬ StatusesRight calls [.noResource] := by
  refine ⟨by decide, missingCalls, get_missing, fun h => ?_⟩
  rw [missingCalls, statusesRight_of_tree, List.forall₂_cons] at h
  exact absurd ((statusRight_statusTree ..).mp h.1) (by decide)

theorem statusesRight_iff_missing :
    StatusesRight missingCalls [.noResource] ↔ ∀ status ∈ [HAPStatus.noResource], status = .success :=
  statusesRight_iff get_missing

end ArduinoHomeKit
