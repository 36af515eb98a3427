import Mathlib.Data.List.Infix
import ArduinoHomeKit.AccessoryBench

/-! The document of GET /accessories. The calls on the stream are those of one tree, so
the stream ends well whatever the database; the text is a document as long as every string
fits the buffer, because the stream leaves out the others. -/

namespace ArduinoHomeKit

variable {υ : Type}

section Fitting

/-- Whether a token gets into the buffer of the server's streams. -/
abbrev fitsBuffer : JsonToken → Bool := fits homekitJsonBufferSize

theorem fitsBuffer_punctuation (a : JsonToken) (h : a.isPunctuation = true) : fitsBuffer a = true := by
  cases a <;> first | rfl | cases h

@[simp] theorem fitsBuffer_string (s : Bytes) : fitsBuffer (.string s) = true ↔ s.length ≤ 509 := by
  have hlen : (tokenText (.string s)).length = s.length + 2 := by
    simp [tokenText, ascii]
  simp only [fitsBuffer, fits, hlen, homekitJsonBufferSize, decide_eq_true_eq]
  omega

@[simp] theorem fitsBuffer_number (text : Bytes) : fitsBuffer (.number text) = true ↔ text.length ≤ 511 := by
  rw [fitsBuffer, fits, decide_eq_true_iff]
  rfl

theorem length_snprintf {size : Nat} (text : Bytes) : (snprintf size text).length ≤ size - 1 :=
  List.length_take_le _ _

theorem length_uint64Digits (fuel x : Nat) (b : Bytes) :
    (uint64Digits fuel x b).length ≤ fuel + b.length := by
  induction fuel generalizing x b with
  | zero => simp [uint64Digits]
  | succ fuel ih =>
    rw [uint64Digits]
    split
    · rw [List.length_cons]
      omega
    · refine (ih _ _).trans ?_
      rw [List.length_cons]
      omega

/-- A tree whose tokens all get into the buffer. -/
def TreeFits (t : JsonTree) : Prop := ∀ a ∈ t.tokens, fitsBuffer a = true

def MembersFit (l : List (Bytes × JsonTree)) : Prop := ∀ m ∈ l, m.1.length ≤ 509 ∧ TreeFits m.2

@[simp] theorem treeFits_number (text : Bytes) : TreeFits (.number text) ↔ text.length ≤ 511 := by
  simp [TreeFits, Json.Tree.tokens]

@[simp] theorem treeFits_object (members : List (Bytes × JsonTree)) :
    TreeFits (.object members) ↔ MembersFit members := by
  rw [TreeFits, Json.Tree.forall_tokens_object fitsBuffer_punctuation]
  simp only [fitsBuffer_string, MembersFit, TreeFits]

end Fitting

section Trees

/-- The tree that a call writes by itself. -/
def callTree : JsonCall → JsonTree
  | .number text => .number text
  | .string x => .string x
  | .boolean x => .boolean x
  | _ => .null

def member (name : String) (t : JsonTree) : Bytes × JsonTree := (ascii name, t)

def optionalMember {α : Type} (name : String) (call : α → JsonCall) (o : Option α) : List (Bytes × JsonTree) :=
  o.toList.map (fun a => member name (callTree (call a)))

def metaMembers (rt : Runtime) (x : Characteristic) : List (Bytes × JsonTree) :=
  optionalMember "description" .string x.description ++
  [member "format" (.string (formatText x.format))] ++
  optionalMember "unit" .string (unitText x.unit) ++
  optionalMember "minValue" (fun f => jsonFloat (rt.printFloat f)) x.minValue ++
  optionalMember "maxValue" (fun f => jsonFloat (rt.printFloat f)) x.maxValue ++
  optionalMember "minStep" (fun f => jsonFloat (rt.printFloat f)) x.minStep ++
  optionalMember "maxLen" (fun n => jsonUint32 (asUint32 n)) x.maxLen ++
  optionalMember "maxDataLen" (fun n => jsonUint32 (asUint32 n)) x.maxDataLen ++
  (if x.validValues = [] then []
    else [member "valid-values" (.array (x.validValues.map (fun v => callTree (jsonUint16 v.toUInt16))))]) ++
  (if x.validValuesRanges = [] then []
    else [member "valid-values-range" (.array (x.validValuesRanges.map (fun r =>
      .array [callTree (jsonInteger r.1.toNat), callTree (jsonInteger r.2.toNat)])))])

def permissionsTree (permissions : Nat) : JsonTree :=
  .array ((permissionNames.filter (fun p => hasFlag permissions p.1)).map (fun p => .string (ascii p.2)))

def idMembers (db : Database) (x : Characteristic) : List (Bytes × JsonTree) :=
  [member "aid" (callTree (jsonUint32 (db.accessory (db.service x.service).accessory).id)),
    member "iid" (callTree (jsonUint32 x.id))]

def headMembers (rt : Runtime) (db : Database) (client : ClientId) (ch : CharacteristicId) (format : Nat) :
    List (Bytes × JsonTree) :=
  let x := db.characteristic ch
  idMembers db x ++
  (if hasFlag format CharacteristicFormat.type then [member "type" (.string x.type)] else []) ++
  (if hasFlag format CharacteristicFormat.perms then [member "perms" (permissionsTree x.permissions)] else []) ++
  (if hasFlag format CharacteristicFormat.events && hasFlag x.permissions Permissions.notify
    then [member "ev" (.boolean (db.homekitCharacteristicHasNotifyCallback ch (clientCallback client)))] else []) ++
  (if hasFlag format CharacteristicFormat.metadata then metaMembers rt x else [])

def valueMembers (rt : Runtime) (x : Characteristic) (v : HomekitValue) : List (Bytes × JsonTree) :=
  if v.isNull then [member "value" .null]
  else if v.format ≠ x.format then []
  else [member "value" (callTree (scalarCall rt v))]

variable {rt : Runtime} {db : Database}

theorem treeCalls_scalarCall (v : HomekitValue) : treeCalls (callTree (scalarCall rt v)) = [scalarCall rt v] := by
  rw [scalarCall]
  cases v.format <;> rfl

theorem memberCalls_optionalMember {α : Type} (name : String) {call : α → JsonCall}
    (h : ∀ a, treeCalls (callTree (call a)) = [call a]) (o : Option α) :
    memberCalls (optionalMember name call o) = optionalCalls name call o := by
  cases o with
  | none => rfl
  | some a => simp [optionalMember, optionalCalls, member, memberCalls, h, key]

theorem itemCalls_map {α : Type} {call : α → JsonCall} (h : ∀ a, treeCalls (callTree (call a)) = [call a])
    (l : List α) : itemCalls (l.map (fun a => callTree (call a))) = l.map call := by
  induction l with
  | nil => rfl
  | cons a l ih => rw [List.map_cons, itemCalls, h, ih, List.map_cons, List.singleton_append]

theorem itemCalls_ranges (l : List (UInt8 × UInt8)) :
    itemCalls (l.map (fun r => .array [callTree (jsonInteger r.1.toNat), callTree (jsonInteger r.2.toNat)])) =
      l.flatMap rangeCalls := by
  induction l with
  | nil => rfl
  | cons r l ih => rw [List.map_cons, itemCalls, ih, List.flatMap_cons]; rfl

theorem treeCalls_permissionsTree (permissions : Nat) :
    treeCalls (permissionsTree permissions) = .arrayStart :: (permissionsCalls permissions ++ [.arrayEnd]) := by
  have hitems : ∀ l : List (Nat × String),
      itemCalls ((l.filter (fun p => hasFlag permissions p.1)).map (fun p => .string (ascii p.2))) =
        l.flatMap (fun p => if hasFlag permissions p.1 then [.string (ascii p.2)] else []) := by
    intro l
    induction l with
    | nil => rfl
    | cons p l ih =>
      by_cases hp : hasFlag permissions p.1 <;> simp [hp, itemCalls, treeCalls, ih]
  rw [permissionsTree, treeCalls, hitems, permissionsCalls]

theorem memberCalls_metaMembers (x : Characteristic) : memberCalls (metaMembers rt x) = metaCalls rt x := by
  simp only [metaMembers, metaCalls, memberCalls_append]
  rw [memberCalls_optionalMember _ (fun _ => rfl), memberCalls_optionalMember _ (fun _ => rfl),
    memberCalls_optionalMember _ (fun _ => rfl), memberCalls_optionalMember _ (fun _ => rfl),
    memberCalls_optionalMember _ (fun _ => rfl), memberCalls_optionalMember _ (fun _ => rfl),
    memberCalls_optionalMember _ (fun _ => rfl)]
  have hvalues : memberCalls (if x.validValues = [] then []
      else [member "valid-values" (.array (x.validValues.map (fun v => callTree (jsonUint16 v.toUInt16))))]) =
      if x.validValues = [] then [] else key "valid-values" :: .arrayStart ::
        (x.validValues.map (fun v => jsonUint16 v.toUInt16) ++ [.arrayEnd]) := by
    split
    · rfl
    · rw [member, memberCalls, treeCalls, itemCalls_map (fun _ => rfl), memberCalls, List.append_nil, key]
  have hranges : memberCalls (if x.validValuesRanges = [] then []
      else [member "valid-values-range" (.array (x.validValuesRanges.map (fun r =>
        .array [callTree (jsonInteger r.1.toNat), callTree (jsonInteger r.2.toNat)])))]) =
      if x.validValuesRanges = [] then [] else key "valid-values-range" :: .arrayStart ::
        (x.validValuesRanges.flatMap rangeCalls ++ [.arrayEnd]) := by
    split
    · rfl
    · rw [member, memberCalls, treeCalls, itemCalls_ranges, memberCalls, List.append_nil, key]
  rw [hvalues, hranges]
  rfl

theorem memberCalls_headMembers (client : ClientId) (ch : CharacteristicId) (format : Nat) :
    memberCalls (headMembers rt db client ch format) = characteristicHeadCalls rt db client ch format := by
  have hif : ∀ (p : Bool) (l : List (Bytes × JsonTree)),
      memberCalls (if p then l else []) = if p then memberCalls l else [] := by
    intro p l
    cases p <;> rfl
  simp only [headMembers, characteristicHeadCalls, memberCalls_append, hif, memberCalls_metaMembers]
  simp only [member, memberCalls, treeCalls_permissionsTree, List.append_nil]
  rfl

theorem memberCalls_valueMembers (x : Characteristic) (v : HomekitValue) :
    memberCalls (valueMembers rt x v) = valueCalls rt x v := by
  simp only [valueMembers, valueCalls]
  split_ifs
  · rfl
  · rfl
  · rw [member, memberCalls, treeCalls_scalarCall]
    rfl

end Trees

section Bounds

variable {rt : Runtime} {db : Database}

theorem treeFits_uint8 (n : UInt8) : TreeFits (callTree (jsonUint8 n)) :=
  (treeFits_number _).mpr ((length_snprintf _).trans (by decide))

theorem treeFits_uint16 (n : UInt16) : TreeFits (callTree (jsonUint16 n)) :=
  (treeFits_number _).mpr ((length_snprintf _).trans (by decide))

theorem treeFits_uint32 (n : UInt32) : TreeFits (callTree (jsonUint32 n)) :=
  (treeFits_number _).mpr ((length_snprintf _).trans (by decide))

theorem treeFits_uint64 (n : UInt64) : TreeFits (callTree (jsonUint64 n)) :=
  (treeFits_number _).mpr ((length_uint64Digits _ _ _).trans (by decide))

theorem treeFits_integer (n : Int) : TreeFits (callTree (jsonInteger n)) :=
  (treeFits_number _).mpr ((length_snprintf _).trans (by decide))

theorem treeFits_float (text : Bytes) : TreeFits (callTree (jsonFloat text)) :=
  (treeFits_number _).mpr ((length_snprintf _).trans (by decide))

/-- Members that leave at most their own strings out. -/
def MembersSound (d : Nat) (l : List (Bytes × JsonTree)) : Prop :=
  ∀ m ∈ l, m.1.length ≤ 509 ∧ m.2.Exposed fitsBuffer ∧ m.2.depth ≤ d

@[simp] theorem membersSound_nil (d : Nat) : MembersSound d [] := fun _ h => absurd h List.not_mem_nil

@[simp] theorem membersSound_cons (d : Nat) (m : Bytes × JsonTree) (l : List (Bytes × JsonTree)) :
    MembersSound d (m :: l) ↔ (m.1.length ≤ 509 ∧ m.2.Exposed fitsBuffer ∧ m.2.depth ≤ d) ∧ MembersSound d l :=
  List.forall_mem_cons

@[simp] theorem membersSound_append (d : Nat) (l l' : List (Bytes × JsonTree)) :
    MembersSound d (l ++ l') ↔ MembersSound d l ∧ MembersSound d l' := List.forall_mem_append

theorem membersSound_member_cons {name : String} (hname : (ascii name).length ≤ 509) {d : Nat} {t : JsonTree}
    {l : List (Bytes × JsonTree)} (h : t.Exposed fitsBuffer ∧ t.depth ≤ d) (hl : MembersSound d l) :
    MembersSound d (member name t :: l) := (membersSound_cons _ _ _).mpr ⟨⟨hname, h⟩, hl⟩

theorem membersSound_member {name : String} (hname : (ascii name).length ≤ 509) {d : Nat} {t : JsonTree}
    (h : t.Exposed fitsBuffer ∧ t.depth ≤ d) : MembersSound d [member name t] :=
  (membersSound_cons _ _ _).mpr ⟨⟨hname, h⟩, membersSound_nil d⟩

theorem MembersSound.object {d : Nat} {l : List (Bytes × JsonTree)} (h : MembersSound d l) :
    (Json.Tree.object l : JsonTree).Exposed fitsBuffer ∧ (Json.Tree.object l : JsonTree).depth ≤ d + 1 := by
  refine ⟨Json.membersExposed_iff.mpr fun m hm => ⟨(fitsBuffer_string _).mpr (h m hm).1, (h m hm).2.1⟩, ?_⟩
  rw [Json.Tree.depth]
  exact Nat.succ_le_succ (Json.membersDepth_le.mpr fun m hm => (h m hm).2.2)

/-- An array of trees that are no strings. -/
theorem array_sound {d : Nat} {l : List JsonTree}
    (h : ∀ t ∈ l, (∀ x, t ≠ .string x) ∧ t.Exposed fitsBuffer ∧ t.depth ≤ d) :
    (Json.Tree.array l : JsonTree).Exposed fitsBuffer ∧ (Json.Tree.array l : JsonTree).depth ≤ d + 1 := by
  refine ⟨Json.itemsExposed_iff.mpr fun t ht => ⟨fun x hx => absurd hx ((h t ht).1 x), (h t ht).2.1⟩, ?_⟩
  rw [Json.Tree.depth]
  exact Nat.succ_le_succ (Json.itemsDepth_le.mpr fun t ht => (h t ht).2.2)

/-- The trees of numbers. -/
theorem number_sound {t : JsonTree} (h : TreeFits t) (hn : ∃ text, t = .number text) :
    (∀ x, t ≠ .string x) ∧ t.Exposed fitsBuffer ∧ t.depth ≤ 0 := by
  obtain ⟨text, rfl⟩ := hn
  exact ⟨by simp, (fitsBuffer_number text).mpr ((treeFits_number text).mp h), Nat.le_refl 0⟩

theorem optionalMember_sound {α : Type} {name : String} {call : α → JsonCall} (hname : (ascii name).length ≤ 509)
    (d : Nat) (o : Option α)
    (h : ∀ a, (callTree (call a)).Exposed fitsBuffer ∧ (callTree (call a)).depth ≤ d) :
    MembersSound d (optionalMember name call o) := by
  cases o <;> simp [optionalMember, member, hname, h]

theorem permissionsTree_sound (permissions : Nat) :
    (permissionsTree permissions).Exposed fitsBuffer ∧ (permissionsTree permissions).depth ≤ 2 := by
  have hshort : ∀ p ∈ permissionNames, (ascii p.2).length ≤ 509 := by decide
  constructor
  · refine Json.itemsExposed_iff.mpr fun t ht => ?_
    obtain ⟨p, hp, rfl⟩ := List.mem_map.mp ht
    refine ⟨fun s hs => ?_, trivial⟩
    cases hs
    exact (fitsBuffer_string _).mpr (hshort p (List.mem_filter.mp hp).1)
  · rw [permissionsTree, Json.Tree.depth]
    refine Nat.succ_le_succ (Json.itemsDepth_le.mpr fun t ht => ?_)
    obtain ⟨p, _, rfl⟩ := List.mem_map.mp ht
    exact Nat.zero_le 1

theorem scalar_sound {t : JsonTree} (h : ∃ s, t = .string s) (d : Nat) : t.Exposed fitsBuffer ∧ t.depth ≤ d := by
  obtain ⟨s, rfl⟩ := h
  exact ⟨trivial, Nat.zero_le d⟩

theorem number_sound' {t : JsonTree} (h : TreeFits t) (hn : ∃ text, t = .number text) (d : Nat) :
    t.Exposed fitsBuffer ∧ t.depth ≤ d :=
  ⟨(number_sound h hn).2.1, (number_sound h hn).2.2.trans (Nat.zero_le d)⟩

theorem metaMembers_sound (x : Characteristic) : MembersSound 2 (metaMembers rt x) := by
  have hvalues : MembersSound 2 (if x.validValues = [] then []
      else [member "valid-values" (.array (x.validValues.map (fun v => callTree (jsonUint16 v.toUInt16))))]) := by
    split
    · exact membersSound_nil 2
    · have harray := array_sound (l := x.validValues.map (fun v => callTree (jsonUint16 v.toUInt16))) (d := 0) (by
        intro t ht
        obtain ⟨v, _, rfl⟩ := List.mem_map.mp ht
        exact number_sound (treeFits_uint16 _) ⟨_, rfl⟩)
      exact membersSound_member (by decide) ⟨harray.1, harray.2.trans (by decide)⟩
  have hranges : MembersSound 2 (if x.validValuesRanges = [] then []
      else [member "valid-values-range" (.array (x.validValuesRanges.map (fun r =>
        .array [callTree (jsonInteger r.1.toNat), callTree (jsonInteger r.2.toNat)])))]) := by
    split
    · exact membersSound_nil 2
    · have hpair : ∀ a b : Int, (Json.Tree.array [callTree (jsonInteger a), callTree (jsonInteger b)]
          : JsonTree).Exposed fitsBuffer ∧
          (Json.Tree.array [callTree (jsonInteger a), callTree (jsonInteger b)] : JsonTree).depth ≤ 1 := by
        intro a b
        refine array_sound (d := 0) fun t ht => ?_
        rcases List.mem_pair.mp ht with rfl | rfl
        · exact number_sound (treeFits_integer _) ⟨_, rfl⟩
        · exact number_sound (treeFits_integer _) ⟨_, rfl⟩
      have harray := array_sound (l := x.validValuesRanges.map (fun r =>
        .array [callTree (jsonInteger r.1.toNat), callTree (jsonInteger r.2.toNat)])) (d := 1) (by
        intro t ht
        obtain ⟨r, _, rfl⟩ := List.mem_map.mp ht
        exact ⟨by simp, hpair _ _⟩)
      exact membersSound_member (by decide) harray
  have hformat : MembersSound 2 [member "format" (.string (formatText x.format))] :=
    membersSound_member (by decide) (scalar_sound ⟨_, rfl⟩ 2)
  have hstring : ∀ name (o : Option Bytes), (ascii name).length ≤ 509 →
      MembersSound 2 (optionalMember name .string o) :=
    fun name o hname => optionalMember_sound hname 2 o fun _ => scalar_sound ⟨_, rfl⟩ 2
  have hfloat : ∀ name (o : Option Nat), (ascii name).length ≤ 509 →
      MembersSound 2 (optionalMember name (fun f => jsonFloat (rt.printFloat f)) o) :=
    fun name o hname => optionalMember_sound hname 2 o fun _ => number_sound' (treeFits_float _) ⟨_, rfl⟩ 2
  have huint : ∀ name (o : Option Int), (ascii name).length ≤ 509 →
      MembersSound 2 (optionalMember name (fun n => jsonUint32 (asUint32 n)) o) :=
    fun name o hname => optionalMember_sound hname 2 o fun _ => number_sound' (treeFits_uint32 _) ⟨_, rfl⟩ 2
  simp only [metaMembers, membersSound_append, hvalues, hranges, hformat, and_true]
  exact ⟨⟨⟨⟨⟨⟨hstring _ _ (by decide), hstring _ _ (by decide)⟩, hfloat _ _ (by decide)⟩,
    hfloat _ _ (by decide)⟩, hfloat _ _ (by decide)⟩, huint _ _ (by decide)⟩, huint _ _ (by decide)⟩

theorem idMembers_sound (x : Characteristic) : MembersSound 2 (idMembers db x) := by
  simp only [idMembers, member, membersSound_cons, membersSound_nil, and_true]
  exact ⟨⟨by decide, number_sound' (treeFits_uint32 _) ⟨_, rfl⟩ 2⟩, by decide,
    number_sound' (treeFits_uint32 _) ⟨_, rfl⟩ 2⟩

/-- The string that is written as a value. -/
def printedString (x : Characteristic) (v : HomekitValue) : Option Bytes :=
  if v.isNull ∨ v.format ≠ x.format then none
  else
    match v.format with
    | .string => some (stringText v)
    | .tlv => some (tlvText v)
    | .data => some (dataText v)
    | _ => none

theorem scalarCall_sound (v : HomekitValue) (d : Nat) :
    (callTree (scalarCall rt v)).Exposed fitsBuffer ∧ (callTree (scalarCall rt v)).depth ≤ d := by
  rw [scalarCall]
  cases v.format with
  | bool => cases v.boolValue <;> exact ⟨rfl, Nat.zero_le d⟩
  | uint8 => exact number_sound' (treeFits_uint8 _) ⟨_, rfl⟩ d
  | uint16 => exact number_sound' (treeFits_uint16 _) ⟨_, rfl⟩ d
  | uint32 => exact number_sound' (treeFits_uint32 _) ⟨_, rfl⟩ d
  | uint64 => exact number_sound' (treeFits_uint64 _) ⟨_, rfl⟩ d
  | int => exact number_sound' (treeFits_integer _) ⟨_, rfl⟩ d
  | float => exact number_sound' (treeFits_float _) ⟨_, rfl⟩ d
  | string => exact scalar_sound ⟨_, rfl⟩ d
  | tlv => exact scalar_sound ⟨_, rfl⟩ d
  | data => exact scalar_sound ⟨_, rfl⟩ d

theorem valueMembers_sound (x : Characteristic) (v : HomekitValue) : MembersSound 2 (valueMembers rt x v) := by
  rw [valueMembers]
  split_ifs
  · exact membersSound_member (by decide) ⟨rfl, Nat.zero_le 2⟩
  · exact membersSound_nil 2
  · exact membersSound_member (by decide) (scalarCall_sound v 2)

theorem boolean_sound (b : Bool) (d : Nat) :
    (Json.Tree.boolean b : JsonTree).Exposed fitsBuffer ∧ (Json.Tree.boolean b : JsonTree).depth ≤ d := by
  cases b <;> exact ⟨rfl, Nat.zero_le d⟩

end Bounds

section Reading

variable {sketch : Sketch υ} {rt : Runtime} {db : Database}

/-- The values that the handler reads, in order, of the characteristics that may be read. -/
def readAll (sketch : Sketch υ) : List CharacteristicId → AccessoryState υ →
    Except Fault (AccessoryState υ × List (CharacteristicId × HomekitValue))
  | [], s => .ok (s, [])
  | ch :: chs, s =>
    if hasFlag (s.database.characteristic ch).permissions Permissions.pairedRead = false then readAll sketch chs s
    else
      match readValue sketch ch s with
      | .error e => .error e
      | .ok (s, v) => (readAll sketch chs s).map (fun r => (r.1, (ch, v) :: r.2))

/-- The string written for a value that was read fits the buffer. -/
def ValueFits (db : Database) (e : CharacteristicId × HomekitValue) : Prop :=
  ∀ text ∈ printedString (db.characteristic e.1) e.2, text.length ≤ 509

/-- What the calls for a part of the database come to: one tree, the values read for it,
whether it fits, and the ids that can be read off it. -/
structure Part {ι : Type} (sketch : Sketch υ) (db : Database) (chs : List CharacteristicId) (texts : Prop) (d : Nat)
    (ids : JsonTree → ι) (expected : ι) (s : AccessoryState υ) (r : AccessoryState υ × List JsonCall)
    (t : JsonTree) (vs : List (CharacteristicId × HomekitValue)) : Prop where
  calls : r.2 = treeCalls t
  reads : readAll sketch chs s = .ok (r.1, vs)
  fits : TreeFits t ↔ texts ∧ ∀ e ∈ vs, ValueFits db e
  sound : (∀ x, t ≠ .string x) ∧ t.Exposed fitsBuffer ∧ t.depth ≤ d
  ids : ids t = expected
  shape : SameShape db r.1.database

/-- The same for the parts written by a loop. -/
structure Parts {ι : Type} (sketch : Sketch υ) (db : Database) (chs : List CharacteristicId) (texts : Prop) (d : Nat)
    (ids : JsonTree → ι) (expected : List ι) (s : AccessoryState υ) (r : AccessoryState υ × List JsonCall)
    (ts : List JsonTree) (vs : List (CharacteristicId × HomekitValue)) : Prop where
  calls : r.2 = itemCalls ts
  reads : readAll sketch chs s = .ok (r.1, vs)
  fits : (∀ t ∈ ts, TreeFits t) ↔ texts ∧ ∀ e ∈ vs, ValueFits db e
  sound : ∀ t ∈ ts, (∀ x, t ≠ .string x) ∧ t.Exposed fitsBuffer ∧ t.depth ≤ d
  ids : ts.map ids = expected
  shape : SameShape db r.1.database

/-- The ids of a characteristic, as they are read off its object. -/
def characteristicIds (t : JsonTree) : Option Bytes × Option Bytes :=
  ((t.member (ascii "aid")).number?, (t.member (ascii "iid")).number?)

def serviceIds (t : JsonTree) : Option Bytes × List (Option Bytes × Option Bytes) :=
  ((t.member (ascii "iid")).number?, (t.member (ascii "characteristics")).items.map characteristicIds)

def accessoryIds (t : JsonTree) : Option Bytes × List (Option Bytes × List (Option Bytes × Option Bytes)) :=
  ((t.member (ascii "aid")).number?, (t.member (ascii "services")).items.map serviceIds)

/-- An object around the head of a part and the array of its parts. -/
theorem Parts.object {ι κ : Type} {chs : List CharacteristicId} {texts texts' : Prop} {d : Nat} {ids : JsonTree → ι}
    {expected : List ι} {s : AccessoryState υ} {r : AccessoryState υ × List JsonCall} {ts : List JsonTree}
    {vs : List (CharacteristicId × HomekitValue)} (h : Parts sketch db chs texts d ids expected s r ts vs)
    (head : List JsonCall) (members : List JsonTree → List (Bytes × JsonTree))
    (hcalls : memberCalls (members ts) = head ++ .arrayStart :: (itemCalls ts ++ [.arrayEnd]))
    (hfits : MembersFit (members ts) ↔ texts' ∧ ∀ t ∈ ts, TreeFits t)
    (hsound : MembersSound (d + 1) (members ts)) (ids' : JsonTree → κ) (expected' : κ)
    (hids : ids' (.object (members ts)) = expected') :
    Part sketch db chs (texts' ∧ texts) (d + 2) ids' expected' s
      (r.1, .objectStart :: ((head ++ .arrayStart :: (r.2 ++ [.arrayEnd])) ++ [.objectEnd])) (.object (members ts)) vs where
  calls := by rw [treeCalls, hcalls, h.calls]
  reads := h.reads
  fits := by rw [treeFits_object, hfits, h.fits, and_assoc]
  sound := ⟨by simp, hsound.object⟩
  ids := hids
  shape := h.shape

end Reading

end ArduinoHomeKit
