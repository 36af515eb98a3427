import ArduinoHomeKit.AccessoryBench
import ArduinoHomeKit.Library.Numbering

/-! homekit_accessories_init gives an id to every accessory, and within each accessory to every service
and characteristic. -/

namespace ArduinoHomeKit

namespace Database

def setAccessory (db : Database) (a : AccessoryId) (x : Accessory) : Database :=
  { db with accessory := Function.update db.accessory a x }

def setService (db : Database) (s : ServiceId) (x : Service) : Database :=
  { db with service := Function.update db.service s x }

end Database

/-- The id of an object and the counter behind it, both of 32 bits. -/
def nextId (id counter : UInt32) : UInt32 × UInt32 :=
  if id ≠ 0 then (id, if id ≥ counter then id + 1 else counter) else (counter, counter + 1)

/-- A getter or setter of the old kind is called through the function for it. -/
def exOld (ex old : Option Nat) (exOldFunction : Nat) : Option Nat :=
  if ex.isNone && old.isSome then some exOldFunction else ex

section Init

-- homekit_characteristic_ex_old_getter and homekit_characteristic_ex_old_setter, by number
variable (exOldGetter exOldSetter : Nat)

/-- The body of the innermost loop. A state is the database and the counter of the loop's ids. -/
def initCharacteristic (s : ServiceId) (st : Database × UInt32) (ch : CharacteristicId) : Database × UInt32 :=
  let x := st.1.characteristic ch
  let next := nextId x.id st.2
  (st.1.setCharacteristic ch
    { x with
      service := s
      id := next.1
      getterEx := exOld x.getterEx x.getter exOldGetter
      setterEx := exOld x.setterEx x.setter exOldSetter
      value := { x.value with format := x.format } }, next.2)

def initService (a : AccessoryId) (st : Database × UInt32) (s : ServiceId) : Database × UInt32 :=
  let x := st.1.service s
  let next := nextId x.id st.2
  x.characteristics.foldl (initCharacteristic exOldGetter exOldSetter s)
    (st.1.setService s { x with accessory := a, id := next.1 }, next.2)

def initAccessory (st : Database × UInt32) (a : AccessoryId) : Database × UInt32 :=
  let x := st.1.accessory a
  let next := nextId x.id st.2
  ((x.services.foldl (initService exOldGetter exOldSetter a) (st.1.setAccessory a { x with id := next.1 }, 1)).1,
    next.2)

def homekitAccessoriesInit (db : Database) : Database :=
  (db.accessories.foldl (initAccessory exOldGetter exOldSetter) (db, 1)).1

end Init

/-- What gets an iid. -/
inductive ObjectId
  | service (s : ServiceId)
  | characteristic (ch : CharacteristicId)
  deriving DecidableEq

/-- One assignment of an iid. -/
inductive ObjectVisit
  | service (s : ServiceId)
  | characteristic (s : ServiceId) (ch : CharacteristicId)

def ObjectVisit.object : ObjectVisit → ObjectId
  | service s => .service s
  | characteristic _ ch => .characteristic ch

namespace Database

def objectId (db : Database) : ObjectId → UInt32
  | .service s => (db.service s).id
  | .characteristic ch => (db.characteristic ch).id

def serviceVisits (db : Database) (s : ServiceId) : List ObjectVisit :=
  .service s :: (db.service s).characteristics.map (.characteristic s)

def visits (db : Database) (a : AccessoryId) : List ObjectVisit := (db.accessory a).services.flatMap db.serviceVisits

/-- The services of an accessory with their characteristics, in the order of the loops. -/
def objects (db : Database) (a : AccessoryId) : List ObjectId := (db.visits a).map ObjectVisit.object

def accessoryIds (db : Database) : List Nat := db.accessories.map (fun a => (db.accessory a).id.toNat)

def objectIds (db : Database) (a : AccessoryId) : List Nat := (db.objects a).map (fun k => (db.objectId k).toNat)

end Database

/-- No object is in the tree twice. -/
structure Unshared (db : Database) : Prop where
  accessories : db.accessories.Nodup
  objects : (db.accessories.flatMap db.objects).Nodup

/-- The ids that are given are below 2^32 - 1, and different where they have to be. -/
structure ExplicitIds (db : Database) : Prop where
  accessoryRange : ∀ id ∈ db.accessoryIds, id + 1 < 2 ^ 32
  objectRange : ∀ a ∈ db.accessories, ∀ id ∈ db.objectIds a, id + 1 < 2 ^ 32
  accessories : (db.accessoryIds.filter (· ≠ 0)).Nodup
  objects : ∀ a ∈ db.accessories, ((db.objectIds a).filter (· ≠ 0)).Nodup

/-- What the numbering is for: ids that were there stay, all are different, and a lookup with the ids of
a characteristic finds it. -/
structure RightIds (db db' : Database) : Prop where
  keptAccessories : ∀ a ∈ db.accessories, (db.accessory a).id ≠ 0 → (db'.accessory a).id = (db.accessory a).id
  keptObjects : ∀ a ∈ db.accessories, ∀ k ∈ db.objects a, db.objectId k ≠ 0 → db'.objectId k = db.objectId k
  accessories : Numbering.Distinct (db.accessories.map (fun a => (db'.accessory a).id.toNat))
  objects : ∀ a ∈ db.accessories, Numbering.Distinct ((db.objects a).map (fun k => (db'.objectId k).toNat))
  found : ∀ a ∈ db.accessories, ∀ ch ∈ db.characteristicsOf a,
    homekitCharacteristicByAidAndIid db' (db'.accessory a).id (db'.characteristic ch).id = some ch

/-- Databases with the same objects in the same places. -/
structure SamePlaces (db db' : Database) : Prop where
  accessories : db'.accessories = db.accessories
  services : ∀ a, (db'.accessory a).services = (db.accessory a).services
  characteristics : ∀ s, (db'.service s).characteristics = (db.service s).characteristics

theorem SamePlaces.refl (db : Database) : SamePlaces db db := ⟨rfl, fun _ => rfl, fun _ => rfl⟩

theorem SamePlaces.trans {db db' db'' : Database} (h : SamePlaces db db') (h' : SamePlaces db' db'') :
    SamePlaces db db'' where
  accessories := h'.accessories.trans h.accessories
  services := fun a => (h'.services a).trans (h.services a)
  characteristics := fun s => (h'.characteristics s).trans (h.characteristics s)

theorem SamePlaces.setCharacteristic (db : Database) (ch : CharacteristicId) (x : Characteristic) :
    SamePlaces db (db.setCharacteristic ch x) := ⟨rfl, fun _ => rfl, fun _ => rfl⟩

theorem SamePlaces.setService {db : Database} {s : ServiceId} {x : Service}
    (hx : x.characteristics = (db.service s).characteristics) : SamePlaces db (db.setService s x) := by
  refine ⟨rfl, fun _ => rfl, fun i => ?_⟩
  show (Function.update db.service s x i).characteristics = _
  by_cases hi : i = s
  · rw [hi, Function.update_self, hx]
  · rw [Function.update_of_ne hi]

theorem SamePlaces.setAccessory {db : Database} {a : AccessoryId} {x : Accessory}
    (hx : x.services = (db.accessory a).services) : SamePlaces db (db.setAccessory a x) := by
  refine ⟨rfl, fun i => ?_, fun _ => rfl⟩
  show (Function.update db.accessory a x i).services = _
  by_cases hi : i = a
  · rw [hi, Function.update_self, hx]
  · rw [Function.update_of_ne hi]

theorem nextId_toNat (id counter : UInt32) :
    ((nextId id counter).1.toNat, (nextId id counter).2.toNat) = Numbering.next (2 ^ 32) id.toNat counter.toNat := by
  rw [nextId, Numbering.next]
  by_cases h : id = 0
  · subst h
    simp
  · have hnat : id.toNat ≠ 0 := fun h0 => h (UInt32.toNat_inj.mp h0)
    rw [if_pos h, if_neg hnat]
    by_cases hle : counter ≤ id
    · rw [if_pos hle, if_pos (UInt32.le_iff_toNat_le.mp hle)]
      simp
    · rw [if_neg hle, if_neg (fun h => hle (UInt32.le_iff_toNat_le.mpr h))]

theorem nextId_id (id counter : UInt32) :
    (nextId id counter).1.toNat = (Numbering.next (2 ^ 32) id.toNat counter.toNat).1 :=
  congrArg Prod.fst (nextId_toNat id counter)

theorem nextId_counter (id counter : UInt32) :
    (nextId id counter).2.toNat = (Numbering.next (2 ^ 32) id.toNat counter.toNat).2 :=
  congrArg Prod.snd (nextId_toNat id counter)

section Visits

variable {g s : Nat} {a : AccessoryId} {db : Database} {st : Database × UInt32}

/-- A visit of the loops: to a service before its characteristics, or to one of these. -/
def visitObject (exOldGetter exOldSetter : Nat) (a : AccessoryId) (st : Database × UInt32) : ObjectVisit → Database × UInt32
  | .service s =>
    (st.1.setService s { st.1.service s with accessory := a, id := (nextId (st.1.service s).id st.2).1 },
      (nextId (st.1.service s).id st.2).2)
  | .characteristic s ch => initCharacteristic exOldGetter exOldSetter s st ch

theorem visit_places (v : ObjectVisit) : SamePlaces st.1 (visitObject g s a st v).1 := by
  cases v with
  | service i => exact SamePlaces.setService rfl
  | characteristic i ch => exact SamePlaces.setCharacteristic _ ch _

theorem visit_accessory (v : ObjectVisit) : (visitObject g s a st v).1.accessory = st.1.accessory := by
  cases v <;> rfl

/-- The counter and the object ids that the visits work on. -/
def idCounter (st : Database × UInt32) : Nat := st.2.toNat

def idOf (st : Database × UInt32) (k : ObjectId) : Nat := (st.1.objectId k).toNat

theorem visit_numbers : Numbering.Numbers (2 ^ 32) idCounter idOf ObjectVisit.object (visitObject g s a) where
  advances st v := by
    cases v with
    | service i => exact nextId_counter (st.1.service i).id st.2
    | characteristic i ch => exact nextId_counter (st.1.characteristic ch).id st.2
  own st v := by
    apply Eq.trans _ (nextId_id (st.1.objectId v.object) st.2)
    cases v with
    | service i =>
      show (Function.update st.1.service i _ i).id.toNat = _
      rw [Function.update_self]
      rfl
    | characteristic i ch =>
      show ((st.1.setCharacteristic ch _).characteristic ch).id.toNat = _
      rw [setCharacteristic_self]
      rfl
  other st v k hk := by
    cases v with
    | service i =>
      cases k with
      | service j =>
        show (Function.update st.1.service i _ j).id.toNat = _
        rw [Function.update_of_ne (fun h => hk (congrArg ObjectId.service h))]
        rfl
      | characteristic j => rfl
    | characteristic i ch =>
      cases k with
      | service j => rfl
      | characteristic j =>
        show ((st.1.setCharacteristic ch _).characteristic j).id.toNat = _
        rw [setCharacteristic_of_ne (fun h => hk (congrArg ObjectId.characteristic h))]
        rfl

theorem foldl_visit_places (vs : List ObjectVisit) (st : Database × UInt32) :
    SamePlaces st.1 (vs.foldl (visitObject g s a) st).1 := by
  induction vs generalizing st with
  | nil => exact .refl _
  | cons v vs ih => exact (visit_places v).trans (ih _)

theorem foldl_visit_accessory (vs : List ObjectVisit) (st : Database × UInt32) :
    (vs.foldl (visitObject g s a) st).1.accessory = st.1.accessory := by
  induction vs generalizing st with
  | nil => rfl
  | cons v vs ih => exact (ih _).trans (visit_accessory v)

theorem initService_eq (h : SamePlaces db st.1) (i : ServiceId) :
    initService g s a st i = (db.serviceVisits i).foldl (visitObject g s a) st := by
  rw [Database.serviceVisits, List.foldl_cons, List.foldl_map]
  exact congrArg (List.foldl _ (visitObject g s a st (.service i))) (h.characteristics i)

/-- The inner loops of an accessory are one pass over its objects. -/
theorem foldl_initService (h : SamePlaces db st.1) (is : List ServiceId) :
    is.foldl (initService g s a) st = (is.flatMap db.serviceVisits).foldl (visitObject g s a) st := by
  induction is generalizing st with
  | nil => rfl
  | cons i is ih =>
    rw [List.foldl_cons, List.flatMap_cons, List.foldl_append, initService_eq h]
    exact ih (h.trans (foldl_visit_places _ st))

/-- An accessory has its id, and the inner loops start at 1. -/
def withAid (st : Database × UInt32) (a : AccessoryId) : Database × UInt32 :=
  (st.1.setAccessory a { st.1.accessory a with id := (nextId (st.1.accessory a).id st.2).1 }, 1)

theorem withAid_places (st : Database × UInt32) (a : AccessoryId) : SamePlaces st.1 (withAid st a).1 :=
  SamePlaces.setAccessory rfl

theorem initAccessory_eq (h : SamePlaces db st.1) (a : AccessoryId) :
    initAccessory g s st a =
      (((db.visits a).foldl (visitObject g s a) (withAid st a)).1, (nextId (st.1.accessory a).id st.2).2) := by
  have hfold := foldl_initService (g := g) (s := s) (a := a) (h.trans (withAid_places st a)) (st.1.accessory a).services
  rw [Database.visits, ← h.services]
  exact congrArg (fun r => (r.1, (nextId (st.1.accessory a).id st.2).2)) hfold

theorem initAccessory_places (h : SamePlaces db st.1) (a : AccessoryId) : SamePlaces db (initAccessory g s st a).1 := by
  rw [initAccessory_eq h]
  exact (h.trans (withAid_places st a)).trans (foldl_visit_places _ _)

/-- The ids of the accessories in the state. -/
def accessoryIdOf (st : Database × UInt32) (a : AccessoryId) : Nat := (st.1.accessory a).id.toNat

theorem initAccessory_accessory (a : AccessoryId) :
    (initAccessory g s st a).1.accessory =
      Function.update st.1.accessory a { st.1.accessory a with id := (nextId (st.1.accessory a).id st.2).1 } := by
  rw [initAccessory_eq (SamePlaces.refl st.1)]
  exact foldl_visit_accessory _ _

theorem initAccessory_numbers : Numbering.Numbers (2 ^ 32) idCounter accessoryIdOf id (initAccessory g s) where
  advances st a := nextId_counter (st.1.accessory a).id st.2
  own st a := by
    show ((initAccessory g s st a).1.accessory a).id.toNat = _
    rw [initAccessory_accessory, Function.update_self]
    exact nextId_id (st.1.accessory a).id st.2
  other st a b hb := by
    show ((initAccessory g s st a).1.accessory b).id.toNat = _
    rw [initAccessory_accessory, Function.update_of_ne (show b ≠ a from hb)]
    rfl

/-- The object ids of an accessory that is reached with them as they were. -/
theorem initAccessory_objects (h : SamePlaces db st.1) (hd : (db.objects a).Nodup) :
    (db.objects a).map (idOf (initAccessory g s st a)) =
      Numbering.number (2 ^ 32) 1 ((db.objects a).map (idOf st)) := by
  have hpass := visit_numbers (g := g) (s := s) (a := a) |>.foldl hd (withAid st a)
  rw [initAccessory_eq h, Database.objects, List.map_map, List.map_map]
  exact hpass

theorem initAccessory_frame (h : SamePlaces db st.1) {k : ObjectId} (hk : k ∉ db.objects a) :
    idOf (initAccessory g s st a) k = idOf st k := by
  rw [initAccessory_eq h]
  exact visit_numbers.frame hk (withAid st a)

theorem foldl_places (h : SamePlaces db st.1) (as : List AccessoryId) :
    SamePlaces db (as.foldl (initAccessory g s) st).1 := by
  induction as generalizing st with
  | nil => exact h
  | cons a as ih => exact ih (initAccessory_places h a)

theorem foldl_frame (h : SamePlaces db st.1) {as : List AccessoryId} {k : ObjectId} (hk : k ∉ as.flatMap db.objects) :
    idOf (as.foldl (initAccessory g s) st) k = idOf st k := by
  induction as generalizing st with
  | nil => rfl
  | cons a as ih =>
    rw [List.flatMap_cons, List.mem_append, not_or] at hk
    rw [List.foldl_cons, ih (initAccessory_places h a) hk.2, initAccessory_frame h hk.1]

theorem foldl_objects (h : SamePlaces db st.1) {as : List AccessoryId} (hd : (as.flatMap db.objects).Nodup)
    (ha : a ∈ as) :
    (db.objects a).map (idOf (as.foldl (initAccessory g s) st)) =
      Numbering.number (2 ^ 32) 1 ((db.objects a).map (idOf st)) := by
  induction as generalizing st with
  | nil => cases ha
  | cons b as ih =>
    rw [List.flatMap_cons, List.nodup_append] at hd
    obtain ⟨hb, has, hdisjoint⟩ := hd
    rw [List.foldl_cons]
    by_cases hab : a = b
    · subst hab
      rw [← initAccessory_objects h hb]
      apply List.map_congr_left
      intro k hk
      exact foldl_frame (initAccessory_places h a) (fun hk' => hdisjoint k hk k hk' rfl)
    · have hmem := (List.mem_cons.mp ha).resolve_left hab
      rw [ih (initAccessory_places h b) has hmem]
      congr 1
      apply List.map_congr_left
      intro k hk
      exact initAccessory_frame h (fun hk' => hdisjoint k hk' k (List.mem_flatMap.mpr ⟨a, hmem, hk⟩) rfl)

end Visits

section Found

variable {db db' : Database} {a : AccessoryId} {ch : CharacteristicId}

theorem characteristic_mem_objects : ObjectId.characteristic ch ∈ db.objects a ↔ ch ∈ db.characteristicsOf a := by
  simp only [Database.objects, Database.visits, Database.characteristicsOf, Database.serviceVisits, List.mem_map,
    List.mem_flatMap, List.mem_cons]
  constructor
  · rintro ⟨v, ⟨s, hs, rfl | ⟨ch', hch', rfl⟩⟩, hv⟩
    · cases hv
    · cases hv
      exact ⟨s, hs, hch'⟩
  · rintro ⟨s, hs, hch⟩
    exact ⟨.characteristic s ch, ⟨s, hs, Or.inr ⟨ch, hch, rfl⟩⟩, rfl⟩

theorem SamePlaces.characteristicsOf (h : SamePlaces db db') (a : AccessoryId) :
    db'.characteristicsOf a = db.characteristicsOf a := by
  simp only [Database.characteristicsOf, h.services, h.characteristics]

/-- With different ids a lookup finds what has them. -/
theorem found_of_distinct (hd : db.accessories.Nodup)
    (haccessories : ∀ b ∈ db.accessories, (db.accessory b).id = (db.accessory a).id → b = a)
    (hobjects : ∀ i ∈ db.characteristicsOf a, (db.characteristic i).id = (db.characteristic ch).id → i = ch)
    (ha : a ∈ db.accessories) (hch : ch ∈ db.characteristicsOf a) :
    homekitCharacteristicByAidAndIid db (db.accessory a).id (db.characteristic ch).id = some ch := by
  have hfilter : db.accessories.filter (fun b => (db.accessory b).id == (db.accessory a).id) = [a] := by
    have hsame : db.accessories.filter (fun b => (db.accessory b).id == (db.accessory a).id) =
        db.accessories.filter (· == a) := by
      apply List.filter_congr
      intro b hb
      rw [Bool.eq_iff_iff, beq_iff_eq, beq_iff_eq]
      exact ⟨haccessories b hb, fun h => h ▸ rfl⟩
    rw [hsame, List.filter_beq, List.count_eq_one_of_mem hd ha]
    rfl
  rw [homekitCharacteristicByAidAndIid, hfilter, List.flatMap_singleton]
  cases hfind : (db.characteristicsOf a).find? (fun i => (db.characteristic i).id == (db.characteristic ch).id) with
  | none => exact absurd (beq_self_eq_true _) (List.find?_eq_none.mp hfind ch hch)
  | some i =>
    have hi := List.find?_some hfind
    rw [hobjects i (List.mem_of_find?_eq_some hfind) (beq_iff_eq.mp hi)]

end Found

section Main

variable {g s : Nat} {db : Database} {a : AccessoryId}

theorem homekitAccessoriesInit_places : SamePlaces db (homekitAccessoriesInit g s db) :=
  foldl_places (.refl db) db.accessories

/-- The outer loop is a pass over the accessories. -/
theorem homekitAccessoriesInit_accessories (hu : Unshared db) :
    db.accessories.map (fun a => ((homekitAccessoriesInit g s db).accessory a).id.toNat) =
      Numbering.number (2 ^ 32) 1 db.accessoryIds := by
  have hd : (db.accessories.map id).Nodup := by
    rw [List.map_id]
    exact hu.accessories
  exact initAccessory_numbers.foldl hd (db, 1)

/-- The inner loops are a pass over the objects of each accessory. -/
theorem homekitAccessoriesInit_objects (hu : Unshared db) (ha : a ∈ db.accessories) :
    (db.objects a).map (fun k => ((homekitAccessoriesInit g s db).objectId k).toNat) =
      Numbering.number (2 ^ 32) 1 (db.objectIds a) :=
  foldl_objects (.refl db) hu.objects ha

theorem keptAccessories (hu : Unshared db) (ha : a ∈ db.accessories) (h0 : (db.accessory a).id ≠ 0) :
    ((homekitAccessoriesInit g s db).accessory a).id = (db.accessory a).id := by
  apply UInt32.toNat_inj.mp
  apply Numbering.number_keeps (homekitAccessoriesInit_accessories hu) ha
  exact fun h => h0 (UInt32.toNat_inj.mp h)

theorem keptObjects (hu : Unshared db) (ha : a ∈ db.accessories) {k : ObjectId} (hk : k ∈ db.objects a)
    (h0 : db.objectId k ≠ 0) : (homekitAccessoriesInit g s db).objectId k = db.objectId k := by
  apply UInt32.toNat_inj.mp
  apply Numbering.number_keeps (homekitAccessoriesInit_objects hu ha) hk
  exact fun h => h0 (UInt32.toNat_inj.mp h)

theorem rightIds_of_distinct (hu : Unshared db)
    (haccessories : Numbering.Distinct (Numbering.number (2 ^ 32) 1 db.accessoryIds))
    (hobjects : ∀ a ∈ db.accessories, Numbering.Distinct (Numbering.number (2 ^ 32) 1 (db.objectIds a))) :
    RightIds db (homekitAccessoriesInit g s db) := by
  rw [← homekitAccessoriesInit_accessories hu (g := g) (s := s)] at haccessories
  have hobjects' : ∀ a ∈ db.accessories, Numbering.Distinct
      ((db.objects a).map (fun k => ((homekitAccessoriesInit g s db).objectId k).toNat)) := by
    intro a ha
    rw [homekitAccessoriesInit_objects hu ha]
    exact hobjects a ha
  refine ⟨fun a ha => keptAccessories hu ha, fun a ha k hk => keptObjects hu ha hk, haccessories, hobjects', ?_⟩
  intro a ha ch hch
  have hplaces : SamePlaces db (homekitAccessoriesInit g s db) := homekitAccessoriesInit_places
  apply found_of_distinct
  · rw [hplaces.accessories]
    exact hu.accessories
  · intro b hb hid
    rw [hplaces.accessories] at hb
    exact List.inj_on_of_nodup_map haccessories.2 hb ha (congrArg UInt32.toNat hid)
  · intro i hi hid
    rw [hplaces.characteristicsOf] at hi
    have heq := List.inj_on_of_nodup_map (hobjects' a ha).2 (characteristic_mem_objects.mpr hi)
      (characteristic_mem_objects.mpr hch) (congrArg UInt32.toNat hid)
    exact ObjectId.characteristic.inj heq
  · rw [hplaces.accessories]
    exact ha
  · rw [hplaces.characteristicsOf]
    exact hch

/-- An id that was given is met too late when an object in front already has it. -/
theorem homekitAccessoriesInit_right_iff (hu : Unshared db) (he : ExplicitIds db) :
    RightIds db (homekitAccessoriesInit g s db) ↔
      Numbering.Clean (2 ^ 32) db.accessoryIds ∧ ∀ a ∈ db.accessories, Numbering.Clean (2 ^ 32) (db.objectIds a) := by
  have haccessories := Numbering.number_distinct_iff (by norm_num) he.accessoryRange he.accessories
  have hobjects : ∀ a ∈ db.accessories, _ := fun a ha =>
    Numbering.number_distinct_iff (by norm_num) (he.objectRange a ha) (he.objects a ha)
  constructor
  · intro h
    constructor
    · rw [← haccessories, ← homekitAccessoriesInit_accessories hu (g := g) (s := s)]
      exact h.accessories
    · intro a ha
      rw [← hobjects a ha, ← homekitAccessoriesInit_objects hu ha (g := g) (s := s)]
      exact h.objects a ha
  · rintro ⟨h, h'⟩
    exact rightIds_of_distinct hu (haccessories.mpr h) (fun a ha => (hobjects a ha).mpr (h' a ha))

end Main

/-- One accessory with one service, both with id 1, and two characteristics. -/
def twoIds (id id' : UInt32) : Database :=
  benchDatabase [benchCharacteristic id benchNull, benchCharacteristic id' benchNull]

theorem twoIds_unshared (id id' : UInt32) : Unshared (twoIds id id') := by
  constructor
  · exact List.nodup_singleton 0
  · show [ObjectId.service 0, .characteristic 0, .characteristic 1].Nodup
    decide

theorem twoIds_explicit {id id' : UInt32} (hid : id.toNat + 1 < 2 ^ 32) (hid' : id'.toNat + 1 < 2 ^ 32)
    (hd : ([1, id.toNat, id'.toNat].filter (· ≠ 0)).Nodup) : ExplicitIds (twoIds id id') where
  accessoryRange := by
    show ∀ n ∈ [1], n + 1 < 2 ^ 32
    decide
  objectRange := by
    intro a _ n hn
    have hn : n ∈ [1, id.toNat, id'.toNat] := hn
    simp only [List.mem_cons, List.not_mem_nil, or_false] at hn
    omega
  accessories := by
    show ([1].filter (· ≠ 0)).Nodup
    decide
  objects := fun _ _ => hd

theorem homekitAccessoriesInit_right_five :
    RightIds (twoIds 5 0) (homekitAccessoriesInit 0 0 (twoIds 5 0)) := by
  apply (homekitAccessoriesInit_right_iff (twoIds_unshared 5 0) (twoIds_explicit (by decide) (by decide) (by decide))).mpr
  have hclear : ∀ l, (∀ i < l.length, l[i]? = some 0 →
      Numbering.automatic (l.take i) < 2 ^ 32 ∧ Numbering.automatic (l.take i) ∉ l.drop (i + 1)) →
        Numbering.Clear (2 ^ 32) l := by
    rintro _ h pre post rfl
    simpa using h pre.length (by simp) (by simp)
  constructor
  · exact Or.inl (hclear [1] (by decide))
  · exact fun a _ => Or.inl (hclear [1, 5, 0] (by decide))

/-- The first characteristic gets the id of the second, and is found in its place. -/
theorem given_two_clashes :
    Unshared (twoIds 0 2) ∧ ExplicitIds (twoIds 0 2) ∧
      homekitCharacteristicByAidAndIid (homekitAccessoriesInit 0 0 (twoIds 0 2)) 1 2 = some 0 ∧
      ((homekitAccessoriesInit 0 0 (twoIds 0 2)).characteristic 1).id = 2 ∧
      ¬ RightIds (twoIds 0 2) (homekitAccessoriesInit 0 0 (twoIds 0 2)) := by
  refine ⟨twoIds_unshared 0 2, twoIds_explicit (by decide) (by decide) (by decide), rfl, rfl, ?_⟩
  intro h
  have hfound := h.found 0 (List.mem_singleton_self 0) 1 (show 1 ∈ [0, 1] by decide)
  cases hfound

end ArduinoHomeKit
