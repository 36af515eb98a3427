import Mathlib.Data.List.GetD
import Mathlib.Data.List.Range
import ArduinoHomeKit.AccessoryBench
import ArduinoHomeKit.Boot
import ArduinoHomeKit.Handlers
import ArduinoHomeKit.Library.StoreLog

/-! homekit_get_setup_uri: the setup code, the category and the setup id as one string, written
through a moving pointer. -/

namespace ArduinoHomeKit

open StoreLog

def base36Table : Bytes := ascii "0123456789ABCDEFGHIJKLMNOPQRSTUVWXYZ"

/-- strcpy to an offset; the terminator is stored too. -/
def strcpy (offset : Nat) (s : Bytes) : List (Nat × UInt8) := copy offset (CString.strdup s ++ [0])

/-- The loop over the password. -/
def setupCodeLoop (setupCode : UInt32) (s : Bytes) : UInt32 :=
  s.foldl (fun setupCode c => if isdigit c then setupCode * 10 + c.toUInt32 - 48 else setupCode) setupCode

def setupPayload (category setupCode : UInt32) : UInt64 :=
  let payload : UInt64 := 0
  let payload := payload <<< 4
  let payload := payload <<< 8
  let payload := payload ||| (category &&& 0xff).toUInt64
  let payload := payload <<< 4
  let payload := payload ||| 2
  let payload := payload <<< 27
  payload ||| (setupCode &&& 0x7fffffff).toUInt64

/-- The loop over the digits, from the last one to the first. -/
def base36Loop (offset : Nat) : Nat → UInt64 → List (Nat × UInt8)
  | 0, _ => []
  | i + 1, payload => (offset + i, base36Table.getD (payload % 36).toNat 0) :: base36Loop offset i (payload / 36)

/-- The stores that end the function. -/
def uriStores (payload : UInt64) (setupId : Bytes) : List (Nat × UInt8) :=
  strcpy 0 (ascii "X-HM://") ++ base36Loop 7 9 payload ++ strcpy 16 setupId ++ [(20, 0)]

def homekitGetSetupUri (db : Database) (config : ServerConfig) (bufferSize : Nat) : Int × List (Nat × UInt8) :=
  if bufferSize < 20 then (-1, [])
  else
    match config.password with
    | none => (-1, [])
    | some password =>
      match config.setupId with
      | none => (-1, [])
      | some setupId =>
        match homekitAccessoryById db 1 with
        | none => (-1, [])
        | some accessory =>
          let setupCode := setupCodeLoop 0 (CString.strdup password)
          let payload := setupPayload (db.accessory accessory).category setupCode
          (0, uriStores payload setupId)

/-! Where the bytes go. -/

variable {db : Database} {config : ServerConfig} {password setupId : Bytes} {bufferSize offset n : Nat} {payload : UInt64}

theorem within_strcpy (s : Bytes) : Within offset (offset + (strlen s + 1)) (strcpy offset s) := by
  have hlength : (CString.strdup s ++ [0]).length = strlen s + 1 := List.length_append
  rw [← hlength]
  exact within_copy _ _

theorem within_base36Loop : Within offset (offset + n) (base36Loop offset n payload) := by
  induction n generalizing payload with
  | zero => exact fun s hs => absurd hs List.not_mem_nil
  | succ n ih =>
    intro s hs
    rcases List.mem_cons.mp hs with rfl | hs
    · exact ⟨Nat.le_add_right _ _, Nat.lt_succ_self _⟩
    · exact ⟨(ih s hs).1, Nat.lt_succ_of_lt (ih s hs).2⟩

theorem within_uriStores (h : strlen setupId = 4) : Within 0 21 (uriStores payload setupId) := by
  have hhead : Within 0 8 (strcpy 0 (ascii "X-HM://")) := within_strcpy (ascii "X-HM://")
  have hdigits : Within 7 16 (base36Loop 7 9 payload) := within_base36Loop
  have hid : Within 16 21 (strcpy 16 setupId) := by
    have hstrcpy : Within 16 (16 + (strlen setupId + 1)) (strcpy 16 setupId) := within_strcpy setupId
    rwa [h] at hstrcpy
  rw [uriStores, within_append, within_append, within_append]
  refine ⟨⟨⟨hhead.mono (by decide) (by decide), hdigits.mono (by decide) (by decide)⟩, hid.mono (by decide) (by decide)⟩, ?_⟩
  intro s hs
  rw [List.mem_singleton.mp hs]
  decide

theorem homekitAccessoryById_none_iff {aid : UInt32} :
    homekitAccessoryById db aid = none ↔ ∀ a ∈ db.accessories, (db.accessory a).id ≠ aid := by
  simp [homekitAccessoryById, List.find?_eq_none]

/-- The URI is written when there is room for twenty bytes and an accessory 1. -/
theorem homekitGetSetupUri_eq (db : Database) (bufferSize : Nat) (hp : config.password = some password)
    (hs : config.setupId = some setupId) :
    bufferSize < 20 ∧ homekitGetSetupUri db config bufferSize = (-1, []) ∨
    homekitAccessoryById db 1 = none ∧ homekitGetSetupUri db config bufferSize = (-1, []) ∨
    20 ≤ bufferSize ∧ ∃ a, homekitAccessoryById db 1 = some a ∧
      homekitGetSetupUri db config bufferSize =
        (0, uriStores (setupPayload (db.accessory a).category (setupCodeLoop 0 (CString.strdup password))) setupId) := by
  rw [homekitGetSetupUri, hp, hs]
  by_cases hsize : bufferSize < 20
  · exact Or.inl ⟨hsize, if_pos hsize⟩
  · cases ha : homekitAccessoryById db 1 with
    | none => exact Or.inr (Or.inl ⟨rfl, if_neg hsize⟩)
    | some a => exact Or.inr (Or.inr ⟨Nat.le_of_not_lt hsize, a, rfl, if_neg hsize⟩)

/-- A run that returns 0 stays inside the buffer, and one that returns -1 stores nothing. -/
structure WritesInside (db : Database) (config : ServerConfig) (bufferSize : Nat) : Prop where
  success : (homekitGetSetupUri db config bufferSize).1 = 0 → Within 0 bufferSize (homekitGetSetupUri db config bufferSize).2
  failure : (homekitGetSetupUri db config bufferSize).1 = -1 → (homekitGetSetupUri db config bufferSize).2 = []

theorem writesInside_of_failure (h : homekitGetSetupUri db config bufferSize = (-1, [])) :
    WritesInside db config bufferSize :=
  ⟨fun h0 => by simp [h] at h0, fun _ => congrArg Prod.snd h⟩

/-- The check forgets the terminator: a buffer of exactly twenty bytes is one too short. -/
theorem setupUri_inside_iff (hp : config.password = some password) (hs : config.setupId = some setupId)
    (hlength : strlen setupId = 4) :
    WritesInside db config bufferSize ↔ (bufferSize = 20 → ∀ a ∈ db.accessories, (db.accessory a).id ≠ 1) := by
  rw [← homekitAccessoryById_none_iff]
  rcases homekitGetSetupUri_eq db bufferSize hp hs with ⟨hsize, h⟩ | ⟨ha, h⟩ | ⟨hsize, a, ha, h⟩
  · exact iff_of_true (writesInside_of_failure h) (fun h20 => absurd h20 (Nat.ne_of_lt hsize))
  · exact iff_of_true (writesInside_of_failure h) (fun _ => ha)
  · constructor
    · intro hinside h20
      -- the terminator is the byte at offset 20
      have hwithin := hinside.success (congrArg Prod.fst h)
      rw [congrArg Prod.snd h, uriStores, within_append] at hwithin
      have hlast := (hwithin.2 (20, 0) (List.mem_singleton_self _)).2
      exact absurd h20 (Nat.ne_of_gt hlast)
    · intro hroom
      refine ⟨fun _ => ?_, fun hfail => by simp [h] at hfail⟩
      have h21 : bufferSize ≠ 20 := fun h20 => by simp [ha] at hroom; exact hroom h20
      rw [congrArg Prod.snd h]
      exact (within_uriStores hlength).mono (Nat.le_refl 0) (by omega)

/-- A setup code and a setup id for the bench. -/
def uriConfig : ServerConfig where
  hasAccessories := true
  password := some (ascii "111-22-333")
  hasPasswordCallback := false
  setupId := some (ascii "ABCD")

theorem setupUri_inside_21 : WritesInside (benchDatabase []) uriConfig 21 :=
  (setupUri_inside_iff rfl rfl (by decide +kernel)).mpr (by decide)

theorem twenty_bytes_overrun :
    validPassword (ascii "111-22-333") = true ∧ strlen (ascii "ABCD") = 4 ∧
      ¬ WritesInside (benchDatabase []) uriConfig 20 := by
  refine ⟨by decide +kernel, by decide +kernel, fun h => ?_⟩
  have hresult : (homekitGetSetupUri (benchDatabase []) uriConfig 20).1 = 0 ∧
      (20, 0) ∈ (homekitGetSetupUri (benchDatabase []) uriConfig 20).2 := by decide +kernel
  exact absurd (h.success hresult.1 _ hresult.2).2 (by decide)

/-! The digits. -/

/-- The digits of a number in base 36, most significant first. -/
def base36Digits : Nat → Nat → Bytes
  | 0, _ => []
  | n + 1, x => base36Digits n (x / 36) ++ [base36Table.getD (x % 36) 0]

def base36Value (digits : Bytes) : Nat := digits.foldl (fun x d => 36 * x + base36Table.idxOf d) 0

@[simp] theorem length_base36Digits (n x : Nat) : (base36Digits n x).length = n := by
  induction n generalizing x with
  | zero => rfl
  | succ n ih => rw [base36Digits, List.length_append, ih, List.length_singleton]

theorem length_base36Table : base36Table.length = 36 := by
  rw [base36Table, ascii_ofList]
  rfl

theorem nodup_base36Table : base36Table.Nodup := by
  rw [base36Table, ascii_ofList]
  decide

theorem idxOf_base36Table {d : Nat} (h : d < 36) : base36Table.idxOf (base36Table.getD d 0) = d := by
  rw [List.getD_eq_getElem _ _ (length_base36Table ▸ h)]
  exact nodup_base36Table.idxOf_getElem d (length_base36Table ▸ h)

theorem mem_base36Table {d : Nat} (h : d < 36) : base36Table.getD d 0 ∈ base36Table := by
  rw [List.getD_eq_getElem _ _ (length_base36Table ▸ h)]
  exact List.getElem_mem _

theorem mem_base36Digits {n x : Nat} {d : UInt8} (h : d ∈ base36Digits n x) : d ∈ base36Table := by
  induction n generalizing x with
  | zero => exact absurd h List.not_mem_nil
  | succ n ih =>
    rcases List.mem_append.mp h with h | h
    · exact ih h
    · rw [List.mem_singleton.mp h]
      exact mem_base36Table (Nat.mod_lt _ (by decide))

theorem base36Value_digits (n x : Nat) : base36Value (base36Digits n x) = x % 36 ^ n := by
  induction n generalizing x with
  | zero => exact (Nat.mod_one x).symm
  | succ n ih =>
    have hrest := ih (x / 36)
    rw [base36Value] at hrest
    rw [base36Value, base36Digits, List.foldl_append, hrest, List.foldl_cons, List.foldl_nil,
      idxOf_base36Table (Nat.mod_lt _ (by decide)), Nat.pow_succ', Nat.mod_mul, Nat.add_comm]

/-- The loop leaves the digits at the pointer. -/
theorem lies_base36Loop {m : Nat → UInt8} :
    Lies (apply m (base36Loop offset n payload)) offset (base36Digits n payload.toNat) := by
  induction n generalizing m payload with
  | zero => exact fun i h => absurd h (Nat.not_lt_zero i)
  | succ n ih =>
    rw [base36Loop, apply_cons, base36Digits, lies_append, length_base36Digits]
    constructor
    · have hdiv : payload.toNat / 36 = (payload / 36).toNat := (UInt64.toNat_div payload 36).symm
      rw [hdiv]
      exact ih
    · apply Lies.apply _ within_base36Loop (Or.inl (Nat.le_refl _))
      rw [lies_singleton, Function.update_self, UInt64.toNat_mod]
      rfl

/-! The payload. -/

/-- A field behind the ones that are there. -/
theorem shift_or {a b n : Nat} (ha : a * 2 ^ n < 2 ^ 64) (hb : b < 2 ^ n) : a <<< n % 2 ^ 64 ||| b = a * 2 ^ n + b := by
  rw [Nat.mod_eq_of_lt (by rwa [Nat.shiftLeft_eq]), ← Nat.shiftLeft_add_eq_or_of_lt hb, Nat.shiftLeft_eq]

theorem setupPayload_toNat {category setupCode : UInt32} (hcategory : category.toNat < 256)
    (hcode : setupCode.toNat < 2 ^ 27) :
    (setupPayload category setupCode).toNat = category.toNat * 2 ^ 31 + 2 * 2 ^ 27 + setupCode.toNat := by
  have hlow : (category &&& 0xff).toNat = category.toNat := by
    rw [UInt32.toNat_and]
    exact (Nat.and_two_pow_sub_one_eq_mod _ 8).trans (Nat.mod_eq_of_lt hcategory)
  have hmask : (setupCode &&& 0x7fffffff).toNat = setupCode.toNat := by
    rw [UInt32.toNat_and]
    exact (Nat.and_two_pow_sub_one_eq_mod _ 31).trans (Nat.mod_eq_of_lt (by omega))
  simp only [setupPayload, UInt64.toNat_or, UInt64.toNat_shiftLeft, UInt32.toNat_toUInt64, hlow, hmask]
  show (((0 <<< 4 % 2 ^ 64) <<< 8 % 2 ^ 64 ||| category.toNat) <<< 4 % 2 ^ 64 ||| 2) <<< 27 % 2 ^ 64 ||| setupCode.toNat = _
  have hreserved : (0 <<< 4 % 2 ^ 64) <<< 8 % 2 ^ 64 ||| category.toNat = category.toNat := Nat.zero_or _
  have hflags : category.toNat <<< 4 % 2 ^ 64 ||| 2 = category.toNat * 2 ^ 4 + 2 := shift_or (by omega) (by decide)
  rw [hreserved, hflags, shift_or (by omega) hcode]
  omega

/-! The setup code. -/

/-- The number that the digits of a password spell. -/
def setupNumber (n : Nat) (s : Bytes) : Nat := (s.filter isdigit).foldl (fun n c => 10 * n + (c.toNat - 48)) n

theorem isdigit_iff {c : UInt8} : isdigit c = true ↔ 48 ≤ c.toNat ∧ c.toNat ≤ 57 := by
  rw [isdigit, Bool.and_eq_true, decide_eq_true_iff, decide_eq_true_iff]
  exact Iff.rfl

/-- No digit overflows as long as there are nine of them. -/
theorem setupCodeLoop_toNat {s : Bytes} {code : UInt32} {k : Nat} (hk : k + (s.filter isdigit).length ≤ 9)
    (hcode : code.toNat < 10 ^ k) :
    (setupCodeLoop code s).toNat = setupNumber code.toNat s ∧
      setupNumber code.toNat s < 10 ^ (k + (s.filter isdigit).length) := by
  induction s generalizing code k with
  | nil => exact ⟨rfl, hcode⟩
  | cons c s ih =>
    rw [setupCodeLoop, List.foldl_cons, setupNumber]
    by_cases hc : isdigit c = true
    · rw [List.filter_cons_of_pos hc] at hk ⊢
      rw [List.length_cons] at hk ⊢
      obtain ⟨hlo, hhi⟩ := isdigit_iff.mp hc
      have hpow : 10 ^ k ≤ 10 ^ 8 := Nat.pow_le_pow_right (by decide) (by omega)
      have hstep : (code * 10 + c.toUInt32 - 48).toNat = 10 * code.toNat + (c.toNat - 48) := by
        have htoNat : (c.toUInt32).toNat = c.toNat := UInt8.toNat_toUInt32 c
        have hten : (10 : UInt32).toNat = 10 := rfl
        have h48 : (48 : UInt32).toNat = 48 := rfl
        rw [UInt32.toNat_sub, UInt32.toNat_add, UInt32.toNat_mul, htoNat, hten, h48]
        omega
      have hnext : (code * 10 + c.toUInt32 - 48).toNat < 10 ^ (k + 1) := by
        rw [hstep, Nat.pow_succ]
        omega
      have hrest := ih (by omega) hnext
      rw [hstep] at hrest
      rw [if_pos hc, List.foldl_cons, ← Nat.add_assoc, Nat.add_right_comm]
      exact hrest
    · rw [List.filter_cons_of_neg hc] at hk ⊢
      rw [if_neg hc]
      exact ih hk hcode

/-- A valid password, by its characters. -/
theorem validPassword_chars (h : validPassword password = true) :
    ∃ c0 c1 c2 c4 c5 c7 c8 c9, CString.strdup password = [c0, c1, c2, 45, c4, c5, 45, c7, c8, c9] ∧
      ∀ c ∈ [c0, c1, c2, c4, c5, c7, c8, c9], isdigit c = true := by
  simp only [validPassword, Bool.and_eq_true, beq_iff_eq] at h
  obtain ⟨⟨⟨⟨⟨⟨⟨⟨⟨⟨hlength, h0⟩, h1⟩, h2⟩, h3⟩, h4⟩, h5⟩, h6⟩, h7⟩, h8⟩, h9⟩ := h
  have hprefix : CString.strdup password <+: password := List.takeWhile_prefix _
  have hchar : ∀ i < 10, password.getD i 0 = (CString.strdup password).getD i 0 := by
    intro i hi
    have hlt : i < (CString.strdup password).length := by
      show i < strlen password
      omega
    rw [List.getD_eq_getElem _ _ hlt, hprefix.getElem hlt, List.getD_eq_getElem]
  rw [hchar _ (by decide)] at h0 h1 h2 h3 h4 h5 h6 h7 h8 h9
  have hlength' : (CString.strdup password).length = 10 := hlength
  generalize CString.strdup password = s at *
  match s, hlength' with
  | [c0, c1, c2, c3, c4, c5, c6, c7, c8, c9], _ =>
    simp only [List.getD_cons_zero, List.getD_cons_succ] at h0 h1 h2 h3 h4 h5 h6 h7 h8 h9
    subst h3 h6
    exact ⟨c0, c1, c2, c4, c5, c7, c8, c9, rfl, by simp [*]⟩

theorem filter_password {c0 c1 c2 c4 c5 c7 c8 c9 : UInt8} (h : ∀ c ∈ [c0, c1, c2, c4, c5, c7, c8, c9], isdigit c = true) :
    [c0, c1, c2, 45, c4, c5, 45, c7, c8, c9].filter isdigit = [c0, c1, c2, c4, c5, c7, c8, c9] := by
  have hdash : isdigit 45 = false := rfl
  simp only [List.forall_mem_cons] at h
  obtain ⟨h0, h1, h2, h4, h5, h7, h8, h9, _⟩ := h
  simp [*]

/-- Digits are told by their number and how many they are. -/
theorem digits_of_number {l l' : Bytes} {m n : Nat} (hl : ∀ c ∈ l, isdigit c = true) (hl' : ∀ c ∈ l', isdigit c = true)
    (hlength : l.length = l'.length)
    (h : l.foldl (fun n c => 10 * n + (c.toNat - 48)) m = l'.foldl (fun n c => 10 * n + (c.toNat - 48)) n) :
    m = n ∧ l = l' := by
  induction l generalizing l' m n with
  | nil =>
    obtain rfl := List.length_eq_zero_iff.mp hlength.symm
    exact ⟨h, rfl⟩
  | cons c l ih =>
    cases l' with
    | nil => simp at hlength
    | cons d l' =>
      obtain ⟨hc, hl⟩ := List.forall_mem_cons.mp hl
      obtain ⟨hd, hl'⟩ := List.forall_mem_cons.mp hl'
      obtain ⟨hhead, rfl⟩ := ih hl hl' (Nat.succ.inj hlength) h
      have hhead : 10 * m + (c.toNat - 48) = 10 * n + (d.toNat - 48) := hhead
      have hc' := isdigit_iff.mp hc
      have hd' := isdigit_iff.mp hd
      have hcd : c = d := UInt8.toNat_inj.mp (by omega)
      exact ⟨by omega, by rw [hcd]⟩

theorem password_of_number {password' : Bytes} (h : validPassword password = true) (h' : validPassword password' = true)
    (hnumber : setupNumber 0 (CString.strdup password) = setupNumber 0 (CString.strdup password')) :
    CString.strdup password = CString.strdup password' := by
  obtain ⟨c0, c1, c2, c4, c5, c7, c8, c9, hc, hdigits⟩ := validPassword_chars h
  obtain ⟨d0, d1, d2, d4, d5, d7, d8, d9, hd, hdigits'⟩ := validPassword_chars h'
  rw [hc, hd] at hnumber ⊢
  rw [setupNumber, setupNumber, filter_password hdigits, filter_password hdigits'] at hnumber
  have hsame := (digits_of_number hdigits hdigits' rfl hnumber).2
  simp only [List.cons.injEq] at hsame ⊢
  tauto

/-! The string in the buffer. -/

/-- The string at the start of the buffer. -/
def bufferString (buffer : Nat → UInt8) (bufferSize : Nat) : Bytes := CString.strdup ((List.range bufferSize).map buffer)

def setupUri (db : Database) (config : ServerConfig) (bufferSize : Nat) (buffer : Nat → UInt8) : Bytes :=
  bufferString (apply buffer (homekitGetSetupUri db config bufferSize).2) bufferSize

theorem lies_uriStores {m : Nat → UInt8} (h : strlen setupId = 4) :
    Lies (apply m (uriStores payload setupId)) 0
      (ascii "X-HM://" ++ base36Digits 9 payload.toNat ++ CString.strdup setupId ++ [0]) := by
  have hlength : (CString.strdup setupId).length = 4 := h
  have hid : Within 16 (16 + (strlen setupId + 1)) (strcpy 16 setupId) := within_strcpy setupId
  rw [h] at hid
  have hloop : Within 7 16 (base36Loop 7 9 payload) := within_base36Loop
  have hlast : Within 20 21 [((20 : Nat), (0 : UInt8))] := by
    intro s hs
    rw [List.mem_singleton.mp hs]
    decide
  rw [uriStores, apply_append, apply_append, apply_append, List.append_assoc, List.append_assoc, lies_append, lies_append]
  refine ⟨?_, ?_, ?_⟩
  · have hhead : Lies (apply m (strcpy 0 (ascii "X-HM://"))) 0 (ascii "X-HM://" ++ [0]) := lies_copy
    have hcode := (lies_append.mp hhead).1.apply hloop (Or.inr (Nat.le_refl 7))
    exact (hcode.apply hid (Or.inr (by decide))).apply hlast (Or.inr (by decide))
  · have hdigits : Lies (apply (apply m (strcpy 0 (ascii "X-HM://"))) (base36Loop 7 9 payload)) 7
        (base36Digits 9 payload.toNat) := lies_base36Loop
    exact (hdigits.apply hid (Or.inr (by simp))).apply hlast (Or.inr (by simp))
  · rw [length_base36Digits]
    have hcopy : Lies (apply (apply (apply m (strcpy 0 (ascii "X-HM://"))) (base36Loop 7 9 payload)) (strcpy 16 setupId)) 16
        (CString.strdup setupId ++ [0]) := lies_copy
    rw [lies_append] at hcopy
    show Lies _ 16 _
    rw [lies_append, hlength]
    refine ⟨hcopy.1.apply hlast (Or.inr (by rw [hlength])), ?_⟩
    rw [lies_singleton]
    rfl

/-- The string in a buffer that holds it with its terminator. -/
theorem bufferString_of_lies {m : Nat → UInt8} {text : Bytes} (h : Lies m 0 (text ++ [0]))
    (htext : CString.strdup text = text)
    (hroom : text.length < bufferSize) : bufferString m bufferSize = text := by
  obtain ⟨k, hk⟩ := Nat.exists_eq_add_of_lt hroom
  have hread := h.range_map
  simp only [Nat.zero_add, List.length_append, List.length_singleton] at hread
  rw [bufferString, hk, Nat.add_right_comm, List.range_add, List.map_append, hread, CString.strdup, List.append_assoc,
    List.takeWhile_append_of_pos (List.takeWhile_eq_self_iff.mp htext)]
  simp

theorem uri_ne_zero (x : Nat) (s : Bytes) :
    ∀ b ∈ ascii "X-HM://" ++ base36Digits 9 x ++ CString.strdup s, (b != 0) = true := by
  have hhead : ∀ b ∈ ascii "X-HM://", (b != 0) = true := by
    rw [ascii_ofList]
    simp
  have htable : ∀ b ∈ base36Table, (b != 0) = true := by
    rw [base36Table, ascii_ofList]
    exact List.all_eq_true.mp rfl
  rw [List.forall_mem_append, List.forall_mem_append]
  refine ⟨⟨hhead, fun b hb => htable b (mem_base36Digits hb)⟩, fun b hb => ?_⟩
  exact List.mem_takeWhile_imp (p := fun b => b != 0) hb

/-- What a configuration with a setup code and a setup id has in it; accessory 1 comes first. -/
structure UriReady (db : Database) (config : ServerConfig) (a : AccessoryId) (password setupId : Bytes) : Prop where
  first : db.accessories.head? = some a
  id : (db.accessory a).id = 1
  category : (db.accessory a).category.toNat < 256
  configPassword : config.password = some password
  validPassword : validPassword password = true
  configSetupId : config.setupId = some setupId
  length : strlen setupId = 4

/-- The URI, and what its digits stand for. -/
structure UriDecodes (uri : Bytes) (password setupId : Bytes) (category : UInt32) (digits : Bytes) : Prop where
  text : uri = ascii "X-HM://" ++ digits ++ CString.strdup setupId
  length : digits.length = 9
  base36 : ∀ d ∈ digits, d ∈ base36Table
  code : base36Value digits % 2 ^ 27 = setupNumber 0 (CString.strdup password)
  flags : base36Value digits / 2 ^ 27 % 2 ^ 4 = 2
  category : base36Value digits / 2 ^ 31 % 2 ^ 8 = category.toNat

section Uri

variable {a : AccessoryId} (h : UriReady db config a password setupId)
include h

theorem UriReady.run_eq (hsize : 20 ≤ bufferSize) :
    homekitGetSetupUri db config bufferSize =
      (0, uriStores (setupPayload (db.accessory a).category (setupCodeLoop 0 (CString.strdup password))) setupId) := by
  have ha : homekitAccessoryById db 1 = some a := by
    obtain ⟨rest, hrest⟩ := List.head?_eq_some_iff.mp h.first
    rw [homekitAccessoryById, hrest]
    exact List.find?_cons_of_pos (by simp [h.id])
  rcases homekitGetSetupUri_eq db bufferSize h.configPassword h.configSetupId with
    ⟨hlt, _⟩ | ⟨hnone, _⟩ | ⟨_, b, hb, heq⟩
  · omega
  · rw [ha] at hnone
    cases hnone
  · obtain rfl := Option.some.inj (ha.symm.trans hb)
    exact heq

theorem UriReady.payload_toNat :
    (setupPayload (db.accessory a).category (setupCodeLoop 0 (CString.strdup password))).toNat =
      (db.accessory a).category.toNat * 2 ^ 31 + 2 * 2 ^ 27 + setupNumber 0 (CString.strdup password) ∧
    setupNumber 0 (CString.strdup password) < 10 ^ 8 := by
  obtain ⟨c0, c1, c2, c4, c5, c7, c8, c9, hc, hdigits⟩ := validPassword_chars h.validPassword
  have hcount : ((CString.strdup password).filter isdigit).length = 8 := by
    rw [hc, filter_password hdigits]
    rfl
  have hcode : (0 : UInt32).toNat < 10 ^ 0 := by decide
  have hnine : 0 + ((CString.strdup password).filter isdigit).length ≤ 9 := by omega
  obtain ⟨hnumber, hlt⟩ := setupCodeLoop_toNat hnine hcode
  rw [hcount] at hlt
  have hzero : (0 : UInt32).toNat = 0 := rfl
  rw [hzero] at hnumber hlt
  rw [setupPayload_toNat h.category (by omega), hnumber]
  exact ⟨rfl, hlt⟩

theorem UriReady.decodes (hsize : 21 ≤ bufferSize) (buffer : Nat → UInt8) :
    UriDecodes (setupUri db config bufferSize buffer) password setupId (db.accessory a).category
      (base36Digits 9 (setupPayload (db.accessory a).category (setupCodeLoop 0 (CString.strdup password))).toNat) := by
  obtain ⟨hpayload, hnumber⟩ := h.payload_toNat
  have hcategory := h.category
  -- nine digits hold every payload of 39 bits
  have hvalue := (base36Value_digits 9 _).trans ((Nat.mod_eq_of_lt (by omega)).trans hpayload)
  refine ⟨?_, length_base36Digits _ _, fun d hd => mem_base36Digits hd, ?_, ?_, ?_⟩
  · rw [setupUri, h.run_eq (by omega)]
    apply bufferString_of_lies (lies_uriStores h.length)
    · rw [CString.strdup, List.takeWhile_eq_self_iff]
      exact uri_ne_zero _ _
    · have hlength : (CString.strdup setupId).length = 4 := h.length
      simp only [List.length_append, length_base36Digits, hlength]
      exact hsize
  · omega
  · omega
  · omega

end Uri

theorem UriDecodes.injective {uri password' setupId' digits digits' : Bytes} {category category' : UInt32}
    (h : UriDecodes uri password setupId category digits) (h' : UriDecodes uri password' setupId' category' digits') :
    setupNumber 0 (CString.strdup password) = setupNumber 0 (CString.strdup password') ∧ category = category' := by
  have htext := h.text.symm.trans h'.text
  rw [List.append_assoc, List.append_assoc] at htext
  have hdigits := (List.append_inj (List.append_cancel_left htext) (h.length.trans h'.length.symm)).1
  refine ⟨?_, UInt32.toNat_inj.mp ?_⟩
  · rw [← h.code, ← h'.code, hdigits]
  · rw [← h.category, ← h'.category, hdigits]

/-- The URI reads back, so it tells the setup code and the category. -/
theorem setupUri_decodes {a : AccessoryId} (h : UriReady db config a password setupId) (hsize : 21 ≤ bufferSize)
    (buffer : Nat → UInt8) :
    (homekitGetSetupUri db config bufferSize).1 = 0 ∧
    (∃ digits, UriDecodes (setupUri db config bufferSize buffer) password setupId (db.accessory a).category digits) ∧
    ∀ (db' : Database) (config' : ServerConfig) (a' : AccessoryId) (password' setupId' : Bytes) (bufferSize' : Nat)
      (buffer' : Nat → UInt8), UriReady db' config' a' password' setupId' → 21 ≤ bufferSize' →
      setupUri db' config' bufferSize' buffer' = setupUri db config bufferSize buffer →
      CString.strdup password' = CString.strdup password ∧ (db'.accessory a').category = (db.accessory a).category := by
  have hdecodes := h.decodes hsize buffer
  refine ⟨congrArg Prod.fst (h.run_eq (by omega)), ⟨_, hdecodes⟩, ?_⟩
  intro db' config' a' password' setupId' bufferSize' buffer' h' hsize' huri
  have hdecodes' := h'.decodes hsize' buffer'
  rw [huri] at hdecodes'
  obtain ⟨hnumber, hcategory⟩ := hdecodes'.injective hdecodes
  exact ⟨password_of_number h'.validPassword h.validPassword hnumber, hcategory⟩

theorem uriConfig_ready : UriReady (benchDatabase []) uriConfig 0 (ascii "111-22-333") (ascii "ABCD") where
  first := rfl
  id := rfl
  category := by decide
  configPassword := rfl
  validPassword := by decide +kernel
  configSetupId := rfl
  length := by decide +kernel

theorem setupUri_decodes_config :
    (homekitGetSetupUri (benchDatabase []) uriConfig 64).1 = 0 ∧
      ∃ digits, UriDecodes (setupUri (benchDatabase []) uriConfig 64 (fun _ => 0)) (ascii "111-22-333") (ascii "ABCD") 1 digits :=
  ⟨(setupUri_decodes uriConfig_ready (by decide) (fun _ => 0)).1,
    (setupUri_decodes uriConfig_ready (by decide) (fun _ => 0)).2.1⟩

end ArduinoHomeKit
