import ArduinoHomeKit.Library.JsonQuotes
import ArduinoHomeKit.ReadBack

/-! The values in an EVENT message: what a controller reads where an event was printed, and when
that is the value of the most recent notification. -/

namespace ArduinoHomeKit

variable {υ : Type} {sketch : Sketch υ} {rt : Runtime} {c : ClientId} {s s₀ : AccessoryState υ} {db : Database}
  {e : CharacteristicEvent} {v w : HomekitValue}

/-! What a value is. -/

section Values

variable {u : Json.Document}

/-- The bytes that a TLV or a block of data stands for. -/
def blockBytes (v : HomekitValue) : Bytes :=
  match v.format with
  | .tlv => match v.union.tlvList with
    | .null => []
    | .block _ l => tlvFormat l
  | _ => match v.union.dataValue with
    | .null => []
    | .block _ d => d.take v.union.dataSize

/-- A JSON value says what a value is. A float is said by every number that rounds to it, and a
string that is not there by nothing. -/
def SaysValue (rt : Runtime) (u : Json.Document) (v : HomekitValue) : Prop :=
  if v.isNull then u = .null
  else
    match v.format with
    | .bool => documentNumber u = some (if v.boolValue then 1 else 0)
    | .float => ∃ q, documentNumber u = some q ∧ floatEqual (rt.toFloat (.finite q)) v.floatBits = true
    | .string => ∃ life text, v.union.stringValue = .block life text ∧ u = .string (CString.strdup text)
    | .tlv | .data => ∃ text, u = .string text ∧ IsBase64 text ∧ base64DecodeBlocks text = blockBytes v
    | _ => documentNumber u = some (storedInteger v : ℚ)

/-- A text that is read as this number in front of whatever ends it. -/
def NumberText (text : Bytes) (q : ℚ) : Prop :=
  ∀ r, Json.EndsNumber r → Json.lex (text ++ r) = (Json.lex r).map (fun ts => .number q :: ts)

/-- A number of JSON, or a word that is no token. -/
inductive FloatText (text : Bytes) : Prop
  | number (q : ℚ) (h : NumberText text q)
  | word (h : ∀ r, Json.lex (text ++ r) = none)

/-- The format "%1.15g" prints numbers of JSON, and inf and nan. -/
structure PrintsFloats (rt : Runtime) : Prop where
  length : ∀ f, (rt.printFloat f).length ≤ 31
  text : ∀ f, FloatText (rt.printFloat f)

/-- What is read where a value was printed: an int is cut behind six characters, and the text of a
string, if there is room for it, stands between its quotes as it is. -/
def ReadAs (rt : Runtime) (w : HomekitValue) (u : Json.Document) : Prop :=
  if w.isNull then u = .null
  else
    match w.format with
    | .bool => u = .boolean w.boolValue
    | .int => ∃ m : Int, decimalInt m = (decimalInt w.intValue).take 6 ∧ u = .number m
    | .float => ∃ q, NumberText (rt.printFloat w.floatBits) q ∧ u = .number q
    | .string => (stringText w).length ≤ 509 ∧ ∃ d, Json.lex (34 :: (stringText w ++ [34])) = some [.string d] ∧ u = .string d
    | .tlv => (tlvText w).length ≤ 509 ∧ u = .string (tlvText w)
    | .data => (dataText w).length ≤ 509 ∧ u = .string (dataText w)
    | _ => u = .number (storedInteger w : ℚ)

end Values

/-! What the text of a value is read as, whatever stands behind it. -/

section Texts

variable {token : JsonToken} {lexeme : Json.Lexeme} {r : Bytes} {ts : List Json.Lexeme} {u : Json.Document}

/-- The tokens that values are printed as. -/
inductive ValueText : JsonToken → Prop
  | lexed {token : JsonToken} {lexeme : Json.Lexeme} (h : Lexed token lexeme) : ValueText token
  | string (text : Bytes) : ValueText (.string text)
  | float (text : Bytes) (h : FloatText text) : ValueText (.number text)

/-- A printed token says a value, read on its own. -/
def TokenSays (token : JsonToken) (u : Json.Document) : Prop :=
  fitsBuffer token = true ∧ ∃ lexeme, lexeme.scalar? = some u ∧ Json.lex (tokenText token) = some [lexeme]

theorem endsNumber_nil : Json.EndsNumber [] := fun b hb => by cases hb

theorem tokenText_string (text : Bytes) : tokenText (.string text) = 34 :: (text ++ [34]) := rfl

theorem tokenText_string_append (text r : Bytes) : tokenText (.string text) ++ r = 34 :: (text ++ 34 :: r) := by
  rw [tokenText_string, List.cons_append, List.append_assoc]
  rfl

theorem Lexed.alone (h : Lexed token lexeme) : Json.lex (tokenText token) = some [lexeme] := by
  have hlex := h.lex endsNumber_nil
  rwa [List.append_nil] at hlex

theorem NumberText.alone {text : Bytes} {q : ℚ} (h : NumberText text q) : Json.lex text = some [.number q] := by
  have hlex := h [] endsNumber_nil
  rwa [List.append_nil] at hlex

/-- One token on its own is one token in front of more. -/
theorem lex_single (hv : ValueText token) (h : Json.lex (tokenText token) = some [lexeme]) (hr : Json.EndsNumber r) :
    Json.lex (tokenText token ++ r) = (Json.lex r).map (fun ts => lexeme :: ts) := by
  cases hv with
  | lexed hl =>
    obtain rfl := (List.cons.inj (Option.some.inj (hl.alone.symm.trans h))).1
    exact hl.lex hr
  | string text =>
    obtain ⟨d, rfl, hd⟩ := Json.literal_of_lex (Json.closed_of_notMem List.not_mem_nil) Json.lex_nil h
    rw [tokenText_string_append]
    exact Json.lex_literal hd r
  | float text hf =>
    cases hf with
    | number q hq =>
      obtain rfl := (List.cons.inj (Option.some.inj (hq.alone.symm.trans h))).1
      exact hq r hr
    | word hnone =>
      have habsurd : Json.lex (text ++ []) = none := hnone []
      rw [List.append_nil] at habsurd
      cases habsurd.symm.trans h

/-- How the text of a value is read in front of more: as one token, or, where quotes stand in a
string, as several, of which the last one is a string again. -/
inductive FrontRead (token : JsonToken) (r : Bytes) (ts : List Json.Lexeme) : Prop
  | single (lexeme : Json.Lexeme) (ts₂ : List Json.Lexeme) (h : Json.lex (tokenText token) = some [lexeme])
      (hr : Json.lex r = some ts₂) (heq : ts = lexeme :: ts₂)
  | several (a : Json.Lexeme) (ts₁ : List Json.Lexeme) (d : Bytes) (ts₂ : List Json.Lexeme) (hr : Json.lex r = some ts₂)
      (heq : ts = a :: (ts₁ ++ .string d :: ts₂))

theorem frontRead (hv : ValueText token) (hr : Json.Closed r) (hends : Json.EndsNumber r)
    (h : Json.lex (tokenText token ++ r) = some ts) : FrontRead token r ts := by
  cases hv with
  | lexed hl =>
    rw [hl.lex hends] at h
    obtain ⟨ts₂, hts₂, rfl⟩ := Option.map_eq_some_iff.mp h
    exact .single _ ts₂ hl.alone hts₂ rfl
  | string text =>
    rw [tokenText_string_append] at h
    obtain ⟨ts₁, d, ts₂, hts₂, rfl⟩ := Json.lex_closed (s := 34 :: text) hr h
    cases ts₁ with
    | nil =>
      obtain ⟨d', hd', halone⟩ := Json.literal_of_lex hr hts₂ h
      exact .single _ ts₂ (hd' ▸ halone) hts₂ rfl
    | cons a ts₁ => exact .several a ts₁ d ts₂ hts₂ rfl
  | float text hf =>
    cases hf with
    | number q hq =>
      have hlex : Json.lex (tokenText (.number text) ++ r) = _ := hq r hends
      rw [hlex] at h
      obtain ⟨ts₂, hts₂, rfl⟩ := Option.map_eq_some_iff.mp h
      exact .single _ ts₂ hq.alone hts₂ rfl
    | word hnone =>
      have hlex : Json.lex (tokenText (.number text) ++ r) = none := hnone r
      rw [hlex] at h
      cases h

/-- What stands behind is read in any case. -/
theorem FrontRead.behind (h : FrontRead token r ts) : ∃ ts₁ ts₂, Json.lex r = some ts₂ ∧ ts = ts₁ ++ ts₂ := by
  cases h with
  | single lexeme ts₂ _ hr heq => exact ⟨[lexeme], ts₂, hr, heq⟩
  | several a ts₁ d ts₂ hr heq => exact ⟨a :: (ts₁ ++ [.string d]), ts₂, hr, by simp [heq]⟩

end Texts

/-! A value on its own. -/

section Alone

variable {token : JsonToken} {lexeme : Json.Lexeme} {u u' : Json.Document} {text : Bytes}

theorem tokenSays_lexed (h : Lexed token lexeme) (hu : lexeme.scalar? = some u') :
    TokenSays token u ↔ fitsBuffer token = true ∧ u = u' := by
  rw [TokenSays, h.alone]
  refine and_congr_right (fun _ => ⟨?_, ?_⟩)
  · rintro ⟨lexeme', hl, halone⟩
    obtain rfl := (List.cons.inj (Option.some.inj halone)).1
    exact Option.some.inj (hl.symm.trans hu)
  · rintro rfl
    exact ⟨lexeme, hu, rfl⟩

/-- A string that needs no escapes. -/
theorem tokenSays_plain (h : Json.Plain text) : TokenSays (.string text) u ↔ text.length ≤ 509 ∧ u = .string text := by
  rw [tokenSays_lexed (.string text h) rfl, fitsBuffer_string]

theorem tokenSays_string :
    TokenSays (.string text) u ↔
      text.length ≤ 509 ∧ ∃ d, Json.lex (34 :: (text ++ [34])) = some [.string d] ∧ u = .string d := by
  rw [TokenSays, fitsBuffer_string]
  refine and_congr_right (fun _ => ⟨?_, ?_⟩)
  · rintro ⟨lexeme, hu, halone⟩
    obtain ⟨d, rfl, hd⟩ := Json.literal_of_lex (Json.closed_of_notMem List.not_mem_nil) Json.lex_nil halone
    exact ⟨d, hd, (Option.some.inj hu).symm⟩
  · rintro ⟨d, hd, rfl⟩
    exact ⟨.string d, rfl, hd⟩

theorem tokenSays_float (hlen : text.length ≤ 31) (htext : FloatText text) :
    TokenSays (.number text) u ↔ ∃ q, NumberText text q ∧ u = .number q := by
  rw [TokenSays, fitsBuffer_number, and_iff_right (by omega)]
  constructor
  · rintro ⟨lexeme, hu, halone⟩
    cases htext with
    | number q hq =>
      obtain rfl := (List.cons.inj (Option.some.inj (hq.alone.symm.trans halone))).1
      exact ⟨q, hq, (Option.some.inj hu).symm⟩
    | word hnone =>
      have habsurd : Json.lex (text ++ []) = none := hnone []
      rw [List.append_nil] at habsurd
      cases habsurd.symm.trans halone
  · rintro ⟨q, hq, rfl⟩
    exact ⟨.number q, rfl, hq.alone⟩

theorem plain_nil : Json.Plain [] := fun _ hb => absurd hb List.not_mem_nil

theorem plain_tlvText (w : HomekitValue) : Json.Plain (tlvText w) := by
  rw [tlvText]
  split
  · exact plain_nil
  · exact plain_of_isBase64 (isBase64_encode _)

theorem plain_dataText (w : HomekitValue) : Json.Plain (dataText w) := by
  rw [dataText]
  split
  · exact plain_nil
  · exact plain_of_isBase64 (isBase64_encode _)

theorem valueToken_number {m : Int} (hn : w.isNull = false) (h : scalarCall rt w = .number (decimalInt m)) :
    TokenSays (valueToken rt w) u ↔ u = .number (m : ℚ) := by
  rw [valueToken, if_neg (by simp [hn]), h, tokenSays_lexed (.number m) rfl, and_iff_right (fits_scalarCall h)]

/-- The buffer of json_float has room for every float. -/
theorem scalarCall_float (hfloat : PrintsFloats rt) (hf : w.format = .float) :
    scalarCall rt w = .number (rt.printFloat w.floatBits) := by
  have hsame : snprintf 32 (rt.printFloat w.floatBits) = rt.printFloat w.floatBits :=
    List.take_of_length_le (hfloat.length _)
  rw [scalarCall, hf]
  exact congrArg JsonCall.number hsame

/-- A value alone is read as said. -/
theorem tokenSays_iff (hfloat : PrintsFloats rt) (w : HomekitValue) : TokenSays (valueToken rt w) u ↔ ReadAs rt w u := by
  cases hn : w.isNull with
  | true =>
    have hfit : fitsBuffer .null = true := by decide
    rw [valueToken, ReadAs, if_pos hn, if_pos hn, tokenSays_lexed .null rfl, and_iff_right hfit]
  | false =>
    have hnull : ¬ w.isNull = true := by simp [hn]
    rw [ReadAs, if_neg hnull]
    cases hf : w.format with
    | bool =>
      have hfit : ∀ b : Bool, fitsBuffer (.boolean b) = true := by decide +kernel
      have htoken : valueToken rt w = .boolean w.boolValue := by
        rw [valueToken, if_neg hnull, scalarCall, hf]
      rw [htoken, tokenSays_lexed (.boolean _) rfl, and_iff_right (hfit _)]
    | float =>
      have htoken : valueToken rt w = .number (rt.printFloat w.floatBits) := by
        rw [valueToken, if_neg hnull, scalarCall_float hfloat hf]
      rw [htoken]
      exact tokenSays_float (hfloat.length _) (hfloat.text _)
    | string =>
      rw [valueToken_string hn hf]
      exact tokenSays_string
    | tlv =>
      rw [valueToken_tlv hn hf]
      exact tokenSays_plain (plain_tlvText w)
    | data =>
      rw [valueToken_data hn hf]
      exact tokenSays_plain (plain_dataText w)
    | int =>
      obtain ⟨m, hm, _⟩ := jsonInteger_eq w.intValue
      have hcut : decimalInt m = (decimalInt w.intValue).take 6 := JsonCall.number.inj (hm.symm.trans rfl)
      rw [valueToken_number hn (m := m) (by rw [scalarCall, hf]; exact hm)]
      constructor
      · exact fun hu => ⟨m, hcut, hu⟩
      · rintro ⟨m', hm', hu⟩
        rwa [decimalInt_injective (hcut.trans hm'.symm)]
    | _ =>
      obtain ⟨m, hcall, _, hsame⟩ : ∃ m, scalarCall rt w = .number (decimalInt m) ∧ InRange w.format m ∧
          (m = storedInteger w ↔ (w.format = .int → (decimalInt (storedInteger w)).length ≤ 6)) :=
        scalarCall_integer (by rw [hf]; rfl)
      rw [valueToken_number hn hcall, hsame.mpr (by simp [hf])]

end Alone

/-! The text of the message. -/

section Items

variable {aid iid : UInt32} {es : List CharacteristicEvent} {l : Bytes} {ts : List Json.Lexeme}

def idTokens (aid iid : UInt32) : List JsonToken :=
  [.objectStart, .string (ascii "aid"), .colon, .number (decimalInt aid.toNat), .comma, .string (ascii "iid"), .colon,
    .number (decimalInt iid.toNat)]

def idLexemes (aid iid : UInt32) : List Json.Lexeme :=
  [.objectStart, .string (ascii "aid"), .colon, .number (aid.toNat : Int), .comma, .string (ascii "iid"), .colon,
    .number (iid.toNat : Int)]

def valueKey : List JsonToken := [.comma, .string (ascii "value"), .colon]

def valueKeyLexemes : List Json.Lexeme := [.comma, .string (ascii "value"), .colon]

/-- The event is printed with its value. -/
def Valued (db : Database) (e : CharacteristicEvent) : Prop :=
  hasFlag (db.characteristic e.characteristic).permissions Permissions.pairedRead = true ∧
    (e.value.isNull = true ∨ e.value.format = (db.characteristic e.characteristic).format)

instance (db : Database) (e : CharacteristicEvent) : Decidable (Valued db e) := by
  unfold Valued
  infer_instance

/-- The ids of a characteristic. -/
def aidOf (db : Database) (ch : CharacteristicId) : UInt32 :=
  (db.accessory (db.service (db.characteristic ch).service).accessory).id

def iidOf (db : Database) (ch : CharacteristicId) : UInt32 := (db.characteristic ch).id

theorem eventTree_tokens (e : CharacteristicEvent) :
    (eventTree rt db e).tokens = idTokens (aidOf db e.characteristic) (iidOf db e.characteristic) ++
      ((if Valued db e then valueKey ++ [valueToken rt e.value] else []) ++ [.objectEnd]) := by
  have hvalue : ∃ ms : List (Bytes × JsonTree),
      (if hasFlag (db.characteristic e.characteristic).permissions Permissions.pairedRead then
        valueMembers rt (db.characteristic e.characteristic) e.value else []) = ms ∧
      Json.memberTokens true ms = if Valued db e then valueKey ++ [valueToken rt e.value] else [] := by
    refine ⟨_, rfl, ?_⟩
    by_cases hread : hasFlag (db.characteristic e.characteristic).permissions Permissions.pairedRead = true
    · rw [if_pos hread, valueMembers]
      by_cases hn : e.value.isNull = true
      · rw [if_pos hn, if_pos ⟨hread, .inl hn⟩, valueToken, if_pos hn]
        rfl
      · by_cases hf : e.value.format = (db.characteristic e.characteristic).format
        · have htokens : (callTree (scalarCall rt e.value)).tokens = [valueToken rt e.value] :=
            callTree_scalarCall_tokens e.value (Bool.eq_false_iff.mpr hn)
          rw [if_neg hn, if_neg (by simp [hf]), if_pos ⟨hread, .inr hf⟩, member, Json.memberTokens, htokens]
          rfl
        · rw [if_neg hn, if_pos hf, if_neg (fun h => h.2.elim hn hf)]
          rfl
    · rw [if_neg hread, if_neg (fun h => hread h.1)]
      rfl
  obtain ⟨ms, hms, htokens⟩ := hvalue
  rw [eventTree, hms, ← htokens]
  simp [idMembers, member, jsonUint32_eq, callTree, Json.Tree.tokens, Json.memberTokens, idTokens, aidOf, iidOf,
    decimalInt_ofNat]

theorem filter_idTokens (aid iid : UInt32) : (idTokens aid iid).filter fitsBuffer = idTokens aid iid := by
  have hnumber : ∀ n : UInt32, fitsBuffer (.number (decimalInt n.toNat)) = true := by
    intro n
    have hlen : (decimal n.toNat).length ≤ 10 := (length_decimal_le_iff (by decide)).mpr (Nat.lt_trans n.toNat_lt (by decide))
    rw [fitsBuffer_number, decimalInt_ofNat]
    omega
  apply List.filter_eq_self.mpr
  simp only [idTokens, List.forall_mem_cons, hnumber, true_and]
  exact ⟨fitsBuffer_punctuation _ rfl, (fitsBuffer_string _).mpr (by decide), fitsBuffer_punctuation _ rfl,
    fitsBuffer_punctuation _ rfl, (fitsBuffer_string _).mpr (by decide), fitsBuffer_punctuation _ rfl,
    fun a ha => absurd ha List.not_mem_nil⟩

/-- What is written for an event. -/
def eventText (rt : Runtime) (db : Database) (e : CharacteristicEvent) : Bytes :=
  ((eventTree rt db e).tokens.filter fitsBuffer).flatMap tokenText

/-- The value behind its key, which is left out when it is too long for the buffer. -/
def valueText (rt : Runtime) (db : Database) (e : CharacteristicEvent) : Bytes :=
  if Valued db e then
    valueKey.flatMap tokenText ++ (if fitsBuffer (valueToken rt e.value) then tokenText (valueToken rt e.value) else [])
  else []

theorem eventText_eq (e : CharacteristicEvent) :
    eventText rt db e = (idTokens (aidOf db e.characteristic) (iidOf db e.characteristic)).flatMap tokenText ++
      (valueText rt db e ++ [125]) := by
  have hend : ([.objectEnd] : List JsonToken).filter fitsBuffer = [.objectEnd] := rfl
  have hkey : valueKey.filter fitsBuffer = valueKey := by
    apply List.filter_eq_self.mpr
    simp only [valueKey, List.forall_mem_cons]
    exact ⟨fitsBuffer_punctuation _ rfl, (fitsBuffer_string _).mpr (by decide), fitsBuffer_punctuation _ rfl,
      fun a ha => absurd ha List.not_mem_nil⟩
  rw [eventText, eventTree_tokens, List.filter_append, filter_idTokens, List.filter_append, hend, List.flatMap_append,
    List.flatMap_append, valueText]
  by_cases hv : Valued db e
  · rw [if_pos hv, if_pos hv, List.filter_append, hkey, List.flatMap_append, List.filter_cons]
    split
    · have hone : List.flatMap tokenText (valueToken rt e.value :: ([] : List JsonToken).filter fitsBuffer) =
          tokenText (valueToken rt e.value) := List.append_nil _
      rw [hone]
      rfl
    · rfl
  · rw [if_neg hv, if_neg hv]
    rfl

/-- What is written for events, each with a comma in front if `sep` says so, and for the end of the
message. -/
def eventsText (rt : Runtime) (db : Database) (sep : Bool) : List CharacteristicEvent → Bytes
  | [] => [93, 125]
  | e :: es => (if sep then [44] else []) ++ (eventText rt db e ++ eventsText rt db true es)

theorem itemTokens_text (sep : Bool) (es : List CharacteristicEvent) :
    ((Json.itemTokens sep (es.map (eventTree rt db)) ++ ([.arrayEnd, .objectEnd] : List JsonToken)).filter fitsBuffer).flatMap tokenText =
      eventsText rt db sep es := by
  induction es generalizing sep with
  | nil => rfl
  | cons e es ih =>
    have hsep : ((if sep then ([.comma] : List JsonToken) else []).filter fitsBuffer).flatMap tokenText = if sep then [44] else [] := by
      cases sep <;> rfl
    rw [List.map_cons, Json.itemTokens, List.append_assoc, List.append_assoc, List.filter_append, List.filter_append,
      List.flatMap_append, List.flatMap_append, hsep, ih true]
    rfl

/-- The tokens in front of the events. -/
def openingTokens : List JsonToken := [.objectStart, .string (ascii "characteristics"), .colon, .arrayStart]

def openingLexemes : List Json.Lexeme := [.objectStart, .string (ascii "characteristics"), .colon, .arrayStart]

/-- The text of the whole message. -/
def messageText (rt : Runtime) (db : Database) (es : List CharacteristicEvent) : Bytes :=
  openingTokens.flatMap tokenText ++ eventsText rt db false es

theorem messageText_eq (es : List CharacteristicEvent) :
    ((characteristicsTree (es.map (eventTree rt db))).tokens.filter fitsBuffer).flatMap tokenText = messageText rt db es := by
  have htokens : (characteristicsTree (es.map (eventTree rt db))).tokens =
      openingTokens ++ (Json.itemTokens false (es.map (eventTree rt db)) ++ [.arrayEnd, .objectEnd]) := by
    simp [openingTokens, characteristicsTree, member, Json.Tree.tokens, Json.memberTokens]
  have hfront : openingTokens.filter fitsBuffer = openingTokens := by
    apply List.filter_eq_self.mpr
    simp only [openingTokens, List.forall_mem_cons]
    exact ⟨fitsBuffer_punctuation _ rfl, (fitsBuffer_string _).mpr (by decide), fitsBuffer_punctuation _ rfl,
      fitsBuffer_punctuation _ rfl, fun a ha => absurd ha List.not_mem_nil⟩
  rw [htokens, List.filter_append, hfront, List.flatMap_append, itemTokens_text, messageText]

/-! The text as tokens. -/

theorem lex_comma (l : Bytes) : Json.lex (44 :: l) = (Json.lex l).map (fun ts => .comma :: ts) := Json.lex_punctuation rfl

theorem lex_objectEnd (l : Bytes) : Json.lex (125 :: l) = (Json.lex l).map (fun ts => .objectEnd :: ts) :=
  Json.lex_punctuation rfl

theorem lex_colon (l : Bytes) : Json.lex (tokenText .colon ++ l) = (Json.lex l).map (fun ts => .colon :: ts) :=
  Json.lex_punctuation rfl

theorem lex_ids (hl : Json.EndsNumber l) :
    Json.lex ((idTokens aid iid).flatMap tokenText ++ l) = (Json.lex l).map (fun ts => idLexemes aid iid ++ ts) := by
  have hobject : ∀ l, Json.lex (tokenText .objectStart ++ l) = (Json.lex l).map (fun ts => .objectStart :: ts) :=
    fun l => Json.lex_punctuation rfl
  have hcomma : ∀ l, Json.lex (tokenText .comma ++ l) = (Json.lex l).map (fun ts => .comma :: ts) := lex_comma
  have hplain : Json.Plain (ascii "aid") ∧ Json.Plain (ascii "iid") := by
    rw [ascii_ofList, ascii_ofList]
    simp [Json.Plain]
  simp only [idTokens, List.flatMap_cons, List.flatMap_nil, List.append_assoc, List.nil_append]
  rw [hobject, lex_key hplain.1, lex_colon, (Lexed.number _).lex (endsNumber_comma _), hcomma, lex_key hplain.2, lex_colon,
    (Lexed.number _).lex hl]
  simp only [Option.map_map]
  rfl

theorem lex_valueKey (l : Bytes) :
    Json.lex (valueKey.flatMap tokenText ++ l) = (Json.lex l).map (fun ts => valueKeyLexemes ++ ts) := by
  have hcomma : ∀ l, Json.lex (tokenText .comma ++ l) = (Json.lex l).map (fun ts => .comma :: ts) := lex_comma
  have hplain : Json.Plain (ascii "value") := by
    rw [ascii_ofList]
    simp [Json.Plain]
  simp only [valueKey, List.flatMap_cons, List.flatMap_nil, List.append_assoc, List.nil_append]
  rw [hcomma, lex_key hplain, lex_colon]
  simp only [Option.map_map]
  rfl

theorem lex_opening (l : Bytes) :
    Json.lex (openingTokens.flatMap tokenText ++ l) = (Json.lex l).map (fun ts => openingLexemes ++ ts) := by
  have hobject : ∀ l, Json.lex (tokenText .objectStart ++ l) = (Json.lex l).map (fun ts => .objectStart :: ts) :=
    fun l => Json.lex_punctuation rfl
  have harray : ∀ l, Json.lex (tokenText .arrayStart ++ l) = (Json.lex l).map (fun ts => .arrayStart :: ts) :=
    fun l => Json.lex_punctuation rfl
  have hplain : Json.Plain (ascii "characteristics") := by
    rw [ascii_ofList]
    simp [Json.Plain]
  simp only [openingTokens, List.flatMap_cons, List.flatMap_nil, List.append_assoc, List.nil_append]
  rw [hobject, lex_key hplain, lex_colon, harray]
  simp only [Option.map_map]
  rfl

theorem endsNumber_cons {b : UInt8} (h : b = 44 ∨ b = 125) (l : Bytes) : Json.EndsNumber (b :: l) := by
  rintro a ha
  obtain rfl := Option.some.inj ha
  rcases h with rfl | rfl <;> decide

/-- A string that goes on behind the end of an object stops at the next key, whose name is no token. -/
theorem closed_events (es : List CharacteristicEvent) : Json.Closed (125 :: eventsText rt db true es) := by
  cases es with
  | nil =>
    have hnone : (34 : UInt8) ∉ [125, 93, 125] := by decide
    exact Json.closed_of_notMem hnone
  | cons e es =>
    obtain ⟨l, hl⟩ : ∃ l, 125 :: eventsText rt db true (e :: es) = [125, 44, 123] ++ 34 :: 97 :: l := by
      refine ⟨[105, 100, 34] ++ (((idTokens (aidOf db e.characteristic) (iidOf db e.characteristic)).drop 2).flatMap tokenText ++
        (valueText rt db e ++ [125] ++ eventsText rt db true es)), ?_⟩
      have haid : tokenText (.string (ascii "aid")) = [34, 97, 105, 100, 34] := by
        rw [tokenText_string, ascii_ofList]
        rfl
      have hstart : tokenText .objectStart = [123] := rfl
      rw [eventsText, eventText_eq, idTokens]
      simp [haid, hstart]
    intro fuel d rest hread
    rw [hl] at hread
    have hplain : Json.Plain [125, 44, 123] := by simp [Json.Plain]
    have hmore := Json.readString_fuel hread (Nat.lt_succ_self _)
    rw [Json.readString_plain hplain (by simp)] at hmore
    obtain ⟨_, rfl⟩ := Prod.mk.inj (Option.some.inj hmore)
    rw [Json.lex_token rfl]
    rfl

/-! The document. -/

variable {p : CharacteristicId × Json.Document} {ps : List (CharacteristicId × Json.Document)} {sep : Bool}

/-- The object of a characteristic and its value. -/
def shownItem (db : Database) (p : CharacteristicId × Json.Document) : Json.Document :=
  .object [(ascii "aid", .number ((aidOf db p.1).toNat : Int)), (ascii "iid", .number ((iidOf db p.1).toNat : Int)),
    (ascii "value", p.2)]

theorem shownItem_tokens (p : CharacteristicId × Json.Document) :
    (shownItem db p).tokens = idLexemes (aidOf db p.1) (iidOf db p.1) ++ (valueKeyLexemes ++ (p.2.tokens ++ [.objectEnd])) := by
  simp [shownItem, Json.Tree.tokens, Json.memberTokens, idLexemes, valueKeyLexemes]

/-- The tokens of objects up to the end of the message. -/
def shownTokens (db : Database) (sep : Bool) (ps : List (CharacteristicId × Json.Document)) : List Json.Lexeme :=
  Json.itemTokens sep (ps.map (shownItem db)) ++ [.arrayEnd, .objectEnd]

theorem shownTokens_cons (sep : Bool) (p : CharacteristicId × Json.Document) (ps : List (CharacteristicId × Json.Document)) :
    shownTokens db sep (p :: ps) = (if sep then [.comma] else []) ++ (idLexemes (aidOf db p.1) (iidOf db p.1) ++
      (valueKeyLexemes ++ (p.2.tokens ++ .objectEnd :: shownTokens db true ps))) := by
  rw [shownTokens, List.map_cons, Json.itemTokens, shownItem_tokens]
  simp [shownTokens]

/-- The value is one token. -/
def IsScalar (u : Json.Document) : Prop := ∃ lexeme : Json.Lexeme, lexeme.scalar? = some u

theorem IsScalar.tokens {u : Json.Document} {lexeme : Json.Lexeme} (h : lexeme.scalar? = some u) : u.tokens = [lexeme] := by
  cases lexeme <;> simp only [Json.Token.scalar?, reduceCtorEq, Option.some.injEq] at h <;> subst h <;> rfl

/-! Objects are counted by the tokens they begin with. -/

theorem count_shownTokens (sep : Bool) (hps : ∀ p ∈ ps, IsScalar p.2) :
    (shownTokens db sep ps).count .objectStart = ps.length := by
  induction ps generalizing sep with
  | nil => rfl
  | cons p ps ih =>
    obtain ⟨⟨lexeme, hlexeme⟩, hps⟩ := List.forall_mem_cons.mp hps
    have hone : lexeme ≠ .objectStart := by
      rintro rfl
      cases hlexeme
    have hsep : (if sep then ([.comma] : List Json.Lexeme) else []).count .objectStart = 0 := by
      cases sep <;> rfl
    have hids : (idLexemes (aidOf db p.1) (iidOf db p.1)).count .objectStart = 1 := by
      simp [idLexemes]
    rw [shownTokens_cons, IsScalar.tokens hlexeme, List.count_append, List.count_append, List.count_append, hsep, hids]
    simp [valueKeyLexemes, ih true hps, hone]
    omega

/-- The value of an event is text of a value. -/
theorem valueToken_text (hfloat : PrintsFloats rt) (w : HomekitValue) : ValueText (valueToken rt w) := by
  cases hn : w.isNull with
  | true =>
    rw [valueToken, if_pos hn]
    exact .lexed .null
  | false =>
    rw [valueToken, if_neg (by simp [hn])]
    by_cases hi : w.format.isInteger = true
    · have hcall : ∃ m, scalarCall rt w = .number (decimalInt m) := (scalarCall_integer hi).imp (fun _ h => h.1)
      obtain ⟨m, hm⟩ := hcall
      rw [hm]
      exact .lexed (.number m)
    · cases hf : w.format <;> simp [hf, Format.isInteger] at hi
      · rw [scalarCall, hf]
        exact .lexed (.boolean _)
      · rw [scalarCall_float hfloat hf]
        exact .float _ (hfloat.text _)
      · rw [scalarCall, hf]
        exact .string _
      · rw [scalarCall, hf]
        exact .string _
      · rw [scalarCall, hf]
        exact .string _

/-- However a value is read, its object is left behind it. -/
theorem valueText_behind (hfloat : PrintsFloats rt) (h : Json.lex (valueText rt db e ++ 125 :: eventsText rt db true es) = some ts) :
    ∃ ts₁ ts₂, Json.lex (eventsText rt db true es) = some ts₂ ∧ ts = ts₁ ++ ts₂ := by
  have hend {ts : List Json.Lexeme} (h : Json.lex (125 :: eventsText rt db true es) = some ts) :
      ∃ ts₂, Json.lex (eventsText rt db true es) = some ts₂ ∧ ts = .objectEnd :: ts₂ := by
    rw [lex_objectEnd] at h
    obtain ⟨ts₂, hts₂, rfl⟩ := Option.map_eq_some_iff.mp h
    exact ⟨ts₂, hts₂, rfl⟩
  rw [valueText] at h
  split at h
  · rw [List.append_assoc, lex_valueKey] at h
    obtain ⟨ts', hts', rfl⟩ := Option.map_eq_some_iff.mp h
    split at hts'
    · obtain ⟨ts₁, ts₂, hlex, rfl⟩ :=
        (frontRead (valueToken_text hfloat e.value) (closed_events es) (endsNumber_cons (.inr rfl) _) hts').behind
      obtain ⟨ts₃, hts₃, rfl⟩ := hend hlex
      exact ⟨valueKeyLexemes ++ (ts₁ ++ [.objectEnd]), ts₃, hts₃, by simp⟩
    · obtain ⟨ts₃, hts₃, rfl⟩ := hend hts'
      exact ⟨valueKeyLexemes ++ [.objectEnd], ts₃, hts₃, by simp⟩
  · obtain ⟨ts₃, hts₃, rfl⟩ := hend h
    exact ⟨[.objectEnd], ts₃, hts₃, rfl⟩

theorem endsNumber_value (e : CharacteristicEvent) (es : List CharacteristicEvent) :
    Json.EndsNumber (valueText rt db e ++ 125 :: eventsText rt db true es) := by
  rw [valueText]
  split
  · exact endsNumber_cons (.inl rfl) _
  · exact endsNumber_cons (.inr rfl) _

/-- An event is read from its front: the ids, and behind them what its value and the rest are read as. -/
theorem lex_events_cons (sep : Bool) (e : CharacteristicEvent) (es : List CharacteristicEvent) :
    Json.lex (eventsText rt db sep (e :: es)) = (Json.lex (valueText rt db e ++ 125 :: eventsText rt db true es)).map
      (fun ts => (if sep then [.comma] else []) ++ (idLexemes (aidOf db e.characteristic) (iidOf db e.characteristic) ++ ts)) := by
  have hids : Json.lex (eventText rt db e ++ eventsText rt db true es) =
      (Json.lex (valueText rt db e ++ 125 :: eventsText rt db true es)).map
        (fun ts => idLexemes (aidOf db e.characteristic) (iidOf db e.characteristic) ++ ts) := by
    rw [eventText_eq, List.append_assoc, List.append_assoc]
    exact lex_ids (endsNumber_value e es)
  cases sep with
  | false => exact hids
  | true =>
    have hcomma : Json.lex (eventsText rt db true (e :: es)) =
        (Json.lex (eventText rt db e ++ eventsText rt db true es)).map (fun ts => .comma :: ts) := lex_comma _
    rw [hcomma, hids, Option.map_map]
    rfl

/-- Every event begins an object. -/
theorem count_eventsText (hfloat : PrintsFloats rt) (sep : Bool) (h : Json.lex (eventsText rt db sep es) = some ts) :
    es.length ≤ ts.count .objectStart := by
  induction es generalizing sep ts with
  | nil => exact Nat.zero_le _
  | cons e es ih =>
    rw [lex_events_cons] at h
    obtain ⟨ts', hts', rfl⟩ := Option.map_eq_some_iff.mp h
    obtain ⟨ts₁, ts₂, hlex, rfl⟩ := valueText_behind hfloat hts'
    have hle := ih true hlex
    have hids : (idLexemes (aidOf db e.characteristic) (iidOf db e.characteristic)).count .objectStart = 1 := by
      simp [idLexemes]
    simp only [List.length_cons, List.count_append, hids]
    omega

/-- An event says a value: the value is printed, and read as that. -/
def EventSays (rt : Runtime) (db : Database) (e : CharacteristicEvent) (u : Json.Document) : Prop :=
  Valued db e ∧ TokenSays (valueToken rt e.value) u

/-- No string makes up the objects that are to follow: there would be more of them than events. -/
theorem not_several (hfloat : PrintsFloats rt) (hps : ∀ p ∈ ps, IsScalar p.2) (hlen : es.length = ps.length)
    {ts₁ ts₂ : List Json.Lexeme} {d : Bytes} (hr : Json.lex (125 :: eventsText rt db true es) = some ts₂)
    (h : .objectEnd :: shownTokens db true ps = ts₁ ++ .string d :: ts₂) : False := by
  rw [lex_objectEnd] at hr
  obtain ⟨ts₃, hts₃, rfl⟩ := Option.map_eq_some_iff.mp hr
  have hevents := count_eventsText hfloat true hts₃
  have hcount : (shownTokens db true ps).count .objectStart = ps.length := count_shownTokens true hps
  cases ts₁ with
  | nil => simp at h
  | cons b ts₁ =>
    rw [List.cons_append] at h
    obtain ⟨_, h⟩ := List.cons.inj h
    have hnone : ts₁.count .objectStart = 0 := by
      rw [h, List.count_append, List.count_cons_of_ne (by simp), List.count_cons_of_ne (by simp)] at hcount
      omega
    cases ps with
    | nil =>
      have hmem : Json.Token.string d ∈ shownTokens db true [] := by simp [h]
      simp [shownTokens, Json.itemTokens] at hmem
    | cons p ps =>
      rw [shownTokens_cons, idLexemes] at h
      match ts₁, h, hnone with
      | [], h, _ => simp at h
      | [x], h, _ => simp at h
      | x :: y :: ts₁, h, hnone =>
        obtain rfl : y = .objectStart := by
          simp only [if_true, List.cons_append, List.nil_append, List.cons.injEq] at h
          exact h.2.1.symm
        rw [List.count_cons, List.count_cons_self] at hnone
        omega

/-- One event: what stands behind its ids is read as its value and the end of its object, and the
other events as the other objects. -/
theorem lex_value_iff (hfloat : PrintsFloats rt) (hps : ∀ p ∈ ps, IsScalar p.2) (hlen : es.length = ps.length)
    {u : Json.Document} {lexeme : Json.Lexeme} (hu : lexeme.scalar? = some u) :
    Json.lex (valueText rt db e ++ 125 :: eventsText rt db true es) =
        some (valueKeyLexemes ++ lexeme :: .objectEnd :: shownTokens db true ps) ↔
      EventSays rt db e u ∧ Json.lex (eventsText rt db true es) = some (shownTokens db true ps) := by
  have hend : Json.lex (125 :: eventsText rt db true es) = some (.objectEnd :: shownTokens db true ps) ↔
      Json.lex (eventsText rt db true es) = some (shownTokens db true ps) := by
    rw [lex_objectEnd]
    simp
  by_cases hv : Valued db e
  · have hkey : Json.lex (valueText rt db e ++ 125 :: eventsText rt db true es) =
        some (valueKeyLexemes ++ lexeme :: .objectEnd :: shownTokens db true ps) ↔
        Json.lex ((if fitsBuffer (valueToken rt e.value) then tokenText (valueToken rt e.value) else []) ++
          125 :: eventsText rt db true es) = some (lexeme :: .objectEnd :: shownTokens db true ps) := by
      rw [valueText, if_pos hv, List.append_assoc, lex_valueKey]
      simp
    rw [hkey, EventSays, and_iff_right hv, TokenSays]
    by_cases hfit : fitsBuffer (valueToken rt e.value) = true
    · rw [if_pos hfit, and_iff_right hfit]
      constructor
      · intro h
        cases frontRead (valueToken_text hfloat e.value) (closed_events es) (endsNumber_cons (.inr rfl) _) h with
        | single lexeme' ts₂ halone hr heq =>
          obtain ⟨rfl, rfl⟩ := List.cons.inj heq
          exact ⟨⟨lexeme, hu, halone⟩, hend.mp hr⟩
        | several a ts₁ d ts₂ hr heq => exact (not_several hfloat hps hlen hr (List.cons.inj heq).2).elim
      · rintro ⟨⟨lexeme', hu', halone⟩, hrest⟩
        obtain rfl : lexeme' = lexeme := by
          have htokens := (IsScalar.tokens hu').symm.trans (IsScalar.tokens hu)
          exact (List.cons.inj htokens).1
        rw [lex_single (valueToken_text hfloat e.value) halone (endsNumber_cons (.inr rfl) _), hend.mpr hrest]
        rfl
    · rw [if_neg hfit, List.nil_append, lex_objectEnd]
      refine iff_of_false (fun h => ?_) (fun h => hfit h.1.1)
      obtain ⟨ts', _, heq⟩ := Option.map_eq_some_iff.mp h
      obtain ⟨rfl, _⟩ := List.cons.inj heq
      cases hu
  · rw [valueText, if_neg hv, List.nil_append, lex_objectEnd]
    refine iff_of_false (fun h => ?_) (fun h => hv h.1.1)
    obtain ⟨ts', _, heq⟩ := Option.map_eq_some_iff.mp h
    cases (List.cons.inj heq).1

/-- The events are read as objects exactly if each of them says the value of its object. -/
theorem lex_events_iff (hfloat : PrintsFloats rt) (hps : ∀ p ∈ ps, IsScalar p.2)
    (hkeys : ps.map Prod.fst = es.map CharacteristicEvent.characteristic) :
    Json.lex (eventsText rt db sep es) = some (shownTokens db sep ps) ↔
      List.Forall₂ (fun e p => EventSays rt db e p.2) es ps := by
  induction es generalizing sep ps with
  | nil =>
    obtain rfl := List.map_eq_nil_iff.mp hkeys
    exact iff_of_true rfl .nil
  | cons e es ih =>
    obtain ⟨p, ps, rfl, hp, hkeys⟩ := List.map_eq_cons_iff.mp hkeys
    obtain ⟨⟨lexeme, hu⟩, hps⟩ := List.forall_mem_cons.mp hps
    have hlen : es.length = ps.length := by simpa using (congrArg List.length hkeys).symm
    rw [lex_events_cons, shownTokens_cons, hp, IsScalar.tokens hu, List.forall₂_cons, ← ih hps hkeys,
      ← lex_value_iff hfloat hps hlen hu]
    simp

/-- The message is read as the list of these objects exactly if its events say their values. -/
theorem reads_message_iff (hfloat : PrintsFloats rt) (hps : ∀ p ∈ ps, IsScalar p.2)
    (hkeys : ps.map Prod.fst = es.map CharacteristicEvent.characteristic) :
    Json.Reads (messageText rt db es) (.object [(ascii "characteristics", .array (ps.map (shownItem db)))]) ↔
      List.Forall₂ (fun e p => EventSays rt db e p.2) es ps := by
  have htokens : (Json.Tree.object [(ascii "characteristics", .array (ps.map (shownItem db)))] : Json.Document).tokens =
      openingLexemes ++ shownTokens db false ps := by
    simp [Json.Tree.tokens, Json.memberTokens, openingLexemes, shownTokens]
  have hevents : Json.lex (eventsText rt db false es) = some (shownTokens db false ps) ↔ _ := lex_events_iff hfloat hps hkeys
  rw [Json.Reads, messageText, lex_opening, htokens, ← hevents]
  simp

end Items

/-! The message that is sent. -/

section Sent

variable {π : Type} {crypto : WolfCrypt} {http : HttpParser π} {env : Environment}
  {w : World (accessoryPlatform sketch rt crypto http env)} {l : List (CharacteristicId × HomekitValue)} {n : Nat}
  {popped : List CharacteristicEvent} {body : Bytes}

/-- The value of the most recent notification of a characteristic. -/
def latestValue (l : List (CharacteristicId × HomekitValue)) (ch : CharacteristicId) : Option HomekitValue :=
  (l.reverse.find? (fun p => p.1 = ch)).map Prod.snd

/-- The event that is queued for the first of the notifications of a characteristic. -/
def oldestEvent (s : AccessoryState υ) (c : ClientId) (ch : CharacteristicId) : Option CharacteristicEvent :=
  (qDrain (s.eventQueue c).cnt (s.eventQueue c)).1.reverse.find? (fun e => e.characteristic = ch)

/-- A document lists the notified characteristics, each once and the last one first, and says of
each the value of its most recent notification. -/
def ListsLatest (rt : Runtime) (db : Database) (l : List (CharacteristicId × HomekitValue)) (doc : Json.Document) : Prop :=
  ∃ items : List (CharacteristicId × Json.Document),
    doc = .object [(ascii "characteristics", .array (items.map (shownItem db)))] ∧
      items.map Prod.fst = (l.map Prod.fst).dedup.reverse ∧
      ∀ p ∈ items, ∀ v, latestValue l p.1 = some v → SaysValue rt p.2 v

/-- The body of the message in the next pass is a document that lists the notified characteristics
with their latest values; there is no message if there was no notification. -/
def LatestSent (w : World (accessoryPlatform sketch rt crypto http env)) (c : ClientId) (s : AccessoryState υ)
    (l : List (CharacteristicId × HomekitValue)) : Prop :=
  (l = [] → processNotifications w c = w) ∧
    (l ≠ [] → ∃ s' chunks body doc, clientEvents sketch rt c s = .ok (s', eventHeaders :: chunks) ∧
      processNotifications w c = sendAll { w with app := .ok s' } c (eventHeaders :: chunks) ∧
      Chunked.decode chunks.flatten = some body ∧ Json.Reads body doc ∧ ListsLatest rt s.database l doc)

theorem SaysValue.isScalar {u : Json.Document} {v : HomekitValue} (h : SaysValue rt u v) : IsScalar u := by
  have hnumber {q : ℚ} (h : documentNumber u = some q) : IsScalar u := by
    cases u with
    | boolean b => exact ⟨.boolean b, rfl⟩
    | number q => exact ⟨.number q, rfl⟩
    | _ => simp [documentNumber] at h
  rw [SaysValue] at h
  split at h
  · exact ⟨.null, h ▸ rfl⟩
  · split at h
    · exact hnumber h
    · obtain ⟨q, hq, _⟩ := h
      exact hnumber hq
    · obtain ⟨life, text, _, rfl⟩ := h
      exact ⟨.string _, rfl⟩
    · obtain ⟨text, rfl, _⟩ := h
      exact ⟨.string _, rfl⟩
    · obtain ⟨text, rfl, _⟩ := h
      exact ⟨.string _, rfl⟩
    · exact hnumber h

/-- The characteristics of the coalesced events, the last one first. -/
theorem coalesced_keys (popped : List CharacteristicEvent) :
    (coalesced popped).map CharacteristicEvent.characteristic =
      (popped.map CharacteristicEvent.characteristic).reverse.dedup.reverse := by
  induction popped using List.reverseRecOn with
  | nil => rfl
  | append_singleton popped e ih =>
    have hput : coalesced (popped ++ [e]) = Recent.put CharacteristicEvent.characteristic (coalesced popped) e := by
      rw [coalesced, Recent.gather, List.foldl_append]
      rfl
    rw [hput, Recent.keys_put, ih, List.map_append, List.reverse_append]
    simp only [List.mem_reverse, List.mem_dedup, List.map_cons, List.map_nil, List.reverse_singleton, List.singleton_append]
    by_cases he : e.characteristic ∈ popped.map CharacteristicEvent.characteristic
    · rw [if_pos he, List.dedup_cons_of_mem (List.mem_reverse.mpr he)]
    · rw [if_neg he, List.dedup_cons_of_notMem (by simpa using he), List.reverse_cons]

theorem latestValue_of_mem {ch : CharacteristicId} (h : ch ∈ l.map Prod.fst) : ∃ v, latestValue l ch = some v := by
  obtain ⟨p, hp, hpe⟩ := List.mem_map.mp h
  have hsome : (l.reverse.find? (fun q => q.1 = ch)).isSome :=
    List.find?_isSome.mpr ⟨p, List.mem_reverse.mpr hp, by simpa using hpe⟩
  obtain ⟨q, hq⟩ := Option.isSome_iff_exists.mp hsome
  exact ⟨q.2, by rw [latestValue, hq]; rfl⟩

/-- Items for events are found one by one. -/
theorem exists_items_iff {R : CharacteristicEvent → Json.Document → Prop} {S : CharacteristicId → Json.Document → Prop}
    {es : List CharacteristicEvent} :
    (∃ ps : List (CharacteristicId × Json.Document), ps.map Prod.fst = es.map CharacteristicEvent.characteristic ∧
      (∀ p ∈ ps, S p.1 p.2) ∧ List.Forall₂ (fun e p => R e p.2) es ps) ↔
      ∀ e ∈ es, ∃ u, R e u ∧ S e.characteristic u := by
  induction es with
  | nil => simp
  | cons e es ih =>
    rw [List.forall_mem_cons, ← ih]
    constructor
    · rintro ⟨ps, hkeys, hs, hr⟩
      obtain ⟨p, ps, rfl, hp, hkeys⟩ := List.map_eq_cons_iff.mp hkeys
      obtain ⟨hsp, hs⟩ := List.forall_mem_cons.mp hs
      obtain ⟨hrp, hr⟩ := List.forall₂_cons.mp hr
      exact ⟨⟨p.2, hrp, hp ▸ hsp⟩, ps, hkeys, hs, hr⟩
    · rintro ⟨⟨u, hru, hsu⟩, ps, hkeys, hs, hr⟩
      exact ⟨(e.characteristic, u) :: ps, by simp [hkeys], List.forall_mem_cons.mpr ⟨hsu, hs⟩, .cons hru hr⟩

/-- The chunks of a document carry its text. -/
theorem decode_chunkedBody {tree : JsonTree} {chunks : List Bytes} (h : tree.depth ≤ jsonMaxDepth)
    (hchunks : chunkedBody homekitJsonBufferSize (treeCalls tree) = .ok chunks) :
    Chunked.decode chunks.flatten = some ((tree.tokens.filter fitsBuffer).flatMap tokenText) := by
  obtain ⟨chunks', hpayloads, hdecode⟩ := (hasBody_document h).mpr rfl
  have hsame : (Answer.document false (treeCalls tree)).payloads = .ok (json200ResponseHeaders :: chunks) := by
    simp [Answer.payloads, chunkedPayloads, hchunks, Except.map]
  obtain rfl := (List.cons.inj (Except.ok.inj (hpayloads.symm.trans hsame))).2
  exact hdecode

/-- The message of the pass, as its client reads it. -/
theorem latestSent_coalesced (hfloat : PrintsFloats rt) (hstep : (w.client c).step = .pairVerify2Of2) (happ : w.app = .ok s)
    (h : Stacked n (s.eventQueue c) popped) (hne : popped ≠ [])
    (hcopies : ∀ e ∈ popped, homekitValueCopy e.value = .ok e.value)
    (hkeys : popped.map CharacteristicEvent.characteristic = (l.map Prod.fst).reverse)
    (hlatest : ∀ ch ∈ l.map Prod.fst, ∃ v, latestValue l ch = some v) :
    LatestSent w c s l ↔ ∀ e ∈ coalesced popped, ∀ v, latestValue l e.characteristic = some v →
      Valued s.database e ∧ ∃ u, ReadAs rt e.value u ∧ SaysValue rt u v := by
  obtain ⟨s', chunks, hchunks, hevents, _⟩ := clientEvents_eq sketch rt h hne hcopies
  have hsend := processNotifications_eq hstep happ hevents
  have hbody := decode_chunkedBody (eventsTree_depth rt s.database (coalesced popped)) hchunks
  rw [messageText_eq] at hbody
  have hl : l ≠ [] := by
    rintro rfl
    exact hne (List.map_eq_nil_iff.mp hkeys)
  have horder : (coalesced popped).map CharacteristicEvent.characteristic = (l.map Prod.fst).dedup.reverse := by
    rw [coalesced_keys, hkeys, List.reverse_reverse]
  have hmem {ch : CharacteristicId} (hch : ch ∈ (coalesced popped).map CharacteristicEvent.characteristic) :
      ∃ v, latestValue l ch = some v := by
    rw [horder, List.mem_reverse, List.mem_dedup] at hch
    exact hlatest ch hch
  -- what the message says is what its body is read as
  have hsent : LatestSent w c s l ↔ ∃ doc, Json.Reads (messageText rt s.database (coalesced popped)) doc ∧
      ListsLatest rt s.database l doc := by
    constructor
    · rintro ⟨_, hsent⟩
      obtain ⟨s'', chunks', body, doc, hevents', _, hdecode, hdoc⟩ := hsent hl
      obtain ⟨_, hpayloads⟩ := Prod.mk.inj (Except.ok.inj (hevents.symm.trans hevents'))
      obtain rfl := (List.cons.inj hpayloads).2
      obtain rfl := Option.some.inj (hbody.symm.trans hdecode)
      exact ⟨doc, hdoc⟩
    · rintro ⟨doc, hdoc⟩
      exact ⟨fun hnil => absurd hnil hl, fun _ => ⟨s', chunks, _, doc, hevents, hsend, hbody, hdoc⟩⟩
  have hscalar : ∀ items : List (CharacteristicId × Json.Document), items.map Prod.fst = (l.map Prod.fst).dedup.reverse →
      (∀ p ∈ items, ∀ v, latestValue l p.1 = some v → SaysValue rt p.2 v) → ∀ p ∈ items, IsScalar p.2 := by
    intro items hitems htold p hp
    obtain ⟨v, hv⟩ := hmem (horder ▸ hitems ▸ List.mem_map_of_mem hp)
    exact (htold p hp v hv).isScalar
  have hitems : (∃ doc, Json.Reads (messageText rt s.database (coalesced popped)) doc ∧ ListsLatest rt s.database l doc) ↔
      ∀ e ∈ coalesced popped, ∃ u, EventSays rt s.database e u ∧
        ∀ v, latestValue l e.characteristic = some v → SaysValue rt u v := by
    refine Iff.trans ?_ (exists_items_iff (R := EventSays rt s.database)
      (S := fun ch u => ∀ v, latestValue l ch = some v → SaysValue rt u v))
    constructor
    · rintro ⟨doc, hdoc, items, rfl, hitems, htold⟩
      exact ⟨items, hitems.trans horder.symm, htold,
        (reads_message_iff hfloat (hscalar items hitems htold) (hitems.trans horder.symm)).mp hdoc⟩
    · rintro ⟨items, hitems, htold, hall⟩
      have hkeys' := hitems.trans horder
      exact ⟨_, (reads_message_iff hfloat (hscalar items hkeys' htold) hitems).mpr hall, items, rfl, hkeys', htold⟩
  rw [hsent, hitems]
  refine forall₂_congr (fun e he => ?_)
  obtain ⟨v, hv⟩ := hmem (List.mem_map_of_mem he)
  constructor
  · rintro ⟨u, ⟨hvalued, hu⟩, htold⟩ v' hv'
    exact ⟨hvalued, u, (tokenSays_iff hfloat e.value).mp hu, htold v' hv'⟩
  · intro hall
    obtain ⟨hvalued, u, hu, htold⟩ := hall v hv
    refine ⟨u, ⟨hvalued, (tokenSays_iff hfloat e.value).mpr hu⟩, fun v' hv' => ?_⟩
    rwa [← Option.some.inj (hv.symm.trans hv')]

/-- A message of at most four notifications is right exactly if what the first one of each
characteristic is read as says the value of the last one. -/
theorem latestSent_iff (hfloat : PrintsFloats rt) (hstep : (w.client c).step = .pairVerify2Of2) (happ : w.app = .ok s)
    (h : Notices sketch c s₀ l s) (h0 : Stacked 4 (s₀.eventQueue c) []) (hlen : l.length ≤ 4) :
    LatestSent w c s l ↔ ∀ ch v, latestValue l ch = some v → ∀ e, oldestEvent s c ch = some e →
      Valued s.database e ∧ ∃ u, ReadAs rt e.value u ∧ SaysValue rt u v := by
  obtain ⟨all, hp⟩ := h.pending h0
  have hlength : all.length = l.length := by
    simpa using congrArg List.length hp.characteristics
  have hqueued : Stacked 4 (s.eventQueue c) all.reverse := by
    have htake : all.reverse.take 4 = all.reverse := List.take_of_length_le (by simpa [hlength] using hlen)
    rw [← htake]
    exact hp.queued
  by_cases hne : l = []
  · subst hne
    obtain rfl : all = [] := List.eq_nil_of_length_eq_zero hlength
    refine iff_of_true ⟨fun _ => pass_nothing hstep happ hqueued, fun hn => absurd rfl hn⟩ ?_
    exact fun ch v hv => by simp [latestValue] at hv
  · have hpopped : all.reverse ≠ [] := by
      intro hn
      have hzero : l.length = 0 := by rw [← hlength, List.reverse_eq_nil_iff.mp hn, List.length_nil]
      exact hne (List.eq_nil_of_length_eq_zero hzero)
    have hkeys : all.reverse.map CharacteristicEvent.characteristic = (l.map Prod.fst).reverse := by
      rw [List.map_reverse, hp.characteristics]
    rw [latestSent_coalesced hfloat hstep happ hqueued hpopped (fun e he => hp.copies e (List.mem_reverse.mp he)) hkeys
      (fun ch => latestValue_of_mem)]
    have holdest : ∀ ch, oldestEvent s c ch = (coalesced all.reverse).find? (fun e => e.characteristic = ch) := by
      intro ch
      rw [coalesced, Recent.find_gather, oldestEvent, (hqueued.drain (Nat.le_of_eq hqueued.cnt.symm)).1]
    constructor
    · intro hall ch v hv e he
      rw [holdest] at he
      have hkey : e.characteristic = ch := by simpa using List.find?_some he
      exact hall e (List.mem_of_find?_eq_some he) v (hkey ▸ hv)
    · intro hall e he v hv
      refine hall e.characteristic v hv e ?_
      rw [holdest]
      exact (Recent.mem_iff_find (Recent.nodup_gather _)).mp he

end Sent

/-! Two switches, both subscribed to by client 0, whose session is open. -/

section Bench

theorem benchRuntime_prints : PrintsFloats benchRuntime := by
  have hzero : Json.Numeral [48] := ⟨List.cons_ne_nil _ _, by simp [Json.isDigit], fun _ => rfl⟩
  have htext : ∀ f, benchRuntime.printFloat f = [48] := fun _ => ascii_ofList
  refine ⟨fun f => by rw [htext]; decide, fun f => ?_⟩
  rw [htext]
  refine .number 0 (fun r hr => ?_)
  have hlex := Json.lex_numeral hzero hr
  rwa [show ((Json.digitsValue [48] : Nat) : ℚ) = 0 from rfl] at hlex

/-- Switch 0 is turned on, then switch 1, then switch 0 again. -/
def onTwice : List (CharacteristicId × HomekitValue) :=
  [(0, benchScalar .uint8 1), (1, benchScalar .uint8 1), (0, benchScalar .uint8 1)]

theorem onTwice_notices : Notices benchSketch 0 (afterNotifications []) onTwice (afterNotifications onTwice) := by
  have h0 : Notices benchSketch 0 (afterNotifications []) [] (afterNotifications []) := .start
  have h1 : Notices benchSketch 0 (afterNotifications []) (onTwice.take 1) (afterNotifications (onTwice.take 1)) :=
    h0.posted rfl (by decide) rfl
  have h2 : Notices benchSketch 0 (afterNotifications []) (onTwice.take 2) (afterNotifications (onTwice.take 2)) :=
    h1.posted rfl (by decide) rfl
  exact h2.posted rfl (by decide) rfl

/-- The first and the last value of each switch are the same. -/
theorem latestSent_iff_onTwice : LatestSent (sessionWith (afterNotifications onTwice)) 0 (afterNotifications onTwice) onTwice := by
  refine (latestSent_iff benchRuntime_prints rfl rfl onTwice_notices (benchState_stacked _) (by decide)).mpr
    (fun ch v hv e he => ?_)
  have hone : ReadAs benchRuntime (benchScalar .uint8 1) (.number (1 : ℚ)) ∧
      SaysValue benchRuntime (.number (1 : ℚ)) (benchScalar .uint8 1) := ⟨rfl, rfl⟩
  by_cases h0 : ch = 0
  · subst h0
    obtain rfl := Option.some.inj (show some (benchScalar .uint8 1) = some v from hv)
    obtain rfl := Option.some.inj (show some (⟨0, benchScalar .uint8 1⟩ : CharacteristicEvent) = some e from he)
    exact ⟨⟨rfl, .inr rfl⟩, _, hone⟩
  · by_cases h1 : ch = 1
    · subst h1
      obtain rfl := Option.some.inj (show some (benchScalar .uint8 1) = some v from hv)
      obtain rfl := Option.some.inj (show some (⟨1, benchScalar .uint8 1⟩ : CharacteristicEvent) = some e from he)
      exact ⟨⟨rfl, .inr rfl⟩, _, hone⟩
    · simp [latestValue, onTwice, Ne.symm h0, Ne.symm h1] at hv

/-- Switch 0 is turned on and off again. -/
def onAndOff : List (CharacteristicId × HomekitValue) := [(0, benchScalar .uint8 1), (0, benchScalar .uint8 0)]

theorem onAndOff_notices : Notices benchSketch 0 (afterNotifications []) onAndOff (afterNotifications onAndOff) := by
  have h0 : Notices benchSketch 0 (afterNotifications []) [] (afterNotifications []) := .start
  have h1 : Notices benchSketch 0 (afterNotifications []) (onAndOff.take 1) (afterNotifications (onAndOff.take 1)) :=
    h0.posted rfl (by decide) rfl
  exact h1.posted rfl (by decide) rfl

/-- The message says that the switch is on. -/
theorem on_and_off_sent_as_on :
    Notices benchSketch 0 (afterNotifications []) onAndOff (afterNotifications onAndOff) ∧
      ¬ LatestSent (sessionWith (afterNotifications onAndOff)) 0 (afterNotifications onAndOff) onAndOff := by
  refine ⟨onAndOff_notices, fun hsent => ?_⟩
  obtain ⟨all, hp⟩ := onAndOff_notices.pending (benchState_stacked _)
  have hqueued : all.reverse.take 4 = [⟨0, benchScalar .uint8 0⟩, ⟨0, benchScalar .uint8 1⟩] :=
    (hp.queued.drain (Nat.le_of_eq hp.queued.cnt.symm)).1.symm
  have hstacked := hp.queued
  have hcopies : ∀ e ∈ all.reverse.take 4, homekitValueCopy e.value = .ok e.value := fun e he =>
    hp.copies e (List.mem_reverse.mp (List.mem_of_mem_take he))
  rw [hqueued] at hstacked hcopies
  have hall := (latestSent_coalesced benchRuntime_prints (w := sessionWith (afterNotifications onAndOff)) rfl rfl hstacked
    (List.cons_ne_nil _ _) hcopies rfl (fun ch => latestValue_of_mem)).mp hsent
  obtain ⟨_, u, hu, htold⟩ := hall ⟨0, benchScalar .uint8 1⟩ List.mem_cons_self (benchScalar .uint8 0) rfl
  obtain rfl : u = .number (1 : ℚ) := hu
  have habsurd : some (1 : ℚ) = some 0 := htold
  simp at habsurd

end Bench

end ArduinoHomeKit
