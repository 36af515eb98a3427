import ArduinoHomeKit.AccessoryOperations
import ArduinoHomeKit.Base64Codec
import ArduinoHomeKit.NumberUpdates
import ArduinoHomeKit.Numerals
import ArduinoHomeKit.TlvCodec
import ArduinoHomeKit.WriteEvents

/-! Reading a value back after it was written: what the write stores of a JSON value, what the next
GET prints of it, and what the body of the answer says. -/

namespace ArduinoHomeKit

variable {υ : Type} {sketch : Sketch υ} {rt : Runtime} {c d : ClientId} {ch : CharacteristicId} {j value : CJson}
  {s s' : AccessoryState υ} {v w : HomekitValue} {x : Characteristic}

/-! The body of a GET for one characteristic. -/

section Body

variable {aid iid : UInt32} {l : Bytes} {doc u : Json.Document} {token : JsonToken} {lexeme : Json.Lexeme}

/-- The value that a body gives for its first characteristic. -/
def documentValue (doc : Json.Document) : Json.Document :=
  ((doc.member (ascii "characteristics")).items.headD .null).member (ascii "value")

/-- The tokens in front of the value. -/
def frontTokens (aid iid : UInt32) : List JsonToken :=
  [.objectStart, .string (ascii "characteristics"), .colon, .arrayStart, .objectStart, .string (ascii "aid"), .colon,
    .number (decimalInt aid.toNat), .comma, .string (ascii "iid"), .colon, .number (decimalInt iid.toNat), .comma,
    .string (ascii "value"), .colon]

def backTokens : List JsonToken := [.objectEnd, .arrayEnd, .objectEnd]

/-- The body, whose value is left out when it is too long for the buffer. -/
def valueBody (aid iid : UInt32) (token : JsonToken) : Bytes :=
  ((frontTokens aid iid ++ token :: backTokens).filter fitsBuffer).flatMap tokenText

/-- What a token is read as. -/
inductive Lexed : JsonToken → Json.Lexeme → Prop
  | null : Lexed .null .null
  | boolean (b : Bool) : Lexed (.boolean b) (.boolean b)
  | number (m : Int) : Lexed (.number (decimalInt m)) (.number m)
  | string (s : Bytes) (h : Json.Plain s) : Lexed (.string s) (.string s)

def frontLexemes (aid iid : UInt32) : List Json.Lexeme :=
  [.objectStart, .string (ascii "characteristics"), .colon, .arrayStart, .objectStart, .string (ascii "aid"), .colon,
    .number (aid.toNat : Int), .comma, .string (ascii "iid"), .colon, .number (iid.toNat : Int), .comma,
    .string (ascii "value"), .colon]

def backLexemes : List Json.Lexeme := [.objectEnd, .arrayEnd, .objectEnd]

theorem Lexed.lex (h : Lexed token lexeme) (hl : Json.EndsNumber l) :
    Json.lex (tokenText token ++ l) = (Json.lex l).map (fun ts => lexeme :: ts) := by
  cases h with
  | null => exact Json.lex_null
  | boolean b =>
    cases b with
    | true => exact Json.lex_true
    | false => exact Json.lex_false
  | number m => exact lex_decimalInt hl
  | string s hs =>
    show Json.lex ((34 :: s ++ [34]) ++ l) = _
    rw [List.append_assoc]
    exact Json.lex_string hs

theorem lex_key {name : String} (h : Json.Plain (ascii name)) :
    Json.lex (tokenText (.string (ascii name)) ++ l) = (Json.lex l).map (fun ts => .string (ascii name) :: ts) := by
  show Json.lex ((34 :: ascii name ++ [34]) ++ l) = _
  rw [List.append_assoc]
  exact Json.lex_string h

theorem endsNumber_comma (l : Bytes) : Json.EndsNumber (tokenText .comma ++ l) := by
  rintro b hb
  obtain rfl := Option.some.inj hb
  decide

theorem lex_front (l : Bytes) :
    Json.lex ((frontTokens aid iid).flatMap tokenText ++ l) = (Json.lex l).map (fun ts => frontLexemes aid iid ++ ts) := by
  have hobject : ∀ l, Json.lex (tokenText .objectStart ++ l) = (Json.lex l).map (fun ts => .objectStart :: ts) :=
    fun l => Json.lex_punctuation rfl
  have harray : ∀ l, Json.lex (tokenText .arrayStart ++ l) = (Json.lex l).map (fun ts => .arrayStart :: ts) :=
    fun l => Json.lex_punctuation rfl
  have hcolon : ∀ l, Json.lex (tokenText .colon ++ l) = (Json.lex l).map (fun ts => .colon :: ts) :=
    fun l => Json.lex_punctuation rfl
  have hcomma : ∀ l, Json.lex (tokenText .comma ++ l) = (Json.lex l).map (fun ts => .comma :: ts) :=
    fun l => Json.lex_punctuation rfl
  have hplain : Json.Plain (ascii "characteristics") ∧ Json.Plain (ascii "aid") ∧ Json.Plain (ascii "iid") ∧
      Json.Plain (ascii "value") := by
    rw [ascii_ofList, ascii_ofList, ascii_ofList, ascii_ofList]
    simp [Json.Plain]
  obtain ⟨hcharacteristics, haid, hiid, hvalue⟩ := hplain
  simp only [frontTokens, List.flatMap_cons, List.flatMap_nil, List.append_assoc, List.nil_append]
  rw [hobject, lex_key hcharacteristics, hcolon, harray, hobject, lex_key haid, hcolon,
    (Lexed.number _).lex (endsNumber_comma _), hcomma, lex_key hiid, hcolon,
    (Lexed.number _).lex (endsNumber_comma _), hcomma, lex_key hvalue, hcolon]
  simp only [Option.map_map]
  rfl

theorem lex_back : Json.lex (backTokens.flatMap tokenText) = some backLexemes := by decide +kernel

theorem filter_frontTokens (aid iid : UInt32) : (frontTokens aid iid).filter fitsBuffer = frontTokens aid iid := by
  have hnumber : ∀ n : UInt32, fitsBuffer (.number (decimalInt n.toNat)) = true := by
    intro n
    have hlen : (decimal n.toNat).length ≤ 10 := (length_decimal_le_iff (by decide)).mpr (Nat.lt_trans n.toNat_lt (by decide))
    rw [fitsBuffer_number, decimalInt_ofNat]
    omega
  have hkey : ∀ name : String, (ascii name).length ≤ 509 → fitsBuffer (.string (ascii name)) = true :=
    fun name => (fitsBuffer_string _).mpr
  have hobject : fitsBuffer .objectStart = true := fitsBuffer_punctuation _ rfl
  have harray : fitsBuffer .arrayStart = true := fitsBuffer_punctuation _ rfl
  have hcolon : fitsBuffer .colon = true := fitsBuffer_punctuation _ rfl
  have hcomma : fitsBuffer .comma = true := fitsBuffer_punctuation _ rfl
  apply List.filter_eq_self.mpr
  simp only [frontTokens, List.forall_mem_cons, hnumber, hobject, harray, hcolon, hcomma, true_and]
  exact ⟨hkey _ (by decide), hkey _ (by decide), hkey _ (by decide), hkey _ (by decide),
    fun a ha => absurd ha List.not_mem_nil⟩

theorem valueBody_eq (aid iid : UInt32) (token : JsonToken) :
    valueBody aid iid token = (frontTokens aid iid).flatMap tokenText ++
      ((if fitsBuffer token then tokenText token else []) ++ backTokens.flatMap tokenText) := by
  have hback : backTokens.filter fitsBuffer = backTokens := rfl
  rw [valueBody, List.filter_append, filter_frontTokens, List.filter_cons, hback, List.flatMap_append]
  split <;> rfl

theorem lex_valueBody (aid iid : UInt32) (token : JsonToken) :
    Json.lex (valueBody aid iid token) =
      (Json.lex ((if fitsBuffer token then tokenText token else []) ++ backTokens.flatMap tokenText)).map
        (fun ts => frontLexemes aid iid ++ ts) := by
  rw [valueBody_eq, lex_front]

/-- What a document is whose tokens begin like that. -/
theorem documentValue_of_tokens {ts : List Json.Lexeme} (ha : lexeme.scalar? = some u)
    (h : doc.tokens = frontLexemes aid iid ++ lexeme :: ts) : documentValue doc = u := by
  have hr : doc.tokens ++ [] = frontLexemes aid iid ++ lexeme :: ts := by rw [List.append_nil, h]
  obtain ⟨list, rest, rfl, hlist⟩ := Json.Tree.eq_object hr
  obtain ⟨item, items, rfl, hitem⟩ := Json.Tree.eq_array hlist (by simp)
  obtain ⟨aidValue, members, rfl, haid⟩ := Json.Tree.eq_object hitem
  obtain ⟨rfl, hmembers⟩ := Json.Tree.eq_of_scalar rfl haid
  obtain ⟨iidValue, members', rfl, hiid⟩ := Json.members_eq_cons hmembers
  obtain ⟨rfl, hmembers'⟩ := Json.Tree.eq_of_scalar rfl hiid
  obtain ⟨value, members'', rfl, hvalue⟩ := Json.members_eq_cons hmembers'
  obtain ⟨rfl, _⟩ := Json.Tree.eq_of_scalar ha hvalue
  rfl

/-- The document of a body with this value. -/
def valueDocument (aid iid : UInt32) (u : Json.Document) : Json.Document :=
  .object [(ascii "characteristics", .array [.object [(ascii "aid", .number (aid.toNat : Int)),
    (ascii "iid", .number (iid.toNat : Int)), (ascii "value", u)]])]

theorem valueDocument_tokens (aid iid : UInt32) (ha : lexeme.scalar? = some u) :
    (valueDocument aid iid u).tokens = frontLexemes aid iid ++ lexeme :: backLexemes ∧
      documentValue (valueDocument aid iid u) = u := by
  have hu : u.tokens = [lexeme] := by
    cases lexeme <;> simp only [Json.Token.scalar?, reduceCtorEq, Option.some.injEq] at ha <;> subst ha <;> rfl
  refine ⟨?_, rfl⟩
  simp [valueDocument, Json.Tree.tokens, Json.itemTokens, Json.memberTokens, hu, frontLexemes, backLexemes]

/-- A value that is read as a token. -/
theorem reads_lexed {P : Json.Document → Prop} (hfit : fitsBuffer token = true) (h : Lexed token lexeme)
    (ha : lexeme.scalar? = some u) : (∃ doc, Json.Reads (valueBody aid iid token) doc ∧ P (documentValue doc)) ↔ P u := by
  have hends : Json.EndsNumber (backTokens.flatMap tokenText) := by
    rintro b hb
    obtain rfl := Option.some.inj hb
    decide
  have hlex : Json.lex (valueBody aid iid token) = some (frontLexemes aid iid ++ lexeme :: backLexemes) := by
    rw [lex_valueBody, if_pos hfit, h.lex hends, lex_back]
    rfl
  constructor
  · rintro ⟨doc, hdoc, hp⟩
    rw [Json.Reads, hlex] at hdoc
    rwa [documentValue_of_tokens ha (Option.some.inj hdoc).symm] at hp
  · intro hp
    obtain ⟨hdoc, hvalue⟩ := valueDocument_tokens aid iid ha
    refine ⟨valueDocument aid iid u, hlex.trans (congrArg some hdoc.symm), ?_⟩
    rwa [hvalue]

/-- A string that would need escapes is never read as it was printed. -/
theorem reads_not_plain {text : Bytes} (hs : ¬ Json.Plain text) (hfit : fitsBuffer (.string text) = true)
    (h : Json.Reads (valueBody aid iid (.string text)) doc) :
    ∃ d, documentValue doc = .string d ∧ d.length < text.length := by
  rw [Json.Reads, lex_valueBody, if_pos hfit] at h
  obtain ⟨ts, hts, htokens⟩ := Option.map_eq_some_iff.mp h
  have hquoted : Json.lex (34 :: (text ++ 34 :: backTokens.flatMap tokenText)) = some ts := by
    rw [← hts]
    show _ = Json.lex ((34 :: text ++ [34]) ++ _)
    rw [List.append_assoc]
    rfl
  obtain ⟨d, ts', rfl, hlt⟩ := Json.lex_not_plain hs (by decide +kernel) hquoted
  exact ⟨d, documentValue_of_tokens rfl htokens.symm, hlt⟩

/-- A body without a value is no document. -/
theorem not_reads_missing (hfit : fitsBuffer token = false) : ¬ Json.Reads (valueBody aid iid token) doc := by
  intro h
  rw [Json.Reads, lex_valueBody, if_neg (by simp [hfit]), List.nil_append, lex_back] at h
  have hdocument : Json.IsDocument (frontLexemes aid iid ++ backLexemes) := ⟨doc, Option.some.inj h⟩
  have hgap : [Json.Token.colon, .objectEnd] <:+: frontLexemes aid iid ++ backLexemes :=
    ⟨(frontLexemes aid iid).dropLast, _, rfl⟩
  exact absurd (hdocument.startsValue hgap) (by simp [Json.Token.startsValue])

end Body

/-! The GET. -/

section Get

variable {params : List QueryParam} {answer : Answer} {body : Bytes}

/-- A query that asks for one characteristic, without details. -/
structure AsksFor (db : Database) (params : List QueryParam) (ch : CharacteristicId) : Prop where
  plain : requestedFormat params = 0
  component : ∃ text aid iid, requestedComponents params = some [text] ∧ componentIds text = some (aid, iid) ∧
    homekitCharacteristicByAidAndIid db aid iid = some ch

/-- The body that the chunks of an answer carry. -/
def HasBody (answer : Answer) (body : Bytes) : Prop :=
  ∃ chunks, answer.payloads = .ok (json200ResponseHeaders :: chunks) ∧ Chunked.decode chunks.flatten = some body

theorem hasBody_document {tree : JsonTree} (h : tree.depth ≤ jsonMaxDepth) :
    HasBody (.document false (treeCalls tree)) body ↔ body = (tree.tokens.filter fitsBuffer).flatMap tokenText := by
  have hnests : NestsWithin jsonMaxDepth (treeCalls tree) (jsonNew homekitJsonBufferSize) :=
    (nestsWithin_tree tree (jsonNew homekitJsonBufferSize) .start).mono (by simpa using h)
  rcases jsonRun_cases (treeCalls tree) (jsonNew homekitJsonBufferSize) (Nat.zero_le _) with ⟨_, hr⟩ | ⟨hn, _⟩
  · obtain ⟨hbody, hne, _⟩ := chunkedBody_run (by decide) hr
    have hdecode := decode_flushed hne
    rw [← jsonFlush_chunks, jsonFlush_flushed] at hdecode
    have hpayloads : (Answer.document false (treeCalls tree)).payloads =
        .ok (json200ResponseHeaders :: ((jsonFlush (jsonCalls (treeCalls tree) (jsonNew homekitJsonBufferSize))).flushed ++
          [[]]).map Chunked.encodeChunk) := by
      simp [Answer.payloads, chunkedPayloads, hbody, Except.map]
    constructor
    · rintro ⟨chunks, hchunks, hd⟩
      obtain rfl := (List.cons.inj (Except.ok.inj (hpayloads.symm.trans hchunks))).2
      exact (Option.some.inj (hdecode.symm.trans hd)).symm
    · rintro rfl
      exact ⟨_, hpayloads, hdecode⟩
  · exact absurd hnests hn

/-- The tree of the answer. -/
def itemTree (rt : Runtime) (db : Database) (x : Characteristic) : JsonTree :=
  characteristicsTree [.object (idMembers db x ++ valueMembers rt x x.value)]

theorem get_eq (hasks : AsksFor s.database params ch)
    (hread : hasFlag (s.database.characteristic ch).permissions Permissions.pairedRead = true)
    (hget : (s.database.characteristic ch).getterEx = none) :
    homekitServerOnGetCharacteristics sketch rt d params s =
      .ok (s, .document false (treeCalls (itemTree rt s.database (s.database.characteristic ch)))) := by
  obtain ⟨text, aid, iid, htexts, hids, hch⟩ := hasks.component
  have hrequested : requested? s.database aid iid = .readable ch := by
    simp [requested?, hch, hread]
  have hpass : firstPass s.database [text] = some true := by
    simp [firstPass, componentSucceeds, hids, hrequested]
  have hcomponent : componentCalls sketch rt d 0 true text s =
      .ok (s, treeCalls (.object (idMembers s.database (s.database.characteristic ch) ++
        valueMembers rt (s.database.characteristic ch) (s.database.characteristic ch).value))) := by
    have hhead : characteristicHeadCalls rt s.database d ch 0 =
        memberCalls (idMembers s.database (s.database.characteristic ch)) := by
      rw [← memberCalls_headMembers, headMembers_plain]
    simp [componentCalls, hids, hrequested, writeCharacteristicJson, hread, readValue, hget, Except.map, inObject, treeCalls,
      memberCalls_append, memberCalls_valueMembers, hhead]
  rw [homekitServerOnGetCharacteristics_eq htexts hpass, hasks.plain, loopCalls, hcomponent]
  simp [loopCalls, Except.map, withArray, inObject, itemTree, treeCalls_characteristicsTree, itemCalls]

end Get

/-! What is asked for. -/

/-- The number that a value stands for; true stands for 1 and false for 0. -/
def CJson.number? : CJson → Option ℚ
  | boolean b => some (if b then 1 else 0)
  | number (.finite q) => some q
  | _ => none

def documentNumber : Json.Document → Option ℚ
  | .boolean b => some (if b then 1 else 0)
  | .number q => some q
  | _ => none

/-- The value of a document stands for the value that was written. -/
def Denotes (format : Format) (j : CJson) (u : Json.Document) : Prop :=
  match format with
  | .string => ∃ text, j = .string text ∧ u = .string text
  | .tlv | .data => ∃ text text', j = .string text ∧ u = .string text' ∧ IsBase64 text ∧ IsBase64 text' ∧
    base64DecodeBlocks text' = base64DecodeBlocks text
  | _ => ∃ q, j.number? = some q ∧ documentNumber u = some q

/-- The next GET reads no freed memory, and its body is a document that gives the value written. -/
structure ReadsBack (sketch : Sketch υ) (rt : Runtime) (d : ClientId) (params : List QueryParam) (ch : CharacteristicId)
    (j : CJson) (s : AccessoryState υ) : Prop where
  live : (s.database.characteristic ch).value.IsLive
  body : ∃ s' answer body doc, homekitServerOnGetCharacteristics sketch rt d params s = .ok (s', answer) ∧
    HasBody answer body ∧ Json.Reads body doc ∧ Denotes (s.database.characteristic ch).format j (documentValue doc)

/-- The values that come back: the bits that nobody initialised mark them neither null nor static,
numbers are whole ones of the format, an int prints in six characters, and strings need no escapes
and fit the buffer. -/
def Returns (format : Format) (u : Uninitialised) (j : CJson) : Prop :=
  u.isNull = false ∧
    match format with
    | .bool => requestedInteger j = some 0 ∨ requestedInteger j = some 1
    | .int => j ≠ .boolean true ∧ ∃ n, requestedInteger j = some n ∧ InRange .int n ∧ (decimalInt n).length ≤ 6
    | .string => u.isStatic = false ∧ ∃ text, j = .string text ∧ Json.Plain text ∧ text.length ≤ 509
    | .tlv => u.isStatic = false ∧ ∃ (text : Bytes) (fragments : List (UInt8 × Bytes)), j = .string text ∧
      IsBase64 text ∧ text.length ≤ 509 ∧ (∀ f ∈ fragments, IsFragment f) ∧
        base64DecodeBlocks text = fragments.flatMap fragmentBytes
    | .data => ∃ text, j = .string text ∧ IsBase64 text ∧ text.length ≤ 509
    | _ => j ≠ .boolean true ∧ ∃ n, requestedInteger j = some n ∧ InRange format n

/-! Numbers. -/

theorem number?_eq_intCast {m : Int} : j.number? = some (m : ℚ) ↔ requestedInteger j = some m := by
  cases j with
  | boolean b =>
    cases b with
    | true =>
      have hone : ((1 : ℚ) = (m : ℚ)) ↔ (1 : Int) = m := by exact_mod_cast Iff.rfl
      simpa [CJson.number?, requestedInteger] using hone
    | false =>
      have hzero : ((0 : ℚ) = (m : ℚ)) ↔ (0 : Int) = m := by exact_mod_cast Iff.rfl
      simpa [CJson.number?, requestedInteger] using hzero
  | number d =>
    cases d with
    | finite q =>
      simp only [CJson.number?, requestedInteger, Option.some.injEq]
      constructor
      · rintro rfl
        simp
      · intro h
        split at h
        · rename_i hden
          rw [← Option.some.inj h]
          exact (Rat.coe_int_num_of_den_eq_one hden).symm
        · simp at h
    | infinite b => simp [CJson.number?, requestedInteger]
    | nan => simp [CJson.number?, requestedInteger]
  | _ => simp [CJson.number?, requestedInteger]

/-- The token that is printed for a value. -/
def valueToken (rt : Runtime) (v : HomekitValue) : JsonToken :=
  if v.isNull then .null
  else
    match scalarCall rt v with
    | .number text => .number text
    | .string text => .string text
    | .boolean b => .boolean b
    | _ => .null

/-- The body that prints a value gives the value written. -/
def Printed (rt : Runtime) (aid iid : UInt32) (j : CJson) (v : HomekitValue) : Prop :=
  ∃ doc, Json.Reads (valueBody aid iid (valueToken rt v)) doc ∧ Denotes v.format j (documentValue doc)

section Scalars

variable {aid iid : UInt32} {u : Uninitialised} {now : Nat}

theorem not_printed_null (h : v.isNull = true) : ¬ Printed rt aid iid j v := by
  intro hp
  rw [Printed, valueToken, if_pos h, reads_lexed (by decide) .null rfl] at hp
  cases hf : v.format <;> simp [hf, Denotes, documentNumber] at hp

/-- A number that is printed as a numeral. -/
theorem printed_number {m : Int} (hfit : fitsBuffer (.number (decimalInt m)) = true)
    (ht : valueToken rt v = .number (decimalInt m)) (hf : v.format.isPointer = false) :
    Printed rt aid iid j v ↔ requestedInteger j = some m := by
  rw [Printed, ht, reads_lexed hfit (.number m) rfl, ← number?_eq_intCast]
  have hdenotes : Denotes v.format j (.number m) ↔ ∃ q, j.number? = some q ∧ documentNumber (.number (m : ℚ)) = some q := by
    cases hx : v.format <;> simp [hx, Format.isPointer] at hf <;> exact Iff.rfl
  rw [hdenotes]
  constructor
  · rintro ⟨q, hj, hq⟩
    exact hj.trans hq.symm
  · exact fun h => ⟨m, h, rfl⟩

theorem valueInt_ofInt {n : Int} (h0 : -2147483648 < n) (h1 : n < 2147483647) : valueInt (.ofInt n) = n := by
  rw [valueInt, Double.le_ofInt, Double.le_ofInt, if_neg (by simpa using h1), if_neg (by simpa using h0),
    Double.truncate_ofInt]
  rfl

theorem printed_bool {b : Bool} (hn : u.isNull = false) (hv : writtenBool j = some b) :
    Printed rt aid iid j (cppValue u .bool (overlay u 8 b.toNat)) ↔
      requestedInteger j = some 0 ∨ requestedInteger j = some 1 := by
  have hvalue : (cppValue u .bool (overlay u 8 b.toNat)).boolValue = b := by
    rw [HomekitValue.boolValue, cppValue, low_overlay]
    cases b <;> rfl
  have htoken : valueToken rt (cppValue u .bool (overlay u 8 b.toNat)) = .boolean b := by
    rw [valueToken, if_neg (by simp [cppValue, hn])]
    show (Json.Token.boolean _ : JsonToken) = _
    rw [hvalue]
  have hdenotes : Denotes .bool j (.boolean b) ↔ requestedInteger j = some (if b then 1 else 0) := by
    rw [← number?_eq_intCast]
    constructor
    · rintro ⟨q, hj, hq⟩
      rw [hj, ← hq]
      cases b <;> simp [documentNumber]
    · intro h
      refine ⟨_, h, ?_⟩
      cases b <;> simp [documentNumber]
  rw [Printed, htoken, reads_lexed (by cases b <;> decide +kernel) (.boolean b) rfl]
  refine hdenotes.trans ⟨fun h => ?_, fun h => ?_⟩
  · cases b
    · exact Or.inl h
    · exact Or.inr h
  · have hrequested : ∀ n : Int, requestedInteger j = some n → n = 0 ∨ n = 1 → n = if b then 1 else 0 := by
      intro n hj hn
      cases j with
      | boolean b' =>
        rw [← Option.some.inj hv]
        exact (Option.some.inj hj).symm
      | number d =>
        obtain ⟨m, hd, ⟨habsurd, _⟩ | ⟨_, rfl⟩⟩ := valuedouble_requested hj
        · simp at habsurd
        · obtain rfl : d = .ofInt m := hd
          simp only [writtenBool, valueInt_ofInt (show -2147483648 < m by omega) (show m < 2147483647 by omega)] at hv
          rw [if_pos hn] at hv
          rw [← Option.some.inj hv]
          rcases hn with rfl | rfl <;> simp
      | _ => simp [requestedInteger] at hj
    rcases h with h | h
    · rw [h, ← hrequested 0 h (Or.inl rfl)]
    · rw [h, ← hrequested 1 h (Or.inr rfl)]

theorem storedInteger_inRange (hf : v.format.isInteger = true) : InRange v.format (storedInteger v) := by
  unfold InRange storedInteger
  cases hx : v.format <;> simp [hx, Format.isInteger] at hf <;> dsimp only [formatRange]
  · have := v.uint8Value.toNat_lt
    omega
  · have := v.uint16Value.toNat_lt
    omega
  · have := v.uint32Value.toNat_lt
    omega
  · have := v.uint64Value.toNat_lt
    omega
  · have hpow : ((2 ^ 32 : Nat) : Int) = 4294967296 := by norm_num
    have hle : -(((2 ^ 32 : Nat) : Int) / 2) ≤ v.intValue := Int.le_bmod (by decide)
    have hlt : v.intValue < (((2 ^ 32 : Nat) : Int) + 1) / 2 := Int.bmod_lt (by decide)
    rw [hpow] at hle hlt
    omega

/-- How an integer is printed: all of it, unless an int has more than six characters. -/
theorem scalarCall_integer (hf : v.format.isInteger = true) :
    ∃ m, scalarCall rt v = .number (decimalInt m) ∧ InRange v.format m ∧
      (m = storedInteger v ↔ (v.format = .int → (decimalInt (storedInteger v)).length ≤ 6)) := by
  have hrange := storedInteger_inRange hf
  cases hx : v.format <;> simp [hx, Format.isInteger] at hf <;> rw [hx] at hrange
  · refine ⟨storedInteger v, ?_, hrange, by simp⟩
    simp only [scalarCall, storedInteger, hx, jsonUint8_eq, decimalInt_ofNat]
  · refine ⟨storedInteger v, ?_, hrange, by simp⟩
    simp only [scalarCall, storedInteger, hx, jsonUint16_eq, decimalInt_ofNat]
  · refine ⟨storedInteger v, ?_, hrange, by simp⟩
    simp only [scalarCall, storedInteger, hx, jsonUint32_eq, decimalInt_ofNat]
  · refine ⟨storedInteger v, ?_, hrange, by simp⟩
    simp only [scalarCall, storedInteger, hx, jsonUint64_eq, decimalInt_ofNat]
  · obtain ⟨m, hm, hsmall, hsame⟩ := jsonInteger_eq v.intValue
    refine ⟨m, ?_, ?_, ?_⟩
    · simp only [scalarCall, hx, hm]
    · dsimp only [InRange, formatRange]
      omega
    · simp only [storedInteger, hx, hsame, forall_const]

theorem fits_scalarCall {text : Bytes} (h : scalarCall rt v = .number text) : fitsBuffer (.number text) = true := by
  have hfits : ∀ call : JsonCall, call = scalarCall rt v → TreeFits (callTree call) → fitsBuffer (.number text) = true := by
    rintro call rfl ht
    rw [h] at ht
    exact (fitsBuffer_number text).mpr ((treeFits_number text).mp ht)
  cases hx : v.format with
  | uint8 => exact hfits (jsonUint8 v.uint8Value) (by simp only [scalarCall, hx]) (treeFits_uint8 _)
  | uint16 => exact hfits (jsonUint16 v.uint16Value) (by simp only [scalarCall, hx]) (treeFits_uint16 _)
  | uint32 => exact hfits (jsonUint32 v.uint32Value) (by simp only [scalarCall, hx]) (treeFits_uint32 _)
  | uint64 => exact hfits (jsonUint64 v.uint64Value) (by simp only [scalarCall, hx]) (treeFits_uint64 _)
  | int => exact hfits (jsonInteger v.intValue) (by simp only [scalarCall, hx]) (treeFits_integer _)
  | float => exact hfits (jsonFloat (rt.printFloat v.floatBits)) (by simp only [scalarCall, hx]) (treeFits_float _)
  | _ => simp [scalarCall, hx] at h

theorem printed_integer (hf : x.format.isInteger = true) (hn : u.isNull = false) {q : Double}
    (hv : writtenInteger rt x j = some q) :
    Printed rt aid iid j (cppValue u x.format (integerUnion rt u q x.format)) ↔ j ≠ .boolean true ∧
      ∃ n, requestedInteger j = some n ∧ InRange x.format n ∧ (x.format = .int → (decimalInt n).length ≤ 6) := by
  generalize hw : cppValue u x.format (integerUnion rt u q x.format) = w
  have hwf : w.format = x.format := by rw [← hw]; rfl
  have hwn : w.isNull = false := by rw [← hw]; exact hn
  have hwi : w.format.isInteger = true := by rw [hwf]; exact hf
  obtain ⟨m, hcall, hm, hsame⟩ := scalarCall_integer hwi
  have htoken : valueToken rt w = .number (decimalInt m) := by
    rw [valueToken, if_neg (by simp [hwn]), hcall]
  have hpointer : w.format.isPointer = false := by
    cases hx : w.format <;> simp [hx, Format.isInteger] at hwi <;> rfl
  have hstored : ∀ n, q = .ofInt n → InRange x.format n → storedInteger w = n := by
    rintro n rfl hn
    rw [← hw]
    exact storedInteger_built hf u hn
  rw [hwf] at hm hsame
  rw [printed_number (fits_scalarCall hcall) htoken hpointer]
  constructor
  · intro hj
    obtain ⟨n, hd, ⟨_, rfl, rfl⟩ | ⟨htrue, rfl⟩⟩ := valuedouble_requested hj
    · -- true is stored as 0
      have hzero : InRange x.format 0 := by
        cases hx : x.format <;> simp [hx, Format.isInteger] at hf <;> exact ⟨by decide, by decide⟩
      have hs := hstored 0 (writtenInteger_some hd hv).1 hzero
      rw [hs] at hsame
      exact absurd (hsame.mpr (fun _ => by decide)) (by decide)
    · have hs := hstored n (writtenInteger_some hd hv).1 hm
      exact ⟨htrue, n, hj, hm, fun hint => by simpa [hs] using hsame.mp hs.symm hint⟩
  · rintro ⟨htrue, n, hj, hrange, hlen⟩
    obtain ⟨n', hd, ⟨htrue', _⟩ | ⟨_, rfl⟩⟩ := valuedouble_requested hj
    · exact absurd htrue' htrue
    · have hs := hstored n' (writtenInteger_some hd hv).1 hrange
      rw [hj, hsame.mpr (fun hint => by rw [hs]; exact hlen hint), hs]

end Scalars

/-! Strings and blocks. -/

section Texts

variable {aid iid : UInt32} {u : Uninitialised} {now : Nat} {text found printed : Bytes} {stored : HomekitValue}

/-- The value when the request is over. -/
def afterRequest (rt : Runtime) (now : Nat) (format : Format) (found : Bytes) (stored : HomekitValue) : HomekitValue :=
  (afterSwitch rt now format stored).freeString found

/-- A string that is printed, to be taken for a text. -/
theorem printed_string_iff (ht : valueToken rt v = .string printed) (hp : Json.Plain printed) :
    Printed rt aid iid j v ↔ printed.length ≤ 509 ∧ Denotes v.format j (.string printed) := by
  rw [Printed, ht]
  by_cases hfit : fitsBuffer (.string printed) = true
  · rw [reads_lexed hfit (.string printed hp) rfl]
    exact ⟨fun h => ⟨(fitsBuffer_string printed).mp hfit, h⟩, fun h => h.2⟩
  · constructor
    · rintro ⟨doc, hdoc, _⟩
      exact absurd hdoc (not_reads_missing (Bool.eq_false_iff.mpr hfit))
    · rintro ⟨hlen, _⟩
      exact absurd ((fitsBuffer_string printed).mpr hlen) hfit

theorem printed_text (ht : valueToken rt v = .string (CString.strdup text)) (hf : v.format = .string) :
    Printed rt aid iid (.string text) v ↔ Json.Plain text ∧ text.length ≤ 509 := by
  have hle : (CString.strdup text).length ≤ text.length := (List.takeWhile_sublist _).length_le
  by_cases hp : Json.Plain (CString.strdup text)
  · rw [printed_string_iff ht hp, hf]
    constructor
    · rintro ⟨hlen, text', htext, he⟩
      obtain rfl := CJson.string.inj htext
      rw [Json.Tree.string.inj he] at hp hlen
      exact ⟨hp, hlen⟩
    · rintro ⟨hplain, hlen⟩
      have hdup : CString.strdup text = text := by
        refine List.takeWhile_eq_self_iff.mpr (fun b hb => ?_)
        have hne : b ≠ 0 := by
          rintro rfl
          exact absurd (hplain 0 hb).1 (by decide)
        simpa using hne
      rw [hdup]
      exact ⟨hlen, text, rfl, rfl⟩
  · constructor
    · rintro ⟨doc, hdoc, hdenotes⟩
      rw [ht] at hdoc
      by_cases hfit : fitsBuffer (.string (CString.strdup text)) = true
      · obtain ⟨d, hd, hlt⟩ := reads_not_plain hp hfit hdoc
        rw [hf, hd] at hdenotes
        obtain ⟨text', htext, he⟩ := hdenotes
        rw [Json.Tree.string.inj he, ← CJson.string.inj htext] at hlt
        omega
      · exact absurd hdoc (not_reads_missing (Bool.eq_false_iff.mpr hfit))
    · rintro ⟨hplain, _⟩
      exact absurd (fun b hb => hplain b ((List.takeWhile_sublist _).subset hb)) hp

theorem plain_of_isBase64 (h : IsBase64 text) : Json.Plain text := by
  have hall : ∀ c ∈ base64Chars, decide (32 ≤ c ∧ c ≠ 34 ∧ c ≠ 92) = true := by
    rw [base64Chars, ascii_ofList]
    exact List.all_eq_true.mp rfl
  intro c hc
  rcases h.chars c hc with hc | rfl
  · exact of_decide_eq_true (hall c hc)
  · decide

/-- The bytes of a block are printed in base64. -/
theorem printed_base64 {bytes : Bytes} (ht : valueToken rt v = .string (base64Encode bytes))
    (hf : v.format = .tlv ∨ v.format = .data) :
    Printed rt aid iid (.string text) v ↔ IsBase64 text ∧ text.length ≤ 509 ∧ base64DecodeBlocks text = bytes := by
  have hdenotes : Denotes v.format (.string text) (.string (base64Encode bytes)) ↔
      IsBase64 text ∧ base64DecodeBlocks text = bytes := by
    have hblock : Denotes v.format (.string text) (.string (base64Encode bytes)) ↔
        ∃ text₁ text₂, CJson.string text = .string text₁ ∧ (.string (base64Encode bytes) : Json.Document) = .string text₂ ∧
          IsBase64 text₁ ∧ IsBase64 text₂ ∧ base64DecodeBlocks text₂ = base64DecodeBlocks text₁ := by
      rcases hf with hf | hf <;> rw [hf] <;> exact Iff.rfl
    rw [hblock]
    constructor
    · rintro ⟨text₁, text₂, h₁, h₂, hbase, _, hsame⟩
      obtain rfl := CJson.string.inj h₁
      obtain rfl := Json.Tree.string.inj h₂
      exact ⟨hbase, by rw [← hsame, base64DecodeBlocks_encode]⟩
    · rintro ⟨hbase, rfl⟩
      exact ⟨text, _, rfl, rfl, hbase, isBase64_encode _, base64DecodeBlocks_encode _⟩
  rw [printed_string_iff ht (plain_of_isBase64 (isBase64_encode bytes)), hdenotes]
  constructor
  · rintro ⟨hlen, hbase, rfl⟩
    rw [length_base64Encode, ← hbase.length] at hlen
    exact ⟨hbase, hlen, rfl⟩
  · rintro ⟨hbase, hlen, rfl⟩
    rw [length_base64Encode, ← hbase.length]
    exact ⟨hlen, hbase, rfl⟩

/-! The three formats with a pointer. -/

theorem valueToken_string (hn : v.isNull = false) (hf : v.format = .string) : valueToken rt v = .string (stringText v) := by
  simp only [valueToken, hn, Bool.false_eq_true, if_false, scalarCall, hf]

theorem valueToken_tlv (hn : v.isNull = false) (hf : v.format = .tlv) : valueToken rt v = .string (tlvText v) := by
  simp only [valueToken, hn, Bool.false_eq_true, if_false, scalarCall, hf]

theorem valueToken_data (hn : v.isNull = false) (hf : v.format = .data) : valueToken rt v = .string (dataText v) := by
  simp only [valueToken, hn, Bool.false_eq_true, if_false, scalarCall, hf]

theorem returns_string (hn : u.isNull = false) (hs : StoredAs (cppValue u .string (.string (.block .request text))) stored) :
    ((afterRequest rt now .string found stored).IsLive ∧
      Printed rt aid iid (.string text) (afterRequest rt now .string found stored)) ↔
        u.isStatic = false ∧ Json.Plain text ∧ text.length ≤ 509 := by
  obtain ⟨isNull, isStatic, word⟩ := u
  dsimp only at hn
  subst hn
  cases isStatic with
  | true =>
    obtain rfl := Except.ok.inj hs
    refine iff_of_false (fun h => ?_) (fun h => Bool.noConfusion (h.1 : true = false))
    rcases h.1 .freed found rfl with hl | hl <;> simp at hl
  | false =>
    obtain rfl := Except.ok.inj hs
    generalize hw : afterRequest rt now .string found _ = w
    have hunion : w.union = .string (.block .owned (CString.strdup text)) := hw ▸ rfl
    have hnull : w.isNull = false := hw ▸ rfl
    have hformat : w.format = .string := hw ▸ rfl
    have hlive : w.IsLive := by
      rw [HomekitValue.IsLive, hunion]
      exact fun life t hp => Or.inl (Pointer.block.inj hp).1.symm
    have htoken : valueToken rt w = .string (CString.strdup text) := by
      rw [valueToken_string hnull hformat, stringText, hunion]
      exact congrArg Json.Token.string (CString.strdup_strdup text)
    rw [printed_text htoken hformat]
    exact ⟨fun h => ⟨rfl, h.2⟩, fun h => ⟨hlive, h.2⟩⟩

theorem returns_tlv {list : List Tlv} (hn : u.isNull = false) (hne : ∀ t ∈ list, t.value ≠ [])
    (hs : StoredAs (cppValue u .tlv (.tlvValues (.block .request list))) stored) :
    ((afterRequest rt now .tlv found stored).IsLive ∧
      Printed rt aid iid (.string text) (afterRequest rt now .tlv found stored)) ↔
        u.isStatic = false ∧ IsBase64 text ∧ text.length ≤ 509 ∧ base64DecodeBlocks text = tlvFormat list := by
  obtain ⟨isNull, isStatic, word⟩ := u
  dsimp only at hn
  subst hn
  cases isStatic with
  | true =>
    obtain rfl := Except.ok.inj hs
    refine iff_of_false (fun h => ?_) (fun h => Bool.noConfusion (h.1 : true = false))
    rcases h.1 .freed (rt.freedList now) rfl with hl | hl <;> simp at hl
  | false =>
    obtain rfl := Except.ok.inj hs
    generalize hw : afterRequest rt now .tlv found _ = w
    have hunion : w.union = .tlvValues (.block .owned list) := hw ▸ rfl
    have hnull : w.isNull = false := hw ▸ rfl
    have hformat : w.format = .tlv := hw ▸ rfl
    have hlive : w.IsLive := by
      rw [HomekitValue.IsLive, hunion]
      exact fun life l hp => Or.inl (Pointer.block.inj hp).1.symm
    have htoken : valueToken rt w = .string (base64Encode (tlvFormat list)) := by
      rw [valueToken_tlv hnull hformat, tlvText, hunion]
      exact congrArg (fun bytes => Json.Token.string (base64Encode bytes)) ((fitsBlock_iff list).mpr hne).kept
    rw [printed_base64 htoken (Or.inl hformat)]
    exact ⟨fun h => ⟨rfl, h.2⟩, fun h => ⟨hlive, h.2⟩⟩

/-- A decoded block, or the null pointer that stands for no bytes. -/
def dataUnion (size : Nat) : Option Bytes → Union
  | some data => .data (.block .static data) data.length
  | none => .data .null size

/-- A copy with a block of its own. -/
def ownedData (content : Bytes) (size : Nat) : HomekitValue where
  isNull := false
  isStatic := false
  format := .data
  union := .data (.block .owned content) size

theorem copy_data {block : Option Bytes} {size word : Nat}
    (h : homekitValueCopy (cppValue ⟨false, false, word⟩ .data (dataUnion size block)) = .ok stored) :
    ∃ content n, stored = ownedData content n ∧ content.take n = block.getD [] := by
  obtain ⟨union, hunion, rfl⟩ := map_eq_ok.mp h
  cases block with
  | some bytes =>
    by_cases hsize : bytes.length = 0
    · obtain rfl := List.length_eq_zero_iff.mp hsize
      obtain rfl := Except.ok.inj hunion
      exact ⟨[], 0, rfl, rfl⟩
    · have hblock : copyUnion (cppValue ⟨false, false, word⟩ .data (dataUnion size (some bytes))) =
          .ok (.data (.block .owned (bytes.take bytes.length)) bytes.length) := if_neg hsize
      obtain rfl := Except.ok.inj (hblock.symm.trans hunion)
      exact ⟨_, _, rfl, by rw [List.take_take, Nat.min_self, List.take_length]; rfl⟩
  | none =>
    by_cases hsize : size = 0
    · subst hsize
      obtain rfl := Except.ok.inj hunion
      exact ⟨[], 0, rfl, rfl⟩
    · have hnull : copyUnion (cppValue ⟨false, false, word⟩ .data (dataUnion size none)) =
          .error .nullDereference := if_neg hsize
      cases hnull.symm.trans hunion

theorem stored_data {block : Option Bytes} {size word : Nat} {isStatic : Bool}
    (hw : afterRequest rt now .data found stored = w)
    (hs : StoredAs (cppValue ⟨false, isStatic, word⟩ .data (dataUnion size block)) stored) :
    w.isNull = false ∧ w.format = .data ∧ w.IsLive ∧ dataText w = base64Encode (block.getD []) := by
  have hcopy : homekitValueCopy (cppValue ⟨false, isStatic, word⟩ .data (dataUnion size block)) = .ok stored := hs
  cases isStatic with
  | true =>
    obtain rfl := Except.ok.inj hcopy
    obtain rfl := hw
    cases block with
    | some bytes =>
      exact ⟨rfl, rfl, fun life b hp => Or.inr (Pointer.block.inj hp).1.symm, congrArg base64Encode List.take_length⟩
    | none =>
      refine ⟨rfl, rfl, ?_, rfl⟩
      intro life b hp
      cases hp
  | false =>
    obtain ⟨content, n, rfl, hcontent⟩ := copy_data hcopy
    obtain rfl := hw
    exact ⟨rfl, rfl, fun life b hp => Or.inl (Pointer.block.inj hp).1.symm, congrArg base64Encode hcontent⟩

theorem returns_data {block : Option Bytes} {size : Nat} (hn : u.isNull = false)
    (hs : StoredAs (cppValue u .data (dataUnion size block)) stored) :
    ((afterRequest rt now .data found stored).IsLive ∧
      Printed rt aid iid (.string text) (afterRequest rt now .data found stored)) ↔
        IsBase64 text ∧ text.length ≤ 509 ∧ base64DecodeBlocks text = block.getD [] := by
  obtain ⟨isNull, isStatic, word⟩ := u
  dsimp only at hn
  subst hn
  generalize hw : afterRequest rt now .data found stored = w
  obtain ⟨hnull, hformat, hlive, htext⟩ := stored_data hw hs
  have htoken : valueToken rt w = .string (base64Encode (block.getD [])) := by
    rw [valueToken_data hnull hformat, htext]
  rw [printed_base64 htoken (Or.inr hformat)]
  exact ⟨fun h => h.2, fun h => ⟨hlive, h⟩⟩

end Texts

/-! The write and the GET together. -/

section Together

variable {params : List QueryParam} {found : Bytes} {stored : HomekitValue}

theorem updateValue_written (h : updateValue sketch rt c ch value s = .ok (s', .success)) :
    ∃ v, writtenValue rt (s.database.characteristic ch) s.now value = .ok (.ok v) := by
  rw [updateValue] at h
  split at h
  · simp at h
  · split at h
    · simp at h
    · rename_i status hstatus
      obtain ⟨_, rfl⟩ := writtenValue_refused_iff.mp hstatus
      simp at h
    · rename_i v hv
      exact ⟨v, hv⟩

/-- What a successful item leaves in a characteristic without a setter. -/
theorem processCharacteristicsUpdate_stored (hitem : itemCharacteristic rt s.database j = some ch)
    (hvalue : j.getObjectItem (ascii "value") = some value)
    (hset : (s.database.characteristic ch).setterEx = none)
    (h : processCharacteristicsUpdate sketch rt c j s = .ok (s', .success)) :
    ∃ v stored, writtenValue rt (s.database.characteristic ch) s.now value = .ok (.ok v) ∧ StoredAs v stored ∧
      (s'.database.characteristic ch).value =
        afterSwitch rt (s.now + 1) (s.database.characteristic ch).format stored := by
  obtain ⟨s₁, hs₁, _, hsame⟩ := processCharacteristicsUpdate_value hitem hvalue h
  obtain ⟨v, hv⟩ := updateValue_written hs₁
  obtain ⟨stored, hstored, hn⟩ := write_steps hset hv hs₁
  refine ⟨v, stored, hv, hstored, ?_⟩
  rw [hsame, notifyWritten_database hn]
  exact congrArg (fun x : Characteristic => afterSwitch rt (s.now + 1) (s.database.characteristic ch).format x.value)
    (setCharacteristic_self ..)

theorem StoredAs.header (h : StoredAs v stored) : stored.format = v.format ∧ stored.isNull = v.isNull := by
  rw [StoredAs] at h
  split at h
  · rw [homekitValueCopy] at h
    split at h
    · rename_i hn
      obtain rfl := Except.ok.inj h
      exact ⟨rfl, hn.symm⟩
    · rename_i hn
      obtain ⟨union, _, rfl⟩ := map_eq_ok.mp h
      exact ⟨rfl, (Bool.eq_false_iff.mpr hn).symm⟩
  · rw [h]
    exact ⟨rfl, rfl⟩

theorem freeString_header (found : Bytes) (w : HomekitValue) :
    (w.freeString found).format = w.format ∧ (w.freeString found).isNull = w.isNull := by
  unfold HomekitValue.freeString
  split <;> exact ⟨rfl, rfl⟩

theorem afterRequest_header (now : Nat) (format : Format) (found : Bytes) (w : HomekitValue) :
    (afterRequest rt now format found w).format = w.format ∧ (afterRequest rt now format found w).isNull = w.isNull := by
  obtain ⟨hformat, hnull⟩ := freeString_header found (afterSwitch rt now format w)
  exact ⟨hformat.trans (afterSwitch_format ..), hnull.trans (afterSwitch_isNull ..)⟩

/-! The body of the GET. -/

theorem callTree_scalarCall_tokens (v : HomekitValue) (hn : v.isNull = false) :
    (callTree (scalarCall rt v)).tokens = [valueToken rt v] := by
  rw [valueToken, if_neg (by simp [hn])]
  cases scalarCall rt v <;> rfl

theorem itemTree_tokens {db : Database} (hf : x.value.format = x.format) :
    (itemTree rt db x).tokens =
      frontTokens (db.accessory (db.service x.service).accessory).id x.id ++ valueToken rt x.value :: backTokens := by
  have hvalue : ∃ t : JsonTree, valueMembers rt x x.value = [member "value" t] ∧ t.tokens = [valueToken rt x.value] := by
    cases hn : x.value.isNull with
    | true => exact ⟨.null, by rw [valueMembers, if_pos hn], by rw [valueToken, if_pos hn]; rfl⟩
    | false =>
      refine ⟨callTree (scalarCall rt x.value), ?_, callTree_scalarCall_tokens _ hn⟩
      rw [valueMembers, if_neg (by simp [hn]), if_neg (by simp [hf])]
  obtain ⟨t, ht, htokens⟩ := hvalue
  rw [itemTree, ht]
  simp [characteristicsTree, idMembers, member, jsonUint32_eq, callTree, Json.Tree.tokens, Json.itemTokens,
    Json.memberTokens, htokens, frontTokens, backTokens, decimalInt_ofNat]

theorem itemTree_depth (rt : Runtime) (db : Database) (x : Characteristic) : (itemTree rt db x).depth ≤ jsonMaxDepth := by
  refine characteristicsTree_depth (fun item hitem => ?_)
  rw [List.mem_singleton.mp hitem, Json.Tree.depth]
  refine Nat.succ_le_succ (Json.membersDepth_le.mpr (fun m hm => ?_))
  rcases List.mem_append.mp hm with hm | hm
  · exact (idMembers_sound x m hm).2.2
  · rw [valueMembers] at hm
    split at hm
    · rw [List.mem_singleton.mp hm]
      exact Nat.zero_le 2
    · split at hm
      · exact absurd hm List.not_mem_nil
      · rw [List.mem_singleton.mp hm]
        exact (scalarCall_sound x.value 2).2

/-- The GET of a value of the right format. -/
theorem readsBack_eq (hasks : AsksFor s.database params ch)
    (hread : hasFlag (s.database.characteristic ch).permissions Permissions.pairedRead = true)
    (hget : (s.database.characteristic ch).getterEx = none)
    (hf : (s.database.characteristic ch).value.format = (s.database.characteristic ch).format) :
    ReadsBack sketch rt d params ch j s ↔ (s.database.characteristic ch).value.IsLive ∧
      Printed rt (s.database.accessory (s.database.service (s.database.characteristic ch).service).accessory).id
        (s.database.characteristic ch).id j (s.database.characteristic ch).value := by
  have hanswer : homekitServerOnGetCharacteristics sketch rt d params s = _ := get_eq hasks hread hget
  have hbody : ∀ body, HasBody (.document false (treeCalls (itemTree rt s.database (s.database.characteristic ch)))) body ↔
      body = valueBody (s.database.accessory (s.database.service (s.database.characteristic ch).service).accessory).id
        (s.database.characteristic ch).id (valueToken rt (s.database.characteristic ch).value) := by
    intro body
    rw [hasBody_document (itemTree_depth ..), itemTree_tokens hf]
    exact Iff.rfl
  rw [Printed, hf]
  constructor
  · rintro ⟨hlive, s', answer, body, doc, hrun, hhas, hdoc, hdenotes⟩
    obtain ⟨rfl, rfl⟩ := Prod.mk.inj (Except.ok.inj (hanswer.symm.trans hrun))
    obtain rfl := (hbody body).mp hhas
    exact ⟨hlive, doc, hdoc, hdenotes⟩
  · rintro ⟨hlive, doc, hdoc, hdenotes⟩
    exact ⟨hlive, _, _, _, doc, hanswer, (hbody _).mpr rfl, hdoc, hdenotes⟩

/-! Over all formats. -/

variable {aid iid : UInt32} {now : Nat}

theorem afterRequest_scalar {u : Uninitialised} {format : Format} {word : Nat} (hf : format.isPointer = false) :
    afterRequest rt now format found (cppValue u format (.bits word)) = cppValue u format (.bits word) := by
  have htlv : format ≠ .tlv := fun h => by simp [h, Format.isPointer] at hf
  rw [afterRequest, afterSwitch, if_neg htlv]
  rfl

theorem returns_integer {q : Double} {u : Uninitialised} (hf : x.format.isInteger = true) (hn : u.isNull = false)
    (hq : writtenInteger rt x j = some q) (hs : StoredAs (cppValue u x.format (integerUnion rt u q x.format)) stored) :
    ((afterRequest rt now x.format found stored).IsLive ∧ Printed rt aid iid j (afterRequest rt now x.format found stored)) ↔
      j ≠ .boolean true ∧
        ∃ n, requestedInteger j = some n ∧ InRange x.format n ∧ (x.format = .int → (decimalInt n).length ≤ 6) := by
  have hpointer : x.format.isPointer = false := by
    cases hx : x.format <;> simp [hx, Format.isInteger] at hf <;> rfl
  have hbits : ∃ word, integerUnion rt u q x.format = .bits word := by
    cases x.format <;> exact ⟨_, rfl⟩
  obtain ⟨word, hword⟩ := hbits
  have hprinted : Printed rt aid iid j (cppValue u x.format (integerUnion rt u q x.format)) ↔ _ := printed_integer hf hn hq
  rw [hword] at hs hprinted
  obtain rfl : stored = cppValue u x.format (.bits word) := by
    rw [StoredAs, if_neg (by simpa [cppValue] using hpointer)] at hs
    exact hs
  rw [afterRequest_scalar hpointer]
  exact ⟨fun h => hprinted.mp h.2, fun h => ⟨trivial, hprinted.mpr h⟩⟩

theorem returns_bool {b : Bool} {u : Uninitialised} (hn : u.isNull = false) (hb : writtenBool j = some b)
    (hs : StoredAs (cppValue u .bool (overlay u 8 b.toNat)) stored) :
    ((afterRequest rt now .bool found stored).IsLive ∧ Printed rt aid iid j (afterRequest rt now .bool found stored)) ↔
      requestedInteger j = some 0 ∨ requestedInteger j = some 1 := by
  obtain rfl : stored = cppValue u .bool (overlay u 8 b.toNat) := hs
  have hsame : afterRequest rt now .bool found (cppValue u .bool (overlay u 8 b.toNat)) =
      cppValue u .bool (overlay u 8 b.toNat) := afterRequest_scalar rfl
  rw [hsame, printed_bool hn hb]
  exact ⟨fun h => h.2, fun h => ⟨trivial, h⟩⟩

theorem writtenText_some {limit : Int} {text : Bytes} (h : writtenText limit j = some text) : j = .string text := by
  cases j with
  | string s =>
    rw [writtenText] at h
    split at h
    · simp at h
    · rw [Option.some.inj h]
  | _ => simp [writtenText] at h

/-- The string of a TLV or a data item is read as far as its first NUL. -/
theorem writtenText_strdup {limit : Int} {text : Bytes} (h : (writtenText limit j).map CString.strdup = some text) :
    ∃ written, j = .string written ∧ text = CString.strdup written := by
  obtain ⟨written, hw, rfl⟩ := Option.map_eq_some_iff.mp h
  exact ⟨written, writtenText_some hw, rfl⟩

/-- The bytes of a list that was parsed are its fragments, and only they. -/
theorem tlv_fragments_iff {text decoded : Bytes} {block : Option Bytes} {list : List Tlv} {m : Nat} (h : IsBase64 text)
    (hd : base64Decode (CString.strdup text) = some decoded)
    (hb : decodedBlock rt m (CString.strdup text) decoded = .ok block) (hl : parsedBlock rt m block = .ok list) :
    base64DecodeBlocks text = tlvFormat list ↔
      ∃ fragments : List (UInt8 × Bytes), (∀ f ∈ fragments, IsFragment f) ∧
        base64DecodeBlocks text = fragments.flatMap fragmentBytes := by
  rw [h.strdup] at hd hb
  obtain rfl := (base64Decode_some hd).2
  constructor
  · intro he
    have hne : ∀ t ∈ list, t.value ≠ [] := by
      cases block with
      | none => simp [parsedBlock] at hl
      | some bytes => exact tlvParse_ne_nil hl
    refine ⟨(list.map Tlv.labelled).flatMap (Fragments.split 255), fun f hf => ?_, he.trans (tlvFormat_eq hne)⟩
    obtain ⟨v, _, hv⟩ := List.mem_flatMap.mp hf
    exact isFragment_of_mem_split hv
  · rintro ⟨fragments, hfragments, he⟩
    rcases h.block hb with rfl | ⟨rfl, _⟩
    · rw [he] at hl ⊢
      obtain ⟨values, hvalues, hformat⟩ := tlvFormat_tlvParse hfragments
        (fun i => rt.heap m ((fragments.flatMap fragmentBytes).length + i))
      obtain rfl := Except.ok.inj (hvalues.symm.trans hl)
      exact hformat.symm
    · simp [parsedBlock] at hl

/-! What the switch made of an accepted value. -/

theorem written_bool {m : Nat} (hx : x.format = .bool) (hv : writtenValue rt x m j = .ok (.ok v)) :
    ∃ b, writtenBool j = some b ∧ v = cppValue (rt.stack m) .bool (overlay (rt.stack m) 8 b.toNat) := by
  simp only [writtenValue, hx] at hv
  split at hv
  · rename_i b hb
    exact ⟨b, hb, (Except.ok.inj (Except.ok.inj hv)).symm⟩
  · simp at hv

theorem written_string {m : Nat} (hx : x.format = .string) (hv : writtenValue rt x m j = .ok (.ok v)) :
    ∃ text, j = .string text ∧ v = cppValue (rt.stack m) .string (.string (.block .request text)) := by
  simp only [writtenValue, hx] at hv
  split at hv
  · rename_i text htext
    exact ⟨text, writtenText_some htext, (Except.ok.inj (Except.ok.inj hv)).symm⟩
  · simp at hv

theorem written_tlv {m : Nat} (hx : x.format = .tlv) (hv : writtenValue rt x m j = .ok (.ok v)) :
    ∃ text decoded block list, j = .string text ∧ base64Decode (CString.strdup text) = some decoded ∧
      decodedBlock rt m (CString.strdup text) decoded = .ok block ∧ parsedBlock rt m block = .ok list ∧
      v = cppValue (rt.stack m) .tlv (.tlvValues (.block .request list)) := by
  simp only [writtenValue, hx] at hv
  split at hv
  · rename_i text htext
    obtain ⟨written, hj, rfl⟩ := writtenText_strdup htext
    split at hv
    · simp at hv
    · rename_i decoded hd
      split at hv
      · simp at hv
      · rename_i block hb
        obtain ⟨list, hl, he⟩ := map_eq_ok.mp hv
        exact ⟨written, decoded, block, list, hj, hd, hb, hl, (Except.ok.inj he).symm⟩
  · simp at hv

theorem written_data {m : Nat} (hx : x.format = .data) (hv : writtenValue rt x m j = .ok (.ok v)) :
    ∃ text decoded block size, j = .string text ∧ base64Decode (CString.strdup text) = some decoded ∧
      decodedBlock rt m (CString.strdup text) decoded = .ok block ∧
      v = cppValue (rt.stack m) .data (dataUnion size block) := by
  simp only [writtenValue, hx] at hv
  split at hv
  · rename_i text htext
    obtain ⟨written, hj, rfl⟩ := writtenText_strdup htext
    split at hv
    · simp at hv
    · rename_i decoded hd
      obtain ⟨block, hb, he⟩ := map_eq_ok.mp hv
      refine ⟨written, decoded, block, base64DecodedSize (rt.before m) (CString.strdup written), hj, hd, hb, ?_⟩
      rw [← Except.ok.inj he]
      cases block <;> rfl
  · simp at hv

/-- What comes back of a value that was built and stored. -/
theorem returns_written {m : Nat} (hf : x.format ≠ .float) (hv : writtenValue rt x m j = .ok (.ok v))
    (hs : StoredAs v stored) :
    ((afterRequest rt now x.format found stored).IsLive ∧ Printed rt aid iid j (afterRequest rt now x.format found stored)) ↔
      Returns x.format (rt.stack m) j := by
  have hnull : v.isNull = (rt.stack m).isNull := by
    have hbuilt := writtenValue_built hv
    generalize x.format = format at hbuilt
    cases hbuilt <;> rfl
  cases hn : (rt.stack m).isNull with
  | true =>
    have hshown : (afterRequest rt now x.format found stored).isNull = true :=
      (afterRequest_header ..).2.trans (hs.header.2.trans (hnull.trans hn))
    refine iff_of_false (fun h => not_printed_null hshown h.2) (fun h => ?_)
    have hclear := h.1
    rw [hn] at hclear
    simp at hclear
  | false =>
    cases hx : x.format with
    | bool =>
      obtain ⟨b, hb, rfl⟩ := written_bool hx hv
      rw [returns_bool hn hb hs]
      exact (and_iff_right hn).symm
    | float => exact absurd hx hf
    | string =>
      obtain ⟨text, rfl, rfl⟩ := written_string hx hv
      rw [returns_string hn hs, Returns, and_iff_right hn]
      simp
    | tlv =>
      obtain ⟨text, decoded, block, list, rfl, hd, hb, hl, rfl⟩ := written_tlv hx hv
      have hne : ∀ t ∈ list, t.value ≠ [] := by
        cases block with
        | none => simp [parsedBlock] at hl
        | some bytes => exact tlvParse_ne_nil hl
      rw [returns_tlv hn hne hs, Returns, and_iff_right hn]
      constructor
      · rintro ⟨hst, hbase, hlen, he⟩
        obtain ⟨fragments, hfragments, hbytes⟩ := (tlv_fragments_iff hbase hd hb hl).mp he
        exact ⟨hst, text, fragments, rfl, hbase, hlen, hfragments, hbytes⟩
      · rintro ⟨hst, text', fragments, ht, hbase, hlen, hfragments, hbytes⟩
        obtain rfl := CJson.string.inj ht
        exact ⟨hst, hbase, hlen, (tlv_fragments_iff hbase hd hb hl).mpr ⟨fragments, hfragments, hbytes⟩⟩
    | data =>
      obtain ⟨text, decoded, block, size, rfl, hd, hb, rfl⟩ := written_data hx hv
      rw [returns_data hn hs, Returns, and_iff_right hn]
      constructor
      · rintro ⟨hbase, hlen, _⟩
        exact ⟨text, rfl, hbase, hlen⟩
      · rintro ⟨text', ht, hbase, hlen⟩
        obtain rfl := CJson.string.inj ht
        refine ⟨hbase, hlen, ?_⟩
        rw [hbase.strdup] at hd hb
        obtain rfl := (base64Decode_some hd).2
        rcases hbase.block hb with rfl | ⟨rfl, hnil⟩
        · rfl
        · exact hnil
    | _ =>
      have hi : x.format.isInteger = true := by rw [hx]; rfl
      rw [writtenValue_integer hi] at hv
      cases hq : writtenInteger rt x j with
      | none => simp [hq] at hv
      | some q =>
        simp only [hq, Except.ok.injEq] at hv
        rw [← hv] at hs
        rw [← hx, returns_integer hi hn hq hs, hx]
        simp [Returns, hn]

/-- A value that was accepted comes back if and only if it is one of these. -/
theorem readsBack_iff (hitem : itemCharacteristic rt s.database j = some ch)
    (hvalue : j.getObjectItem (ascii "value") = some value)
    (hread : hasFlag (s.database.characteristic ch).permissions Permissions.pairedRead = true)
    (hget : (s.database.characteristic ch).getterEx = none) (hset : (s.database.characteristic ch).setterEx = none)
    (hf : (s.database.characteristic ch).format ≠ .float) (hasks : AsksFor s.database params ch)
    (h : processCharacteristicsUpdate sketch rt c j s = .ok (s', .success)) :
    ReadsBack sketch rt d params ch value (s'.mapValues (HomekitValue.freeString found)) ↔
      Returns (s.database.characteristic ch).format (rt.stack s.now) value := by
  obtain ⟨v, stored, hv, hs, hfound⟩ := processCharacteristicsUpdate_stored hitem hvalue hset h
  have hframe : SameFrame s.database (s'.mapValues (HomekitValue.freeString found)).database :=
    (processCharacteristicsUpdate_operates h).sameFrame.trans (mapValues_shape _ s').sameFrame
  have hafter : ((s'.mapValues (HomekitValue.freeString found)).database.characteristic ch).value =
      afterRequest rt (s.now + 1) (s.database.characteristic ch).format found stored :=
    congrArg (HomekitValue.freeString found) hfound
  have hformat : (afterRequest rt (s.now + 1) (s.database.characteristic ch).format found stored).format =
      (s.database.characteristic ch).format :=
    (afterRequest_header ..).1.trans (hs.header.1.trans (writtenValue_built hv).format_eq)
  obtain ⟨w, l, hx⟩ := hframe.characteristic ch
  have hasks' : AsksFor (s'.mapValues (HomekitValue.freeString found)).database params ch :=
    ⟨hasks.plain, by rw [hframe.byAidAndIid]; exact hasks.component⟩
  rw [readsBack_eq hasks' (by rw [hx]; exact hread) (by rw [hx]; exact hget) (by rw [hafter, hformat, hx]), hafter]
  exact returns_written hf hv hs

end Together

section Bench

/-- A string with id 9. -/
def benchName : Characteristic :=
  benchCharacteristic 9
    { isNull := false, isStatic := true, format := .string, union := .string (.block .static (ascii "off")) }

def benchQuery : List QueryParam := [{ name := ascii "id", value := some (ascii "1.9") }]

theorem asksFor_benchQuery : AsksFor (benchDatabase [benchName]) benchQuery 0 where
  plain := rfl
  component := ⟨ascii "1.9", 1, 9, rfl, rfl, rfl⟩

theorem readsBack_iff_name : ∃ s',
    processCharacteristicsUpdate benchSketch benchRuntime 0 (benchItem "value" (.string (ascii "on"))) (benchState [benchName]) =
      .ok (s', .success) ∧
    ReadsBack benchSketch benchRuntime 0 benchQuery 0 (.string (ascii "on")) (s'.mapValues (HomekitValue.freeString [])) := by
  have h : ∃ s', processCharacteristicsUpdate benchSketch benchRuntime 0 (benchItem "value" (.string (ascii "on")))
      (benchState [benchName]) = .ok (s', .success) := ⟨_, rfl⟩
  obtain ⟨s', hs'⟩ := h
  have hreturns : Returns .string (benchRuntime.stack 0) (.string (ascii "on")) :=
    ⟨rfl, rfl, ascii "on", rfl, by decide +kernel, by decide +kernel⟩
  exact ⟨s', hs', (readsBack_iff rfl rfl rfl rfl rfl (by decide) asksFor_benchQuery hs').mpr hreturns⟩

/-- The text a"b. -/
def quoteInside : CJson := .string [97, 34, 98]

/-- What the body is read as after the quote was written. -/
def quotedBody : Option (List Json.Lexeme) :=
  match processCharacteristicsUpdate benchSketch benchRuntime 0 (benchItem "value" quoteInside) (benchState [benchName]) with
  | .ok (s, .success) =>
    match homekitServerOnGetCharacteristics benchSketch benchRuntime 0 benchQuery (s.mapValues (HomekitValue.freeString [])) with
    | .ok (_, answer) =>
      match answer.payloads with
      | .ok (_ :: chunks) => (Chunked.decode chunks.flatten).bind Json.lex
      | _ => some []
    | _ => some []
  | _ => some []

theorem quoted_body_run : (quotedBody == none) = true := by decide +kernel

/-- A quote is stored, and printed as it is: the body of the GET is no document. -/
theorem quote_not_readBack : ∃ s',
    processCharacteristicsUpdate benchSketch benchRuntime 0 (benchItem "value" quoteInside) (benchState [benchName]) =
      .ok (s', .success) ∧
    ¬ ReadsBack benchSketch benchRuntime 0 benchQuery 0 quoteInside (s'.mapValues (HomekitValue.freeString [])) := by
  have hrun := eq_of_beq quoted_body_run
  rw [quotedBody] at hrun
  split at hrun
  · rename_i s' hs'
    refine ⟨s', hs', ?_⟩
    rintro ⟨_, s₁, answer, body, doc, hget, ⟨chunks, hchunks, hbody⟩, hdoc, _⟩
    simp only [hget, hchunks, hbody, Option.bind_some] at hrun
    rw [Json.Reads, hrun] at hdoc
    simp at hdoc
  · simp at hrun

end Bench

end ArduinoHomeKit
