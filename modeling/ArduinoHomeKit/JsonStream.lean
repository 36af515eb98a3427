import ArduinoHomeKit.Server
import ArduinoHomeKit.Library.Json

/-! The JSON writer of json.c: a pushdown machine that writes tokens through a buffer of
fixed size, and the text of its tokens. -/

namespace ArduinoHomeKit

abbrev JsonToken := Json.Token Bytes Bytes
abbrev JsonTree := Json.Tree Bytes Bytes

/-- The text of a token; strings are not escaped. -/
def tokenText : JsonToken → Bytes
  | .comma => ascii ","
  | .colon => ascii ":"
  | .objectStart => ascii "\x7b"
  | .objectEnd => ascii "\x7d"
  | .arrayStart => ascii "["
  | .arrayEnd => ascii "]"
  | .null => ascii "null"
  | .boolean true => ascii "true"
  | .boolean false => ascii "false"
  | .number text => text
  | .string s => ascii "\"" ++ s ++ ascii "\""

inductive JsonState
  | start
  | ended
  | object
  | objectKey
  | objectValue
  | array
  | arrayItem
  | error
  deriving DecidableEq

inductive JsonNesting
  | object
  | array
  deriving DecidableEq

def jsonMaxDepth : Nat := 30

/-- json_stream. The innermost nesting comes first; `written` lists the tokens that got
into the buffer and `flushed` the buffers handed to the callback. -/
structure JsonStream where
  size : Nat
  buffer : Bytes
  state : JsonState
  nesting : List JsonNesting
  written : List JsonToken
  flushed : List Bytes

def jsonNew (size : Nat) : JsonStream where
  size := size
  buffer := []
  state := .start
  nesting := []
  written := []
  flushed := []

def jsonFlush (j : JsonStream) : JsonStream :=
  if j.buffer = [] then j else { j with buffer := [], flushed := j.flushed ++ [j.buffer] }

def jsonPut (j : JsonStream) (t : JsonToken) : JsonStream :=
  { j with buffer := j.buffer ++ tokenText t, written := j.written ++ [t] }

/-- A token that is longer than the buffer is left out. -/
def jsonWrite (j : JsonStream) (t : JsonToken) : JsonStream :=
  if (tokenText t).length + j.buffer.length > j.size - 1 then
    if (tokenText t).length > j.size - 1 then jsonFlush j else jsonPut (jsonFlush j) t
  else jsonPut j t

def JsonStream.setState (j : JsonStream) (s : JsonState) : JsonStream := { j with state := s }

/-- json_object_start and json_array_start. -/
def jsonStart (t : JsonToken) (inside : JsonState) (kind : JsonNesting) (j : JsonStream) : JsonStream :=
  let enter := fun (j : JsonStream) =>
    { jsonWrite j t with state := inside, nesting := kind :: (jsonWrite j t).nesting }
  match j.state with
  | .error => j
  | .arrayItem => enter (jsonWrite j .comma)
  | .start | .objectKey | .array => enter j
  | _ => j.setState .error

def jsonObjectStart : JsonStream → JsonStream := jsonStart .objectStart .object .object

def jsonArrayStart : JsonStream → JsonStream := jsonStart .arrayStart .array .array

/-- The state inside the container that is innermost now. -/
def stateWithin : List JsonNesting → JsonState
  | [] => .ended
  | .object :: _ => .objectValue
  | .array :: _ => .arrayItem

/-- json_object_end and json_array_end, called when the container is empty or after a value. -/
def jsonEnd (t : JsonToken) (empty filled : JsonState) (j : JsonStream) : JsonStream :=
  if j.state = .error then j
  else if j.state = empty ∨ j.state = filled then
    { jsonWrite j t with
      nesting := (jsonWrite j t).nesting.tail
      state := stateWithin (jsonWrite j t).nesting.tail }
  else j.setState .error

def jsonObjectEnd : JsonStream → JsonStream := jsonEnd .objectEnd .object .objectValue

def jsonArrayEnd : JsonStream → JsonStream := jsonEnd .arrayEnd .array .arrayItem

/-- The calls that write a number, a boolean or null. -/
def jsonScalar (t : JsonToken) (j : JsonStream) : JsonStream :=
  match j.state with
  | .error => j
  | .start => (jsonWrite j t).setState .ended
  | .arrayItem => (jsonWrite (jsonWrite j .comma) t).setState .arrayItem
  | .array => (jsonWrite j t).setState .arrayItem
  | .objectKey => (jsonWrite j t).setState .objectValue
  | _ => j.setState .error

def jsonNumber (text : Bytes) : JsonStream → JsonStream := jsonScalar (.number text)

def jsonBoolean (x : Bool) : JsonStream → JsonStream := jsonScalar (.boolean x)

def jsonNull : JsonStream → JsonStream := jsonScalar .null

def jsonString (x : Bytes) (j : JsonStream) : JsonStream :=
  match j.state with
  | .error => j
  | .start => (jsonWrite j (.string x)).setState .ended
  | .arrayItem => (jsonWrite (jsonWrite j .comma) (.string x)).setState .arrayItem
  | .array => (jsonWrite j (.string x)).setState .arrayItem
  | .objectValue =>
    (jsonWrite (jsonWrite (jsonWrite j .comma) (.string x)) .colon).setState .objectKey
  | .object => (jsonWrite (jsonWrite j (.string x)) .colon).setState .objectKey
  | .objectKey => (jsonWrite j (.string x)).setState .objectValue
  | .ended => j.setState .error

/-- The calls of the interface. -/
inductive JsonCall
  | objectStart
  | objectEnd
  | arrayStart
  | arrayEnd
  | number (text : Bytes)
  | string (x : Bytes)
  | boolean (x : Bool)
  | null

def jsonCall (j : JsonStream) : JsonCall → JsonStream
  | .objectStart => jsonObjectStart j
  | .objectEnd => jsonObjectEnd j
  | .arrayStart => jsonArrayStart j
  | .arrayEnd => jsonArrayEnd j
  | .number text => jsonNumber text j
  | .string x => jsonString x j
  | .boolean x => jsonBoolean x j
  | .null => jsonNull j

def jsonCalls (calls : List JsonCall) (j : JsonStream) : JsonStream := calls.foldl jsonCall j

/-- What snprintf leaves in a buffer, without the terminating NUL. -/
def snprintf (size : Nat) (text : Bytes) : Bytes := text.take (size - 1)

def decimalInt (x : Int) : Bytes := if x < 0 then ascii "-" ++ decimal x.natAbs else decimal x.natAbs

def jsonUint8 (x : UInt8) : JsonCall := .number (snprintf 4 (decimal x.toNat))

def jsonUint16 (x : UInt16) : JsonCall := .number (snprintf 6 (decimal x.toNat))

def jsonUint32 (x : UInt32) : JsonCall := .number (snprintf 11 (decimal x.toNat))

/-- The digits of a number, from the last one to the first. -/
def uint64Digits : Nat → Nat → Bytes → Bytes
  | 0, _, b => b
  | fuel + 1, x, b =>
    let b := UInt8.ofNat (48 + x % 10) :: b
    if x / 10 = 0 then b else uint64Digits fuel (x / 10) b

def jsonUint64 (x : UInt64) : JsonCall := .number (uint64Digits 20 x.toNat [])

def jsonInteger (x : Int) : JsonCall := .number (snprintf 7 (decimalInt x))

/-- The text is the one of the format "%1.15g". -/
def jsonFloat (text : Bytes) : JsonCall := .number (snprintf 32 text)

section Writing

variable {j : JsonStream} {t : JsonToken}

/-- Whether a token gets into the buffer. -/
def fits (size : Nat) (t : JsonToken) : Bool := (tokenText t).length ≤ size - 1

theorem jsonWrite_written (j : JsonStream) (t : JsonToken) :
    (jsonWrite j t).written = j.written ++ [t].filter (fits j.size) := by
  have hflush : (jsonFlush j).written = j.written := by
    simp only [jsonFlush]
    split_ifs <;> rfl
  by_cases hf : (tokenText t).length ≤ j.size - 1
  · rw [List.filter_cons_of_pos (by simpa [fits] using hf), List.filter_nil, jsonWrite, if_neg (Nat.not_lt.mpr hf)]
    split_ifs
    · rw [jsonPut, hflush]
    · rw [jsonPut]
  · have hlong : (tokenText t).length > j.size - 1 := Nat.lt_of_not_le hf
    rw [List.filter_cons_of_neg (by simpa [fits] using hlong), List.filter_nil, List.append_nil, jsonWrite,
      if_pos (Nat.lt_of_lt_of_le hlong (Nat.le_add_right _ _)), if_pos hlong, hflush]

theorem jsonWrite_size (j : JsonStream) (t : JsonToken) : (jsonWrite j t).size = j.size := by
  simp only [jsonWrite, jsonFlush, jsonPut]
  split_ifs <;> rfl

@[simp] theorem jsonWrite_nesting (j : JsonStream) (t : JsonToken) : (jsonWrite j t).nesting = j.nesting := by
  simp only [jsonWrite, jsonFlush, jsonPut]
  split_ifs <;> rfl

/-- What has left the stream and what is still in it. -/
def JsonStream.text (j : JsonStream) : Bytes := j.flushed.flatten ++ j.buffer

theorem jsonFlush_text (j : JsonStream) : (jsonFlush j).text = j.text := by
  simp only [jsonFlush, JsonStream.text]
  split_ifs <;> simp

theorem jsonPut_text (j : JsonStream) (t : JsonToken) : (jsonPut j t).text = j.text ++ tokenText t := by
  simp [jsonPut, JsonStream.text]

/-- The text is the text of the tokens written. -/
theorem jsonWrite_text (h : j.text = j.written.flatMap tokenText) (t : JsonToken) :
    (jsonWrite j t).text = (jsonWrite j t).written.flatMap tokenText := by
  have hf : (jsonFlush j).text = (jsonFlush j).written.flatMap tokenText := by
    rw [jsonFlush_text, h]
    simp only [jsonFlush]
    split_ifs <;> rfl
  simp only [jsonWrite]
  split_ifs
  · exact hf
  · rw [jsonPut_text, hf]
    simp [jsonPut]
  · rw [jsonPut_text, h]
    simp [jsonPut]

/-- The same buffers in another state. -/
def JsonStream.at (j : JsonStream) (s : JsonState) (n : List JsonNesting) : JsonStream :=
  { j with state := s, nesting := n }

@[simp] theorem JsonStream.at_state (j : JsonStream) (s : JsonState) (n : List JsonNesting) :
    (j.at s n).state = s := rfl

@[simp] theorem JsonStream.at_nesting (j : JsonStream) (s : JsonState) (n : List JsonNesting) :
    (j.at s n).nesting = n := rfl

@[simp] theorem JsonStream.at_size (j : JsonStream) (s : JsonState) (n : List JsonNesting) :
    (j.at s n).size = j.size := rfl

@[simp] theorem JsonStream.at_buffer (j : JsonStream) (s : JsonState) (n : List JsonNesting) :
    (j.at s n).buffer = j.buffer := rfl

@[simp] theorem JsonStream.at_at (j : JsonStream) (s s' : JsonState) (n n' : List JsonNesting) :
    (j.at s n).at s' n' = j.at s' n' := rfl

/-- Writing does not look at the state. -/
theorem jsonWrite_at (j : JsonStream) (t : JsonToken) (s : JsonState) (n : List JsonNesting) :
    jsonWrite (j.at s n) t = (jsonWrite j t).at s n := by
  have hflush : jsonFlush (j.at s n) = (jsonFlush j).at s n := by
    by_cases hb : j.buffer = []
    · rw [jsonFlush, jsonFlush, JsonStream.at_buffer, if_pos hb, if_pos hb]
    · rw [jsonFlush, jsonFlush, JsonStream.at_buffer, if_neg hb, if_neg hb]
      rfl
  by_cases hroom : (tokenText t).length + j.buffer.length > j.size - 1
  · rw [jsonWrite, jsonWrite, JsonStream.at_size, JsonStream.at_buffer, if_pos hroom, if_pos hroom, hflush]
    by_cases hlong : (tokenText t).length > j.size - 1
    · rw [if_pos hlong, if_pos hlong]
    · rw [if_neg hlong, if_neg hlong]
      rfl
  · rw [jsonWrite, jsonWrite, JsonStream.at_size, JsonStream.at_buffer, if_neg hroom, if_neg hroom]
    rfl

def JsonStream.writeAll (j : JsonStream) (l : List JsonToken) : JsonStream := l.foldl jsonWrite j

theorem JsonStream.writeAll_append (j : JsonStream) (l m : List JsonToken) :
    j.writeAll (l ++ m) = (j.writeAll l).writeAll m := List.foldl_append ..

theorem JsonStream.writeAll_written (j : JsonStream) (l : List JsonToken) :
    (j.writeAll l).written = j.written ++ l.filter (fits j.size) := by
  induction l generalizing j with
  | nil => simp [writeAll]
  | cons t l ih =>
    show ((jsonWrite j t).writeAll l).written = _
    rw [ih, jsonWrite_written, jsonWrite_size, List.append_assoc, ← List.filter_append]
    rfl

theorem JsonStream.writeAll_text {j : JsonStream} (h : j.text = j.written.flatMap tokenText) (l : List JsonToken) :
    (j.writeAll l).text = (j.writeAll l).written.flatMap tokenText := by
  induction l generalizing j with
  | nil => exact h
  | cons t l ih => exact ih (jsonWrite_text h t)

end Writing

section Trees

mutual

/-- The calls that write a tree. -/
def treeCalls : JsonTree → List JsonCall
  | .null => [.null]
  | .boolean b => [.boolean b]
  | .number text => [.number text]
  | .string s => [.string s]
  | .array items => .arrayStart :: (itemCalls items ++ [.arrayEnd])
  | .object members => .objectStart :: (memberCalls members ++ [.objectEnd])

def itemCalls : List JsonTree → List JsonCall
  | [] => []
  | t :: ts => treeCalls t ++ itemCalls ts

def memberCalls : List (Bytes × JsonTree) → List JsonCall
  | [] => []
  | (k, t) :: ms => .string k :: (treeCalls t ++ memberCalls ms)

end

theorem memberCalls_append (l m : List (Bytes × JsonTree)) :
    memberCalls (l ++ m) = memberCalls l ++ memberCalls m := by
  induction l with
  | nil => rfl
  | cons e l ih => simp [memberCalls, ih]

theorem treeCalls_eq_cons (t : JsonTree) :
    ∃ a l, treeCalls t = a :: l ∧ a ≠ .arrayEnd ∧ a ≠ .objectEnd := by
  cases t <;> exact ⟨_, _, rfl, by simp, by simp⟩

mutual

/-- The calls of a tree show where it ends, and which tree it is. -/
theorem treeCalls_inj (t t' : JsonTree) {r r' : List JsonCall} (h : treeCalls t ++ r = treeCalls t' ++ r') :
    t = t' ∧ r = r' := by
  cases t with
  | array items =>
    cases t' with
    | array items' =>
      simp only [treeCalls, List.cons_append, List.append_assoc, List.nil_append, List.cons.injEq, true_and] at h
      obtain ⟨rfl, hr⟩ := itemCalls_inj items items' h
      exact ⟨rfl, hr⟩
    | _ => simp [treeCalls] at h
  | object members =>
    cases t' with
    | object members' =>
      simp only [treeCalls, List.cons_append, List.append_assoc, List.nil_append, List.cons.injEq, true_and] at h
      obtain ⟨rfl, hr⟩ := memberCalls_inj members members' h
      exact ⟨rfl, hr⟩
    | _ => simp [treeCalls] at h
  | _ => cases t' <;> simp_all [treeCalls]

theorem itemCalls_inj (l l' : List JsonTree) {r r' : List JsonCall}
    (h : itemCalls l ++ .arrayEnd :: r = itemCalls l' ++ .arrayEnd :: r') : l = l' ∧ r = r' := by
  cases l with
  | nil =>
    cases l' with
    | nil => simpa [itemCalls] using h
    | cons t' ts' =>
      obtain ⟨a, m, ha, hne, _⟩ := treeCalls_eq_cons t'
      simp only [itemCalls, ha, List.nil_append, List.cons_append, List.cons.injEq] at h
      exact absurd h.1.symm hne
  | cons t ts =>
    cases l' with
    | nil =>
      obtain ⟨a, m, ha, hne, _⟩ := treeCalls_eq_cons t
      simp only [itemCalls, ha, List.nil_append, List.cons_append, List.cons.injEq] at h
      exact absurd h.1 hne
    | cons t' ts' =>
      rw [itemCalls, itemCalls, List.append_assoc, List.append_assoc] at h
      obtain ⟨rfl, hts⟩ := treeCalls_inj t t' h
      obtain ⟨rfl, hr⟩ := itemCalls_inj ts ts' hts
      exact ⟨rfl, hr⟩

theorem memberCalls_inj (l l' : List (Bytes × JsonTree)) {r r' : List JsonCall}
    (h : memberCalls l ++ .objectEnd :: r = memberCalls l' ++ .objectEnd :: r') : l = l' ∧ r = r' := by
  cases l with
  | nil =>
    cases l' with
    | nil => simpa [memberCalls] using h
    | cons m' ms' => simp [memberCalls] at h
  | cons m ms =>
    obtain ⟨k, t⟩ := m
    cases l' with
    | nil => simp [memberCalls] at h
    | cons m' ms' =>
      obtain ⟨k', t'⟩ := m'
      simp only [memberCalls, List.cons_append, List.append_assoc, List.cons.injEq, JsonCall.string.injEq] at h
      obtain ⟨rfl, hts⟩ := treeCalls_inj t t' h.2
      obtain ⟨rfl, hr⟩ := memberCalls_inj ms ms' hts
      rw [h.1]
      exact ⟨rfl, hr⟩

end

theorem treeCalls_injective {t t' : JsonTree} (h : treeCalls t = treeCalls t') : t = t' :=
  (treeCalls_inj t t' (congrArg (· ++ []) h)).1

/-- The states in which a value may come. -/
inductive TakesValue : JsonState → List JsonNesting → Prop
  | start : TakesValue .start []
  | key (n : List JsonNesting) : TakesValue .objectKey (.object :: n)
  | first (n : List JsonNesting) : TakesValue .array (.array :: n)
  | next (n : List JsonNesting) : TakesValue .arrayItem (.array :: n)

/-- The comma before a value. -/
def separator (s : JsonState) : List JsonToken := if s = .arrayItem ∨ s = .objectValue then [.comma] else []

variable {j : JsonStream} {s : JsonState} {n : List JsonNesting}

theorem jsonScalar_at (h : TakesValue s n) (t : JsonToken) :
    jsonScalar t (j.at s n) = (j.writeAll (separator s ++ [t])).at (stateWithin n) n := by
  cases h <;> simp [jsonScalar, separator, stateWithin, jsonWrite_at, JsonStream.writeAll, JsonStream.setState] <;> rfl

theorem jsonString_value (h : TakesValue s n) (x : Bytes) :
    jsonString x (j.at s n) = (j.writeAll (separator s ++ [.string x])).at (stateWithin n) n := by
  cases h <;> simp [jsonString, separator, stateWithin, jsonWrite_at, JsonStream.writeAll, JsonStream.setState] <;> rfl

theorem jsonString_key (h : s = .object ∨ s = .objectValue) (x : Bytes) :
    jsonString x (j.at s n) = (j.writeAll (separator s ++ [.string x, .colon])).at .objectKey n := by
  rcases h with rfl | rfl <;>
    simp [jsonString, separator, jsonWrite_at, JsonStream.writeAll, JsonStream.setState] <;> rfl

theorem jsonStart_at (h : TakesValue s n) (t : JsonToken) (inside : JsonState) (kind : JsonNesting) :
    jsonStart t inside kind (j.at s n) = (j.writeAll (separator s ++ [t])).at inside (kind :: n) := by
  cases h <;> simp [jsonStart, separator, jsonWrite_at, JsonStream.writeAll] <;> rfl

theorem jsonEnd_at {empty filled : JsonState} {kind : JsonNesting} (h : s = empty ∨ s = filled) (he : s ≠ .error)
    (t : JsonToken) :
    jsonEnd t empty filled (j.at s (kind :: n)) = (j.writeAll [t]).at (stateWithin n) n := by
  rw [jsonEnd, JsonStream.at_state, if_neg he, if_pos h]
  simp [jsonWrite_at, JsonStream.writeAll]
  rfl

mutual

/-- The calls of a tree write its tokens, and leave the stream behind a value. -/
theorem jsonCalls_tree (t : JsonTree) (j : JsonStream) {s : JsonState} {n : List JsonNesting} (h : TakesValue s n) :
    jsonCalls (treeCalls t) (j.at s n) = (j.writeAll (separator s ++ t.tokens)).at (stateWithin n) n := by
  cases t with
  | null => exact jsonScalar_at h .null
  | boolean b => exact jsonScalar_at h (.boolean b)
  | number text => exact jsonScalar_at h (.number text)
  | string x => exact jsonString_value h x
  | array items =>
    simp only [treeCalls, jsonCalls, List.foldl_cons, List.foldl_append, List.foldl_nil, jsonCall]
    have hitems := jsonCalls_items items (j.writeAll (separator s ++ [.arrayStart])) (n := n) (.inl rfl)
    rw [jsonArrayStart, jsonStart_at h]
    rw [jsonCalls] at hitems
    rw [hitems, jsonArrayEnd, jsonEnd_at (by split <;> simp) (by split <;> simp)]
    simp [← JsonStream.writeAll_append, Json.Tree.tokens]
  | object members =>
    simp only [treeCalls, jsonCalls, List.foldl_cons, List.foldl_append, List.foldl_nil, jsonCall]
    have hmembers := jsonCalls_members members (j.writeAll (separator s ++ [.objectStart])) (n := n) (.inl rfl)
    rw [jsonObjectStart, jsonStart_at h]
    rw [jsonCalls] at hmembers
    rw [hmembers, jsonObjectEnd, jsonEnd_at (by split <;> simp) (by split <;> simp)]
    simp [← JsonStream.writeAll_append, Json.Tree.tokens]

theorem jsonCalls_items (l : List JsonTree) (j : JsonStream) {s : JsonState} {n : List JsonNesting}
    (h : s = .array ∨ s = .arrayItem) :
    jsonCalls (itemCalls l) (j.at s (.array :: n)) =
      (j.writeAll (Json.itemTokens (s = .arrayItem) l)).at (if l = [] then s else .arrayItem) (.array :: n) := by
  cases l with
  | nil => rfl
  | cons t ts =>
    have htakes : TakesValue s (.array :: n) := by
      rcases h with rfl | rfl
      · exact .first n
      · exact .next n
    rw [itemCalls, jsonCalls, List.foldl_append]
    have ht := jsonCalls_tree t j htakes
    have hts := jsonCalls_items ts (j.writeAll (separator s ++ t.tokens)) (n := n) (.inr rfl)
    rw [jsonCalls] at ht hts
    rw [ht, stateWithin, hts, ← JsonStream.writeAll_append]
    rcases h with rfl | rfl <;> simp [separator, Json.itemTokens]

theorem jsonCalls_members (l : List (Bytes × JsonTree)) (j : JsonStream) {s : JsonState} {n : List JsonNesting}
    (h : s = .object ∨ s = .objectValue) :
    jsonCalls (memberCalls l) (j.at s (.object :: n)) =
      (j.writeAll (Json.memberTokens (s = .objectValue) l)).at (if l = [] then s else .objectValue) (.object :: n) := by
  cases l with
  | nil => rfl
  | cons m ms =>
    obtain ⟨k, t⟩ := m
    rw [memberCalls, jsonCalls, List.foldl_cons, List.foldl_append, jsonCall, jsonString_key h]
    have ht := jsonCalls_tree t (j.writeAll (separator s ++ [.string k, .colon])) (.key n)
    have hms := jsonCalls_members ms
      ((j.writeAll (separator s ++ [.string k, .colon])).writeAll (separator .objectKey ++ t.tokens)) (n := n) (.inr rfl)
    rw [jsonCalls] at ht hms
    rw [ht, stateWithin, hms, ← JsonStream.writeAll_append, ← JsonStream.writeAll_append]
    rcases h with rfl | rfl <;> simp [separator, Json.memberTokens]

end

/-- How deep the nesting is at most, from the stream `j` through the calls. -/
def NestsWithin (d : Nat) (calls : List JsonCall) (j : JsonStream) : Prop :=
  ∀ k, (jsonCalls (calls.take k) j).nesting.length ≤ d

theorem NestsWithin.append {d : Nat} {a b : List JsonCall} (ha : NestsWithin d a j)
    (hb : NestsWithin d b (jsonCalls a j)) : NestsWithin d (a ++ b) j := by
  intro k
  rw [List.take_append, jsonCalls, List.foldl_append]
  by_cases hk : k ≤ a.length
  · rw [Nat.sub_eq_zero_of_le hk, List.take_zero]
    exact ha k
  · rw [List.take_of_length_le (by omega)]
    exact hb (k - a.length)

theorem NestsWithin.single {d : Nat} {c : JsonCall} (h : j.nesting.length ≤ d)
    (hc : (jsonCall j c).nesting.length ≤ d) : NestsWithin d [c] j := by
  intro k
  cases k with
  | zero => exact h
  | succ k => simpa [jsonCalls] using hc

theorem NestsWithin.nil {d : Nat} (h : j.nesting.length ≤ d) : NestsWithin d [] j := by
  intro k
  simpa [jsonCalls] using h

theorem NestsWithin.mono {d d' : Nat} {calls : List JsonCall} (h : NestsWithin d calls j) (hd : d ≤ d') :
    NestsWithin d' calls j := fun k => (h k).trans hd

mutual

theorem nestsWithin_tree (t : JsonTree) (j : JsonStream) {s : JsonState} {n : List JsonNesting} (h : TakesValue s n) :
    NestsWithin (n.length + t.depth) (treeCalls t) (j.at s n) := by
  have hend := jsonCalls_tree t j h
  have hscalar : ∀ c, treeCalls t = [c] → NestsWithin (n.length + t.depth) (treeCalls t) (j.at s n) := by
    intro c hc
    rw [hc] at hend ⊢
    refine .single (Nat.le_add_right _ _) ?_
    rw [show jsonCall (j.at s n) c = _ from hend]
    exact Nat.le_add_right _ _
  cases t with
  | null => exact hscalar _ rfl
  | boolean b => exact hscalar _ rfl
  | number text => exact hscalar _ rfl
  | string x => exact hscalar _ rfl
  | array items =>
    have hopen : jsonCall (j.at s n) .arrayStart = (j.writeAll (separator s ++ [.arrayStart])).at .array (.array :: n) :=
      jsonStart_at h ..
    have hitems := nestsWithin_items items (j.writeAll (separator s ++ [.arrayStart])) (n := n) (.inl rfl)
    have hinside := jsonCalls_items items (j.writeAll (separator s ++ [.arrayStart])) (n := n) (.inl rfl)
    have hd : n.length + (Json.Tree.array items).depth = n.length + 1 + Json.itemsDepth items := by
      rw [Json.Tree.depth]
      omega
    rw [hd, treeCalls, ← List.singleton_append]
    refine .append (.single (by simp; omega) (by rw [hopen]; simp)) ?_
    rw [jsonCalls, List.foldl_cons, List.foldl_nil, hopen]
    refine .append hitems ?_
    rw [hinside]
    refine .single (by simp) ?_
    rw [jsonCall, jsonArrayEnd, jsonEnd_at (by split <;> simp) (by split <;> simp)]
    simp only [JsonStream.at_nesting]
    omega
  | object members =>
    have hopen : jsonCall (j.at s n) .objectStart =
        (j.writeAll (separator s ++ [.objectStart])).at .object (.object :: n) := jsonStart_at h ..
    have hmembers := nestsWithin_members members (j.writeAll (separator s ++ [.objectStart])) (n := n) (.inl rfl)
    have hinside := jsonCalls_members members (j.writeAll (separator s ++ [.objectStart])) (n := n) (.inl rfl)
    have hd : n.length + (Json.Tree.object members).depth = n.length + 1 + Json.membersDepth members := by
      rw [Json.Tree.depth]
      omega
    rw [hd, treeCalls, ← List.singleton_append]
    refine .append (.single (by simp; omega) (by rw [hopen]; simp)) ?_
    rw [jsonCalls, List.foldl_cons, List.foldl_nil, hopen]
    refine .append hmembers ?_
    rw [hinside]
    refine .single (by simp) ?_
    rw [jsonCall, jsonObjectEnd, jsonEnd_at (by split <;> simp) (by split <;> simp)]
    simp only [JsonStream.at_nesting]
    omega

theorem nestsWithin_items (l : List JsonTree) (j : JsonStream) {s : JsonState} {n : List JsonNesting}
    (h : s = .array ∨ s = .arrayItem) :
    NestsWithin (n.length + 1 + Json.itemsDepth l) (itemCalls l) (j.at s (.array :: n)) := by
  cases l with
  | nil => exact .nil (by simp)
  | cons t ts =>
    have htakes : TakesValue s (.array :: n) := by
      rcases h with rfl | rfl
      · exact .first n
      · exact .next n
    have ht := nestsWithin_tree t j htakes
    have hts := nestsWithin_items ts (j.writeAll (separator s ++ t.tokens)) (n := n) (.inr rfl)
    rw [itemCalls, Json.itemsDepth]
    refine .append (ht.mono (by rw [List.length_cons]; omega)) ?_
    rw [jsonCalls_tree t j htakes]
    exact hts.mono (by omega)

theorem nestsWithin_members (l : List (Bytes × JsonTree)) (j : JsonStream) {s : JsonState} {n : List JsonNesting}
    (h : s = .object ∨ s = .objectValue) :
    NestsWithin (n.length + 1 + Json.membersDepth l) (memberCalls l) (j.at s (.object :: n)) := by
  cases l with
  | nil => exact .nil (by simp)
  | cons m ms =>
    obtain ⟨k, t⟩ := m
    have hkey : jsonCall (j.at s (.object :: n)) (.string k) =
        (j.writeAll (separator s ++ [.string k, .colon])).at .objectKey (.object :: n) := jsonString_key h k
    have ht := nestsWithin_tree t (j.writeAll (separator s ++ [.string k, .colon])) (.key n)
    have hms := nestsWithin_members ms
      ((j.writeAll (separator s ++ [.string k, .colon])).writeAll (separator .objectKey ++ t.tokens)) (n := n) (.inr rfl)
    rw [memberCalls, Json.membersDepth, ← List.singleton_append]
    refine .append (.single (by simp) (by rw [hkey]; simp)) ?_
    rw [jsonCalls, List.foldl_cons, List.foldl_nil, hkey]
    refine .append (ht.mono (by rw [List.length_cons]; omega)) ?_
    rw [jsonCalls_tree t _ (.key n)]
    exact hms.mono (by omega)

end

/-- A stream in the error state stays as it is. -/
theorem jsonCall_error (h : j.state = .error) (c : JsonCall) : jsonCall j c = j := by
  cases c <;>
    simp [jsonCall, jsonObjectStart, jsonArrayStart, jsonStart, jsonObjectEnd, jsonArrayEnd, jsonEnd, jsonNumber,
      jsonBoolean, jsonNull, jsonScalar, jsonString, h]

theorem jsonCalls_error (h : j.state = .error) (calls : List JsonCall) : jsonCalls calls j = j := by
  induction calls with
  | nil => rfl
  | cons c calls ih =>
    rw [jsonCalls, List.foldl_cons, jsonCall_error h]
    exact ih

/-- So a run that does not end in the error state has never been in it. -/
theorem jsonCalls_take_ne_error {calls : List JsonCall} (h : (jsonCalls calls j).state ≠ .error) (k : Nat) :
    (jsonCalls (calls.take k) j).state ≠ .error := by
  intro he
  have hsplit : jsonCalls calls j = jsonCalls (calls.drop k) (jsonCalls (calls.take k) j) := by
    rw [jsonCalls, jsonCalls, jsonCalls, ← List.foldl_append, List.take_append_drop]
  rw [hsplit, jsonCalls_error he] at h
  exact h he

/-- Writing a tree from the start. -/
theorem jsonCalls_new (size : Nat) (t : JsonTree) :
    jsonCalls (treeCalls t) (jsonNew size) = ((jsonNew size).writeAll t.tokens).at .ended [] :=
  jsonCalls_tree t (jsonNew size) .start

theorem jsonCalls_new_written (size : Nat) (t : JsonTree) :
    (jsonCalls (treeCalls t) (jsonNew size)).written = t.tokens.filter (fits size) := by
  rw [jsonCalls_new]
  exact JsonStream.writeAll_written (jsonNew size) t.tokens

/-- What the stream hands over, once it is flushed, is the text of the tokens written. -/
theorem jsonFlush_flushed (size : Nat) (t : JsonTree) :
    (jsonFlush (jsonCalls (treeCalls t) (jsonNew size))).flushed.flatten =
      (t.tokens.filter (fits size)).flatMap tokenText := by
  have htext : ((jsonNew size).writeAll t.tokens).text = _ := JsonStream.writeAll_text rfl t.tokens
  have hempty : ∀ j : JsonStream, (jsonFlush j).flushed.flatten = j.text := by
    intro j
    rw [jsonFlush, JsonStream.text]
    split_ifs with hb
    · simp [hb]
    · simp
  rw [hempty, jsonCalls_new]
  exact htext.trans (by rw [JsonStream.writeAll_written]; rfl)

end Trees

end ArduinoHomeKit
