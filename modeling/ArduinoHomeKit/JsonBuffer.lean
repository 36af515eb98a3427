import ArduinoHomeKit.ClientProcess
import ArduinoHomeKit.JsonStream
import ArduinoHomeKit.Library.Chunked

/-! The buffer of the JSON writer, and the chunks in which it leaves: for every size of the
buffer the chunked body is the text of the tokens. -/

namespace ArduinoHomeKit

variable {j j' : JsonStream} {calls : List JsonCall} {size : Nat} {t : JsonToken} {l : List JsonToken}

/-! The pieces of a sequence of calls. -/

/-- The pieces of a value, with the comma of an array item. -/
def valuePieces (s : JsonState) (t : JsonToken) : List JsonToken :=
  match s with
  | .arrayItem => [.comma, t]
  | .start | .objectKey | .array => [t]
  | _ => []

/-- The pieces that a call formats in a state. -/
def callPieces (s : JsonState) : JsonCall → List JsonToken
  | .objectStart => valuePieces s .objectStart
  | .arrayStart => valuePieces s .arrayStart
  | .objectEnd => if s = .object ∨ s = .objectValue then [.objectEnd] else []
  | .arrayEnd => if s = .array ∨ s = .arrayItem then [.arrayEnd] else []
  | .number text => valuePieces s (.number text)
  | .boolean x => valuePieces s (.boolean x)
  | .null => valuePieces s .null
  | .string x =>
    match s with
    | .object => [.string x, .colon]
    | .objectValue => [.comma, .string x, .colon]
    | _ => valuePieces s (.string x)

/-- The pieces that a sequence of calls formats. -/
def runPieces (j : JsonStream) : List JsonCall → List JsonToken
  | [] => []
  | call :: calls => callPieces j.state call ++ runPieces (jsonCall j call) calls

theorem jsonScalar_pieces (t : JsonToken) (s : JsonState) (n : List JsonNesting) :
    ∃ s', ∀ j : JsonStream, jsonScalar t (j.at s n) = (j.writeAll (valuePieces s t)).at s' n := by
  cases s <;>
    exact ⟨_, fun j => by
      simp [jsonScalar, valuePieces, jsonWrite_at, JsonStream.writeAll, JsonStream.setState]
      rfl⟩

theorem jsonStart_pieces (t : JsonToken) (inside : JsonState) (kind : JsonNesting) (s : JsonState) (n : List JsonNesting) :
    ∃ s' n', ∀ j : JsonStream, jsonStart t inside kind (j.at s n) = (j.writeAll (valuePieces s t)).at s' n' := by
  cases s <;>
    exact ⟨_, _, fun j => by
      simp [jsonStart, valuePieces, jsonWrite_at, JsonStream.writeAll, JsonStream.setState]
      rfl⟩

theorem jsonEnd_pieces (t : JsonToken) (empty filled s : JsonState) (n : List JsonNesting) :
    ∃ s' n', ∀ j : JsonStream, jsonEnd t empty filled (j.at s n) =
      (j.writeAll (if s ≠ .error ∧ (s = empty ∨ s = filled) then [t] else [])).at s' n' := by
  by_cases he : s = .error
  · refine ⟨s, n, fun j => ?_⟩
    simp [jsonEnd, he, JsonStream.writeAll]
  · by_cases hs : s = empty ∨ s = filled
    · refine ⟨stateWithin n.tail, n.tail, fun j => ?_⟩
      simp [jsonEnd, he, hs, jsonWrite_at, JsonStream.writeAll]
      rfl
    · refine ⟨.error, n, fun j => ?_⟩
      simp [jsonEnd, he, hs, JsonStream.writeAll, JsonStream.setState]
      rfl

theorem jsonString_pieces (x : Bytes) (s : JsonState) (n : List JsonNesting) :
    ∃ s', ∀ j : JsonStream, jsonString x (j.at s n) = (j.writeAll (callPieces s (.string x))).at s' n := by
  cases s <;>
    exact ⟨_, fun j => by
      simp [jsonString, callPieces, valuePieces, jsonWrite_at, JsonStream.writeAll, JsonStream.setState]
      rfl⟩

/-- A call writes its pieces one after the other, and where it leads does not depend on the
buffer. -/
theorem jsonCall_pieces (call : JsonCall) (s : JsonState) (n : List JsonNesting) :
    ∃ s' n', ∀ j : JsonStream, jsonCall (j.at s n) call = (j.writeAll (callPieces s call)).at s' n' := by
  have hscalar : ∀ t, ∃ s' n', ∀ j : JsonStream, jsonScalar t (j.at s n) = (j.writeAll (valuePieces s t)).at s' n' := by
    intro t
    obtain ⟨s', h⟩ := jsonScalar_pieces t s n
    exact ⟨s', n, h⟩
  cases call with
  | objectStart => exact jsonStart_pieces ..
  | arrayStart => exact jsonStart_pieces ..
  | objectEnd =>
    obtain ⟨s', n', h⟩ := jsonEnd_pieces .objectEnd .object .objectValue s n
    refine ⟨s', n', fun j => (h j).trans ?_⟩
    cases s <;> rfl
  | arrayEnd =>
    obtain ⟨s', n', h⟩ := jsonEnd_pieces .arrayEnd .array .arrayItem s n
    refine ⟨s', n', fun j => (h j).trans ?_⟩
    cases s <;> rfl
  | number text => exact hscalar (.number text)
  | boolean x => exact hscalar (.boolean x)
  | null => exact hscalar .null
  | string x =>
    obtain ⟨s', h⟩ := jsonString_pieces x s n
    exact ⟨s', n, h⟩

/-- The same run on two streams in one state: the pieces are the same, and so is the state. -/
theorem jsonCalls_pieces (calls : List JsonCall) (s : JsonState) (n : List JsonNesting) :
    ∃ s' n' l, ∀ j : JsonStream, runPieces (j.at s n) calls = l ∧
      jsonCalls calls (j.at s n) = (j.writeAll l).at s' n' := by
  induction calls generalizing s n with
  | nil => exact ⟨s, n, [], fun j => ⟨rfl, rfl⟩⟩
  | cons call calls ih =>
    obtain ⟨s₁, n₁, hcall⟩ := jsonCall_pieces call s n
    obtain ⟨s', n', l, hrun⟩ := ih s₁ n₁
    refine ⟨s', n', callPieces s call ++ l, fun j => ?_⟩
    obtain ⟨hl, hend⟩ := hrun (j.writeAll (callPieces s call))
    constructor
    · rw [runPieces, JsonStream.at_state, hcall, hl]
    · rw [jsonCalls, List.foldl_cons, hcall, JsonStream.writeAll_append]
      exact hend

/-! Writing the pieces. -/

/-- The buffer is never full, and no empty buffer is handed over. -/
structure Buffered (j : JsonStream) : Prop where
  buffer : j.buffer.length ≤ j.size - 1
  flushed : ∀ data ∈ j.flushed, data ≠ [] ∧ data.length ≤ j.size - 1

theorem Buffered.flush (h : Buffered j) :
    Buffered (jsonFlush j) ∧ (jsonFlush j).buffer = [] ∧ (jsonFlush j).size = j.size := by
  rw [jsonFlush]
  split
  · rename_i hb
    exact ⟨h, hb, rfl⟩
  · rename_i hb
    refine ⟨⟨Nat.zero_le _, fun data hd => ?_⟩, rfl, rfl⟩
    rcases List.mem_append.mp hd with hd | hd
    · exact h.flushed data hd
    · obtain rfl := List.mem_singleton.mp hd
      exact ⟨hb, h.buffer⟩

theorem Buffered.write (h : Buffered j) (t : JsonToken) : Buffered (jsonWrite j t) := by
  obtain ⟨hf, hbuffer, hsize⟩ := h.flush
  rw [jsonWrite]
  split
  · split
    · exact hf
    · rename_i hle
      refine ⟨?_, hf.flushed⟩
      show ((jsonFlush j).buffer ++ tokenText t).length ≤ (jsonFlush j).size - 1
      rw [hbuffer, hsize, List.nil_append]
      exact Nat.not_lt.mp hle
  · rename_i hroom
    refine ⟨?_, h.flushed⟩
    show (j.buffer ++ tokenText t).length ≤ j.size - 1
    rw [List.length_append]
    omega

theorem Buffered.writeAll (h : Buffered j) (l : List JsonToken) : Buffered (j.writeAll l) := by
  induction l generalizing j with
  | nil => exact h
  | cons t l ih => exact ih (h.write t)

theorem buffered_new (size : Nat) : Buffered (jsonNew size) := ⟨Nat.zero_le _, fun _ hd => absurd hd List.not_mem_nil⟩

/-- With room for every piece the text is complete. -/
theorem writeAll_new_text (hl : ∀ t ∈ l, (tokenText t).length < size) :
    ((jsonNew size).writeAll l).text = l.flatMap tokenText := by
  rw [JsonStream.writeAll_text rfl, JsonStream.writeAll_written]
  have hall : l.filter (fits (jsonNew size).size) = l := by
    rw [List.filter_eq_self]
    intro t ht
    have hlt := hl t ht
    exact decide_eq_true (Nat.le_sub_one_of_lt hlt)
  rw [hall]
  rfl

/-- With room for the whole text nothing is flushed. -/
theorem writeAll_large (h : j.buffer.length + (l.flatMap tokenText).length < j.size) :
    (j.writeAll l).flushed = j.flushed ∧ (j.writeAll l).buffer = j.buffer ++ l.flatMap tokenText := by
  induction l generalizing j with
  | nil => exact ⟨rfl, (List.append_nil _).symm⟩
  | cons t l ih =>
    rw [List.flatMap_cons, List.length_append] at h
    have hput : jsonWrite j t = jsonPut j t := by
      rw [jsonWrite, if_neg (by omega)]
    show ((jsonWrite j t).writeAll l).flushed = _ ∧ ((jsonWrite j t).writeAll l).buffer = _
    rw [hput]
    have hlen : (jsonPut j t).buffer.length = j.buffer.length + (tokenText t).length := List.length_append ..
    obtain ⟨hf, hb⟩ := ih (j := jsonPut j t) (by rw [hlen]; exact Nat.lt_of_le_of_lt (by omega) h)
    refine ⟨hf, hb.trans ?_⟩
    rw [List.flatMap_cons, jsonPut, List.append_assoc]

theorem jsonFlush_chunks (j : JsonStream) : (jsonFlush j).flushed.flatten = j.text := by
  rw [jsonFlush, JsonStream.text]
  split
  · rename_i hb
    rw [hb, List.append_nil]
  · simp

/-! The calls with the nesting kept in an array of JSON_MAX_DEPTH. -/

/-- A call that nests deeper writes behind the array. -/
def jsonCallChecked (j : JsonStream) (call : JsonCall) : Except Fault JsonStream :=
  if jsonMaxDepth < (jsonCall j call).nesting.length then .error .wildWrite else .ok (jsonCall j call)

def jsonRun : List JsonCall → JsonStream → Except Fault JsonStream
  | [], j => .ok j
  | call :: calls, j =>
    match jsonCallChecked j call with
    | .error e => .error e
    | .ok j => jsonRun calls j

/-- The run is the one without bounds, or the bound is exceeded and it ends with the write. -/
theorem jsonRun_cases (calls : List JsonCall) (j : JsonStream) (hj : j.nesting.length ≤ jsonMaxDepth) :
    NestsWithin jsonMaxDepth calls j ∧ jsonRun calls j = .ok (jsonCalls calls j) ∨
      ¬ NestsWithin jsonMaxDepth calls j ∧ jsonRun calls j = .error .wildWrite := by
  induction calls generalizing j with
  | nil => exact Or.inl ⟨.nil hj, rfl⟩
  | cons call calls ih =>
    rw [jsonRun, jsonCallChecked]
    by_cases hdeep : jsonMaxDepth < (jsonCall j call).nesting.length
    · rw [if_pos hdeep]
      exact Or.inr ⟨fun h => absurd (h 1) (Nat.not_le.mpr hdeep), rfl⟩
    · rw [if_neg hdeep]
      have hle := Nat.not_lt.mp hdeep
      rcases ih (jsonCall j call) hle with ⟨h, hr⟩ | ⟨h, hr⟩
      · exact Or.inl ⟨NestsWithin.append (a := [call]) (.single hj hle) h, hr⟩
      · exact Or.inr ⟨fun hn => h (fun k => hn (k + 1)), hr⟩

/-- How deep the calls nest does not depend on the buffer. -/
theorem nestsWithin_size {d : Nat} (size size' : Nat) (h : NestsWithin d calls (jsonNew size)) :
    NestsWithin d calls (jsonNew size') := by
  intro k
  obtain ⟨s, n, l, hrun⟩ := jsonCalls_pieces (calls.take k) .start []
  have hk := h k
  have he := (hrun (jsonNew size)).2
  have he' := (hrun (jsonNew size')).2
  rw [show jsonCalls (calls.take k) (jsonNew size) = _ from he] at hk
  rw [show jsonCalls (calls.take k) (jsonNew size') = _ from he']
  exact hk

/-! The chunks. -/

/-- client_send_chunk: the payload that is passed to client_send, unless malloc fails. -/
def clientSendChunk (data : Bytes) : Option Bytes :=
  if data.length + 8 ≤ dramSize then some (Chunked.encodeChunk data) else none

/-- The payloads of a body: json_new, the calls, json_flush, and client_send_chunk(NULL, 0). -/
def chunkedBody (size : Nat) (calls : List JsonCall) : Except Fault (List Bytes) :=
  (jsonRun calls (jsonNew size)).map (fun j => ((jsonFlush j).flushed ++ [[]]).filterMap clientSendChunk)

theorem clientSendChunk_eq {data : Bytes} (h : data.length < 65535) :
    clientSendChunk data = some (Chunked.encodeChunk data) := by
  rw [clientSendChunk, if_pos]
  simp only [dramSize]
  omega

theorem encodeChunk_length {data : Bytes} (h : data.length < 65535) :
    (Chunked.encodeChunk data).length ≤ data.length + 8 := by
  have hhex := Chunked.hexNumeral_length_le (n := data.length) (k := 4) (by omega) (by omega)
  simp only [Chunked.encodeChunk, Chunked.crlf, List.length_append, List.length_cons, List.length_nil]
  omega

theorem JsonStream.writeAll_size (j : JsonStream) (l : List JsonToken) : (j.writeAll l).size = j.size := by
  induction l generalizing j with
  | nil => rfl
  | cons t l ih => exact (ih (jsonWrite j t)).trans (jsonWrite_size j t)

/-- Where a run from a new stream ends. -/
theorem jsonRun_new (h : jsonRun calls (jsonNew size) = .ok j) : Buffered j ∧ j.size = size := by
  obtain ⟨s, n, l, hrun⟩ := jsonCalls_pieces calls .start []
  rcases jsonRun_cases calls (jsonNew size) (Nat.zero_le _) with ⟨_, hr⟩ | ⟨_, hr⟩
  · obtain rfl : jsonCalls calls (jsonNew size) = j := Except.ok.inj (hr.symm.trans h)
    have hw := (buffered_new size).writeAll l
    rw [show jsonCalls calls (jsonNew size) = _ from (hrun (jsonNew size)).2]
    exact ⟨⟨hw.buffer, hw.flushed⟩, JsonStream.writeAll_size (jsonNew size) l⟩
  · cases hr.symm.trans h

/-- The payloads of a body are its buffers as chunks, with the empty chunk behind them. -/
theorem chunkedBody_run (hsize : size ≤ 65535) (h : jsonRun calls (jsonNew size) = .ok j) :
    chunkedBody size calls = .ok (((jsonFlush j).flushed ++ [[]]).map Chunked.encodeChunk) ∧
      (∀ data ∈ (jsonFlush j).flushed, data ≠ []) ∧ ∀ data ∈ (jsonFlush j).flushed ++ [[]], data.length < 65535 := by
  obtain ⟨hbuf, hj⟩ := jsonRun_new h
  obtain ⟨hflush, _, hfsize⟩ := hbuf.flush
  have hchunks : ∀ data ∈ (jsonFlush j).flushed, data ≠ [] ∧ data.length < 65535 := by
    intro data hd
    obtain ⟨hne, hle⟩ := hflush.flushed data hd
    exact ⟨hne, by omega⟩
  have hall : ∀ data ∈ (jsonFlush j).flushed ++ [[]], data.length < 65535 := by
    intro data hd
    rcases List.mem_append.mp hd with hd | hd
    · exact (hchunks data hd).2
    · rw [List.mem_singleton.mp hd, List.length_nil]
      omega
  refine ⟨?_, fun data hd => (hchunks data hd).1, hall⟩
  rw [chunkedBody, h]
  have hsent : ((jsonFlush j).flushed ++ [[]]).filterMap clientSendChunk =
      ((jsonFlush j).flushed ++ [[]]).map Chunked.encodeChunk := by
    rw [List.filterMap_congr (fun data hd => clientSendChunk_eq (hall data hd)), List.filterMap_eq_map']
  exact congrArg Except.ok hsent

theorem decode_flushed (hne : ∀ data ∈ (jsonFlush j).flushed, data ≠ []) :
    Chunked.decode (((jsonFlush j).flushed ++ [[]]).map Chunked.encodeChunk).flatten = some j.text := by
  rw [List.map_append, List.flatten_append, List.map_singleton, List.flatten_singleton,
    Chunked.decode_chunks _ hne, jsonFlush_chunks]

/-- The calls of a tree never nest too deep, and their body is well formed whatever gets into the buffer. -/
theorem chunkedBody_tree (hsize : size ≤ 65535) {t : JsonTree} (ht : t.depth ≤ jsonMaxDepth) :
    ∃ chunks text, chunkedBody size (treeCalls t) = .ok chunks ∧ Chunked.decode chunks.flatten = some text := by
  have hnests : NestsWithin jsonMaxDepth (treeCalls t) (jsonNew size) :=
    (nestsWithin_tree t (jsonNew size) .start).mono (by simpa using ht)
  rcases jsonRun_cases (treeCalls t) (jsonNew size) (Nat.zero_le _) with ⟨_, hr⟩ | ⟨hn, _⟩
  · obtain ⟨hbody, hne, _⟩ := chunkedBody_run hsize hr
    exact ⟨_, _, hbody, decode_flushed hne⟩
  · exact absurd hnests hn

/-- The body that leaves through a buffer of a size is the text, in nonempty chunks. -/
def CarriesText (size : Nat) (calls : List JsonCall) (text : Bytes) : Prop :=
  ∃ chunks, chunkedBody size calls = .ok ((chunks ++ [[]]).map Chunked.encodeChunk) ∧
    Chunked.decode ((chunks ++ [[]]).map Chunked.encodeChunk).flatten = some text ∧ (∀ data ∈ chunks, data ≠ []) ∧
    ∀ data ∈ chunks ++ [[]], (Chunked.encodeChunk data).length ≤ data.length + 8

/-- Whatever the size of the buffer, as long as each piece is shorter: the body is the text that
a buffer with room for all of it holds. -/
def BufferingTransparent (calls : List JsonCall) : Prop :=
  ∃ text, (∀ large, text.length < large → ∃ j, jsonRun calls (jsonNew large) = .ok j ∧ j.flushed = [] ∧ j.buffer = text) ∧
    ∀ size, 2 ≤ size → size ≤ 65535 → (∀ t ∈ runPieces (jsonNew size) calls, (tokenText t).length < size) →
      CarriesText size calls text

/-- Buffering is transparent for all calls that nest as deep as the writer has room for. -/
theorem bufferingTransparent (calls : List JsonCall) (h : NestsWithin jsonMaxDepth calls (jsonNew 2)) :
    BufferingTransparent calls := by
  obtain ⟨s, n, l, hrun⟩ := jsonCalls_pieces calls .start []
  have hcalls : ∀ size, jsonRun calls (jsonNew size) = .ok (((jsonNew size).writeAll l).at s n) := by
    intro size
    rcases jsonRun_cases calls (jsonNew size) (Nat.zero_le _) with ⟨_, hr⟩ | ⟨hn, _⟩
    · exact hr.trans (congrArg Except.ok (hrun (jsonNew size)).2)
    · exact absurd (nestsWithin_size 2 size h) hn
  refine ⟨l.flatMap tokenText, fun large hlarge => ?_, fun size h2 hsize hpieces => ?_⟩
  · obtain ⟨hf, hb⟩ := writeAll_large (j := jsonNew large) (l := l) (by rw [jsonNew]; simpa using hlarge)
    exact ⟨_, hcalls large, hf, hb⟩
  · have hl : runPieces (jsonNew size) calls = l := (hrun (jsonNew size)).1
    rw [hl] at hpieces
    obtain ⟨hbody, hne, hall⟩ := chunkedBody_run hsize (hcalls size)
    refine ⟨_, hbody, ?_, hne, fun data hd => encodeChunk_length (hall data hd)⟩
    rw [decode_flushed hne]
    exact congrArg some (writeAll_new_text hpieces)

/-- An object with a member. -/
theorem bufferingTransparent_object : BufferingTransparent [.objectStart, .string (ascii "aid"), jsonUint8 1, .objectEnd] :=
  bufferingTransparent _ (by
    intro k
    match k with
    | 0 | 1 | 2 | 3 => decide
    | k + 4 =>
      rw [List.take_of_length_le (by simp)]
      decide)

/-- Nothing keeps the calls from nesting deeper, and then the write behind the array comes. -/
theorem nesting_overruns :
    jsonRun (List.replicate 31 .arrayStart) (jsonNew 2) = .error .wildWrite ∧
      (∀ t ∈ runPieces (jsonNew 2) (List.replicate 31 .arrayStart), (tokenText t).length < 2) ∧
      ¬ BufferingTransparent (List.replicate 31 .arrayStart) := by
  have hover : ∀ size, jsonRun (List.replicate 31 .arrayStart) (jsonNew size) = .error .wildWrite := by
    intro size
    rcases jsonRun_cases (List.replicate 31 .arrayStart) (jsonNew size) (Nat.zero_le _) with ⟨hn, _⟩ | ⟨_, hr⟩
    · exact absurd (nestsWithin_size size 2 hn 31) (by decide +kernel)
    · exact hr
  refine ⟨hover 2, by decide +kernel, fun ⟨text, hlarge, _⟩ => ?_⟩
  obtain ⟨j, hj, _⟩ := hlarge (text.length + 1) (Nat.lt_succ_self _)
  rw [hover] at hj
  simp at hj

end ArduinoHomeKit
