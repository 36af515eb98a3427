import ArduinoHomeKit.JsonBuffer
import ArduinoHomeKit.Library.JsonPosition

/-! The JSON writer against the grammar. A stream that is not in the error state stands at a position
of a document; what a call may write there is what the document goes on with. -/

namespace ArduinoHomeKit

open Json

abbrev JsonContext := Json.Context Bytes Bytes
abbrev JsonPosition := Json.Position Bytes Bytes

variable {j : JsonStream} {p : JsonPosition} {c : JsonContext}

def contextNesting : JsonContext → List JsonNesting
  | .hole => []
  | .item outer _ => .array :: contextNesting outer
  | .member outer _ _ => .object :: contextNesting outer

def positionNesting : JsonPosition → List JsonNesting
  | .start | .ended _ => []
  | .array outer _ => .array :: contextNesting outer
  | .object outer _ | .key outer _ _ => .object :: contextNesting outer

def positionState : JsonPosition → JsonState
  | .start => .start
  | .ended _ => .ended
  | .array _ items => if items = [] then .array else .arrayItem
  | .object _ members => if members = [] then .object else .objectValue
  | .key _ _ _ => .objectKey

/-- The stream is where a document is up to the position. -/
structure StandsAt (j : JsonStream) (p : JsonPosition) : Prop where
  state : j.state = positionState p
  nesting : j.nesting = positionNesting p

theorem positionNesting_context (h : p.context = some c) : contextNesting c = positionNesting p := by
  cases p with
  | start => cases h; rfl
  | ended t => cases h
  | array outer items => cases h; rfl
  | object outer members => cases h
  | key outer members k => cases h; rfl

theorem takesValue_context (h : p.context = some c) : TakesValue (positionState p) (positionNesting p) := by
  cases p with
  | start => exact .start
  | ended t => cases h
  | array outer items =>
    rw [positionState]
    split
    · exact .first _
    · exact .next _
  | object outer members => cases h
  | key outer members k => exact .key _

theorem separator_position (h : p.context = some c) : separator (positionState p) = p.separator := by
  cases p with
  | start => rfl
  | ended t => cases h
  | array outer items =>
    rw [positionState, Position.separator, comma]
    split <;> rfl
  | object outer members => cases h
  | key outer members k => rfl

theorem state_done (c : JsonContext) (t : JsonTree) :
    positionState (c.done t) = stateWithin (contextNesting c) ∧ positionNesting (c.done t) = contextNesting c := by
  cases c with
  | hole => exact ⟨rfl, rfl⟩
  | item outer items => simp [Context.done, positionState, positionNesting, contextNesting, stateWithin]
  | member outer members k => simp [Context.done, positionState, positionNesting, contextNesting, stateWithin]

theorem valuePieces_takes {s : JsonState} {n : List JsonNesting} (h : TakesValue s n) (t : JsonToken) :
    valuePieces s t = separator s ++ [t] := by
  cases h <;> rfl

theorem stringPieces_takes {s : JsonState} {n : List JsonNesting} (h : TakesValue s n) (x : Bytes) :
    callPieces s (.string x) = valuePieces s (.string x) := by
  cases h <;> rfl

/-- Where no value may come. -/
theorem state_of_no_context (h : p.context = none) :
    positionState p = .ended ∨ positionState p = .object ∨ positionState p = .objectValue := by
  cases p with
  | ended t => exact Or.inl rfl
  | object outer members =>
    rw [positionState]
    split
    · exact Or.inr (Or.inl rfl)
    · exact Or.inr (Or.inr rfl)
  | start => cases h
  | array outer items => cases h
  | key outer members k => cases h

theorem StandsAt.at (h : StandsAt j p) : j = j.at (positionState p) (positionNesting p) := by
  rw [← h.state, ← h.nesting]
  rfl

/-! One call. -/

/-- A call stops the stream, or the document goes on with its pieces. -/
def GoesOn (j' : JsonStream) (p : JsonPosition) (pieces : List JsonToken) : Prop :=
  j'.state = .error ∧ pieces = [] ∨ ∃ p', StandsAt j' p' ∧ p'.tokens = p.tokens ++ pieces

/-- A call that writes a value by itself. -/
theorem goesOn_value {j' : JsonStream} {t : JsonToken} {v : JsonTree} (hv : v.tokens = [t])
    (hvalue : TakesValue (positionState p) (positionNesting p) →
      j'.state = stateWithin (positionNesting p) ∧ j'.nesting = positionNesting p)
    (herror : p.context = none → j'.state = .error ∧ valuePieces (positionState p) t = []) :
    GoesOn j' p (valuePieces (positionState p) t) := by
  cases hc : p.context with
  | none => exact Or.inl (herror hc)
  | some c =>
    have htakes := takesValue_context hc
    obtain ⟨hstate, hnesting⟩ := hvalue htakes
    obtain ⟨hs, hn⟩ := state_done c v
    rw [positionNesting_context hc] at hs hn
    refine Or.inr ⟨c.done v, ⟨hstate.trans hs.symm, hnesting.trans hn.symm⟩, ?_⟩
    rw [c.done_tokens, Position.context_tokens hc, valuePieces_takes htakes, separator_position hc, hv, List.append_assoc]

theorem goesOn_scalar (h : StandsAt j p) {t : JsonToken} {v : JsonTree} (hv : v.tokens = [t]) :
    GoesOn (jsonScalar t j) p (valuePieces j.state t) := by
  rw [h.state]
  apply goesOn_value hv
  · intro htakes
    rw [h.at, jsonScalar_at htakes]
    exact ⟨rfl, rfl⟩
  · intro hnone
    have hstate := h.state
    rcases state_of_no_context hnone with hs | hs | hs <;> rw [hs] at hstate ⊢ <;>
      exact ⟨by simp [jsonScalar, hstate, JsonStream.setState], rfl⟩

/-- A container is opened where a value may come. -/
theorem goesOn_start (h : StandsAt j p) {t : JsonToken} {inside : JsonState} {kind : JsonNesting}
    (opened : JsonContext → JsonPosition) (hstate : ∀ c, positionState (opened c) = inside)
    (hnesting : ∀ c, positionNesting (opened c) = kind :: contextNesting c)
    (htokens : ∀ c, (opened c).tokens = c.tokens ++ [t]) :
    GoesOn (jsonStart t inside kind j) p (valuePieces j.state t) := by
  rw [h.state]
  cases hc : p.context with
  | none =>
    have hs' := h.state
    rcases state_of_no_context hc with hs | hs | hs <;> rw [hs] at hs' ⊢ <;>
      exact Or.inl ⟨by simp [jsonStart, hs', JsonStream.setState], rfl⟩
  | some c =>
    have htakes := takesValue_context hc
    rw [h.at, jsonStart_at htakes]
    refine Or.inr ⟨opened c, ⟨(hstate c).symm, ?_⟩, ?_⟩
    · rw [hnesting, positionNesting_context hc]
      rfl
    · rw [htokens, Position.context_tokens hc, valuePieces_takes htakes, separator_position hc, List.append_assoc]

/-- The innermost container is closed, which makes it a value. -/
theorem goesOn_end (h : StandsAt j p) {t : JsonToken} {empty filled : JsonState} {kind : JsonNesting} {c : JsonContext}
    {v : JsonTree} (hs : positionState p = empty ∨ positionState p = filled) (he : positionState p ≠ .error)
    (hn : positionNesting p = kind :: contextNesting c) (hv : c.tokens ++ v.tokens = p.tokens ++ [t]) :
    GoesOn (jsonEnd t empty filled j) p [t] := by
  obtain ⟨hstate, hnesting⟩ := state_done c v
  rw [h.at, hn, jsonEnd_at hs he]
  exact Or.inr ⟨c.done v, ⟨hstate.symm, hnesting.symm⟩, (c.done_tokens v).trans hv⟩

theorem jsonEnd_refused {t : JsonToken} {empty filled : JsonState} (h : ¬ (j.state = empty ∨ j.state = filled)) :
    (jsonEnd t empty filled j).state = .error := by
  rw [jsonEnd, if_neg h]
  split
  · assumption
  · rfl

theorem goesOn_objectEnd (h : StandsAt j p) : GoesOn (jsonObjectEnd j) p (callPieces j.state .objectEnd) := by
  by_cases hs : j.state = .object ∨ j.state = .objectValue
  · rw [callPieces, if_pos hs]
    rw [h.state] at hs
    cases p with
    | object outer members =>
      refine goesOn_end h hs ?_ rfl (v := .object members) ?_
      · rcases hs with hs | hs <;> rw [hs] <;> decide
      · simp [Position.tokens, Tree.tokens]
    | array outer items =>
      rw [positionState] at hs
      split at hs <;> simp at hs
    | start => simp [positionState] at hs
    | ended t => simp [positionState] at hs
    | key outer members k => simp [positionState] at hs
  · rw [callPieces, if_neg hs]
    exact Or.inl ⟨jsonEnd_refused hs, rfl⟩

theorem goesOn_arrayEnd (h : StandsAt j p) : GoesOn (jsonArrayEnd j) p (callPieces j.state .arrayEnd) := by
  by_cases hs : j.state = .array ∨ j.state = .arrayItem
  · rw [callPieces, if_pos hs]
    rw [h.state] at hs
    cases p with
    | array outer items =>
      refine goesOn_end h hs ?_ rfl (v := .array items) ?_
      · rcases hs with hs | hs <;> rw [hs] <;> decide
      · simp [Position.tokens, Tree.tokens]
    | object outer members =>
      rw [positionState] at hs
      split at hs <;> simp at hs
    | start => simp [positionState] at hs
    | ended t => simp [positionState] at hs
    | key outer members k => simp [positionState] at hs
  · rw [callPieces, if_neg hs]
    exact Or.inl ⟨jsonEnd_refused hs, rfl⟩

/-- A string is a key or a value. -/
theorem goesOn_string (h : StandsAt j p) (x : Bytes) : GoesOn (jsonString x j) p (callPieces j.state (.string x)) := by
  rw [h.state]
  cases hc : p.context with
  | some c =>
    have htakes := takesValue_context hc
    rw [stringPieces_takes htakes, h.at]
    refine goesOn_value (v := .string x) rfl (fun _ => ?_) (fun hnone => by rw [hc] at hnone; cases hnone)
    rw [jsonString_value htakes]
    exact ⟨rfl, rfl⟩
  | none =>
    cases p with
    | ended t => exact Or.inl ⟨by simp [jsonString, h.state, positionState, JsonStream.setState], rfl⟩
    | object outer members =>
      have hs : positionState (.object outer members) = .object ∨ positionState (.object outer members) = .objectValue := by
        rw [positionState]
        split
        · exact Or.inl rfl
        · exact Or.inr rfl
      have hpieces : callPieces (positionState (.object outer members)) (.string x) =
          comma members ++ [.string x, .colon] := by
        rw [positionState, comma]
        split <;> rfl
      rw [h.at, jsonString_key hs, hpieces]
      refine Or.inr ⟨.key outer members x, ⟨rfl, rfl⟩, ?_⟩
      simp [Position.tokens]
    | start => cases hc
    | array outer items => cases hc
    | key outer members k => cases hc

theorem goesOn_call (h : StandsAt j p) (call : JsonCall) : GoesOn (jsonCall j call) p (callPieces j.state call) := by
  cases call with
  | objectStart =>
    exact goesOn_start h (fun c => .object c []) (fun _ => rfl) (fun _ => rfl) (fun c => by simp [Position.tokens,
      memberTokens])
  | objectEnd => exact goesOn_objectEnd h
  | arrayStart =>
    exact goesOn_start h (fun c => .array c []) (fun _ => rfl) (fun _ => rfl) (fun c => by simp [Position.tokens,
      itemTokens])
  | arrayEnd => exact goesOn_arrayEnd h
  | number text => exact goesOn_scalar h (v := .number text) rfl
  | string x => exact goesOn_string h x
  | boolean x => exact goesOn_scalar h (v := .boolean x) rfl
  | null => exact goesOn_scalar h (v := .null) rfl

/-! Runs. -/

/-- A run that does not stop the stream writes the document up to where it leads. -/
theorem jsonCalls_position (h : StandsAt j p) {calls : List JsonCall} (hs : (jsonCalls calls j).state ≠ .error) :
    ∃ p', StandsAt (jsonCalls calls j) p' ∧ p'.tokens = p.tokens ++ runPieces j calls := by
  induction calls generalizing j p with
  | nil => exact ⟨p, h, (List.append_nil _).symm⟩
  | cons call calls ih =>
    rcases goesOn_call h call with ⟨he, _⟩ | ⟨p', hp', htokens⟩
    · exact absurd ((congrArg JsonStream.state (jsonCalls_error he calls)).trans he) hs
    · obtain ⟨p'', hp'', htokens'⟩ := ih hp' hs
      refine ⟨p'', hp'', ?_⟩
      rw [htokens', htokens, runPieces, List.append_assoc]

theorem standsAt_new (size : Nat) : StandsAt (jsonNew size) .start := ⟨rfl, rfl⟩

/-- The stream is at a document, or part of one, until it stops. -/
structure WritesDocument (size : Nat) (calls : List JsonCall) (j : JsonStream) : Prop where
  run : jsonRun calls (jsonNew size) = .ok j
  tokens : j.text = j.written.flatMap tokenText
  begins : j.state ≠ .error → ∃ t : JsonTree, j.written <+: t.tokens
  complete : j.state ≠ .error → (IsDocument j.written ↔ j.state = .ended)
  stopped : j.state = .error → ∀ more, jsonCalls more j = j

theorem writesDocument_of_fits {size : Nat} {calls : List JsonCall} (hdepth : NestsWithin jsonMaxDepth calls (jsonNew size))
    (hfits : ∀ t ∈ runPieces (jsonNew size) calls, fits size t = true) :
    WritesDocument size calls (jsonCalls calls (jsonNew size)) := by
  obtain ⟨s, n, l, hrun⟩ := jsonCalls_pieces calls .start []
  obtain ⟨hl, hend⟩ : runPieces (jsonNew size) calls = l ∧ jsonCalls calls (jsonNew size) = _ := hrun (jsonNew size)
  have hwritten : (jsonCalls calls (jsonNew size)).written = runPieces (jsonNew size) calls := by
    have hall : l.filter (fits size) = l := List.filter_eq_self.mpr (hl ▸ hfits)
    rw [hend, hl]
    exact (JsonStream.writeAll_written (jsonNew size) l).trans (by rw [show (jsonNew size).size = size from rfl, hall]; rfl)
  have hposition := fun hs : (jsonCalls calls (jsonNew size)).state ≠ .error => jsonCalls_position (standsAt_new size) hs
  refine ⟨?_, ?_, fun hs => ?_, fun hs => ?_, jsonCalls_error⟩
  · rcases jsonRun_cases calls (jsonNew size) (Nat.zero_le _) with ⟨_, hr⟩ | ⟨hn, _⟩
    · exact hr
    · exact absurd hdepth hn
  · rw [hend]
    exact JsonStream.writeAll_text rfl l
  · obtain ⟨p, _, htokens⟩ := hposition hs
    obtain ⟨t, rest, ht, _⟩ := p.completed
    rw [hwritten]
    exact ⟨t, rest, by rw [ht, htokens]; rfl⟩
  · obtain ⟨p, hp, htokens⟩ := hposition hs
    have hsame : p.tokens = (jsonCalls calls (jsonNew size)).written := by
      rw [htokens, hwritten]
      rfl
    rw [← hsame, p.isDocument_iff, hp.state]
    cases p with
    | ended t => exact iff_of_true ⟨t, rfl⟩ rfl
    | start => simp [positionState]
    | array outer items =>
      rw [positionState]
      split <;> simp
    | object outer members =>
      rw [positionState]
      split <;> simp
    | key outer members k => simp [positionState]

/-- The stream follows the grammar: what it has written begins a document, and is one exactly at its
end; and every tree can be written. -/
theorem jsonStream_documents (size : Nat) :
    (∀ calls, NestsWithin jsonMaxDepth calls (jsonNew size) →
      (∀ t ∈ runPieces (jsonNew size) calls, fits size t = true) → ∃ j, WritesDocument size calls j) ∧
    ∀ t : JsonTree, t.depth ≤ jsonMaxDepth → (∀ a ∈ t.tokens, fits size a = true) →
      (∀ k, (jsonCalls ((treeCalls t).take k) (jsonNew size)).state ≠ .error) ∧
      ∃ j, jsonRun (treeCalls t) (jsonNew size) = .ok j ∧ j.state = .ended ∧ j.written = t.tokens := by
  refine ⟨fun calls hdepth hfits => ⟨_, writesDocument_of_fits hdepth hfits⟩, fun t hdepth hfits => ?_⟩
  have hend := jsonCalls_new size t
  have hstate : (jsonCalls (treeCalls t) (jsonNew size)).state = .ended := by rw [hend]; rfl
  have hnests : NestsWithin jsonMaxDepth (treeCalls t) (jsonNew size) := by
    have htree := nestsWithin_tree t (jsonNew size) .start
    exact htree.mono (by simpa using hdepth)
  refine ⟨jsonCalls_take_ne_error (by simp [hstate]), _, ?_, hstate, ?_⟩
  · rcases jsonRun_cases (treeCalls t) (jsonNew size) (Nat.zero_le _) with ⟨_, hr⟩ | ⟨hn, _⟩
    · exact hr
    · exact absurd hnests hn
  · rw [jsonCalls_new_written, List.filter_eq_self.mpr hfits]

/-- An array with one number. -/
theorem jsonStream_documents_one :
    (∃ j, WritesDocument 8 (treeCalls (.array [.number (ascii "1")])) j) ∧
      ∃ j, jsonRun (treeCalls (.array [.number (ascii "1")])) (jsonNew 8) = .ok j ∧ j.state = .ended ∧
        j.written = [.arrayStart, .number (ascii "1"), .arrayEnd] := by
  have htree := nestsWithin_tree (.array [.number (ascii "1")]) (jsonNew 8) .start
  exact ⟨(jsonStream_documents 8).1 _ (htree.mono (by decide)) (by decide),
    ((jsonStream_documents 8).2 (.array [.number (ascii "1")]) (by decide) (by decide)).2⟩

end ArduinoHomeKit
