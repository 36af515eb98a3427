import ArduinoHomeKit.Library.Json

/-! Positions in a JSON document that is written from left to right: the containers that are open,
with what they have so far. The tokens up to a position begin a document, and are one at its end only. -/

namespace Json

variable {σ ν : Type}

/-- A place for a value; the containers around it are closed later. -/
inductive Context (σ ν : Type)
  | hole
  | item (outer : Context σ ν) (items : List (Tree σ ν))
  | member (outer : Context σ ν) (members : List (σ × Tree σ ν)) (key : σ)

/-- How far a document is written. -/
inductive Position (σ ν : Type)
  | start
  | ended (t : Tree σ ν)
  | array (outer : Context σ ν) (items : List (Tree σ ν))
  | object (outer : Context σ ν) (members : List (σ × Tree σ ν))
  | key (outer : Context σ ν) (members : List (σ × Tree σ ν)) (key : σ)

/-- The comma behind what a container has. -/
def comma {α : Type} (l : List α) : List (Token σ ν) := if l = [] then [] else [.comma]

/-- The tokens in front of the value. -/
def Context.tokens : Context σ ν → List (Token σ ν)
  | hole => []
  | item outer items => outer.tokens ++ .arrayStart :: (itemTokens false items ++ comma items)
  | member outer members k =>
    outer.tokens ++ .objectStart :: (memberTokens false members ++ comma members ++ [.string k, .colon])

/-- The tokens that close the containers, if nothing else comes. -/
def Context.closing : Context σ ν → List (Token σ ν)
  | hole => []
  | item outer _ => .arrayEnd :: outer.closing
  | member outer _ _ => .objectEnd :: outer.closing

/-- The document with the value in its place. -/
def Context.plug : Context σ ν → Tree σ ν → Tree σ ν
  | hole, t => t
  | item outer items, t => outer.plug (.array (items ++ [t]))
  | member outer members k, t => outer.plug (.object (members ++ [(k, t)]))

/-- Where the value leaves the writer. -/
def Context.done : Context σ ν → Tree σ ν → Position σ ν
  | hole, t => .ended t
  | item outer items, t => .array outer (items ++ [t])
  | member outer members k, t => .object outer (members ++ [(k, t)])

def Position.tokens : Position σ ν → List (Token σ ν)
  | start => []
  | ended t => t.tokens
  | array outer items => outer.tokens ++ .arrayStart :: itemTokens false items
  | object outer members => outer.tokens ++ .objectStart :: memberTokens false members
  | key outer members k =>
    outer.tokens ++ .objectStart :: (memberTokens false members ++ comma members ++ [.string k, .colon])

/-- The place of the next value, where one may come. -/
def Position.context : Position σ ν → Option (Context σ ν)
  | start => some .hole
  | array outer items => some (.item outer items)
  | key outer members k => some (.member outer members k)
  | ended _ | object _ _ => none

/-- The comma in front of the next value. -/
def Position.separator : Position σ ν → List (Token σ ν)
  | array _ items => comma items
  | _ => []

theorem itemTokens_snoc (sep : Bool) (l : List (Tree σ ν)) (t : Tree σ ν) :
    itemTokens sep (l ++ [t]) =
      itemTokens sep l ++ ((if sep then [.comma] else []) ++ if sep then t.tokens else comma l ++ t.tokens) := by
  induction l generalizing sep with
  | nil => cases sep <;> simp [itemTokens, comma]
  | cons u l ih => cases sep <;> simp [itemTokens, ih true, comma]

theorem memberTokens_snoc (sep : Bool) (l : List (σ × Tree σ ν)) (k : σ) (t : Tree σ ν) :
    memberTokens sep (l ++ [(k, t)]) =
      memberTokens sep l ++ ((if sep then [.comma] else []) ++
        if sep then .string k :: .colon :: t.tokens else comma l ++ .string k :: .colon :: t.tokens) := by
  induction l generalizing sep with
  | nil => cases sep <;> simp [memberTokens, comma]
  | cons m l ih => cases sep <;> simp [memberTokens, ih true, comma]

theorem Context.plug_tokens (c : Context σ ν) (t : Tree σ ν) : (c.plug t).tokens = c.tokens ++ (t.tokens ++ c.closing) := by
  induction c generalizing t with
  | hole => simp [plug, tokens, closing]
  | item outer items ih => simp [plug, ih, tokens, closing, Tree.tokens, itemTokens_snoc]
  | member outer members k ih => simp [plug, ih, tokens, closing, Tree.tokens, memberTokens_snoc]

theorem Context.done_tokens (c : Context σ ν) (t : Tree σ ν) : (c.done t).tokens = c.tokens ++ t.tokens := by
  cases c with
  | hole => rfl
  | item outer items => simp [done, Position.tokens, tokens, itemTokens_snoc]
  | member outer members k => simp [done, Position.tokens, tokens, memberTokens_snoc]

theorem Position.context_tokens {p : Position σ ν} {c : Context σ ν} (h : p.context = some c) :
    c.tokens = p.tokens ++ p.separator := by
  cases p with
  | start => cases h; rfl
  | ended t => cases h
  | array outer items => cases h; simp [Context.tokens, tokens, separator]
  | object outer members => cases h
  | key outer members k => cases h; simp [Context.tokens, tokens, separator]

/-- The tokens up to a position begin a document, and more comes unless it is the end. -/
theorem Position.completed (p : Position σ ν) :
    ∃ (t : Tree σ ν) (rest : List (Token σ ν)), t.tokens = p.tokens ++ rest ∧ (rest = [] → ∃ t, p = .ended t) := by
  cases p with
  | start =>
    exact ⟨.null, [.null], rfl, fun h => by simp at h⟩
  | ended t => exact ⟨t, [], (List.append_nil _).symm, fun _ => ⟨t, rfl⟩⟩
  | array outer items =>
    refine ⟨outer.plug (.array items), .arrayEnd :: outer.closing, ?_, fun h => by simp at h⟩
    simp [Context.plug_tokens, Tree.tokens, tokens]
  | object outer members =>
    refine ⟨outer.plug (.object members), .objectEnd :: outer.closing, ?_, fun h => by simp at h⟩
    simp [Context.plug_tokens, Tree.tokens, tokens]
  | key outer members k =>
    refine ⟨outer.plug (.object (members ++ [(k, .null)])), .null :: .objectEnd :: outer.closing, ?_, fun h => by simp at h⟩
    simp [Context.plug_tokens, Tree.tokens, tokens, memberTokens_snoc]

/-- A document is complete at its end only. -/
theorem Position.isDocument_iff (p : Position σ ν) : IsDocument p.tokens ↔ ∃ t, p = .ended t := by
  constructor
  · rintro ⟨t, ht⟩
    obtain ⟨u, rest, hu, hrest⟩ := p.completed
    -- the document that goes on is the one that is there
    rw [ht] at hu
    have hsame := Tree.tokens_inj u t ((List.append_nil _).trans hu)
    exact hrest hsame.2.symm
  · rintro ⟨t, rfl⟩
    exact ⟨t, rfl⟩

end Json
