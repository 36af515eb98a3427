import Mathlib.Logic.Function.Basic
import ArduinoHomeKit.Library.Recent

/-! The record queue of cQueue.c. Used as it is for the events of a client, last in first
out and overwriting, it is a stack that keeps its newest records. -/

namespace ArduinoHomeKit

variable {ρ : Type}

inductive QueueType
  | fifo
  | lifo
  deriving DecidableEq

/-- Queue_t with its block of memory; a cell holds what it held before until it is written. -/
structure Queue (ρ : Type) where
  queue : Nat → ρ
  recNb : Nat
  impl : QueueType
  ovw : Bool
  inIdx : Nat
  outIdx : Nat
  cnt : Nat

def incIdx (idx stop start : Nat) : Nat := if idx < stop - 1 then idx + 1 else start

def decIdx (idx stop start : Nat) : Nat := if idx > start then idx - 1 else stop - 1

/-- q_init; the block that malloc returns is not cleared. -/
def qInit (block : Nat → ρ) (nbRecs : Nat) (type : QueueType) (overwrite : Bool) : Queue ρ where
  queue := block
  recNb := nbRecs
  impl := type
  ovw := overwrite
  inIdx := 0
  outIdx := 0
  cnt := 0

def Queue.isEmpty (q : Queue ρ) : Bool := q.cnt == 0

def Queue.isFull (q : Queue ρ) : Bool := q.cnt == q.recNb

def qPush (q : Queue ρ) (record : ρ) : Bool × Queue ρ :=
  if q.ovw = false ∧ q.isFull then (false, q)
  else
    let q' := { q with
      queue := Function.update q.queue q.inIdx record
      inIdx := incIdx q.inIdx q.recNb 0 }
    if q.isFull = false then (true, { q' with cnt := q.cnt + 1 })
    else if q.ovw then
      match q.impl with
      | .fifo => (true, { q' with outIdx := incIdx q.outIdx q.recNb 0 })
      -- the oldest record has been overwritten, there is nothing to do
      | .lifo => (true, q')
    else (true, q')

def qPop (q : Queue ρ) : Option (ρ × Queue ρ) :=
  if q.isEmpty then none
  else
    match q.impl with
    | .fifo =>
      some (q.queue q.outIdx, { q with outIdx := incIdx q.outIdx q.recNb 0, cnt := q.cnt - 1 })
    | .lifo =>
      let i := decIdx q.inIdx q.recNb 0
      some (q.queue i, { q with inIdx := i, cnt := q.cnt - 1 })

/-- The loop `while (q_pop(queue, &record))`: the records in the order they are popped. -/
def qDrain : Nat → Queue ρ → List ρ × Queue ρ
  | 0, q => ([], q)
  | fuel + 1, q =>
    match qPop q with
    | none => ([], q)
    | some (record, q) =>
      let r := qDrain fuel q
      (record :: r.1, r.2)

/-- The cell `i` records before the next one to be written, with one wrap. -/
def backIdx (n idx i : Nat) : Nat := if i < idx then idx - 1 - i else n + idx - 1 - i

theorem backIdx_lt {n idx i : Nat} (hn : idx < n) : backIdx n idx i < n := by
  rw [backIdx]
  split <;> omega

/-- What a push leaves in place: the cells behind the written one, except the one it wrote on. -/
theorem backIdx_incIdx_succ {n idx i : Nat} (hn : idx < n) (hi : i + 1 < n) :
    backIdx n (incIdx idx n 0) (i + 1) = backIdx n idx i ∧ backIdx n idx i ≠ idx := by
  simp only [backIdx, incIdx]
  split <;> split <;> split <;> omega

theorem backIdx_incIdx_zero {n idx : Nat} (hn : idx < n) : backIdx n (incIdx idx n 0) 0 = idx := by
  simp only [backIdx, incIdx]
  split <;> split <;> omega

theorem decIdx_eq_backIdx {n idx : Nat} (hn : idx < n) : decIdx idx n 0 = backIdx n idx 0 := by
  simp only [backIdx, decIdx]
  split <;> omega

theorem backIdx_decIdx {n idx i : Nat} (hn : idx < n) (hi : i + 1 < n) :
    backIdx n (decIdx idx n 0) i = backIdx n idx (i + 1) := by
  simp only [backIdx, decIdx]
  split <;> split <;> split <;> omega

/-- A last-in-first-out, overwriting queue of `n` records that holds `l`, newest first. -/
structure Stacked (n : Nat) (q : Queue ρ) (l : List ρ) : Prop where
  recNb : q.recNb = n
  impl : q.impl = .lifo
  ovw : q.ovw = true
  inIdx : q.inIdx < n
  cnt : q.cnt = l.length
  le : l.length ≤ n
  cells : ∀ i (hi : i < l.length), q.queue (backIdx n q.inIdx i) = l[i]

variable {n : Nat} {q : Queue ρ} {l : List ρ} {a : ρ}

theorem stacked_qInit (block : Nat → ρ) (hn : 0 < n) : Stacked n (qInit block n .lifo true) [] where
  recNb := rfl
  impl := rfl
  ovw := rfl
  inIdx := hn
  cnt := rfl
  le := Nat.zero_le n
  cells := fun i hi => absurd hi (Nat.not_lt_zero i)

theorem Stacked.isFull (h : Stacked n q l) : q.isFull = (l.length == n) := by
  rw [Queue.isFull, h.cnt, h.recNb]

theorem incIdx_lt {idx : Nat} (hn : idx < n) : incIdx idx n 0 < n := by
  rw [incIdx]
  split <;> omega

/-- The record goes on top; when the queue is full the record at the bottom is lost. -/
theorem Stacked.push (h : Stacked n q l) (a : ρ) : Stacked n (qPush q a).2 (Recent.keep n l a) := by
  have hcell : ∀ i (hi : i < (Recent.keep n l a).length),
      Function.update q.queue q.inIdx a (backIdx n (incIdx q.inIdx q.recNb 0) i) = (Recent.keep n l a)[i] := by
    intro i hi
    rw [h.recNb]
    cases i with
    | zero => simp [backIdx_incIdx_zero h.inIdx, Recent.keep]
    | succ i =>
      have hi' : i + 1 < n ∧ i < l.length := by
        simp only [Recent.keep, List.length_take, List.length_cons] at hi
        omega
      obtain ⟨hb, hne⟩ := backIdx_incIdx_succ h.inIdx hi'.1
      rw [hb, Function.update_of_ne hne, h.cells i hi'.2]
      simp [Recent.keep]
  have hlen : (Recent.keep n l a).length = if l.length = n then l.length else l.length + 1 := by
    have hle := h.le
    simp only [Recent.keep, List.length_take, List.length_cons]
    split <;> omega
  have hlt : incIdx q.inIdx q.recNb 0 < n := by
    rw [h.recNb]
    exact incIdx_lt h.inIdx
  by_cases hfull : l.length = n
  · have hq : (qPush q a).2 =
        { q with queue := Function.update q.queue q.inIdx a, inIdx := incIdx q.inIdx q.recNb 0 } := by
      simp [qPush, h.isFull, h.ovw, h.impl, hfull]
    rw [hq]
    exact ⟨h.recNb, h.impl, h.ovw, hlt, by simp [h.cnt, hlen, hfull], Recent.length_keep n l a, hcell⟩
  · have hq : (qPush q a).2 =
        { q with
          queue := Function.update q.queue q.inIdx a
          inIdx := incIdx q.inIdx q.recNb 0
          cnt := q.cnt + 1 } := by
      simp [qPush, h.isFull, h.ovw, hfull]
    rw [hq]
    exact ⟨h.recNb, h.impl, h.ovw, hlt, by simp [h.cnt, hlen, hfull], Recent.length_keep n l a, hcell⟩

theorem Stacked.pop_nil (h : Stacked n q []) : qPop q = none := by
  simp [qPop, Queue.isEmpty, h.cnt]

theorem Stacked.pop_cons (h : Stacked n q (a :: l)) : ∃ q', qPop q = some (a, q') ∧ Stacked n q' l := by
  have hlen : l.length + 1 ≤ n := h.le
  have hback := decIdx_eq_backIdx h.inIdx
  have htop : q.queue (decIdx q.inIdx n 0) = a := by
    rw [hback]
    exact h.cells 0 (Nat.succ_pos _)
  refine ⟨{ q with inIdx := decIdx q.inIdx n 0, cnt := q.cnt - 1 }, ?_, ?_⟩
  · simp [qPop, Queue.isEmpty, h.cnt, h.impl, h.recNb, htop]
  · exact {
      recNb := h.recNb
      impl := h.impl
      ovw := h.ovw
      inIdx := by
        show decIdx q.inIdx n 0 < n
        rw [hback]
        exact backIdx_lt h.inIdx
      cnt := by simp [h.cnt]
      le := by omega
      cells := by
        intro i hi
        show q.queue (backIdx n (decIdx q.inIdx n 0) i) = l[i]
        rw [backIdx_decIdx h.inIdx (by omega)]
        exact h.cells (i + 1) (Nat.succ_lt_succ hi) }

/-- Draining pops everything, newest first, and leaves an empty queue. -/
theorem Stacked.drain (h : Stacked n q l) {fuel : Nat} (hf : l.length ≤ fuel) :
    (qDrain fuel q).1 = l ∧ Stacked n (qDrain fuel q).2 [] := by
  induction l generalizing q fuel with
  | nil =>
    cases fuel with
    | zero => exact ⟨rfl, h⟩
    | succ fuel => simp [qDrain, h.pop_nil, h]
  | cons a l ih =>
    cases fuel with
    | zero => simp at hf
    | succ fuel =>
      obtain ⟨q', hq, hq'⟩ := h.pop_cons
      have hd := ih hq' (Nat.le_of_succ_le_succ hf)
      simp [qDrain, hq, hd]

/-- Every record of the block is changed where it lies. -/
theorem Stacked.map (h : Stacked n q l) (f : ρ → ρ) :
    Stacked n { q with queue := fun i => f (q.queue i) } (l.map f) where
  recNb := h.recNb
  impl := h.impl
  ovw := h.ovw
  inIdx := h.inIdx
  cnt := by simp [h.cnt]
  le := by simpa using h.le
  cells := by
    intro i hi
    rw [List.length_map] at hi
    rw [List.getElem_map, ← h.cells i hi]

end ArduinoHomeKit
