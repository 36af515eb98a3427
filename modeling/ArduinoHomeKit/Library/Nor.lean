import Mathlib.Data.List.Basic

/-! NOR flash: programming can only clear bits, erasing sets a whole region to 0xFF. -/

namespace Nor

abbrev Memory := Nat → UInt8

def read (m : Memory) (addr len : Nat) : List UInt8 :=
  (List.range len).map (fun i => m (addr + i))

def program (m : Memory) (addr : Nat) (data : List UInt8) : Memory := fun a =>
  if addr ≤ a ∧ a < addr + data.length then m a &&& data.getD (a - addr) 0 else m a

def erase (m : Memory) (addr len : Nat) : Memory := fun a =>
  if addr ≤ a ∧ a < addr + len then 0xFF else m a

/-- All bytes of the region are erased. -/
def Blank (m : Memory) (addr len : Nat) : Prop := ∀ i < len, m (addr + i) = 0xFF

@[simp] theorem length_read (m : Memory) (addr len : Nat) : (read m addr len).length = len := by
  simp [read]

theorem getElem_read (m : Memory) (addr len i : Nat) (h : i < (read m addr len).length) :
    (read m addr len)[i] = m (addr + i) := by
  simp [read]

theorem read_congr {m m' : Memory} {addr len : Nat} (h : ∀ i < len, m' (addr + i) = m (addr + i)) :
    read m' addr len = read m addr len :=
  List.map_congr_left (fun i hi => h i (List.mem_range.mp hi))

theorem read_eq_iff {m : Memory} {addr : Nat} {data : List UInt8} :
    read m addr data.length = data ↔ ∀ i (h : i < data.length), m (addr + i) = data[i] := by
  constructor
  · intro h i hi
    have := getElem_read m addr data.length i (by simpa using hi)
    simpa [h] using this.symm
  · intro h
    apply List.ext_getElem (by simp)
    intro i hi _
    rw [getElem_read]
    exact h i (by simpa using hi)

theorem program_outside {m : Memory} {addr a : Nat} {data : List UInt8}
    (h : a < addr ∨ addr + data.length ≤ a) : program m addr data a = m a := by
  have : ¬ (addr ≤ a ∧ a < addr + data.length) := by omega
  simp [program, this]

theorem program_inside {m : Memory} {addr i : Nat} {data : List UInt8} (h : i < data.length) :
    program m addr data (addr + i) = m (addr + i) &&& data[i] := by
  have hh : addr ≤ addr + i ∧ addr + i < addr + data.length := by omega
  have hi : addr + i - addr = i := by omega
  simp [program, hh.1, h, hi]

/-- Programming a blank region stores exactly the data. -/
theorem read_program_blank {m : Memory} {addr : Nat} {data : List UInt8}
    (h : Blank m addr data.length) : read (program m addr data) addr data.length = data := by
  rw [read_eq_iff]
  intro i hi
  rw [program_inside hi, h i hi]
  have : (0xFF : UInt8) &&& data[i] = data[i] := by
    apply UInt8.eq_of_toBitVec_eq
    simp only [UInt8.toBitVec_and]
    exact BitVec.allOnes_and
  exact this

/-- Programming zeros clears the region whatever it held. -/
theorem program_zeros {m : Memory} {addr len i : Nat} (h : i < len) :
    program m addr (List.replicate len 0) (addr + i) = 0 := by
  rw [program_inside (by simpa using h)]
  simp

theorem read_program_disjoint {m : Memory} {addr a len : Nat} {data : List UInt8}
    (h : a + len ≤ addr ∨ addr + data.length ≤ a) :
    read (program m addr data) a len = read m a len :=
  read_congr (fun i hi => program_outside (by omega))

theorem erase_outside {m : Memory} {addr len a : Nat} (h : a < addr ∨ addr + len ≤ a) : erase m addr len a = m a := by
  have : ¬ (addr ≤ a ∧ a < addr + len) := by omega
  simp only [erase, this, if_false]

theorem erase_inside {m : Memory} {addr len a : Nat} (h : addr ≤ a) (hh : a < addr + len) :
    erase m addr len a = 0xFF := by
  simp only [erase, h, hh, and_self, if_true]

/-- Erasing forgets what was programmed there. -/
theorem erase_program {m : Memory} {addr len a : Nat} {data : List UInt8} (h : addr ≤ a)
    (hh : a + data.length ≤ addr + len) : erase (program m a data) addr len = erase m addr len := by
  funext b
  by_cases hb : addr ≤ b ∧ b < addr + len
  · rw [erase_inside hb.1 hb.2, erase_inside hb.1 hb.2]
  · rw [erase_outside (by omega), erase_outside (by omega), program_outside (by omega)]

end Nor
