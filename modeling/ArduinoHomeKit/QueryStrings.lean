import Mathlib.Data.List.Find
import Mathlib.Data.Nat.Find
import ArduinoHomeKit.QueryParams
import ArduinoHomeKit.Tlv

/-! query_params_parse on any string: when its scan leaves the string behind, and the parameters
that it reads off a well-formed query. -/

namespace ArduinoHomeKit

variable {s : Nat → UInt8} {stop : UInt8 → Bool} {n pos i next fuel : Nat} {params : List QueryParam}

/-- The memory holds a string whose terminating NUL is at `n`. -/
structure IsString (s : Nat → UInt8) (n : Nat) : Prop where
  terminated : s n = 0
  inner : ∀ k < n, s k ≠ 0

/-! The scans. -/

theorem scanTo_eq {d : Nat} (hstop : stop (s (pos + d)) = true) (hrun : ∀ k < d, stop (s (pos + k)) = false)
    (hf : d < fuel) : scanTo stop s fuel pos = .ok (pos + d) := by
  induction d generalizing pos fuel with
  | zero =>
    obtain ⟨fuel, rfl⟩ : ∃ k, fuel = k + 1 := ⟨fuel - 1, by omega⟩
    rw [Nat.add_zero] at hstop
    rw [scanTo, if_pos hstop, Nat.add_zero]
  | succ d ih =>
    obtain ⟨fuel, rfl⟩ : ∃ k, fuel = k + 1 := ⟨fuel - 1, by omega⟩
    have hfirst : stop (s pos) = false := hrun 0 (Nat.succ_pos d)
    have hnext : pos + 1 + d = pos + (d + 1) := by omega
    rw [scanTo, if_neg (by simp [hfirst]), ih (hnext ▸ hstop) (fun k hk => ?_) (by omega), hnext]
    have hk' : pos + 1 + k = pos + (k + 1) := by omega
    rw [hk']
    exact hrun (k + 1) (by omega)

/-- A scan that stops at `i`. -/
structure Scan (stop : UInt8 → Bool) (s : Nat → UInt8) (pos i : Nat) : Prop where
  le : pos ≤ i
  run : ∀ k, pos ≤ k → k < i → stop (s k) = false
  stop : stop (s i) = true

theorem Scan.scanTo (h : Scan stop s pos i) (hf : i < pos + fuel) : scanTo stop s fuel pos = .ok i := by
  obtain ⟨d, rfl⟩ := Nat.exists_eq_add_of_le h.le
  exact scanTo_eq h.stop (fun k hk => h.run (pos + k) (by omega) (by omega)) (by omega)

theorem scan_of_scanTo (h : scanTo stop s fuel pos = .ok i) : Scan stop s pos i := by
  induction fuel generalizing pos with
  | zero => simp [scanTo] at h
  | succ fuel ih =>
    rw [scanTo] at h
    split at h
    · rename_i hstop
      obtain rfl := Except.ok.inj h
      exact ⟨Nat.le_refl pos, fun k h1 h2 => by omega, hstop⟩
    · rename_i hstop
      have hrest := ih h
      refine ⟨Nat.le_of_succ_le hrest.le, fun k h1 h2 => ?_, hrest.stop⟩
      by_cases hk : k = pos
      · subst hk
        simpa using hstop
      · exact hrest.run k (by omega) h2

theorem Scan.unique {j : Nat} (h : Scan stop s pos i) (hj : Scan stop s pos j) : i = j := by
  rcases Nat.lt_trichotomy i j with hlt | heq | hlt
  · exact absurd h.stop (by simp [hj.run i h.le hlt])
  · exact heq
  · exact absurd hj.stop (by simp [h.run j hj.le hlt])

/-- A scan that stops at the NUL stays inside the string. -/
theorem IsString.scan (hs : IsString s n) (h0 : stop 0 = true) (hp : pos ≤ n) :
    ∃ i, Scan stop s pos i ∧ i ≤ n := by
  have hex : ∃ d, stop (s (pos + d)) = true := ⟨n - pos, by rw [Nat.add_sub_cancel' hp, hs.terminated, h0]⟩
  have hle : Nat.find hex ≤ n - pos := Nat.find_min' hex (by rw [Nat.add_sub_cancel' hp, hs.terminated, h0])
  refine ⟨pos + Nat.find hex, ⟨by omega, fun k hk hlt => ?_, Nat.find_spec hex⟩, by omega⟩
  obtain ⟨d, rfl⟩ := Nat.exists_eq_add_of_le hk
  have hmin := Nat.find_min hex (show d < Nat.find hex by omega)
  simpa using hmin

theorem endsValue_endsName {b : UInt8} (h : endsValue b = true) : endsName b = true := by
  simp only [endsValue, endsName, Bool.or_eq_true] at h ⊢
  rcases h with (h | h) | h
  · exact Or.inl (Or.inl (Or.inl h))
  · exact Or.inl (Or.inr h)
  · exact Or.inr h

theorem endsValue_of_endsName {b : UInt8} (h : endsName b = true) (he : b ≠ 61) : endsValue b = true := by
  simp only [endsValue, endsName, Bool.or_eq_true, beq_iff_eq] at h ⊢
  rcases h with ((h | h) | h) | h
  · exact Or.inl (Or.inl h)
  · exact absurd h he
  · exact Or.inl (Or.inr h)
  · exact Or.inr h

theorem not_endsValue {b : UInt8} (h : endsName b = false) : endsValue b = false := by
  by_contra he
  rw [Bool.not_eq_false] at he
  simp [endsValue_endsName he] at h

/-! One round. -/

theorem queryParamsLoop_skip (h : endsName (s pos) = true) (hf : 0 < fuel) :
    queryParamsLoop s (fuel + 1) pos params = queryParamsLoop s fuel (pos + 1) params := by
  have hscan : Scan endsName s pos pos := ⟨Nat.le_refl pos, fun k h1 h2 => by omega, h⟩
  rw [queryParamsLoop, hscan.scanTo (by omega)]
  exact if_pos rfl

theorem paramValue_none (h : s i ≠ 61) : paramValue s fuel i = .ok (none, i) := if_neg h

theorem paramValue_some (h : s i = 61) (hscan : Scan endsValue s (i + 1) next) (hf : next < i + 1 + fuel) :
    paramValue s fuel i = .ok (if next = i + 1 then none else some (substring s (i + 1) next), next) := by
  rw [paramValue, if_pos h, hscan.scanTo hf]
  rfl

/-- The parameter is read, and the delimiter behind it decides. -/
theorem queryParamsLoop_param {value : Option Bytes} (hi : pos < i) (hscan : Scan endsName s pos i)
    (hv : paramValue s fuel i = .ok (value, next)) (hf : i < pos + fuel) :
    queryParamsLoop s (fuel + 1) pos params =
      if s next = 0 ∨ s next = 35 then .ok ({ name := substring s pos i, value := value } :: params)
      else queryParamsLoop s fuel next ({ name := substring s pos i, value := value } :: params) := by
  have hne : i ≠ pos := by omega
  rw [queryParamsLoop, hscan.scanTo hf]
  simp only [if_neg hne, hv]

/-! The bytes that are read. -/

section Reads

def scanReads (stop : UInt8 → Bool) (s : Nat → UInt8) : Nat → Nat → List Nat
  | 0, _ => []
  | fuel + 1, i => i :: if stop (s i) then [] else scanReads stop s fuel (i + 1)

/-- The scan for the name, its copy, the test for a value with its scan and copy, and the test at
the end. -/
def queryParamsReads (s : Nat → UInt8) : Nat → Nat → List Nat
  | 0, _ => []
  | fuel + 1, pos =>
    scanReads endsName s fuel pos ++
      match scanTo endsName s fuel pos with
      | .error _ => []
      | .ok i =>
        if i = pos then queryParamsReads s fuel (i + 1)
        else
          List.range' pos (i - pos) ++
            (i :: if s i = 61 then scanReads endsValue s fuel (i + 1) else []) ++
              match paramValue s fuel i with
              | .error _ => []
              | .ok (_, next) =>
                List.range' (i + 1) (next - (i + 1)) ++
                  next :: if s next = 0 ∨ s next = 35 then [] else queryParamsReads s fuel next

/-- The parse comes to an end, and reads nothing behind the NUL. -/
structure StaysInside (s : Nat → UInt8) (n : Nat) : Prop where
  terminates : ∃ fuel params, queryParamsLoop s fuel 0 [] = .ok params
  inside : ∀ fuel, ∀ k ∈ queryParamsReads s fuel 0, k ≤ n

/-- From `pos` on, some byte that can stand in a name is followed by the end of the string or a
'#' before the next '&'. -/
def EndsInParam (s : Nat → UInt8) (n pos : Nat) : Prop :=
  ∃ b e, pos ≤ b ∧ b < e ∧ e ≤ n ∧ endsName (s b) = false ∧
    (∀ k, b < k → k < e → endsValue (s k) = false) ∧ (s e = 0 ∨ s e = 35)

theorem Scan.reads (h : Scan stop s pos i) (fuel : Nat) : ∀ k ∈ scanReads stop s fuel pos, k ≤ i := by
  obtain ⟨d, rfl⟩ := Nat.exists_eq_add_of_le h.le
  induction fuel generalizing pos d with
  | zero => simp [scanReads]
  | succ fuel ih =>
    rw [scanReads, List.forall_mem_cons]
    refine ⟨by omega, ?_⟩
    by_cases hd : d = 0
    · subst hd
      rw [Nat.add_zero] at h
      simp [h.stop]
    · rw [if_neg (by simp [h.run pos (Nat.le_refl pos) (by omega)])]
      have hrest : pos + 1 + (d - 1) = pos + d := by omega
      rw [← hrest]
      exact ih _ ⟨by omega, fun k hk hlt => h.run k (by omega) (by omega), hrest ▸ h.stop⟩

theorem mem_scanReads_self (hf : 0 < fuel) : pos ∈ scanReads stop s fuel pos := by
  obtain ⟨fuel, rfl⟩ : ∃ k, fuel = k + 1 := ⟨fuel - 1, by omega⟩
  simp [scanReads]

/-- A parameter: its name ends at `i`, and the value behind it, if there is one, at `next`. -/
structure ParamAt (s : Nat → UInt8) (pos i next : Nat) : Prop where
  nonempty : pos < i
  name : Scan endsName s pos i
  value : (s i ≠ 61 ∧ next = i) ∨ (s i = 61 ∧ Scan endsValue s (i + 1) next)

theorem ParamAt.le (h : ParamAt s pos i next) : i ≤ next := by
  rcases h.value with ⟨_, rfl⟩ | ⟨_, hv⟩
  · exact Nat.le_refl next
  · exact Nat.le_of_succ_le hv.le

theorem ParamAt.ends (h : ParamAt s pos i next) : endsValue (s next) = true := by
  rcases h.value with ⟨he, rfl⟩ | ⟨_, hv⟩
  · exact endsValue_of_endsName h.name.stop he
  · exact hv.stop

/-- No '&' and no '#' in the whole of it. -/
theorem ParamAt.run (h : ParamAt s pos i next) : ∀ k, pos ≤ k → k < next → endsValue (s k) = false := by
  intro k hk hlt
  rcases Nat.lt_trichotomy k i with hki | rfl | hki
  · exact not_endsValue (h.name.run k hk hki)
  · rcases h.value with ⟨_, rfl⟩ | ⟨he, _⟩
    · omega
    · rw [he]
      rfl
  · rcases h.value with ⟨_, rfl⟩ | ⟨_, hv⟩
    · omega
    · exact hv.run k hki hlt

theorem ParamAt.paramValue (h : ParamAt s pos i next) (hf : next < pos + fuel) :
    ∃ v, paramValue s fuel i = .ok (v, next) := by
  have hlt := h.nonempty
  rcases h.value with ⟨he, rfl⟩ | ⟨he, hv⟩
  · exact ⟨none, paramValue_none he⟩
  · exact ⟨_, paramValue_some he hv (by omega)⟩

/-- With less fuel the value is not read, or read to the same end. -/
theorem ParamAt.paramValue_end (h : ParamAt s pos i next) {v : Option Bytes} {j : Nat}
    (hv : ArduinoHomeKit.paramValue s fuel i = .ok (v, j)) : j = next := by
  unfold ArduinoHomeKit.paramValue at hv
  rcases h.value with ⟨he, rfl⟩ | ⟨he, hscan⟩
  · rw [if_neg he] at hv
    exact (Prod.mk.inj (Except.ok.inj hv)).2.symm
  · rw [if_pos he] at hv
    cases hs : scanTo endsValue s fuel (i + 1) with
    | error e => simp [hs, Except.map] at hv
    | ok m =>
      simp only [hs, Except.map, Except.ok.injEq, Prod.mk.injEq] at hv
      rw [← hv.2]
      exact (scan_of_scanTo hs).unique hscan

/-- In a string a round either skips a delimiter or reads a parameter. -/
theorem IsString.round (hs : IsString s n) (hp : pos ≤ n) :
    endsName (s pos) = true ∨ ∃ i next, ParamAt s pos i next ∧ next ≤ n := by
  obtain ⟨i, hscan, hi⟩ := @IsString.scan s endsName n pos hs rfl hp
  by_cases hpos : i = pos
  · exact Or.inl (hpos ▸ hscan.stop)
  · have hlt : pos < i := by
      have := hscan.le
      omega
    refine Or.inr ⟨i, ?_⟩
    by_cases heq : s i = 61
    · have hin : i < n := by
        apply Nat.lt_of_le_of_ne hi
        intro he
        rw [he, hs.terminated] at heq
        simp at heq
      obtain ⟨next, hval, hn⟩ := @IsString.scan s endsValue n (i + 1) hs rfl hin
      exact ⟨next, ⟨hlt, hscan, Or.inr ⟨heq, hval⟩⟩, hn⟩
    · exact ⟨i, ⟨hlt, hscan, Or.inl ⟨heq, rfl⟩⟩, hi⟩

/-- A round reads a parameter up to its end, and goes on there unless the query is over. -/
theorem ParamAt.reads_le (h : ParamAt s pos i next) (hn : next ≤ n) {fuel : Nat}
    (hrest : ¬ (s next = 0 ∨ s next = 35) → ∀ k ∈ queryParamsReads s fuel next, k ≤ n) :
    ∀ k ∈ queryParamsReads s (fuel + 1) pos, k ≤ n := by
  have hin : i ≤ n := Nat.le_trans h.le hn
  rw [queryParamsReads, List.forall_mem_append]
  refine ⟨fun k hk => Nat.le_trans (h.name.reads fuel k hk) hin, ?_⟩
  split
  · simp
  · rename_i j hj
    obtain rfl : i = j := h.name.unique (scan_of_scanTo hj)
    rw [if_neg (by have := h.nonempty; omega), List.forall_mem_append, List.forall_mem_append, List.forall_mem_cons]
    refine ⟨⟨fun k hk => ?_, hin, ?_⟩, ?_⟩
    · rw [List.mem_range'_1] at hk
      omega
    · rcases h.value with ⟨he, _⟩ | ⟨he, hv⟩
      · simp [he]
      · rw [if_pos he]
        exact fun k hk => Nat.le_trans (hv.reads fuel k hk) hn
    · split
      · simp
      · rename_i v m hv
        obtain rfl := h.paramValue_end hv
        rw [List.forall_mem_append, List.forall_mem_cons]
        refine ⟨fun k hk => ?_, hn, ?_⟩
        · rw [List.mem_range'_1] at hk
          omega
        · split
          · simp
          · rename_i hgo
            exact hrest hgo

/-- What the rest of the query reads is read. -/
theorem ParamAt.mem_reads (h : ParamAt s pos i next) (hf : next < pos + fuel) (hgo : ¬ (s next = 0 ∨ s next = 35))
    {k : Nat} (hk : k ∈ queryParamsReads s fuel next) : k ∈ queryParamsReads s (fuel + 1) pos := by
  obtain ⟨v, hv⟩ := h.paramValue hf
  have hle := h.le
  have hne : ¬ i = pos := by
    have := h.nonempty
    omega
  rw [queryParamsReads, h.name.scanTo (by omega)]
  simp only [if_neg hne, hv, if_neg hgo, List.mem_append, List.mem_cons]
  exact Or.inr (Or.inr (Or.inr (Or.inr hk)))

theorem queryParamsReads_skip (h : endsName (s pos) = true) (hf : 0 < fuel) :
    queryParamsReads s (fuel + 1) pos = pos :: queryParamsReads s fuel (pos + 1) := by
  have hscan : Scan endsName s pos pos := ⟨Nat.le_refl pos, fun k h1 h2 => by omega, h⟩
  rw [queryParamsReads, hscan.scanTo (by omega)]
  obtain ⟨fuel, rfl⟩ : ∃ k, fuel = k + 1 := ⟨fuel - 1, by omega⟩
  simp [scanReads, h]

/-! When the parse stays inside. -/

theorem EndsInParam.skip (h : endsName (s pos) = true) : EndsInParam s n pos ↔ EndsInParam s n (pos + 1) := by
  constructor
  · rintro ⟨b, e, hb, hbe, hen, hname, hrun, hend⟩
    have hne : b ≠ pos := fun he => by simp [he, h] at hname
    exact ⟨b, e, by omega, hbe, hen, hname, hrun, hend⟩
  · rintro ⟨b, e, hb, hbe, hen, hname, hrun, hend⟩
    exact ⟨b, e, by omega, hbe, hen, hname, hrun, hend⟩

theorem EndsInParam.param (h : ParamAt s pos i next) (hn : next ≤ n) :
    EndsInParam s n pos ↔ (s next = 0 ∨ s next = 35) ∨ EndsInParam s n next := by
  have hle := h.le
  have hlt := h.nonempty
  constructor
  · rintro ⟨b, e, hb, hbe, hen, hname, hrun, hend⟩
    by_cases hbn : b < next
    · have he : e ≤ next := by
        by_contra hgt
        have := hrun next hbn (by omega)
        simp [h.ends] at this
      rcases Nat.lt_or_eq_of_le he with hlt' | rfl
      · have hinner := h.run e (by omega) hlt'
        rcases hend with hz | hz <;> simp [hz, endsValue] at hinner
      · exact Or.inl hend
    · exact Or.inr ⟨b, e, by omega, hbe, hen, hname, hrun, hend⟩
  · rintro (hend | ⟨b, e, hb, hbe, hen, hname, hrun, hend⟩)
    · exact ⟨pos, next, Nat.le_refl pos, by omega, hn, h.name.run pos (Nat.le_refl pos) hlt,
        fun k h1 h2 => h.run k (by omega) h2, hend⟩
    · exact ⟨b, e, by omega, hbe, hen, hname, hrun, hend⟩

/-- The induction is on what is left of the string. -/
theorem EndsInParam.inside (hs : IsString s n) (hp : pos ≤ n) (h : EndsInParam s n pos) :
    (∀ fuel, n + 2 ≤ pos + fuel → ∀ params, ∃ result, queryParamsLoop s fuel pos params = .ok result) ∧
      ∀ fuel, ∀ k ∈ queryParamsReads s fuel pos, k ≤ n := by
  induction hm : n - pos using Nat.strong_induction_on generalizing pos with
  | _ m ih =>
    subst hm
    rcases hs.round hp with hskip | ⟨i, next, hparam, hn⟩
    · have hrest := (EndsInParam.skip hskip).mp h
      have hlt : pos < n := by
        obtain ⟨b, e, hb, hbe, hen, _⟩ := hrest
        omega
      obtain ⟨hok, hreads⟩ := ih (n - (pos + 1)) (by omega) hlt hrest rfl
      refine ⟨fun fuel hf params => ?_, fun fuel => ?_⟩
      · obtain ⟨fuel, rfl⟩ : ∃ k, fuel = k + 1 := ⟨fuel - 1, by omega⟩
        rw [queryParamsLoop_skip hskip (by omega)]
        exact hok fuel (by omega) params
      · match fuel with
        | 0 => simp [queryParamsReads]
        | 1 => simp [queryParamsReads, scanReads, scanTo]
        | fuel + 2 =>
          rw [queryParamsReads_skip hskip (Nat.succ_pos fuel), List.forall_mem_cons]
          exact ⟨hp, hreads (fuel + 1)⟩
    · have hlt := hparam.nonempty
      have hle := hparam.le
      have hrest := (EndsInParam.param hparam hn).mp h
      refine ⟨fun fuel hf params => ?_, fun fuel => ?_⟩
      · obtain ⟨fuel, rfl⟩ : ∃ k, fuel = k + 1 := ⟨fuel - 1, by omega⟩
        obtain ⟨v, hv⟩ := hparam.paramValue (show next < pos + fuel by omega)
        rw [queryParamsLoop_param hlt hparam.name hv (by omega)]
        split
        · exact ⟨_, rfl⟩
        · rename_i hgo
          exact (ih (n - next) (by omega) hn (hrest.resolve_left hgo) rfl).1 fuel (by omega) _
      · cases fuel with
        | zero => simp [queryParamsReads]
        | succ fuel =>
          exact hparam.reads_le hn (fun hgo => (ih (n - next) (by omega) hn (hrest.resolve_left hgo) rfl).2 fuel)

/-- Otherwise the skip passes the NUL. -/
theorem reads_behind_nul (hs : IsString s n) (hp : pos ≤ n) (h : ¬ EndsInParam s n pos) :
    ∀ fuel, n + 3 ≤ pos + fuel → n + 1 ∈ queryParamsReads s fuel pos := by
  induction hm : n - pos using Nat.strong_induction_on generalizing pos with
  | _ m ih =>
    subst hm
    intro fuel hf
    obtain ⟨fuel, rfl⟩ : ∃ k, fuel = k + 1 := ⟨fuel - 1, by omega⟩
    rcases hs.round hp with hskip | ⟨i, next, hparam, hn⟩
    · rw [queryParamsReads_skip hskip (by omega)]
      apply List.mem_cons_of_mem
      rcases Nat.lt_or_eq_of_le hp with hlt | rfl
      · exact ih (n - (pos + 1)) (by omega) hlt (fun hr => h ((EndsInParam.skip hskip).mpr hr)) rfl fuel (by omega)
      · obtain ⟨fuel, rfl⟩ : ∃ k, fuel = k + 1 := ⟨fuel - 1, by omega⟩
        rw [queryParamsReads]
        exact List.mem_append_left _ (mem_scanReads_self (by omega))
    · have hlt := hparam.nonempty
      have hle := hparam.le
      have hrest : ¬ ((s next = 0 ∨ s next = 35) ∨ EndsInParam s n next) := fun hr =>
        h ((EndsInParam.param hparam hn).mpr hr)
      rw [not_or] at hrest
      exact hparam.mem_reads (by omega) hrest.1
        (ih (n - next) (by omega) hn hrest.2 rfl fuel (by omega))

/-- The parse of a string stays inside exactly if a parameter closes the query. -/
theorem staysInside_iff (s : Nat → UInt8) (n : Nat) (hs : IsString s n) : StaysInside s n ↔ EndsInParam s n 0 := by
  constructor
  · intro h
    by_contra hnot
    have hmem := reads_behind_nul hs (Nat.zero_le n) hnot (n + 3) (by omega)
    have := h.inside _ _ hmem
    omega
  · intro h
    obtain ⟨hok, hreads⟩ := h.inside hs (Nat.zero_le n)
    obtain ⟨result, hr⟩ := hok (n + 2) (by omega) []
    exact ⟨⟨n + 2, result, hr⟩, hreads⟩

theorem staysInside_id : StaysInside (bufferOf (ascii "id=1.2" ++ [0]) (fun _ => 0)) 6 :=
  (staysInside_iff _ 6 ⟨by decide +kernel, by decide +kernel⟩).mpr
    ⟨5, 6, by decide, by decide, Nat.le_refl 6, by decide +kernel, fun k h1 h2 => by omega, Or.inl (by decide +kernel)⟩

/-- The scan of an empty query passes its NUL. -/
theorem empty_query_overrun : ¬ ∀ s n, IsString s n → StaysInside s n := by
  intro h
  have hs : IsString (fun _ => 0) 0 := ⟨rfl, fun k hk => absurd hk (Nat.not_lt_zero k)⟩
  have := (h (fun _ => 0) 0 hs).inside 3 1 (by decide)
  omega

end Reads

/-! Well-formed queries. -/

section RoundTrip

/-- A name with no delimiter in it, and a value, if there is one, that may hold a '='. -/
structure QueryParam.WellFormed (p : QueryParam) : Prop where
  name_ne : p.name ≠ []
  name : ∀ b ∈ p.name, endsName b = false
  value_ne : p.value ≠ some []
  value : ∀ v, p.value = some v → ∀ b ∈ v, endsValue b = false

/-- name or name=value. -/
def QueryParam.text (p : QueryParam) : Bytes :=
  p.name ++ match p.value with
    | none => []
    | some v => 61 :: v

/-- The texts that render a list of parameters: any number of '&' stand between two of them, and a
'#' with any text may follow the last. -/
inductive Renders : List QueryParam → Bytes → Prop
  | last (p : QueryParam) (fragment : Bytes) (h : fragment = [] ∨ fragment.head? = some 35) :
    Renders [p] (p.text ++ fragment)
  | join (p : QueryParam) (k : Nat) {params : List QueryParam} {text : Bytes} (h : Renders params text) :
    Renders (p :: params) (p.text ++ List.replicate (k + 1) 38 ++ text)

/-- The text lies in memory from `pos` on. -/
def LiesAt (s : Nat → UInt8) (pos : Nat) (text : Bytes) : Prop := ∀ k (h : k < text.length), s (pos + k) = text[k]

theorem LiesAt.append {a b : Bytes} : LiesAt s pos (a ++ b) ↔ LiesAt s pos a ∧ LiesAt s (pos + a.length) b := by
  constructor
  · intro h
    refine ⟨fun k hk => ?_, fun k hk => ?_⟩
    · rw [h k (by rw [List.length_append]; omega), List.getElem_append_left hk]
    · have hk' : a.length + k < (a ++ b).length := by
        rw [List.length_append]
        omega
      rw [Nat.add_assoc, h (a.length + k) hk', List.getElem_append_right (by omega)]
      simp only [Nat.add_sub_cancel_left]
  · rintro ⟨ha, hb⟩ k hk
    rw [List.length_append] at hk
    by_cases hka : k < a.length
    · rw [ha k hka, List.getElem_append_left hka]
    · obtain ⟨d, rfl⟩ := Nat.exists_eq_add_of_le (Nat.le_of_not_lt hka)
      rw [← Nat.add_assoc, hb d (by omega), List.getElem_append_right (by omega)]
      simp only [Nat.add_sub_cancel_left]

theorem LiesAt.substring {text : Bytes} (h : LiesAt s pos text) : substring s pos (pos + text.length) = text := by
  rw [ArduinoHomeKit.substring, Nat.add_sub_cancel_left]
  apply List.ext_getElem (by simp)
  intro k h1 h2
  simp [h k h2]

/-- A text without the delimiters of a scan, and one behind it. -/
theorem LiesAt.scan {text : Bytes} (h : LiesAt s pos text) (hrun : ∀ b ∈ text, stop b = false)
    (hstop : stop (s (pos + text.length)) = true) : Scan stop s pos (pos + text.length) := by
  refine ⟨Nat.le_add_right _ _, fun k hk hlt => ?_, hstop⟩
  obtain ⟨d, rfl⟩ := Nat.exists_eq_add_of_le hk
  have hd : d < text.length := by omega
  rw [h d hd]
  exact hrun _ (List.getElem_mem hd)

theorem QueryParam.length_text_pos {p : QueryParam} (h : p.WellFormed) : 0 < p.text.length := by
  have := List.length_pos_iff.mpr h.name_ne
  rw [text, List.length_append]
  omega

/-- A parameter is read as it was written. -/
theorem QueryParam.WellFormed.loop {p : QueryParam} (h : p.WellFormed) (hat : LiesAt s pos p.text)
    (hend : endsValue (s (pos + p.text.length)) = true) (hf : p.text.length < fuel) :
    queryParamsLoop s (fuel + 1) pos params =
      if s (pos + p.text.length) = 0 ∨ s (pos + p.text.length) = 35 then .ok (p :: params)
      else queryParamsLoop s fuel (pos + p.text.length) (p :: params) := by
  obtain ⟨name, value⟩ := p
  have hne : 0 < name.length := List.length_pos_iff.mpr h.name_ne
  obtain ⟨hname, hvalue⟩ := LiesAt.append.mp hat
  dsimp only at hname hvalue
  cases value with
  | none =>
    simp only [text, List.append_nil] at hend hf ⊢
    have hscan := hname.scan h.name (endsValue_endsName hend)
    have hdelim : s (pos + name.length) ≠ 61 := fun he => by simp [he, endsValue] at hend
    have hloop := @queryParamsLoop_param s pos (pos + name.length) _ fuel params none (by omega) hscan
      (paramValue_none hdelim) (by omega)
    rw [hname.substring] at hloop
    exact hloop
  | some v =>
    have hlen : (QueryParam.text ⟨name, some v⟩).length = name.length + 1 + v.length := by
      change (name ++ 61 :: v).length = _
      rw [List.length_append, List.length_cons]
      omega
    have hv : 0 < v.length := List.length_pos_iff.mpr (fun he => h.value_ne (he ▸ rfl))
    have heq : s (pos + name.length) = 61 := hvalue 0 (Nat.succ_pos _)
    have hbody : LiesAt s (pos + name.length + 1) v := ((@LiesAt.append s _ [61] v).mp hvalue).2
    have hnext : pos + (name.length + 1 + v.length) = pos + name.length + 1 + v.length := by omega
    rw [hlen] at hf hend ⊢
    rw [hnext] at hend ⊢
    have hval := hbody.scan (h.value v rfl) hend
    have hscan := hname.scan h.name (show endsName (s (pos + name.length)) = true by rw [heq]; rfl)
    have hpv := paramValue_some heq hval (show pos + name.length + 1 + v.length < pos + name.length + 1 + fuel by omega)
    rw [if_neg (by omega), hbody.substring] at hpv
    have hloop := @queryParamsLoop_param s pos (pos + name.length) _ fuel params (some v) (by omega) hscan hpv (by omega)
    rw [hname.substring] at hloop
    exact hloop

/-- The delimiters between two parameters are skipped. -/
theorem queryParamsLoop_skips {k : Nat} (h : LiesAt s pos (List.replicate k 38)) (hf : 0 < fuel) :
    queryParamsLoop s (fuel + k) pos params = queryParamsLoop s fuel (pos + k) params := by
  induction k generalizing pos with
  | zero => rfl
  | succ k ih =>
    have hfirst : s pos = 38 := by
      have := h 0 (by simp)
      simpa using this
    have hrest : LiesAt s (pos + 1) (List.replicate k 38) := by
      intro d hd
      have := h (d + 1) (by simpa using hd)
      rw [List.getElem_replicate] at this ⊢
      rw [← this]
      congr 1
      omega
    have hfuel : fuel + (k + 1) = fuel + k + 1 := by omega
    rw [hfuel, queryParamsLoop_skip (by rw [hfirst]; rfl) (by omega), ih hrest]
    congr 1
    omega

/-- The induction is on the parameters; the last one of the text comes to the head of the list. -/
theorem Renders.loop {text : Bytes} (h : Renders params text) (hwf : ∀ p ∈ params, p.WellFormed)
    (hat : LiesAt s pos text) (hnul : s (pos + text.length) = 0) (hf : text.length + 2 ≤ fuel)
    (acc : List QueryParam) : queryParamsLoop s fuel pos acc = .ok (params.reverse ++ acc) := by
  induction h generalizing pos fuel acc with
  | last p fragment hfragment =>
    have hp := hwf p (List.mem_singleton_self p)
    obtain ⟨hat, hrest⟩ := LiesAt.append.mp hat
    rw [List.length_append] at hnul hf
    have hend : s (pos + p.text.length) = 0 ∨ s (pos + p.text.length) = 35 := by
      rcases hfragment with rfl | hhash
      · exact Or.inl hnul
      · cases fragment with
        | nil => simp at hhash
        | cons b rest =>
          obtain rfl := Option.some.inj hhash
          exact Or.inr (hrest 0 (Nat.succ_pos _))
    have hstop : endsValue (s (pos + p.text.length)) = true := by
      rcases hend with he | he <;> rw [he] <;> rfl
    obtain ⟨fuel, rfl⟩ : ∃ k, fuel = k + 1 := ⟨fuel - 1, by omega⟩
    rw [hp.loop hat hstop (by omega), if_pos hend]
    rfl
  | @join p k params text _ ih =>
    have hp := hwf p List.mem_cons_self
    have hpos := QueryParam.length_text_pos hp
    obtain ⟨hat, htext⟩ := LiesAt.append.mp hat
    obtain ⟨hat, hdelims⟩ := LiesAt.append.mp hat
    rw [List.length_append, List.length_append, List.length_replicate] at hnul hf
    rw [List.length_append, List.length_replicate] at htext
    have hamp : s (pos + p.text.length) = 38 := by
      have := hdelims 0 (by simp)
      simpa using this
    have hstop : endsValue (s (pos + p.text.length)) = true := by
      rw [hamp]
      rfl
    have hgo : ¬ (s (pos + p.text.length) = 0 ∨ s (pos + p.text.length) = 35) := by
      rw [hamp]
      decide
    obtain ⟨fuel, rfl⟩ : ∃ m, fuel = m + (k + 1) + 1 := ⟨fuel - (k + 2), by omega⟩
    have hnext : pos + (p.text.length + (k + 1)) = pos + p.text.length + (k + 1) := by omega
    rw [hnext] at htext
    rw [hp.loop hat hstop (by omega), if_neg hgo, queryParamsLoop_skips hdelims (by omega),
      ih (fun q hq => hwf q (List.mem_cons_of_mem p hq)) htext (by rw [← hnul]; congr 1; omega) (by omega),
      List.reverse_cons, List.append_assoc]
    rfl

/-- The first match in the list is the last one in the query. -/
theorem queryParamsFind_reverse (hwf : ∀ p ∈ params, p.WellFormed) (name : String) :
    queryParamsFind params.reverse name = (params.filter (fun p => p.name = ascii name)).getLast? := by
  have hdup : ∀ p ∈ params.reverse, (CString.strdup p.name == ascii name) = decide (p.name = ascii name) := by
    intro p hp
    have hp' := hwf p (List.mem_reverse.mp hp)
    have hself : CString.strdup p.name = p.name := by
      rw [CString.strdup, List.takeWhile_eq_self_iff]
      intro b hb
      have hb' := hp'.name b hb
      simp only [endsName, Bool.or_eq_false_iff] at hb'
      simpa using hb'.1.1.1
    rw [hself, beq_eq_decide]
  rw [queryParamsFind, List.getLast?_eq_head?_reverse, ← List.filter_reverse, List.head?_filter]
  exact List.find?_congr hdup

/-- A well-formed query is read back, in the other order, and a name is looked up at its last
occurrence. -/
theorem queryParams_roundTrip (text : Bytes) (behind : Nat → UInt8) (params : List QueryParam)
    (h : Renders params text) (hwf : ∀ p ∈ params, p.WellFormed) :
    (∀ fuel, text.length + 2 ≤ fuel →
        queryParamsLoop (bufferOf (text ++ [0]) behind) fuel 0 [] = .ok params.reverse) ∧
      ∀ name, queryParamsFind params.reverse name = (params.filter (fun p => p.name = ascii name)).getLast? := by
  have hat : LiesAt (bufferOf (text ++ [0]) behind) 0 (text ++ [0]) := by
    intro k hk
    rw [Nat.zero_add, bufferOf, if_pos hk, List.getD_eq_getElem?_getD, List.getElem?_eq_getElem hk]
    rfl
  obtain ⟨htext, hnul⟩ := LiesAt.append.mp hat
  refine ⟨fun fuel hf => ?_, queryParamsFind_reverse hwf⟩
  have hloop := h.loop hwf htext (hnul 0 Nat.one_pos) hf []
  rwa [List.append_nil] at hloop

theorem queryParams_roundTrip_id :
    (∀ fuel, 14 ≤ fuel → queryParamsLoop (bufferOf (ascii "id=1=2&&ev#&" ++ [0]) (fun _ => 65)) fuel 0 [] =
      .ok [⟨ascii "ev", none⟩, ⟨ascii "id", some (ascii "1=2")⟩]) ∧
    ∀ name, queryParamsFind [⟨ascii "ev", none⟩, ⟨ascii "id", some (ascii "1=2")⟩] name =
      ([⟨ascii "id", some (ascii "1=2")⟩, ⟨ascii "ev", none⟩].filter
        (fun p : QueryParam => p.name = ascii name)).getLast? := by
  have hid : QueryParam.WellFormed ⟨ascii "id", some (ascii "1=2")⟩ :=
    ⟨by decide +kernel, by decide +kernel, by decide +kernel, fun v hv => by
      obtain rfl := Option.some.inj hv
      decide +kernel⟩
  have hev : QueryParam.WellFormed ⟨ascii "ev", none⟩ :=
    ⟨by decide +kernel, by decide +kernel, by decide +kernel, fun v hv => by simp at hv⟩
  exact queryParams_roundTrip (ascii "id=1=2&&ev#&") (fun _ => 65) _
    (.join _ 1 (.last _ (ascii "#&") (Or.inr rfl)))
    (List.forall_mem_cons.mpr ⟨hid, List.forall_mem_singleton.mpr hev⟩)

end RoundTrip

end ArduinoHomeKit
