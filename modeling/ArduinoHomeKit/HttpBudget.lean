import ArduinoHomeKit.HttpSegments

/-! Bytes that are taken however they are cut. Every call counts the bytes of a header anew where
it finds a field or a value, so that a byte counts twice at most. -/

namespace ArduinoHomeKit.HttpMachine

variable {q : Core} {g g' : Parser} {ch : UInt8} {l : Local} {data rest beyond xs : Bytes} {ls : List Letter}

/-- The count behind a byte that is counted twice. -/
def charge (g : Parser) : Nat := if parsingHeader g.state then g.nread + 2 else g.nread

def guardedStep (ch : UInt8) (g : Parser) : Option (Parser × List Letter) :=
  if charge g ≤ httpMaxHeaderSize ∧ (g.state = .headerValue → isHeaderChar ch = true) then
    (byteStep ch g.toCore).bind (fun r =>
      if r.1.upgrade then none
      else some ({ toCore := r.1, nread := if .clearNread ∈ (onByte ch g.toCore).acts then 0 else charge g }, r.2))
  else none

def guardedPass (data : Bytes) (g : Parser) : Option (Parser × List Letter) := Transducer.run guardedStep data g

/-- What a guarded step says of its byte. -/
structure Guarded (ch : UInt8) (g g' : Parser) (ls : List Letter) : Prop where
  size : charge g ≤ httpMaxHeaderSize
  char : g.state = .headerValue → isHeaderChar ch = true
  step : byteStep ch g.toCore = some (g'.toCore, ls)
  upgrade : g'.upgrade = false
  nread : g'.nread = if .clearNread ∈ (onByte ch g.toCore).acts then 0 else charge g

theorem guardedStep_some (h : guardedStep ch g = some (g', ls)) : Guarded ch g g' ls := by
  unfold guardedStep at h
  by_cases hg : charge g ≤ httpMaxHeaderSize ∧ (g.state = .headerValue → isHeaderChar ch = true)
  · rw [if_pos hg] at h
    obtain ⟨⟨q, ls'⟩, hstep, hrest⟩ := Option.bind_eq_some_iff.mp h
    by_cases hup : q.upgrade = true
    · simp [hup] at hrest
    · rw [if_neg hup] at hrest
      obtain ⟨rfl, rfl⟩ := Prod.mk.inj (Option.some.inj hrest)
      exact ⟨hg.1, hg.2, hstep, by simpa using hup, rfl⟩
  · rw [if_neg hg] at h
    cases h

theorem guardedPass_cons (h : guardedPass (ch :: rest) g = some (g', ls)) :
    ∃ g1 ls1 ls2, guardedPass [ch] g = some (g1, ls1) ∧ Guarded ch g g1 ls1 ∧ guardedPass rest g1 = some (g', ls2) ∧
      ls = ls1 ++ ls2 := by
  obtain ⟨g1, ls1, ls2, h1, h2, rfl⟩ := Transducer.run_cut [ch] rest h
  exact ⟨g1, ls1, ls2, h1, guardedStep_some (Transducer.run_singleton.symm.trans h1), h2, rfl⟩

theorem guardedPass_pass (h : guardedPass data g = some (g', ls)) : bytePass data g.toCore = some (g'.toCore, ls) := by
  have hstep : ∀ {ch g g' ls}, guardedStep ch g = some (g', ls) → byteStep ch g.toCore = some (g'.toCore, ls) :=
    fun h => (guardedStep_some h).step
  exact Transducer.run_map hstep h

/-- The limit is kept. -/
theorem guardedPass_size (hg : g.nread ≤ httpMaxHeaderSize) (h : guardedPass data g = some (g', ls)) :
    g'.nread ≤ httpMaxHeaderSize := by
  refine (Transducer.run_keeps (P := fun g => g.nread ≤ httpMaxHeaderSize) (R := fun _ _ _ => True) (fun _ => trivial)
    (fun _ _ => trivial) (fun _ h => ⟨?_, trivial⟩) hg h).1
  have hg := guardedStep_some h
  rw [hg.nread]
  split_ifs
  · exact Nat.zero_le _
  · exact hg.size

theorem guardedPass_plain (hg : g.upgrade = false) (h : guardedPass data g = some (g', ls)) : g'.upgrade = false :=
  (Transducer.run_keeps (P := fun g => g.upgrade = false) (R := fun _ _ _ => True) (fun _ => trivial)
    (fun _ _ => trivial) (fun _ h => ⟨(guardedStep_some h).upgrade, trivial⟩) hg h).1

/-- A byte of a header that the loops look at. -/
theorem Guarded.counted (h : Guarded ch g g' ls) (hs : g.state = .headerField ∨ g.state = .headerValue) :
    g'.nread = g.nread + 2 := by
  rw [h.nread]
  rcases hs with hs | hs <;> simp [charge, hs, parsingHeader, onByte, Core.next]

/-- The loop over a header field that is taken. -/
theorem scanHeaderField_guarded {r : Parser} (hs : g.state = .headerField) (hf : fieldState g.headerState = true)
    (h : guardedPass data g = some (r, ls)) :
    ∃ xs rest g', scanHeaderField data g.toCore = some (rest, g'.toCore) ∧ data = xs ++ rest ∧
      guardedPass xs g = some (g', []) ∧ g'.nread = g.nread + 2 * xs.length ∧ Kept g.toCore g'.toCore ∧
      ∀ ch rest', rest = ch :: rest' → ch = chr ':' := by
  induction data generalizing g ls with
  | nil => exact ⟨[], [], g, rfl, rfl, rfl, rfl, .rfl, fun _ _ h => by cases h⟩
  | cons ch data ih =>
    obtain ⟨g1, ls1, ls2, h1, hg, hrest, rfl⟩ := guardedPass_cons h
    have hstep := hg.step
    simp only [byteStep, hs] at hstep
    by_cases ht : token ch = 0
    · rw [if_pos ht] at hstep
      refine ⟨[], ch :: data, g, by simp [scanHeaderField, ht], rfl, rfl, rfl, .rfl, ?_⟩
      rintro _ _ ⟨⟩
      by_contra hne
      simp [hne] at hstep
    · rw [if_neg ht] at hstep
      obtain ⟨q1, hq1, hk, hf1⟩ := headerFieldChar_some ch hf
      rw [hq1] at hstep
      obtain ⟨rfl, rfl⟩ := Prod.mk.inj (Option.some.inj hstep)
      obtain ⟨xs, rest, g2, hscan, rfl, hpass, hn, hk2, hcolon⟩ := ih (hk.state.trans hs) hf1 hrest
      refine ⟨ch :: xs, rest, g2, ?_, rfl, Transducer.run_trans h1 hpass, ?_, hk.trans hk2, hcolon⟩
      · simp [scanHeaderField, ht, hq1, hscan]
      · rw [hn, hg.counted (.inl hs), List.length_cons]
        omega

/-- Bytes of a value that is of no interest. -/
theorem guarded_general {r : Parser} (hs : g.state = .headerValue) (hg : g.headerState = .general)
    (hx : ∀ ch ∈ xs, ch ≠ cr ∧ ch ≠ lf) (h : guardedPass xs g = some (r, ls)) :
    r.toCore = g.toCore ∧ r.nread = g.nread + 2 * xs.length ∧ ls = [] := by
  induction xs generalizing g ls with
  | nil =>
    obtain ⟨rfl, rfl⟩ := Prod.mk.inj (Option.some.inj h)
    exact ⟨rfl, rfl, rfl⟩
  | cons ch xs ih =>
    obtain ⟨g1, ls1, ls2, h1, hgd, hrest, rfl⟩ := guardedPass_cons h
    obtain ⟨hcr, hlf⟩ := hx ch (List.mem_cons_self ..)
    have hstep := hgd.step
    simp only [byteStep, hs, if_neg hcr, if_neg hlf, hg, if_true] at hstep
    obtain ⟨hcore, rfl⟩ := Prod.mk.inj (Option.some.inj hstep)
    obtain ⟨h2, h3, rfl⟩ := ih (by rw [← hcore]; exact hs) (by rw [← hcore]; exact hg)
      (fun c hc => hx c (List.mem_cons_of_mem _ hc)) hrest
    refine ⟨h2.trans hcore.symm, ?_, rfl⟩
    rw [h3, hgd.counted (.inr hs), List.length_cons]
    omega

/-- A short line is found whole. -/
theorem skipValue_short (h : (data.takeWhile (fun c => decide (c ≠ cr ∧ c ≠ lf))).length < httpMaxHeaderSize) :
    skipValue data = data.dropWhile (fun c => decide (c ≠ cr ∧ c ≠ lf)) := by
  have hsplit : data.takeWhile (fun c => decide (c ≠ cr ∧ c ≠ lf)) ++ data.dropWhile (fun c => decide (c ≠ cr ∧ c ≠ lf)) = data :=
    List.takeWhile_append_dropWhile
  unfold skipValue
  dsimp only
  rw [← List.take_takeWhile, List.take_of_length_le h.le]
  generalize data.takeWhile (fun c => decide (c ≠ cr ∧ c ≠ lf)) = line at *
  generalize data.dropWhile (fun c => decide (c ≠ cr ∧ c ≠ lf)) = rest at *
  subst hsplit
  split_ifs with hall
  · rw [List.length_append] at hall
    exact (List.length_eq_zero_iff.mp (by omega)).symm
  · exact List.drop_left ..

/-- The loop over a header value that is taken. -/
theorem scanHeaderValue_guarded {r : Parser} (hs : g.state = .headerValue) (hv : ¬ unexpectedState g.headerState)
    (hsize : g.nread ≤ httpMaxHeaderSize) (h : guardedPass data g = some (r, ls)) :
    ∃ xs rest g', scanHeaderValue data g.toCore = (rest, g'.toCore, none) ∧ data = xs ++ rest ∧
      guardedPass xs g = some (g', []) ∧ g'.nread = g.nread + 2 * xs.length ∧ Kept g.toCore g'.toCore ∧
      ∀ ch rest', rest = ch :: rest' → ch = cr ∨ ch = lf := by
  induction data generalizing g ls with
  | nil => exact ⟨[], [], g, rfl, rfl, rfl, rfl, .rfl, fun _ _ h => by cases h⟩
  | cons ch data ih =>
    obtain ⟨g1, ls1, ls2, h1, hg, hrest, rfl⟩ := guardedPass_cons h
    by_cases hend : ch = cr ∨ ch = lf
    · refine ⟨[], ch :: data, g, by simp [scanHeaderValue, hend], rfl, rfl, rfl, .rfl, ?_⟩
      rintro _ _ ⟨⟩
      exact hend
    · obtain ⟨hcr, hlf⟩ := not_or.mp hend
      have hchar : ¬ isHeaderChar ch = false := by simp [hg.char hs]
      by_cases hgen : g.headerState = .general
      · have hsplit : (ch :: data).takeWhile (fun c => decide (c ≠ cr ∧ c ≠ lf)) ++
            (ch :: data).dropWhile (fun c => decide (c ≠ cr ∧ c ≠ lf)) = ch :: data := List.takeWhile_append_dropWhile
        obtain ⟨g2, l2, l3, h2, -, -⟩ := Transducer.run_cut _ _ (by rw [hsplit]; exact h)
        have hmem : ∀ c ∈ (ch :: data).takeWhile (fun c => decide (c ≠ cr ∧ c ≠ lf)), c ≠ cr ∧ c ≠ lf :=
          fun c hc => of_decide_eq_true (List.mem_takeWhile_imp (p := fun c => decide (c ≠ cr ∧ c ≠ lf)) hc)
        have hhead := List.head?_dropWhile_not (fun c => decide (c ≠ cr ∧ c ≠ lf)) (ch :: data)
        obtain ⟨hcore, hn, rfl⟩ := guarded_general hs hgen hmem h2
        have hle := guardedPass_size hsize h2
        have hskip : skipValue (ch :: data) = (ch :: data).dropWhile (fun c => decide (c ≠ cr ∧ c ≠ lf)) := by
          refine skipValue_short ?_
          have : 0 < httpMaxHeaderSize := Nat.zero_lt_succ _
          omega
        refine ⟨_, _, g2, ?_, hsplit.symm, h2, hn, hcore ▸ .rfl, fun c rest' hc => ?_⟩
        · simp only [scanHeaderValue, if_neg hend, if_neg hchar, if_pos hgen, hskip, hcore]
        · rw [hc] at hhead
          by_contra hne
          obtain ⟨h3, h4⟩ := not_or.mp hne
          simp [h3, h4] at hhead
      · have hstep := hg.step
        simp only [byteStep, hs, if_neg hcr, if_neg hlf, if_neg hgen] at hstep
        cases hok : headerValueChar ch g.toCore with
        | error e => simp [hok, Except.toOption] at hstep
        | ok q1 =>
          rw [hok] at hstep
          obtain ⟨rfl, rfl⟩ := Prod.mk.inj (Option.some.inj hstep)
          obtain ⟨hk, hv1⟩ := headerValueChar_ok hv hok
          have hn1 := hg.counted (.inr hs)
          obtain ⟨xs, rest, g2, hscan, rfl, hpass, hn, hk2, hr⟩ :=
            ih (hk.state.trans hs) hv1 (guardedPass_size hsize h1) hrest
          refine ⟨ch :: xs, rest, g2, ?_, rfl, Transducer.run_trans h1 hpass, ?_, hk.trans hk2, hr⟩
          · simp [scanHeaderValue, hend, hchar, hgen, hok, hscan]
          · rw [hn, hn1, List.length_cons]
            omega

/-- The count in front of a byte. -/
def Local.counting (l : Local) : Local :=
  { l with parser := { l.parser with nread := if parsingHeader l.parser.state then l.parser.nread + 1 else l.parser.nread } }

theorem iteration_counting (hst : Steady l.parser) (hn : l.counting.parser.nread ≤ httpMaxHeaderSize) :
    iteration beyond ch rest l = onState beyond ch rest l.counting := by
  have hassert : asserted l.counting.parser = true := by
    refine asserted_of_steady hst _ (fun h => ?_)
    rw [h]
    rfl
  unfold iteration
  by_cases hp : parsingHeader l.parser.state = true
  · have hcount : l.count 1 = (l.counting, .next) := by
      simp only [Local.counting, hp, if_true] at hn
      unfold Local.count
      rw [if_neg (Nat.not_lt.mpr hn)]
      simp [Local.counting, hp]
    rw [if_pos hp, hcount]
    dsimp only
    rw [if_pos hassert]
  · have hsame : l.counting = l := by simp [Local.counting, hp]
    rw [hsame] at hassert ⊢
    rw [if_neg hp]
    dsimp only
    rw [if_pos hassert]

/-- The result of an iteration, as the guard bounds it. -/
structure Within (g : Parser) (data : Bytes) (r : Local × Flow × Bytes) : Prop where
  errno : r.1.parser.errno = .ok
  nread : ∀ {xs g' ls}, data = xs ++ r.2.2 → guardedPass xs g = some (g', ls) → r.1.parser.nread ≤ g'.nread

theorem count_within {n : Nat} (h : l.parser.nread + n ≤ httpMaxHeaderSize) :
    l.count n = ({ l with parser := { l.parser with nread := l.parser.nread + n } }, .next) := by
  unfold Local.count
  dsimp only
  rw [if_neg (Nat.not_lt.mpr h)]

/-- The bound behind the bytes of a loop, and the byte that ends it. -/
theorem scanned_within {g1 g' : Parser} {xs ys zs : Bytes} {n : Nat} (hs : g.state = .headerField ∨ g.state = .headerValue)
    (hk : Kept g.toCore g1.toCore) (hpass : guardedPass xs g = some (g1, [])) (hn : g1.nread = g.nread + 2 * xs.length)
    (hle : n ≤ g.nread + 1) (hne : xs ++ zs ≠ []) (hz : zs.length ≤ 1) (hy : ys = xs ++ zs)
    (h : guardedPass ys g = some (g', ls)) : n + xs.length ≤ g'.nread := by
  subst hy
  obtain ⟨g2, l1, l2, h1, h2, -⟩ := Transducer.run_cut _ _ h
  obtain ⟨rfl, -⟩ := Prod.mk.inj (Option.some.inj (h1.symm.trans hpass))
  cases zs with
  | nil =>
    obtain ⟨rfl, -⟩ := Prod.mk.inj (Option.some.inj h2)
    have := List.length_pos_iff.mpr (by simpa using hne)
    omega
  | cons c zs =>
    obtain rfl : zs = [] := List.length_eq_zero_iff.mp (by simpa using hz)
    have hg := guardedStep_some (Transducer.run_singleton.symm.trans h2)
    have := hg.counted (by rw [hk.state]; exact hs)
    omega

theorem scanned_size {g1 : Parser} {n : Nat} (hn : g1.nread = g.nread + 2 * xs.length) (hle : n ≤ g.nread + 1)
    (hsize : n ≤ httpMaxHeaderSize) (hg1 : g1.nread ≤ httpMaxHeaderSize) : n + xs.length ≤ httpMaxHeaderSize := by
  cases xs with
  | nil => exact hsize
  | cons x xs =>
    rw [List.length_cons] at hn ⊢
    omega

theorem onHeaderField_within {r : Parser} (hst : Firm l.parser.toCore) (he : l.parser.errno = .ok)
    (hs : l.parser.state = .headerField) (hcore : g.toCore = l.parser.toCore) (hle : l.parser.nread ≤ g.nread + 1)
    (hsize : l.parser.nread ≤ httpMaxHeaderSize) (hg : g.nread ≤ httpMaxHeaderSize)
    (h : guardedPass (ch :: rest) g = some (r, ls)) : Within g (ch :: rest) (onHeaderField (ch :: rest) l) := by
  have hgs : g.state = .headerField := by rw [hcore, hs]
  have hf : fieldState g.headerState = true := by
    have := hst.sound
    simp only [Sound, hs] at this
    rw [hcore, this]
  obtain ⟨xs, rest', g1, hscan, hdata, hpass, hn, hk, hcolon⟩ := scanHeaderField_guarded hgs hf h
  have he1 : g1.errno = .ok := by rw [hk.errno, hcore, he]
  have hcount := count_within (l := (l.set g1.toCore).advance xs) (scanned_size hn hle hsize (guardedPass_size hg hpass))
  have hne : xs ++ rest' ≠ [] := hdata ▸ List.cons_ne_nil _ _
  rw [hcore] at hscan
  unfold onHeaderField
  rw [hscan]
  dsimp only
  rw [hdata, take_sub_length, hcount]
  dsimp only
  cases rest' with
  | nil => exact ⟨he1, fun hx hp => scanned_within (.inl hgs) hk hpass hn hle hne (Nat.zero_le _) ((List.append_nil _).symm.trans hx.symm) hp⟩
  | cons c rest' =>
    obtain rfl := hcolon c rest' rfl
    dsimp only
    rw [if_pos rfl, calling_ok he1]
    refine ⟨he1, fun hx hp => ?_⟩
    rw [List.append_cons] at hx
    exact scanned_within (.inl hgs) hk hpass hn hle (by simp) le_rfl (List.append_cancel_right hx).symm hp

theorem onHeaderValue_within {r : Parser} (hst : Firm l.parser.toCore) (he : l.parser.errno = .ok)
    (hs : l.parser.state = .headerValue) (hcore : g.toCore = l.parser.toCore) (hle : l.parser.nread ≤ g.nread + 1)
    (hsize : l.parser.nread ≤ httpMaxHeaderSize) (hg : g.nread ≤ httpMaxHeaderSize)
    (h : guardedPass (ch :: rest) g = some (r, ls)) : Within g (ch :: rest) (onHeaderValue (ch :: rest) l) := by
  have hgs : g.state = .headerValue := by rw [hcore, hs]
  have hv : ¬ unexpectedState g.headerState := by
    have := hst.sound
    simp only [Sound, hs] at this
    rw [hcore]
    exact not_or.mpr this
  obtain ⟨xs, rest', g1, hscan, hdata, hpass, hn, hk, hend⟩ := scanHeaderValue_guarded hgs hv hg h
  have he1 : g1.errno = .ok := by rw [hk.errno, hcore, he]
  have hlen := scanned_size hn hle hsize (guardedPass_size hg hpass)
  have hne : xs ++ rest' ≠ [] := hdata ▸ List.cons_ne_nil _ _
  rw [hcore] at hscan
  unfold onHeaderValue
  rw [hscan]
  dsimp only
  rw [hdata, take_sub_length]
  cases rest' with
  | nil =>
    dsimp only
    rw [count_within (l := (l.set g1.toCore).advance xs) hlen]
    exact ⟨he1, fun hx hp => scanned_within (.inr hgs) hk hpass hn hle hne (Nat.zero_le _) ((List.append_nil _).symm.trans hx.symm) hp⟩
  | cons c rest' =>
    dsimp only
    have hbound {g' : Parser} {ys : Bytes} {ls : List Letter} (hx : xs ++ c :: rest' = ys ++ rest')
        (hp : guardedPass ys g = some (g', ls)) : l.parser.nread + xs.length ≤ g'.nread := by
      rw [List.append_cons] at hx
      exact scanned_within (.inr hgs) hk hpass hn hle (by simp) le_rfl (List.append_cancel_right hx).symm hp
    split_ifs with hcr
    · rw [calling_ok he1,
        count_within (l := { ((l.set g1.toCore).advance xs).set (g1.enter .headerAlmostDone) with headerValueMark := false }) hlen]
      exact ⟨he1, fun hx hp => hbound hx hp⟩
    · have hlf := (hend c rest' rfl).resolve_left hcr
      rw [count_within (l := ((l.set g1.toCore).advance xs).set (g1.enter .headerAlmostDone)) hlen]
      dsimp only
      rw [calling_ok he1]
      refine ⟨?_, fun hx hp => hbound hx hp⟩
      dsimp only
      unfold onHeaderAlmostDone
      rw [if_neg (not_not.mpr hlf)]
      exact he1

/-- A body is not counted. -/
theorem guarded_body (hs : g.state = .bodyIdentity ∨ g.state = .chunkData) (hle : xs.length ≤ g.contentLength)
    (h : guardedPass xs g = some (g', ls)) : g'.nread = g.nread := by
  induction xs generalizing g ls with
  | nil =>
    obtain ⟨rfl, -⟩ := Prod.mk.inj (Option.some.inj h)
    rfl
  | cons ch xs ih =>
    obtain ⟨g1, ls1, ls2, -, hg, hrest, rfl⟩ := guardedPass_cons h
    have hn : g1.nread = g.nread := by
      rw [hg.nread]
      rcases hs with hs | hs <;> simp [charge, hs, parsingHeader, onByte, Core.next]
    cases xs with
    | nil =>
      obtain ⟨rfl, -⟩ := Prod.mk.inj (Option.some.inj hrest)
      exact hn
    | cons c xs =>
      rw [List.length_cons, List.length_cons] at hle
      have hpass : byteStep ch g.toCore = some (g.bodyBytes 1, [.body ch]) := by
        rw [← bytePass_singleton, bytePass_body hs (List.cons_ne_nil _ _) (by simp; omega),
          if_neg (by simp only [List.length_singleton]; omega)]
        rfl
      obtain ⟨hcore, rfl⟩ := Prod.mk.inj (Option.some.inj (hpass.symm.trans hg.step))
      rw [← hn]
      refine ih (by rw [← hcore]; exact hs) ?_ hrest
      rw [← hcore]
      simp only [Core.bodyBytes, List.length_cons]
      omega

theorem onBodyIdentity_same (data : Bytes) (l : Local) (he : l.parser.errno = .ok) :
    (onBodyIdentity data l).1.parser.errno = l.parser.errno ∧ (onBodyIdentity data l).1.parser.nread = l.parser.nread := by
  have hbody (l : Local) (n : Nat) : (l.callbackBody n).parser = l.parser := by
    unfold Local.callbackBody
    split <;> rfl
  have hread : (readBody data l).parser.errno = .ok := he
  unfold onBodyIdentity
  dsimp only
  split_ifs
  · rw [calling_ok hread]
    simp [Local.perform, onMessageDone, Local.act, Local.notify, Local.set, hbody, readBody, Local.advance, Core.enter]
  · exact ⟨rfl, rfl⟩

theorem onChunkData_same (data : Bytes) (l : Local) :
    (onChunkData data l).1.parser.errno = l.parser.errno ∧ (onChunkData data l).1.parser.nread = l.parser.nread := by
  unfold onChunkData
  dsimp only
  split_ifs <;> exact ⟨rfl, rfl⟩

theorem body_within {r : Local × Flow × Bytes} (hs : l.parser.state = .bodyIdentity ∨ l.parser.state = .chunkData)
    (he : l.parser.errno = .ok) (hcore : g.toCore = l.parser.toCore) (hle : l.parser.nread ≤ g.nread)
    (hr : r.2.2 = data.drop (min l.parser.contentLength data.length))
    (hsame : r.1.parser.errno = l.parser.errno ∧ r.1.parser.nread = l.parser.nread) : Within g data r := by
  refine ⟨hsame.1.trans he, fun hx hp => ?_⟩
  rw [hsame.2, guarded_body (hcore ▸ hs) ?_ hp]
  · exact hle
  · rw [hcore]
    have := congrArg List.length hx
    rw [hr, List.length_append, List.length_drop] at this
    omega

theorem onState_within {r : Parser} (hst : Firm l.parser.toCore) (hm : Marked l) (he : l.parser.errno = .ok)
    (hcore : g.toCore = l.parser.toCore) (hg : g.nread ≤ httpMaxHeaderSize) (h : guardedPass (ch :: rest) g = some (r, ls))
    (hle : l.parser.nread ≤ if parsingHeader l.parser.state then g.nread + 1 else g.nread)
    (hsize : l.parser.nread ≤ httpMaxHeaderSize) : Within g (ch :: rest) (onState beyond ch rest l) := by
  by_cases hscan : scans l.parser.state = false
  · obtain ⟨g1, ls1, -, hone, hgd, -, -⟩ := guardedPass_cons h
    have hstep := hgd.step
    rw [hcore, byteStep_of_not_scans hscan] at hstep
    rw [onState_of_not_scans he hscan]
    rcases onByte_legal ch hst.sound hscan with href | hl
    · rw [if_neg href.errno] at hstep
      cases hstep
    · have ht : Took ch l (onByte ch l.parser.toCore)
          (l.take ((ch :: rest ++ beyond).takeWhile (· ≠ 0)) ch (onByte ch l.parser.toCore)) :=
        take_took hm hscan hl (onByte_marks ch hscan)
      refine ⟨by rw [ht.core, hl.carried.1, he], fun {xs g' ls} hx hp => ?_⟩
      obtain rfl : [ch] = xs := List.append_cancel_right hx
      obtain ⟨rfl, -⟩ := Prod.mk.inj (Option.some.inj (hone.symm.trans hp))
      rw [ht.nread, hgd.nread, hcore]
      unfold charge
      rw [hcore]
      split_ifs at hle ⊢ <;> omega
  · cases hs : l.parser.state
    case headerField =>
      simp only [onState, hs]
      exact onHeaderField_within hst he hs hcore (by simpa [hs, parsingHeader] using hle) hsize hg h
    case headerValue =>
      simp only [onState, hs]
      exact onHeaderValue_within hst he hs hcore (by simpa [hs, parsingHeader] using hle) hsize hg h
    case bodyIdentity =>
      have hle' : l.parser.nread ≤ g.nread := by simpa [hs, parsingHeader] using hle
      simp only [onState, hs]
      refine body_within (.inl hs) he hcore hle' ?_ (onBodyIdentity_same _ _ he)
      have hread : (readBody (ch :: rest) l).parser.errno = .ok := he
      unfold onBodyIdentity
      dsimp only
      split_ifs
      · rw [calling_ok hread]
      · rfl
    case chunkData =>
      have hle' : l.parser.nread ≤ g.nread := by simpa [hs, parsingHeader] using hle
      simp only [onState, hs]
      exact body_within (.inr hs) he hcore hle' rfl (onChunkData_same _ _)
    all_goals simp [scans, hs] at hscan

/-- An iteration takes bytes of a guarded pass. -/
theorem iteration_guarded {r : Parser} (beyond : Bytes) (hst : Steady l.parser) (hm : Marked l) (he : l.parser.errno = .ok)
    (hcore : g.toCore = l.parser.toCore) (hle : l.parser.nread ≤ g.nread) (hg : g.nread ≤ httpMaxHeaderSize)
    (h : guardedPass (ch :: rest) g = some (r, ls)) : Within g (ch :: rest) (iteration beyond ch rest l) := by
  obtain ⟨g1, ls1, -, -, hgd, -, -⟩ := guardedPass_cons h
  have hcharge := hgd.size
  unfold charge at hcharge
  rw [hcore] at hcharge
  have hcount : l.counting.parser.nread ≤ if parsingHeader l.parser.state then g.nread + 1 else g.nread := by
    unfold Local.counting
    dsimp only
    split_ifs <;> omega
  have hsize : l.counting.parser.nread ≤ httpMaxHeaderSize := by
    split_ifs at hcount hcharge <;> omega
  rw [iteration_counting hst hsize]
  exact onState_within (l := l.counting) hst.toFirm ⟨hm.header, hm.url, hm.body⟩ he hcore hg h hcount hsize

/-! Whole calls and whole connections. -/

/-- The parser behind guarded bytes, its own count being no more than theirs. -/
structure Reached (q : Parser) (g : Parser) : Prop extends Steady q where
  errno : q.errno = .ok
  core : g.toCore = q.toCore
  nread : q.nread ≤ g.nread
  limit : g.nread ≤ httpMaxHeaderSize
  plain : g.upgrade = false

theorem executeLoop_guarded (beyond : Bytes) (fuel : Nat) (hfuel : data.length ≤ fuel) (hq : Reached l.parser g) (hm : Marked l)
    (h : guardedPass data g = some (g', ls)) :
    Reached (executeLoop beyond fuel data l).1.parser g' ∧
      letters (executeLoop beyond fuel data l).1.callbacks = seen l ++ ls := by
  have hnil {g : Parser} {l : Local} {fuel : Nat} {ls : List Letter} (hq : Reached l.parser g) (hm : Marked l)
      (h : guardedPass [] g = some (g', ls)) : Reached (executeLoop beyond fuel [] l).1.parser g' ∧
        letters (executeLoop beyond fuel [] l).1.callbacks = seen l ++ ls := by
    obtain ⟨rfl, rfl⟩ := Prod.mk.inj (Option.some.inj h)
    rw [executeLoop_nil fuel hm hq.errno, letters_leftOver, leftOver_same, List.append_nil]
    exact ⟨hq, rfl⟩
  induction fuel generalizing data l g ls with
  | zero =>
    obtain rfl : data = [] := List.length_eq_zero_iff.mp (Nat.le_zero.mp hfuel)
    exact hnil hq hm h
  | succ fuel ih =>
    cases data with
    | nil => exact hnil hq hm h
    | cons ch rest =>
      have hwithin := iteration_guarded beyond hq.toSteady hm hq.errno hq.core hq.nread hq.limit h
      have hout := iteration_outcome beyond hq.toSteady hm hq.errno ch rest
      rw [executeLoop]
      generalize iteration beyond ch rest l = r at hwithin hout ⊢
      cases hout with
      | @passed l' flow rest' xs ls1 hdata hx hpass hseen hmarked hsteady herrno hflow =>
        rw [hdata] at h
        obtain ⟨g1, l1, l2, h1, h2, rfl⟩ := Transducer.run_cut _ _ h
        obtain ⟨hcore, rfl⟩ := Prod.mk.inj (Option.some.inj ((hq.core ▸ guardedPass_pass h1).symm.trans hpass))
        have hq1 : Reached l'.parser g1 :=
          ⟨hsteady, herrno, hcore, hwithin.nread hdata h1, guardedPass_size hq.limit h1,
            guardedPass_plain hq.plain h1⟩
        have hlen := congrArg List.length hdata
        have hpos := List.length_pos_iff.mpr hx
        rw [List.length_append, List.length_cons] at hlen
        rw [List.length_cons] at hfuel
        rcases hflow with rfl | ⟨rfl, hup, -⟩
        · have hrest := ih (show rest'.length ≤ fuel by omega) hq1 hmarked h2
          rw [hseen, List.append_assoc] at hrest
          exact hrest
        · rw [← hq1.core, hq1.plain] at hup
          cases hup
      | refused herrno hsame => exact absurd hwithin.errno herrno

/-- A call on bytes that are taken however they are cut. -/
theorem execute_guarded {q : Parser} (beyond : Bytes) (hq : Reached q g) (hne : data ≠ []) (h : guardedPass data g = some (g', ls)) :
    Reached (execute beyond q data).1 g' ∧ letters (execute beyond q data).2 = ls := by
  obtain ⟨hm, hs⟩ := start_marked q
  have hloop := executeLoop_guarded (l := start q) beyond data.length le_rfl hq hm h
  rw [hs, List.nil_append] at hloop
  unfold execute
  rw [if_neg (not_not.mpr hq.errno), if_neg hne]
  exact hloop

/-- Every way to cut the bytes is accepted, and leaves the same parser and the same callbacks. -/
theorem deliver_guarded {q : Parser} {ds : List Delivery} (hds : ∀ d ∈ ds, d.data ≠ []) (hq : Reached q g)
    (h : guardedPass (bytesOf ds) g = some (g', ls)) :
    Accepted q ds ∧ Reached (deliver q ds).1 g' ∧ letters (deliver q ds).2 = ls := by
  induction ds generalizing q g ls with
  | nil =>
    obtain ⟨rfl, rfl⟩ := Prod.mk.inj (Option.some.inj h)
    exact ⟨trivial, hq, rfl⟩
  | cons d ds ih =>
    obtain ⟨g1, l1, l2, h1, h2, rfl⟩ := Transducer.run_cut d.data (bytesOf ds) h
    have hd := hds d (List.mem_cons_self ..)
    obtain ⟨hq1, hl1⟩ := execute_guarded d.beyond hq hd h1
    obtain ⟨hacc, hq2, hl2⟩ := ih (fun e he => hds e (List.mem_cons_of_mem _ he)) hq1 h2
    refine ⟨⟨hd, hq1.errno, ?_, hacc⟩, hq2, ?_⟩
    · rw [← hq1.plain, hq1.core]
    · rw [deliver]
      dsimp only
      rw [letters_append, hl1, hl2]

end ArduinoHomeKit.HttpMachine
