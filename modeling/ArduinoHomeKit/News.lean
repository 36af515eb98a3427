import ArduinoHomeKit.Invariants

/-! The entries that a step adds to the log. -/

namespace ArduinoHomeKit

open Growth Runs

variable {P : Platform} {c : ClientId} {w w' w'' : World P} {e : Event}

def news (w w' : World P) : List Event := w'.trace.drop w.trace.length

theorem trace_eq_news {p : Event → Prop} (h : Adds p w.trace w'.trace) : w'.trace = w.trace ++ news w w' := by
  obtain ⟨es, he, _⟩ := h
  simp [news, he]

theorem mem_news {p : Event → Prop} (h : Adds p w.trace w'.trace) (he : e ∈ news w w') : p e := by
  obtain ⟨es, hes, hp⟩ := h
  exact hp e (by simpa [news, hes] using he)

/-- The one kind of decisive entry that a message with the given request can add. -/
def Decisive (c : ClientId) : Option Request → Event → Prop
  | none, .contextOpened _ d | none, .srpVerified _ d | none, .verifyStarted d _ _ => d = c
  | some (.store k _ request), e => ∃ r, e = .addPairing k c request r
  | some (.verify _ request _), e => e = .verified c request
  | some (.remove deviceId), e => e = .pairingRemoved c deviceId
  | _, _ => False

abbrev Expected (c : ClientId) (q : Option Request) (e : Event) : Prop := IsQuiet c e ∨ Decisive c q e

theorem Quiet.expected (h : Quiet c w w') (q : Option Request) :
    Adds (Expected c q) w.trace w'.trace :=
  h.trace.mono (fun _ he => Or.inl he)

theorem log_expected {q : Option Request} (he : Decisive c q e) (w : World P) :
    Adds (Expected c q) w.trace (w.log e).trace := Adds.single _ (Or.inr he)

theorem Passive.expected (h : Passive c w w') : Adds (Expected c none) w.trace w'.trace := by
  cases h with
  | quiet h => exact h.expected none
  | opened w₁ k h _ _ _ hh =>
    have hd : Decisive c none (.contextOpened k c) := rfl
    exact ((h.expected none).trans (log_expected (e := .contextOpened k c) hd w₁)).trans (hh.expected none)
  | proved w₁ w₂ k h _ hq hh =>
    have hd : Decisive c none (.srpVerified k c) := rfl
    exact (((h.expected none).trans (log_expected hd w₁)).trans (hq.expected none)).trans (hh.expected none)
  | started w₁ context h hh =>
    have hd : Decisive c none
        (.verifyStarted c context.devicePublicKey context.accessoryPublicKey) := rfl
    exact ((h.expected none).trans (log_expected hd w₁)).trans (hh.expected none)

theorem Stored.expected {k : ContextId} {s : Bytes} {request : SignedRequest}
    (h : Stored c k s request w w') : Adds (Expected c (some (.store k s request))) w.trace w'.trace := by
  cases h with
  | failed w₁ r f h _ _ hh =>
    have hd : Decisive c (some (.store k s request)) (.addPairing k c request r) := ⟨r, rfl⟩
    exact ((h.expected _).trans (log_expected hd w₁)).trans (hh.expected _)
  | finished w₁ w₂ f h _ _ hq _ hh =>
    have hd : Decisive c (some (.store k s request)) (.addPairing k c request 0) := ⟨0, rfl⟩
    exact (((h.expected _).trans (log_expected hd w₁)).trans (hq.expected _)).trans (hh.expected _)

theorem Effect.expected {q : Option Request} (h : Effect c w w' q) :
    Adds (Expected c q) w.trace w'.trace := by
  match q, h with
  | none, h => exact Passive.expected h
  | some (.store k s request), ⟨_, h⟩ =>
    split at h
    · exact h.expected _
    · exact h.expected
  | some (.verify context request pairing), ⟨_, _, h⟩ =>
    split at h
    · exact h.expected _
    · obtain ⟨w₁, h₁, _, hh⟩ := h
      have hd : Decisive c (some (.verify context request pairing)) (.verified c request) := rfl
      exact ((h₁.expected _).trans (log_expected hd w₁)).trans (hh.expected _)
  | some (.add request), ⟨_, w₁, r, f, h₁, _, hh⟩ => exact (h₁.expected _).trans (hh.expected _)
  | some (.remove deviceId), ⟨_, h⟩ =>
    cases h with
    | absent _ h => exact h.expected _
    | refused w₁ r f h₁ _ _ hh => exact (h₁.expected _).trans (hh.expected _)
    | done w₁ f pairing h₁ _ _ hh =>
      have hd : Decisive c (some (.remove deviceId)) (.pairingRemoved c deviceId) := rfl
      have ht := (revoke_revokes w₁ c deviceId pairing f).trace
      exact ((h₁.expected _).trans (ht ▸ log_expected hd w₁)).trans (hh.expected _)

theorem Effect.adds {q : Option Request} (h : Effect c (arrived w c) w' q) :
    Adds (fun e => IsIdle e ∨ Decisive c q e) w.trace w'.trace :=
  ((arrived_idle w c).trace.mono (fun _ h => Or.inl h)).trans (h.expected.mono (fun _ h => h.imp IsQuiet.isIdle id))

/-- A decisive entry comes from a complete message with the request for it. -/
theorem step_news {a : Action P} (h : step w a = .ok w') (he : e ∈ news w w') (hi : ¬ IsIdle e) :
    ∃ c q, a = .event c .messageComplete ∧ c < w.clientCount ∧
      requested w a = q.map (fun r => (c, r)) ∧ Effect c (arrived w c) w' q ∧ Decisive c q e := by
  rcases step_cases h with ⟨_, hidle⟩ | ⟨c, q, ha, hc, hr, heff⟩
  · exact absurd (mem_news hidle.trace he) hi
  · exact ⟨c, q, ha, hc, hr, heff, (mem_news heff.adds he).resolve_left hi⟩

theorem step_adds {a : Action P} (h : step w a = .ok w') : Adds (fun _ => True) w.trace w'.trace := by
  rcases step_cases h with ⟨_, hidle⟩ | ⟨c, q, _, _, _, heff⟩
  · exact hidle.trace.mono (fun _ _ => trivial)
  · exact heff.adds.mono (fun _ _ => trivial)

/-- One decisive entry with idle work around it. -/
theorem mem_news_log {v : World P} {e' : Event} (h : Adds IsIdle w.trace v.trace)
    (hh : Adds IsIdle (v.log e').trace w''.trace) (he : ¬ IsIdle e) : e ∈ news w w'' ↔ e = e' := by
  obtain ⟨es, hes, hi⟩ := h
  obtain ⟨fs, hfs, hi'⟩ := hh
  have h1 : e ∉ es := fun hm => he (hi e hm)
  have h2 : e ∉ fs := fun hm => he (hi' e hm)
  simp [news, hfs, World.log, hes, h1, h2]

theorem Stored.mem_news {k : ContextId} {s : Bytes} {request : SignedRequest} (h : Stored c k s request w w')
    {v : World P} (hv : Adds IsIdle v.trace w.trace) :
    ∃ r f, setupStore w request = .ok (r, f) ∧
      ∀ e, ¬ IsIdle e → (e ∈ news v w' ↔ e = .addPairing k c request r) := by
  cases h with
  | failed w₁ r f h hs _ hh =>
    exact ⟨r, f, hs, fun e => mem_news_log (v := { w₁ with flash := f }) (hv.trans h.idle.trace) hh.idle.trace⟩
  | finished w₁ w₂ f h hs _ hq _ hh =>
    have hp : Adds IsIdle w₂.trace w'.trace := hh.idle.trace
    exact ⟨0, f, hs, fun e => mem_news_log (v := { w₁ with flash := f }) (hv.trans h.idle.trace)
      (hq.idle.trace.trans hp)⟩

end ArduinoHomeKit
