import ArduinoHomeKit.Library.HttpMessage
import ArduinoHomeKit.SendFrames

/-! What a client receives while the server works on its request: the payloads of the calls of
client_send, in order, whether they leave in plain or in frames. -/

namespace ArduinoHomeKit

variable {P : Platform} {c : ClientId} {w u v w' : World P} {ps qs : List Bytes} {es : List Event}

/-- The socket is there and takes data. -/
def Open (x : Client P) : Prop := x.socket ≠ none ∧ Writable x

/-- What the client reads: the bytes, and on a session the content of the frames. -/
def bytesRead (w w' : World P) (c : ClientId) : Option Bytes :=
  let data := sentTo c (w'.trace.drop w.trace.length)
  if (w.client c).encrypted then openFrames P.crypto (w.client c).readKey (w.client c).countReads data
  else some data.flatten

/-- The writes in which payloads leave. -/
def Output (x : Client P) (ps frames : List Bytes) : Prop :=
  if x.encrypted then sealFrames P.crypto x.readKey x.countReads (ps.flatMap piecesOf) = some frames else frames = ps

/-- The connection is the same, and so many frames further. -/
structure SameLine (x y : Client P) (frames : Nat) : Prop where
  socket : y.socket = x.socket
  errorWrite : y.errorWrite = x.errorWrite
  encrypted : y.encrypted = x.encrypted
  readKey : x.encrypted = true → y.readKey = x.readKey
  countReads : y.countReads = x.countReads + if x.encrypted then frames else 0

/-- From `w` to `w'` the payloads were sent to the client, and its connection is as before. -/
def Delivers (c : ClientId) (w : World P) (ps : List Bytes) (w' : World P) : Prop :=
  w'.app = w.app ∧ (Open (w.client c) → ∃ es, w'.trace = w.trace ++ es ∧ Output (w.client c) ps (sentTo c es) ∧
    SameLine (w.client c) (w'.client c) (sentTo c es).length)

/-- Nothing was sent to the client. -/
def Silent (c : ClientId) (w w' : World P) : Prop :=
  w'.app = w.app ∧ ∃ es, w'.trace = w.trace ++ es ∧ sentTo c es = []

/-- The payloads were sent to the client, whatever became of its connection. -/
def Writes (c : ClientId) (w : World P) (ps : List Bytes) (w' : World P) : Prop := ∃ u, Delivers c w ps u ∧ Silent c u w'

theorem output_nil (x : Client P) : Output x [] [] := by
  rw [Output]
  split <;> rfl

theorem SameLine.open_ {x y : Client P} {n : Nat} (h : SameLine x y n) (ho : Open x) : Open y :=
  ⟨fun hn => ho.1 (h.socket ▸ hn), fun socket hs => by rw [h.errorWrite]; exact ho.2 socket (h.socket ▸ hs)⟩

theorem Delivers.trans (h : Delivers c w ps u) (h' : Delivers c u qs v) : Delivers c w (ps ++ qs) v := by
  obtain ⟨ha, h⟩ := h
  obtain ⟨ha', h'⟩ := h'
  refine ⟨ha'.trans ha, fun ho => ?_⟩
  obtain ⟨es, htrace, hout, hl⟩ := h ho
  obtain ⟨es', htrace', hout', hl'⟩ := h' (hl.open_ ho)
  have hsent : sentTo c (es ++ es') = sentTo c es ++ sentTo c es' := sentTo_append c es es'
  refine ⟨es ++ es', by rw [htrace', htrace, List.append_assoc], ?_, ?_⟩
  · rw [Output] at hout hout' ⊢
    rw [hl.encrypted, hl.countReads] at hout'
    by_cases he : (w.client c).encrypted = true
    · rw [if_pos he] at hout ⊢
      rw [if_pos he, if_pos he, hl.readKey he] at hout'
      rw [hsent, List.flatMap_append]
      exact sealFrames_append hout hout'
    · rw [if_neg he] at hout hout' ⊢
      rw [hsent, hout, hout']
  · refine ⟨hl'.socket.trans hl.socket, hl'.errorWrite.trans hl.errorWrite, hl'.encrypted.trans hl.encrypted,
      fun he => (hl'.readKey (hl.encrypted.trans he)).trans (hl.readKey he), ?_⟩
    rw [hl'.countReads, hl.countReads, hl.encrypted, hsent, List.length_append]
    split <;> omega

/-- A step that sends nothing and leaves the connection alone. -/
theorem delivers_nil (es : List Event) (htrace : w'.trace = w.trace ++ es) (hes : sentTo c es = [])
    (hl : SameLine (w.client c) (w'.client c) 0) (happ : w'.app = w.app) : Delivers c w [] w' :=
  ⟨happ, fun _ => ⟨es, htrace, by rw [hes]; exact output_nil _, by rw [hes]; exact hl⟩⟩

theorem SameLine.refl (x : Client P) : SameLine x x 0 := ⟨rfl, rfl, rfl, fun _ => rfl, by simp⟩

/-- The connection and the log are as they were. -/
theorem delivers_same (htrace : w'.trace = w.trace) (hclient : w'.client c = w.client c)
    (happ : w'.app = w.app) : Delivers c w [] w' :=
  delivers_nil [] (by simpa using htrace) rfl (by rw [hclient]; exact .refl _) happ

theorem Delivers.refl (c : ClientId) (w : World P) : Delivers c w [] w := delivers_same rfl rfl rfl

/-- An entry of the log that is no write. -/
theorem delivers_log {e : Event} (he : ∀ d data, e ≠ .sent d data) (w : World P) : Delivers c w [] (w.log e) := by
  refine delivers_nil [e] rfl (sentTo_of_forall ?_) (.refl _) rfl
  intro e' he' data
  rw [List.mem_singleton.mp he']
  exact he c data

theorem delivers_setClient {x : Client P} (hl : SameLine (w.client c) x 0) : Delivers c w [] (w.setClient c x) :=
  delivers_nil [] (by simp [World.setClient]) rfl (by rw [setClient_self]; exact hl) rfl

theorem Silent.refl (c : ClientId) (w : World P) : Silent c w w := ⟨rfl, [], by simp, rfl⟩

theorem Silent.trans (h : Silent c w u) (h' : Silent c u v) : Silent c w v := by
  obtain ⟨ha, es, ht, hs⟩ := h
  obtain ⟨ha', es', ht', hs'⟩ := h'
  exact ⟨ha'.trans ha, es ++ es', by rw [ht', ht, List.append_assoc], by rw [sentTo_append, hs, hs']; rfl⟩

theorem silent_same (h : w'.trace = w.trace) (happ : w'.app = w.app) : Silent c w w' :=
  ⟨happ, [], by simpa using h, rfl⟩

theorem silent_setClient (w : World P) (d : ClientId) (x : Client P) : Silent c w (w.setClient d x) := silent_same rfl rfl

theorem silent_log {e : Event} (he : ∀ d data, e ≠ .sent d data) (w : World P) : Silent c w (w.log e) := by
  refine ⟨rfl, [e], rfl, sentTo_of_forall ?_⟩
  intro e' he' data
  rw [List.mem_singleton.mp he']
  exact he c data

theorem Writes.silent (h : Writes c w ps u) (hs : Silent c u w') : Writes c w ps w' := by
  obtain ⟨t, ht, hts⟩ := h
  exact ⟨t, ht, hts.trans hs⟩

theorem Delivers.andWrites (h : Delivers c w ps u) (h' : Writes c u qs w') : Writes c w (ps ++ qs) w' := by
  obtain ⟨t, ht, hts⟩ := h'
  exact ⟨t, h.trans ht, hts⟩

theorem openFrames_output (hs : OpensSealed P.crypto) {x : Client P} {frames : List Bytes} (he : x.encrypted = true)
    (h : Output x ps frames) : openFrames P.crypto x.readKey x.countReads frames = some ps.flatten := by
  rw [Output, if_pos he] at h
  have hsize : ∀ chunk ∈ ps.flatMap piecesOf, 0 < chunk.length ∧ chunk.length ≤ 1024 := by
    intro chunk hc
    obtain ⟨payload, _, hc⟩ := List.mem_flatMap.mp hc
    exact Pieces.length_of_mem_cut (by omega) hc
  rw [openFrames_sealFrames hs hsize h, flatten_flatMap_piecesOf]

theorem Writes.app (h : Writes c w ps w') : w'.app = w.app := by
  obtain ⟨u, hdelivers, hsilent⟩ := h
  exact hsilent.1.trans hdelivers.1

/-- The client reads the payloads. -/
theorem Writes.bytesRead (hP : Reliable P) (h : Writes c w ps w') (ho : Open (w.client c)) :
    bytesRead w w' c = some ps.flatten := by
  obtain ⟨u, ⟨_, hsends⟩, _, es', htrace', hsilent⟩ := h
  obtain ⟨es, htrace, hout, _⟩ := hsends ho
  have hdata : sentTo c (w'.trace.drop w.trace.length) = sentTo c es := by
    rw [htrace', htrace, List.append_assoc, List.drop_left, sentTo_append, hsilent, List.append_nil]
  rw [ArduinoHomeKit.bytesRead]
  simp only [hdata]
  by_cases he : (w.client c).encrypted = true
  · rw [if_pos he]
    exact openFrames_output hP.opens he hout
  · rw [if_neg he]
    rw [Output, if_neg he] at hout
    rw [hout]

end ArduinoHomeKit
