import ArduinoHomeKit.Streams

/-! The levels of the server machine: a pass of the loop is a run of calls, and a call is a
run of actions. -/

namespace ArduinoHomeKit

open Runs

variable {P : Platform} {c : ClientId} {w w' w'' : World P}

/-- The actions that the loop takes: it closes a connection only while it has its socket. -/
def Taken (w : World P) : Action P → Prop
  | .close c => (w.client c).socket ≠ none
  | _ => True

/-- A change of the buffering is one action. -/
theorem buffer_reaches {x : Client P} (socket : Socket) (hc : c < w.clientCount)
    (hx : x = { w.client c with
      socket := (w.client c).socket.map (fun _ => socket)
      data := x.data
      dataAvailable := x.dataAvailable
      countWrites := x.countWrites
      parser := x.parser
      pending := x.pending }) :
    ReachesBy step Taken w (w.setClient c x) := by
  let b : Buffering P :=
    { socket := socket, data := x.data, dataAvailable := x.dataAvailable, countWrites := x.countWrites,
      parser := x.parser, pending := x.pending }
  refine ReachesBy.single (a := .buffer c b) ?_ trivial
  simp only [step, hc, if_true, setBuffering, b]
  rw [← hx]

theorem socket_map_self (x : Client P) : ∃ socket : Socket, x.socket = x.socket.map (fun _ => socket) := by
  cases h : x.socket with
  | none => exact ⟨{ rx := [], connected := false }, rfl⟩
  | some socket => exact ⟨socket, rfl⟩

/-- The changes that leave the socket alone. -/
theorem buffer_reaches_of_socket {x : Client P} (hc : c < w.clientCount)
    (hx : x = { w.client c with
      data := x.data
      dataAvailable := x.dataAvailable
      countWrites := x.countWrites
      parser := x.parser
      pending := x.pending }) :
    ReachesBy step Taken w (w.setClient c x) := by
  obtain ⟨socket, hs⟩ := socket_map_self (w.client c)
  refine buffer_reaches socket hc (hx.trans ?_)
  rw [← hs]

theorem consume_reaches (hc : c < w.clientCount) (origins : List Origin) : ReachesBy step Taken w (consume w c origins) :=
  buffer_reaches_of_socket hc rfl

theorem runCallbacks_reaches {origins : List Origin} {pos : Nat} {events : List (Nat × ParserEvent)}
    (hc : c < w.clientCount) (h : runCallbacks c origins pos events w = .ok w') : ReachesBy step Taken w w' := by
  induction events generalizing pos w with
  | nil => exact Except.ok.inj h ▸ consume_reaches hc _
  | cons e events ih =>
    obtain ⟨next, event⟩ := e
    simp only [runCallbacks] at h
    split at h
    · simp at h
    · rename_i w₁ hw
      set v := consume w c ((origins.take next).drop pos)
      have hv : c < v.clientCount := hc
      have h₁ : ReachesBy step Taken v w₁ :=
        ReachesBy.single (a := .event c event) (by simp only [step, hv, if_true, hw]) trivial
      exact (consume_reaches hc _).trans (h₁.trans (ih ((handleEvent_called hv hw).1.clientCount ▸ hv) h))

theorem httpParserExecute_reaches {payload : Bytes} {origins : List Origin} (hc : c < w.clientCount)
    (h : httpParserExecute w c payload origins = .ok w') : ReachesBy step Taken w w' := by
  unfold httpParserExecute at h
  have hb : ReachesBy step Taken w
      (w.setClient c { w.client c with parser := (P.http.execute (w.client c).parser payload).1 }) :=
    buffer_reaches_of_socket hc rfl
  refine hb.trans ((ReachesBy.single (a := .parsed c payload) rfl trivial).trans ?_)
  exact runCallbacks_reaches (w := World.log _ (.parsed c payload)) hc h

theorem processEncrypted_reaches {payload : Bytes} (hc : c < w.clientCount) (h : processEncrypted w c payload = .ok w') :
    ReachesBy step Taken w w' := by
  have hcount : ∀ k, ReachesBy step Taken w (w.setClient c { w.client c with countWrites := k }) :=
    fun k => buffer_reaches_of_socket hc rfl
  have hrest : ∀ (v : World P) (m : Nat) (data : Bytes), c < v.clientCount →
      ReachesBy step Taken v (v.setClient c { v.client c with dataAvailable := m, data := data }) :=
    fun v m data hv => buffer_reaches_of_socket hv rfl
  unfold processEncrypted at h
  dsimp only at h
  split at h
  · simp at h
  · split at h
    · exact Except.ok.inj h ▸ hcount _
    · split at h
      · have hexec := httpParserExecute_reaches (by exact hc) h
        exact (hcount _).trans ((hrest _ _ _ (by exact hc)).trans hexec)
      · split at h
        · exact Except.ok.inj h ▸ (hcount _).trans (hrest _ _ _ (by exact hc))
        · simp at h

theorem homekitClientProcess_reaches (hc : c < w.clientCount) (h : homekitClientProcess w c = .ok w') :
    ReachesBy step Taken w w' := by
  unfold homekitClientProcess at h
  have ht : ReachesBy step Taken w w.tick := ReachesBy.single (a := .tick) rfl trivial
  split at h
  · exact Except.ok.inj h ▸ ReachesBy.refl w
  · rename_i socket hs
    have hc' : c < w.tick.clientCount := hc
    refine ht.trans ?_
    dsimp only at h
    split at h
    · split at h
      · obtain rfl := Except.ok.inj h
        exact ReachesBy.single (a := .close c) (by simp only [step, hc', if_true]) (by simp [World.tick, hs, Taken])
      · exact Except.ok.inj h ▸ ReachesBy.refl _
    · have hread : ReachesBy step Taken w.tick (readClient w.tick c socket) := by
        refine buffer_reaches { socket with rx := socket.rx.drop (1042 - (w.client c).dataAvailable) } hc' ?_
        simp [World.tick, hs]
      refine hread.trans ?_
      split at h
      · exact processEncrypted_reaches hc' h
      · unfold processPlain at h
        have hb : ReachesBy step Taken (readClient w.tick c socket) ((readClient w.tick c socket).setClient c
            { (readClient w.tick c socket).client c with dataAvailable := 0 }) :=
          buffer_reaches_of_socket hc' rfl
        exact hb.trans (httpParserExecute_reaches hc' h)

theorem call_taken {a : Call P} (h : call w a = .ok w') : ReachesBy step Taken w w' := by
  cases a with
  | accept raw => exact ReachesBy.single (a := .accept raw) h trivial
  | preinit => exact ReachesBy.single (a := .preinit) h trivial
  | notify c => exact ReachesBy.single (a := .notify c) h trivial
  | process c arrival =>
    simp only [call] at h
    split at h
    · rename_i hc
      have harr : ReachesBy step Taken w (arrive w c arrival) := by
        cases hs : (w.client c).socket with
        | none => exact buffer_reaches { rx := [], connected := false } hc (by simp [hs])
        | some socket =>
          exact buffer_reaches { rx := socket.rx ++ arrival.bytes, connected := arrival.connected } hc
            (by simp [hs])
      exact harr.trans (homekitClientProcess_reaches hc h)
    · exact Except.ok.inj h ▸ ReachesBy.refl w

theorem call_reaches {a : Call P} (h : call w a = .ok w') : Reaches step w w' := (call_taken h).reaches

theorem step_clientCount {a : Action P} (h : step w a = .ok w') : w.clientCount ≤ w'.clientCount := by
  rcases step_cases h with ⟨_, hi⟩ | ⟨c, q, _, _, _, he⟩
  · exact hi.clientCount
  · exact Nat.le_trans (arrived_idle w c).clientCount (Nat.le_of_eq he.handled.1.clientCount.symm)

theorem call_clientCount {a : Call P} (h : call w a = .ok w') : w.clientCount ≤ w'.clientCount :=
  (call_reaches h).invariant (I := fun v => w.clientCount ≤ v.clientCount)
    (fun _ _ _ hv h => Nat.le_trans hv (step_clientCount h)) (Nat.le_refl _)

theorem call_sound (w : World P) (a : Call P) (w' : World P) (hs : Sound w) (h : call w a = .ok w') : Sound w' :=
  (call_reaches h).invariant (fun _ _ _ => step_sound) hs

theorem processClients_reaches {arrivals : ClientId → Arrival} {cs : List ClientId}
    (hcs : ∀ c ∈ cs, c < w.clientCount) (h : processClients arrivals cs w = .ok w') : Reaches call w w' := by
  induction cs generalizing w with
  | nil => exact Except.ok.inj h ▸ Reaches.refl w
  | cons c cs ih =>
    simp only [processClients] at h
    split at h
    · simp at h
    · rename_i w₁ hw
      have hc := hcs c (by simp)
      have hcall : call w (.process c (arrivals c)) = .ok w₁ := by simp only [call, hc, if_true, hw]
      refine (Reaches.single hcall).trans (ih (fun d hd => ?_) h)
      exact Nat.lt_of_lt_of_le (hcs d (by simp [hd])) (call_clientCount hcall)

theorem processNotifications_reaches {cs : List ClientId} (hcs : ∀ c ∈ cs, c < w.clientCount) :
    Reaches call w (cs.foldl processNotifications w) := by
  induction cs generalizing w with
  | nil => exact Reaches.refl w
  | cons c cs ih =>
    have hc := hcs c (by simp)
    have hcall : call w (.notify c) = .ok (processNotifications w c) := by simp only [call, hc, if_true]
    refine (Reaches.single hcall).trans (ih (fun d hd => ?_))
    exact Nat.lt_of_lt_of_le (hcs d (by simp [hd])) (call_clientCount hcall)

/-- A pass that returns has accepted a connection at most, and processed the clients. -/
theorem homekitServerProcess_ok {pass : Pass P} (h : homekitServerProcess w pass = .ok w') :
    ∃ w₂ w₃, Reaches call w w₂ ∧ processClients pass.arrivals w₂.clients w₂ = .ok w₃ ∧
      homekitServerProcessNotifications w₃ = w' := by
  unfold homekitServerProcess at h
  dsimp only at h
  cases hincoming : pass.incoming with
  | none =>
    rw [hincoming] at h
    dsimp only at h
    split at h
    · simp at h
    · rename_i w₃ hw₃
      exact ⟨w, w₃, Reaches.refl w, hw₃, Except.ok.inj h⟩
  | some raw =>
    rw [hincoming] at h
    dsimp only at h
    split at h
    · simp at h
    · rename_i w₃ hw₃
      exact ⟨_, w₃, Reaches.single (a := .accept raw) rfl, hw₃, Except.ok.inj h⟩

/-- A pass of the loop is a run of calls. -/
theorem arduinoHomekitLoop_reaches {pass : Pass P} (hs : Sound w) (h : arduinoHomekitLoop w pass = .ok w') :
    Reaches call w w' := by
  have hpre : Reaches call w (if w.paired then w else (arduinoHomekitPreinit w.tick).2) := by
    split
    · exact Reaches.refl w
    · exact Reaches.single (a := .preinit) rfl
  rw [arduinoHomekitLoop] at h
  obtain ⟨w₂, w₃, hacc, hw₃, rfl⟩ := homekitServerProcess_ok h
  have hbefore := hpre.trans hacc
  have hs₂ := hbefore.invariant call_sound hs
  have hproc := processClients_reaches hs₂.wellFormed.bound hw₃
  have hs₃ := hproc.invariant call_sound hs₂
  exact hbefore.trans (hproc.trans (processNotifications_reaches hs₃.wellFormed.bound))

theorem arduinoHomekitLoop_run_reaches {passes : List (Pass P)} (hs : Sound w)
    (h : run arduinoHomekitLoop w passes = .ok w') : Reaches call w w' :=
  run_reaches call_sound (fun _ _ _ => arduinoHomekitLoop_reaches) hs h

theorem call_run_reaches {as : List (Call P)} (h : run call w as = .ok w') : Reaches step w w' :=
  run_reaches (I := fun _ => True) (fun _ _ _ _ _ => trivial) (fun _ _ _ _ => call_reaches) trivial h

end ArduinoHomeKit
