import ArduinoHomeKit.RequestAnswers

/-! Whatever request is complete: the one response that it gets, and the requests that get none,
or two. -/

namespace ArduinoHomeKit

/-! The handlers of the accessory side. -/

section Handlers

variable {υ : Type} {sketch : Sketch υ} {rt : Runtime} {c : ClientId} {s : AccessoryState υ} {endpoint : Endpoint}
  {query : Option Bytes} {body : Bytes} {r : Except Fault (AccessoryState υ × Answer)}

end Handlers

/-! The request as a whole. -/

section Requests

variable {P : Platform} {w u w' : World P} {c : ClientId}

theorem messageEntry_delivers (w : World P) (c : ClientId) : Delivers c w [] (messageEntry w c) := by
  have htick : Delivers c w [] w.tick := delivers_same rfl rfl rfl
  have hpending : Delivers c w.tick [] (w.tick.setClient c { w.client c with pending := none }) :=
    delivers_setClient ⟨rfl, rfl, rfl, fun _ => rfl, by simp only [ite_self]; rfl⟩
  exact (htick.trans hpending).trans (delivers_log (by simp) _)

theorem messageEnd_silent (w : World P) (c : ClientId) : Silent c w (messageEnd w c) := by
  rw [messageEnd]
  dsimp only
  split
  · exact silent_setClient ..
  · exact (silent_log (by simp) w).trans (silent_setClient ..)

/-- What an answered handler comes to for the client, once the message is over. -/
theorem AnswersOnce.bytesRead (hP : Reliable P) (ho : Open (w.client c)) {r : Except Fault (World P)}
    (h : AnswersOnce c (messageEntry w c) r) :
    ∃ w' bytes, r.map (fun w => messageEnd w c) = .ok w' ∧ w'.app = w.app ∧ bytesRead w w' c = some bytes ∧
      Http.IsResponse bytes := by
  obtain ⟨u, rfl, hresponds⟩ := h
  have hall : Responds c w (messageEnd u c) :=
    ((messageEntry_delivers w c).responds hresponds).silent (messageEnd_silent u c)
  obtain ⟨bytes, hbytes, hresponse⟩ := hall.bytesRead hP ho
  obtain ⟨ps, hwrites, _⟩ := hall
  exact ⟨_, bytes, rfl, hwrites.app, hbytes, hresponse⟩

theorem Fails.bytesRead (hP : Reliable P) (ho : Open (w.client c)) {r : Except Fault (World P)}
    (h : Fails c (messageEntry w c) r) (hr : r.map (fun w => messageEnd w c) = .ok w') :
    ∃ bytes, bytesRead w w' c = some bytes ∧ ¬ Http.IsResponse bytes := by
  obtain ⟨u, hu, rfl⟩ := map_eq_ok.mp hr
  obtain ⟨ps, hwrites, hn⟩ := h u hu
  have hall := ((messageEntry_delivers w c).andWrites hwrites).silent (messageEnd_silent u c)
  exact ⟨_, hall.bytesRead hP ho, by simpa using hn⟩

end Requests

section Server

variable {υ π : Type} {sketch : Sketch υ} {rt : Runtime} {crypto : WolfCrypt} {http : HttpParser π} {env : Environment}
  {w : World (accessoryPlatform sketch rt crypto http env)} {c : ClientId} {s : AccessoryState υ}

end Server

end ArduinoHomeKit
