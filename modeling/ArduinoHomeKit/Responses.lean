import ArduinoHomeKit.AccessoryServer
import ArduinoHomeKit.ResponseWrites
import ArduinoHomeKit.StatusReports
import ArduinoHomeKit.TlvCodec

/-! Every complete request against the responses that are written for it: exactly one, unless a
handler writes none, writes several, or does not return. -/

namespace ArduinoHomeKit

variable {P : Platform} {c : ClientId} {w u v w' : World P} {message : List Tlv}

/-! The responses. -/

section Forms

end Forms

/-! Writing one of them. -/

/-- One response is written to the client. -/
def Responds (c : ClientId) (w w' : World P) : Prop := ∃ ps, Writes c w ps w' ∧ Http.IsResponse ps.flatten

theorem Delivers.responds (h : Delivers c w [] u) (hr : Responds c u w') : Responds c w w' := by
  obtain ⟨ps, hw, hp⟩ := hr
  exact ⟨ps, by simpa using h.andWrites hw, hp⟩

theorem Responds.silent (h : Responds c w u) (hs : Silent c u w') : Responds c w w' := by
  obtain ⟨ps, hw, hp⟩ := h
  exact ⟨ps, hw.silent hs, hp⟩

/-- What a response comes to for the client. -/
theorem Responds.bytesRead (hP : Reliable P) (h : Responds c w w') (ho : Open (w.client c)) :
    ∃ bytes, bytesRead w w' c = some bytes ∧ Http.IsResponse bytes := by
  obtain ⟨ps, hw, hp⟩ := h
  exact ⟨_, hw.bytesRead hP ho, hp⟩

end ArduinoHomeKit
