import ArduinoHomeKit.Handshake
import ArduinoHomeKit.Responses

/-! The handlers against the responses they write: pair-setup, pair-verify, pairings, and the
requests of a session that the accessory side serves. -/

namespace ArduinoHomeKit

variable {P : Platform} {c : ClientId} {w u v w' : World P} {message : List Tlv} {r : Except Fault (World P)}

/-- The handler returns, with one response. -/
def AnswersOnce (c : ClientId) (w : World P) (r : Except Fault (World P)) : Prop := ∃ w', r = .ok w' ∧ Responds c w w'

/-- If the handler returns at all, what it has written is not one response. -/
def Fails (c : ClientId) (w : World P) (r : Except Fault (World P)) : Prop :=
  ∀ w', r = .ok w' → ∃ ps, Writes c w ps w' ∧ ¬ Http.IsResponse ps.flatten

/-- The handler answers exactly under the condition. -/
def AnswersWhen (condition : Prop) (c : ClientId) (w : World P) (r : Except Fault (World P)) : Prop :=
  (condition → AnswersOnce c w r) ∧ (¬ condition → Fails c w r)

theorem AnswersWhen.congr {p q : Prop} (h : AnswersWhen p c w r) (hpq : q ↔ p) : AnswersWhen q c w r :=
  ⟨fun hq => h.1 (hpq.mp hq), fun hq => h.2 (fun hp => hq (hpq.mpr hp))⟩

section PairSetup

end PairSetup

/-! Pair-verify. -/

section PairVerify

end PairVerify

/-! Pairings. -/

section Pairings

variable {request : AddPairingRequest} {pairing : Pairing}

end Pairings

end ArduinoHomeKit
