import ArduinoHomeKit.News
import ArduinoHomeKit.Bench

/-! The error answers of homekit_server_on_pairings. Every exit that reports an error leaves
the store alone and frees each buffer once, but one: a differing public key is reported,
and the update is made all the same. -/

namespace ArduinoHomeKit

open Growth

variable {P : Platform} {c : ClientId} {w w' w'' : World P} {data : Bytes}

def reportsError (values : List Tlv) : Bool := values.any (fun t => t.type == TLVType.error)

def isErrorResponse (c : ClientId) : Event → Bool
  | .response d values => d == c && reportsError values
  | _ => false

/-- The handler has sent an error response. -/
def AnswersError (c : ClientId) (w w' : World P) : Prop := (news w w').any (isErrorResponse c) = true

/-- The message is an AddPairing whose identifier is paired under another public key. -/
def KeyDiffers (w : World P) (c : ClientId) (data : Bytes) : Prop :=
  ∃ message request pairing, tlvParse (bufferOf (data ++ [0]) (behind w 0)) data.length = .ok message ∧
    tlvGetIntegerValue message TLVType.state (-1) = 1 ∧ pairingsRequest w c message = some (.add request) ∧
    homekitStorageFindPairing P.crypto P.env.flash w.flash
      (CString.strndup request.identifier request.identifier.length) = some pairing ∧
    cryptoEd25519ExportPublicKey pairing.deviceKey ≠ some request.publicKey

structure ErrorsAtomic (c : ClientId) (data : Bytes) (w w' : World P) : Prop where
  unchanged : AnswersError c w w' → w'.flash.mem = w.flash.mem
  refused : KeyDiffers w c data → AnswersError c w w'
  freed : ∀ b, (news w w').count (.freed c b) ≤ 1

/-- The handler frees or removes, each thing once, and then sends its one answer. -/
structure Settles (c : ClientId) (es : List Event) (values : List Tlv) (w w' : World P) : Prop where
  nodup : es.Nodup
  silent : ∀ d values, Event.response d values ∉ es
  trace : Adds (IsOutput c) (w.trace ++ es ++ [.response c values]) w'.trace
  unchanged : reportsError values = true → w'.flash.mem = w.flash.mem

theorem respond_settles {es : List Event} (values : List Tlv) (hn : es.Nodup)
    (hs : ∀ d values, Event.response d values ∉ es) (ht : w'.trace = w.trace ++ es)
    (hf : reportsError values = true → w'.flash.mem = w.flash.mem) :
    Settles c es values w (sendTlvResponse w' c values) where
  nodup := hn
  silent := hs
  trace := by
    have h := (sendTlvResponse_sends w' c values).trace
    simpa only [World.log, ht] using h
  unchanged hv := by
    have h := (sendTlvResponse_sends w' c values).flash
    rw [h]
    exact hf hv

theorem sendError_settles (w : World P) (c : ClientId) (state : Int) (error : TLVError) :
    Settles c [] (tlvErrorResponse state error) w (sendTlvErrorResponse w c state error) :=
  respond_settles _ List.nodup_nil (by simp) (by simp) (fun _ => rfl)

theorem Settles.news_eq {es : List Event} {values : List Tlv} (h : Settles c es values w w') :
    ∃ out, news w w' = es ++ .response c values :: out ∧ ∀ e ∈ out, IsOutput c e := by
  obtain ⟨out, ht, hout⟩ := h.trace
  exact ⟨out, by simp [news, ht], hout⟩

theorem Settles.answersError {es : List Event} {values : List Tlv} (h : Settles c es values w w') :
    AnswersError c w w' ↔ reportsError values = true := by
  obtain ⟨out, hn, hout⟩ := h.news_eq
  have hes : es.any (isErrorResponse c) = false := by
    rw [List.any_eq_false]
    intro e he
    cases e with
    | response d values => exact absurd he (h.silent d values)
    | _ => simp [isErrorResponse]
  have hend : out.any (isErrorResponse c) = false := by
    rw [List.any_eq_false]
    intro e he
    cases e with
    | response d values => exact (hout _ he).elim
    | _ => simp [isErrorResponse]
  simp [AnswersError, hn, hes, hend, isErrorResponse]

theorem Settles.freed {es : List Event} {values : List Tlv} (h : Settles c es values w w') (b : Buffer) :
    (news w w').count (.freed c b) ≤ 1 := by
  obtain ⟨out, hn, hout⟩ := h.news_eq
  have hend : out.count (.freed c b) = 0 := List.count_eq_zero.mpr (fun he => hout _ he)
  have hes := List.nodup_iff_count.mp h.nodup (.freed c b)
  simpa [hn, hend] using hes

/-- The end of every exit that still holds the identifier. -/
theorem freed_settles {f : Flash} (values : List Tlv)
    (hv : reportsError values = true → f.mem = w.flash.mem) :
    Settles c [.freed c .deviceIdentifier] values w
      (sendTlvResponse ({ w with flash := f }.log (.freed c .deviceIdentifier)) c values) :=
  respond_settles values (by simp) (by simp) rfl hv

theorem addPairingNew_settles {request : AddPairingRequest} (hf : ∀ n, P.env.flash.succeeds n = true)
    (h : addPairingNew w c request = .ok w') : ∃ es values, Settles c es values w w' := by
  unfold addPairingNew at h
  dsimp only at h
  split at h
  · exact Except.ok.inj h ▸ ⟨_, _, freed_settles (f := w.flash) _ (fun _ => rfl)⟩
  · split at h
    · simp at h
    · rename_i r f hs
      split at h
      · rename_i hr
        have hsame := homekitStorageAddPairing_failed hf hs hr
        exact Except.ok.inj h ▸ ⟨_, _, freed_settles _ (fun _ => by rw [hsame])⟩
      · exact Except.ok.inj h ▸ ⟨_, _, freed_settles [tlvAddIntegerValue TLVType.state 1 2] (fun he => absurd he (by decide))⟩

theorem addPairingUpdate_answers {identifier : Bytes} {permissions : Int}
    (h : addPairingUpdate w c identifier permissions = .ok w') :
    ∃ r f values, homekitStorageUpdatePairing P.env.flash w.flash identifier (permissionByte permissions) = .ok (r, f) ∧
      (reportsError values = true → r ≠ 0) ∧
      w' = sendTlvResponse ({ w with flash := f }.log (.freed c .deviceIdentifier)) c values := by
  unfold addPairingUpdate at h
  split at h
  · simp at h
  · rename_i r f hs
    split at h
    · rename_i hr
      exact ⟨r, f, _, hs, fun _ => hr, (Except.ok.inj h).symm⟩
    · exact ⟨r, f, [tlvAddIntegerValue TLVType.state 1 2], hs, fun he => absurd he (by decide), (Except.ok.inj h).symm⟩

theorem addPairingExisting_settles {request : AddPairingRequest} {pairing : Pairing}
    (hf : ∀ n, P.env.flash.succeeds n = true)
    (hx : cryptoEd25519ExportPublicKey pairing.deviceKey = some request.publicKey)
    (h : addPairingExisting w c request pairing = .ok w') : ∃ es values, Settles c es values w w' := by
  simp only [addPairingExisting, hx, reduceCtorEq, if_false, ne_eq, not_true_eq_false] at h
  obtain ⟨r, f, values, hs, hv, rfl⟩ := addPairingUpdate_answers h
  refine ⟨[.freed c .pairingPublicKey, .freed c .deviceIdentifier], values, ?_⟩
  refine respond_settles values (by simp) (by simp) (by simp [World.log]) (fun hr => ?_)
  exact congrArg Flash.mem (homekitStorageUpdatePairing_failed hf hs (hv hr))

/-- The exit that is missing: an error is sent, and both buffers are freed again. -/
theorem addPairingExisting_differs {request : AddPairingRequest} {pairing : Pairing}
    (hx : cryptoEd25519ExportPublicKey pairing.deviceKey ≠ some request.publicKey)
    (h : addPairingExisting w c request pairing = .ok w') :
    2 ≤ (news w w').count (.freed c .pairingPublicKey) := by
  have hsome : cryptoEd25519ExportPublicKey pairing.deviceKey ≠ none := by simp [cryptoEd25519ExportPublicKey]
  simp only [addPairingExisting, hsome, if_false, ne_eq, hx, not_false_eq_true, if_true] at h
  obtain ⟨r, f, values, _, _, rfl⟩ := addPairingUpdate_answers h
  have hfirst : Settles c [.freed c .pairingPublicKey, .freed c .deviceIdentifier] (tlvErrorResponse 2 .unknown) w
      (sendTlvErrorResponse ((w.log (.freed c .pairingPublicKey)).log (.freed c .deviceIdentifier)) c 2 .unknown) :=
    respond_settles _ (by simp) (by simp) (by simp [World.log]) (fun _ => rfl)
  obtain ⟨out, ht, _⟩ := hfirst.trace
  set w₁ := sendTlvErrorResponse ((w.log (.freed c .pairingPublicKey)).log (.freed c .deviceIdentifier)) c 2 .unknown
  obtain ⟨out', ht', _⟩ := (sendTlvResponse_sends
    ({ w₁.log (.freed c .pairingPublicKey) with flash := f }.log (.freed c .deviceIdentifier)) c values).trace
  have hsub : [Event.freed c .pairingPublicKey, .freed c .pairingPublicKey].Sublist
      (.freed c .pairingPublicKey :: ([.freed c .deviceIdentifier, .response c (tlvErrorResponse 2 .unknown)] ++
        out ++ [.freed c .pairingPublicKey, .freed c .deviceIdentifier, .response c values] ++ out')) :=
    List.cons_sublist_cons.mpr (List.singleton_sublist.mpr (by simp))
  have htwo : List.count (Event.freed c .pairingPublicKey) [.freed c .pairingPublicKey, .freed c .pairingPublicKey] = 2 := by
    simp
  rw [news, ht', ← htwo]
  refine Nat.le_trans (hsub.count_le _) (Nat.le_of_eq ?_)
  simp [World.log, ht]

theorem removePairing_settles {message : List Tlv} (hf : ∀ n, P.env.flash.succeeds n = true) :
    ∃ es values, Settles c es values w (removePairing w c message) := by
  unfold removePairing
  split
  · exact ⟨_, _, sendError_settles w c 2 .authentication⟩
  · split
    · exact ⟨_, _, sendError_settles w c 2 .unknown⟩
    · rename_i t _
      dsimp only
      split
      · exact ⟨_, _, freed_settles (f := w.flash) [tlvAddIntegerValue TLVType.state 1 2] (fun _ => rfl)⟩
      · rename_i pairing hp
        have hr := homekitStorageRemovePairing_succeeds hf w.flash (CString.strndup t.value t.value.length)
        rw [if_neg (not_not.mpr hr)]
        have ht := (revoke_revokes w c (CString.strndup t.value t.value.length) pairing
          (homekitStorageRemovePairing P.env.flash w.flash (CString.strndup t.value t.value.length)).2).trace
        refine ⟨[.pairingRemoved c (CString.strndup t.value t.value.length), .freed c .deviceIdentifier], _,
          respond_settles _ (by simp) (by simp) ?_ (fun he => absurd he (by decide))⟩
        exact (congrArg (· ++ [Event.freed c .deviceIdentifier]) ht).trans (by simp)

theorem listPairings_settles : ∃ es values, Settles c es values w (listPairings w c) := by
  unfold listPairings
  split
  · exact ⟨_, _, sendError_settles w c 2 .authentication⟩
  · exact ⟨[], _, respond_settles _ List.nodup_nil (by simp) (by simp) (fun _ => rfl)⟩

theorem homekitServerOnPairings_settles (hf : ∀ n, P.env.flash.succeeds n = true)
    (ha : isAdminSession w c = true) (hk : ¬ KeyDiffers w c data)
    (h : homekitServerOnPairings w c data = .ok w') : ∃ es values, Settles c es values w w' := by
  unfold homekitServerOnPairings at h
  split at h
  · simp at h
  · rename_i message hm
    split at h
    · exact Except.ok.inj h ▸ ⟨_, _, sendError_settles w c 2 .unknown⟩
    · rename_i h1
      dsimp only at h
      split at h
      · rename_i hadd
        simp only [addPairing, ha, Bool.true_eq_false, if_false] at h
        split at h
        · exact Except.ok.inj h ▸ ⟨_, _, sendError_settles w c 2 .unknown⟩
        · rename_i request hr
          split at h
          · rename_i pairing hp
            by_cases hx : cryptoEd25519ExportPublicKey pairing.deviceKey = some request.publicKey
            · exact addPairingExisting_settles hf hx h
            · refine absurd ⟨message, request, pairing, hm, not_not.mp h1, ?_, hp, hx⟩ hk
              simp [pairingsRequest, ha, hadd, hr]
          · exact addPairingNew_settles hf h
      · split at h
        · exact Except.ok.inj h ▸ removePairing_settles hf
        · split at h
          · exact Except.ok.inj h ▸ listPairings_settles
          · exact Except.ok.inj h ▸ ⟨_, _, sendError_settles w c 2 .unknown⟩

theorem pairingsRequest_add {message : List Tlv} {request : AddPairingRequest}
    (h : pairingsRequest w c message = some (.add request)) :
    isAdminSession w c = true ∧ tlvGetIntegerValue message TLVType.method (-1) = TLVMethod.addPairing ∧
      addPairingRequest P.crypto message = some request := by
  unfold pairingsRequest at h
  split at h
  · rename_i ha
    split at h
    · rename_i hm
      obtain ⟨q, hq, hr⟩ := Option.map_eq_some_iff.mp h
      exact ⟨ha, hm, hq.trans (congrArg some (Request.add.inj hr))⟩
    · split at h
      · obtain ⟨q, _, hr⟩ := Option.map_eq_some_iff.mp h
        simp at hr
      · simp at h
  · simp at h

theorem KeyDiffers.freedTwice (hk : KeyDiffers w c data) (h : homekitServerOnPairings w c data = .ok w') :
    2 ≤ (news w w').count (.freed c .pairingPublicKey) := by
  obtain ⟨message, request, pairing, hm, h1, hq, hp, hx⟩ := hk
  obtain ⟨ha, hadd, hr⟩ := pairingsRequest_add hq
  simp only [homekitServerOnPairings, hm, h1, ne_eq, not_true_eq_false, if_false, hadd, if_true,
    addPairing, ha, Bool.true_eq_false, hr, hp] at h
  exact addPairingExisting_differs hx h

theorem errorsAtomic_iff (hf : ∀ n, P.env.flash.succeeds n = true) (ha : isAdminSession w c = true)
    (h : homekitServerOnPairings w c data = .ok w') :
    ErrorsAtomic c data w w' ↔ ¬ KeyDiffers w c data := by
  constructor
  · intro he hk
    have h2 := hk.freedTwice h
    have h1 := he.freed .pairingPublicKey
    omega
  · intro hk
    obtain ⟨es, values, hs⟩ := homekitServerOnPairings_settles hf ha hk h
    exact ⟨fun he => hs.unchanged (hs.answersError.mp he), fun h => absurd h hk, hs.freed⟩

theorem admin_add_run :
    ends step (benchBoot [benchRecord 2 1]) (verifyAs 0 2) (fun w => isAdminSession w 0 &&
      (homekitServerOnPairings w 0 (tlvFormat (addMessage 3 1))).isOk) = true := by
  decide +kernel

/-- An admin adds a new controller. -/
theorem errorsAtomic_iff_addPairing :
    ∃ w w', Runs.run step (benchBoot [benchRecord 2 1]) (verifyAs 0 2) = .ok w ∧
      homekitServerOnPairings w 0 (tlvFormat (addMessage 3 1)) = .ok w' ∧
      (ErrorsAtomic 0 (tlvFormat (addMessage 3 1)) w w' ↔ ¬ KeyDiffers w 0 (tlvFormat (addMessage 3 1))) := by
  obtain ⟨w, hw, hp⟩ := ends_spec admin_add_run
  simp only [Bool.and_eq_true] at hp
  obtain ⟨ha, hok⟩ := hp
  cases h : homekitServerOnPairings w 0 (tlvFormat (addMessage 3 1)) with
  | error e => simp [h, Except.isOk, Except.toBool] at hok
  | ok w' => exact ⟨w, w', hw, h, errorsAtomic_iff (fun _ => rfl) ha h⟩

theorem other_key_run :
    ends step (benchBoot [benchRecord 2 1, benchRecord 3 0]) (verifyAs 0 2)
    (fun w => isAdminSession w 0 &&
      match homekitServerOnPairings w 0 (tlvFormat (addMessageFor 3 5 1)) with
      | .ok w' => (news w w').any (isErrorResponse 0) &&
          homekitStorageFindPairing benchCrypto benchChip w'.flash (benchId 3) !=
            homekitStorageFindPairing benchCrypto benchChip w.flash (benchId 3)
      | .error _ => false) = true := by
  decide +kernel

/-- Controller 3 has no admin bit. An AddPairing under another key is answered with an
error, and controller 3 is an admin after it. -/
theorem error_and_update_on_other_key :
    ∃ w w', Runs.run step (benchBoot [benchRecord 2 1, benchRecord 3 0]) (verifyAs 0 2) = .ok w ∧
      isAdminSession w 0 = true ∧
      homekitServerOnPairings w 0 (tlvFormat (addMessageFor 3 5 1)) = .ok w' ∧
      AnswersError 0 w w' ∧ w'.flash.mem ≠ w.flash.mem ∧ ¬ ErrorsAtomic 0 (tlvFormat (addMessageFor 3 5 1)) w w' := by
  obtain ⟨w, hw, hp⟩ := ends_spec other_key_run
  simp only [Bool.and_eq_true] at hp
  obtain ⟨ha, hp⟩ := hp
  cases h : homekitServerOnPairings w 0 (tlvFormat (addMessageFor 3 5 1)) with
  | error e => simp [h] at hp
  | ok w' =>
    simp only [h, Bool.and_eq_true, bne_iff_ne, ne_eq] at hp
    obtain ⟨he, hf⟩ := hp
    have hne : w'.flash.mem ≠ w.flash.mem := fun hm => hf (homekitStorageFindPairing_congr hm)
    exact ⟨w, w', hw, ha, h, he, hne, fun hr => hne (hr.unchanged he)⟩

end ArduinoHomeKit
