import ArduinoHomeKit.ContextLife

/-! Pair-setup tried again. An M3 whose key is accepted spends the public key of its context,
also if the proof is wrong, and an M1 of the same connection is still answered from it. -/

namespace ArduinoHomeKit

open Growth Labelled Runs

variable {P : Platform} {c : ClientId} {w w' v : World P} {S : Scope P} {message : List Tlv} {password : Option Bytes}
  {controller : Bytes → Bytes → Bytes → Bytes × Bytes} {k : ContextId} {t : Nat}

/-- A controller that knows the setup code: the key and the proof of its M3, from the code and
the salt and the key of M2. SRP completes on the state that the key was drawn from, and a key
that is refused leaves the state alone. -/
structure SrpSpec (wc : WolfCrypt) (controller : (code salt publicKey : Bytes) → Bytes × Bytes) : Prop where
  nonempty : ∀ {code salt random key state},
    wc.wcSrpGetPublic (wc.wcSrpSetVerifier (ascii "Pair-Setup") code salt) random = (some key, state) → key ≠ []
  completes : ∀ {code salt random key state},
    wc.wcSrpGetPublic (wc.wcSrpSetVerifier (ascii "Pair-Setup") code salt) random = (some key, state) →
      (controller code salt key).1 ≠ [] ∧ ∃ sessionKey state',
        wc.wcSrpComputeKey state (controller code salt key).1 key = (some sessionKey, state') ∧
          (wc.wcSrpVerifyPeersProof state' sessionKey (controller code salt key).2).1 = true
  refuses : ∀ {state clientKey key state'}, wc.wcSrpComputeKey state clientKey key = (none, state') → state' = state

/-- The setup code of a context that is prepared at a time. -/
def setupCode (P : Platform) (password : Option Bytes) (t : Nat) : Bytes :=
  match password with
  | some password => password
  | none => randomPassword (P.env.random t)

def setupSalt (P : Platform) (t : Nat) : Bytes := (P.env.random t).take 16

/-- The context has the state and the key that it was given at a time. -/
def FreshAt (P : Platform) (password : Option Bytes) (t : Nat) (x : PairingContext) : Prop :=
  cryptoSrpGetPublicKey P.crypto
      (cryptoSrpInit P.crypto cryptoSrpNew (ascii "Pair-Setup") (setupCode P password t) (setupSalt P t))
      ((P.env.random t).drop 16) = (some x.publicKey, x.srp)

/-- An answer of the given state that is no error. -/
def Answers (state : Int) (values : List Tlv) : Prop :=
  messageState values = state ∧ tlvGetValue values TLVType.error = none

/-- The message is the M3 of a controller with the code, to an M2 with the salt and the key. -/
def IsM3With (controller : Bytes → Bytes → Bytes → Bytes × Bytes) (code salt publicKey : Bytes) (message : List Tlv) :
    Prop :=
  messageState message = 3 ∧
    (∃ key, tlvGetValue message TLVType.publicKey = some key ∧ key.value = (controller code salt publicKey).1) ∧
      ∃ proof, tlvGetValue message TLVType.proof = some proof ∧ proof.value = (controller code salt publicKey).2

/-- Whenever the context is as it is now, an M3 with the code succeeds on it. -/
def Completes (controller : Bytes → Bytes → Bytes → Bytes × Bytes) (w : World P) (c : ClientId) (k : ContextId)
    (code salt publicKey : Bytes) : Prop :=
  ∀ (v : World P) (a : Action P) (message : List Tlv), SetupAction v a c message →
    IsM3With controller code salt publicKey message → v.pairingContext = some k → v.contexts k = w.contexts k →
      ∃ v' values, step v a = .ok v' ∧ .srpVerified k c ∈ news v v' ∧ .response c values ∈ news v v' ∧ Answers 4 values

/-- An M1 that is answered with M2 receives a key and the salt of a context on which the M3
with the setup code succeeds. -/
def M2Right (controller : Bytes → Bytes → Bytes → Bytes × Bytes) (password : Option Bytes) (w : World P) (a : Action P)
    (w' : World P) : Prop :=
  ∀ c message values, SetupAction w a c message → messageState message = 1 → .response c values ∈ news w w' →
    Answers 2 values →
      ∃ k t publicKey salt, tlvGetValue values TLVType.publicKey = some publicKey ∧
        tlvGetValue values TLVType.salt = some salt ∧ publicKey.value ≠ [] ∧ salt.value = setupSalt P t ∧
        (c ∈ w'.clients → w'.pairingContext = some k ∧ (w'.contexts k).client = some c) ∧
        Completes controller w' c k (setupCode P password t) salt.value publicKey.value

/-- No M1 comes from the owner of the context when the key of the context is spent. -/
def KeyUnspent (w : World P) (a : Action P) : Prop :=
  ∀ c message k, SetupAction w a c message → messageState message = 1 → w.paired = false →
    w.pairingContext = some k → (w.contexts k).client = some c → (w.contexts k).publicKey ≠ []

/-! The contexts of reachable states. -/

/-- The prepared context is fresh, or it is in use and its key is spent. -/
structure Prepared (password : Option Bytes) (w : World P) : Prop where
  code : w.password = password
  saved : ∀ k, w.savedPreinitPairingContext = some k →
    (w.pairingContext = some k ∧ (w.contexts k).publicKey = []) ∨ ∃ t, FreshAt P password t (w.contexts k)

theorem setupPassword_eq (w : World P) : setupPassword w = setupCode P w.password w.now := by
  unfold setupPassword setupCode
  cases w.password <;> rfl

theorem FreshAt.congr {x y : PairingContext} (h : FreshAt P password t x) (h1 : y.srp = x.srp)
    (h2 : y.publicKey = x.publicKey) : FreshAt P password t y := by
  unfold FreshAt
  rw [h1, h2]
  exact h

theorem Prepared.congr (h : Prepared password w) (h1 : w'.password = w.password)
    (h2 : w'.savedPreinitPairingContext = w.savedPreinitPairingContext) (h3 : w'.pairingContext = w.pairingContext)
    (h4 : w'.contexts = w.contexts) : Prepared password w' where
  code := h1.trans h.code
  saved := by
    rw [h2, h3, h4]
    exact h.saved

theorem Prepared.fresh (h : Prepared password w) (hn : w.pairingContext = none)
    (hk : w.savedPreinitPairingContext = some k) : ∃ t, FreshAt P password t (w.contexts k) := by
  rcases h.saved k hk with ⟨hc, _⟩ | hf
  · simp [hn] at hc
  · exact hf

/-- A context that is given up is no longer saved. -/
theorem Prepared.drop (h : Prepared password w) (h1 : w'.password = w.password)
    (h2 : w'.savedPreinitPairingContext = w.savedPreinitPairingContext ∨ w'.savedPreinitPairingContext = none)
    (h3 : ∀ k, w.pairingContext = some k → w'.savedPreinitPairingContext = some k → w'.pairingContext = some k)
    (h4 : w'.contexts = w.contexts) : Prepared password w' where
  code := h1.trans h.code
  saved k hk := by
    rcases h2 with h2 | h2
    · rw [h4]
      rcases h.saved k (h2 ▸ hk) with ⟨hc, hs⟩ | hf
      · exact Or.inl ⟨h3 k hc hk, hs⟩
      · exact Or.inr hf
    · simp [h2] at hk

theorem close_password (w : World P) (c : ClientId) : (homekitServerCloseClient w c).password = w.password := by
  by_cases ho : Owns w c
  · obtain ⟨k, hk, ho⟩ := ho
    rw [homekitServerCloseClient_of_owner hk ho]
    rfl
  · rw [homekitServerCloseClient_of_not_owner ho]
    rfl

theorem Prepared.close (h : Prepared password w) (c : ClientId) : Prepared password (homekitServerCloseClient w c) := by
  have hc := homekitServerCloseClient_closes w c
  exact h.drop (close_password w c) hc.saved hc.dropped hc.contexts

theorem Prepared.send (h : Prepared password w) (c : ClientId) (data : Bytes) :
    Prepared password (clientSend w c data) :=
  clientSend_invariant c (fun _ _ h _ => h.congr rfl rfl rfl rfl) (fun _ _ h => h.congr rfl rfl rfl rfl)
    (fun _ h _ => h.close c) (fun _ _ h => h.congr rfl rfl rfl rfl) w data h

theorem Prepared.preinit (h : Prepared password w) : Prepared password (arduinoHomekitPreinit w).2 := by
  rcases arduinoHomekitPreinit_cases w with ⟨_, he⟩ | ⟨hs, ⟨_, he⟩ | ⟨hk, he⟩⟩
  · rw [he]
    exact h
  · have hsaved : (pairingContextFree (prepared w) w.contextCount).savedPreinitPairingContext = none := by
      simp [pairingContextFree, World.log, prepared, World.setContext, hs]
    rw [he]
    exact ⟨h.code, fun k hk => absurd (hsaved.symm.trans hk) (by simp)⟩
  · rw [he]
    refine ⟨h.code, fun k hsk => Or.inr ⟨w.now, ?_⟩⟩
    obtain rfl := Option.some.inj hsk
    obtain ⟨key, hkey⟩ := Option.ne_none_iff_exists'.mp hk
    have hx : ({ prepared w with savedPreinitPairingContext := some w.contextCount } : World P).contexts w.contextCount =
        { srp := (preparedKey w).2, publicKey := key, client := none } := by
      simp [prepared, World.setContext, hkey]
    rw [hx, FreshAt, ← h.code, ← setupPassword_eq, ← hkey]
    rfl

theorem Change.prepared (hspec : SrpSpec P.crypto controller) (hu : Change S c w w') (hkept : ContextsKept w)
    (h : Prepared password w) : Prepared password w' := by
  cases hu with
  | client d x _ => exact h.congr rfl rfl rfl rfl
  | log e _ => exact h.congr rfl rfl rfl rfl
  | stray _ => exact h.congr rfl rfl rfl rfl
  | globals flash paired now => exact h.congr rfl rfl rfl rfl
  | serve endpoint _ => exact h.congr rfl rfl rfl rfl
  | preinit => exact h.preinit
  | opened k _ hn hk =>
    refine ⟨h.code, fun j hj => ?_⟩
    obtain rfl : k = j := Option.some.inj (hk.symm.trans hj)
    obtain ⟨t, ht⟩ := h.fresh hn hk
    exact Or.inr ⟨t, ht.congr (by simp [openContext, World.log, World.setContext])
      (by simp [openContext, World.log, World.setContext])⟩
  | refused k srp key hr =>
    have hsrp : srp = (w.contexts k).srp := by
      unfold cryptoSrpComputeKey at hr
      split at hr
      · exact (Prod.mk.inj hr).2.symm
      · split at hr
        · simp at hr
        · rename_i state hc
          obtain rfl := hspec.refuses hc
          exact (Prod.mk.inj hr).2.symm
    have hctx : (w.setContext k { w.contexts k with srp := srp }).contexts = w.contexts := by
      rw [hsrp]
      exact Function.update_eq_self k w.contexts
    exact h.congr rfl rfl rfl hctx
  | spent k srp hk =>
    refine ⟨h.code, fun j hj => ?_⟩
    obtain rfl : k = j := Option.some.inj ((hkept.current k hk).1.symm.trans hj)
    exact Or.inl ⟨hk, by simp [World.setContext]⟩
  | free k hk =>
    have hsaved : ({ pairingContextFree w k with pairingContext := none } : World P).savedPreinitPairingContext = none := by
      simp [pairingContextFree, World.log, (hkept.current k hk).1]
    exact ⟨h.code, fun j hj => absurd (hsaved.symm.trans hj) (by simp)⟩
  | session request pairing _ _ => exact h.congr rfl rfl rfl rfl

theorem Handling.prepared (hspec : SrpSpec P.crypto controller) (hh : Handling S c w w')
    (h : ContextsKept w ∧ Prepared password w) : ContextsKept w' ∧ Prepared password w' := by
  obtain ⟨payloads, hp⟩ := hh
  exact hp.invariant (I := fun v => ContextsKept v ∧ Prepared password v)
    (fun _ _ hv hu => ⟨hu.update.contextsKept hv.1, hu.prepared hspec hv.1 hv.2⟩)
    (fun v data hv => ⟨hv.1.send c data, hv.2.send c data⟩) h

theorem Prepared.sendAll (h : Prepared password w) (c : ClientId) (payloads : List Bytes) :
    Prepared password (sendAll w c payloads) := by
  induction payloads generalizing w with
  | nil => exact h
  | cons data payloads ih => exact ih (h.send c data)

theorem step_prepared (hspec : SrpSpec P.crypto controller) {a : Action P} (hkept : ContextsKept w)
    (h : Prepared password w) (hs : step w a = .ok w') : Prepared password w' := by
  have htick : Prepared password w.tick := h.congr rfl rfl rfl rfl
  cases a with
  | accept raw =>
    obtain rfl := Except.ok.inj hs
    unfold homekitServerAcceptClient
    split
    · exact h
    · exact h.congr rfl rfl rfl rfl
  | preinit => exact Except.ok.inj hs ▸ htick.preinit
  | tick => exact Except.ok.inj hs ▸ htick
  | parsed c payload => exact Except.ok.inj hs ▸ h.congr rfl rfl rfl rfl
  | buffer c b =>
    simp only [step] at hs
    split at hs
    · exact Except.ok.inj hs ▸ h.congr rfl rfl rfl rfl
    · exact Except.ok.inj hs ▸ h
  | close c =>
    simp only [step] at hs
    split at hs
    · obtain rfl := Except.ok.inj hs
      have hd : Prepared password (w.setClient c { w.client c with disconnect := true }) := h.congr rfl rfl rfl rfl
      exact hd.close c
    · exact Except.ok.inj hs ▸ h
  | notify c =>
    simp only [step] at hs
    split at hs
    · obtain rfl := Except.ok.inj hs
      unfold processNotifications
      split
      · exact h
      · have happ : Prepared password { w with app := (P.app.events c w.app).1 } := h.congr rfl rfl rfl rfl
        exact happ.sendAll c _
    · exact Except.ok.inj hs ▸ h
  | event c e =>
    simp only [step] at hs
    split at hs
    · rename_i hc
      cases e with
      | messageBegin => exact Except.ok.inj hs ▸ h.congr rfl rfl rfl rfl
      | url method data behind => exact Except.ok.inj hs ▸ h.congr rfl rfl rfl rfl
      | body data => exact Except.ok.inj hs ▸ h.congr rfl rfl rfl rfl
      | messageComplete => exact ((messageComplete_handling hc hs).prepared hspec ⟨hkept, h⟩).2
    · exact Except.ok.inj hs ▸ h

/-! The answers. -/

/-- The entries that are no answer. -/
def IsUnanswered : Event → Prop
  | .response .. => False
  | _ => True

theorem IsOutput.isUnanswered {e : Event} (h : IsOutput c e) : IsUnanswered e := by
  cases e <;> first | exact h.elim | trivial

theorem log_unanswered (w : World P) {e : Event} (he : IsUnanswered e) :
    Adds IsUnanswered w.trace (w.log e).trace := Adds.single _ he

theorem messageEnd_unanswered (w : World P) (c : ClientId) : Adds IsUnanswered w.trace (messageEnd w c).trace := by
  unfold messageEnd
  split
  · exact Adds.refl _ _
  · exact log_unanswered w (by trivial)

/-- The one answer among the news. -/
theorem response_mem_news {d : ClientId} {values given : List Tlv} {u : World P}
    (h1 : Adds IsUnanswered w.trace v.trace) (h2 : Adds IsUnanswered (v.trace ++ [.response c given]) u.trace) :
    .response d values ∈ news w u ↔ d = c ∧ values = given := by
  obtain ⟨es, hes, he⟩ := h1
  obtain ⟨fs, hfs, hf⟩ := h2
  have hnews : news w u = es ++ .response c given :: fs := by simp [news, hfs, hes]
  rw [hnews, List.mem_append, List.mem_cons]
  constructor
  · rintro (hm | hm | hm)
    · exact (he _ hm).elim
    · exact ⟨(Event.response.inj hm).1, (Event.response.inj hm).2⟩
    · exact (hf _ hm).elim
  · rintro ⟨rfl, rfl⟩
    exact Or.inr (Or.inl rfl)

theorem sendTlvResponse_unanswered (w : World P) (c : ClientId) (values : List Tlv) :
    Adds IsUnanswered (w.trace ++ [.response c values]) (sendTlvResponse w c values).trace :=
  (sendTlvResponse_sends w c values).trace.mono (fun _ he => he.isUnanswered)

theorem not_answers_error (state : Int) (error : TLVError) : ¬ Answers 2 (tlvErrorResponse state error) := by
  rintro ⟨_, h⟩
  simp [tlvErrorResponse, tlvGetValue, tlvAddIntegerValue, TLVType.state, TLVType.error] at h

/-! M1. -/

def m2Values (w : World P) (k : ContextId) : List Tlv :=
  [{ type := TLVType.publicKey, value := (w.contexts k).publicKey },
    { type := TLVType.salt, value := (w.contexts k).srp.salt }, tlvAddIntegerValue TLVType.state 1 2]

theorem m2Values_answers (w : World P) (k : ContextId) : Answers 2 (m2Values w k) := ⟨rfl, rfl⟩

theorem m2Values_publicKey (w : World P) (k : ContextId) :
    tlvGetValue (m2Values w k) TLVType.publicKey = some { type := TLVType.publicKey, value := (w.contexts k).publicKey } :=
  rfl

theorem m2Values_salt (w : World P) (k : ContextId) :
    tlvGetValue (m2Values w k) TLVType.salt = some { type := TLVType.salt, value := (w.contexts k).srp.salt } := rfl

theorem pairSetupM2_eq (w : World P) (c : ClientId) (k : ContextId) :
    pairSetupM2 w c k = (sendTlvResponse w c (m2Values w k)).setClient c
      { (sendTlvResponse w c (m2Values w k)).client c with step := .pairSetup1Of3 } := by
  unfold pairSetupM2
  rw [cryptoSrpGetSalt_sized]
  rfl

theorem preinit_unanswered (w : World P) : Adds IsUnanswered w.trace (arduinoHomekitPreinit w).2.trace := by
  rcases arduinoHomekitPreinit_cases w with ⟨_, he⟩ | ⟨_, ⟨_, he⟩ | ⟨_, he⟩⟩
  · rw [he]
    exact Adds.refl _ _
  · rw [he]
    exact Adds.single w.trace (by trivial : IsUnanswered (.contextFreed w.contextCount))
  · rw [he]
    exact Adds.refl _ _

/-- M1 is refused, or answered from the context of the connection, or from one that it opens. -/
theorem pairSetupM1_cases (w : World P) (c : ClientId) :
    (∃ v error, Adds IsUnanswered w.trace v.trace ∧ pairSetupM1 w c = sendTlvErrorResponse v c 2 error) ∨
      (∃ k, w.paired = false ∧ w.pairingContext = some k ∧ (w.contexts k).client = some c ∧
        pairSetupM1 w c = pairSetupM2 w c k) ∨
      ∃ k, w.paired = false ∧ w.pairingContext = none ∧ (arduinoHomekitPreinit w).1 = true ∧
        (arduinoHomekitPreinit w).2.savedPreinitPairingContext = some k ∧
        pairSetupM1 w c = pairSetupM2 (openContext (arduinoHomekitPreinit w).2 c k) c k := by
  have hpre := preinit_unanswered w
  unfold pairSetupM1
  split
  · exact Or.inl ⟨w, _, Adds.refl _ _, rfl⟩
  · rename_i hp
    have hp : w.paired = false := by simpa using hp
    split
    · rename_i k hk
      split
      · exact Or.inl ⟨w, _, Adds.refl _ _, rfl⟩
      · rename_i ho
        exact Or.inr (Or.inl ⟨k, hp, hk, not_not.mp ho, rfl⟩)
    · rename_i hn
      split
      · rename_i w₁ hw
        rw [hw] at hpre
        exact Or.inl ⟨w₁, _, hpre, rfl⟩
      · rename_i w₁ hw
        rw [hw] at hpre
        split
        · exact Or.inl ⟨w₁, _, hpre, rfl⟩
        · rename_i k hk
          exact Or.inr (Or.inr ⟨k, hp, hn, by simp [hw], by rw [hw]; exact hk, by rw [hw]; rfl⟩)

/-- An answer from the context `k` of the connection, and where it stands afterwards. -/
structure AnsweredFrom (c : ClientId) (k : ContextId) (v w' : World P) : Prop where
  contexts : w'.contexts = v.contexts
  inUse : v.clients.Nodup → c ∈ w'.clients → w'.pairingContext = v.pairingContext
  trace : Adds IsUnanswered (v.trace ++ [.response c (m2Values v k)]) w'.trace

theorem pairSetupM2_answered (v : World P) (c : ClientId) (k : ContextId) :
    AnsweredFrom c k v (messageEnd (pairSetupM2 v c k) c) := by
  have hs := sendTlvResponse_sends v c (m2Values v k)
  have hends := messageEnd_unanswered (pairSetupM2 v c k) c
  rw [pairSetupM2_eq] at hends ⊢
  refine ⟨?_, fun hnd hc => ?_, ?_⟩
  · rw [messageEnd_contexts]
    exact hs.contexts
  · rw [messageEnd_pairingContext]
    rw [messageEnd_clients] at hc
    rcases hs.outcome with ho | hcl
    · exact ho.pairingContext
    · have hmem : c ∈ (sendTlvResponse v c (m2Values v k)).clients := hc
      rw [hcl.clients] at hmem
      exact absurd rfl (hnd.mem_erase_iff.mp hmem).1
  · exact (sendTlvResponse_unanswered v c (m2Values v k)).trans hends

/-! M3. -/

theorem FreshAt.salt {x : PairingContext} (h : FreshAt P password t x) : x.srp.salt = setupSalt P t := by
  have hs := (Prod.mk.inj h).2
  rw [← hs]
  rfl

theorem FreshAt.getPublic {x : PairingContext} (h : FreshAt P password t x) :
    P.crypto.wcSrpGetPublic (P.crypto.wcSrpSetVerifier (ascii "Pair-Setup") (setupCode P password t) (setupSalt P t))
      ((P.env.random t).drop 16) = (some x.publicKey, x.srp.state) := by
  obtain ⟨hkey, hsrp⟩ := Prod.mk.inj h
  exact Prod.ext hkey (congrArg Srp.state hsrp)

/-- The M3 with the code on a fresh context: the proof is accepted and answered. -/
theorem pairSetupM3_completes (hspec : SrpSpec P.crypto controller) {x : PairingContext} (hf : FreshAt P password t x)
    (hm : IsM3With controller (setupCode P password t) (setupSalt P t) x.publicKey message)
    (hk : w.pairingContext = some k) (hx : w.contexts k = x) :
    ∃ (u : World P) (values : List Tlv), u.trace = w.trace ∧ Answers 4 values ∧
      pairSetupM3 w c message = .ok ((sendTlvResponse (u.log (.srpVerified k c)) c values).setClient c
        { (sendTlvResponse (u.log (.srpVerified k c)) c values).client c with step := .pairSetup2Of3 }) := by
  obtain ⟨_, ⟨key, hkey, hkv⟩, proof, hproof, hpv⟩ := hm
  have hpub := hf.getPublic
  obtain ⟨hne, sessionKey, state', hcompute, hverify⟩ := hspec.completes hpub
  have hkeys : ¬ (key.value = [] ∨ (w.contexts k).publicKey = []) := by
    rw [hkv, hx]
    exact not_or.mpr ⟨hne, hspec.nonempty hpub⟩
  rw [← hkv, ← hx] at hcompute
  rw [← hpv] at hverify
  have hck : cryptoSrpComputeKey P.crypto (w.contexts k).srp key.value (w.contexts k).publicKey =
      (true, { (w.contexts k).srp with key := sessionKey, state := state' }) := by
    simp only [cryptoSrpComputeKey, hkeys, if_false, hcompute]
  obtain ⟨srp₁, hv⟩ : ∃ srp₁, cryptoSrpVerify P.crypto
      { (w.contexts k).srp with key := sessionKey, state := state' } proof.value = (true, srp₁) :=
    ⟨_, Prod.ext hverify rfl⟩
  unfold pairSetupM3
  simp only [hkey, hproof, hk, hck, hv]
  refine ⟨_, _, ?_, ?_, rfl⟩
  · rfl
  · constructor <;> rfl

theorem completes_of_fresh (hspec : SrpSpec P.crypto controller) {x : PairingContext} (hf : FreshAt P password t x)
    (h1 : (w.contexts k).srp = x.srp) (h2 : (w.contexts k).publicKey = x.publicKey) :
    Completes controller w c k (setupCode P password t) (setupSalt P t) x.publicKey := by
  intro v a message ha hm hk hctx
  obtain ⟨u, values, htrace, hans, hM3⟩ := pairSetupM3_completes (c := c) hspec (hf.congr h1 h2)
    (h2 ▸ hm) (w := restarted (messageEntry v c) c) hk hctx
  have hon : onSetupMessage (restarted (messageEntry v c) c) c message =
      pairSetupM3 (restarted (messageEntry v c) c) c message := by simp [onSetupMessage, hm.1]
  have hstep := setupAction_step ha
  rw [hon, hM3] at hstep
  refine ⟨_, values, hstep, ?_⟩
  have hentry : (restarted (messageEntry v c) c).trace = v.trace ++ [.completed c (v.client c).endpoint] := rfl
  set u' := (sendTlvResponse (u.log (.srpVerified k c)) c values).setClient c
    { (sendTlvResponse (u.log (.srpVerified k c)) c values).client c with step := .pairSetup2Of3 } with hu'
  have hafter : Adds IsUnanswered ((u.log (.srpVerified k c)).trace ++ [.response c values]) (messageEnd u' c).trace :=
    (sendTlvResponse_unanswered _ c values).trans (messageEnd_unanswered u' c)
  have hbefore : (u.log (.srpVerified k c)).trace = v.trace ++ [.completed c (v.client c).endpoint, .srpVerified k c] := by
    simp [World.log, htrace, hentry]
  refine ⟨?_, ?_, hans⟩
  · obtain ⟨es, hes, _⟩ := hafter
    simp [news, hes, hbefore]
  · refine (response_mem_news ?_ hafter).mpr ⟨rfl, rfl⟩
    rw [hbefore]
    exact ⟨_, rfl, by simp [IsUnanswered]⟩

/-! M2 is right exactly if the key was not spent before. -/

theorem entered_unanswered (w : World P) (c : ClientId) :
    Adds IsUnanswered w.trace (restarted (messageEntry w c) c).trace :=
  Adds.single w.trace (by trivial : IsUnanswered (.completed c (w.client c).endpoint))

theorem m2Right_iff (hspec : SrpSpec P.crypto controller) {a : Action P} (hsound : Sound w) (hkept : ContextsKept w)
    (hprep : Prepared password w) (hs : step w a = .ok w') :
    M2Right controller password w a w' ↔ KeyUnspent w a := by
  have hstep : ∀ {c message}, SetupAction w a c message → messageState message = 1 →
      w' = messageEnd (pairSetupM1 (restarted (messageEntry w c) c) c) c := by
    intro c message ha h1
    have hon : onSetupMessage (restarted (messageEntry w c) c) c message =
        .ok (pairSetupM1 (restarted (messageEntry w c) c) c) := by simp [onSetupMessage, h1]
    rw [setupAction_step ha, hon] at hs
    exact (Except.ok.inj hs).symm
  have hnodup := hsound.wellFormed.nodup
  constructor
  · -- a spent key is sent out as an empty one
    intro h c message k ha h1 hp hk ho hspent
    have hw' := hstep ha h1
    have hM1 : pairSetupM1 (restarted (messageEntry w c) c) c = pairSetupM2 (restarted (messageEntry w c) c) c k := by
      have hp' : (restarted (messageEntry w c) c).paired = false := hp
      have hk' : (restarted (messageEntry w c) c).pairingContext = some k := hk
      have ho' : ((restarted (messageEntry w c) c).contexts k).client = some c := ho
      simp [pairSetupM1, hp', hk', ho']
    have hansw := pairSetupM2_answered (restarted (messageEntry w c) c) c k
    rw [← hM1, ← hw'] at hansw
    have hmem := (response_mem_news (entered_unanswered w c) hansw.trace).mpr ⟨rfl, rfl⟩
    obtain ⟨_, _, key, _, hkey, _, hne, _⟩ := h c message _ ha h1 hmem (m2Values_answers _ k)
    rw [m2Values_publicKey] at hkey
    obtain rfl := Option.some.inj hkey
    exact hne hspent
  · intro h c message values ha h1 hmem hans
    have hw' := hstep ha h1
    -- what an answer from a fresh context gives
    have hfrom : ∀ (v : World P) (k : ContextId), Adds IsUnanswered w.trace v.trace → v.clients = w.clients →
        v.pairingContext = some k → (v.contexts k).client = some c → (∃ t, FreshAt P password t (v.contexts k)) →
        w' = messageEnd (pairSetupM2 v c k) c →
        ∃ k t publicKey salt, tlvGetValue values TLVType.publicKey = some publicKey ∧
          tlvGetValue values TLVType.salt = some salt ∧ publicKey.value ≠ [] ∧ salt.value = setupSalt P t ∧
          (c ∈ w'.clients → w'.pairingContext = some k ∧ (w'.contexts k).client = some c) ∧
          Completes controller w' c k (setupCode P password t) salt.value publicKey.value := by
      intro v k hadds hcl hk ho hfresh hv
      obtain ⟨t, ht⟩ := hfresh
      have hansw := pairSetupM2_answered v c k
      rw [← hv] at hansw
      obtain ⟨_, rfl⟩ := (response_mem_news hadds hansw.trace).mp hmem
      refine ⟨k, t, _, _, m2Values_publicKey v k, m2Values_salt v k, hspec.nonempty ht.getPublic, ht.salt, ?_, ?_⟩
      · intro hc
        rw [hansw.inUse (hcl ▸ hnodup) hc, hansw.contexts]
        exact ⟨hk, ho⟩
      · dsimp only
        rw [ht.salt]
        exact completes_of_fresh hspec ht (by rw [hansw.contexts]) (by rw [hansw.contexts])
    have hentry := entered_unanswered w c
    rcases pairSetupM1_cases (restarted (messageEntry w c) c) c with
      ⟨v, error, hadds, hM1⟩ | ⟨k, hp, hk, ho, hM1⟩ | ⟨k, hp, hn, hpre, hk, hM1⟩
    · -- an error is no M2
      rw [hM1] at hw'
      have hafter : Adds IsUnanswered (v.trace ++ [.response c (tlvErrorResponse 2 error)]) w'.trace := by
        rw [hw']
        exact (sendTlvResponse_unanswered v c _).trans (messageEnd_unanswered _ c)
      obtain ⟨_, rfl⟩ := (response_mem_news (hentry.trans hadds) hafter).mp hmem
      exact absurd hans (not_answers_error 2 error)
    · rw [hM1] at hw'
      have hne := h c message k ha h1 hp hk ho
      have hfresh : ∃ t, FreshAt P password t (w.contexts k) := by
        rcases hprep.saved k (hkept.current k hk).1 with ⟨_, hsp⟩ | hf
        · exact absurd hsp hne
        · exact hf
      exact hfrom _ k hentry rfl hk ho hfresh hw'
    · rw [hM1] at hw'
      have hprep' : Prepared password (arduinoHomekitPreinit (restarted (messageEntry w c) c)).2 :=
        Prepared.preinit (hprep.congr rfl rfl rfl rfl)
      have hn' : (arduinoHomekitPreinit (restarted (messageEntry w c) c)).2.pairingContext = none :=
        (arduinoHomekitPreinit_quiet (restarted (messageEntry w c) c) c).context.elim (fun he => he.trans hn) id
      obtain ⟨t, ht⟩ := hprep'.fresh hn' hk
      refine hfrom (openContext (arduinoHomekitPreinit (restarted (messageEntry w c) c)).2 c k) k ?_ ?_ rfl ?_ ?_ hw'
      · exact (hentry.trans (preinit_unanswered _)).trans (log_unanswered _ (by trivial))
      · exact arduinoHomekitPreinit_clients (restarted (messageEntry w c) c)
      · simp [openContext, World.log, World.setContext]
      · exact ⟨t, ht.congr (by simp [openContext, World.log, World.setContext])
          (by simp [openContext, World.log, World.setContext])⟩

/-- From boot on, every M2 of a run is right exactly if no M1 comes from the owner of a context
whose key is spent. -/
theorem m2Right_run_iff (hspec : SrpSpec P.crypto controller) (accessoryId : Bytes) (accessoryKey : Ed25519Key)
    (password : Option Bytes) (flash : Flash) (app : P.App) (clients : ClientId → Client P)
    (contexts : ContextId → PairingContext) (as : List (Action P)) :
    let s := serverBoot accessoryId accessoryKey password flash app clients contexts
    Always step (M2Right controller password) s as ↔ Always step (fun w a _ => KeyUnspent w a) s as := by
  refine Always.congr (I := fun w => Sound w ∧ ContextsKept w ∧ Prepared password w)
    (fun w a w' h hs _ => ⟨step_sound h.1 hs, step_contextsKept h.2.1 hs, step_prepared hspec h.2.1 h.2.2 hs⟩)
    (fun w a w' h hs => m2Right_iff hspec h.1 h.2.1 h.2.2 hs) as
    ⟨serverBoot_sound .., serverBoot_contextsKept .., rfl, ?_⟩
  exact fun k hk => absurd hk (by simp [serverBoot])

/-- The controller of the bench sends the code as its proof. -/
def benchController (code _salt _publicKey : Bytes) : Bytes × Bytes := ([1], code)

theorem benchController_spec : SrpSpec bench.crypto benchController where
  nonempty h := by
    obtain ⟨hkey, _⟩ := Prod.mk.inj h
    exact Option.some.inj hkey ▸ List.cons_ne_nil _ _
  completes {code salt random key state} h := by
    obtain ⟨_, rfl⟩ := Prod.mk.inj h
    refine ⟨List.cons_ne_nil _ _, List.replicate 64 9, code, rfl, ?_⟩
    exact beq_self_eq_true code
  refuses h := by
    have hsome := (Prod.mk.inj h).1
    exact absurd hsome (Option.some_ne_none _)

def setupTried (code : String) : List (Action bench) := .accept benchClient :: (setupM1 0 ++ setupM3 0 code)

theorem setup_tried_run :
    checks step
    (fun w _ => w.pairingContext.all (fun k => decide ((w.contexts k).publicKey ≠ []))) (benchBoot [])
    (setupTried "000-00-000") = true := by
  decide +kernel

/-- One attempt, with whatever code: its M2 is right. -/
theorem m2Right_run_iff_bench :
    Always step (M2Right benchController (some (ascii "111-11-111"))) (benchBoot []) (setupTried "000-00-000") := by
  refine (m2Right_run_iff benchController_spec _ _ _ _ _ _ _ _).mpr (checks_spec (fun w a w' hp => ?_) setup_tried_run)
  intro c message k _ _ _ hk _
  simpa [hk] using hp

/-- The answer to the M1 carries an empty key. -/
def emptyKeyAnswer (w : World bench) : Bool :=
  decide (0 < w.clientCount) && (setupMessage (messageEntry w 0) 0).any (fun message => messageState message = 1) &&
    match step w (.event 0 .messageComplete) with
    | .ok w' => (news w w').any (fun e =>
      match e with
      | .response c values => c = 0 && decide (messageState values = 2) && (tlvGetValue values TLVType.error).isNone &&
          (tlvGetValue values TLVType.publicKey).any (fun key => key.value = [])
      | _ => false)
    | .error _ => false

theorem empty_key_run :
    ends step (benchBoot []) (setupTried "000-00-000" ++ (setupM1 0).dropLast) emptyKeyAnswer = true := by
  decide +kernel

/-- After an M3 with a wrong code the next M1 of the connection is answered with an empty key. -/
theorem retry_without_key :
    ∃ w w', run step (benchBoot []) (setupTried "000-00-000" ++ (setupM1 0).dropLast) = .ok w ∧
      step w (.event 0 .messageComplete) = .ok w' ∧ SrpSpec bench.crypto benchController ∧
      ¬ M2Right benchController (some (ascii "111-11-111")) w (.event 0 .messageComplete) w' := by
  obtain ⟨w, hw, hp⟩ := ends_spec empty_key_run
  simp only [emptyKeyAnswer, Bool.and_eq_true, decide_eq_true_eq, Option.any_eq_true] at hp
  obtain ⟨⟨hc, message, hm, h1⟩, hp⟩ := hp
  split at hp
  · rename_i w' hs
    refine ⟨w, w', hw, hs, benchController_spec, fun h => ?_⟩
    obtain ⟨e, he, hans⟩ := List.any_eq_true.mp hp
    split at hans
    · rename_i c values
      simp only [Bool.and_eq_true, decide_eq_true_eq, Option.isNone_iff_eq_none, Option.any_eq_true] at hans
      obtain ⟨⟨⟨rfl, h2⟩, herr⟩, key, hkey, hempty⟩ := hans
      obtain ⟨_, _, key', _, hkey', _, hne, _⟩ := h 0 message values ⟨rfl, hc, hm⟩ h1 he ⟨h2, herr⟩
      obtain rfl : key = key' := Option.some.inj (hkey.symm.trans hkey')
      exact hne hempty
    · simp at hans
  · simp at hp

end ArduinoHomeKit
