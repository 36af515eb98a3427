import ArduinoHomeKit.AccessoryOperations
import ArduinoHomeKit.PairingContexts
import ArduinoHomeKit.Streams

/-! The subscriptions over whole runs: the list of clients and the callbacks in the database, which
only the closing of a client and its requests keep in step. -/

namespace ArduinoHomeKit

variable {υ π : Type} {sketch : Sketch υ} {rt : Runtime} {crypto : WolfCrypt} {http : HttpParser π} {env : Environment}

/-! What every move keeps. -/

section Moves

/-- What happens next: an action of the server, or the application works between two passes. -/
inductive Move (P : Platform) (υ : Type)
  | server (a : Action P)
  | application (user : υ) (calls : List UserCall)

def move (w : World (accessoryPlatform sketch rt crypto http env)) :
    Move (accessoryPlatform sketch rt crypto http env) υ → Except Fault (World (accessoryPlatform sketch rt crypto http env))
  | .server a => step w a
  | .application user calls =>
    match w.app with
    | .error e => .error e
    | .ok s => (runUserCalls sketch calls { s with user := user }).map (fun s => { w with app := .ok s })

variable {w w' : World (accessoryPlatform sketch rt crypto http env)} {c : ClientId}
  {K : List ClientId → AccessoryState υ → Prop} {allows : List ClientId → ClientId → CharacteristicId → Prop}
  {drains : ClientId → Prop}

/-- A property of the clients and of the accessory side, as long as that is alive. -/
def AppHeld (K : List ClientId → AccessoryState υ → Prop) (w : World (accessoryPlatform sketch rt crypto http env)) : Prop :=
  ∀ s, w.app = .ok s → K w.clients s

/-- A property that connections, operations and the passes of the given clients keep. -/
structure Keeps (sketch : Sketch υ) (allows : List ClientId → ClientId → CharacteristicId → Prop) (drains : ClientId → Prop)
    (K : List ClientId → AccessoryState υ → Prop) : Prop where
  accept : ∀ l c s, K l s → K (c :: l) s
  close : ∀ l c s, K l s → K (l.erase c) (s.clearNotifyCallbacks c)
  operation : ∀ l s s', K l s → Operation sketch (allows l) s s' → K l s'
  drain : ∀ l c q s, drains c → K l s → K l { s with eventQueue := Function.update s.eventQueue c q }

/-- The moves whose subscriptions are allowed, and that only drain the queues of the given clients. -/
def Allowed (allows : List ClientId → ClientId → CharacteristicId → Prop) (drains : ClientId → Prop)
    (w : World (accessoryPlatform sketch rt crypto http env)) : Move (accessoryPlatform sketch rt crypto http env) υ → Prop
  | .server (.event c .messageComplete) => (w.client c).encrypted = true → ∀ s ch, w.app = .ok s →
    RequestSubscribes rt (w.client c).endpoint (w.client c).body s ch → allows w.clients c ch
  | .server (.notify c) => drains c
  | _ => True

theorem AppHeld.congr (h : AppHeld K w) (hc : w'.clients = w.clients) (ha : w'.app = w.app) : AppHeld K w' := by
  intro s hs
  rw [hc]
  exact h s (ha ▸ hs)

theorem AppHeld.operates (hK : Keeps sketch allows drains K) {s s' : AccessoryState υ} (h : K w.clients s)
    (ho : Operates sketch (allows w.clients) s s') : K w.clients s' :=
  ho.invariant (fun s s' => hK.operation w.clients s s') h

theorem AppHeld.close (hK : Keeps sketch allows drains K) (h : AppHeld K w) (c : ClientId) :
    AppHeld K (homekitServerCloseClient w c) := by
  have hclients : (homekitServerCloseClient w c).clients = w.clients.erase c := by
    rw [← unlink_eq_erase]
    unfold homekitServerCloseClient
    dsimp only
    split
    · split <;> rfl
    · rfl
  have happ : (homekitServerCloseClient w c).app = w.app.map (AccessoryState.clearNotifyCallbacks c) := by
    unfold homekitServerCloseClient
    dsimp only
    split
    · split <;> rfl
    · rfl
  intro s' hs'
  obtain ⟨s, hs, rfl⟩ := map_eq_ok.mp (happ.symm.trans hs')
  rw [hclients]
  exact hK.close w.clients c s (h s hs)

theorem AppHeld.send (hK : Keeps sketch allows drains K) (h : AppHeld K w) (c : ClientId) (data : Bytes) :
    AppHeld K (clientSend w c data) :=
  clientSend_invariant c (fun _ _ h _ => h.congr rfl rfl) (fun _ _ h => h.congr rfl rfl) (fun _ h _ => h.close hK c)
    (fun _ _ h => h.congr rfl rfl) w data h

theorem AppHeld.sendAll (hK : Keeps sketch allows drains K) (h : AppHeld K w) (c : ClientId) (payloads : List Bytes) :
    AppHeld K (sendAll w c payloads) := by
  induction payloads generalizing w with
  | nil => exact h
  | cons data payloads ih => exact ih (h.send hK c data)

theorem arduinoHomekitPreinit_app {P : Platform} (w : World P) : (arduinoHomekitPreinit w).2.app = w.app := by
  rcases arduinoHomekitPreinit_cases w with ⟨_, h⟩ | ⟨_, ⟨_, h⟩ | ⟨_, h⟩⟩ <;> rw [h] <;> rfl

theorem AppHeld.preinit (h : AppHeld K w) : AppHeld K (arduinoHomekitPreinit w).2 :=
  h.congr (arduinoHomekitPreinit_clients w) (arduinoHomekitPreinit_app w)

/-- Messages that are not for the accessory side. -/
def pairingScope (P : Platform) : Scope P where
  opens _ _ := True
  reads _ := True
  serves _ := False

theorem Change.held (h : AppHeld K w) (hu : Change (pairingScope _) c w w') : AppHeld K w' := by
  cases hu with
  | serve endpoint hs => exact hs.elim
  | preinit => exact h.preinit
  | _ => exact h.congr rfl rfl

theorem Handling.held (hK : Keeps sketch allows drains K) (h : AppHeld K w) (hw : Handling (pairingScope _) c w w') :
    AppHeld K w' := by
  obtain ⟨payloads, hpath⟩ := hw
  exact hpath.invariant (fun _ _ h hu => hu.held h) (fun _ data h => h.send hK c data) h

theorem AppHeld.serve (hK : Keeps sketch allows drains K) (h : AppHeld K w) {endpoint : Endpoint}
    (ha : ∀ s ch, w.app = .ok s → RequestSubscribes rt endpoint (w.client c).body s ch → allows w.clients c ch) :
    AppHeld K (serve w c endpoint) := by
  refine AppHeld.sendAll hK ?_ c _
  intro s' hs'
  obtain ⟨s, hs, ho⟩ := accessoryServe_operates hs'
  refine AppHeld.operates hK (h s hs) (ho.mono ?_)
  rintro d ch ⟨rfl, hsub⟩
  exact ha s ch hs hsub

theorem AppHeld.messageEntry (h : AppHeld K w) : AppHeld K (messageEntry w c) := h.congr rfl rfl

theorem AppHeld.messageEnd (h : AppHeld K w) : AppHeld K (messageEnd w c) := by
  unfold ArduinoHomeKit.messageEnd
  split
  · exact h.congr rfl rfl
  · exact h.congr rfl rfl

theorem AppHeld.message (hK : Keeps sketch allows drains K) (hc : c < w.clientCount) (h : AppHeld K w)
    (ha : (w.client c).encrypted = true → ∀ s ch, w.app = .ok s →
      RequestSubscribes rt (w.client c).endpoint (w.client c).body s ch → allows w.clients c ch) {origins : List Origin}
    (hm : handleMessage w c origins = .ok w') : AppHeld K w' := by
  unfold handleMessage at hm
  split at hm
  · rename_i he
    split at hm
    · have hr : Handling (pairingScope _) c w w := .refl w
      exact (hr.pairSetup (fun _ _ _ _ _ _ => trivial) hm).held hK h
    · have hr : Handling (pairingScope _) c w w := .refl w
      exact (hr.pairVerify hc he hm).held hK h
    · exact Except.ok.inj hm ▸ h.send hK c _
  · rename_i he
    have hlog : AppHeld K (w.log (.dispatched c (w.client c).endpoint origins)) := h.congr rfl rfl
    have hserve : AppHeld K (ArduinoHomeKit.serve (w.log (.dispatched c (w.client c).endpoint origins)) c (w.client c).endpoint) :=
      hlog.serve hK (ha (by simpa using he))
    unfold dispatch at hm
    dsimp only at hm
    split at hm
    case h_6 =>
      have hr : Handling (pairingScope _) c (w.log (.dispatched c (w.client c).endpoint origins)) w' :=
        (Handling.refl _).pairings hm
      exact hr.held hK hlog
    all_goals first
      | (obtain rfl := Except.ok.inj hm; exact hserve)
      | (obtain rfl := Except.ok.inj hm; exact h.send hK c _)

/-- What connections, operations and passes keep, an allowed move keeps. -/
theorem move_held (hK : Keeps sketch allows drains K) {a : Move (accessoryPlatform sketch rt crypto http env) υ}
    (h : AppHeld K w) (ha : Allowed allows drains w a) (hr : move w a = .ok w') : AppHeld K w' := by
  cases a with
  | application user calls =>
    rw [move] at hr
    split at hr
    · simp at hr
    · rename_i s hs
      obtain ⟨s₁, hs₁, rfl⟩ := map_eq_ok.mp hr
      intro s' hs'
      obtain rfl := Except.ok.inj hs'
      have hu : K w.clients { s with user := user } :=
        hK.operation w.clients s _ (h s hs) (.assign (.refl _) rfl)
      exact AppHeld.operates hK hu (runUserCalls_operates hs₁)
  | server a =>
    cases a with
    | accept raw =>
      obtain rfl := Except.ok.inj hr
      intro s hs
      unfold homekitServerAcceptClient at hs ⊢
      split at hs
      · rename_i hn
        rw [if_pos hn]
        exact h s hs
      · rename_i hn
        rw [if_neg hn]
        exact hK.accept w.clients w.clientCount s (h s hs)
    | preinit => exact Except.ok.inj hr ▸ AppHeld.preinit (h.congr rfl rfl)
    | tick => exact Except.ok.inj hr ▸ h.congr rfl rfl
    | parsed c payload => exact Except.ok.inj hr ▸ h.congr rfl rfl
    | buffer c b =>
      simp only [move, step] at hr
      split at hr
      · exact Except.ok.inj hr ▸ h.congr rfl rfl
      · exact Except.ok.inj hr ▸ h
    | close c =>
      simp only [move, step] at hr
      split at hr
      · have hmarked : AppHeld K (w.setClient c { w.client c with disconnect := true }) := h.congr rfl rfl
        exact Except.ok.inj hr ▸ hmarked.close hK c
      · exact Except.ok.inj hr ▸ h
    | notify c =>
      simp only [move, step] at hr
      split at hr
      · obtain rfl := Except.ok.inj hr
        unfold processNotifications
        split
        · exact h
        · refine AppHeld.sendAll hK ?_ c _
          intro s' hs'
          obtain ⟨s, q, hs, ho⟩ := accessoryEvents_drains (A := allows w.clients) hs'
          exact AppHeld.operates hK (hK.drain w.clients c q s ha (h s hs)) ho
      · exact Except.ok.inj hr ▸ h
    | event c e =>
      simp only [move, step] at hr
      split at hr
      · rename_i hc
        cases e with
        | messageComplete =>
          simp only [handleEvent, homekitServerOnMessageComplete] at hr
          obtain ⟨w₁, hw₁, rfl⟩ := map_eq_ok.mp hr
          refine AppHeld.messageEnd (AppHeld.message hK (w := messageEntry w c) hc h.messageEntry ?_ hw₁)
          rw [messageEntry_client]
          exact ha
        | _ => exact Except.ok.inj hr ▸ h.congr rfl rfl
      · exact Except.ok.inj hr ▸ h

/-- And so does a run of allowed moves. -/
theorem moves_held (hK : Keeps sketch allows drains K) {as : List (Move (accessoryPlatform sketch rt crypto http env) υ)}
    (h : AppHeld K w) (ha : Runs.Always move (fun w a _ => Allowed allows drains w a) w as)
    (hr : Runs.run move w as = .ok w') :
    AppHeld K w' :=
  Runs.Always.invariant (I := AppHeld K) (p := fun w a _ => Allowed allows drains w a)
    (fun _ _ _ h hr ha => move_held hK h ha hr) h ha hr

end Moves

/-! The clients behind the callbacks. -/

section Callbacks

variable {w w' : World (accessoryPlatform sketch rt crypto http env)} {l l' : List ClientId} {s s' : AccessoryState υ}
  {db : Database} {c d : ClientId} {ch : CharacteristicId}

/-- Every callback of the server has a client of the list as its context. -/
def SubscribersListed (l : List ClientId) (s : AccessoryState υ) : Prop :=
  ∀ ch ∈ s.database.characteristics, ∀ d, Subscribed s.database ch d → d ∈ l

/-- No notification changes the queue of a client that is not in the list. -/
def QueuesListed (sketch : Sketch υ) (l : List ClientId) (s : AccessoryState υ) : Prop :=
  ∀ ch ∈ s.database.characteristics, ∀ value s', homekitCharacteristicNotify sketch s ch value = .ok s' →
    ∀ d ∉ l, s'.eventQueue d = s.eventQueue d

/-- As the sketch sets its database up: no function of the server is a callback there. -/
def NoSubscribers (s : AccessoryState υ) : Prop := ∀ ch d, ¬ Subscribed s.database ch d

/-- A request of a session subscribes its client only while the client is in the list. -/
def SubscribesListed (w : World (accessoryPlatform sketch rt crypto http env))
    (a : Move (accessoryPlatform sketch rt crypto http env) υ) : Prop :=
  Allowed (fun l c _ => c ∈ l) (fun _ => True) w a

theorem SubscribersListed.congr (h : SubscribersListed l s) (hf : SameFrame s.database s'.database)
    (hl : ∀ ch ∈ s.database.characteristics, ∀ d ∈ l, Subscribed s'.database ch d → d ∈ l')
    (hs : ∀ ch ∈ s.database.characteristics, ∀ d, Subscribed s'.database ch d → Subscribed s.database ch d) :
    SubscribersListed l' s' := by
  intro ch hch d hd
  rw [hf.characteristics] at hch
  exact hl ch hch d (h ch hch d (hs ch hch d hd)) hd

/-- The sweep over all characteristics. -/
theorem clearNotifyCallbacks_frame (chs : List CharacteristicId) (db : Database) (c : ClientId) :
    SameFrame db (chs.foldl (fun db ch => db.homekitCharacteristicRemoveNotifyCallback ch (clientCallback c)) db) ∧
      ∀ i d, Subscribed (chs.foldl (fun db ch => db.homekitCharacteristicRemoveNotifyCallback ch (clientCallback c)) db) i d ↔
        ¬ (i ∈ chs ∧ d = c) ∧ Subscribed db i d := by
  induction chs generalizing db with
  | nil => exact ⟨(SameShape.refl db).sameFrame, fun i d => by simp⟩
  | cons ch chs ih =>
    obtain ⟨hframe, hsub⟩ := ih (db.homekitCharacteristicRemoveNotifyCallback ch (clientCallback c))
    refine ⟨(sameFrame_setCallbacks db ch _).trans hframe, fun i d => ?_⟩
    rw [List.foldl_cons, hsub i d, subscribed_remove, List.mem_cons]
    tauto

/-- The clients stay ahead of the callbacks. -/
theorem subscribersListed_keeps (sketch : Sketch υ) :
    Keeps sketch (fun l c _ => c ∈ l) (fun _ => True) SubscribersListed where
  accept l c s h := h.congr (SameShape.refl _).sameFrame (fun _ _ _ hd _ => List.mem_cons_of_mem c hd) (fun _ _ _ hd => hd)
  close l c s h := by
    obtain ⟨hframe, hsub⟩ := clearNotifyCallbacks_frame s.database.characteristics s.database c
    refine h.congr hframe (fun ch hch d hd hs => ?_) (fun ch _ d hs => ((hsub ch d).mp hs).2)
    have hne : d ≠ c := fun he => ((hsub ch d).mp hs).1 ⟨hch, he⟩
    exact (List.mem_erase_of_ne hne).mpr hd
  operation l s s' h ho := by
    have hframe := ho.sameFrame
    cases ho with
    | notify ch value hn =>
      refine h.congr hframe (fun _ _ _ hd _ => hd) (fun _ _ _ hd => ?_)
      rwa [(homekitCharacteristicNotify_notified hn).database] at hd
    | assign hs _ => exact h.congr hframe (fun _ _ _ hd _ => hd) (fun ch _ d hd => (hs.subscribed ch d).mp hd)
    | free hf =>
      exact h.congr hframe (fun _ _ _ hd _ => hd) (fun ch _ d hd => ((mapValues_shape _ s).subscribed ch d).mp hd)
    | subscribe c ch hc _ =>
      intro i hi d hd
      rcases (subscribed_add _ ch i c d).mp hd with ⟨_, rfl⟩ | hold
      · exact hc
      · exact h i (hframe.characteristics ▸ hi) d hold
    | unsubscribe c ch =>
      exact h.congr hframe (fun _ _ _ hd _ => hd) (fun i _ d hd => ((subscribed_remove _ ch i c d).mp hd).2)
  drain l c q s _ h := h

/-- A notification goes to the callbacks that are registered. -/
theorem SubscribersListed.queues (h : SubscribersListed l s) : QueuesListed sketch l s := by
  intro ch hch value s' hn d hd
  exact notifyLoop_other (fun hmem => hd (h ch hch d hmem)) hn

/-- In a run from a database without subscribers, every callback keeps a client of the list as its
context, if every request that subscribes comes from one. -/
theorem subscribers_are_clients {as : List (Move (accessoryPlatform sketch rt crypto http env) υ)}
    (h0 : ∀ s, w.app = .ok s → NoSubscribers s) (ha : Runs.Always move (fun w a _ => SubscribesListed w a) w as)
    (hr : Runs.run move w as = .ok w') :
    ∀ s, w'.app = .ok s → SubscribersListed w'.clients s ∧ QueuesListed sketch w'.clients s := by
  intro s hs
  have hstart : AppHeld SubscribersListed w := fun s hs ch _ d hd => absurd hd (h0 s hs ch d)
  have hlisted := moves_held (subscribersListed_keeps sketch) hstart ha hr s hs
  exact ⟨hlisted, hlisted.queues⟩

/-- Each callback of the server is at most once in a list. -/
def CallbacksOnce (s : AccessoryState υ) : Prop :=
  ∀ ch d, (s.database.characteristic ch).callback.count (clientCallback d) ≤ 1

/-- The database has no callback more often than before. -/
def NoMoreCallbacks (db db' : Database) : Prop :=
  ∀ ch cb, (db'.characteristic ch).callback.count cb ≤ (db.characteristic ch).callback.count cb

theorem CallbacksOnce.mono (h : CallbacksOnce s) (hs : NoMoreCallbacks s.database s'.database) : CallbacksOnce s' :=
  fun ch d => (hs ch (clientCallback d)).trans (h ch d)

theorem SameShape.noMoreCallbacks {db' : Database} (h : SameShape db db') : NoMoreCallbacks db db' :=
  fun ch cb => by rw [h.characteristic ch]

theorem noMoreCallbacks_remove (db : Database) (ch : CharacteristicId) (cb : Callback) :
    NoMoreCallbacks db (db.homekitCharacteristicRemoveNotifyCallback ch cb) := by
  intro i cb'
  rw [Database.homekitCharacteristicRemoveNotifyCallback]
  by_cases hi : i = ch
  · rw [hi, setCharacteristic_self, removeCallback_eq]
    exact List.filter_sublist.count_le cb'
  · rw [setCharacteristic_of_ne hi]

theorem noMoreCallbacks_clear (chs : List CharacteristicId) (db : Database) (cb : Callback) :
    NoMoreCallbacks db (chs.foldl (fun db ch => db.homekitCharacteristicRemoveNotifyCallback ch cb) db) := by
  induction chs generalizing db with
  | nil => exact fun _ _ => le_refl _
  | cons ch chs ih => exact fun i cb' => (ih _ i cb').trans (noMoreCallbacks_remove db ch cb i cb')

theorem count_addCallback {cb cb' : Callback} {cbs : List Callback} (h : cbs.count cb ≤ 1) :
    (addCallback cb' cbs).count cb ≤ 1 := by
  rw [addCallback_eq]
  split
  · exact h
  · rename_i hcb
    rw [List.count_append, List.count_singleton]
    split
    · rename_i he
      have hzero : cbs.count cb = 0 := List.count_eq_zero.mpr (fun hmem => hcb (eq_of_beq he ▸ hmem))
      omega
    · exact h

theorem callbacksOnce_keeps (sketch : Sketch υ) :
    Keeps sketch (fun _ _ _ => True) (fun _ => True) (fun _ => CallbacksOnce) where
  accept l c s h := h
  close l c s h := h.mono (noMoreCallbacks_clear s.database.characteristics s.database (clientCallback c))
  operation l s s' h ho := by
    cases ho with
    | notify ch value hn =>
      intro i d
      rw [(homekitCharacteristicNotify_notified hn).database]
      exact h i d
    | assign hs _ => exact h.mono hs.noMoreCallbacks
    | free hf => exact h.mono (mapValues_shape _ s).noMoreCallbacks
    | subscribe c ch _ _ =>
      intro i d
      by_cases hi : i = ch
      · rw [hi, Database.homekitCharacteristicAddNotifyCallback, setCharacteristic_self]
        exact count_addCallback (h ch d)
      · rw [Database.homekitCharacteristicAddNotifyCallback, setCharacteristic_of_ne hi]
        exact h i d
    | unsubscribe c ch => exact h.mono (noMoreCallbacks_remove s.database ch (clientCallback c))
  drain l c q s _ h := h

/-- In every run from a database without subscribers. -/
theorem callbacks_once {as : List (Move (accessoryPlatform sketch rt crypto http env) υ)}
    (h0 : ∀ s, w.app = .ok s → NoSubscribers s) (hr : Runs.run move w as = .ok w') :
    ∀ s, w'.app = .ok s → CallbacksOnce s := by
  have hstart : AppHeld (fun _ => CallbacksOnce) w := fun s hs ch d => by
    rw [List.count_eq_zero.mpr (h0 s hs ch d)]
    exact Nat.zero_le 1
  refine moves_held (callbacksOnce_keeps sketch) hstart (Runs.Always.of_forall (fun w a _ _ => ?_) w as) hr
  cases a with
  | application user calls => trivial
  | server a =>
    cases a with
    | event c e => cases e <;> first | trivial | exact fun _ _ _ _ _ => trivial
    | _ => trivial

end Callbacks

section Bench

/-- The body of every PUT subscribes to the lamp. -/
def lampRuntime : Runtime :=
  { benchRuntime with
    cJSONParse := fun _ => some (.object [(ascii "characteristics", .array [benchItem "ev" (.boolean true)])]) }

/-- The bench with a lamp, on a network that refuses one write. -/
def lampPlatform (refused : Nat) : Platform :=
  accessoryPlatform benchSketch lampRuntime benchCrypto benchHttp
    { bench.env with socketWrite := fun n => if n = refused then .failed else .sent }

def lampBoot (refused : Nat) : World (lampPlatform refused) :=
  serverBoot (ascii "AA:BB:CC:DD:EE:FF") { p := benchKey 1, k := [] } (some (ascii "111-11-111"))
    (benchFlash [benchRecord 3 1]) (.ok (benchState [benchLamp])) (fun _ => rawClient (lampPlatform refused) ())
    (fun _ => { srp := cryptoSrpNew, publicKey := [], client := none })

/-- A client of the list has its callback on the lamp, or one that is closed. -/
def lampSubscriber {refused : Nat} (listed : Bool) (w : World (lampPlatform refused)) : Bool :=
  decide (0 ∈ w.clients) == listed &&
    match w.app with
    | .ok s => decide (clientCallback 0 ∈ (s.database.characteristic 0).callback) && decide (0 ∈ s.database.characteristics)
    | .error _ => false

/-- The callbacks of a request. -/
def requestEvents {P : Platform} {υ : Type} (c : ClientId) (method : HttpMethod) (url : String) (body : Bytes) :
    List (Move P υ) :=
  [.server (.event c .messageBegin), .server (.event c (.url method (ascii url) [])), .server (.event c (.body body)),
    .server (.event c .messageComplete)]

/-- A controller that subscribes to the lamp. -/
def lampMoves (refused : Nat) : List (Move (lampPlatform refused) Unit) :=
  .server (.accept (rawClient (lampPlatform refused) ())) ::
    (requestEvents 0 .post "/pair-verify" (tlvFormat (verifyMessage1 3)) ++
      requestEvents 0 .post "/pair-verify" (tlvFormat (verifyMessage3 3 (signedBy 3))) ++
      requestEvents 0 .put "/characteristics" [])

/-- Every message of the run comes from a client of the list. -/
def fromListed {refused : Nat} : World (lampPlatform refused) → List (Move (lampPlatform refused) Unit) → Bool
  | _, [] => true
  | w, a :: as =>
    (match a with
      | .server (.event c .messageComplete) => decide (c ∈ w.clients)
      | _ => true) &&
      match move w a with
      | .ok w' => fromListed w' as
      | .error _ => true

theorem fromListed_spec {refused : Nat} {w : World (lampPlatform refused)} {as : List (Move (lampPlatform refused) Unit)}
    (h : fromListed w as = true) : Runs.Always move (fun w a _ => SubscribesListed w a) w as := by
  induction as generalizing w with
  | nil => trivial
  | cons a as ih =>
    intro w' hw'
    simp only [fromListed, hw', Bool.and_eq_true] at h
    refine ⟨?_, ih h.2⟩
    cases a with
    | application user calls => trivial
    | server a =>
      cases a with
      | event c e =>
        cases e with
        | messageComplete => exact fun _ _ _ _ _ => of_decide_eq_true h.1
        | _ => trivial
      | _ => trivial

theorem lampBoot_noSubscribers (refused : Nat) : ∀ s, (lampBoot refused).app = .ok s → NoSubscribers s := by
  intro s hs ch d hd
  have happ : (lampBoot refused).app = .ok (benchState [benchLamp]) := rfl
  rw [← Except.ok.inj (happ.symm.trans hs), Subscribed] at hd
  have hnone : ((benchState [benchLamp]).database.characteristic ch).callback = [] := by
    cases ch <;> rfl
  rw [hnone] at hd
  simp at hd

theorem lamp_moves_run :
    (fromListed (lampBoot 9) (lampMoves 9) &&
    match Runs.run move (lampBoot 9) (lampMoves 9) with
    | .ok w => lampSubscriber true w
    | .error _ => false) = true := by
  decide +kernel

theorem subscribers_are_clients_lamp : ∃ w s, Runs.run move (lampBoot 9) (lampMoves 9) = .ok w ∧ w.app = .ok s ∧
    Subscribed s.database 0 0 ∧ SubscribersListed w.clients s ∧ QueuesListed benchSketch w.clients s := by
  have hrun := lamp_moves_run
  rw [Bool.and_eq_true] at hrun
  obtain ⟨hlisted, hrun⟩ := hrun
  split at hrun
  · rename_i w hw
    simp only [lampSubscriber, Bool.and_eq_true] at hrun
    obtain ⟨_, hrun⟩ := hrun
    split at hrun
    · rename_i s hs
      rw [Bool.and_eq_true] at hrun
      obtain ⟨h1, h2⟩ := subscribers_are_clients (lampBoot_noSubscribers 9) (fromListed_spec hlisted) hw s hs
      have hsub : clientCallback 0 ∈ (s.database.characteristic 0).callback := of_decide_eq_true hrun.1
      exact ⟨w, s, hw, hs, hsub, h1, h2⟩
    · simp at hrun
  · simp at hrun

/-- The calls of a controller that opens a session, and sends two requests in one frame: one that is
answered with 404, and the subscription. -/
def pipelinedCalls (refused : Nat) : List (Call (lampPlatform refused)) :=
  .accept (rawClient (lampPlatform refused) ()) ::
    [httpRequest "POST" "/pair-verify" (tlvFormat (verifyMessage1 3)),
      httpRequest "POST" "/pair-verify" (tlvFormat (verifyMessage3 3 (signedBy 3))),
      sealedFrame 3 0 (httpRequest "GET" "/none" [] ++ httpRequest "PUT" "/characteristics" [45])].map
      (fun bytes => .process 0 { bytes := bytes, connected := true })

theorem pipelined_calls_run :
    (match Runs.run call (lampBoot 2) (pipelinedCalls 2) with
    | .ok w => lampSubscriber false w
    | .error _ => false) = true := by
  decide +kernel

/-- The 404 cannot be written, so the client is closed before its subscription is processed. -/
theorem closed_client_subscribed : ∃ w s, Runs.run call (lampBoot 2) (pipelinedCalls 2) = .ok w ∧ w.app = .ok s ∧
    ¬ SubscribersListed w.clients s := by
  have hrun := pipelined_calls_run
  split at hrun
  · rename_i w hw
    simp only [lampSubscriber, Bool.and_eq_true] at hrun
    obtain ⟨hclosed, hrun⟩ := hrun
    split at hrun
    · rename_i s hs
      rw [Bool.and_eq_true] at hrun
      refine ⟨w, s, hw, hs, fun h => ?_⟩
      have hsub : clientCallback 0 ∈ (s.database.characteristic 0).callback := of_decide_eq_true hrun.1
      have hmem := h 0 (of_decide_eq_true hrun.2) 0 hsub
      simp [hmem] at hclosed
    · simp at hrun
  · simp at hrun

end Bench

end ArduinoHomeKit
