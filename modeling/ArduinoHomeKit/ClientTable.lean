import ArduinoHomeKit.ContextLife
import ArduinoHomeKit.Refinement

/-! The table of the connections. The counter and the list are kept separately, but the loop
closes a connection only while it has its socket, and then it is still in the list. -/

namespace ArduinoHomeKit

open Growth Runs

variable {P : Platform} {c d : ClientId} {w w' : World P} {S : Scope P} {e : Event}

/-- The connections after the entries of a log, the newest first. -/
def tableEvent : List ClientId → Event → List ClientId
  | l, .connected c => c :: l
  | l, .closed c => l.erase c
  | l, _ => l

def table (es : List Event) : List ClientId := es.foldl tableEvent []

/-- The counter after the entries of a log. -/
def counterEvent : Int → Event → Int
  | n, .connected _ => n + 1
  | n, .closed _ => n - 1
  | n, _ => n

def counter (es : List Event) : Int := es.foldl counterEvent 0

/-- The table is right after the entries of a log, and if the last of them closes a connection
this one was in the table before. -/
structure TableRight (es : List Event) : Prop where
  count : counter es = (table es).length
  distinct : (table es).Nodup
  room : ((table es).length : Int) ≤ homekitMaxClients
  closing : ∀ c fs, es = fs ++ [.closed c] → c ∈ table fs ∧ table es = (table fs).filter (fun d => d != c)

/-- The server has the table of its log, which was right at every moment. -/
structure Seated (w : World P) : Prop where
  clients : w.clients = table w.trace
  nfds : w.nfds = counter w.trace
  bound : ∀ c ∈ w.clients, c < w.clientCount
  sockets : SocketsListed w
  moments : ∀ es, es <+: w.trace → TableRight es

theorem table_concat (es : List Event) (e : Event) : table (es ++ [e]) = tableEvent (table es) e := by
  simp [table]

theorem counter_concat (es : List Event) (e : Event) : counter (es ++ [e]) = counterEvent (counter es) e := by
  simp [counter]

/-- The entries that tell of no connection that comes or goes. -/
def IsUnseating : Event → Prop
  | .connected .. | .closed .. => False
  | _ => True

theorem tableEvent_of_unseating (he : IsUnseating e) (l : List ClientId) : tableEvent l e = l := by
  cases e <;> first | exact he.elim | rfl

theorem counterEvent_of_unseating (he : IsUnseating e) (n : Int) : counterEvent n e = n := by
  cases e <;> first | exact he.elim | rfl

theorem IsNeutral.isUnseating (h : IsNeutral e) : IsUnseating e := by
  cases e <;> first | exact h.elim | trivial

/-- Every moment up to a new entry is one from before, or the one right after it. -/
theorem moments_concat {es : List Event} (h : ∀ fs, fs <+: es → TableRight fs) (he : TableRight (es ++ [e])) :
    ∀ fs, fs <+: es ++ [e] → TableRight fs := by
  intro fs hfs
  rcases List.prefix_concat_iff.mp hfs with rfl | hfs
  · exact he
  · exact h fs hfs

theorem TableRight.unseating {es : List Event} (h : TableRight es) (he : IsUnseating e) : TableRight (es ++ [e]) := by
  have ht : table (es ++ [e]) = table es := by rw [table_concat, tableEvent_of_unseating he]
  have hc : counter (es ++ [e]) = counter es := by rw [counter_concat, counterEvent_of_unseating he]
  refine ⟨by rw [hc, ht, h.count], ht ▸ h.distinct, ht ▸ h.room, fun c fs hfs => ?_⟩
  obtain ⟨_, hlast⟩ := List.append_inj' hfs rfl
  obtain rfl := List.singleton_inj.mp hlast
  exact he.elim

theorem TableRight.connected {es : List Event} (h : TableRight es) (hc : c ∉ table es)
    (hr : counter es < homekitMaxClients) : TableRight (es ++ [.connected c]) := by
  have ht : table (es ++ [.connected c]) = c :: table es := table_concat ..
  have hn : counter (es ++ [.connected c]) = counter es + 1 := counter_concat ..
  have hcount := h.count
  refine ⟨?_, ?_, ?_, fun d fs hfs => ?_⟩
  · rw [hn, ht, hcount, List.length_cons]
    omega
  · rw [ht]
    exact List.nodup_cons.mpr ⟨hc, h.distinct⟩
  · rw [ht, List.length_cons]
    omega
  · obtain ⟨_, hlast⟩ := List.append_inj' hfs rfl
    simp at hlast

theorem TableRight.closed {es : List Event} (h : TableRight es) (hc : c ∈ table es) :
    TableRight (es ++ [.closed c]) := by
  have ht : table (es ++ [.closed c]) = (table es).erase c := table_concat ..
  have hn : counter (es ++ [.closed c]) = counter es - 1 := counter_concat ..
  have hlen := List.length_erase_of_mem hc
  have hpos := List.length_pos_of_mem hc
  have hcount := h.count
  have hroom := h.room
  refine ⟨?_, ?_, ?_, fun d fs hfs => ?_⟩
  · rw [hn, ht, hcount, hlen]
    omega
  · rw [ht]
    exact h.distinct.erase c
  · rw [ht, hlen]
    omega
  · obtain ⟨rfl, hlast⟩ := List.append_inj' hfs rfl
    obtain rfl : c = d := by simpa using hlast
    exact ⟨hc, ht.trans (h.distinct.erase_eq_filter c)⟩

/-! The updates of the server. -/

theorem Seated.right (h : Seated w) : TableRight w.trace := h.moments _ (List.prefix_refl _)

/-- Updates that change neither the table nor the log. -/
theorem Seated.congr (h : Seated w) (h1 : w'.clients = w.clients) (h2 : w'.nfds = w.nfds)
    (h3 : w'.clientCount = w.clientCount) (h4 : w'.trace = w.trace)
    (h5 : ∀ d, (w.client d).socket = none → (w'.client d).socket = none) : Seated w' where
  clients := by rw [h1, h4, h.clients]
  nfds := by rw [h2, h4, h.nfds]
  bound := by
    rw [h1, h3]
    exact h.bound
  sockets d hd hm := h5 d (h.sockets d (h3 ▸ hd) (h1 ▸ hm))
  moments := h4 ▸ h.moments

theorem Seated.log (h : Seated w) (he : IsUnseating e) : Seated (w.log e) where
  clients := by
    show w.clients = table (w.trace ++ [e])
    rw [table_concat, tableEvent_of_unseating he, h.clients]
  nfds := by
    show w.nfds = counter (w.trace ++ [e])
    rw [counter_concat, counterEvent_of_unseating he, h.nfds]
  bound := h.bound
  sockets := h.sockets
  moments := moments_concat h.moments (h.right.unseating he)

theorem Seated.client {x : Client P} (h : Seated w) (hx : (w.client c).socket = none → x.socket = none) :
    Seated (w.setClient c x) :=
  ⟨h.clients, h.nfds, h.bound, h.sockets.client hx, h.moments⟩

theorem Seated.mem_of_socket (h : Seated w) (hc : c < w.clientCount) (hs : (w.client c).socket ≠ none) :
    c ∈ w.clients := by
  by_contra hm
  exact hs (h.sockets c hc hm)

theorem Seated.leave (h : Seated w) (hc : c ∈ w.clients) (h1 : w'.clients = w.clients.erase c)
    (h2 : w'.nfds = w.nfds - 1) (h3 : w'.clientCount = w.clientCount) (h4 : w'.trace = w.trace ++ [.closed c])
    (h5 : SocketsListed w') : Seated w' where
  clients := by
    rw [h1, h4, table_concat, h.clients]
    rfl
  nfds := by
    rw [h2, h4, counter_concat, h.nfds]
    rfl
  bound d hd := by
    rw [h1] at hd
    exact h3 ▸ h.bound d (List.mem_of_mem_erase hd)
  sockets := h5
  moments := by
    rw [h4]
    exact moments_concat h.moments (h.right.closed (h.clients ▸ hc))

/-- A connection that is still in the table leaves it when it is closed. -/
theorem Seated.close (h : Seated w) (hc : c ∈ w.clients) : Seated (homekitServerCloseClient w c) := by
  have hcl := homekitServerCloseClient_closes w c
  have hsock := h.sockets.close c
  by_cases ho : Owns w c
  · obtain ⟨k, hk, ho⟩ := ho
    rw [homekitServerCloseClient_of_owner hk ho] at hcl hsock ⊢
    exact (h.log (e := .contextFreed k) trivial).leave hc hcl.clients rfl rfl rfl hsock
  · rw [homekitServerCloseClient_of_not_owner ho] at hcl hsock ⊢
    exact h.leave hc hcl.clients rfl rfl rfl hsock

theorem Seated.accept (h : Seated w) (raw : Client P) : Seated (homekitServerAcceptClient w raw) := by
  unfold homekitServerAcceptClient
  split
  · exact h
  · rename_i hroom
    have hnew : w.clientCount ∉ w.clients := fun hm => Nat.lt_irrefl _ (h.bound _ hm)
    refine ⟨?_, ?_, ?_, ?_, ?_⟩
    · show w.clientCount :: w.clients = table (w.trace ++ [_])
      rw [table_concat, h.clients]
      rfl
    · show w.nfds + 1 = counter (w.trace ++ [_])
      rw [counter_concat, h.nfds]
      rfl
    · intro d hd
      rcases List.mem_cons.mp hd with rfl | hd
      · exact Nat.lt_succ_self _
      · exact Nat.lt_succ_of_lt (h.bound d hd)
    · intro d hd hm
      have hne : d ≠ w.clientCount := fun he => hm (he ▸ List.mem_cons_self ..)
      have hlt : d < w.clientCount := Nat.lt_of_le_of_ne (Nat.le_of_lt_succ hd) hne
      have hs := h.sockets d hlt (fun hd => hm (List.mem_cons_of_mem _ hd))
      exact (congrArg Client.socket (Function.update_of_ne hne ..)).trans hs
    · refine moments_concat h.moments (h.right.connected (h.clients ▸ hnew) ?_)
      rw [← h.nfds]
      exact Int.lt_of_not_ge hroom

theorem Seated.preinit (h : Seated w) : Seated (arduinoHomekitPreinit w).2 := by
  have hp : Seated (prepared w) := h.congr rfl rfl rfl rfl (fun _ hd => hd)
  rcases arduinoHomekitPreinit_cases w with ⟨_, he⟩ | ⟨_, ⟨_, he⟩ | ⟨_, he⟩⟩
  · rw [he]
    exact h
  · rw [he]
    exact Seated.log (w := { prepared w with savedPreinitPairingContext := _ })
      (hp.congr rfl rfl rfl rfl (fun _ hd => hd)) trivial
  · rw [he]
    exact hp.congr rfl rfl rfl rfl (fun _ hd => hd)

theorem Change.seated (hu : Change S c w w') (h : Seated w) : Seated w' := by
  cases hu with
  | client d x hx => exact h.client (fun hn => hx.socket.trans hn)
  | log e he => exact h.log he.isNeutral.isUnseating
  | stray _ => exact h.log (e := .useAfterFree c) trivial
  | globals flash paired now => exact h.congr rfl rfl rfl rfl (fun _ hd => hd)
  | serve endpoint _ => exact h.congr rfl rfl rfl rfl (fun _ hd => hd)
  | preinit => exact h.preinit
  | opened k _ _ _ =>
    exact Seated.log (w := { w.setContext k { w.contexts k with client := some c } with pairingContext := some k })
      (h.congr rfl rfl rfl rfl (fun _ hd => hd)) trivial
  | refused k srp key _ => exact h.congr rfl rfl rfl rfl (fun _ hd => hd)
  | spent k srp _ => exact h.congr rfl rfl rfl rfl (fun _ hd => hd)
  | free k _ =>
    exact (h.log (e := .contextFreed k) trivial).congr rfl rfl rfl rfl (fun _ hd => hd)
  | session request pairing _ _ => exact Seated.log (w := w.setClient c _) (h.client (fun hn => hn)) trivial

/-- Writing closes a connection only while it has its socket. -/
theorem Seated.send (h : Seated w) (hc : c < w.clientCount) (data : Bytes) : Seated (clientSend w c data) := by
  have hi := clientSend_invariant (I := fun v : World P => Seated v ∧ c < v.clientCount) c
    (fun _ _ h hx => ⟨h.1.client (fun hn => hx.trans hn), h.2⟩)
    (fun _ _ h => ⟨h.1.congr rfl rfl rfl rfl (fun _ hd => hd), h.2⟩) (fun v h hs => ?_)
    (fun _ _ h => ⟨h.1.log trivial, h.2⟩) w data ⟨h, hc⟩
  · exact hi.1
  · exact ⟨h.1.close (h.1.mem_of_socket h.2 hs), (homekitServerCloseClient_closes v c).clientCount ▸ h.2⟩

theorem Change.clientCount (h : Change S c w w') : w.clientCount = w'.clientCount := by
  cases h with
  | preinit => rcases arduinoHomekitPreinit_cases w with ⟨_, he⟩ | ⟨_, ⟨_, he⟩ | ⟨_, he⟩⟩ <;> rw [he] <;> rfl
  | _ => rfl

theorem Handling.seated (hh : Handling S c w w') (h : Seated w) (hc : c < w.clientCount) : Seated w' := by
  obtain ⟨payloads, hp⟩ := hh
  have hi := hp.invariant (I := fun v => Seated v ∧ c < v.clientCount)
    (fun _ _ hv hu => ⟨hu.seated hv.1, hu.clientCount ▸ hv.2⟩)
    (fun v data hv => ⟨hv.1.send hv.2 data, (clientSend_sends v c data).clientCount ▸ hv.2⟩) ⟨h, hc⟩
  exact hi.1

theorem Seated.sendAll (h : Seated w) (hc : c < w.clientCount) (payloads : List Bytes) :
    Seated (sendAll w c payloads) := by
  induction payloads generalizing w with
  | nil => exact h
  | cons data payloads ih => exact ih (h.send hc data) ((clientSend_sends w c data).clientCount ▸ hc)

/-- Every action that the loop takes keeps the table. -/
theorem step_seated {a : Action P} (h : Seated w) (ha : Taken w a) (hs : step w a = .ok w') : Seated w' := by
  have htick : Seated w.tick := h.congr rfl rfl rfl rfl (fun _ hd => hd)
  cases a with
  | accept raw => exact Except.ok.inj hs ▸ h.accept raw
  | preinit => exact Except.ok.inj hs ▸ htick.preinit
  | tick => exact Except.ok.inj hs ▸ htick
  | parsed c payload => exact Except.ok.inj hs ▸ h.log (e := .parsed c payload) trivial
  | buffer c b =>
    simp only [step] at hs
    split at hs
    · exact Except.ok.inj hs ▸ h.client (fun hn => by simp [hn])
    · exact Except.ok.inj hs ▸ h
  | close c =>
    simp only [step] at hs
    split at hs
    · rename_i hc
      have hm := h.mem_of_socket hc ha
      obtain rfl := Except.ok.inj hs
      exact (h.client (c := c) (x := { w.client c with disconnect := true }) (fun hn => hn)).close hm
    · exact Except.ok.inj hs ▸ h
  | notify c =>
    simp only [step] at hs
    split at hs
    · rename_i hc
      obtain rfl := Except.ok.inj hs
      unfold processNotifications
      split
      · exact h
      · have happ : Seated { w with app := (P.app.events c w.app).1 } := h.congr rfl rfl rfl rfl (fun _ hd => hd)
        exact happ.sendAll hc _
    · exact Except.ok.inj hs ▸ h
  | event c e =>
    simp only [step] at hs
    split at hs
    · rename_i hc
      cases e with
      | messageBegin => exact Except.ok.inj hs ▸ h.client (fun hn => hn)
      | url method data behind => exact Except.ok.inj hs ▸ h.client (fun hn => hn)
      | body data => exact Except.ok.inj hs ▸ h.client (fun hn => hn)
      | messageComplete => exact (messageComplete_handling hc hs).seated h hc
    · exact Except.ok.inj hs ▸ h

theorem call_seated (w : World P) (a : Call P) (w' : World P) (h : Seated w) (hs : call w a = .ok w') : Seated w' :=
  (call_taken hs).invariant (fun _ _ _ h ha hs => step_seated h ha hs) h

theorem serverBoot_seated (accessoryId : Bytes) (accessoryKey : Ed25519Key) (password : Option Bytes)
    (flash : Flash) (app : P.App) (clients : ClientId → Client P) (contexts : ContextId → PairingContext) :
    Seated (serverBoot accessoryId accessoryKey password flash app clients contexts) := by
  refine ⟨rfl, rfl, fun c hc => absurd hc List.not_mem_nil, fun c hc => absurd hc (Nat.not_lt_zero c), ?_⟩
  intro es hes
  obtain rfl : es = [] := List.prefix_nil.mp hes
  exact ⟨rfl, List.nodup_nil, by decide, fun c fs hfs => by simp at hfs⟩

/-- The server's counter and list are those of the log, and the log is right at every moment. -/
structure TableKept (w : World P) : Prop where
  nfds : w.nfds = w.clients.length
  distinct : w.clients.Nodup
  room : (w.clients.length : Int) ≤ homekitMaxClients
  clients : w.clients = table w.trace
  moments : ∀ es, es <+: w.trace → TableRight es

theorem Seated.kept (h : Seated w) : TableKept w where
  nfds := by rw [h.nfds, h.right.count, h.clients]
  distinct := h.clients ▸ h.right.distinct
  room := h.clients ▸ h.right.room
  clients := h.clients
  moments := h.moments

/-- The table is kept over every run of the calls that the loop makes. -/
theorem tableKept_run (accessoryId : Bytes) (accessoryKey : Ed25519Key) (password : Option Bytes)
    (flash : Flash) (app : P.App) (clients : ClientId → Client P) (contexts : ContextId → PairingContext) :
    ∀ {as : List (Call P)} {w : World P},
      run call (serverBoot accessoryId accessoryKey password flash app clients contexts) as = .ok w → TableKept w :=
  fun hr => (Runs.invariant (fun w a w' h hs => call_seated w a w' h hs)
    (serverBoot_seated accessoryId accessoryKey password flash app clients contexts) hr).kept

theorem table_run :
    ends call (benchBoot []) [.accept benchClient, .accept benchClient, .accept benchClient,
    .process 1 { bytes := [], connected := false }] (fun w => decide (w.clients = [2, 0])) = true := by
  decide +kernel

/-- Of three connections the one in the middle is closed. -/
theorem tableKept_run_bench :
    ∃ w, run call (benchBoot []) [.accept benchClient, .accept benchClient, .accept benchClient,
        .process 1 { bytes := [], connected := false }] = .ok w ∧ w.clients = [2, 0] ∧ TableKept w := by
  obtain ⟨w, hw, hp⟩ := ends_spec table_run
  exact ⟨w, hw, of_decide_eq_true hp, tableKept_run _ _ _ _ _ _ _ hw⟩

end ArduinoHomeKit
