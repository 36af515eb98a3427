import ArduinoHomeKit.Bench

/-! The request target reaches homekit_server_on_url in fragments, one callback each. What the
endpoint is at the end against the routes that the accessory serves. -/

namespace ArduinoHomeKit

variable {P : Platform} {c : ClientId} {w : World P} {method : HttpMethod} {data target route : Bytes} {endpoint : Endpoint}

/-! The routes. -/

/-- The targets that are compared as a whole, in the order of the comparisons. -/
def plainRoutes : HttpMethod → List (Bytes × Endpoint)
  | .get => [(ascii "/accessories", .getAccessories)]
  | .post => [(ascii "/identify", .identify), (ascii "/pair-setup", .pairSetup), (ascii "/pair-verify", .pairVerify),
      (ascii "/pairings", .pairings), (ascii "/resource", .resource)]
  | .put => [(ascii "/characteristics", .updateCharacteristics)]
  | .other => []

def targetPath (target : Bytes) : Bytes := target.takeWhile (· ≠ 63)

/-- The endpoint that a request is for. -/
def routeOf (method : HttpMethod) (target : Bytes) : Endpoint :=
  match (plainRoutes method).find? (fun r => target = r.1) with
  | some r => r.2
  | none => if method = .get ∧ targetPath target = urlCharacteristics then .getCharacteristics else .unknown

/-! One callback. -/

/-- A part of the target, and the memory behind it. -/
structure UrlFragment where
  data : Bytes
  behind : Bytes

/-- How far a callback looks into the buffer. The comparisons stop at the end of the fragment at
the latest. -/
def urlExtent (method : HttpMethod) (f : UrlFragment) : Nat :=
  if method = .get ∧ urlMatches f.data "/accessories" = false ∧ urlCharacteristics.length ≤ f.data.length ∧
      CString.strncmp urlCharacteristics.length f.data urlCharacteristics = 0 then
    max f.data.length (urlCharacteristics.length + 1)
  else f.data.length

/-- The callbacks of one request up to its last byte. -/
def requestRead (w : World P) (c : ClientId) (method : HttpMethod) (fragments : List UrlFragment) (bodies : List Bytes) :
    World P :=
  bodies.foldl (fun w data => homekitServerOnBody w c data)
    (fragments.foldl (fun w f => homekitServerOnUrl w c method f.data f.behind) w)

def targetOf (fragments : List UrlFragment) : Bytes := (fragments.map UrlFragment.data).flatten

/-- The endpoint is the one of the whole target, and only the fragments were looked at. -/
def Routed (w : World P) (c : ClientId) (method : HttpMethod) (fragments : List UrlFragment) (bodies : List Bytes) : Prop :=
  (∀ endpoint, ((requestRead w c method fragments bodies).client c).endpoint = endpoint ↔
      routeOf method (targetOf fragments) = endpoint) ∧
    ∀ f ∈ fragments, urlExtent method f ≤ f.data.length

/-! The comparison of a fragment with a route. -/

/-- The fragment does not differ from the route up to its own end, or up to a NUL where the
route ends. -/
def Passes (data route : Bytes) : Prop := data <+: route ∨ route ++ [0] <+: data

instance (data route : Bytes) : Decidable (Passes data route) := inferInstanceAs (Decidable (_ ∨ _))

theorem strndup_full_of_clean {s : Bytes} (h : (0 : UInt8) ∉ s) : CString.strndup s s.length = s := by
  rw [CString.strndup, List.take_length, List.takeWhile_eq_self_iff]
  intro b hb
  simpa using fun hz : b = 0 => h (hz ▸ hb)

theorem strncmp_route (h : (0 : UInt8) ∉ route) :
    CString.strncmp data.length data route = 0 ↔ Passes data route := by
  rw [CString.strncmp_eq_zero_iff]
  induction data generalizing route with
  | nil =>
    simp [CString.strndup, Passes]
  | cons b data ih =>
    rw [List.length_cons, CString.strndup_cons]
    cases route with
    | nil =>
      rw [CString.strndup_nil]
      by_cases hb : b = 0
      · simp [hb, Passes]
      · simp [hb, Passes, Ne.symm hb]
    | cons r route =>
      have hr : ¬ (0 : UInt8) = r := fun he => h (he ▸ List.mem_cons_self ..)
      have hroute : (0 : UInt8) ∉ route := fun hm => h (List.mem_cons_of_mem _ hm)
      rw [CString.strndup_cons, if_neg (Ne.symm hr)]
      by_cases hb : b = 0
      · subst hb
        have hrz : ¬ r = 0 := Ne.symm hr
        simp [Passes, hr, hrz]
      · rw [if_neg hb, List.cons.injEq, ih hroute]
        simp only [Passes, List.cons_append, List.cons_prefix_cons, eq_comm (a := r)]
        rw [← and_or_left]

theorem urlMatches_iff {url : String} (h : (0 : UInt8) ∉ ascii url) :
    urlMatches data url = true ↔ Passes data (ascii url) := by
  rw [urlMatches, beq_iff_eq, strncmp_route h]

/-- With at least the length of the route the fragment begins with it. -/
theorem strncmp_begins (h : (0 : UInt8) ∉ route) (hl : route.length ≤ data.length) :
    CString.strncmp route.length data route = 0 ↔ route <+: data := by
  rw [CString.strncmp_eq_zero_iff, strndup_full_of_clean h]
  constructor
  · intro he
    have hcut : data.take route.length = route := by
      have hall : CString.strndup data route.length = data.take route.length := by
        apply List.IsPrefix.eq_of_length (List.takeWhile_prefix _)
        rw [show (data.take route.length).takeWhile (fun b => b != 0) = CString.strndup data route.length from rfl, he,
          List.length_take, Nat.min_eq_left hl]
      rw [← hall, he]
    exact hcut ▸ List.take_prefix _ _
  · rintro ⟨rest, rfl⟩
    rw [CString.strndup, List.take_left, List.takeWhile_eq_self_iff]
    intro b hb
    simpa using fun hz : b = 0 => h (hz ▸ hb)

theorem plainRoutes_injective (method : HttpMethod) :
    ∀ r ∈ plainRoutes method, ∀ s ∈ plainRoutes method, (r.1 = s.1 → r = s) ∧ (r.2 = s.2 → r = s) := by
  cases method <;> decide

theorem plainRoutes_known (method : HttpMethod) :
    ∀ r ∈ plainRoutes method, r.2 ≠ .unknown ∧ r.2 ≠ .getCharacteristics := by
  cases method <;> decide

theorem routeOf_eq_iff {r : Bytes × Endpoint} (hr : r ∈ plainRoutes method) :
    routeOf method target = r.2 ↔ target = r.1 := by
  have hk := plainRoutes_known method r hr
  simp only [routeOf]
  constructor
  · intro h
    cases hf : (plainRoutes method).find? (fun r => decide (target = r.1)) with
    | none =>
      rw [hf] at h
      dsimp only at h
      split at h
      · exact absurd h.symm hk.2
      · exact absurd h.symm hk.1
    | some s =>
      rw [hf] at h
      have hs := List.mem_of_find?_eq_some hf
      have ht : target = s.1 :=
        of_decide_eq_true (List.find?_some (p := fun r : Bytes × Endpoint => decide (target = r.1)) hf)
      rw [ht, (plainRoutes_injective method s hs r hr).2 h]
  · intro h
    have hex : ((plainRoutes method).find? (fun r => decide (target = r.1))).isSome := by
      rw [List.find?_isSome]
      exact ⟨r, hr, decide_eq_true h⟩
    obtain ⟨s, hs⟩ := Option.isSome_iff_exists.mp hex
    have ht : target = s.1 := of_decide_eq_true (List.find?_some (p := fun r : Bytes × Endpoint => decide (target = r.1)) hs)
    rw [hs]
    rw [(plainRoutes_injective method s (List.mem_of_find?_eq_some hs) r hr).1 (ht.symm.trans h)]

/-- A GET fragment that begins with `/characteristics` and has a `?` behind that. -/
def BeginsQuery (data : Bytes) : Prop :=
  urlCharacteristics ++ [63] <+: data ∨ urlCharacteristics ++ [0] <+: data

instance (data : Bytes) : Decidable (BeginsQuery data) := inferInstanceAs (Decidable (_ ∨ _))

theorem urlCharacteristics_clean : (0 : UInt8) ∉ urlCharacteristics := by decide

theorem snoc_prefix_iff {b : UInt8} :
    route ++ [b] <+: data ↔ route <+: data ∧ data[route.length]? = some b := by
  constructor
  · rintro ⟨rest, rfl⟩
    refine ⟨⟨[b] ++ rest, by simp⟩, ?_⟩
    rw [List.append_assoc, List.getElem?_append_right (Nat.le_refl _), Nat.sub_self]
    rfl
  · rintro ⟨⟨rest, rfl⟩, hb⟩
    rw [List.getElem?_append_right (Nat.le_refl _), Nat.sub_self] at hb
    cases rest with
    | nil => simp at hb
    | cons b' rest =>
      obtain rfl : b' = b := by simpa using hb
      exact ⟨rest, by simp⟩

theorem urlEndpoint_get (behind : Bytes) (hd : data ≠ urlCharacteristics) :
    (urlEndpoint .get data behind).1 =
      if Passes data (ascii "/accessories") then .getAccessories
      else if BeginsQuery data then .getCharacteristics else .unknown := by
  have hm : urlMatches data "/accessories" = true ↔ Passes data (ascii "/accessories") := urlMatches_iff (by decide)
  by_cases hp : Passes data (ascii "/accessories")
  · simp only [urlEndpoint, if_pos (hm.mpr hp), if_pos hp]
  · simp only [urlEndpoint, if_neg (fun h => hp (hm.mp h)), if_neg hp]
    have hquery : (urlCharacteristics.length ≤ data.length ∧
        CString.strncmp urlCharacteristics.length data urlCharacteristics = 0 ∧
        ((data ++ behind).getD urlCharacteristics.length 0 = 0 ∨
          (data ++ behind).getD urlCharacteristics.length 0 = 63)) ↔ BeginsQuery data := by
      rw [BeginsQuery, snoc_prefix_iff, snoc_prefix_iff, ← and_or_left]
      have hlong : urlCharacteristics <+: data → urlCharacteristics.length < data.length := by
        intro h
        refine Nat.lt_of_le_of_ne h.length_le (fun he => hd (h.eq_of_length he).symm)
      have hget : urlCharacteristics.length < data.length → ∀ b,
          ((data ++ behind).getD urlCharacteristics.length 0 = b ↔ data[urlCharacteristics.length]? = some b) := by
        intro h b
        rw [List.getD_eq_getElem?_getD, List.getElem?_append_left h, List.getElem?_eq_getElem h]
        simp
      constructor
      · rintro ⟨hl, hz, hnext⟩
        have hb := (strncmp_begins urlCharacteristics_clean hl).mp hz
        have hlt := hlong hb
        rw [hget hlt, hget hlt] at hnext
        exact ⟨hb, hnext.symm⟩
      · rintro ⟨hb, hnext⟩
        have hlt := hlong hb
        refine ⟨hb.length_le, (strncmp_begins urlCharacteristics_clean hb.length_le).mpr hb, ?_⟩
        rw [hget hlt, hget hlt]
        exact hnext.symm
    by_cases hb : BeginsQuery data
    · rw [if_pos hb, if_pos (hquery.mpr hb)]
      split <;> rfl
    · rw [if_neg hb, if_neg (fun h => hb (hquery.mp h))]

/-- The endpoint of a single fragment: the first route that it passes for. -/
theorem urlEndpoint_eq (behind : Bytes) (hd : ¬ (method = .get ∧ data = urlCharacteristics)) :
    (urlEndpoint method data behind).1 =
      match (plainRoutes method).find? (fun r => Passes data r.1) with
      | some r => r.2
      | none => if method = .get ∧ BeginsQuery data then .getCharacteristics else .unknown := by
  have hmatch : ∀ url : String, (0 : UInt8) ∉ ascii url →
      urlMatches data url = decide (Passes data (ascii url)) := by
    intro url h
    rw [Bool.eq_iff_iff, decide_eq_true_iff, urlMatches_iff h]
  cases method with
  | get =>
    rw [urlEndpoint_get behind (fun h => hd ⟨rfl, h⟩)]
    by_cases hp : Passes data (ascii "/accessories") <;> simp [plainRoutes, hp]
  | post =>
    simp only [urlEndpoint, plainRoutes, hmatch "/identify" (by decide), hmatch "/pair-setup" (by decide),
      hmatch "/pair-verify" (by decide), hmatch "/pairings" (by decide), hmatch "/resource" (by decide),
      List.find?_cons, List.find?_nil]
    cases decide (Passes data (ascii "/identify")) <;> cases decide (Passes data (ascii "/pair-setup")) <;>
      cases decide (Passes data (ascii "/pair-verify")) <;> cases decide (Passes data (ascii "/pairings")) <;>
      cases decide (Passes data (ascii "/resource")) <;> rfl
  | put =>
    simp only [urlEndpoint, plainRoutes, hmatch "/characteristics" (by decide), List.find?_cons, List.find?_nil]
    cases decide (Passes data (ascii "/characteristics")) <;> rfl
  | other => rfl

theorem urlExtent_le_iff (f : UrlFragment) :
    urlExtent method f ≤ f.data.length ↔ ¬ (method = .get ∧ f.data = urlCharacteristics) := by
  have hm : urlMatches f.data "/accessories" = true ↔ Passes f.data (ascii "/accessories") := urlMatches_iff (by decide)
  rw [urlExtent]
  split
  · rename_i h
    obtain ⟨hg, ha, hl, hz⟩ := h
    have hb := (strncmp_begins urlCharacteristics_clean hl).mp hz
    have heq : f.data = urlCharacteristics ↔ f.data.length = urlCharacteristics.length :=
      ⟨fun h => by rw [h], fun h => (hb.eq_of_length h.symm).symm⟩
    rw [heq]
    constructor
    · rintro h ⟨_, he⟩
      omega
    · intro h
      have hne : f.data.length ≠ urlCharacteristics.length := fun he => h ⟨hg, he⟩
      omega
  · rename_i h
    refine ⟨fun _ hd => h ⟨hd.1, ?_, ?_, ?_⟩, fun _ => Nat.le_refl _⟩
    · rw [hd.2]
      decide
    · rw [hd.2]
    · rw [hd.2]
      decide

/-! The request. -/

theorem requestRead_endpoint (earlier : List UrlFragment) (last : UrlFragment) (bodies : List Bytes) :
    ((requestRead w c method (earlier ++ [last]) bodies).client c).endpoint =
      (urlEndpoint method last.data last.behind).1 := by
  have hbody : ∀ v : World P,
      ((bodies.foldl (fun w data => homekitServerOnBody w c data) v).client c).endpoint = (v.client c).endpoint := by
    induction bodies with
    | nil => exact fun _ => rfl
    | cons data bodies ih =>
      intro v
      rw [List.foldl_cons, ih, homekitServerOnBody, setClient_self]
  rw [requestRead, hbody, List.foldl_append, List.foldl_cons, List.foldl_nil, homekitServerOnUrl, setClient_self]

/-- What the last fragment alone passes for is what the whole target is. -/
def LastDecides (method : HttpMethod) (target last : Bytes) : Prop :=
  match (plainRoutes method).find? (fun r => Passes last r.1) with
  | some r => target = r.1
  | none => (∀ r ∈ plainRoutes method, target ≠ r.1) ∧
      (method = .get → (targetPath target = urlCharacteristics ↔ BeginsQuery last))

theorem lastDecides_iff (behind : Bytes) (hd : ¬ (method = .get ∧ data = urlCharacteristics)) :
    (urlEndpoint method data behind).1 = routeOf method target ↔ LastDecides method target data := by
  rw [urlEndpoint_eq behind hd, LastDecides]
  cases hf : (plainRoutes method).find? (fun r => decide (Passes data r.1)) with
  | some r =>
    dsimp only
    rw [eq_comm, routeOf_eq_iff (List.mem_of_find?_eq_some hf)]
  | none =>
    dsimp only
    by_cases hr : ∃ r ∈ plainRoutes method, target = r.1
    · obtain ⟨r, hm, ht⟩ := hr
      have hroute := (routeOf_eq_iff hm).mpr ht
      have hk := plainRoutes_known method r hm
      constructor
      · intro h
        rw [hroute] at h
        split at h
        · exact absurd h.symm hk.2
        · exact absurd h.symm hk.1
      · intro h
        exact absurd ht (h.1 r hm)
    · have hnone : (plainRoutes method).find? (fun r => decide (target = r.1)) = none := by
        rw [List.find?_eq_none]
        intro r hm ht
        exact hr ⟨r, hm, of_decide_eq_true ht⟩
      have hall : (∀ r ∈ plainRoutes method, target ≠ r.1) := fun r hm ht => hr ⟨r, hm, ht⟩
      simp only [routeOf, hnone, and_iff_right hall]
      by_cases hg : method = .get
      · by_cases hb : BeginsQuery data <;> by_cases ht : targetPath target = urlCharacteristics <;> simp [hg, hb, ht]
      · simp [hg]

/-- The endpoint is right, and nothing outside is read, if and only if no fragment of a GET is
just `/characteristics` and the last fragment decides like the whole target. -/
theorem routed_iff (w : World P) (c : ClientId) (method : HttpMethod) (earlier : List UrlFragment) (last : UrlFragment)
    (bodies : List Bytes) :
    Routed w c method (earlier ++ [last]) bodies ↔
      (∀ f ∈ earlier ++ [last], ¬ (method = .get ∧ f.data = urlCharacteristics)) ∧
        LastDecides method (targetOf (earlier ++ [last])) last.data := by
  rw [Routed, requestRead_endpoint]
  simp only [urlExtent_le_iff]
  constructor
  · rintro ⟨he, hread⟩
    have hlast := hread last (List.mem_append_right _ (List.mem_singleton_self last))
    exact ⟨hread, (lastDecides_iff last.behind hlast).mp ((he _).mp rfl).symm⟩
  · rintro ⟨hread, hlast⟩
    have hclean := hread last (List.mem_append_right _ (List.mem_singleton_self last))
    have he := (lastDecides_iff last.behind hclean).mpr hlast
    exact ⟨fun endpoint => by rw [he], hread⟩

/-- `POST /pair` is taken for pair-setup. -/
theorem prefix_is_routed :
    ¬ Routed (benchBoot []) 0 .post [{ data := ascii "/pair", behind := [32] }] [] := by
  intro h
  have he := (h.1 .pairSetup).mp (by decide)
  exact absurd he (by decide)

end ArduinoHomeKit
