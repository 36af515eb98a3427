import ArduinoHomeKit.HttpCalls

/-! The parser over the calls of a connection. However the bytes are cut, the calls that accept
them agree; no assertion fails; and the callbacks are those of whole messages, one after the
other. -/

namespace ArduinoHomeKit.HttpMachine

variable {q q' : Parser} {data rest beyond : Bytes}

/-- What a read hands to the parser, and the memory behind it. -/
structure Delivery where
  data : Bytes
  beyond : Bytes

def deliver (q : Parser) : List Delivery → Parser × List (Nat × ParserEvent)
  | [] => (q, [])
  | d :: ds =>
    let r := execute d.beyond q d.data
    let r' := deliver r.1 ds
    (r'.1, r.2 ++ r'.2)

/-- The bytes of a connection, in order. -/
def bytesOf (ds : List Delivery) : Bytes := ds.flatMap Delivery.data

/-- Every call has data, finds no error and no other protocol. -/
def Accepted (q : Parser) : List Delivery → Prop
  | [] => True
  | d :: ds =>
    d.data ≠ [] ∧ (execute d.beyond q d.data).1.errno = .ok ∧ (execute d.beyond q d.data).1.upgrade = false ∧
      Accepted (execute d.beyond q d.data).1 ds

/-- A parser between two calls. -/
def InOrder (q : Parser) : Prop := q.errno ≠ .ok ∨ Steady q

theorem inOrder_init : InOrder httpParserInit := .inr ⟨⟨trivial, Nat.zero_le _⟩, fun h => by cases h⟩

theorem execute_failed (h : q.errno ≠ .ok) : execute beyond q data = (q, []) := by
  unfold execute
  rw [if_pos h]

theorem execute_empty (beyond : Bytes) (he : q.errno = .ok) :
    (execute beyond q []).2 = [] ∧ ((execute beyond q []).1 = q ∨ (execute beyond q []).1.errno ≠ .ok) := by
  unfold execute
  rw [if_neg (not_not.mpr he), if_pos rfl]
  split
  · exact ⟨rfl, .inl rfl⟩
  · exact ⟨rfl, .inl rfl⟩
  · exact ⟨rfl, .inr fun h => by cases h⟩

theorem execute_inOrder (h : InOrder q) : InOrder (execute beyond q data).1 := by
  by_cases he : q.errno = .ok
  · have hst := h.resolve_left (not_not.mpr he)
    by_cases hd : data = []
    · subst hd
      rcases (execute_empty beyond he).2 with heq | herr
      · rw [heq]
        exact h
      · exact .inl herr
    · obtain ⟨hcalled, -⟩ := execute_called beyond hst he hd
      generalize execute beyond q data = r at hcalled ⊢
      obtain ⟨q', cbs⟩ := r
      dsimp only at hcalled ⊢
      generalize letters cbs = out at hcalled
      cases hcalled with
      | whole _ hst' _ => exact .inr hst'
      | upgraded _ _ _ _ hst' _ _ => exact .inr hst'
      | refused _ _ _ _ _ _ _ herr => exact .inl herr
  · rw [execute_failed he]
    exact h

theorem deliver_inOrder (ds : List Delivery) (h : InOrder q) : InOrder (deliver q ds).1 := by
  induction ds generalizing q with
  | nil => exact h
  | cons d ds ih => exact ih (execute_inOrder h)

/-- No assertion fails in any call of a connection. -/
theorem deliver_asserted (ds : List Delivery) (data beyond : Bytes) (he : (deliver httpParserInit ds).1.errno = .ok)
    (hd : data ≠ []) :
    (executeLoop beyond data.length data (start (deliver httpParserInit ds).1)).2 ≠ .abort :=
  (execute_called beyond ((deliver_inOrder ds inOrder_init).resolve_left (not_not.mpr he)) he hd).2

/-- `PUT / HTTP/1.1`, a `Content-Length` of two and the first byte of the body. -/
def putHalf : Bytes :=
  [80, 85, 84, 32, 47, 32, 72, 84, 84, 80, 47, 49, 46, 49, 13, 10, 67, 111, 110, 116, 101, 110, 116, 45, 76, 101, 110, 103,
    116, 104, 58, 32, 50, 13, 10, 13, 10, 97]

/-- The second byte of the body, in a read of its own. -/
theorem deliver_asserted_put :
    (deliver httpParserInit [⟨putHalf, []⟩]).1.state = .bodyIdentity ∧
      (executeLoop [] [98].length [98] (start (deliver httpParserInit [⟨putHalf, []⟩]).1)).2 ≠ .abort :=
  ⟨rfl, deliver_asserted [⟨putHalf, []⟩] [98] [] rfl (List.cons_ne_nil _ _)⟩

theorem Accepted.pass {ds : List Delivery} (h : Accepted q ds) (hst : Steady q) (he : q.errno = .ok) :
    bytePass (bytesOf ds) q.toCore = some ((deliver q ds).1.toCore, letters (deliver q ds).2) := by
  induction ds generalizing q with
  | nil => rfl
  | cons d ds ih =>
    obtain ⟨hd, he', hup, hrest⟩ := h
    obtain ⟨hcalled, -⟩ := execute_called d.beyond hst he hd
    have hds : bytesOf (d :: ds) = d.data ++ bytesOf ds := rfl
    rw [hds, deliver]
    dsimp only
    rw [letters_append]
    generalize execute d.beyond q d.data = r at hcalled he' hup hrest ⊢
    obtain ⟨q', cbs⟩ := r
    dsimp only at hcalled he' hup hrest ⊢
    generalize letters cbs = out at hcalled ⊢
    cases hcalled with
    | whole hpass hst' _ => exact bytePass_trans hpass (ih hrest hst' he')
    | upgraded _ _ _ _ _ _ hup' => simp [hup] at hup'
    | refused _ _ _ _ _ _ _ herr => exact absurd he' herr

/-- The same bytes, cut in any two ways: the calls that accept them leave the same parser, but
for the count of the header, and the same target and body. -/
theorem accepted_agree {ds es : List Delivery} (hst : Steady q) (he : q.errno = .ok) (hds : Accepted q ds)
    (hes : Accepted q es) (hb : bytesOf ds = bytesOf es) :
    (deliver q ds).1.toCore = (deliver q es).1.toCore ∧ letters (deliver q ds).2 = letters (deliver q es).2 := by
  have h1 := hds.pass hst he
  rw [hb, hes.pass hst he] at h1
  obtain ⟨h2, h3⟩ := Prod.mk.inj (Option.some.inj h1)
  exact ⟨h2.symm, h3.symm⟩

/-- The same behind any reads that were taken. -/
theorem cuts_agree (pre ds es : List Delivery) (he : (deliver httpParserInit pre).1.errno = .ok)
    (hds : Accepted (deliver httpParserInit pre).1 ds) (hes : Accepted (deliver httpParserInit pre).1 es)
    (hb : bytesOf ds = bytesOf es) :
    (deliver (deliver httpParserInit pre).1 ds).1.toCore = (deliver (deliver httpParserInit pre).1 es).1.toCore ∧
      letters (deliver (deliver httpParserInit pre).1 ds).2 = letters (deliver (deliver httpParserInit pre).1 es).2 :=
  accepted_agree ((deliver_inOrder pre inOrder_init).resolve_left (not_not.mpr he)) he hds hes hb

/-- `PUT /ab HTTP/1.1` with a body of two bytes. -/
def putBody : Bytes :=
  [80, 85, 84, 32, 47, 97, 98, 32, 72, 84, 84, 80, 47, 49, 46, 49, 13, 10, 67, 111, 110, 116, 101, 110, 116, 45, 76, 101, 110, 103,
    116, 104, 58, 32, 50, 13, 10, 13, 10, 97, 98]

/-- The rest of a request in one read, and in three that cut its target and its body. -/
theorem cuts_agree_put :
    (deliver (deliver httpParserInit [⟨putBody.take 2, []⟩]).1
          [⟨(putBody.drop 2).take 4, []⟩, ⟨(putBody.drop 6).take 34, []⟩, ⟨putBody.drop 40, []⟩]).1.toCore =
        (deliver (deliver httpParserInit [⟨putBody.take 2, []⟩]).1 [⟨putBody.drop 2, []⟩]).1.toCore ∧
      letters (deliver (deliver httpParserInit [⟨putBody.take 2, []⟩]).1
          [⟨(putBody.drop 2).take 4, []⟩, ⟨(putBody.drop 6).take 34, []⟩, ⟨putBody.drop 40, []⟩]).2 =
        letters (deliver (deliver httpParserInit [⟨putBody.take 2, []⟩]).1 [⟨putBody.drop 2, []⟩]).2 ∧
      letters (deliver (deliver httpParserInit [⟨putBody.take 2, []⟩]).1 [⟨putBody.drop 2, []⟩]).2 =
        [.url .put 47, .url .put 97, .url .put 98, .body 97, .body 98, .messageComplete] := by
  obtain ⟨hcore, hletters⟩ := cuts_agree [⟨putBody.take 2, []⟩]
    [⟨(putBody.drop 2).take 4, []⟩, ⟨(putBody.drop 6).take 34, []⟩, ⟨putBody.drop 40, []⟩] [⟨putBody.drop 2, []⟩] rfl
    ⟨List.cons_ne_nil _ _, rfl, rfl, List.cons_ne_nil _ _, rfl, rfl, List.cons_ne_nil _ _, rfl, rfl, trivial⟩
    ⟨List.cons_ne_nil _ _, rfl, rfl, trivial⟩ rfl
  exact ⟨hcore, hletters, rfl⟩

end ArduinoHomeKit.HttpMachine
