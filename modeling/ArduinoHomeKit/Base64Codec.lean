import ArduinoHomeKit.AccessoryBench
import ArduinoHomeKit.CharacteristicUpdate

/-! base64 in both directions: what was encoded is decoded again, and the size that is computed
for a text is the size of what it decodes to where the padding stands at the end. -/

namespace ArduinoHomeKit

variable {before : Nat → UInt8}

/-- Padding ends a text: it is the last character, or the last two. -/
def PaddedAtEnd : Bytes → Prop
  | [_, _, c, d] => c = 61 → d = 61
  | _ :: _ :: c :: d :: rest => c ≠ 61 ∧ d ≠ 61 ∧ PaddedAtEnd rest
  | _ => False

/-- How far from the end base64_decoded_size reads. -/
def decodedSizeReads : List Nat := [1, 2]

/-- base64_decoded_size reads inside the text and tells how many bytes base64_decode_ writes, so
that the block that is allocated for them holds them and nothing else. -/
structure SizeRight (rt : Runtime) (now : Nat) (text : Bytes) : Prop where
  inside : ∀ decoded, base64Decode text = some decoded → ∀ back ∈ decodedSizeReads, back ≤ text.length
  size : ∀ decoded, base64Decode text = some decoded →
    base64DecodedSize (rt.before now) text = decoded.length
  block : ∀ decoded, base64Decode text = some decoded →
    base64DecodedSize (rt.before now) text ≤ dramSize → decodedBlock rt now text decoded = .ok (some decoded)

theorem base64Chars_eq :
    base64Chars = (List.range 26).map (fun i => UInt8.ofNat (65 + i)) ++ (List.range 26).map (fun i => UInt8.ofNat (97 + i)) ++
      (List.range 10).map (fun i => UInt8.ofNat (48 + i)) ++ [43, 47] := by
  rw [base64Chars, ascii_ofList]
  rfl

theorem base64DecodeChar_encodeChar : ∀ n < 64, base64DecodeChar (base64EncodeChar n) = n := by
  simp only [base64EncodeChar, base64Chars_eq]
  decide

theorem base64EncodeChar_mem (n : Nat) (h : n < 64) : base64EncodeChar n ∈ base64Chars := by
  have hlength : base64Chars.length = 64 := by
    rw [base64Chars_eq]
    rfl
  rw [base64EncodeChar, List.getD_eq_getElem?_getD, List.getElem?_eq_getElem (hlength ▸ h)]
  exact List.getElem_mem _

/-- The alphabet has neither the padding nor the terminator. -/
theorem ne_padding_zero {c : UInt8} (h : c ∈ base64Chars) : c ≠ 61 ∧ c ≠ 0 := by
  rw [base64Chars, ascii_ofList] at h
  constructor
  · rintro rfl
    simp at h
  · rintro rfl
    simp at h

theorem ne_padding {c : UInt8} (h : c ∈ base64Chars) : c ≠ 61 := (ne_padding_zero h).1

theorem base64EncodeChar_ne_padding : ∀ n < 64, base64EncodeChar n ≠ 61 :=
  fun n h => ne_padding (base64EncodeChar_mem n h)

theorem base64DecodeChar_padding {c : UInt8} : base64DecodeChar c = 64 ↔ c = 61 := by
  constructor
  · intro h
    apply UInt8.toNat_inj.mp
    unfold base64DecodeChar at h
    dsimp only at h
    split at h
    · omega
    · split at h
      · omega
      · split at h
        · omega
        · split at h
          · omega
          · split at h
            · omega
            · split at h
              · rename_i hc
                exact hc
              · omega
  · rintro rfl
    rfl

/-! The last two characters. -/

theorem byteFromEnd_block (a b c d : UInt8) :
    byteFromEnd before [a, b, c, d] 1 = d ∧ byteFromEnd before [a, b, c, d] 2 = c := ⟨rfl, rfl⟩

theorem byteFromEnd_cons {x : UInt8} {encoded : Bytes} {back : Nat} (h : back ≤ encoded.length) :
    byteFromEnd before (x :: encoded) back = byteFromEnd before encoded back := by
  have hs : encoded.length + 1 - back = encoded.length - back + 1 := by omega
  have h' : back ≤ (x :: encoded).length := by
    rw [List.length_cons]
    omega
  rw [byteFromEnd, byteFromEnd, if_pos h, if_pos h', List.length_cons, hs, List.getD_cons_succ]

/-- Nothing wraps in a text that has a block. -/
theorem base64DecodedSize_eq {encoded : Bytes} (h : 4 ≤ encoded.length) :
    base64DecodedSize before encoded = (encoded.length + 3) / 4 * 3 -
      (if byteFromEnd before encoded 1 = 61 then 1 else 0) - if byteFromEnd before encoded 2 = 61 then 1 else 0 := by
  have hdec : ∀ n, 0 < n → decrementSize n = n - 1 := fun n hn => if_neg (by omega)
  unfold base64DecodedSize
  dsimp only
  have hsize : 3 ≤ (encoded.length + 3) / 4 * 3 := by omega
  by_cases h1 : byteFromEnd before encoded 1 = 61
  · by_cases h2 : byteFromEnd before encoded 2 = 61
    · rw [if_pos h1, if_pos h2, if_pos h1, if_pos h2, hdec ((encoded.length + 3) / 4 * 3) (by omega),
        hdec _ (by omega)]
    · rw [if_pos h1, if_neg h2, if_pos h1, if_neg h2, hdec _ (by omega), Nat.sub_zero]
  · by_cases h2 : byteFromEnd before encoded 2 = 61
    · rw [if_neg h1, if_pos h2, if_neg h1, if_pos h2, hdec _ (by omega), Nat.sub_zero]
    · rw [if_neg h1, if_neg h2, if_neg h1, if_neg h2, Nat.sub_zero, Nat.sub_zero]

/-- A block in front adds its three bytes. -/
theorem base64DecodedSize_block {a b c d : UInt8} {rest : Bytes} (h : 4 ≤ rest.length) :
    base64DecodedSize before (a :: b :: c :: d :: rest) = base64DecodedSize before rest + 3 := by
  have hbyte : ∀ back ≤ 2, byteFromEnd before (a :: b :: c :: d :: rest) back = byteFromEnd before rest back := by
    intro back hb
    have hr : back ≤ rest.length := by omega
    rw [byteFromEnd_cons (by simp only [List.length_cons]; omega),
      byteFromEnd_cons (by simp only [List.length_cons]; omega),
      byteFromEnd_cons (by simp only [List.length_cons]; omega), byteFromEnd_cons hr]
  rw [base64DecodedSize_eq h, base64DecodedSize_eq (by simp only [List.length_cons]; omega),
    hbyte 1 (by decide), hbyte 2 (by decide)]
  have h1 : (if byteFromEnd before rest 1 = 61 then 1 else 0) ≤ 1 := by split <;> decide
  have h2 : (if byteFromEnd before rest 2 = 61 then 1 else 0) ≤ 1 := by split <;> decide
  simp only [List.length_cons]
  omega

theorem base64DecodedSize_last (a b c d : UInt8) :
    base64DecodedSize before [a, b, c, d] = 3 - (if d = 61 then 1 else 0) - if c = 61 then 1 else 0 := by
  obtain ⟨h1, h2⟩ := @byteFromEnd_block before a b c d
  rw [base64DecodedSize_eq (by simp), h1, h2]
  simp only [List.length_cons, List.length_nil]

/-! What is written. -/

/-- The size never falls short of the last block but one. -/
theorem base64DecodedSize_ge {text : Bytes} (h : 4 ≤ text.length) :
    text.length / 4 * 3 ≤ base64DecodedSize before text + 2 := by
  rw [base64DecodedSize_eq h]
  have h1 : (if byteFromEnd before text 1 = 61 then 1 else 0) ≤ 1 := by split <;> decide
  have h2 : (if byteFromEnd before text 2 = 61 then 1 else 0) ≤ 1 := by split <;> decide
  omega

/-- The size is right exactly if the padding is at the end. -/
theorem base64DecodedSize_eq_iff (text : Bytes) (h4 : text.length % 4 = 0) :
    (2 ≤ text.length ∧ base64DecodedSize before text = (base64DecodeBlocks text).length) ↔ PaddedAtEnd text := by
  fun_induction PaddedAtEnd text with
  | case1 a b c d =>
    rw [base64DecodedSize_last]
    simp only [base64DecodeBlocks, base64DecodeChar_padding, List.length_cons, List.length_nil]
    by_cases hd : d = 61 <;> by_cases hc : c = 61 <;> simp [hd, hc]
  | case2 a b c d rest hne ih =>
    have hrest : rest.length % 4 = 0 := by
      simp only [List.length_cons] at h4
      omega
    have hlen : 4 ≤ rest.length := by
      have hne' : rest ≠ [] := fun he => hne he
      have := List.length_pos_iff.mpr hne'
      omega
    have hge := @base64DecodedSize_ge before rest hlen
    rw [base64DecodedSize_block (by omega), ← ih hrest]
    simp only [base64DecodeBlocks, base64DecodeChar_padding]
    by_cases hc : c = 61
    · simp only [hc, if_true, List.length_cons, List.length_nil, ne_eq, not_true_eq_false, false_and, iff_false]
      omega
    · by_cases hd : d = 61
      · simp only [hc, hd, if_true, if_false, List.length_cons, List.length_nil, ne_eq, not_true_eq_false, false_and,
          and_false, iff_false]
        omega
      · simp only [hc, hd, if_false, List.length_cons, ne_eq, not_false_eq_true, true_and]
        omega
  | case3 text h1 h2 =>
    have hnil : text.length = 0 := by
      match text, h1, h2, h4 with
      | [], _, _, _ => rfl
      | a :: b :: c :: d :: rest, _, h2, _ => exact absurd rfl (h2 a b c d rest)
    simp [hnil]

/-- The block that is allocated takes what is decoded, no more and no less. -/
theorem decodedBlock_eq {rt : Runtime} {now : Nat} {text decoded : Bytes}
    (h : base64DecodedSize (rt.before now) text = decoded.length) (hfit : decoded.length ≤ dramSize) :
    decodedBlock rt now text decoded = .ok (some decoded) := by
  unfold decodedBlock
  dsimp only
  rw [h, if_pos hfit, if_pos (Nat.le_refl _)]
  apply congrArg (fun block => Except.ok (some block))
  apply List.ext_getElem (by simp)
  intro i h1 h2
  simp [h2]

theorem base64Decode_some {text decoded : Bytes} (h : base64Decode text = some decoded) :
    text.length % 4 = 0 ∧ decoded = base64DecodeBlocks text := by
  unfold base64Decode at h
  split at h
  · simp at h
  · rename_i h4
    exact ⟨not_not.mp h4, (Option.some.inj h).symm⟩

/-- base64_decoded_size agrees with base64_decode_ exactly on the texts whose padding is at the
end. -/
theorem sizeRight_iff (rt : Runtime) (now : Nat) (text : Bytes) :
    SizeRight rt now text ↔ (text.length % 4 ≠ 0 ∨ PaddedAtEnd text) := by
  by_cases h4 : text.length % 4 = 0
  · have hdecode : base64Decode text = some (base64DecodeBlocks text) := if_neg (not_not.mpr h4)
    have hiff := @base64DecodedSize_eq_iff (rt.before now) text h4
    constructor
    · intro h
      have h2 : 2 ≤ text.length := h.inside _ hdecode 2 (by decide)
      exact Or.inr (hiff.mp ⟨h2, h.size _ hdecode⟩)
    · rintro (h | h)
      · exact absurd h4 h
      · obtain ⟨h2, hsize⟩ := hiff.mpr h
        have hinside : ∀ back ∈ decodedSizeReads, back ≤ text.length := by
          intro back hback
          have : back ≤ 2 := by
            simp only [decodedSizeReads, List.mem_cons, List.not_mem_nil, or_false] at hback
            omega
          omega
        refine ⟨fun _ _ => hinside, fun decoded hd => ?_, fun decoded hd hfit => ?_⟩
        · obtain rfl := (base64Decode_some hd).2
          exact hsize
        · obtain rfl := (base64Decode_some hd).2
          exact decodedBlock_eq hsize (hsize ▸ hfit)
  · have hnone : base64Decode text = none := if_pos h4
    constructor
    · exact fun _ => Or.inl h4
    · intro _
      refine ⟨fun decoded hd => ?_, fun decoded hd => ?_, fun decoded hd => ?_⟩
      · simp [hnone] at hd
      · simp [hnone] at hd
      · simp [hnone] at hd

/-- One byte is written where two are counted. -/
theorem middle_padding_miscounted : ¬ ∀ rt now text, SizeRight rt now text := by
  intro h
  have hsize := (h benchRuntime 0 (ascii "AA=A")).size [0] (by decide +kernel)
  revert hsize
  decide +kernel

/-! The round trip. -/

theorem length_base64Encode (d : Bytes) : (base64Encode d).length = base64EncodedSize d.length := by
  fun_induction base64Encode d with
  | case1 a b c rest ih =>
    simp only [List.length_cons, ih, base64EncodedSize]
    omega
  | case2 a b => simp [base64EncodedSize]
  | case3 a => simp [base64EncodedSize]
  | case4 => rfl

theorem base64Encode_ne_nil {d : Bytes} (h : d ≠ []) : base64Encode d ≠ [] := by
  intro he
  have hlen := length_base64Encode d
  have hpos := List.length_pos_iff.mpr h
  rw [he, base64EncodedSize, List.length_nil] at hlen
  omega

/-- The encoder pads the last block and no other. -/
theorem paddedAtEnd_encode {d : Bytes} (h : d ≠ []) : PaddedAtEnd (base64Encode d) := by
  fun_induction base64Encode d with
  | case1 a b c rest ih =>
    have hc : base64EncodeChar (b.toNat % 16 * 4 + c.toNat / 64) ≠ 61 :=
      base64EncodeChar_ne_padding _ (by have := c.toNat_lt; omega)
    have hd : base64EncodeChar (c.toNat % 64) ≠ 61 := base64EncodeChar_ne_padding _ (by omega)
    by_cases hr : rest = []
    · subst hr
      exact fun he => absurd he hc
    · rw [PaddedAtEnd]
      · exact ⟨hc, hd, ih hr⟩
      · exact base64Encode_ne_nil hr
  | case2 a b => exact fun _ => rfl
  | case3 a => exact fun _ => rfl
  | case4 => exact absurd rfl h

/-- The bits of a block of characters make up its bytes again. -/
theorem base64DecodeBlocks_encode (d : Bytes) : base64DecodeBlocks (base64Encode d) = d := by
  fun_induction base64Encode d with
  | case1 a b c rest ih =>
    have ha := a.toNat_lt
    have hb := b.toNat_lt
    have hc := c.toNat_lt
    have h2 : ¬ b.toNat % 16 * 4 + c.toNat / 64 = 64 := by omega
    have h3 : ¬ c.toNat % 64 = 64 := by omega
    have e0 : a.toNat / 4 * 4 + (a.toNat % 4 * 16 + b.toNat / 16) / 16 = a.toNat := by omega
    have e1 : (a.toNat % 4 * 16 + b.toNat / 16) % 16 * 16 + (b.toNat % 16 * 4 + c.toNat / 64) / 4 = b.toNat := by
      omega
    have e2 : (b.toNat % 16 * 4 + c.toNat / 64) % 4 * 64 + c.toNat % 64 = c.toNat := by omega
    rw [base64DecodeBlocks, base64DecodeChar_encodeChar _ (by omega), base64DecodeChar_encodeChar _ (by omega),
      base64DecodeChar_encodeChar _ (by omega), base64DecodeChar_encodeChar _ (by omega)]
    simp only [h2, h3, if_false, e0, e1, e2, UInt8.ofNat_toNat, ih]
  | case2 a b =>
    have ha := a.toNat_lt
    have hb := b.toNat_lt
    have h2 : ¬ b.toNat % 16 * 4 = 64 := by omega
    have e0 : a.toNat / 4 * 4 + (a.toNat % 4 * 16 + b.toNat / 16) / 16 = a.toNat := by omega
    have e1 : (a.toNat % 4 * 16 + b.toNat / 16) % 16 * 16 + b.toNat % 16 * 4 / 4 = b.toNat := by omega
    rw [base64DecodeBlocks, base64DecodeChar_encodeChar _ (by omega), base64DecodeChar_encodeChar _ (by omega),
      base64DecodeChar_encodeChar _ (by omega), base64DecodeChar_padding.mpr rfl]
    simp only [h2, if_false, if_true, e0, e1, UInt8.ofNat_toNat]
  | case3 a =>
    have ha := a.toNat_lt
    have e0 : a.toNat / 4 * 4 + a.toNat % 4 * 16 / 16 = a.toNat := by omega
    rw [base64DecodeBlocks, base64DecodeChar_encodeChar _ (by omega), base64DecodeChar_encodeChar _ (by omega),
      base64DecodeChar_padding.mpr rfl]
    simp only [if_true, e0, UInt8.ofNat_toNat]
  | case4 => rfl

/-- What was encoded is decoded again, and both sizes are right. -/
theorem base64_roundTrip (before : Nat → UInt8) (d : Bytes) (h : d ≠ []) :
    (base64Encode d).length = base64EncodedSize d.length ∧
      base64DecodedSize before (base64Encode d) = d.length ∧ base64Decode (base64Encode d) = some d := by
  have hlen := length_base64Encode d
  have h4 : (base64Encode d).length % 4 = 0 := by
    rw [hlen, base64EncodedSize]
    omega
  have hsize := ((@base64DecodedSize_eq_iff before _ h4).mpr (paddedAtEnd_encode h)).2
  rw [base64DecodeBlocks_encode] at hsize
  exact ⟨hlen, hsize, by rw [base64Decode, if_neg (not_not.mpr h4), base64DecodeBlocks_encode]⟩

theorem base64_roundTrip_text :
    (base64Encode (ascii "ab")).length = 4 ∧ base64DecodedSize (fun _ => 61) (base64Encode (ascii "ab")) = 2 ∧
      base64Decode (base64Encode (ascii "ab")) = some (ascii "ab") :=
  base64_roundTrip (fun _ => 61) (ascii "ab") (by decide)

/-! Texts over the alphabet. -/

/-- Blocks of four characters, the last of which may end in padding. -/
def IsBase64 : Bytes → Prop
  | [] => True
  | [a, b, c, d] =>
    a ∈ base64Chars ∧ b ∈ base64Chars ∧ (c ∈ base64Chars ∧ (d ∈ base64Chars ∨ d = 61) ∨ c = 61 ∧ d = 61)
  | a :: b :: c :: d :: rest =>
    a ∈ base64Chars ∧ b ∈ base64Chars ∧ c ∈ base64Chars ∧ d ∈ base64Chars ∧ IsBase64 rest
  | _ => False

theorem isBase64_encode (d : Bytes) : IsBase64 (base64Encode d) := by
  fun_induction base64Encode d with
  | case1 a b c rest ih =>
    have ha := a.toNat_lt
    have hb := b.toNat_lt
    have hc := c.toNat_lt
    have h0 := base64EncodeChar_mem (a.toNat / 4) (by omega)
    have h1 := base64EncodeChar_mem (a.toNat % 4 * 16 + b.toNat / 16) (by omega)
    have h2 := base64EncodeChar_mem (b.toNat % 16 * 4 + c.toNat / 64) (by omega)
    have h3 := base64EncodeChar_mem (c.toNat % 64) (by omega)
    by_cases hr : rest = []
    · subst hr
      exact ⟨h0, h1, Or.inl ⟨h2, Or.inl h3⟩⟩
    · rw [IsBase64]
      · exact ⟨h0, h1, h2, h3, ih⟩
      · exact base64Encode_ne_nil hr
  | case2 a b =>
    have ha := a.toNat_lt
    have hb := b.toNat_lt
    exact ⟨base64EncodeChar_mem _ (by omega), base64EncodeChar_mem _ (by omega),
      Or.inl ⟨base64EncodeChar_mem _ (by omega), Or.inr rfl⟩⟩
  | case3 a =>
    have ha := a.toNat_lt
    exact ⟨base64EncodeChar_mem _ (by omega), base64EncodeChar_mem _ (by omega), Or.inr ⟨rfl, rfl⟩⟩
  | case4 => trivial

theorem IsBase64.paddedAtEnd {text : Bytes} (h : IsBase64 text) (hne : text ≠ []) : PaddedAtEnd text := by
  fun_induction IsBase64 text with
  | case1 => exact absurd rfl hne
  | case2 a b c d =>
    obtain ⟨_, _, ⟨hc, _⟩ | ⟨_, hd⟩⟩ := h
    · exact fun he => absurd he (ne_padding hc)
    · exact fun _ => hd
  | case3 a b c d rest hrest ih =>
    obtain ⟨_, _, hc, hd, htail⟩ := h
    have hne' : rest ≠ [] := fun he => hrest he
    rw [PaddedAtEnd]
    · exact ⟨ne_padding hc, ne_padding hd, ih htail hne'⟩
    · exact hne'
  | case4 => exact h.elim

theorem IsBase64.chars {text : Bytes} (h : IsBase64 text) : ∀ c ∈ text, c ∈ base64Chars ∨ c = 61 := by
  fun_induction IsBase64 text with
  | case1 => exact fun c hc => absurd hc List.not_mem_nil
  | case2 a b c d =>
    simp only [List.forall_mem_cons]
    tauto
  | case3 a b c d rest hrest ih =>
    obtain ⟨ha, hb, hc, hd, htail⟩ := h
    simp only [List.forall_mem_cons]
    exact ⟨Or.inl ha, Or.inl hb, Or.inl hc, Or.inl hd, ih htail⟩
  | case4 => exact h.elim

/-- A text is as long as what it decodes to is when it is encoded. -/
theorem IsBase64.length {text : Bytes} (h : IsBase64 text) :
    text.length = base64EncodedSize (base64DecodeBlocks text).length := by
  fun_induction IsBase64 text with
  | case1 => rfl
  | case2 a b c d =>
    simp only [base64DecodeBlocks, base64DecodeChar_padding]
    by_cases hc : c = 61 <;> by_cases hd : d = 61 <;> simp [hc, hd, base64EncodedSize]
  | case3 a b c d rest hrest ih =>
    obtain ⟨_, _, hc, hd, htail⟩ := h
    have hlen := ih htail
    simp only [base64DecodeBlocks, base64DecodeChar_padding, ne_padding hc, ne_padding hd, if_false, List.length_cons,
      base64EncodedSize] at hlen ⊢
    omega
  | case4 => exact h.elim

theorem IsBase64.strdup {text : Bytes} (h : IsBase64 text) : CString.strdup text = text := by
  refine List.takeWhile_eq_self_iff.mpr (fun c hc => ?_)
  have hzero : c ≠ 0 := by
    rintro rfl
    rcases h.chars 0 hc with hc | hc
    · exact (ne_padding_zero hc).2 rfl
    · simp at hc
  simpa using hzero

/-- The block of such a text holds what it decodes to, if it can be allocated. -/
theorem IsBase64.block {rt : Runtime} {now : Nat} {text : Bytes} (h : IsBase64 text) {block : Option Bytes}
    (hb : decodedBlock rt now text (base64DecodeBlocks text) = .ok block) :
    block = some (base64DecodeBlocks text) ∨ block = none ∧ base64DecodeBlocks text = [] := by
  by_cases hsize : base64DecodedSize (rt.before now) text = (base64DecodeBlocks text).length
  · by_cases hfit : (base64DecodeBlocks text).length ≤ dramSize
    · exact Or.inl (Except.ok.inj (hb.symm.trans (decodedBlock_eq hsize hfit)))
    · have hne : base64DecodeBlocks text ≠ [] := fun he => hfit (by simp [he])
      simp [decodedBlock, hsize, hfit, hne] at hb
  · -- the size is wrong for the empty text only, which wraps it around
    have hnil : text = [] := by
      by_contra hne
      have h4 : text.length % 4 = 0 := by
        rw [h.length, base64EncodedSize]
        omega
      exact hsize ((base64DecodedSize_eq_iff text h4).mpr (h.paddedAtEnd hne)).2
    subst hnil
    have hlarge : ¬ base64DecodedSize (rt.before now) [] ≤ dramSize := by
      revert hsize
      simp only [base64DecodedSize, base64DecodeBlocks, decrementSize, dramSize, List.length_nil]
      split_ifs <;> simp
    simp only [decodedBlock, hlarge, if_false, base64DecodeBlocks, if_true, Except.ok.injEq] at hb
    exact Or.inr ⟨hb.symm, rfl⟩

end ArduinoHomeKit
