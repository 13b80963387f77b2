import AccessWidener.Proofs.Text.Utf8

/-!
# Decoded Bytes Are Encoded Text

Strict decoding accepts nothing but encoded text. A piece that is a character was cut out because
its first byte announced a length and every later byte was in range, and these ranges leave just the
bytes that the character is encoded by: no short form, no surrogate and no value past the last
character gets through. So bytes are well formed if and only if they are the bytes of some text, and
this text is what decoding gives (`decode_eq_ok_iff`).

## Theorems

* `lead_eq_triple`, `lead_eq_quadruple`: The longer sequences, by their first bytes.
* `range_of_single`, `range_of_double`, `range_of_triple`, `range_of_quadruple`: The first bytes of
  each length.
* `encode_single`, `encode_double`, `encode_triple`, `encode_quadruple`: A character that was cut
  out is encoded by the bytes that it was cut out of.
* `decode_eq_ok_iff`: The bytes that decode to a text are its encoding.
-/

namespace AccessWidener

namespace Utf8

/-! ### First bytes -/

theorem range_of_single {a : UInt8} (h : lead a = .single) : a.toNat < 0x80 := by
  rw [lead_eq] at h
  grind

theorem range_of_double {a : UInt8} (h : lead a = .double) : 0xC2 ≤ a.toNat ∧ a.toNat < 0xE0 := by
  rw [lead_eq] at h
  grind

/-- The first bytes of three, and the second bytes that they ask for. -/
theorem lead_eq_triple {a low high : UInt8} (h : lead a = .triple low high) :
    a.toNat = 0xE0 ∧ low = 0xA0 ∧ high = 0xBF ∨ a.toNat = 0xED ∧ low = 0x80 ∧ high = 0x9F ∨
      0xE0 < a.toNat ∧ a.toNat < 0xF0 ∧ a.toNat ≠ 0xED ∧ low = 0x80 ∧ high = 0xBF := by
  rw [lead_eq] at h
  -- The bytes of other lengths go first, so that few cases are left to tell apart.
  have hlong : 0xE0 ≤ a.toNat := by grind
  have hshort : a.toNat < 0xF0 := by grind
  rw [if_neg (by omega), if_neg (by omega), if_neg (by omega), if_pos hshort] at h
  split at h
  next ha =>
    cases h
    exact Or.inl ⟨ha, rfl, rfl⟩
  next =>
    split at h
    next ha =>
      cases h
      exact Or.inr (Or.inl ⟨ha, rfl, rfl⟩)
    next hother =>
      cases h
      exact Or.inr (Or.inr ⟨by omega, hshort, hother, rfl, rfl⟩)

/-- The first bytes of four, and the second bytes that they ask for. -/
theorem lead_eq_quadruple {a low high : UInt8} (h : lead a = .quadruple low high) :
    a.toNat = 0xF0 ∧ low = 0x90 ∧ high = 0xBF ∨ a.toNat = 0xF4 ∧ low = 0x80 ∧ high = 0x8F ∨
      0xF0 < a.toNat ∧ a.toNat < 0xF4 ∧ low = 0x80 ∧ high = 0xBF := by
  rw [lead_eq] at h
  have hlong : 0xF0 ≤ a.toNat := by grind
  have hlast : a.toNat ≤ 0xF4 := by grind
  rw [if_neg (by omega), if_neg (by omega), if_neg (by omega), if_neg (by omega),
    if_neg (by omega), if_neg (by omega)] at h
  -- The two ends of the range of first bytes narrow the second byte, those between do not.
  split at h
  next ha =>
    cases h
    exact Or.inl ⟨ha, rfl, rfl⟩
  next =>
    split at h
    next hshort =>
      cases h
      exact Or.inr (Or.inr ⟨by omega, hshort, rfl, rfl⟩)
    next =>
      rw [if_pos (by omega)] at h
      cases h
      exact Or.inr (Or.inl ⟨by omega, rfl, rfl⟩)

/-- Among the second bytes that a first one asks for are none of short forms or surrogates. -/
theorem range_of_triple {a low high : UInt8} (h : lead a = .triple low high) :
    0xE0 ≤ a.toNat ∧ a.toNat < 0xF0 ∧ 0x80 ≤ low.toNat ∧ high.toNat ≤ 0xBF ∧
      (a.toNat = 0xE0 → 0xA0 ≤ low.toNat) ∧ (a.toNat = 0xED → high.toNat ≤ 0x9F) := by
  rcases lead_eq_triple h with ⟨ha, rfl, rfl⟩ | ⟨ha, rfl, rfl⟩ | ⟨hlow, hhigh, hne, rfl, rfl⟩
  · exact ⟨by omega, by omega, by decide, by decide, fun _ => by decide, by omega⟩
  · exact ⟨by omega, by omega, by decide, by decide, by omega, fun _ => by decide⟩
  · exact ⟨by omega, by omega, by decide, by decide, by omega, by omega⟩

/-- Among the second bytes that a first one asks for are none of short forms or of values past the
    last character. -/
theorem range_of_quadruple {a low high : UInt8} (h : lead a = .quadruple low high) :
    0xF0 ≤ a.toNat ∧ a.toNat ≤ 0xF4 ∧ 0x80 ≤ low.toNat ∧ high.toNat ≤ 0xBF ∧
      (a.toNat = 0xF0 → 0x90 ≤ low.toNat) ∧ (a.toNat = 0xF4 → high.toNat ≤ 0x8F) := by
  rcases lead_eq_quadruple h with ⟨ha, rfl, rfl⟩ | ⟨ha, rfl, rfl⟩ | ⟨hlow, hhigh, rfl, rfl⟩
  · exact ⟨by omega, by omega, by decide, by decide, fun _ => by decide, by omega⟩
  · exact ⟨by omega, by omega, by decide, by decide, by omega, fun _ => by decide⟩
  · exact ⟨by omega, by omega, by decide, by decide, by omega, by omega⟩

theorem range_of_continuation {b : UInt8} (h : isContinuation b = true) :
    0x80 ≤ b.toNat ∧ b.toNat ≤ 0xBF :=
  (within_eq_true_iff 0x80 0xBF b).mp h

/-! ### Characters that were cut out -/

theorem ofNat_eq {b : UInt8} {n : Nat} (h : n = b.toNat) : UInt8.ofNat n = b := by
  rw [h, UInt8.ofNat_toNat]

theorem val_ofNat {n : Nat} (h : n.isValidChar) : (Char.ofNat n).val.toNat = n := by
  rw [Char.ofNat, dif_pos h]
  rfl

theorem encode_single {a : UInt8} (h : lead a = .single) :
    String.utf8EncodeChar (Char.ofNat a.toNat) = [a] := by
  have hrange := range_of_single h
  have hvalid : a.toNat.isValidChar := Or.inl (by omega)
  simp only [String.utf8EncodeChar, val_ofNat hvalid]
  rw [if_pos (by omega), UInt8.ofNat_toNat]

theorem encode_double {a b : UInt8} (h : lead a = .double) (hb : isContinuation b = true) :
    String.utf8EncodeChar (scalar₂ a b) = [a, b] := by
  have hfirst := range_of_double h
  have hsecond := range_of_continuation hb
  have hvalid : (a.toNat % 32 * 64 + b.toNat % 64).isValidChar := Or.inl (by omega)
  simp only [String.utf8EncodeChar, scalar₂, val_ofNat hvalid]
  rw [if_neg (by omega), if_pos (by omega), ofNat_eq (by omega : _ = a.toNat),
    ofNat_eq (by omega : _ = b.toNat)]

theorem encode_triple {a b c low high : UInt8} (h : lead a = .triple low high)
    (hb : within low high b = true) (hc : isContinuation c = true) :
    String.utf8EncodeChar (scalar₃ a b c) = [a, b, c] := by
  have hfirst := range_of_triple h
  have hsecond := (within_eq_true_iff low high b).mp hb
  have hthird := range_of_continuation hc
  have hvalid : (a.toNat % 16 * 4096 + b.toNat % 64 * 64 + c.toNat % 64).isValidChar := by
    unfold Nat.isValidChar
    omega
  simp only [String.utf8EncodeChar, scalar₃, val_ofNat hvalid]
  rw [if_neg (by omega), if_neg (by omega), if_pos (by omega), ofNat_eq (by omega : _ = a.toNat),
    ofNat_eq (by omega : _ = b.toNat), ofNat_eq (by omega : _ = c.toNat)]

theorem encode_quadruple {a b c d low high : UInt8} (h : lead a = .quadruple low high)
    (hb : within low high b = true) (hc : isContinuation c = true)
    (hd : isContinuation d = true) :
    String.utf8EncodeChar (scalar₄ a b c d) = [a, b, c, d] := by
  have hfirst := range_of_quadruple h
  have hsecond := (within_eq_true_iff low high b).mp hb
  have hthird := range_of_continuation hc
  have hfourth := range_of_continuation hd
  -- The ranges of the four bytes keep the number between the last scalar of three bytes and the
  -- last of all.
  have hvalid : (a.toNat % 8 * 262144 + b.toNat % 64 * 4096 + c.toNat % 64 * 64 +
      d.toNat % 64).isValidChar := by
    unfold Nat.isValidChar
    omega
  simp only [String.utf8EncodeChar, scalar₄, val_ofNat hvalid]
  rw [if_neg (by omega), if_neg (by omega), if_neg (by omega), ofNat_eq (by omega : _ = a.toNat),
    ofNat_eq (by omega : _ = b.toNat), ofNat_eq (by omega : _ = c.toNat),
    ofNat_eq (by omega : _ = d.toNat)]

/-! ### Texts -/

theorem encode_cons (c : Char) (text : List Char) :
    encode (c :: text) = String.utf8EncodeChar c ++ encode text :=
  List.flatMap_cons

/-- A text whose first piece is a character. -/
theorem exists_of_scalars {index : Nat} {c : Char} {rest : List Piece} {text : List Char}
    (h : scalars index (.scalar c :: rest) = .ok text) :
    ∃ later index', scalars index' rest = .ok later ∧ text = c :: later := by
  rw [scalars] at h
  cases hrest : scalars (index + c.utf8Size) rest with
  | error fault =>
      rw [hrest] at h
      cases h
  | ok later =>
      rw [hrest] at h
      cases h
      exact ⟨later, _, hrest, rfl⟩

/-- If all pieces of a byte string are characters, the bytes are theirs. -/
theorem encode_of_scalars {bytes : Bytes} {index : Nat} {text : List Char}
    (h : scalars index (pieces bytes) = .ok text) : encode text = bytes := by
  -- One case for each length of a sequence that is not broken; the others stop at a fault.
  fun_induction pieces bytes generalizing index text with
  | case1 =>
      cases h
      rfl
  | case2 a rest hlead ih =>
      rcases exists_of_scalars h with ⟨later, index', hlater, rfl⟩
      rw [encode_cons, encode_single hlead, ih hlater]
      rfl
  | case5 a hlead b rest hb ih =>
      rcases exists_of_scalars h with ⟨later, index', hlater, rfl⟩
      rw [encode_cons, encode_double hlead hb, ih hlater]
      rfl
  | case9 a low high hlead b hb c rest hc ih =>
      rcases exists_of_scalars h with ⟨later, index', hlater, rfl⟩
      rw [encode_cons, encode_triple hlead hb hc, ih hlater]
      rfl
  | case15 a low high hlead b hb c hc d rest hd ih =>
      rcases exists_of_scalars h with ⟨later, index', hlater, rfl⟩
      rw [encode_cons, encode_quadruple hlead hb hc hd, ih hlater]
      rfl
  | _ => cases h

/-- The bytes that decode to a text are those that encode it. -/
theorem decode_eq_ok_iff {bytes : Bytes} {text : List Char} :
    decode bytes = .ok text ↔ bytes = encode text := by
  constructor
  · exact fun h => (encode_of_scalars h).symm
  · rintro rfl
    exact decode_encode text

end Utf8

end AccessWidener
