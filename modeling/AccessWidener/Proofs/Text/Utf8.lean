import AccessWidener.Text.Utf8

/-!
# Encoded Text Is Decoded Again

Decoding cuts bytes into pieces by looking at one byte after the other, and encoding knows nothing
of that: it writes the one to four bytes of every character. The two fit together because the first
byte of an encoded character announces its own length, because the second one respects the narrower
ranges that some first bytes ask for, and because every later byte is a continuation. So the bytes
of a character are one piece, whatever stands behind them (`pieces_encodeChar`), and nothing has to
be known about the bytes in front of them.

A text comes back from its bytes in both ways of decoding. Strict decoding finds no fault, and
tolerant decoding has nothing to replace.

## Theorems

* `lead_eq`, `within_eq_true_iff`: The tests on bytes as tests on their numbers.
* `pieces_encodeChar`: The bytes of a character are one piece.
* `decode_encode`, `decodeLossy_encode`: A text comes back from its bytes.
* `encodeString_inj`: Texts are told by their bytes.
-/

namespace AccessWidener

namespace Utf8

/-! ### Single bytes -/

/-- What a first byte announces, judged by its number. -/
theorem lead_eq (b : UInt8) :
    lead b =
      if b.toNat < 0x80 then .single
      else if b.toNat < 0xC2 then .none
      else if b.toNat < 0xE0 then .double
      else if b.toNat = 0xE0 then .triple 0xA0 0xBF
      else if b.toNat = 0xED then .triple 0x80 0x9F
      else if b.toNat < 0xF0 then .triple 0x80 0xBF
      else if b.toNat = 0xF0 then .quadruple 0x90 0xBF
      else if b.toNat < 0xF4 then .quadruple 0x80 0xBF
      else if b.toNat = 0xF4 then .quadruple 0x80 0x8F
      else .none := by
  simp only [lead, UInt8.lt_iff_toNat_lt, ← UInt8.toNat_inj]
  rfl

theorem within_eq_true_iff (low high b : UInt8) :
    within low high b = true ↔ low.toNat ≤ b.toNat ∧ b.toNat ≤ high.toNat := by
  rw [within, Bool.and_eq_true, decide_eq_true_eq, decide_eq_true_eq, UInt8.le_iff_toNat_le,
    UInt8.le_iff_toNat_le]

theorem toNat_ofNat {n : Nat} (h : n < 256) : (UInt8.ofNat n).toNat = n := by
  rw [UInt8.toNat_ofNat', Nat.mod_eq_of_lt h]

/-- Every byte of an encoded character but the first is a continuation. -/
theorem isContinuation_ofNat (n : Nat) : isContinuation (UInt8.ofNat (n % 64 + 128)) = true := by
  rw [isContinuation, within_eq_true_iff, toNat_ofNat (by omega)]
  change 128 ≤ n % 64 + 128 ∧ n % 64 + 128 ≤ 191
  omega

/-! ### Pieces by their length -/

theorem pieces_of_single {a : UInt8} (h : lead a = .single) (rest : Bytes) :
    pieces (a :: rest) = .scalar (Char.ofNat a.toNat) :: pieces rest := by
  rw [pieces.eq_def]
  simp only [h]

theorem pieces_of_double {a b : UInt8} (h : lead a = .double) (hb : isContinuation b = true)
    (rest : Bytes) : pieces (a :: b :: rest) = .scalar (scalar₂ a b) :: pieces rest := by
  rw [pieces.eq_def]
  simp only [h, hb, if_true]

theorem pieces_of_triple {a b c low high : UInt8} (h : lead a = .triple low high)
    (hb : within low high b = true) (hc : isContinuation c = true) (rest : Bytes) :
    pieces (a :: b :: c :: rest) = .scalar (scalar₃ a b c) :: pieces rest := by
  rw [pieces.eq_def]
  simp only [h, hb, hc, if_true]

theorem pieces_of_quadruple {a b c d low high : UInt8} (h : lead a = .quadruple low high)
    (hb : within low high b = true) (hc : isContinuation c = true) (hd : isContinuation d = true)
    (rest : Bytes) :
    pieces (a :: b :: c :: d :: rest) = .scalar (scalar₄ a b c d) :: pieces rest := by
  rw [pieces.eq_def]
  simp only [h, hb, hc, hd, if_true]

/-! ### Encoded characters -/

/-- Below 128 a character is its own byte. -/
theorem pieces_oneByte {v : Nat} (h : v < 0x80) (rest : Bytes) :
    pieces (UInt8.ofNat v :: rest) = .scalar (Char.ofNat v) :: pieces rest := by
  have hlead : lead (UInt8.ofNat v) = .single := by
    rw [lead_eq, toNat_ofNat (by omega), if_pos h]
  rw [pieces_of_single hlead, toNat_ofNat (by omega)]

theorem pieces_twoBytes {v : Nat} (hlow : 0x80 ≤ v) (hhigh : v < 0x800) (rest : Bytes) :
    pieces (UInt8.ofNat (v / 64 % 32 + 192) :: UInt8.ofNat (v % 64 + 128) :: rest) =
      .scalar (Char.ofNat v) :: pieces rest := by
  have hlead : lead (UInt8.ofNat (v / 64 % 32 + 192)) = .double := by
    rw [lead_eq, toNat_ofNat (by omega), if_neg (by omega), if_neg (by omega), if_pos (by omega)]
  have hscalar : scalar₂ (UInt8.ofNat (v / 64 % 32 + 192)) (UInt8.ofNat (v % 64 + 128)) =
      Char.ofNat v := by
    rw [scalar₂, toNat_ofNat (by omega), toNat_ofNat (by omega)]
    congr 1
    omega
  rw [pieces_of_double hlead (isContinuation_ofNat v), hscalar]

/-- The second of three bytes is in the range that the first one asks for: short forms and
    surrogates are not among the characters that take three bytes. -/
theorem exists_triple {v : Nat} (hlow : 0x800 ≤ v) (hhigh : v < 0x10000)
    (hvalid : v < 0xD800 ∨ 0xDFFF < v) :
    ∃ low high, lead (UInt8.ofNat (v / 4096 % 16 + 224)) = .triple low high ∧
      within low high (UInt8.ofNat (v / 64 % 64 + 128)) = true := by
  simp only [lead_eq, within_eq_true_iff, toNat_ofNat (by omega : v / 4096 % 16 + 224 < 256),
    toNat_ofNat (by omega : v / 64 % 64 + 128 < 256)]
  rw [if_neg (by omega), if_neg (by omega), if_neg (by omega)]
  -- The first byte decides the range of the second: after the lowest one, overlong forms are left
  -- out, and after the one of the surrogates, these.
  by_cases hfirst : v / 4096 % 16 = 0
  · refine ⟨_, _, if_pos (by omega), ?_⟩
    change 160 ≤ v / 64 % 64 + 128 ∧ v / 64 % 64 + 128 ≤ 191
    omega
  rw [if_neg (by omega)]
  by_cases hsurrogate : v / 4096 % 16 = 13
  · refine ⟨_, _, if_pos (by omega), ?_⟩
    change 128 ≤ v / 64 % 64 + 128 ∧ v / 64 % 64 + 128 ≤ 159
    omega
  rw [if_neg (by omega)]
  refine ⟨_, _, if_pos (by omega), ?_⟩
  change 128 ≤ v / 64 % 64 + 128 ∧ v / 64 % 64 + 128 ≤ 191
  omega

theorem pieces_threeBytes {v : Nat} (hlow : 0x800 ≤ v) (hhigh : v < 0x10000)
    (hvalid : v < 0xD800 ∨ 0xDFFF < v) (rest : Bytes) :
    pieces (UInt8.ofNat (v / 4096 % 16 + 224) :: UInt8.ofNat (v / 64 % 64 + 128) ::
      UInt8.ofNat (v % 64 + 128) :: rest) = .scalar (Char.ofNat v) :: pieces rest := by
  rcases exists_triple hlow hhigh hvalid with ⟨low, high, hlead, hsecond⟩
  have hscalar : scalar₃ (UInt8.ofNat (v / 4096 % 16 + 224)) (UInt8.ofNat (v / 64 % 64 + 128))
      (UInt8.ofNat (v % 64 + 128)) = Char.ofNat v := by
    rw [scalar₃, toNat_ofNat (by omega), toNat_ofNat (by omega), toNat_ofNat (by omega)]
    congr 1
    omega
  rw [pieces_of_triple hlead hsecond (isContinuation_ofNat v), hscalar]

/-- The second of four bytes is in the range that the first one asks for: short forms and values
    past the last character are not among the characters that take four bytes. -/
theorem exists_quadruple {v : Nat} (hlow : 0x10000 ≤ v) (hhigh : v < 0x110000) :
    ∃ low high, lead (UInt8.ofNat (v / 262144 % 8 + 240)) = .quadruple low high ∧
      within low high (UInt8.ofNat (v / 4096 % 64 + 128)) = true := by
  simp only [lead_eq, within_eq_true_iff, toNat_ofNat (by omega : v / 262144 % 8 + 240 < 256),
    toNat_ofNat (by omega : v / 4096 % 64 + 128 < 256)]
  rw [if_neg (by omega), if_neg (by omega), if_neg (by omega), if_neg (by omega),
    if_neg (by omega), if_neg (by omega)]
  -- After the lowest first byte overlong forms are left out, after the highest one what lies beyond
  -- the last scalar.
  by_cases hfirst : v / 262144 % 8 = 0
  · refine ⟨_, _, if_pos (by omega), ?_⟩
    change 144 ≤ v / 4096 % 64 + 128 ∧ v / 4096 % 64 + 128 ≤ 191
    omega
  rw [if_neg (by omega)]
  by_cases hlast : v / 262144 % 8 = 4
  · rw [if_neg (by omega)]
    refine ⟨_, _, if_pos (by omega), ?_⟩
    change 128 ≤ v / 4096 % 64 + 128 ∧ v / 4096 % 64 + 128 ≤ 143
    omega
  refine ⟨_, _, if_pos (by omega), ?_⟩
  change 128 ≤ v / 4096 % 64 + 128 ∧ v / 4096 % 64 + 128 ≤ 191
  omega

theorem pieces_fourBytes {v : Nat} (hlow : 0x10000 ≤ v) (hhigh : v < 0x110000) (rest : Bytes) :
    pieces (UInt8.ofNat (v / 262144 % 8 + 240) :: UInt8.ofNat (v / 4096 % 64 + 128) ::
      UInt8.ofNat (v / 64 % 64 + 128) :: UInt8.ofNat (v % 64 + 128) :: rest) =
        .scalar (Char.ofNat v) :: pieces rest := by
  rcases exists_quadruple hlow hhigh with ⟨low, high, hlead, hsecond⟩
  have hscalar : scalar₄ (UInt8.ofNat (v / 262144 % 8 + 240)) (UInt8.ofNat (v / 4096 % 64 + 128))
      (UInt8.ofNat (v / 64 % 64 + 128)) (UInt8.ofNat (v % 64 + 128)) = Char.ofNat v := by
    rw [scalar₄, toNat_ofNat (by omega), toNat_ofNat (by omega), toNat_ofNat (by omega),
      toNat_ofNat (by omega)]
    congr 1
    omega
  rw [pieces_of_quadruple hlead hsecond (isContinuation_ofNat (v / 64)) (isContinuation_ofNat v),
    hscalar]

/-- The bytes of a character are one piece, whatever follows. -/
theorem pieces_encodeChar (c : Char) (rest : Bytes) :
    pieces (String.utf8EncodeChar c ++ rest) = .scalar c :: pieces rest := by
  have hvalid : c.val.toNat < 0xD800 ∨ 0xDFFF < c.val.toNat ∧ c.val.toNat < 0x110000 := c.valid
  have hc : Char.ofNat c.val.toNat = c := Char.ofNat_toNat c
  simp only [String.utf8EncodeChar]
  generalize c.val.toNat = v at hvalid hc
  -- One case for each length of the encoding.
  split
  · rw [List.singleton_append, pieces_oneByte (by omega), hc]
  split
  · rw [List.cons_append, List.singleton_append, pieces_twoBytes (by omega) (by omega), hc]
  split
  · rw [List.cons_append, List.cons_append, List.singleton_append,
      pieces_threeBytes (by omega) (by omega) (by omega), hc]
  · rw [List.cons_append, List.cons_append, List.cons_append, List.singleton_append,
      pieces_fourBytes (by omega) (by omega), hc]

/-! ### Texts -/

/-- The pieces of an encoded text are its characters. -/
theorem pieces_encode (text : List Char) : pieces (encode text) = text.map .scalar := by
  induction text with
  | nil => rfl
  | cons c text ih =>
      rw [encode, List.flatMap_cons, pieces_encodeChar, List.map_cons, ← ih, encode]

theorem scalars_map (index : Nat) (text : List Char) :
    scalars index (text.map .scalar) = .ok text := by
  induction text generalizing index with
  | nil => rfl
  | cons c text ih => rw [List.map_cons, scalars, ih]; rfl

/-- Strict decoding finds no fault in encoded text. -/
theorem decode_encode (text : List Char) : decode (encode text) = .ok text := by
  rw [decode, pieces_encode, scalars_map]

/-- Tolerant decoding replaces nothing in encoded text. -/
theorem decodeLossy_encode (text : List Char) : decodeLossy (encode text) = text := by
  rw [decodeLossy, pieces_encode, List.map_map]
  exact List.map_id text

/-- Texts with the same bytes are equal. -/
theorem encodeString_inj {text text' : String} (h : encodeString text = encodeString text') :
    text = text' := by
  have hdecode : decode (encode text.toList) = decode (encode text'.toList) := congrArg decode h
  rw [decode_encode, decode_encode] at hdecode
  exact String.toList_injective (Except.ok.inj hdecode)

end Utf8

end AccessWidener
