import AccessWidener.Proofs.Text.Utf8

/-!
# Modified UTF-8

Class files keep their texts in an encoding of their own. It writes the 16-bit units of a text, each
on its own in one to three bytes as UTF-8 would write a character of that value, but for zero, which
takes two bytes. So it agrees with UTF-8 on most characters and differs on two sorts of them. Zero
takes the two bytes that would be an overlong form, and a character above U+FFFF has two units,
which are surrogates, and takes six bytes. Neither is well-formed UTF-8, and no part of it is: the
first byte of each of these sequences announces something that does not follow, and every other byte
is a continuation that nothing has announced.

A tolerant decoder of UTF-8 therefore gives the texts without such characters back as they were, and
in other texts it puts two replacement characters for each zero and six for each character above
U+FFFF (`decodeLossy_encode_modified`). What was there cannot be told from the result.

## Main definitions

* `ModifiedUtf8.encode`: The bytes of a text in a class file.
* `ModifiedUtf8.IsCommon`: A character that both encodings write in the same way.
* `ModifiedUtf8.IsPlain`: A text that no other text can be mistaken for.
* `ModifiedUtf8.readBack`: What a tolerant decoder of UTF-8 makes of a text.

## Theorems

* `encodeChar_of_common`: Common characters have the bytes that they have in UTF-8.
* `pieces_surrogate`: The bytes of a surrogate are three broken pieces.
* `decodeLossy_encode_modified`: What a tolerant decoder makes of encoded text.
* `readBack_eq_self_iff`: The texts that come back as they were.
* `isCommonText_readBack`: Only such texts come back.
* `readBack_eq_iff`: A plain text comes back from its own bytes and from no others.
-/

namespace AccessWidener

namespace Utf8

/-! ### Bytes that start nothing -/

theorem pieces_of_none {a : UInt8} (h : lead a = .none) (rest : Bytes) :
    pieces (a :: rest) = .invalid 1 :: pieces rest := by
  rw [pieces.eq_def]
  simp only [h]

/-- A continuation starts nothing, and neither do the two bytes above. -/
theorem lead_eq_none {b : UInt8} (hlow : 0x80 ≤ b.toNat) (hhigh : b.toNat < 0xC2) :
    lead b = .none := by
  rw [lead_eq, if_neg (by omega), if_pos hhigh]

/-- A first byte of three whose second byte is out of range is a broken piece of its own. -/
theorem pieces_of_triple_broken {a b low high : UInt8} (h : lead a = .triple low high)
    (hb : within low high b = false) (rest : Bytes) :
    pieces (a :: b :: rest) = .invalid 1 :: pieces (b :: rest) := by
  rw [pieces.eq_def]
  simp only [h, hb, if_neg Bool.false_ne_true]

end Utf8

namespace ModifiedUtf8

open Utf8

/-! ### The encoding -/

/-- The 16-bit units of a character: one up to U+FFFF, and a pair of surrogates above. -/
def units (c : Char) : List Nat :=
  if c.toNat < 0x10000 then [c.toNat]
  else [0xD800 + (c.toNat - 0x10000) / 0x400, 0xDC00 + (c.toNat - 0x10000) % 0x400]

/-- The bytes of a unit. Only values from 1 to 127 take a single byte. -/
def encodeUnit (unit : Nat) : Bytes :=
  if 0 < unit ∧ unit < 0x80 then [UInt8.ofNat unit]
  else if unit < 0x800 then [UInt8.ofNat (unit / 64 % 32 + 192), UInt8.ofNat (unit % 64 + 128)]
  else [UInt8.ofNat (unit / 4096 % 16 + 224), UInt8.ofNat (unit / 64 % 64 + 128),
    UInt8.ofNat (unit % 64 + 128)]

/-- The bytes of a character. -/
def encodeChar (c : Char) : Bytes :=
  (units c).flatMap encodeUnit

/-- The bytes of a text in a class file. -/
def encode (text : String) : Bytes :=
  text.toList.flatMap encodeChar

/-- A character that both encodings write in the same way. -/
def IsCommon (c : Char) : Prop :=
  0 < c.toNat ∧ c.toNat < 0x10000

instance (c : Char) : Decidable (IsCommon c) :=
  inferInstanceAs (Decidable (_ ∧ _))

/-- A text of such characters. -/
def IsCommonText (text : String) : Prop :=
  ∀ c ∈ text.toList, IsCommon c

instance (text : String) : Decidable (IsCommonText text) :=
  List.decidableBAll IsCommon text.toList

/-- A text of common characters that are no replacement characters. -/
def IsPlain (text : String) : Prop :=
  IsCommonText text ∧ '\uFFFD' ∉ text.toList

instance (text : String) : Decidable (IsPlain text) :=
  inferInstanceAs (Decidable (_ ∧ _))

/-- What a tolerant decoder of UTF-8 makes of a character. -/
def readBackChar (c : Char) : List Char :=
  if c.toNat = 0 then List.replicate 2 '\uFFFD'
  else if c.toNat < 0x10000 then [c]
  else List.replicate 6 '\uFFFD'

/-- What a tolerant decoder of UTF-8 makes of a text. -/
def readBack (text : String) : String :=
  String.ofList (text.toList.flatMap readBackChar)

example : encode "a\x00é漢𐀀" = [0x61, 0xC0, 0x80, 0xC3, 0xA9, 0xE6, 0xBC, 0xA2, 0xED, 0xA0, 0x80,
    0xED, 0xB0, 0x80] := by
  decide +kernel

/-! ### Characters -/

/-- Common characters have the bytes that they have in UTF-8. -/
theorem encodeChar_of_common {c : Char} (h : IsCommon c) :
    encodeChar c = String.utf8EncodeChar c := by
  rcases h with ⟨hpos, hlt⟩
  rw [encodeChar, units, if_pos hlt, List.flatMap_singleton, encodeUnit]
  unfold Char.toNat at hpos hlt ⊢
  simp only [String.utf8EncodeChar]
  by_cases hone : c.val.toNat < 0x80
  · rw [if_pos ⟨hpos, hone⟩, if_pos (by omega)]
  by_cases htwo : c.val.toNat < 0x800
  · rw [if_neg (by omega), if_pos htwo, if_neg (by omega), if_pos (by omega)]
  · rw [if_neg (by omega), if_neg htwo, if_neg (by omega), if_neg (by omega), if_pos (by omega)]

/-- The bytes of zero are two broken pieces. -/
theorem pieces_zero (rest : Bytes) :
    pieces (encodeUnit 0 ++ rest) = List.replicate 2 (.invalid 1) ++ pieces rest := by
  have hfirst : lead 0xC0 = .none := by decide
  have hsecond : lead 0x80 = .none := by decide
  change pieces (0xC0 :: 0x80 :: rest) = .invalid 1 :: .invalid 1 :: pieces rest
  rw [pieces_of_none hfirst, pieces_of_none hsecond]

/-- The bytes of a surrogate are three broken pieces. The first byte of the three asks for a second
    one that is too small to belong to a surrogate. -/
theorem pieces_surrogate {unit : Nat} (hlow : 0xD800 ≤ unit) (hhigh : unit < 0xE000)
    (rest : Bytes) :
    pieces (encodeUnit unit ++ rest) = List.replicate 3 (.invalid 1) ++ pieces rest := by
  have hsecond : (UInt8.ofNat (unit / 64 % 64 + 128)).toNat = unit / 64 % 64 + 128 :=
    toNat_ofNat (by omega)
  have hthird : (UInt8.ofNat (unit % 64 + 128)).toNat = unit % 64 + 128 := toNat_ofNat (by omega)
  -- The first byte announces three, but not with the second one that a surrogate has.
  have hlead : lead (UInt8.ofNat (unit / 4096 % 16 + 224)) = .triple 0x80 0x9F := by
    rw [lead_eq, toNat_ofNat (by omega), if_neg (by omega), if_neg (by omega), if_neg (by omega),
      if_neg (by omega), if_pos (by omega)]
  have hbroken : within 0x80 0x9F (UInt8.ofNat (unit / 64 % 64 + 128)) = false := by
    rw [← Bool.not_eq_true, within_eq_true_iff, hsecond]
    change ¬(128 ≤ unit / 64 % 64 + 128 ∧ unit / 64 % 64 + 128 ≤ 159)
    omega
  rw [encodeUnit, if_neg (by omega), if_neg (by omega)]
  simp only [List.cons_append, List.nil_append]
  rw [pieces_of_triple_broken hlead hbroken,
    pieces_of_none (lead_eq_none (by omega) (by omega)),
    pieces_of_none (lead_eq_none (by omega) (by omega))]
  rfl

/-- A character above U+FFFF has two surrogates. -/
theorem exists_surrogates {c : Char} (h : 0x10000 ≤ c.toNat) :
    ∃ high low, units c = [high, low] ∧ (0xD800 ≤ high ∧ high < 0xE000) ∧
      0xD800 ≤ low ∧ low < 0xE000 := by
  have hvalid : c.toNat < 0xD800 ∨ 0xDFFF < c.toNat ∧ c.toNat < 0x110000 := c.valid
  refine ⟨_, _, if_neg (by omega), ?_, ?_⟩ <;> omega

/-- The pieces that the bytes of a character are cut into, shown as characters. -/
theorem replaced_encodeChar (c : Char) (rest : Bytes) :
    (pieces (encodeChar c ++ rest)).map Piece.replaced =
      readBackChar c ++ (pieces rest).map Piece.replaced := by
  rw [readBackChar]
  by_cases hzero : c.toNat = 0
  · have hunits : units c = [0] := by
      rw [units, hzero, if_pos (by decide)]
    rw [if_pos hzero, encodeChar, hunits, List.flatMap_singleton, pieces_zero, List.map_append,
      List.map_replicate]
    rfl
  by_cases hone : c.toNat < 0x10000
  · rw [if_neg hzero, if_pos hone, encodeChar_of_common ⟨by omega, hone⟩, pieces_encodeChar]
    rfl
  · -- Two surrogates of three bytes, none of which can be decoded.
    have hlarge : 0x10000 ≤ c.toNat := by omega
    rcases exists_surrogates hlarge with ⟨high, low, hunits, hhigh, hlow⟩
    rw [if_neg hzero, if_neg hone, encodeChar, hunits, List.flatMap_cons, List.flatMap_singleton,
      List.append_assoc, pieces_surrogate hhigh.1 hhigh.2, pieces_surrogate hlow.1 hlow.2]
    rfl

/-! ### Texts -/

/-- What a tolerant decoder of UTF-8 makes of the bytes of a text. -/
theorem decodeLossy_encode_modified (text : String) :
    String.ofList (decodeLossy (encode text)) = readBack text := by
  rw [decodeLossy, encode, readBack]
  congr 1
  induction text.toList with
  | nil => rfl
  | cons c text ih => rw [List.flatMap_cons, List.flatMap_cons, replaced_encodeChar, ih]

theorem readBackChar_of_common {c : Char} (h : IsCommon c) : readBackChar c = [c] := by
  rw [readBackChar, if_neg (by have := h.1; omega), if_pos h.2]

/-- A character that is not common comes back as more than one. -/
theorem two_le_length_readBackChar {c : Char} (h : ¬IsCommon c) :
    2 ≤ (readBackChar c).length := by
  rw [readBackChar]
  by_cases hzero : c.toNat = 0
  · rw [if_pos hzero]
    exact Nat.le_refl 2
  · have hlarge : ¬c.toNat < 0x10000 := fun hlt => h ⟨by omega, hlt⟩
    rw [if_neg hzero, if_neg hlarge, List.length_replicate]
    omega

theorem length_le_length_flatMap_readBackChar (text : List Char) :
    text.length ≤ (text.flatMap readBackChar).length := by
  induction text with
  | nil => exact Nat.le_refl 0
  | cons c text ih =>
      rw [List.flatMap_cons, List.length_append, List.length_cons]
      by_cases hcommon : IsCommon c
      · rw [readBackChar_of_common hcommon, List.length_singleton]
        omega
      · have hlong := two_le_length_readBackChar hcommon
        omega

theorem flatMap_readBackChar_eq_self_iff (text : List Char) :
    text.flatMap readBackChar = text ↔ ∀ c ∈ text, IsCommon c := by
  induction text with
  | nil => exact iff_of_true rfl (by simp)
  | cons c text ih =>
      rw [List.flatMap_cons, List.forall_mem_cons]
      by_cases hcommon : IsCommon c
      · rw [readBackChar_of_common hcommon, List.singleton_append, List.cons.injEq, ih]
        simp only [hcommon, true_and]
      · -- The text would be longer than it is.
        refine iff_of_false (fun hself => ?_) (fun hall => hcommon hall.1)
        have hlength := congrArg List.length hself
        have hfirst := two_le_length_readBackChar hcommon
        have hothers := length_le_length_flatMap_readBackChar text
        rw [List.length_append, List.length_cons] at hlength
        omega

/-- The texts that come back as they were are the texts of common characters. -/
theorem readBack_eq_self_iff (text : String) : readBack text = text ↔ IsCommonText text := by
  rw [IsCommonText, ← flatMap_readBackChar_eq_self_iff, readBack]
  constructor
  · intro h
    have hlist := congrArg String.toList h
    rwa [String.toList_ofList] at hlist
  · intro h
    rw [h, String.ofList_toList]

/-- Whatever was encoded, what comes back consists of common characters. -/
theorem isCommonText_readBack (text : String) : IsCommonText (readBack text) := by
  have hreplacement : IsCommon '\uFFFD' := by decide
  rw [IsCommonText, readBack, String.toList_ofList]
  intro c hmem
  rcases List.mem_flatMap.mp hmem with ⟨held, -, hc⟩
  rw [readBackChar] at hc
  -- Whatever the character was, it comes back as itself or as replacement characters.
  by_cases hzero : held.toNat = 0
  · rw [if_pos hzero] at hc
    rwa [List.eq_of_mem_replicate hc]
  by_cases hone : held.toNat < 0x10000
  · rw [if_neg hzero, if_pos hone, List.mem_singleton] at hc
    rw [hc]
    exact ⟨by omega, hone⟩
  · rw [if_neg hzero, if_neg hone] at hc
    rwa [List.eq_of_mem_replicate hc]

/-- A character that is not common leaves replacement characters. -/
theorem replacement_mem_readBackChar {c : Char} (h : ¬IsCommon c) : '\uFFFD' ∈ readBackChar c := by
  rw [readBackChar]
  by_cases hzero : c.toNat = 0
  · rw [if_pos hzero]
    exact List.mem_replicate.mpr ⟨by decide, rfl⟩
  · have hlarge : ¬c.toNat < 0x10000 := fun hlt => h ⟨by omega, hlt⟩
    rw [if_neg hzero, if_neg hlarge]
    exact List.mem_replicate.mpr ⟨by decide, rfl⟩

/-- A plain text comes back from its own bytes and from no others. -/
theorem readBack_eq_iff {plain : String} (h : IsPlain plain) (text : String) :
    readBack text = plain ↔ text = plain := by
  constructor
  · intro hback
    -- A character that is not common would leave a replacement character, which the text has none
    -- of.
    have hcommon : IsCommonText text := by
      intro c hmem
      refine Decidable.byContradiction (fun hnot => ?_)
      have hreplacement : '\uFFFD' ∈ (readBack text).toList := by
        rw [readBack, String.toList_ofList]
        exact List.mem_flatMap.mpr ⟨c, hmem, replacement_mem_readBackChar hnot⟩
      rw [hback] at hreplacement
      exact h.2 hreplacement
    rwa [(readBack_eq_self_iff text).mpr hcommon] at hback
  · rintro rfl
    exact (readBack_eq_self_iff text).mpr h.1

end ModifiedUtf8

end AccessWidener
