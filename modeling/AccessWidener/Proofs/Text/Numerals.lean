import Mathlib.Data.List.Induction
import AccessWidener.Text.Lines

/-!
# Numerals of One Digit

A number below ten has many numerals, but they all look alike: the digit of the number with any
amount of zeros in front, and perhaps a plus sign before these.

## Main definitions

* `Text.digitsValue`: The number that a string of digits stands for.

## Theorems

* `eq_replicate_of_digitsValue`: The digits that stand for zero.
* `digits?_eq_some_digit_iff`: The numerals of a digit other than zero.
* `readNatural?_eq_some_iff`: The same, with or without a sign.
-/

namespace AccessWidener

namespace Text

/-- The number that a string of digits stands for. -/
def digitsValue (text : List Char) : Nat :=
  text.foldl (fun n c => n * 10 + (c.toNat - '0'.toNat)) 0

theorem digitsValue_concat (text : List Char) (c : Char) :
    digitsValue (text ++ [c]) = digitsValue text * 10 + (c.toNat - '0'.toNat) := by
  rw [digitsValue, List.foldl_append]
  rfl

theorem range_of_isDigit {c : Char} (h : c.isDigit = true) : 48 ≤ c.toNat ∧ c.toNat ≤ 57 := by
  simp only [Char.isDigit, Bool.and_eq_true, decide_eq_true_eq, ge_iff_le,
    UInt32.le_iff_toNat_le] at h
  exact h

/-- A digit is known by its value. -/
theorem eq_of_isDigit {c d : Char} (hc : c.isDigit = true) (hd : d.isDigit = true)
    (h : c.toNat - '0'.toNat = d.toNat - '0'.toNat) : c = d := by
  have hc := range_of_isDigit hc
  have hd := range_of_isDigit hd
  have hzero : '0'.toNat = 48 := rfl
  rw [← Char.ofNat_toNat c, ← Char.ofNat_toNat d]
  congr 1
  omega

theorem digitsValue_replicate (n : Nat) : digitsValue (List.replicate n '0') = 0 := by
  induction n with
  | zero => rfl
  | succ n ih => rw [List.replicate_succ', digitsValue_concat, ih]; rfl

/-- A string of digits that stands for zero holds nothing but zeros. -/
theorem eq_replicate_of_digitsValue {text : List Char} (h : ∀ c ∈ text, c.isDigit = true)
    (hvalue : digitsValue text = 0) : ∃ n, text = List.replicate n '0' := by
  induction text using List.reverseRecOn with
  | nil => exact ⟨0, rfl⟩
  | append_singleton text c ih =>
      rw [List.forall_mem_append, List.forall_mem_singleton] at h
      -- A sum is zero if both parts are: the digits in front, and the last one.
      rw [digitsValue_concat] at hvalue
      rcases ih h.1 (by omega) with ⟨n, rfl⟩
      have hlast : c = '0' := eq_of_isDigit h.2 (by decide) (by omega)
      exact ⟨n + 1, by rw [hlast, List.replicate_succ']⟩

/-- A string of digits that stands for the value of a digit other than zero is that digit, with
    zeros in front. -/
theorem exists_of_digitsValue {text : List Char} (h : ∀ c ∈ text, c.isDigit = true) {d : Char}
    (hd : d.isDigit = true) (hne : d ≠ '0') (hvalue : digitsValue text = d.toNat - '0'.toNat) :
    ∃ n, text = List.replicate n '0' ++ [d] := by
  have hrange := range_of_isDigit hd
  have hzero : '0'.toNat = 48 := rfl
  have hpositive : d.toNat ≠ 48 := fun heq => hne (eq_of_isDigit hd (by decide) (by omega))
  induction text using List.reverseRecOn with
  | nil =>
      have hnone : digitsValue [] = 0 := rfl
      omega
  | append_singleton text c _ =>
      rw [List.forall_mem_append, List.forall_mem_singleton] at h
      -- Digits in front that stand for more than zero make at least ten.
      rw [digitsValue_concat] at hvalue
      rcases eq_replicate_of_digitsValue h.1 (by omega) with ⟨n, rfl⟩
      rw [digitsValue_replicate] at hvalue
      exact ⟨n, by rw [eq_of_isDigit h.2 hd (by omega)]⟩

theorem digits?_eq_some_iff {text : List Char} {n : Nat} :
    digits? text = some n ↔
      text ≠ [] ∧ (∀ c ∈ text, c.isDigit = true) ∧ digitsValue text = n := by
  unfold digits?
  split
  next h =>
    rw [Bool.or_eq_true, List.isEmpty_iff, Bool.not_eq_true', List.all_eq_false] at h
    refine iff_of_false (Option.some_ne_none n).symm ?_
    rintro ⟨hne, hdigits, -⟩
    -- The test fails for one of the two reasons that the statement excludes.
    rcases h with hempty | ⟨c, hc, hnot⟩
    · exact hne hempty
    · exact hnot (hdigits c hc)
  next h =>
    rw [Bool.not_eq_true, Bool.or_eq_false_iff, List.isEmpty_eq_false_iff, Bool.not_eq_false',
      List.all_eq_true] at h
    rw [Option.some_inj]
    exact ⟨fun hvalue => ⟨h.1, h.2, hvalue⟩, fun hvalue => hvalue.2.2⟩

/-- The numerals of a digit other than zero, without a sign. -/
theorem digits?_eq_some_digit_iff {text : List Char} {d : Char} (hd : d.isDigit = true)
    (hne : d ≠ '0') :
    digits? text = some (d.toNat - '0'.toNat) ↔ ∃ n, text = List.replicate n '0' ++ [d] := by
  rw [digits?_eq_some_iff]
  constructor
  · rintro ⟨-, hdigits, hvalue⟩
    exact exists_of_digitsValue hdigits hd hne hvalue
  · rintro ⟨n, rfl⟩
    refine ⟨List.concat_ne_nil d _, ?_, ?_⟩
    · rw [List.forall_mem_append, List.forall_mem_singleton]
      refine ⟨fun c hc => ?_, hd⟩
      rw [List.eq_of_mem_replicate hc]
      rfl
    · -- Leading zeros add nothing to the value of the digit.
      rw [digitsValue_concat, digitsValue_replicate]
      omega

/-- A sign is plus or left out, which is not what a string of digits begins with. -/
theorem readNatural?_eq_some_iff {limit : Nat} (hlimit : 9 < limit) {text : List Char} {d : Char}
    (hd : d.isDigit = true) (hne : d ≠ '0') :
    readNatural? limit text = some (d.toNat - '0'.toNat) ↔
      ∃ sign n, (sign = [] ∨ sign = ['+']) ∧ text = sign ++ (List.replicate n '0' ++ [d]) := by
  have hrange := range_of_isDigit hd
  have hzero : '0'.toNat = 48 := rfl
  have hbelow : d.toNat - '0'.toNat < limit := by omega
  -- The limit lies above every digit, so it refuses none of these texts.
  have hfilter : ∀ found : Option Nat, found.filter (· < limit) = some (d.toNat - '0'.toNat) ↔
      found = some (d.toNat - '0'.toNat) := by
    intro found
    rw [Option.filter_eq_some_iff, decide_eq_true_eq]
    exact and_iff_left hbelow
  unfold readNatural?
  simp only [hfilter]
  split
  -- The text begins with a plus.
  next rest =>
    rw [digits?_eq_some_digit_iff hd hne]
    constructor
    · rintro ⟨n, rfl⟩
      exact ⟨['+'], n, Or.inr rfl, rfl⟩
    · rintro ⟨sign, n, rfl | rfl, htext⟩
      · -- No sign was written, so the plus would be a digit.
        have hplus : '+' ∈ List.replicate n '0' ++ [d] := by
          rw [List.nil_append] at htext
          rw [← htext]
          exact List.mem_cons_self
        rcases List.mem_append.mp hplus with hmem | hmem
        · cases List.eq_of_mem_replicate hmem
        · rw [← List.mem_singleton.mp hmem] at hd
          cases hd
      · exact ⟨n, (List.cons_inj_right '+').mp htext⟩
  -- It does not, so no sign can have been written.
  next hplain =>
    rw [digits?_eq_some_digit_iff hd hne]
    constructor
    · rintro ⟨n, rfl⟩
      exact ⟨[], n, Or.inl rfl, rfl⟩
    · rintro ⟨sign, n, rfl | rfl, htext⟩
      · exact ⟨n, htext⟩
      · exact absurd htext (hplain _)

end Text

end AccessWidener
