import AccessWidener.Text.Lines

/-!
# Words and Lines Come Back

Cutting a text at its line breaks and a line at its blanks undoes putting them together, as long as
what is put together holds nothing to cut at. A word is a run of characters other than blanks that
is not empty, and the words of a line are of this kind (`isWord_of_mem_words`), so a line can be
written out again from its words with a single tab between them and still has the same words
(`words_intercalate`).

Terminated lines come back even though a line break may begin with a carriage return, which is
dropped: a line put together from words has no carriage return that could be taken for one.

## Main definitions

* `Text.IsWord`: What can be a word of a line.

## Theorems

* `isWord_of_mem_words`, `mem_of_mem_words`: The words of a line are words, and part of the line.
* `words_concat`: A blank at the end of a line makes no difference.
* `words_intercalate`: A line of words has these words.
* `lines_flatMap`: A text of terminated lines has these lines.
-/

namespace AccessWidener

namespace Text

/-- A run of characters that is not empty and has no blank in it. -/
def IsWord (word : List Char) : Prop :=
  word ≠ [] ∧ ∀ c ∈ word, isBlank c = false

theorem isWord_iff (word : List Char) :
    (word ≠ [] ∧ word.all (fun c => !isBlank c) = true) ↔ IsWord word := by
  simp only [IsWord, List.all_eq_true, Bool.not_eq_true']

instance (word : List Char) : Decidable (IsWord word) :=
  decidable_of_decidable_of_iff (isWord_iff word)

/-! ### Cutting lines into words -/

/-- The pieces of a split are made of characters that were not split at. -/
theorem mem_of_mem_splitOnP {p : Char → Bool} {text piece : List Char} {c : Char}
    (hpiece : piece ∈ text.splitOnP p) (hc : c ∈ piece) : p c = false ∧ c ∈ text := by
  induction text generalizing piece with
  | nil =>
      rw [List.splitOnP_nil, List.mem_singleton] at hpiece
      rw [hpiece] at hc
      cases hc
  | cons first text ih =>
      rw [List.splitOnP_cons_eq_if_modifyHead] at hpiece
      by_cases hfirst : p first = true
      · rw [if_pos hfirst] at hpiece
        rcases List.mem_cons.mp hpiece with rfl | hpiece
        · cases hc
        · exact ⟨(ih hpiece hc).1, List.mem_cons_of_mem _ (ih hpiece hc).2⟩
      · -- The first character goes to the front of the first piece.
        rw [if_neg hfirst] at hpiece
        rcases List.exists_cons_of_ne_nil (List.splitOnP_ne_nil p text) with ⟨head, tail, hsplit⟩
        rw [hsplit, List.modifyHead_cons] at hpiece
        rw [hsplit] at ih
        rcases List.mem_cons.mp hpiece with rfl | hpiece
        · rcases List.mem_cons.mp hc with rfl | hc
          · exact ⟨Bool.eq_false_iff.mpr hfirst, List.mem_cons_self⟩
          · exact ⟨(ih List.mem_cons_self hc).1,
              List.mem_cons_of_mem _ (ih List.mem_cons_self hc).2⟩
        · have hlater := ih (List.mem_cons_of_mem _ hpiece) hc
          exact ⟨hlater.1, List.mem_cons_of_mem _ hlater.2⟩

theorem isWord_of_mem_words {line word : List Char} (h : word ∈ words line) : IsWord word := by
  rcases List.mem_filter.mp h with ⟨hpiece, hne⟩
  refine ⟨?_, fun c hc => (mem_of_mem_splitOnP hpiece hc).1⟩
  rintro rfl
  cases hne

theorem mem_of_mem_words {line word : List Char} (h : word ∈ words line) {c : Char}
    (hc : c ∈ word) : c ∈ line :=
  (mem_of_mem_splitOnP (List.mem_filter.mp h).1 hc).2

/-! ### Putting lines together -/

theorem words_singleton {word : List Char} (h : IsWord word) : words word = [word] := by
  rw [words, List.splitOnP_eq_singleton h.2, List.filter_cons_of_pos, List.filter_nil]
  rw [Bool.not_eq_true', List.isEmpty_eq_false_iff]
  exact h.1

/-- A word and a blank in front of a line add this word to its words. -/
theorem words_append_cons {word : List Char} (h : IsWord word) {c : Char} (hc : isBlank c = true)
    (line : List Char) : words (word ++ c :: line) = word :: words line := by
  rw [words, List.splitOnP_append_cons_of_forall_mem h.2 c hc, List.filter_cons_of_pos, words]
  rw [Bool.not_eq_true', List.isEmpty_eq_false_iff]
  exact h.1

/-- A blank at the end of a line belongs to no word. -/
theorem words_concat (line : List Char) {c : Char} (hc : isBlank c = true) :
    words (line ++ [c]) = words line := by
  rw [words, List.splitOnP_append_cons line [] hc, List.filter_append, List.splitOnP_nil]
  exact List.append_nil _

/-- A line of words with a blank between them has these words. -/
theorem words_intercalate {c : Char} (hc : isBlank c = true) {given : List (List Char)}
    (h : ∀ word ∈ given, IsWord word) : words ([c].intercalate given) = given := by
  induction given with
  | nil => rfl
  | cons word rest ih =>
      rw [List.forall_mem_cons] at h
      cases rest with
      | nil => rw [List.intercalate_singleton, words_singleton h.1]
      | cons next rest =>
          rw [List.intercalate_cons_cons, List.append_assoc, List.singleton_append,
            words_append_cons h.1 hc, ih h.2]

theorem mem_intercalate {c x : Char} {given : List (List Char)}
    (h : x ∈ [c].intercalate given) : x = c ∨ ∃ word ∈ given, x ∈ word := by
  induction given with
  | nil => cases h
  | cons word rest ih =>
      cases rest with
      | nil =>
          rw [List.intercalate_singleton] at h
          exact Or.inr ⟨word, List.mem_cons_self, h⟩
      | cons next rest =>
          -- The separator stands between the first word and the rest.
          rw [List.intercalate_cons_cons, List.append_assoc, List.mem_append] at h
          rcases h with h | h
          · exact Or.inr ⟨word, List.mem_cons_self, h⟩
          · rcases List.mem_cons.mp h with rfl | h
            · exact Or.inl rfl
            · rcases ih h with rfl | ⟨held, hmem, hx⟩
              · exact Or.inl rfl
              · exact Or.inr ⟨held, List.mem_cons_of_mem _ hmem, hx⟩

/-! ### Terminated lines -/

theorem dropCarriageReturn_eq_self {line : List Char} (h : '\r' ∉ line) :
    dropCarriageReturn line = line := by
  rw [dropCarriageReturn, if_neg]
  intro hlast
  exact h (List.mem_of_getLast? hlast)

/-- The segments of terminated lines are the lines and an empty segment behind the last one. -/
theorem splitOn_flatMap {given : List (List Char)} (h : ∀ line ∈ given, '\n' ∉ line) :
    (given.flatMap (· ++ ['\n'])).splitOn '\n' = given ++ [[]] := by
  induction given with
  | nil => rfl
  | cons line rest ih =>
      rw [List.forall_mem_cons] at h
      -- The first line holds no line feed, so the first split is at its end.
      have hline : ∀ c ∈ line, (c == '\n') = false := by
        intro c hc
        rw [beq_eq_false_iff_ne]
        rintro rfl
        exact h.1 hc
      rw [List.flatMap_cons, List.append_assoc, List.singleton_append, List.splitOn,
        List.splitOnP_append_cons_of_forall_mem hline '\n' (beq_self_eq_true _), ← List.splitOn,
        ih h.2, List.cons_append]

/-- A text of terminated lines has these lines. -/
theorem lines_flatMap {given : List (List Char)}
    (h : ∀ line ∈ given, '\n' ∉ line ∧ '\r' ∉ line) :
    lines (given.flatMap (· ++ ['\n'])) = given := by
  have hdrop : given.map dropCarriageReturn = given := by
    rw [List.map_congr_left (fun line hline => dropCarriageReturn_eq_self (h line hline).2),
      List.map_id']
  simp only [lines, splitOn_flatMap (fun line hline => (h line hline).1), List.dropLast_concat,
    List.getLast?_concat, hdrop]

end Text

end AccessWidener
