import Mathlib.Data.List.Basic
import Mathlib.Data.List.TakeWhile
import AccessWidener.Directive.Writer
import AccessWidener.Proofs.Directive.Headers
import AccessWidener.Proofs.Directive.Reading
import AccessWidener.Proofs.Text.Lines
import AccessWidener.Proofs.Text.Utf8

/-!
# Spelling Directives

A directive is spelled by the words of one line: the level, its kind, and the names of its target. A
line holds these words if the names have no blank in them and no number sign, which would begin a
comment. Keywords among the names do no harm, because every word is read by its place.

Reading and spelling undo each other in the direction that a writer needs. The line of a directive
is read as this directive, if the level applies to the kind of its target and the format version
knows the mark it may carry (`parseWords_words`). The names of a directive that was read are words
of a line again, so it can be spelled in its turn (`exists_directives_of_readEvents`).

## Main definitions

* `Spellable`, `Target.Spellable`: What a line can hold.
* `Directive.Writable`: A directive that reads back from its line.
* `spelledLine`, `spelledText`: Words on a line, and lines of a text.

## Theorems

* `parseWords_words`, `words_of_parseWords`: The words of a directive spell it, and nothing else
  does.
* `uncommentedWords_spelledLine`: A line of words has these words.
* `readBody_spelled`: Lines that spell directives are read as these directives.
* `readEvents_spelled`: A text that spells a header and directives is read as them.
* `writable_of_mem_events`, `exists_directives_of_readEvents`: Directives that were read are
  writable.
-/

namespace AccessWidener

/-- A name that a line can hold as one of its words. -/
def Spellable (name : String) : Prop :=
  Text.IsWord name.toList ∧ '#' ∉ name.toList

instance (name : String) : Decidable (Spellable name) :=
  inferInstanceAs (Decidable (_ ∧ _))

/-- A target with names that a line can hold. -/
def Target.Spellable : Target → Prop
  | type owner => AccessWidener.Spellable owner
  | member _ ref => AccessWidener.Spellable ref.owner ∧ AccessWidener.Spellable ref.signature.name ∧
      AccessWidener.Spellable ref.signature.descriptor

/-- A directive that makes sense for its target and has names that a line can hold. -/
structure Directive.Writable (d : Directive) : Prop where
  applies : d.access.appliesTo d.target.kind = true
  spellable : d.target.Spellable

/-! ### Words -/

theorem Access.ofToken?_eq_some_iff (word : String) (access : Access) :
    ofToken? word = some access ↔ word = access.token := by
  constructor
  · intro h
    rw [ofToken?] at h
    have hfound := List.find?_some h
    exact (of_decide_eq_true hfound).symm
  · rintro rfl
    cases access <;> decide

theorem TargetKind.ofToken?_eq_some_iff (word : String) (kind : TargetKind) :
    ofToken? word = some kind ↔ word = kind.token := by
  constructor
  · intro h
    rw [ofToken?] at h
    have hfound := List.find?_some h
    exact (of_decide_eq_true hfound).symm
  · rintro rfl
    cases kind with
    | type => decide
    | member kind => cases kind <;> decide

theorem Namespace.ofToken?_eq_some_iff (word : String) (ns : Namespace) :
    ofToken? word = some ns ↔ word = ns.token := by
  constructor
  · intro h
    rw [ofToken?] at h
    have hfound := List.find?_some h
    exact (of_decide_eq_true hfound).symm
  · rintro rfl
    cases ns <;> decide

theorem ofToken?_access (access : Access) : Access.ofToken? access.token = some access :=
  (Access.ofToken?_eq_some_iff _ _).mpr rfl

theorem ofToken?_kind (kind : TargetKind) : TargetKind.ofToken? kind.token = some kind :=
  (TargetKind.ofToken?_eq_some_iff _ _).mpr rfl

theorem ofToken?_namespace (ns : Namespace) : Namespace.ofToken? ns.token = some ns :=
  (Namespace.ofToken?_eq_some_iff _ _).mpr rfl

/-- The mark is taken off the first word again. It is not part of any level's own word. -/
theorem splitTransitive_accessWord {version : Nat} {d : Directive}
    (h : d.transitive = true → 2 ≤ version) :
    splitTransitive version (Writer.accessWord d) = .ok (d.access.token, d.transitive) := by
  cases htransitive : d.transitive with
  | false =>
      have hword : Writer.accessWord d = d.access.token := by
        rw [Writer.accessWord, htransitive]
        cases d.access <;> decide
      -- No level begins like the mark, so nothing is taken off its word.
      have hstrip : Text.stripStart? transitivePrefix d.access.token = none := by
        cases d.access <;> decide
      rw [splitTransitive, hword, hstrip]
  | true =>
      -- The mark is taken off, and what is left is the word of the level.
      have hstrip : Text.stripStart? transitivePrefix (Writer.accessWord d) =
          some d.access.token := by
        rw [Writer.accessWord, htransitive]
        cases d.access <;> decide
      have hnew : ¬version < 2 := Nat.not_lt.mpr (h htransitive)
      simp only [splitTransitive, hstrip, if_neg hnew]

/-- The words of a target are its kind and the operands that name it. -/
theorem words_target (target : Target) :
    ∃ operands, target.words = target.kind.token :: operands ∧
      parseTarget target.kind operands = .ok target := by
  cases target with
  | type owner => exact ⟨_, rfl, rfl⟩
  | member kind ref => exact ⟨_, rfl, rfl⟩

/-- The words of a directive spell it. -/
theorem parseWords_words {version : Nat} {d : Directive}
    (happlies : d.access.appliesTo d.target.kind = true) (h : d.transitive = true → 2 ≤ version) :
    parseWords version (Writer.accessWord d) d.target.words = .ok d := by
  rcases words_target d.target with ⟨operands, hwords, htarget⟩
  simp only [parseWords, splitTransitive_accessWord h, bind, Except.bind, ofToken?_access, hwords,
    ofToken?_kind, happlies, if_true, htarget]
  rfl

/-- The mark of a first word, and what stands behind it. -/
theorem word_of_splitTransitive {version : Nat} {first word : String} {transitive : Bool}
    (h : splitTransitive version first = .ok (word, transitive)) :
    first = (if transitive then transitivePrefix else "") ++ word ∧
      (transitive = true → 2 ≤ version) := by
  unfold splitTransitive at h
  split at h
  next =>
    cases h
    exact ⟨String.empty_append.symm, fun hmark => absurd hmark Bool.false_ne_true⟩
  next access hstrip =>
    by_cases hold : version < 2
    · rw [if_pos hold] at h
      cases h
    · rw [if_neg hold] at h
      cases h
      -- What was taken off is the mark, so putting it back gives the word.
      rcases Option.map_eq_some_iff.mp hstrip with ⟨letters, hletters, rfl⟩
      have hsplit := List.isPrefixOf?_eq_some_iff_append_eq.mp hletters
      refine ⟨?_, fun _ => Nat.not_lt.mp hold⟩
      rw [if_pos rfl, ← String.toList_inj, String.toList_append, String.toList_ofList, hsplit]

/-- A target that was read is named by its kind and its operands. -/
theorem words_of_parseTarget {kind : TargetKind} {operands : List String} {target : Target}
    (h : parseTarget kind operands = .ok target) : target.words = kind.token :: operands := by
  unfold parseTarget at h
  split at h
  next => cases h; rfl
  next => cases h; rfl
  next => cases h

/-- What is behind a directive that was read: the words that spell it, and a version that knows the
    mark it carries. -/
theorem words_of_parseWords {version : Nat} {first : String} {rest : List String} {d : Directive}
    (h : parseWords version first rest = .ok d) :
    first = Writer.accessWord d ∧ rest = d.target.words ∧ (d.transitive = true → 2 ≤ version) := by
  rcases parseWords_eq_ok h with
    ⟨accessWord, kindWord, operands, hsplit, haccess, rfl, hkind, -, htarget⟩
  rcases word_of_splitTransitive hsplit with ⟨hfirst, hversion⟩
  refine ⟨?_, ?_, hversion⟩
  · rw [hfirst, (Access.ofToken?_eq_some_iff _ _).mp haccess, Writer.accessWord]
  · rw [words_of_parseTarget htarget, (TargetKind.ofToken?_eq_some_iff _ _).mp hkind]

/-- A target is spellable if its words are. -/
theorem spellable_of_words {target : Target} (h : ∀ word ∈ target.words, Spellable word) :
    target.Spellable := by
  cases target with
  | type owner => exact h _ (List.mem_cons_of_mem _ List.mem_cons_self)
  | member kind ref =>
      simp only [Target.words, List.forall_mem_cons] at h
      exact ⟨h.2.1, h.2.2.1, h.2.2.2.1⟩

/-- Every word of a spellable target can stand on a line, its kind among them. -/
theorem spellable_of_mem_words {target : Target} (h : target.Spellable) {word : String}
    (hword : word ∈ target.words) : Spellable word := by
  cases target with
  | type owner =>
      simp only [Target.words, List.mem_cons, List.not_mem_nil, or_false] at hword
      rcases hword with rfl | rfl
      · decide
      · exact h
  | member kind ref =>
      simp only [Target.words, List.mem_cons, List.not_mem_nil, or_false] at hword
      rcases hword with rfl | rfl | rfl | rfl
      · cases kind <;> decide
      · exact h.1
      · exact h.2.1
      · exact h.2.2

theorem spellable_accessWord (d : Directive) : Spellable (Writer.accessWord d) := by
  rw [Writer.accessWord]
  cases d.transitive <;> cases d.access <;> decide

/-! ### Lines -/

/-- Words on a line, a tab between them. -/
def spelledLine (words : List String) : List Char :=
  ['\t'].intercalate (words.map String.toList)

/-- A text of lines that hold the given words. -/
def spelledText (rows : List (List String)) : List Char :=
  rows.flatMap fun words => spelledLine words ++ ['\n']

theorem toList_lineOfWords (words : List String) :
    (Writer.lineOfWords words).toList = spelledLine words ++ ['\n'] := by
  rw [Writer.lineOfWords, String.toList_append, String.toList_intercalate, spelledLine]
  rfl

/-- No character of a line of words is one that lines or comments are cut at. -/
theorem not_mem_spelledLine {words : List String} (h : ∀ word ∈ words, Spellable word) {c : Char}
    (hc : c = '\n' ∨ c = '\r' ∨ c = '#') : c ∉ spelledLine words := by
  intro hmem
  rcases Text.mem_intercalate hmem with htab | ⟨letters, hletters, hmem⟩
  · -- The tabs between the words are none of them.
    rw [htab] at hc
    revert hc
    decide
  · rcases List.mem_map.mp hletters with ⟨word, hword, rfl⟩
    have hblank := (h word hword).1.2 c hmem
    have hcomment := (h word hword).2
    rcases hc with rfl | rfl | rfl
    · cases hblank
    · cases hblank
    · exact hcomment hmem

/-- A line of words has these words, and no comment. -/
theorem uncommentedWords_spelledLine {words : List String} (h : ∀ word ∈ words, Spellable word) :
    uncommentedWords (spelledLine words) = words := by
  -- No word holds a comment sign, so the whole line is looked at.
  have hcomment : (spelledLine words).takeWhile (· ≠ '#') = spelledLine words := by
    rw [List.takeWhile_eq_self_iff]
    intro c hc
    rw [decide_eq_true_eq]
    rintro rfl
    exact not_mem_spelledLine h (Or.inr (Or.inr rfl)) hc
  have hletters : ∀ letters ∈ words.map String.toList, Text.IsWord letters := by
    intro letters hletters
    rcases List.mem_map.mp hletters with ⟨word, hword, rfl⟩
    exact (h word hword).1
  have hmap : (words.map String.toList).map String.ofList = words := by
    rw [List.map_map]
    exact (List.map_congr_left fun word _ => String.ofList_toList).trans (List.map_id words)
  rw [uncommentedWords, hcomment, spelledLine, Text.words_intercalate (by decide) hletters, hmap]

theorem lines_spelledText {rows : List (List String)}
    (h : ∀ words ∈ rows, ∀ word ∈ words, Spellable word) :
    Text.lines (spelledText rows) = rows.map spelledLine := by
  have hlines : ∀ line ∈ rows.map spelledLine, '\n' ∉ line ∧ '\r' ∉ line := by
    intro line hline
    rcases List.mem_map.mp hline with ⟨words, hwords, rfl⟩
    exact ⟨not_mem_spelledLine (h words hwords) (Or.inl rfl),
      not_mem_spelledLine (h words hwords) (Or.inr (Or.inl rfl))⟩
  rw [← Text.lines_flatMap hlines, List.flatMap_map]
  rfl

theorem significantLinesFrom_cons {words : List String} {first : String} {rest : List String}
    (hwords : words = first :: rest) (h : ∀ word ∈ words, Spellable word) (number : Nat)
    (lines : List (List Char)) :
    significantLinesFrom number (spelledLine words :: lines) =
      { number, first, rest } :: significantLinesFrom (number + 1) lines := by
  have hline : SignificantLine.ofLine? number (spelledLine words) =
      some { number, first, rest } := by
    rw [SignificantLine.ofLine?, uncommentedWords_spelledLine h, hwords]
  rw [significantLinesFrom, hline]
  rfl

/-- Every word that was read can stand on a line. -/
theorem spellable_of_mem_uncommentedWords {line : List Char} {word : String}
    (h : word ∈ uncommentedWords line) : Spellable word := by
  rcases List.mem_map.mp h with ⟨letters, hletters, rfl⟩
  rw [Spellable, String.toList_ofList]
  refine ⟨Text.isWord_of_mem_words hletters, fun hc => ?_⟩
  -- The line was cut at its first number sign before it was cut into words.
  have hkept := List.mem_takeWhile_imp (Text.mem_of_mem_words hletters hc)
  rw [decide_eq_true_eq] at hkept
  exact hkept rfl

/-! ### Files -/

/-- Lines that spell directives are read as these directives, wherever they stand in a file. -/
theorem readBody_spelled {version : Nat} {directives : List Directive}
    (h : ∀ d ∈ directives, d.Writable ∧ (d.transitive = true → 2 ≤ version)) (number : Nat) :
    readBody version (significantLinesFrom number
        (directives.map fun d => spelledLine (Writer.accessWord d :: d.target.words))) =
      { events := directives.map .directive } := by
  induction directives generalizing number with
  | nil => rfl
  | cons d rest ih =>
      rw [List.forall_mem_cons] at h
      -- All words of the line can be spelled: those of the level always, those of the target
      -- because it is writable.
      have hwords : ∀ word ∈ Writer.accessWord d :: d.target.words, Spellable word := by
        rw [List.forall_mem_cons]
        exact ⟨spellable_accessWord d, fun word hword =>
          spellable_of_mem_words h.1.1.spellable hword⟩
      have hparse := parseWords_words h.1.1.applies h.1.2
      rw [List.map_cons, significantLinesFrom_cons rfl hwords]
      simp only [readBody, parseDirective, hparse, ih h.2, EventStream.cons, List.map_cons]

/-- The line of a header. -/
def headerWords (version : Nat) (ns : Namespace) : List String :=
  [headerMagic, s!"v{version}", ns.token]

theorem spellable_headerWords {version : Nat} (hversion : version = 1 ∨ version = 2)
    (ns : Namespace) : ∀ word ∈ headerWords version ns, Spellable word := by
  rcases hversion with rfl | rfl <;> cases ns <;>
    simp only [headerWords, List.forall_mem_cons, List.not_mem_nil, IsEmpty.forall_iff,
      forall_const, and_true] <;>
    exact ⟨by decide, by decide, by decide⟩

theorem parseHeader_headerWords {version : Nat} (hversion : version = 1 ∨ version = 2)
    (ns : Namespace) (number : Nat) :
    parseHeader { number, first := headerMagic, rest := [s!"v{version}", ns.token] } =
      .ok { version, ns } := by
  have hword : versionOfWord? s!"v{version}" = some version := by
    rcases hversion with rfl | rfl <;> decide
  have hsupported : supportedVersion version = true := by
    rcases hversion with rfl | rfl <;> rfl
  simp only [parseHeader, parseVersion, hword, hsupported, ofToken?_namespace, if_true]
  rfl

/-- The words of the lines of a file. -/
def fileWords (version : Nat) (ns : Namespace) (directives : List Directive) :
    List (List String) :=
  headerWords version ns :: directives.map fun d => Writer.accessWord d :: d.target.words

/-- A text that spells a header and directives is read as them. -/
theorem readEvents_spelled {version : Nat} (hversion : version = 1 ∨ version = 2) {ns : Namespace}
    {directives : List Directive}
    (h : ∀ d ∈ directives, d.Writable ∧ (d.transitive = true → 2 ≤ version))
    {expected : Option Namespace} (hexpected : checkExpected expected ns = .ok ()) {text : String}
    (htext : text.toList = spelledText (fileWords version ns directives)) :
    readHeader (Utf8.encodeString text) = .ok { version, ns } ∧
      readEvents (Utf8.encodeString text) expected =
        { events := .header ns :: directives.map .directive } := by
  -- Every row can be spelled, the header too.
  have hrows : ∀ words ∈ fileWords version ns directives, ∀ word ∈ words, Spellable word := by
    rw [fileWords, List.forall_mem_cons]
    refine ⟨spellable_headerWords hversion ns, fun words hwords => ?_⟩
    rcases List.mem_map.mp hwords with ⟨d, hd, rfl⟩
    rw [List.forall_mem_cons]
    exact ⟨spellable_accessWord d, fun word hword =>
      spellable_of_mem_words (h d hd).1.spellable hword⟩
  have hdecode : decodeText (Utf8.encodeString text) =
      .ok (spelledText (fileWords version ns directives)) := by
    rw [decodeText, Utf8.encodeString, Utf8.decode_encode, htext]
  -- The first significant line is the header, and the others are the directives.
  have hlines : significantLines (spelledText (fileWords version ns directives)) =
      { number := 1, first := headerMagic, rest := [s!"v{version}", ns.token] } ::
        significantLinesFrom 2
          (directives.map fun d => spelledLine (Writer.accessWord d :: d.target.words)) := by
    have hwords : headerWords version ns = headerMagic :: [s!"v{version}", ns.token] := rfl
    rw [significantLines, lines_spelledText hrows, fileWords, List.map_cons, List.map_map,
      significantLinesFrom_cons hwords (spellable_headerWords hversion ns)]
    rfl
  have hheader := parseHeader_headerWords hversion ns 1
  constructor
  · simp only [readHeader, headerLine, hdecode, hlines, hheader, bind, Except.bind]
  · rw [readEvents_of_header hdecode hlines hheader hexpected, readBody_spelled h,
      EventStream.cons]

/-! ### Directives that were read -/

/-- The words of a significant line are spellable. -/
theorem spellable_of_mem_significantLinesFrom {number : Nat} {lines : List (List Char)}
    {line : SignificantLine} (hline : line ∈ significantLinesFrom number lines) {word : String}
    (hword : word ∈ line.first :: line.rest) : Spellable word := by
  induction lines generalizing number with
  | nil => cases hline
  | cons letters rest ih =>
      rw [significantLinesFrom, List.mem_append] at hline
      rcases hline with hline | hline
      · rw [Option.mem_toList, SignificantLine.ofLine?] at hline
        split at hline
        next => cases hline
        next first rest hwords =>
          cases hline
          -- The words of a line come from cutting it at blanks and at its comment.
          apply spellable_of_mem_uncommentedWords
          rw [hwords]
          exact hword
      · exact ih hline

/-- A stream without a fault comes from a text with a header that the reader is content with, and
    from the lines below it. -/
theorem exists_header_of_readEvents {content : Bytes} {expected : Option Namespace}
    (h : (readEvents content expected).fault = none) :
    ∃ text first body header, decodeText content = .ok text ∧
      significantLines text = first :: body ∧ parseHeader first = .ok header ∧
      checkExpected expected header.ns = .ok () ∧
      readEvents content expected =
        (readBody header.version body).cons (.header header.ns) := by
  -- Each thing that could fail before the body would be the fault of the stream.
  cases hdecode : decodeText content with
  | error fault =>
      rw [readEvents_of_badText hdecode] at h
      cases h
  | ok text =>
      cases hlines : significantLines text with
      | nil =>
          rw [readEvents_of_noLines hdecode hlines] at h
          cases h
      | cons first body =>
          cases hheader : parseHeader first with
          | error fault =>
              rw [readEvents_of_badHeader hdecode hlines hheader] at h
              cases h
          | ok header =>
              cases hexpected : checkExpected expected header.ns with
              | error fault =>
                  rw [readEvents_of_unexpected hdecode hlines hheader hexpected] at h
                  cases h
              | ok _ =>
                  exact ⟨text, first, body, header, rfl, hlines, hheader, hexpected,
                    readEvents_of_header hdecode hlines hheader hexpected⟩

/-- A directive that was read from a line is writable, and its mark known. -/
theorem writable_of_parseDirective {version : Nat} {line : SignificantLine} {d : Directive}
    (h : parseDirective version line = .ok d)
    (hwords : ∀ word ∈ line.first :: line.rest, Spellable word) :
    d.Writable ∧ (d.transitive = true → 2 ≤ version) := by
  rw [parseDirective_eq_ok_iff] at h
  rcases words_of_parseWords h with ⟨-, hrest, hversion⟩
  have hspellable : d.target.Spellable := by
    refine spellable_of_words (fun word hword => hwords word ?_)
    rw [hrest]
    exact List.mem_cons_of_mem _ hword
  exact ⟨⟨appliesTo_of_parseWords h, hspellable⟩, hversion⟩

/-- What was read of a file is writable, also of one with a fault. -/
theorem writable_of_mem_events {content : Bytes} {expected : Option Namespace} {d : Directive}
    (h : .directive d ∈ (readEvents content expected).events) : d.Writable := by
  rcases exists_line_of_mem_events h with ⟨_, _, line, hline, hparse⟩
  exact (writable_of_parseDirective hparse fun word hword =>
    spellable_of_mem_significantLinesFrom hline hword).1

/-- Lines that were read without a fault are directives, each of them writable. -/
theorem exists_directives_of_readBody {version : Nat} {lines : List SignificantLine}
    (h : (readBody version lines).fault = none)
    (hwords : ∀ line ∈ lines, ∀ word ∈ line.first :: line.rest, Spellable word) :
    ∃ directives : List Directive,
      (∀ d ∈ directives, d.Writable ∧ (d.transitive = true → 2 ≤ version)) ∧
        readBody version lines = { events := directives.map .directive } := by
  rcases parsed_of_readBody h with ⟨directives, hparsed, hbody⟩
  refine ⟨directives, fun d hd => ?_, hbody⟩
  rcases hparsed.exists_line hd with ⟨line, hline, hparse⟩
  exact writable_of_parseDirective hparse (hwords line hline)

/-- A file that was read without a fault holds a header and writable directives. -/
theorem exists_directives_of_readEvents {content : Bytes} {expected : Option Namespace}
    {version : Nat} (h : (readEvents content expected).fault = none)
    (hversion : readVersion content = .ok version) :
    ∃ (ns : Namespace) (directives : List Directive),
      readHeader content = .ok { version, ns } ∧ checkExpected expected ns = .ok () ∧
      (∀ d ∈ directives, d.Writable ∧ (d.transitive = true → 2 ≤ version)) ∧
      readEvents content expected = { events := .header ns :: directives.map .directive } := by
  rcases exists_header_of_readEvents h with
    ⟨text, first, body, header, hdecode, hlines, hheader, hexpected, hevents⟩
  have hline : headerLine content = .ok first := by
    simp only [headerLine, hdecode, bind, Except.bind, hlines]
  -- Both ways of reading the version look at the same line.
  have hsame : header.version = version := by
    have hfound := ((parseHeader_eq_ok_iff _ _).mp hheader).1
    simp only [readVersion, hline, bind, Except.bind, hfound] at hversion
    cases hversion
    rfl
  have hfault : (readBody header.version body).fault = none := by
    rw [hevents] at h
    exact h
  -- The words were read from a text, and whatever is read from one can be spelled in one.
  have hwords : ∀ line ∈ body, ∀ word ∈ line.first :: line.rest, Spellable word := by
    intro line hmem word hword
    have hsignificant : line ∈ significantLines text := by
      rw [hlines]
      exact List.mem_cons_of_mem _ hmem
    exact spellable_of_mem_significantLinesFrom hsignificant hword
  rcases exists_directives_of_readBody hfault hwords with ⟨directives, hwritable, hbody⟩
  refine ⟨header.ns, directives, ?_, hexpected, hsame ▸ hwritable, ?_⟩
  · simp only [readHeader, hline, bind, Except.bind, hheader, ← hsame]
  · rw [hevents, hbody, EventStream.cons]

end AccessWidener
