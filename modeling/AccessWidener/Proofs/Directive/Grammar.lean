import AccessWidener.Proofs.Directive.Spelling
import AccessWidener.Proofs.Text.Numerals
import AccessWidener.Proofs.Text.WellFormed

/-!
# The Grammar of Directive Files

What a directive file has to look like, said without reading one: which lines count, what the words
of a header are, and what those of a directive are. The reader accepts a line exactly if it is of
this form, and then it reads off it what the form says.

Lines are cut at line feeds. Whether the reader takes a carriage return in front of a line feed for
part of the line or not makes no difference to the words, nor does it whether a text that ends with
a line feed has an empty line behind it (`numberedWords_eq`).

## Main definitions

* `numberedWords`: The words of the lines that count, with the numbers of the lines.
* `IsVersionWord`, `HeaderWords`: What the words of a header are.
* `DirectiveWords`: What the words of a directive are.
* `TargetKind.barred`: The level that does not apply to a kind of target.

## Theorems

* `numberedWords_eq`: The reader looks at the lines that count.
* `headerWords_iff`: A line is read as a header if it is one.
* `directiveWords_iff`: A line is read as a directive if it is one.
-/

namespace AccessWidener

/-! ### Lines -/

/-- The words of each line of a text, as far as it has any in front of a comment, and the number of
    the line. -/
def numberedWords (text : List Char) : List (List String × Nat) :=
  (((text.splitOn '\n').map uncommentedWords).zipIdx 1).filter (!·.1.isEmpty)

/-- The words and the number of a significant line. -/
def SignificantLine.numbered (line : SignificantLine) : List String × Nat :=
  (line.first :: line.rest, line.number)

/-- A carriage return is a blank, or part of a comment. -/
theorem uncommentedWords_dropCarriageReturn (line : List Char) :
    uncommentedWords (Text.dropCarriageReturn line) = uncommentedWords line := by
  unfold Text.dropCarriageReturn
  split
  next hlast =>
    rcases List.getLast?_eq_some_iff.mp hlast with ⟨front, rfl⟩
    rw [List.dropLast_concat, uncommentedWords, uncommentedWords, List.takeWhile_append]
    split
    next hplain =>
      have hreturn : ['\r'].takeWhile (· ≠ '#') = ['\r'] := by decide
      -- Without a comment in front of it, the carriage return ends the text of the line.
      have hall : front.takeWhile (· ≠ '#') = front :=
        (List.takeWhile_prefix _).eq_of_length hplain
      rw [hreturn, hall, Text.words_concat front (by decide)]
    next => rfl
  next => rfl

/-- The significant ones of some lines are those that have words. -/
theorem map_numbered_significantLinesFrom (number : Nat) (lines : List (List Char)) :
    (significantLinesFrom number lines).map SignificantLine.numbered =
      ((lines.map uncommentedWords).zipIdx number).filter (!·.1.isEmpty) := by
  induction lines generalizing number with
  | nil => rfl
  | cons line rest ih =>
      rw [significantLinesFrom, List.map_append, ih, List.map_cons, List.zipIdx_cons,
        SignificantLine.ofLine?]
      cases uncommentedWords line with
      | nil => rfl
      | cons first words => rfl

/-- The reader looks at the lines that count, and at no others. -/
theorem numberedWords_eq (text : List Char) :
    numberedWords text = (significantLines text).map SignificantLine.numbered := by
  rw [significantLines, map_numbered_significantLinesFrom, numberedWords, Text.lines]
  rcases List.eq_nil_or_concat (text.splitOn '\n') with hnil | ⟨front, last, hsegments⟩
  · exact absurd hnil (List.splitOn_ne_nil '\n' text)
  · have hfront : (front.map Text.dropCarriageReturn).map uncommentedWords =
        front.map uncommentedWords := by
      rw [List.map_map]
      exact List.map_congr_left (fun line _ => uncommentedWords_dropCarriageReturn line)
    simp only [hsegments, List.concat_eq_append, List.dropLast_concat, List.getLast?_concat]
    cases last with
    | nil =>
        -- An empty line behind the last line feed has no words.
        rw [hfront, List.map_append, List.zipIdx_append, List.filter_append]
        exact List.append_nil _
    | cons c line => rw [List.map_append, List.map_append, hfront]

/-! ### Headers -/

/-- A version word: the letter, a numeral of one or two, and nothing else. The numeral may have a
    plus sign and zeros in front. -/
def IsVersionWord (version : Nat) (word : String) : Prop :=
  ∃ sign zeros digit, (sign = [] ∨ sign = ['+']) ∧
    word.toList = 'v' :: (sign ++ (List.replicate zeros '0' ++ [digit])) ∧
    (version = 1 ∧ digit = '1' ∨ version = 2 ∧ digit = '2')

/-- The words of a header: the first word of every file, a version word and a namespace. -/
def HeaderWords (words : List String) (header : Header) : Prop :=
  ∃ word, words = ["accessWidener", word, header.ns.token] ∧ IsVersionWord header.version word

/-- The version words of a version with one digit. -/
theorem versionOfWord?_eq_digit_iff {digit : Char} (hdigit : digit.isDigit = true)
    (hne : digit ≠ '0') (word : String) :
    versionOfWord? word = some (digit.toNat - '0'.toNat) ↔
      ∃ sign zeros, (sign = [] ∨ sign = ['+']) ∧
        word.toList = 'v' :: (sign ++ (List.replicate zeros '0' ++ [digit])) := by
  have hnumeral : ∀ numeral, Text.readNatural? UInt32.size numeral =
      some (digit.toNat - '0'.toNat) ↔ ∃ sign zeros, (sign = [] ∨ sign = ['+']) ∧
        numeral = sign ++ (List.replicate zeros '0' ++ [digit]) :=
    fun _ => Text.readNatural?_eq_some_iff (by decide) hdigit hne
  unfold versionOfWord?
  split
  next numeral hword => simp only [hnumeral, hword, List.cons.injEq, true_and]
  next hother =>
    -- A word that does not begin with the letter has no version and cannot be spelled with one.
    refine iff_of_false (Option.some_ne_none _).symm ?_
    rintro ⟨sign, zeros, -, hword⟩
    exact hother _ hword

/-- A word is read as a supported version if it is a version word. -/
theorem isVersionWord_iff (version : Nat) (word : String) :
    IsVersionWord version word ↔
      versionOfWord? word = some version ∧ supportedVersion version = true := by
  have hone := versionOfWord?_eq_digit_iff (by decide : '1'.isDigit = true) (by decide) word
  have htwo := versionOfWord?_eq_digit_iff (by decide : '2'.isDigit = true) (by decide) word
  constructor
  · rintro ⟨sign, zeros, digit, hsign, hword, ⟨rfl, rfl⟩ | ⟨rfl, rfl⟩⟩
    · exact ⟨hone.mpr ⟨sign, zeros, hsign, hword⟩, rfl⟩
    · exact ⟨htwo.mpr ⟨sign, zeros, hsign, hword⟩, rfl⟩
  · rintro ⟨hversion, hsupported⟩
    -- Only two versions are supported, and both have one digit.
    rw [supportedVersion, Bool.or_eq_true, decide_eq_true_eq, decide_eq_true_eq] at hsupported
    rcases hsupported with rfl | rfl
    · rcases hone.mp hversion with ⟨sign, zeros, hsign, hword⟩
      exact ⟨sign, zeros, '1', hsign, hword, Or.inl ⟨rfl, rfl⟩⟩
    · rcases htwo.mp hversion with ⟨sign, zeros, hsign, hword⟩
      exact ⟨sign, zeros, '2', hsign, hword, Or.inr ⟨rfl, rfl⟩⟩

/-- A line is read as a header if its words are those of one. -/
theorem headerWords_iff (line : SignificantLine) (header : Header) :
    HeaderWords (line.first :: line.rest) header ↔ parseHeader line = .ok header := by
  rw [parseHeader_eq_ok_iff, parseVersion_eq_ok_iff]
  constructor
  · rintro ⟨word, hwords, hversion⟩
    rcases List.cons_eq_cons.mp hwords with ⟨hfirst, hrest⟩
    rw [isVersionWord_iff] at hversion
    exact ⟨⟨word, _, hfirst, hrest, hversion⟩, word, _, hrest, ofToken?_namespace header.ns⟩
  · rintro ⟨⟨word, more, hfirst, hmore, hversion⟩, _, token, hrest, hns⟩
    -- Both halves of the reading speak of one list of words.
    rw [hrest] at hmore
    cases hmore
    rw [Namespace.ofToken?_eq_some_iff] at hns
    refine ⟨word, ?_, (isVersionWord_iff _ _).mpr hversion⟩
    rw [hfirst, hrest, hns]
    rfl

/-! ### Directives -/

/-- The word for a level, which begins with a mark if the directive is transitive. -/
def levelWord (access : Access) (transitive : Bool) : String :=
  if transitive then "transitive-" ++ access.token else access.token

/-- The words of a directive: a level, a kind and what names a target of that kind. Only version 2
    knows the mark, fields cannot be extendable, and nothing but fields can be mutable. -/
inductive DirectiveWords (version : Nat) : List String → Directive → Prop where
  | type {access : Access} {transitive : Bool} (owner : String)
      (hmark : transitive = true → version = 2) (hlevel : access ≠ .mutable) :
      DirectiveWords version [levelWord access transitive, "class", owner]
        ⟨.type owner, access, transitive⟩
  | method {access : Access} {transitive : Bool} (owner name descriptor : String)
      (hmark : transitive = true → version = 2) (hlevel : access ≠ .mutable) :
      DirectiveWords version [levelWord access transitive, "method", owner, name, descriptor]
        ⟨.member .method ⟨owner, ⟨name, descriptor⟩⟩, access, transitive⟩
  | field {access : Access} {transitive : Bool} (owner name descriptor : String)
      (hmark : transitive = true → version = 2) (hlevel : access ≠ .extendable) :
      DirectiveWords version [levelWord access transitive, "field", owner, name, descriptor]
        ⟨.member .field ⟨owner, ⟨name, descriptor⟩⟩, access, transitive⟩

theorem levelWord_eq (d : Directive) : levelWord d.access d.transitive = Writer.accessWord d := by
  rw [levelWord, Writer.accessWord]
  cases d.transitive with
  | false => exact String.empty_append.symm
  | true => rfl

/-- The one level that does not apply to a kind of target. -/
def TargetKind.barred : TargetKind → Access
  | type => .mutable
  | member .method => .mutable
  | member .field => .extendable

theorem appliesTo_iff (access : Access) (kind : TargetKind) :
    access.appliesTo kind = true ↔ access ≠ kind.barred := by
  rcases kind with _ | _ | _ <;> cases access <;> decide

/-- The words of a directive are the ones that a writer would spell it with. -/
theorem directiveWords_iff_spelled (version : Nat) (words : List String) (d : Directive) :
    DirectiveWords version words d ↔ words = Writer.accessWord d :: d.target.words ∧
      d.access.appliesTo d.target.kind = true ∧ (d.transitive = true → version = 2) := by
  rw [← levelWord_eq]
  constructor
  · intro h
    -- One case for each kind, each of them with the level that fits it.
    cases h with
    | type owner hmark hlevel => exact ⟨rfl, (appliesTo_iff _ _).mpr hlevel, hmark⟩
    | method owner name descriptor hmark hlevel =>
        exact ⟨rfl, (appliesTo_iff _ _).mpr hlevel, hmark⟩
    | field owner name descriptor hmark hlevel =>
        exact ⟨rfl, (appliesTo_iff _ _).mpr hlevel, hmark⟩
  · rintro ⟨rfl, happlies, hmark⟩
    have hlevel := (appliesTo_iff _ _).mp happlies
    rcases d with ⟨_ | ⟨_ | _, ref⟩, access, transitive⟩
    · exact .type _ hmark hlevel
    · exact .method _ _ _ hmark hlevel
    · exact .field _ _ _ hmark hlevel

/-- A line is read as a directive if its words are those of one. -/
theorem directiveWords_iff {version : Nat} (hversion : version = 1 ∨ version = 2)
    (line : SignificantLine) (d : Directive) :
    DirectiveWords version (line.first :: line.rest) d ↔ parseDirective version line = .ok d := by
  rw [directiveWords_iff_spelled, parseDirective_eq_ok_iff]
  constructor
  · rintro ⟨hwords, happlies, hmark⟩
    rcases List.cons_eq_cons.mp hwords with ⟨hfirst, hrest⟩
    rw [hfirst, hrest]
    exact parseWords_words happlies (fun htransitive => (hmark htransitive).ge)
  · intro h
    -- The reader asks for version 2 or later, which is version 2 where no later one is supported.
    rcases words_of_parseWords h with ⟨hfirst, hrest, hmark⟩
    refine ⟨by rw [hfirst, hrest], appliesTo_of_parseWords h, fun htransitive => ?_⟩
    have hnew := hmark htransitive
    omega

end AccessWidener
