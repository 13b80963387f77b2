import AccessWidener.Mapping.Tiny

/-!
# Which Mapping Files Are Accepted

Rows are read from top to bottom, and what is carried along is the class that the next members
belong to. Said without reading, this class is the nearest class row above a line, so whether a line
is acceptable, which row it holds and what is wrong with it otherwise are matters of the line and of
the lines above it.

Indentation decides what a line is held to. Without any it has to be blank or a class row, with one
tab it has to be a proper member row if it announces a member, and it is a comment or a property if
it announces something else. Nothing is asked of lines that lie deeper.

A file is accepted if its header is one, its columns include both namespaces and every line is
acceptable below the lines above it. If it is refused, the fault is the first in this order, and a
line that is at fault is the first line that is not acceptable.

## Main definitions

* `TinyRow.Acceptable`, `TinyRow.row?`: What is asked of a line, and the row that it holds.
* `TinyRow.Explains`: What is wrong with a line.
* `TinyRow.Judged`: A result that is the row or the defect of a line.
* `TinyFile.Accepted`, `TinyFile.Refused`: Which texts are accepted, and why others are refused.

## Theorems

* `judged_ofLine?`: A line is acceptable and gives its row, or its defect explains why it is not.
* `ofLines_exact`: So for a list of lines, with the first defect.
* `parse_exact`: So for a file, with the columns looked up before.
-/

namespace AccessWidener

namespace TinyRow

/-! ### Lines -/

/-- The number of tabs that a line begins with. -/
def depth (line : List Char) : Nat :=
  (line.takeWhile (· = '\t')).length

/-- The cells of a line behind its indentation. -/
def contents (line : List Char) : List String :=
  cells (line.drop (depth line))

/-- There is one cell per column, and the first one is not empty. -/
def IsNames (columns : Nat) (cells : List String) : Prop :=
  cells.length = columns ∧ cells.headD "" ≠ ""

instance (columns : Nat) (cells : List String) : Decidable (IsNames columns cells) :=
  inferInstanceAs (Decidable (cells.length = columns ∧ cells.headD "" ≠ ""))

/-- Empty cells stand for the first one. -/
def filled (cells : List String) : List String :=
  cells.map fun cell => if cell = "" then cells.headD "" else cell

/-- The first name in a line, if the line is a class row. -/
def typeName? (line : List Char) : Option String :=
  match depth line, contents line with
  | 0, word :: names => if word = "c" then some (names.headD "") else none
  | _, _ => none

/-- The class that members below some lines belong to: that of the last class row among them. -/
def enclosing? (above : List (List Char)) : Option String :=
  (above.filterMap typeName?).getLast?

/-- The row that an acceptable line holds. -/
def row? (above : List (List Char)) (line : List Char) : Option TinyRow :=
  match depth line, contents line with
  | 0, word :: names => if word = "c" then some (.type (filled names)) else none
  | 1, word :: descriptor :: names => do
    let kind ← memberKind? word
    let owner ← enclosing? above
    return .member kind owner descriptor (filled names)
  | _, _ => none

/-- What is asked of a line below the lines above it. -/
structure Acceptable (columns : Nat) (above : List (List Char)) (line : List Char) : Prop where
  plain : depth line = 0 → line ≠ [] →
    ∃ names, contents line = "c" :: names ∧ IsNames columns names
  indented : depth line = 1 → ∀ word rest, contents line = word :: rest →
    word = "m" ∨ word = "f" → enclosing? above ≠ none ∧
      ∃ descriptor names, rest = descriptor :: names ∧ IsNames columns names

/-- What is wrong with a line below the lines above it. -/
inductive Explains (columns : Nat) (above : List (List Char)) (line : List Char) :
    MappingDefect → Prop where
  | unknown {word : String} {rest : List String} (hdepth : depth line = 0) (hline : line ≠ [])
    (hcells : contents line = word :: rest) (hword : word ≠ "c") :
    Explains columns above line (.unknownSection word)
  | typeNames {names : List String} (hdepth : depth line = 0)
    (hcells : contents line = "c" :: names) (hnames : ¬ IsNames columns names) :
    Explains columns above line (.nameCount columns names.length)
  | outside {word : String} {rest : List String} (hdepth : depth line = 1)
    (hcells : contents line = word :: rest) (hword : word = "m" ∨ word = "f")
    (habove : enclosing? above = none) : Explains columns above line .memberOutsideClass
  | noDescriptor {word : String} (hdepth : depth line = 1) (hcells : contents line = [word])
    (hword : word = "m" ∨ word = "f") (habove : enclosing? above ≠ none) :
    Explains columns above line .missingDescriptor
  | memberNames {word descriptor : String} {names : List String} (hdepth : depth line = 1)
    (hcells : contents line = word :: descriptor :: names) (hword : word = "m" ∨ word = "f")
    (habove : enclosing? above ≠ none) (hnames : ¬ IsNames columns names) :
    Explains columns above line (.nameCount columns names.length)

variable {columns number : Nat} {above : List (List Char)} {line : List Char}

theorem contents_nil : contents [] = [""] := rfl

theorem contents_ne_nil (line : List Char) : contents line ≠ [] := by
  rw [contents, cells, ne_eq, List.map_eq_nil_iff]
  exact List.splitOn_ne_nil _ _

theorem ne_nil_of_contents {word : String} {rest : List String}
    (hcells : contents line = word :: rest) (hword : word ≠ "") : line ≠ [] := by
  rintro rfl
  rw [contents_nil, List.cons.injEq] at hcells
  exact hword hcells.1.symm

/-- Without indentation only a blank line begins with an empty cell. -/
theorem eq_nil_of_contents {rest : List String} (hdepth : depth line = 0)
    (hcells : contents line = "" :: rest) : line = [] := by
  cases line with
  | nil => rfl
  | cons c line =>
      have hc : (c == '\t') = false := by
        rw [beq_eq_false_iff_ne]
        rintro rfl
        rw [depth, List.takeWhile_cons_of_pos (by rfl), List.length_cons] at hdepth
        exact absurd hdepth (Nat.succ_ne_zero _)
      -- The first character is at the front of the first cell.
      rcases List.exists_cons_of_ne_nil (List.splitOnP_ne_nil (· == '\t') line) with
        ⟨head, tail, hsplit⟩
      rw [contents, hdepth, List.drop_zero, cells, List.splitOn,
        List.splitOnP_cons_eq_if_modifyHead, hc, hsplit, if_neg Bool.false_ne_true,
        List.modifyHead_cons, List.map_cons, List.cons.injEq] at hcells
      have hempty := congrArg String.toList hcells.1
      rw [String.toList_ofList] at hempty
      cases hempty

/-- A line with something wrong is not acceptable. -/
theorem Explains.not_acceptable {cause : MappingDefect} (h : Explains columns above line cause) :
    ¬ Acceptable columns above line := by
  intro hline
  -- Each defect contradicts the one requirement that it is about.
  cases h with
  | unknown hdepth hne hcells hword =>
      rcases hline.plain hdepth hne with ⟨names, hnames, -⟩
      rw [hcells, List.cons.injEq] at hnames
      exact hword hnames.1
  | typeNames hdepth hcells hnames =>
      have hne : line ≠ [] := ne_nil_of_contents hcells (by decide)
      rcases hline.plain hdepth hne with ⟨names', hnames', hwidth⟩
      rw [hcells, List.cons.injEq] at hnames'
      rw [← hnames'.2] at hwidth
      exact hnames hwidth
  | outside hdepth hcells hword habove =>
      exact (hline.indented hdepth _ _ hcells hword).1 habove
  | noDescriptor hdepth hcells hword habove =>
      rcases (hline.indented hdepth _ _ hcells hword).2 with ⟨descriptor, names, hrest, -⟩
      cases hrest
  | memberNames hdepth hcells hword habove hnames =>
      rcases (hline.indented hdepth _ _ hcells hword).2 with ⟨descriptor, names, hrest, hwidth⟩
      cases hrest
      exact hnames hwidth

theorem memberKind?_isSome_iff {word : String} :
    (memberKind? word).isSome = true ↔ word = "m" ∨ word = "f" := by
  unfold memberKind?
  split
  · simp_all
  · split <;> simp_all

/-- Names are read if there is one per column, with empty ones filled in. -/
theorem names_eq (columns number : Nat) (cells : List String) : names columns number cells =
    if IsNames columns cells then .ok (filled cells)
    else .error (.defect number (.nameCount columns cells.length)) := by
  cases cells with
  | nil => rw [names, if_neg (fun h => h.2 rfl), List.length_nil]
  | cons first rest =>
      rw [names]
      by_cases hnames : IsNames columns (first :: rest)
      · -- A list with a first cell that is not empty and of the right length passes both tests.
        have hwidth := hnames.1
        have hfirst : first ≠ "" := hnames.2
        rw [if_pos hnames, if_neg (by simp [hwidth, hfirst])]
        rfl
      · rw [if_neg hnames, if_pos]
        rw [IsNames, Decidable.not_and_iff_not_or_not, Decidable.not_not] at hnames
        simpa using hnames

variable {word : String} {rest : List String} {owner? : Option String}

/-! ### Lines by their indentation -/

theorem ofLine?_of_depth_zero (hdepth : depth line = 0) (hcells : contents line = word :: rest) :
    ofLine? columns number owner? line =
      if word = "c" then
        if IsNames columns rest then .ok (some (.type (filled rest)))
        else .error (.defect number (.nameCount columns rest.length))
      else if word = "" then .ok none
      else .error (.defect number (.unknownSection word)) := by
  unfold ofLine?
  rw [contents, depth] at hcells
  rw [depth] at hdepth
  simp only
  rw [hcells, hdepth]
  simp only [names_eq]
  by_cases hnames : IsNames columns rest
  · rw [if_pos hnames, if_pos hnames]
    rfl
  · rw [if_neg hnames, if_neg hnames]
    rfl

theorem ofLine?_of_depth_one (hdepth : depth line = 1) (hcells : contents line = word :: rest) :
    ofLine? columns number owner? line =
      match memberKind? word with
      | some kind => some <$> ofMemberCells columns number owner? kind rest
      | none => .ok none := by
  unfold ofLine?
  rw [contents, depth] at hcells
  rw [depth] at hdepth
  simp only
  rw [hcells, hdepth]
  rfl

theorem ofLine?_of_two_le_depth (hdepth : 2 ≤ depth line) :
    ofLine? columns number owner? line = .ok none := by
  unfold ofLine?
  rw [depth] at hdepth
  simp only
  split
  · omega
  · omega
  · rfl

/-- A line is acceptable and gives its row, or it gives a defect that explains why it is not. -/
def Judged (columns number : Nat) (above : List (List Char)) (line : List Char)
    (result : Except MappingFault (Option TinyRow)) : Prop :=
  (Acceptable columns above line ∧ result = .ok (row? above line)) ∨
    ∃ cause, Explains columns above line cause ∧ result = .error (.defect number cause)

theorem judged_of_depth_zero (hdepth : depth line = 0) (hcells : contents line = word :: rest) :
    Judged columns number above line (ofLine? columns number owner? line) := by
  rw [ofLine?_of_depth_zero hdepth hcells]
  -- A line at the margin opens a class, is blank, or names a section that is not known.
  by_cases hword : word = "c"
  · rw [hword] at hcells
    rw [if_pos hword]
    by_cases hnames : IsNames columns rest
    · refine Or.inl ⟨⟨fun _ _ => ⟨rest, hcells, hnames⟩, fun hone => ?_⟩, ?_⟩
      · -- The rule for indented lines asks nothing here.
        omega
      · rw [if_pos hnames, row?, hdepth, hcells]
        rfl
    · rw [if_neg hnames]
      exact Or.inr ⟨_, .typeNames hdepth hcells hnames, rfl⟩
  · rw [if_neg hword]
    by_cases hempty : word = ""
    · rw [hempty] at hcells
      refine Or.inl ⟨⟨fun _ hne => ?_, fun hone => ?_⟩, ?_⟩
      · exact absurd (eq_nil_of_contents hdepth hcells) hne
      · omega
      · rw [if_pos hempty, row?, hdepth, hcells]
        rfl
    · rw [if_neg hempty]
      exact Or.inr ⟨_, .unknown hdepth (ne_nil_of_contents hcells hempty) hcells hword, rfl⟩

theorem judged_of_member {kind : MemberKind} (hdepth : depth line = 1)
    (hcells : contents line = word :: rest) (hkind : memberKind? word = some kind) :
    Judged columns number above line
      (some <$> ofMemberCells columns number (enclosing? above) kind rest) := by
  have hword : word = "m" ∨ word = "f" := memberKind?_isSome_iff.mp (Option.isSome_of_eq_some hkind)
  unfold ofMemberCells
  -- The order of the tests is that of the defects: no class above, no descriptor, bad names.
  cases habove : enclosing? above with
  | none => exact Or.inr ⟨_, .outside hdepth hcells hword habove, rfl⟩
  | some owner =>
      have hne : enclosing? above ≠ none := by
        rw [habove]
        exact Option.some_ne_none owner
      cases rest with
      | nil => exact Or.inr ⟨_, .noDescriptor hdepth hcells hword hne, rfl⟩
      | cons descriptor cells =>
          simp only [names_eq]
          by_cases hnames : IsNames columns cells
          · refine Or.inl ⟨⟨fun hzero => ?_, fun _ word' rest' hcells' _ => ⟨hne, ?_⟩⟩, ?_⟩
            · omega
            · rw [hcells, List.cons.injEq] at hcells'
              exact ⟨descriptor, cells, hcells'.2.symm, hnames⟩
            · rw [if_pos hnames, row?, hdepth, hcells]
              simp only [hkind, habove]
              rfl
          · rw [if_neg hnames]
            exact Or.inr ⟨_, .memberNames hdepth hcells hword hne hnames, rfl⟩

theorem judged_of_depth_one (hdepth : depth line = 1) (hcells : contents line = word :: rest) :
    Judged columns number above line (ofLine? columns number (enclosing? above) line) := by
  rw [ofLine?_of_depth_one hdepth hcells]
  cases hkind : memberKind? word with
  | some kind => exact judged_of_member hdepth hcells hkind
  | none =>
      -- A comment or a property, whatever it holds.
      refine Or.inl ⟨⟨fun hzero => ?_, fun _ word' rest' hcells' hword => ?_⟩, ?_⟩
      · omega
      · rw [hcells, List.cons.injEq] at hcells'
        rw [← hcells'.1, ← memberKind?_isSome_iff, hkind] at hword
        cases hword
      · rw [row?, hdepth, hcells]
        cases rest with
        | nil => rfl
        | cons descriptor cells =>
            simp only [hkind]
            rfl

theorem judged_of_two_le_depth (hdepth : 2 ≤ depth line) :
    Judged columns number above line (ofLine? columns number owner? line) := by
  refine Or.inl ⟨⟨fun hzero => ?_, fun hone => ?_⟩, ?_⟩
  · omega
  · omega
  · rw [ofLine?_of_two_le_depth hdepth, row?]
    split
    · omega
    · omega
    · rfl

/-- Reading a line gives its row or its defect. -/
theorem judged_ofLine? (columns number : Nat) (above : List (List Char)) (line : List Char) :
    Judged columns number above line (ofLine? columns number (enclosing? above) line) := by
  rcases List.exists_cons_of_ne_nil (contents_ne_nil line) with ⟨word, rest, hcells⟩
  rcases Nat.lt_trichotomy (depth line) 1 with hlt | hone | hgt
  · exact judged_of_depth_zero (by omega) hcells
  · exact judged_of_depth_one hone hcells
  · exact judged_of_two_le_depth hgt

/-! ### Lines one below the other -/

/-- Every line is acceptable below the lines above it. -/
def AllAcceptable (columns : Nat) (above lines : List (List Char)) : Prop :=
  ∀ before line after, lines = before ++ line :: after →
    Acceptable columns (above ++ before) line

/-- The first line that is not acceptable has a position and a defect. -/
def FirstDefect (columns : Nat) (above lines : List (List Char)) (position : Nat)
    (cause : MappingDefect) : Prop :=
  ∃ before line after, lines = before ++ line :: after ∧ before.length = position ∧
    AllAcceptable columns above before ∧ Explains columns (above ++ before) line cause

/-- The rows of lines, each below the lines above it. -/
def rowsBelow (above : List (List Char)) : List (List Char) → List TinyRow
  | [] => []
  | line :: lines => (row? above line).toList ++ rowsBelow (above ++ [line]) lines

theorem allAcceptable_nil : AllAcceptable columns above [] := by
  intro before line after h
  cases before <;> cases h

theorem allAcceptable_cons {lines : List (List Char)} :
    AllAcceptable columns above (line :: lines) ↔
      Acceptable columns above line ∧ AllAcceptable columns (above ++ [line]) lines := by
  constructor
  · intro h
    refine ⟨by simpa using h [] line lines rfl, fun before line' after hlines => ?_⟩
    rw [List.append_assoc, List.singleton_append]
    exact h (line :: before) line' after (by rw [hlines, List.cons_append])
  · rintro ⟨hline, hlines⟩ before line' after heq
    -- What stands above a later line begins with the first line.
    cases before with
    | nil =>
        rw [List.nil_append, List.cons.injEq] at heq
        rw [List.append_nil, ← heq.1]
        exact hline
    | cons first before =>
        rw [List.cons_append, List.cons.injEq] at heq
        rw [← List.singleton_append, ← List.append_assoc, ← heq.1]
        exact hlines before line' after heq.2

theorem enclosing?_concat (above : List (List Char)) (line : List Char) :
    enclosing? (above ++ [line]) = (typeName? line).or (enclosing? above) := by
  have hline : enclosing? [line] = typeName? line := by
    rw [enclosing?, List.filterMap_cons, List.filterMap_nil]
    cases typeName? line <;> rfl
  rw [enclosing?, List.filterMap_append, List.getLast?_append, ← enclosing?, ← enclosing?, hline]

theorem typeName?_of_depth_ne_zero (h : depth line ≠ 0) : typeName? line = none := by
  unfold typeName?
  split
  · next hzero _ => exact absurd hzero h
  · rfl

theorem nextOwner_of_depth_ne_zero (h : depth line ≠ 0) :
    nextOwner owner? (row? above line) = owner? := by
  unfold row?
  split
  · next hzero _ => exact absurd hzero h
  · next word _ _ _ _ => cases memberKind? word <;> cases enclosing? above <;> rfl
  · rfl

/-- The class that reading carries on is the nearest one above the lines that follow. -/
theorem nextOwner_eq (h : Acceptable columns above line) :
    nextOwner (enclosing? above) (row? above line) = enclosing? (above ++ [line]) := by
  rw [enclosing?_concat]
  by_cases hdepth : depth line = 0
  · rcases List.exists_cons_of_ne_nil (contents_ne_nil line) with ⟨word, rest, hcells⟩
    by_cases hword : word = "c"
    · have hne : line ≠ [] := ne_nil_of_contents hcells (hword ▸ by decide)
      rcases h.plain hdepth hne with ⟨names, hnames, -, hfirst⟩
      rw [row?, typeName?, hdepth, hnames]
      -- The first name is not empty, so there is one.
      cases names with
      | nil => exact absurd rfl hfirst
      | cons first names =>
          have hkept : first ≠ "" := hfirst
          simp only [if_true, filled, List.map_cons, if_neg hkept]
          rfl
    · rw [row?, typeName?, hdepth, hcells]
      simp only [if_neg hword]
      rfl
  · rw [nextOwner_of_depth_ne_zero hdepth, typeName?_of_depth_ne_zero hdepth, Option.none_or]

/-- Reading lines gives their rows, or the first defect at the number of its line. -/
theorem ofLines_exact (columns number : Nat) (above lines : List (List Char)) :
    (AllAcceptable columns above lines ∧
        ofLines columns number (enclosing? above) lines = .ok (rowsBelow above lines)) ∨
      ∃ position cause, FirstDefect columns above lines position cause ∧
        ofLines columns number (enclosing? above) lines =
          .error (.defect (number + position) cause) := by
  -- A line that was read joins the lines above, which then determine the class as before.
  induction lines generalizing number above with
  | nil => exact Or.inl ⟨allAcceptable_nil, rfl⟩
  | cons line lines ih =>
      rw [ofLines]
      rcases judged_ofLine? columns number above line with ⟨hline, hrow⟩ | ⟨cause, hcause, hrow⟩
      · rw [hrow]
        have hrest := ih (number + 1) (above ++ [line])
        rw [← nextOwner_eq hline] at hrest
        rcases hrest with ⟨hlines, hrows⟩ | ⟨position, cause, hdefect, hrows⟩
        · refine Or.inl ⟨allAcceptable_cons.mpr ⟨hline, hlines⟩, ?_⟩
          simp only [bind, Except.bind, hrows]
          rfl
        · -- The defect is further down, so its position moves by one.
          rcases hdefect with ⟨before, line', after, hlines, hposition, hbefore, hexplains⟩
          rw [List.append_assoc, List.singleton_append] at hexplains
          refine Or.inr ⟨position + 1, cause, ⟨line :: before, line', after, ?_, ?_, ?_,
            hexplains⟩, ?_⟩
          · rw [hlines, List.cons_append]
          · rw [List.length_cons, hposition]
          · exact allAcceptable_cons.mpr ⟨hline, hbefore⟩
          · simp only [bind, Except.bind, hrows]
            rw [Nat.add_assoc, Nat.add_comm 1 position]
      · -- The first line is the defect, and no line was read before it.
        rw [hrow]
        refine Or.inr ⟨0, cause, ⟨[], line, lines, rfl, rfl, allAcceptable_nil, ?_⟩, rfl⟩
        rw [List.append_nil]
        exact hcause

end TinyRow

namespace TinyFile

/-! ### Files -/

/-- A header names the format and its version, and behind a minor version at least two columns. -/
def IsHeader (header : List Char) (columns : List String) : Prop :=
  ∃ minor, TinyRow.cells header = "tiny" :: "2" :: minor :: columns ∧ 2 ≤ columns.length

/-- A text is accepted for two namespaces, with the columns and the lines below its header. -/
def Accepted (text : List Char) (source target : Namespace) (columns : List String)
    (lines : List (List Char)) : Prop :=
  ∃ header, Text.lines text = header :: lines ∧ IsHeader header columns ∧
    source.token ∈ columns ∧ target.token ∈ columns ∧
    TinyRow.AllAcceptable columns.length [] lines

/-- Why a text is refused: for its header, for a namespace that is missing, the source before the
    target, or for the first line below the header that is not acceptable. Lines are counted from
    one. -/
inductive Refused (text : List Char) (source target : Namespace) : MappingFault → Prop where
  | empty (hlines : Text.lines text = []) : Refused text source target (.defect 1 .empty)
  | header {header : List Char} {lines : List (List Char)} (hlines : Text.lines text = header :: lines)
    (hheader : ∀ columns, ¬ IsHeader header columns) :
    Refused text source target (.defect 1 .badHeader)
  | source {header : List Char} {lines : List (List Char)} {columns : List String}
    (hlines : Text.lines text = header :: lines) (hheader : IsHeader header columns)
    (hsource : source.token ∉ columns) : Refused text source target (.missingNamespace source)
  | target {header : List Char} {lines : List (List Char)} {columns : List String}
    (hlines : Text.lines text = header :: lines) (hheader : IsHeader header columns)
    (hsource : source.token ∈ columns) (htarget : target.token ∉ columns) :
    Refused text source target (.missingNamespace target)
  | line {header : List Char} {lines : List (List Char)} {columns : List String} {position : Nat}
    {cause : MappingDefect} (hlines : Text.lines text = header :: lines)
    (hheader : IsHeader header columns) (hsource : source.token ∈ columns)
    (htarget : target.token ∈ columns)
    (hdefect : TinyRow.FirstDefect columns.length [] lines position cause) :
    Refused text source target (.defect (position + 2) cause)

variable {text : List Char} {source target : Namespace} {columns : List String}

theorem IsHeader.unique {header : List Char} {columns' : List String} (h : IsHeader header columns)
    (h' : IsHeader header columns') : columns = columns' := by
  rcases h with ⟨minor, hcells, -⟩
  rcases h' with ⟨minor', hcells', -⟩
  rw [hcells] at hcells'
  simp only [List.cons.injEq, true_and] at hcells'
  exact hcells'.2

/-- The columns and the lines of a text are its own. -/
theorem Accepted.unique {lines lines' : List (List Char)} {columns' : List String}
    (h : Accepted text source target columns lines)
    (h' : Accepted text source target columns' lines') : columns = columns' ∧ lines = lines' := by
  rcases h with ⟨header, hlines, hheader, -⟩
  rcases h' with ⟨header', hlines', hheader', -⟩
  cases hlines.symm.trans hlines'
  exact ⟨hheader.unique hheader', rfl⟩

/-- A text is not both accepted and refused. -/
theorem Accepted.not_refused {lines : List (List Char)} {fault : MappingFault}
    (h : Accepted text source target columns lines) : ¬ Refused text source target fault := by
  rcases h with ⟨header, hlines, hheader, hsource, htarget, hall⟩
  intro hrefused
  -- A text has one header and one list of lines, so each fault speaks of those accepted here.
  cases hrefused with
  | empty hlines' =>
      rw [hlines] at hlines'
      cases hlines'
  | header hlines' hheader' =>
      cases hlines.symm.trans hlines'
      exact hheader' columns hheader
  | source hlines' hheader' hsource' =>
      cases hlines.symm.trans hlines'
      rw [hheader.unique hheader'] at hsource
      exact hsource' hsource
  | target hlines' hheader' _ htarget' =>
      cases hlines.symm.trans hlines'
      rw [hheader.unique hheader'] at htarget
      exact htarget' htarget
  | line hlines' hheader' _ _ hdefect =>
      cases hlines.symm.trans hlines'
      rw [hheader.unique hheader'] at hall
      rcases hdefect with ⟨before, line, after, heq, -, -, hexplains⟩
      exact hexplains.not_acceptable (hall before line after heq)

theorem parseHeader_exact (header : List Char) :
    (∃ columns, IsHeader header columns ∧ parseHeader header = .ok columns) ∨
      (∀ columns, ¬ IsHeader header columns) ∧
        parseHeader header = .error (.defect 1 .badHeader) := by
  unfold parseHeader
  split
  · next minor columns hcells =>
    split
    · next hshort =>
      -- Fewer than two columns.
      refine Or.inr ⟨fun columns' hheader => ?_, rfl⟩
      rcases hheader with ⟨minor', hcells', hlength⟩
      rw [hcells] at hcells'
      simp only [List.cons.injEq, true_and] at hcells'
      rw [← hcells'.2] at hlength
      omega
    · next hlength => exact Or.inl ⟨columns, ⟨minor, hcells, by omega⟩, rfl⟩
  · -- The cells do not begin as those of a header do.
    next hcells =>
    refine Or.inr ⟨fun columns hheader => ?_, rfl⟩
    rcases hheader with ⟨minor, hcells', -⟩
    exact hcells minor columns hcells'

theorem columnOf_eq (columns : List String) (ns : Namespace) : columnOf columns ns =
    if ns.token ∈ columns then .ok (columns.idxOf ns.token) else .error (.missingNamespace ns) := by
  unfold columnOf
  by_cases hmem : ns.token ∈ columns
  · have hfound : columns.idxOf? ns.token = some (columns.idxOf ns.token) :=
      List.findIdx?_eq_some_of_exists ⟨ns.token, hmem, beq_self_eq_true _⟩
    rw [if_pos hmem, hfound]
  · rw [if_neg hmem, List.idxOf?_eq_none_iff.mpr hmem]

/-- A text is accepted and gives its rows, or it gives a fault for which it is refused. -/
theorem parse_exact (text : List Char) (source target : Namespace) :
    (∃ columns lines, Accepted text source target columns lines ∧
      parse text source target = .ok
        ({ columns, rows := TinyRow.rowsBelow [] lines },
          { source := columns.idxOf source.token, target := columns.idxOf target.token })) ∨
    ∃ fault, Refused text source target fault ∧ parse text source target = .error fault := by
  unfold parse
  -- The tests come in the order of the faults, and a text is refused by the first that fails.
  cases hlines : Text.lines text with
  | nil => exact Or.inr ⟨_, .empty hlines, rfl⟩
  | cons header lines =>
      simp only
      rcases parseHeader_exact header with ⟨columns, hheader, hparsed⟩ | ⟨hheader, hparsed⟩
      · rw [hparsed]
        simp only [columnOf_eq, bind, Except.bind]
        by_cases hsource : source.token ∈ columns
        · by_cases htarget : target.token ∈ columns
          · simp only [if_pos hsource, if_pos htarget]
            -- Reading starts without a class, and no line is above the first one.
            have hread := TinyRow.ofLines_exact columns.length 2 [] lines
            have hnone : TinyRow.enclosing? [] = none := rfl
            rw [hnone] at hread
            rcases hread with ⟨hall, hrows⟩ | ⟨position, cause, hdefect, hrows⟩
            · refine Or.inl ⟨columns, lines, ⟨header, hlines, hheader, hsource, htarget, hall⟩, ?_⟩
              rw [hrows]
              rfl
            · refine Or.inr ⟨_, .line hlines hheader hsource htarget hdefect, ?_⟩
              rw [hrows, Nat.add_comm]
          · simp only [if_pos hsource, if_neg htarget]
            exact Or.inr ⟨_, .target hlines hheader hsource htarget, rfl⟩
        · simp only [if_neg hsource]
          exact Or.inr ⟨_, .source hlines hheader hsource, rfl⟩
      · rw [hparsed]
        exact Or.inr ⟨_, .header hlines hheader, rfl⟩

end TinyFile

end AccessWidener
