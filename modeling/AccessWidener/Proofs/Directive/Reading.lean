import AccessWidener.Directive.Reader
import AccessWidener.Proofs.Directive.Grants

/-!
# Directives That Were Read

The reader only lets through requests that make sense for their target: nobody asks for a field to
be extendable, or for a class or method to be mutable. A set that is filled by reading files
therefore grants every target only levels that apply to it, however many files went into it and
whether or not the last of them was read to its end.

## Main definitions

* `Parsed`: Lines that the reader takes for directives.
* `DirectiveSet.Applicable`: All levels apply to their targets.
* `DirectiveSet.Collected`: A set that was filled by reading files.

## Theorems

* `parseWords_eq_ok`, `parseDirective_eq_error`: What is behind a directive that was read, and what
  becomes of a line that is none.
* `parsed_or_refused`, `readBody_of_parsed`, `readBody_of_refused`: The lines below a header are
  read up to the first that is no directive.
* `exists_line_of_mem_events`, `appliesTo_of_mem_events`: Directives come from lines, and ask for
  what applies to their targets.
* `applicable_visit`, `applicable_deliverEvents`: Taking in an event, and many, keeps a set
  applicable.
* `applicable_of_collected`: Sets filled by reading are applicable.
-/

namespace AccessWidener

theorem kind_of_parseTarget {kind : TargetKind} {operands : List String} {target : Target}
    (h : parseTarget kind operands = .ok target) : target.kind = kind := by
  unfold parseTarget at h
  split at h
  next => cases h; rfl
  next => cases h; rfl
  next => cases h

/-- What is behind a directive that was read: a level, a kind that it applies to, and operands that
    name a target of this kind. -/
theorem parseWords_eq_ok {version : Nat} {first : String} {rest : List String} {d : Directive}
    (h : parseWords version first rest = .ok d) :
    ∃ accessWord kindWord operands,
      splitTransitive version first = .ok (accessWord, d.transitive) ∧
      Access.ofToken? accessWord = some d.access ∧ rest = kindWord :: operands ∧
      TargetKind.ofToken? kindWord = some d.target.kind ∧
      d.access.appliesTo d.target.kind = true ∧
      parseTarget d.target.kind operands = .ok d.target := by
  unfold parseWords at h
  cases hsplit : splitTransitive version first with
  | error cause =>
      rw [hsplit] at h
      cases h
  | ok parts =>
      rw [hsplit] at h
      simp only [bind, Except.bind] at h
      split at h
      next => cases h
      next => cases h
      next access kindWord operands haccess =>
        split at h
        next => cases h
        next kind hkind =>
          -- This is the only way to a directive, and it leads past the check.
          by_cases happlies : access.appliesTo kind = true
          · rw [if_pos happlies] at h
            cases htarget : parseTarget kind operands with
            | error cause =>
                rw [htarget] at h
                cases h
            | ok target =>
                rw [htarget] at h
                cases h
                have hsame := kind_of_parseTarget htarget
                subst hsame
                exact ⟨parts.1, kindWord, operands, rfl, haccess, rfl, hkind, happlies, htarget⟩
          · rw [if_neg happlies] at h
            cases h

theorem appliesTo_of_parseWords {version : Nat} {first : String} {rest : List String}
    {d : Directive} (h : parseWords version first rest = .ok d) :
    d.access.appliesTo d.target.kind = true := by
  rcases parseWords_eq_ok h with ⟨_, _, _, -, -, -, -, happlies, -⟩
  exact happlies

theorem parseDirective_eq_ok_iff (version : Nat) (line : SignificantLine) (d : Directive) :
    parseDirective version line = .ok d ↔ parseWords version line.first line.rest = .ok d := by
  unfold parseDirective
  cases parseWords version line.first line.rest with
  | ok found => simp only [Except.ok.injEq]
  | error cause => simp only [reduceCtorEq]

/-- A line that is no directive is refused with its number. -/
theorem parseDirective_eq_error {version : Nat} {line : SignificantLine} {fault : DirectiveFault}
    (h : parseDirective version line = .error fault) :
    ∃ cause, fault = .malformed line.number cause := by
  unfold parseDirective at h
  split at h
  next => cases h
  next cause _ =>
    cases h
    exact ⟨cause, rfl⟩

/-! ### Directives among events -/

theorem Event.directive_mem_map_iff {directives : List Directive} {d : Directive} :
    .directive d ∈ directives.map Event.directive ↔ d ∈ directives := by
  simp only [List.mem_map, Event.directive.injEq, exists_eq_right]

/-- A header in front is no directive. -/
theorem Event.directive_mem_cons_iff {ns : Namespace} {directives : List Directive}
    {d : Directive} :
    .directive d ∈ Event.header ns :: directives.map Event.directive ↔ d ∈ directives := by
  simp only [List.mem_cons, reduceCtorEq, false_or, directive_mem_map_iff]

/-! ### Lines below a header -/

section Body

variable {version : Nat} {lines above below : List SignificantLine} {directives : List Directive}
  {line : SignificantLine} {d : Directive}

/-- Lines that the reader takes for directives, one each. -/
def Parsed (version : Nat) (lines : List SignificantLine) (directives : List Directive) : Prop :=
  lines.map (parseDirective version) = directives.map .ok

theorem Parsed.exists_line (h : Parsed version lines directives) (hd : d ∈ directives) :
    ∃ line ∈ lines, parseDirective version line = .ok d := by
  have hmem : Except.ok d ∈ directives.map (Except.ok (ε := DirectiveFault)) :=
    List.mem_map_of_mem hd
  rw [← h] at hmem
  exact List.mem_map.mp hmem

theorem Parsed.exists_directive (h : Parsed version lines directives) (hline : line ∈ lines) :
    ∃ d ∈ directives, parseDirective version line = .ok d := by
  have hmem : parseDirective version line ∈ lines.map (parseDirective version) :=
    List.mem_map_of_mem hline
  rw [h] at hmem
  rcases List.mem_map.mp hmem with ⟨d, hd, hparse⟩
  exact ⟨d, hd, hparse.symm⟩

/-- Lines are all directives, or there is a first that is none. -/
theorem parsed_or_refused (version : Nat) (lines : List SignificantLine) :
    (∃ directives, Parsed version lines directives) ∨
      ∃ above line below directives fault, lines = above ++ line :: below ∧
        Parsed version above directives ∧ parseDirective version line = .error fault := by
  induction lines with
  | nil => exact Or.inl ⟨[], rfl⟩
  | cons first rest ih =>
      cases hfirst : parseDirective version first with
      | error fault => exact Or.inr ⟨[], first, rest, [], fault, rfl, rfl, hfirst⟩
      | ok d =>
          -- A line that parses joins the lines above.
          have hcons : ∀ {lines directives}, Parsed version lines directives →
              Parsed version (first :: lines) (d :: directives) := by
            intro lines directives h
            rw [Parsed, List.map_cons, List.map_cons, hfirst, h]
          rcases ih with ⟨directives, hrest⟩ | ⟨above, line, below, directives, fault, rfl,
            habove, hline⟩
          · exact Or.inl ⟨d :: directives, hcons hrest⟩
          · exact Or.inr ⟨first :: above, line, below, d :: directives, fault, rfl, hcons habove,
              hline⟩

/-- Lines that are directives give their events, and the lines behind them are read as if there
    were no others. -/
theorem readBody_append (h : Parsed version above directives) (below : List SignificantLine) :
    readBody version (above ++ below) =
      { events := directives.map .directive ++ (readBody version below).events,
        fault := (readBody version below).fault } := by
  induction above generalizing directives with
  | nil =>
      rw [List.map_eq_nil_iff.mp h.symm]
      rfl
  | cons line rest ih =>
      rcases List.map_eq_cons_iff.mp h.symm with ⟨d, later, rfl, hline, hrest⟩
      rw [List.cons_append, readBody]
      simp only [← hline, ih hrest.symm]
      rfl

theorem readBody_of_parsed (h : Parsed version lines directives) :
    readBody version lines = { events := directives.map .directive } := by
  have hread := readBody_append h []
  rw [List.append_nil] at hread
  rw [hread, readBody, List.append_nil]

/-- Reading stops at the first line that is no directive. -/
theorem readBody_of_refused (h : Parsed version above directives) {fault : DirectiveFault}
    (hline : parseDirective version line = .error fault) (below : List SignificantLine) :
    readBody version (above ++ line :: below) =
      { events := directives.map .directive, fault := some fault } := by
  rw [readBody_append h]
  simp only [readBody, hline, EventStream.failed, List.append_nil]

/-- Lines that were read without a fault are all directives. -/
theorem parsed_of_readBody (h : (readBody version lines).fault = none) :
    ∃ directives, Parsed version lines directives ∧
      readBody version lines = { events := directives.map .directive } := by
  rcases parsed_or_refused version lines with ⟨directives, hparsed⟩ |
    ⟨above, line, below, directives, fault, rfl, habove, hline⟩
  · exact ⟨directives, hparsed, readBody_of_parsed hparsed⟩
  · rw [readBody_of_refused habove hline] at h
    cases h

/-- A directive that was read was read from some line. -/
theorem exists_line_of_mem_readBody (h : .directive d ∈ (readBody version lines).events) :
    ∃ line ∈ lines, parseDirective version line = .ok d := by
  rcases parsed_or_refused version lines with ⟨directives, hparsed⟩ |
    ⟨above, line, below, directives, fault, rfl, habove, hline⟩
  · rw [readBody_of_parsed hparsed, Event.directive_mem_map_iff] at h
    exact hparsed.exists_line h
  · rw [readBody_of_refused habove hline, Event.directive_mem_map_iff] at h
    rcases habove.exists_line h with ⟨found, hfound, hparse⟩
    exact ⟨found, List.mem_append_left _ hfound, hparse⟩

end Body

/-- A directive that a file gave was read from one of its lines. -/
theorem exists_line_of_mem_events {content : Bytes} {expected : Option Namespace} {d : Directive}
    (h : .directive d ∈ (readEvents content expected).events) :
    ∃ text version, ∃ line ∈ significantLines text, parseDirective version line = .ok d := by
  unfold readEvents at h
  split at h
  next => cases h
  next text _ =>
    unfold eventsOfLines at h
    split at h
    next => cases h
    next first body hlines =>
      split at h
      next => cases h
      next header _ =>
        rcases List.mem_cons.mp h with heq | h
        · -- The header is no directive.
          cases heq
        · rcases exists_line_of_mem_readBody h with ⟨line, hline, hparse⟩
          refine ⟨text, header.version, line, ?_, hparse⟩
          rw [hlines]
          exact List.mem_cons_of_mem _ hline

/-- Directives ask for what applies to their targets. -/
theorem appliesTo_of_mem_events {content : Bytes} {expected : Option Namespace} {d : Directive}
    (h : .directive d ∈ (readEvents content expected).events) :
    d.access.appliesTo d.target.kind = true := by
  rcases exists_line_of_mem_events h with ⟨_, _, line, -, hparse⟩
  exact appliesTo_of_parseWords ((parseDirective_eq_ok_iff _ _ _).mp hparse)

namespace DirectiveSet

/-- All levels that a set grants apply to their targets. -/
def Applicable (set : DirectiveSet) : Prop :=
  ∀ target level, (set.grantOf target).access.contains level = true →
    level.appliesTo target.kind = true

/-- A set that was filled by reading files, one after the other. A file that could not be read to
    its end counts with what was read of it. -/
inductive Collected : DirectiveSet → Prop
  | empty : Collected .empty
  | inNamespace (ns : Namespace) : Collected (.inNamespace ns)
  | read {set : DirectiveSet} (content : Bytes) (expected : Option Namespace)
      (held : Collected set) : Collected ((readEvents content expected).deliver visit set).1

theorem applicable_of_grants_empty {set : DirectiveSet} (h : set.grants = ∅) : set.Applicable := by
  intro target level hlevel
  have hnone : set.get? target = none := by
    rw [get?, h, Std.ExtTreeMap.getElem?_empty]
  rw [grantOf_eq_empty hnone] at hlevel
  cases level <;> cases hlevel

theorem applicable_insert {set : DirectiveSet} (h : set.Applicable) {d : Directive}
    (hd : d.access.appliesTo d.target.kind = true) : (set.insert d).Applicable := by
  intro target level hlevel
  rw [insert, grantOf_insertGrant] at hlevel
  by_cases heq : d.target = target
  · rw [if_pos heq, Grant.merge, AccessSet.contains_union, Bool.or_eq_true] at hlevel
    rcases hlevel with hheld | hadded
    · exact h target level hheld
    · rw [Grant.ofRequest, AccessSet.contains_singleton, decide_eq_true_eq] at hadded
      rw [hadded, ← heq]
      exact hd
  · rw [if_neg heq] at hlevel
    exact h target level hlevel

theorem applicable_visit {set next : DirectiveSet} (h : set.Applicable) {event : Event}
    (hevent : ∀ d, event = .directive d → d.access.appliesTo d.target.kind = true)
    (hnext : visit set event = .ok next) : next.Applicable := by
  cases event with
  | header ns =>
      -- Declaring a namespace leaves the grants alone.
      intro target level hlevel
      have hdeclare : set.declare (some ns) = .ok next := hnext
      have hgrants := (declare_eq_ok hdeclare).1
      have hsame : next.grantOf target = set.grantOf target := by
        simp only [grantOf, get?, hgrants]
      rw [hsame] at hlevel
      exact h target level hlevel
  | directive d =>
      cases hnext
      exact applicable_insert h (hevent d rfl)

/-- However far a delivery gets, it keeps a set applicable. -/
theorem applicable_deliverEvents {events : List Event} {set : DirectiveSet} (h : set.Applicable)
    (hevents : ∀ d, .directive d ∈ events → d.access.appliesTo d.target.kind = true)
    (fault : Option DirectiveFault) :
    (EventStream.deliverEvents visit fault set events).1.Applicable := by
  induction events generalizing set with
  | nil => exact h
  | cons event rest ih =>
      cases hvisit : visit set event with
      | error refusal =>
          -- A refused event leaves the set as it was, and is the last one.
          simp only [EventStream.deliverEvents, hvisit]
          exact h
      | ok next =>
          simp only [EventStream.deliverEvents, hvisit]
          refine ih ?_ (fun d hmem => hevents d (List.mem_cons_of_mem _ hmem))
          exact applicable_visit h (fun d heq => hevents d (heq ▸ List.mem_cons_self)) hvisit

/-- Sets filled by reading are applicable. -/
theorem applicable_of_collected {set : DirectiveSet} (h : set.Collected) : set.Applicable := by
  induction h with
  | empty => exact applicable_of_grants_empty rfl
  | inNamespace ns => exact applicable_of_grants_empty rfl
  | read content expected held ih =>
      exact applicable_deliverEvents ih (fun d hmem => appliesTo_of_mem_events hmem) _

end DirectiveSet

end AccessWidener
