import AccessWidener.Proofs.Directive.Spelling

/-!
# What Was Written Is Read Back

A writer is called with headers and directives in whatever order its caller likes. Some calls are
refused: a directive before the header, a second header, a transitive directive in version 1. The
others add one line each, so at any time the text consists of the lines of the calls that were
accepted, a header in front (`Writer.Reflects`). One call preserves this, and hence every list of
calls does; the calls that were refused leave no trace.

Such a text spells its header and its directives, and therefore reads back as them. A caller that
passes on what it read from a file is never refused anything: the file has its header in front, and
no mark that its version does not know.

## Main definitions

* `Writer.offer`, `Writer.run`: A writer after a call, and after a list of calls.
* `Writer.accepted`: The calls of a list that were not refused.
* `Writer.Reflects`: The text of a writer holds what was accepted.

## Theorems

* `reflects_visit`, `reflects_run`: A call, and a list of calls, keeps the text in step.
* `Reflects.known`: What was accepted has no mark that the version does not know.
* `readEvents_of_reflects`: A text in step is read as what was accepted.
* `deliver_of_readEvents`: What was read is written to its end.
* `written_reads_back`: What was accepted is what is read back.
-/

namespace AccessWidener

namespace Writer

/-- The bytes of the text so far. -/
def bytes (writer : Writer) : Bytes :=
  Utf8.encodeString writer.text

/-- The writer after a call, which leaves it as it was if it is refused. -/
def offer (writer : Writer) (call : Event) : Writer :=
  match visit writer call with
  | .ok next => next
  | .error _ => writer

/-- The writer after a list of calls, whether or not they were refused. -/
def run (writer : Writer) (calls : List Event) : Writer :=
  calls.foldl offer writer

/-- The calls of a list that the writer does not refuse, in order. -/
def accepted (writer : Writer) : List Event → List Event
  | [] => []
  | call :: rest =>
    match visit writer call with
    | .ok next => call :: next.accepted rest
    | .error _ => writer.accepted rest

/-- The text of a writer of a version holds exactly the events that were accepted. -/
inductive Reflects (version : Nat) : Writer → List Event → Prop
  | fresh : Reflects version { version } []
  | begun (ns : Namespace) (directives : List Directive) (text : String)
      (known : ∀ d ∈ directives, d.transitive = true → 2 ≤ version)
      (spelled : text.toList = spelledText (fileWords version ns directives)) :
      Reflects version { version, started := true, text } (.header ns :: directives.map .directive)

variable {version : Nat} {writer next : Writer} {taken : List Event}

/-! ### Calls -/

/-- There are writers of the two versions that readers understand. -/
theorem ofVersion_eq_ok_iff (version : Nat) (start : Writer) :
    ofVersion version = .ok start ↔ (version = 1 ∨ version = 2) ∧ start = { version } := by
  rw [ofVersion]
  by_cases hsupported : supportedVersion version = true
  · rw [if_pos hsupported]
    simp only [supportedVersion, Bool.or_eq_true, decide_eq_true_eq] at hsupported
    simp only [hsupported, Except.ok.injEq, true_and, eq_comm]
  · rw [if_neg hsupported]
    simp only [supportedVersion, Bool.or_eq_true, decide_eq_true_eq] at hsupported
    simp only [hsupported, reduceCtorEq, false_and]

theorem toList_headerLine (version : Nat) (ns : Namespace) :
    (headerLine version ns).toList = spelledText (fileWords version ns []) := by
  rw [headerLine, toList_lineOfWords, spelledText, fileWords, List.map_nil, List.flatMap_singleton]
  rfl

theorem toList_append_directiveLine {ns : Namespace} {directives : List Directive} {text : String}
    (h : text.toList = spelledText (fileWords version ns directives)) (d : Directive) :
    (text ++ directiveLine d).toList = spelledText (fileWords version ns (directives ++ [d])) := by
  rw [String.toList_append, h, directiveLine, toList_lineOfWords, spelledText, spelledText,
    fileWords, fileWords, List.map_append, List.map_singleton, ← List.cons_append,
    List.flatMap_append, List.flatMap_singleton]

/-- A call that is accepted adds its line to the text, and nothing else. -/
theorem reflects_visit (h : Reflects version writer taken) {call : Event}
    (hvisit : visit writer call = .ok next) : Reflects version next (taken ++ [call]) := by
  -- A fresh writer takes a header and nothing else, one that has begun takes directives and no
  -- header.
  cases h with
  | fresh =>
      cases call with
      | header ns =>
          cases hvisit
          refine .begun ns [] _ (fun d hd => absurd hd List.not_mem_nil) ?_
          rw [String.empty_append, toList_headerLine]
      | directive d => cases hvisit
  | begun ns directives text known spelled =>
      cases call with
      | header ns' => cases hvisit
      | directive d =>
          -- Only a mark that the version does not know is refused.
          by_cases hold : (d.transitive && decide (version < 2)) = true
          · simp only [visit, Bool.not_true, Bool.false_eq_true, if_false, hold, if_true,
              reduceCtorEq] at hvisit
          · simp only [visit, Bool.not_true, Bool.false_eq_true, if_false, hold,
              Except.ok.injEq] at hvisit
            subst hvisit
            have hknown : ∀ d' ∈ directives ++ [d], d'.transitive = true → 2 ≤ version := by
              rw [List.forall_mem_append, List.forall_mem_singleton]
              refine ⟨known, fun htransitive => ?_⟩
              rw [htransitive, Bool.true_and, decide_eq_true_eq] at hold
              exact Nat.not_lt.mp hold
            have hsame : (.header ns :: directives.map .directive) ++ [.directive d] =
                .header ns :: (directives ++ [d]).map Event.directive := by
              rw [List.cons_append, List.map_append, List.map_singleton]
            rw [hsame]
            exact .begun ns _ _ hknown (toList_append_directiveLine spelled d)

/-- Whatever the calls, the text stays in step with those that were accepted. -/
theorem reflects_run (h : Reflects version writer taken) (calls : List Event) :
    Reflects version (writer.run calls) (taken ++ writer.accepted calls) := by
  induction calls generalizing writer taken with
  | nil =>
      rw [accepted, List.append_nil]
      exact h
  | cons call rest ih =>
      cases hvisit : visit writer call with
      | error fault =>
          -- The writer is as before, and so is what it accepted.
          have hoffer : writer.offer call = writer := by rw [offer, hvisit]
          rw [run, List.foldl_cons, hoffer, accepted, hvisit]
          exact ih h
      | ok next =>
          have hoffer : writer.offer call = next := by rw [offer, hvisit]
          have hrest := ih (reflects_visit h hvisit)
          rw [List.append_assoc, List.singleton_append] at hrest
          rw [run, List.foldl_cons, hoffer, accepted, hvisit]
          exact hrest

theorem mem_of_mem_accepted {calls : List Event} {event : Event}
    (h : event ∈ writer.accepted calls) : event ∈ calls := by
  -- A refused call drops out, an accepted one stays, and none is added.
  induction calls generalizing writer with
  | nil => cases h
  | cons call rest ih =>
      cases hvisit : visit writer call with
      | error fault =>
          rw [accepted, hvisit] at h
          exact List.mem_cons_of_mem _ (ih h)
      | ok next =>
          rw [accepted, hvisit] at h
          rcases List.mem_cons.mp h with rfl | h
          · exact List.mem_cons_self
          · exact List.mem_cons_of_mem _ (ih h)

/-- Nothing is accepted whose mark the version does not know. -/
theorem Reflects.known (h : Reflects version writer taken) {d : Directive}
    (hd : .directive d ∈ taken) (htransitive : d.transitive = true) : 2 ≤ version := by
  cases h with
  | fresh => cases hd
  | begun ns directives text known spelled =>
      exact known d (Event.directive_mem_cons_iff.mp hd) htransitive

/-! ### Reading back -/

/-- A text in step with a header and writable directives is read as them. -/
theorem readEvents_of_reflects (hversion : version = 1 ∨ version = 2)
    (h : Reflects version writer taken) {ns : Namespace} (hheader : .header ns ∈ taken)
    (hwritable : ∀ d, .directive d ∈ taken → d.Writable) {expected : Option Namespace}
    (hexpected : checkExpected expected ns = .ok ()) :
    readHeader writer.bytes = .ok { version, ns } ∧
      readEvents writer.bytes expected = { events := taken } := by
  cases h with
  | fresh => cases hheader
  | begun first directives text known spelled =>
      -- There is only one header among the events.
      have hns : ns = first := by
        rcases List.mem_cons.mp hheader with hfirst | hlater
        · cases hfirst
          rfl
        · rcases List.mem_map.mp hlater with ⟨d, -, hd⟩
          cases hd
      subst hns
      have hdirectives : ∀ d ∈ directives, d.Writable ∧ (d.transitive = true → 2 ≤ version) := by
        intro d hd
        exact ⟨hwritable d (Event.directive_mem_cons_iff.mpr hd), known d hd⟩
      exact readEvents_spelled hversion hdirectives hexpected spelled

/-- A stream that was taken to its end is what the text holds. -/
theorem reflects_deliverEvents {events : List Event} (h : Reflects version writer taken)
    (hdeliver : EventStream.deliverEvents visit none writer events = (next, none)) :
    Reflects version next (taken ++ events) := by
  induction events generalizing writer taken with
  | nil =>
      rw [EventStream.deliverEvents, Prod.mk.injEq] at hdeliver
      rw [List.append_nil, ← hdeliver.1]
      exact h
  | cons event rest ih =>
      cases hvisit : visit writer event with
      | error fault =>
          simp only [EventStream.deliverEvents, hvisit, Prod.mk.injEq, reduceCtorEq,
            and_false] at hdeliver
      | ok middle =>
          simp only [EventStream.deliverEvents, hvisit] at hdeliver
          -- What was taken so far grows by the event, and the text with it.
          have hrest := ih (reflects_visit h hvisit) hdeliver
          rwa [List.append_assoc, List.singleton_append] at hrest

/-- Directives with no mark that the version does not know are taken one after the other. -/
theorem exists_deliverEvents {directives : List Directive}
    (known : ∀ d ∈ directives, d.transitive = true → 2 ≤ version) (text : String) :
    ∃ final, EventStream.deliverEvents visit none { version, started := true, text }
      (directives.map .directive) = (final, none) := by
  induction directives generalizing text with
  | nil => exact ⟨_, rfl⟩
  | cons d rest ih =>
      rw [List.forall_mem_cons] at known
      -- A mark is refused by the first version only, and there it does not occur.
      have hnew : ¬(d.transitive && decide (version < 2)) = true := by
        rw [Bool.and_eq_true, decide_eq_true_eq]
        rintro ⟨htransitive, hold⟩
        exact Nat.not_lt.mpr (known.1 htransitive) hold
      have hvisit : visit { version, started := true, text } (.directive d) =
          .ok { version, started := true, text := text ++ directiveLine d } := by
        simp only [visit, Bool.not_true, Bool.false_eq_true, if_false, hnew]
      rw [List.map_cons, EventStream.deliverEvents, hvisit]
      exact ih known.2 (text ++ directiveLine d)

/-- A file that was read without a fault is taken by a writer of its version to the end, and the
    text is read as the file was. -/
theorem deliver_of_readEvents (hversion : version = 1 ∨ version = 2) {content : AccessWidener.Bytes}
    {expected : Option Namespace} (hfault : (readEvents content expected).fault = none)
    (hread : readVersion content = .ok version) :
    ∃ final : Writer, (readEvents content expected).deliver visit { version } = (final, none) ∧
      readHeader final.bytes = readHeader content ∧
      readEvents final.bytes expected = readEvents content expected := by
  rcases exists_directives_of_readEvents hfault hread with
    ⟨ns, directives, hheader, hexpected, hdirectives, hevents⟩
  rcases exists_deliverEvents (fun d hd => (hdirectives d hd).2)
    ("" ++ headerLine version ns) with ⟨final, hfinal⟩
  have hdeliver : EventStream.deliverEvents visit none { version }
      (.header ns :: directives.map .directive) = (final, none) := hfinal
  -- The text is that of the calls made, and these are the events that were read.
  have hreflects := reflects_deliverEvents .fresh hdeliver
  rw [List.nil_append] at hreflects
  -- What was read can be written, as its words came out of a line.
  have hwritable : ∀ d, Event.directive d ∈ .header ns :: directives.map .directive →
      d.Writable := by
    intro d hd
    exact (hdirectives d (Event.directive_mem_cons_iff.mp hd)).1
  rcases readEvents_of_reflects hversion hreflects List.mem_cons_self hwritable hexpected with
    ⟨hback, hback'⟩
  refine ⟨final, ?_, hback.trans hheader.symm, hback'.trans hevents.symm⟩
  rw [EventStream.deliver, hevents]
  exact hdeliver

/-- Writing and then reading gives back what was written. Calls in any order are accepted or refused
    one by one, and a refused call leaves the text as it is. Once a header was accepted, the text is
    a well-formed file of the version that reads back to this header and to exactly the accepted
    directives. A file of the version that the reader accepts can be written from what was read, and
    then reads as before. -/
theorem written_reads_back (version : Nat) (hversion : version = 1 ∨ version = 2) :
    ∃ start, ofVersion version = .ok start ∧
      (∀ calls : List Event, (∀ d, .directive d ∈ calls → d.Writable) →
        (∀ call fault, visit (start.run calls) call = .error fault →
          (start.run (calls ++ [call])).text = (start.run calls).text) ∧
        ∀ ns, .header ns ∈ start.accepted calls →
          readHeader (start.run calls).bytes = .ok { version, ns } ∧
            readEvents (start.run calls).bytes =
              { events := start.accepted calls, fault := none }) ∧
      ∀ content expected, (readEvents content expected).fault = none →
        readVersion content = .ok version →
        ∃ final : Writer, (readEvents content expected).deliver visit start = (final, none) ∧
          readHeader final.bytes = readHeader content ∧
          readEvents final.bytes expected = readEvents content expected := by
  have hsupported : supportedVersion version = true := by
    rcases hversion with rfl | rfl <;> rfl
  refine ⟨{ version }, by rw [ofVersion, if_pos hsupported], fun calls hwritable => ⟨?_, ?_⟩, ?_⟩
  · intro call fault hrefused
    -- A refused call is the last one, and the step that refuses it keeps the writer.
    rw [run, List.foldl_append, List.foldl_cons, List.foldl_nil, ← run, offer, hrefused]
  · intro ns hheader
    -- The run keeps the text equal to the lines of the accepted calls, whatever was refused.
    have hreflects : Reflects version _ ([] ++ accepted _ calls) := reflects_run .fresh calls
    rw [List.nil_append] at hreflects
    exact readEvents_of_reflects hversion hreflects hheader
      (fun d hd => hwritable d (mem_of_mem_accepted hd)) rfl
  · intro content expected hfault hread
    exact deliver_of_readEvents hversion hfault hread

/-- In version 1, a directive before the header, a second header and a transitive directive are
    refused, and what is left reads back. A file with a comment and a carriage return is written
    without them and reads as before. -/
theorem written_reads_back_refused :
    ((1 = 1 ∨ 1 = 2) ∧ (⟨.type "a/B", .accessible, false⟩ : Directive).Writable ∧
      (⟨.type "a/B", .accessible, true⟩ : Directive).Writable) ∧
    readEvents (({ version := 1 } : Writer).run
        [.directive ⟨.type "a/B", .accessible, false⟩, .header .named, .header .srg,
          .directive ⟨.type "a/B", .accessible, true⟩,
          .directive ⟨.type "a/B", .accessible, false⟩]).bytes =
      { events := [.header .named, .directive ⟨.type "a/B", .accessible, false⟩] } ∧
    ∃ final : Writer,
      (readEvents
        (Utf8.encodeString "accessWidener v1 named # a\naccessible class a/B\r\n")).deliver
          visit { version := 1 } = (final, none) ∧
      readEvents final.bytes =
        { events := [.header .named, .directive ⟨.type "a/B", .accessible, false⟩] } := by
  have hplain : (⟨.type "a/B", .accessible, false⟩ : Directive).Writable :=
    ⟨rfl, (by decide : Spellable "a/B")⟩
  have hmarked : (⟨.type "a/B", .accessible, true⟩ : Directive).Writable :=
    ⟨rfl, (by decide : Spellable "a/B")⟩
  rcases written_reads_back 1 (Or.inl rfl) with ⟨start, hstart, hcalls, hfiles⟩
  cases hstart
  refine ⟨⟨Or.inl rfl, hplain, hmarked⟩, ?_, ?_⟩
  · -- All three calls name targets that can be spelled, the refused one as well.
    have hwritable : ∀ d, Event.directive d ∈
        [Event.directive ⟨.type "a/B", .accessible, false⟩, .header .named, .header .srg,
          .directive ⟨.type "a/B", .accessible, true⟩,
          .directive ⟨.type "a/B", .accessible, false⟩] → d.Writable := by
      intro d hd
      simp only [List.mem_cons, List.not_mem_nil, Event.directive.injEq, reduceCtorEq, false_or,
        or_false] at hd
      rcases hd with rfl | rfl | rfl
      · exact hplain
      · exact hmarked
      · exact hplain
    exact ((hcalls _ hwritable).2 .named (by decide)).2
  · -- The file has a comment and another line end, and neither is a part of its events.
    have hread : readEvents
          (Utf8.encodeString "accessWidener v1 named # a\naccessible class a/B\r\n") =
        { events := [.header .named, .directive ⟨.type "a/B", .accessible, false⟩] } := by
      decide +kernel
    rcases hfiles _ none (by rw [hread]) (by decide +kernel) with ⟨final, hdeliver, -, hback⟩
    exact ⟨final, hdeliver, hback.trans hread⟩

end Writer

end AccessWidener
