import Mathlib.Data.List.Forall2
import AccessWidener.Proofs.Directive.Grammar

/-!
# Up to the First Fault

What reading a directive file comes to, by the grammar alone. A file opens if it is text whose first
line that counts is a header, one that the reader is content with. Then every line below is a
directive, and reading is complete, or there is a first line that is none, and reading stops there.
`Reads` lists these ways to read a file, with the events that each of them gives and where it halts.
Every file is read in exactly one of them (`exists_reads`), and the reader goes that way
(`readEvents_of_reads`).

A consumer may stop the reading too. It is handed the events one by one, and an event that it
refuses is the last one it sees (`exists_delivery`). What it does to itself while it refuses makes
no difference to the reader.

## Main definitions

* `HasLines`, `Opens`, `Spells`: The lines of a file, its header, and directives below it.
* `Halt`, `Halt.ofFault?`: Where reading stops, and how that is read off a fault.
* `Reads`: The events that a file gives, and where reading it stops.

## Theorems

* `readEvents_of_opens`: The reader looks at the lines of the file.
* `readEvents_of_reads`, `exists_reads`, `reads_unique`: Every file is read in one way.
* `exists_delivery`: A consumer takes every event, or all events in front of one that it refuses.
* `readEvents_eq_iff`: The files that are read without a fault.
* `deliver_up_to_first_fault`: Reading succeeds for what is in the grammar and accepted, and stops
  at the first fault otherwise.
-/

namespace AccessWidener

/-! ### Files -/

/-- The lines of a file that count. Only text has lines. -/
def HasLines (content : Bytes) (rows : List (List String × Nat)) : Prop :=
  ∃ text, content = Utf8.encode text ∧ numberedWords text = rows

/-- A file whose first line is a header, one that a reader who may insist on a namespace is content
    with. -/
def Opens (expected : Option Namespace) (content : Bytes) (header : Header)
    (body : List (List String × Nat)) : Prop :=
  ∃ words number, HasLines content ((words, number) :: body) ∧ HeaderWords words header ∧
    ∀ wanted, expected = some wanted → wanted = header.ns

/-- Lines that are directives, one each. -/
def Spells (version : Nat) (rows : List (List String × Nat)) (directives : List Directive) : Prop :=
  List.Forall₂ (fun row d => DirectiveWords version row.1 d) rows directives

/-- Where reading a file stops: behind its last line, at a line, or at a header with the wrong
    namespace. Line zero stands for the whole file. -/
inductive Halt where
  | complete
  | malformed (line : Nat)
  | mismatch (wanted found : Namespace)
deriving DecidableEq, Repr

/-- Where reading stopped, going by the fault that the reader gives, if any. A line may be malformed
    for many causes. Of the other faults, no reader gives any. -/
def Halt.ofFault? : Option DirectiveFault → Option Halt
  | none => some complete
  | some (.malformed line _) => some (malformed line)
  | some (.namespaceMismatch wanted found) => some (mismatch wanted found)
  | some _ => none

/-- The events that a file gives, and where reading it stops. -/
inductive Reads (expected : Option Namespace) (content : Bytes) : List Event → Halt → Prop where
  | notText (hcontent : ∀ text, content ≠ Utf8.encode text) :
      Reads expected content [] (.malformed 0)
  | noHeader (hlines : HasLines content []) : Reads expected content [] (.malformed 0)
  | badHeader {words : List String} {number : Nat} {body : List (List String × Nat)}
      (hlines : HasLines content ((words, number) :: body))
      (hheader : ∀ header, ¬HeaderWords words header) :
      Reads expected content [] (.malformed number)
  | otherNamespace {words : List String} {number : Nat} {body : List (List String × Nat)}
      {header : Header} {wanted : Namespace}
      (hlines : HasLines content ((words, number) :: body)) (hheader : HeaderWords words header)
      (hexpected : expected = some wanted) (hother : wanted ≠ header.ns) :
      Reads expected content [] (.mismatch wanted header.ns)
  | badLine {header : Header} {above below : List (List String × Nat)} {words : List String}
      {number : Nat} {directives : List Directive}
      (hopens : Opens expected content header (above ++ (words, number) :: below))
      (habove : Spells header.version above directives)
      (hline : ∀ d, ¬DirectiveWords header.version words d) :
      Reads expected content (.header header.ns :: directives.map .directive) (.malformed number)
  | complete {header : Header} {body : List (List String × Nat)} {directives : List Directive}
      (hopens : Opens expected content header body)
      (hbody : Spells header.version body directives) :
      Reads expected content (.header header.ns :: directives.map .directive) .complete

/-! ### The lines of a file -/

section Lines

variable {expected : Option Namespace} {content : Bytes} {text : List Char} {header : Header}
  {body : List (List String × Nat)}

theorem decodeText_eq_ok_iff : decodeText content = .ok text ↔ content = Utf8.encode text := by
  rw [← Utf8.decode_eq_ok_iff, decodeText]
  cases Utf8.decode content with
  | ok found => simp only [Except.ok.injEq]
  | error fault => simp only [reduceCtorEq]

theorem decodeText_eq_error {fault : DirectiveFault} (h : decodeText content = .error fault) :
    ∃ cause, fault = .malformed 0 cause := by
  unfold decodeText at h
  split at h
  next => cases h
  next =>
    cases h
    exact ⟨_, rfl⟩

/-- The lines of a file that has some are those that the reader looks at. -/
theorem significantLines_of_hasLines {words : List String} {number : Nat}
    (h : HasLines content ((words, number) :: body)) :
    ∃ text first rest, decodeText content = .ok text ∧ significantLines text = first :: rest ∧
      words = first.first :: first.rest ∧ number = first.number ∧
      body = rest.map SignificantLine.numbered := by
  rcases h with ⟨text, hcontent, hrows⟩
  rw [numberedWords_eq, List.map_eq_cons_iff] at hrows
  rcases hrows with ⟨first, rest, hlines, hfirst, hrest⟩
  cases hfirst
  exact ⟨text, first, rest, decodeText_eq_ok_iff.mpr hcontent, hlines, rfl, rfl, hrest.symm⟩

/-- The lines that the reader looks at are those of the file. -/
theorem hasLines_of_significantLines (hdecode : decodeText content = .ok text)
    {lines : List SignificantLine} (hlines : significantLines text = lines) :
    HasLines content (lines.map SignificantLine.numbered) := by
  refine ⟨text, decodeText_eq_ok_iff.mp hdecode, ?_⟩
  rw [numberedWords_eq, hlines]

theorem version_of_headerWords {words : List String} (h : HeaderWords words header) :
    header.version = 1 ∨ header.version = 2 := by
  rcases h with ⟨_, -, _, _, _, -, -, ⟨hversion, -⟩ | ⟨hversion, -⟩⟩
  · exact Or.inl hversion
  · exact Or.inr hversion

/-- The reader takes for directives the lines that are some. -/
theorem spells_iff {version : Nat} (hversion : version = 1 ∨ version = 2)
    (lines : List SignificantLine) (directives : List Directive) :
    Spells version (lines.map SignificantLine.numbered) directives ↔
      Parsed version lines directives := by
  rw [Spells, Parsed, List.forall₂_map_left_iff, ← List.forall₂_eq_eq_eq,
    List.forall₂_map_left_iff, List.forall₂_map_right_iff]
  simp only [SignificantLine.numbered, directiveWords_iff hversion]

/-- Of a file that opens, the reader looks at the lines below the header. -/
theorem readEvents_of_opens (h : Opens expected content header body) :
    (header.version = 1 ∨ header.version = 2) ∧ ∃ rest : List SignificantLine,
      body = rest.map SignificantLine.numbered ∧
      readEvents content expected = (readBody header.version rest).cons (.header header.ns) := by
  rcases h with ⟨words, number, hlines, hheader, hexpected⟩
  rcases significantLines_of_hasLines hlines with
    ⟨text, first, rest, hdecode, hsignificant, rfl, -, hbody⟩
  refine ⟨version_of_headerWords hheader, rest, hbody, ?_⟩
  exact readEvents_of_header hdecode hsignificant ((headerWords_iff _ _).mp hheader)
    ((checkExpected_eq_ok_iff _ _).mpr hexpected)

end Lines

/-! ### Ways to read a file -/

section Ways

variable {expected : Option Namespace} {content : Bytes} {events : List Event} {halt : Halt}

/-- The reader gives what a way to read the file gives, and stops where it does. -/
theorem readEvents_of_reads (h : Reads expected content events halt) :
    (readEvents content expected).events = events ∧
      Halt.ofFault? (readEvents content expected).fault = some halt := by
  -- One case for each way to end. The grammar and the reader test the same things in this order.
  cases h with
  | notText hcontent =>
      cases hdecode : decodeText content with
      | ok text => exact absurd (decodeText_eq_ok_iff.mp hdecode) (hcontent text)
      | error fault =>
          rcases decodeText_eq_error hdecode with ⟨cause, rfl⟩
          rw [readEvents_of_badText hdecode]
          exact ⟨rfl, rfl⟩
  | noHeader hlines =>
      rcases hlines with ⟨text, hcontent, hrows⟩
      rw [numberedWords_eq, List.map_eq_nil_iff] at hrows
      rw [readEvents_of_noLines (decodeText_eq_ok_iff.mpr hcontent) hrows]
      exact ⟨rfl, rfl⟩
  | badHeader hlines hheader =>
      rcases significantLines_of_hasLines hlines with
        ⟨text, first, rest, hdecode, hsignificant, rfl, rfl, -⟩
      cases hparse : parseHeader first with
      | ok header => exact absurd ((headerWords_iff _ _).mpr hparse) (hheader header)
      | error fault =>
          rcases parseHeader_eq_error hparse with ⟨cause, rfl⟩
          rw [readEvents_of_badHeader hdecode hsignificant hparse]
          exact ⟨rfl, rfl⟩
  | otherNamespace hlines hheader hexpected hother =>
      rcases significantLines_of_hasLines hlines with
        ⟨text, first, rest, hdecode, hsignificant, rfl, -, -⟩
      have hparse := (headerWords_iff _ _).mp hheader
      rw [hexpected, readEvents_of_unexpected hdecode hsignificant hparse
        (checkExpected_of_ne hother)]
      exact ⟨rfl, rfl⟩
  | badLine hopens habove hline =>
      rcases readEvents_of_opens hopens with ⟨hversion, rest, hbody, hevents⟩
      -- The lines that the reader looks at part where those of the grammar do.
      rcases List.append_eq_map_iff.mp hbody with ⟨above, tail, rfl, rfl, htail⟩
      rcases List.map_eq_cons_iff.mp htail with ⟨line, below, rfl, hrow, rfl⟩
      cases hrow
      rw [spells_iff hversion] at habove
      cases hparse : parseDirective _ line with
      | ok d => exact absurd ((directiveWords_iff hversion _ _).mpr hparse) (hline d)
      | error fault =>
          rcases parseDirective_eq_error hparse with ⟨cause, rfl⟩
          rw [hevents, readBody_of_refused habove hparse]
          exact ⟨rfl, rfl⟩
  | complete hopens hbody =>
      rcases readEvents_of_opens hopens with ⟨hversion, rest, rfl, hevents⟩
      rw [spells_iff hversion] at hbody
      rw [hevents, readBody_of_parsed hbody]
      exact ⟨rfl, rfl⟩

/-- There is a way to read every file. -/
theorem exists_reads (expected : Option Namespace) (content : Bytes) :
    ∃ events halt, Reads expected content events halt := by
  -- The steps of the reader one after the other. Whatever goes wrong in one of them is wrong by the
  -- grammar, since the reader accepts all that is right.
  cases hdecode : decodeText content with
  | error fault =>
      refine ⟨_, _, .notText (fun text hcontent => ?_)⟩
      rw [decodeText_eq_ok_iff.mpr hcontent] at hdecode
      cases hdecode
  | ok text =>
      cases hsignificant : significantLines text with
      | nil => exact ⟨_, _, .noHeader (hasLines_of_significantLines hdecode hsignificant)⟩
      | cons first rest =>
          have hlines := hasLines_of_significantLines hdecode hsignificant
          cases hparse : parseHeader first with
          | error fault =>
              refine ⟨_, _, .badHeader hlines (fun header hheader => ?_)⟩
              rw [(headerWords_iff _ _).mp hheader] at hparse
              cases hparse
          | ok header =>
              have hheader := (headerWords_iff _ _).mpr hparse
              have hversion := version_of_headerWords hheader
              by_cases hexpected : ∀ wanted, expected = some wanted → wanted = header.ns
              · -- The file opens, so that it is up to the lines below.
                rcases parsed_or_refused header.version rest with ⟨directives, hparsed⟩ |
                  ⟨above, line, below, directives, fault, rfl, habove, hrefused⟩
                · exact ⟨_, _, .complete ⟨_, _, hlines, hheader, hexpected⟩
                    ((spells_iff hversion _ _).mpr hparsed)⟩
                · rw [List.map_cons, List.map_append, List.map_cons] at hlines
                  refine ⟨_, _, .badLine ⟨_, _, hlines, hheader, hexpected⟩
                    ((spells_iff hversion _ _).mpr habove) (fun d hline => ?_)⟩
                  rw [(directiveWords_iff hversion _ _).mp hline] at hrefused
                  cases hrefused
              · push Not at hexpected
                rcases hexpected with ⟨wanted, hexpected, hother⟩
                exact ⟨_, _, .otherNamespace hlines hheader hexpected hother⟩

/-- There are no two ways to read a file. -/
theorem reads_unique {events' : List Event} {halt' : Halt} (h : Reads expected content events halt)
    (h' : Reads expected content events' halt') : events' = events ∧ halt' = halt := by
  -- Both ways are the one that the reader goes, so that their cases need not be compared.
  rcases readEvents_of_reads h with ⟨hevents, hhalt⟩
  rcases readEvents_of_reads h' with ⟨hevents', hhalt'⟩
  exact ⟨hevents'.symm.trans hevents, Option.some.inj (hhalt'.symm.trans hhalt)⟩

end Ways

/-! ### Consumers -/

section Delivery

variable {σ : Type} {sink : Sink σ} {start : σ}

/-- A consumer that accepts every event of a stream is left with the fault of the stream. -/
theorem deliverEvents_of_accepted {events : List Event} {final : σ}
    (h : events.foldlM sink start = .ok final) (fault : Option DirectiveFault) :
    EventStream.deliverEvents sink fault start events = (final, fault) := by
  induction events generalizing start with
  | nil =>
      cases h
      rfl
  | cons event rest ih =>
      rw [List.foldlM_cons] at h
      cases hevent : sink start event with
      | error refusal =>
          rw [hevent] at h
          cases h
      | ok next =>
          rw [hevent] at h
          simp only [EventStream.deliverEvents, hevent]
          -- The rest is delivered from the state that the first event left.
          exact ih h

/-- An event that a consumer refuses is the last one that it sees. -/
theorem deliverEvents_of_refused {taken rest : List Event} {event : Event} {state : σ}
    {refusal : DirectiveFault} (htaken : taken.foldlM sink start = .ok state)
    (hevent : sink state event = .error refusal) (fault : Option DirectiveFault) :
    EventStream.deliverEvents sink fault start (taken ++ event :: rest) =
      (state, some refusal) := by
  induction taken generalizing start with
  | nil =>
      cases htaken
      -- The refused event is the next one, and nothing after it is delivered.
      simp only [List.nil_append, EventStream.deliverEvents, hevent]
  | cons first taken ih =>
      rw [List.foldlM_cons] at htaken
      cases hfirst : sink start first with
      | error refusal =>
          rw [hfirst] at htaken
          cases htaken
      | ok next =>
          rw [hfirst] at htaken
          simp only [List.cons_append, EventStream.deliverEvents, hfirst]
          exact ih htaken

/-- A consumer accepts every event, or there is a first one that it refuses. -/
theorem accepted_or_refused (sink : Sink σ) (start : σ) (events : List Event) :
    (∃ final, events.foldlM sink start = .ok final) ∨
      ∃ taken event rest state refusal, events = taken ++ event :: rest ∧
        taken.foldlM sink start = .ok state ∧ sink state event = .error refusal := by
  induction events generalizing start with
  | nil => exact Or.inl ⟨start, rfl⟩
  | cons event rest ih =>
      cases hevent : sink start event with
      | error refusal => exact Or.inr ⟨[], event, rest, start, refusal, rfl, rfl, hevent⟩
      | ok next =>
          -- What was accepted in front changes where the rest starts, and nothing else.
          have hfold : ∀ later, (event :: later).foldlM sink start = later.foldlM sink next := by
            intro later
            rw [List.foldlM_cons, hevent]
            rfl
          rcases ih next with ⟨final, hrest⟩ | ⟨taken, refused, later, state, refusal, hrest,
            htaken, hrefused⟩
          · exact Or.inl ⟨final, (hfold rest).trans hrest⟩
          · refine Or.inr ⟨event :: taken, refused, later, state, refusal, ?_,
              (hfold taken).trans htaken, hrefused⟩
            rw [hrest, List.cons_append]

/-- Delivery of a stream ends with its fault if every event is accepted, and otherwise at the first
    event that is refused. -/
theorem exists_delivery (sink : Sink σ) (start : σ) (stream : EventStream) :
    (∃ final, stream.events.foldlM sink start = .ok final ∧
        stream.deliver sink start = (final, stream.fault)) ∨
      ∃ taken event rest state refusal, stream.events = taken ++ event :: rest ∧
        taken.foldlM sink start = .ok state ∧ sink state event = .error refusal ∧
        stream.deliver sink start = (state, some refusal) := by
  rcases accepted_or_refused sink start stream.events with ⟨final, haccepted⟩ |
    ⟨taken, event, rest, state, refusal, hevents, htaken, hrefused⟩
  · exact Or.inl ⟨final, haccepted, deliverEvents_of_accepted haccepted _⟩
  · refine Or.inr ⟨taken, event, rest, state, refusal, hevents, htaken, hrefused, ?_⟩
    rw [EventStream.deliver, hevents]
    exact deliverEvents_of_refused htaken hrefused _

end Delivery

/-! ### Reading to an end -/

theorem Halt.ofFault?_eq_complete_iff (fault : Option DirectiveFault) :
    ofFault? fault = some complete ↔ fault = none := by
  constructor
  · intro h
    unfold ofFault? at h
    split at h
    next => rfl
    all_goals cases h
  · rintro rfl
    rfl

/-- A reader is without a fault exactly for the files that open and hold directives only, and gives
    the header and the directives. -/
theorem readEvents_eq_iff (expected : Option Namespace) (content : Bytes) (events : List Event) :
    readEvents content expected = { events } ↔ ∃ header body directives,
      Opens expected content header body ∧ Spells header.version body directives ∧
        events = .header header.ns :: directives.map .directive := by
  constructor
  · intro h
    rcases exists_reads expected content with ⟨given, halt, hreads⟩
    rcases readEvents_of_reads hreads with ⟨hevents, hhalt⟩
    rw [h] at hevents hhalt
    cases hhalt
    -- There is one way that stops nowhere.
    cases hreads with
    | complete hopens hbody => exact ⟨_, _, _, hopens, hbody, hevents⟩
  · rintro ⟨header, body, directives, hopens, hbody, rfl⟩
    rcases readEvents_of_reads (.complete hopens hbody) with ⟨hevents, hhalt⟩
    rw [Halt.ofFault?_eq_complete_iff] at hhalt
    rw [← hevents, ← hhalt]

/-- Reading a file succeeds if and only if it is text that opens with a header the reader is content
    with, every line below is a directive, and the consumer accepts the header and the directives.
    There is one way to read every file, and the consumer is handed the events that this way gives:
    all of them, and then reading stops where the way does, or those up to the first that it
    refuses, and then reading stops with the refusal. -/
theorem deliver_up_to_first_fault {σ : Type} (sink : Sink σ) (start : σ) (content : Bytes)
    (expected : Option Namespace) :
    (∀ final, (readEvents content expected).deliver sink start = (final, none) ↔
      ∃ header body directives, Opens expected content header body ∧
        Spells header.version body directives ∧
        (Event.header header.ns :: directives.map .directive).foldlM sink start = .ok final) ∧
    ∃ events halt, Reads expected content events halt ∧
      (∀ events' halt', Reads expected content events' halt' → events' = events ∧ halt' = halt) ∧
      ((∃ final fault, events.foldlM sink start = .ok final ∧ Halt.ofFault? fault = some halt ∧
          (readEvents content expected).deliver sink start = (final, fault)) ∨
        ∃ taken event rest state refusal, events = taken ++ event :: rest ∧
          taken.foldlM sink start = .ok state ∧ sink state event = .error refusal ∧
          (readEvents content expected).deliver sink start = (state, some refusal)) := by
  have hdelivery := exists_delivery sink start (readEvents content expected)
  constructor
  · intro final
    constructor
    · intro hdeliver
      -- A refusal is a fault, so every event was accepted and the stream itself has none.
      rcases hdelivery with ⟨final', haccepted, hend⟩ | ⟨_, _, _, _, _, -, -, -, hend⟩
      · rw [hdeliver, Prod.mk.injEq] at hend
        rcases hend with ⟨rfl, hfault⟩
        have hread : readEvents content expected =
            { events := (readEvents content expected).events } := by
          rw [hfault]
        rcases (readEvents_eq_iff _ _ _).mp hread with
          ⟨header, body, directives, hopens, hbody, hevents⟩
        rw [hevents] at haccepted
        exact ⟨header, body, directives, hopens, hbody, haccepted⟩
      · rw [hdeliver] at hend
        cases hend
    · rintro ⟨header, body, directives, hopens, hbody, haccepted⟩
      rw [(readEvents_eq_iff _ _ _).mpr ⟨header, body, directives, hopens, hbody, rfl⟩]
      exact deliverEvents_of_accepted haccepted none
  · rcases exists_reads expected content with ⟨events, halt, hreads⟩
    rcases readEvents_of_reads hreads with ⟨rfl, hhalt⟩
    -- The events are those of the reader, so the delivery is one of them or of a beginning of them.
    refine ⟨_, halt, hreads, fun _ _ hreads' => reads_unique hreads hreads', ?_⟩
    rcases hdelivery with ⟨final, haccepted, hend⟩ | hrefused
    · exact Or.inl ⟨final, _, haccepted, hhalt, hend⟩
    · exact Or.inr hrefused

/-- Comments, blank lines and lines that end in a carriage return are counted. The fifth line is
    blamed, after the directive of the fourth and before that of the sixth. -/
example : readEvents (Utf8.encodeString ("# é\r\n\naccessWidener v+02 named#x\r\n" ++
      "transitive-extendable class a/B # b\nbogus class a/C\nmutable field a/D f I")) =
    { events := [.header .named, .directive ⟨.type "a/B", .extendable, true⟩],
      fault := some (.malformed 5 (.unknownAccess "bogus")) } := by
  decide +kernel

end AccessWidener
