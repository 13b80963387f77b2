import AccessWidener.Proofs.Directive.Joins

/-!
# The History of a Directive Set

A set starts out empty, perhaps with a namespace, and then takes in requests, headers, files and
other sets. A header may be refused, a file may be broken off, and a set that is spelled in another
namespace is not taken in at all; whoever fills the set can go on all the same. `DirectiveSet.History`
is a record of what was tried. As the sets that were united have histories of their own, it is a tree.

The set can be read off the record without going through the steps. Its namespace is the first that
anyone declared, and it is never given up. Its grants are what the accepted requests come to: each
step adds the requests that it brings to the collection, all of them or, where the namespace is
refused, none.

A set is changed in place, and so it matters what a change has done by the time it fails. Uniting
takes up the namespace of the other set before the first of its grants. That is the one thing that
can fail, and nothing has been done by then.

## Main definitions

* `DirectiveSet.History`: How a set came about.
* `History.set`: The set that a history leads to.
* `History.declared`, `History.given`: The namespaces declared in it, and the requests accepted.
* `History.Continues`: A history that goes on from another.
* `Change`: A change in place, such as `Change.adopt` and `Change.absorb`.

## Theorems

* `declare_of_admits`, `declare_of_not_admits`: Which namespaces a set takes up.
* `run_adopt`, `run_absorb`: Declaring and uniting in place.
* `History.ns_set`, `History.joins_given`: What a set is, by its history.
* `History.ns_of_continues`: A namespace is never given up.
* `History.set_exact`: A set is the join of what was accepted.
-/

namespace AccessWidener

namespace DirectiveSet

/-- How a set came about. The steps were tried one after the other, whether or not they failed. -/
inductive History where
  | empty
  | inNamespace (ns : Namespace)
  | insert (before : History) (d : Directive)
  | header (before : History) (ns : Namespace)
  | read (before : History) (content : Bytes) (expected : Option Namespace)
  | union (before other : History)

/-- The set after a step that may have been refused and then has left it as it was. -/
def orKeep (set : DirectiveSet) : Except DirectiveFault DirectiveSet → DirectiveSet
  | .ok next => next
  | .error _ => set

/-- Whether a set that has one namespace, or none, takes up another one, or none. -/
def admits : Option Namespace → Option Namespace → Bool
  | some held, some found => held = found
  | _, _ => true

namespace History

/-- The set that a history leads to. A file that could not be read to its end counts with what was
    read of it. -/
def set : History → DirectiveSet
  | empty => .empty
  | inNamespace ns => .inNamespace ns
  | insert before d => before.set.insert d
  | header before ns => before.set.orKeep (visit before.set (.header ns))
  | read before content expected =>
    ((readEvents content expected).deliver visit before.set).1
  | union before other => before.set.orKeep (before.set.union other.set)

/-- The namespaces that were declared, in order, whether or not they were taken up. A set that is
    united declares the one that was declared for it first. -/
def declared : History → List Namespace
  | empty => []
  | inNamespace ns => [ns]
  | insert before _ => before.declared
  | header before ns => before.declared ++ [ns]
  | read before content expected =>
    before.declared ++ (readEvents content expected).ns?.toList
  | union before other => before.declared ++ other.declared.head?.toList

/-- The requests that were accepted, in order. Those of a file or a set are accepted if its namespace
    is; of a file that could not be read to its end, they are those above the fault. -/
def given : History → List Directive
  | empty => []
  | inNamespace _ => []
  | insert before d => before.given ++ [d]
  | header before _ => before.given
  | read before content expected =>
    before.given ++
      if admits before.declared.head? (readEvents content expected).ns? then
        (readEvents content expected).directives
      else []
  | union before other =>
    before.given ++ if admits before.declared.head? other.declared.head? then other.given else []

/-- A history that goes on from another one. -/
inductive Continues (start : History) : History → Prop
  | refl : Continues start start
  | insert {later : History} (held : Continues start later) (d : Directive) :
      Continues start (later.insert d)
  | header {later : History} (held : Continues start later) (ns : Namespace) :
      Continues start (later.header ns)
  | read {later : History} (held : Continues start later) (content : Bytes)
      (expected : Option Namespace) : Continues start (later.read content expected)
  | union {later : History} (held : Continues start later) (other : History) :
      Continues start (later.union other)

end History

variable {set other : DirectiveSet}

/-! ### Namespaces -/

/-- A set takes up a namespace that it admits, and keeps the one that it has. -/
theorem declare_of_admits {found : Option Namespace} (h : admits set.ns found = true) :
    set.declare found = .ok { set with ns := set.ns.or found } := by
  rcases set with ⟨held, grants⟩
  cases found with
  | none => rw [declare, Option.or_none]
  | some ns =>
      cases held with
      | none => rfl
      | some expected =>
          simp only [admits, decide_eq_true_eq] at h
          simp only [declare, h, if_true, Option.some_or]

/-- A namespace that a set does not admit is another than the one it has, and is refused for it. -/
theorem declare_of_not_admits {found : Option Namespace} (h : admits set.ns found = false) :
    ∃ held ns, set.ns = some held ∧ found = some ns ∧
      set.declare found = .error (.namespaceMismatch held ns) := by
  rcases set with ⟨held, grants⟩
  cases held with
  | none => cases h
  | some expected =>
      cases found with
      | none => cases h
      | some ns =>
          simp only [admits, decide_eq_false_iff_not] at h
          exact ⟨expected, ns, rfl, rfl, if_neg h⟩

/-- Sets can be united if the first one admits the namespace of the other one. -/
theorem exists_union_of_admits (h : admits set.ns other.ns = true) :
    ∃ merged, set.union other = .ok merged := by
  rw [exists_union_iff, ← exists_declare_iff]
  exact ⟨_, declare_of_admits h⟩

theorem union_of_not_admits (h : admits set.ns other.ns = false) :
    ∃ held ns, set.ns = some held ∧ other.ns = some ns ∧
      set.union other = .error (.namespaceMismatch held ns) := by
  rcases declare_of_not_admits h with ⟨held, ns, hheld, hns, hdeclare⟩
  refine ⟨held, ns, hheld, hns, ?_⟩
  rw [union, hdeclare]
  rfl

/-! ### Changes in place -/

/-- A change that is made to a set in place. If it fails, the set is left as far as it has come. -/
abbrev Change := EStateM DirectiveFault DirectiveSet Unit

namespace Change

/-- Takes up a namespace, or refuses it. -/
def adopt : Option Namespace → Change
  | none => pure ()
  | some found => do
    match (← get).ns with
    | none => modify fun set => { set with ns := some found }
    | some expected =>
      if expected = found then pure () else throw (.namespaceMismatch expected found)

/-- Takes up the namespace of another set, and then its grants, one after the other. -/
def absorb (other : DirectiveSet) : Change := do
  adopt other.ns
  other.toList.forM fun entry => modify fun set => set.insertGrant entry.1 entry.2

/-- What is left of a set after a change that came to a new set, or failed and changed nothing. -/
def settled (set : DirectiveSet) :
    Except DirectiveFault DirectiveSet → EStateM.Result DirectiveFault DirectiveSet Unit
  | .ok next => .ok () next
  | .error fault => .error fault set

end Change

/-- Declaring a namespace in place either succeeds or leaves the set alone. -/
theorem run_adopt (set : DirectiveSet) (ns : Option Namespace) :
    (Change.adopt ns).run set = Change.settled set (set.declare ns) := by
  rcases set with ⟨held, grants⟩
  cases ns with
  | none => rfl
  | some found =>
      cases held with
      | none => rfl
      | some expected =>
          -- Only a second namespace can be refused, and it is if it is another one.
          by_cases heq : expected = found
          · simp only [declare, if_pos heq]
            change (if expected = found then pure () else _ : Change).run _ = _
            rw [if_pos heq]
            rfl
          · simp only [declare, if_neg heq]
            change (if expected = found then pure () else _ : Change).run _ = _
            rw [if_neg heq]
            rfl

theorem run_forM_insertGrant (set : DirectiveSet) (entries : List (Target × Grant)) :
    EStateM.run (entries.forM fun entry =>
        (modify fun held => held.insertGrant entry.1 entry.2 : Change)) set =
      .ok () (entries.foldl (fun held entry => held.insertGrant entry.1 entry.2) set) := by
  induction entries generalizing set with
  | nil => rfl
  | cons entry rest ih => exact ih (set.insertGrant entry.1 entry.2)

/-- Uniting in place either succeeds or leaves the set alone. -/
theorem run_absorb (set other : DirectiveSet) :
    (Change.absorb other).run set = Change.settled set (set.union other) := by
  have hadopt := run_adopt set other.ns
  rw [Change.absorb, union]
  cases hdeclare : set.declare other.ns with
  | error fault =>
      -- The namespace comes first, and nothing was inserted yet.
      rw [hdeclare, Change.settled] at hadopt
      simp only [EStateM.run] at hadopt
      simp only [EStateM.run, bind, EStateM.bind, hadopt, Except.bind, Change.settled]
  | ok declared =>
      rw [hdeclare, Change.settled] at hadopt
      simp only [EStateM.run] at hadopt
      simp only [EStateM.run, bind, EStateM.bind, hadopt, Except.bind]
      exact run_forM_insertGrant declared other.toList

/-! ### Steps -/

/-- A namespace that is not admitted does not take the place of the one that is there. -/
theorem or_eq_of_not_admits {held found : Option Namespace} (h : admits held found = false) :
    held.or found = held := by
  cases held with
  | none => cases h
  | some ns => rfl

theorem ns_orKeep_declare (set : DirectiveSet) (found : Option Namespace) :
    (set.orKeep (set.declare found)).ns = set.ns.or found := by
  cases hadmits : admits set.ns found with
  | true =>
      rw [declare_of_admits hadmits]
      rfl
  | false =>
      rcases declare_of_not_admits hadmits with ⟨_, _, -, -, hfault⟩
      rw [hfault, or_eq_of_not_admits hadmits]
      rfl

theorem grants_orKeep_declare (set : DirectiveSet) (found : Option Namespace) :
    (set.orKeep (set.declare found)).grants = set.grants := by
  cases hdeclare : set.declare found with
  | ok declared => exact (declare_eq_ok hdeclare).1
  | error fault => rfl

theorem ns_orKeep_union (set other : DirectiveSet) :
    (set.orKeep (set.union other)).ns = set.ns.or other.ns := by
  cases hadmits : admits set.ns other.ns with
  | true =>
      rcases exists_union_of_admits hadmits with ⟨merged, hunion⟩
      rw [hunion]
      exact ns_union hunion
  | false =>
      rcases union_of_not_admits hadmits with ⟨_, _, -, -, hfault⟩
      rw [hfault, or_eq_of_not_admits hadmits]
      rfl

namespace History

/-- A file is read into a set if its namespace is admitted, and not at all otherwise. -/
theorem set_read (before : History) (content : Bytes) (expected : Option Namespace) :
    (before.read content expected).set =
      if admits before.set.ns (readEvents content expected).ns? then
        (readEvents content expected).directives.foldl DirectiveSet.insert
          { before.set with ns := before.set.ns.or (readEvents content expected).ns? }
      else before.set := by
  rw [set, readEvents_eq_headed content expected, EventStream.deliver_set,
    EventStream.ns?_headed, EventStream.directives_headed]
  cases hadmits : admits before.set.ns (readEvents content expected).ns? with
  | true => rw [declare_of_admits hadmits, if_pos rfl]
  | false =>
      rcases declare_of_not_admits hadmits with ⟨_, _, -, -, hfault⟩
      rw [hfault, if_neg Bool.false_ne_true]

theorem ns_set_read (before : History) (content : Bytes) (expected : Option Namespace) :
    (before.read content expected).set.ns =
      before.set.ns.or (readEvents content expected).ns? := by
  rw [set_read]
  cases hadmits : admits before.set.ns (readEvents content expected).ns? with
  | true => rw [if_pos rfl, ns_foldl_insert]
  | false => rw [if_neg Bool.false_ne_true, or_eq_of_not_admits hadmits]

/-- The namespace of a set is the first that was declared for it. -/
theorem ns_set (h : History) : h.set.ns = h.declared.head? := by
  -- Each step offers its namespaces after those of the steps before, and the set keeps the first.
  induction h with
  | empty => rfl
  | inNamespace ns => rfl
  | insert before d ih => exact ih
  | header before ns ih =>
      have hstep := ns_orKeep_declare before.set (some ns)
      rw [declared, List.head?_append, ← ih]
      exact hstep
  | read before content expected ih =>
      rw [ns_set_read, declared, List.head?_append, Option.head?_toList, ih]
  | union before other ih ihOther =>
      have hstep := ns_orKeep_union before.set other.set
      rw [declared, List.head?_append, Option.head?_toList, ← ih, ← ihOther]
      exact hstep

/-- A set holds what the accepted requests come to. -/
theorem joins_given (h : History) : h.set.Joins h.given := by
  induction h with
  | empty => exact joins_nil rfl
  | inNamespace ns => exact joins_nil rfl
  | insert before d ih => exact ih.insert d
  | header before ns ih => exact ih.of_grants_eq (grants_orKeep_declare before.set (some ns))
  | read before content expected ih =>
      rw [set_read, given, ← ns_set]
      split
      · have hdeclared : DirectiveSet.Joins
            { before.set with ns := before.set.ns.or (readEvents content expected).ns? }
            before.given := ih.of_grants_eq rfl
        exact hdeclared.foldl_insert _
      · rw [List.append_nil]
        exact ih
  | union before other ih ihOther =>
      rw [set, given, ← ns_set, ← ns_set]
      cases hadmits : admits before.set.ns other.set.ns with
      | true =>
          rcases exists_union_of_admits hadmits with ⟨merged, hunion⟩
          rw [hunion, if_pos rfl]
          exact ih.union ihOther hunion
      | false =>
          -- The other set is refused as a whole, and none of its requests counts.
          rcases union_of_not_admits hadmits with ⟨_, _, -, -, hfault⟩
          rw [hfault, if_neg Bool.false_ne_true, List.append_nil]
          exact ih

/-- A history that goes on adds to what was declared, and takes nothing away. -/
theorem declared_prefix {start later : History} (h : start.Continues later) :
    start.declared <+: later.declared := by
  induction h with
  | refl => exact List.prefix_rfl
  | insert held d ih => exact ih
  | header held ns ih => exact ih.trans (List.prefix_append _ _)
  | read held content expected ih => exact ih.trans (List.prefix_append _ _)
  | union held other ih => exact ih.trans (List.prefix_append _ _)

/-- A namespace is never given up. -/
theorem ns_of_continues {start later : History} (h : start.Continues later) {ns : Namespace}
    (hns : start.set.ns = some ns) : later.set.ns = some ns := by
  rw [ns_set] at hns ⊢
  rcases declared_prefix h with ⟨more, hmore⟩
  rw [← hmore, List.head?_append, hns, Option.some_or]

/-- A set is the exact join of all that was accepted in its history. It has a target if and only if
    some accepted request names it, and then grants the levels that these requests ask for, and
    exports those that they export. So no grant is empty, and nothing is exported that is not granted.
    Histories in which the same requests were accepted lead to the same grants, in whatever order,
    however often and by whatever steps the requests came. The namespace is the first that was
    declared, and stays however the history goes on. Declaring a namespace and uniting sets, done in
    place, either succeed or leave the set as it was. -/
theorem set_exact (h : History) :
    (∀ target, (∃ grant, h.set.get? target = some grant) ↔ ∃ d ∈ h.given, d.target = target) ∧
    (∀ target grant, h.set.get? target = some grant →
      (∀ level, grant.access.contains level = true ↔
        ∃ d ∈ h.given, d.target = target ∧ d.access = level) ∧
      (∀ level, grant.transitive.contains level = true ↔
        ∃ d ∈ h.given, d.target = target ∧ d.access = level ∧ d.transitive = true) ∧
      grant.access.isEmpty = false ∧
      ∀ level, grant.transitive.contains level = true → grant.access.contains level = true) ∧
    (∀ other : History, (∀ d, d ∈ other.given ↔ d ∈ h.given) →
      other.set.grants = h.set.grants) ∧
    h.set.ns = h.declared.head? ∧
    (∀ later, h.Continues later → ∀ ns, h.set.ns = some ns → later.set.ns = some ns) ∧
    (∀ ns, (Change.adopt (some ns)).run h.set =
      Change.settled h.set (visit h.set (.header ns))) ∧
    ∀ other : History, (Change.absorb other.set).run h.set =
      Change.settled h.set (h.set.union other.set) := by
  -- Everything about grants follows from this: the set holds exactly the levels that were given.
  have hjoins := h.joins_given
  refine ⟨fun target => ?_, fun target grant hget => ?_, fun other hsame => ?_, h.ns_set,
    fun later hlater ns => ns_of_continues hlater, fun ns => run_adopt h.set (some ns),
    fun other => run_absorb h.set other.set⟩
  · rw [← Option.ne_none_iff_exists', Ne, hjoins.absent]
    simp only [Classical.not_forall, Decidable.not_not, ne_eq, exists_prop]
  · have hgrant := grantOf_eq_of_get? hget
    refine ⟨fun level => ?_, fun level => ?_, ?_, fun level hlevel => ?_⟩
    · -- A level is there if it was asked for, with a mark or without one.
      rw [← hgrant, hjoins.access]
      constructor
      · rintro ⟨mark, hd⟩
        exact ⟨_, hd, rfl, rfl⟩
      · rintro ⟨d, hd, rfl, rfl⟩
        exact ⟨d.transitive, hd⟩
    · -- A level is passed on if it was asked for with a mark.
      rw [← hgrant, hjoins.transitive]
      constructor
      · intro hd
        exact ⟨_, hd, rfl, rfl, rfl⟩
      · rintro ⟨⟨target, level, mark⟩, hd, rfl, rfl, rfl⟩
        exact hd
    · -- A target is in the set because of some request, and that request has a level.
      rcases hjoins.exists_level hget with ⟨level, hlevel⟩
      rw [← Bool.not_eq_true, AccessSet.isEmpty_iff]
      intro hempty
      rw [hempty level] at hlevel
      cases hlevel
    · rw [← hgrant] at hlevel ⊢
      exact hjoins.access_of_transitive hlevel
  · exact hjoins.grants_eq_of_sameLevels other.joins_given (sameLevels_of_mem_iff hsame)

end History

end DirectiveSet

end AccessWidener
