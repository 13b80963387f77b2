import AccessWidener.Proofs.Directive.History

/-!
# What a Set Exports

A set that was filled with requests of both kinds, private ones and ones for export, still knows
which is which. It keeps this for each level of a target and not for the target as a whole, so that a
private request never rides along with an exported one that names the same target. If a set is
replayed through the filter, what comes out is what the requests for export would have come to
alone, as if the private ones had never been there.

## Main definitions

* `DirectiveSet.exported`: A set replayed into a fresh one, without what is private.

## Theorems

* `deliver_exported`, `exported_eq`: Replaying through the filter has no fault, and what it gives.
* `Joins.exported`: A set exports what its requests for export come to.
* `exported_union`: Exporting commutes with uniting.
* `exported_exact`: Private requests leave no trace in what is exported.
-/

namespace AccessWidener

namespace DirectiveSet

/-- A set replayed into a fresh one, without what is private. -/
def exported (set : DirectiveSet) : DirectiveSet :=
  ((set.toStream.through onlyTransitive).deliver visit .empty).1

variable {set other : DirectiveSet} {asked asked' : List Directive}

/-- Replaying through the filter inserts the exported levels into a fresh set, under the namespace of
    the old one, and has no fault. -/
theorem deliver_replayed (set : DirectiveSet) :
    (set.toStream.through onlyTransitive).deliver visit .empty =
      ((set.replayed.filter (·.transitive)).foldl insert { ns := set.ns }, none) := by
  rw [toStream_eq_headed, EventStream.through_onlyTransitive, EventStream.deliver_empty]

theorem deliver_exported (set : DirectiveSet) :
    (set.toStream.through onlyTransitive).deliver visit .empty = (set.exported, none) := by
  rw [exported, deliver_replayed]

theorem exported_eq (set : DirectiveSet) :
    set.exported = (set.replayed.filter (·.transitive)).foldl insert { ns := set.ns } := by
  rw [exported, deliver_replayed]

theorem ns_exported (set : DirectiveSet) : set.exported.ns = set.ns := by
  rw [exported_eq, ns_foldl_insert]

/-- A set exports what its requests for export come to. -/
theorem Joins.exported (h : set.Joins asked) :
    set.exported.Joins (asked.filter (·.transitive)) := by
  have hfilter : ∀ (requests : List Directive) target level mark,
      (⟨target, level, mark⟩ : Directive) ∈ requests.filter (·.transitive) ↔
        (⟨target, level, mark⟩ : Directive) ∈ requests ∧ mark = true :=
    fun _ _ _ _ => List.mem_filter
  -- A level is replayed with the mark exactly if it was asked for with the mark.
  have hsame : SameLevels (set.replayed.filter (·.transitive)) (asked.filter (·.transitive)) := by
    intro target level
    have hmarked := (h.transitive target level).symm.trans (h.replayed.transitive target level)
    simp only [hfilter, exists_eq_right, and_true]
    exact ⟨hmarked, hmarked⟩
  have hreplayed := (joins_nil (rfl : ({ ns := set.ns } : DirectiveSet).grants = ∅)).foldl_insert
    (set.replayed.filter (·.transitive))
  rw [← exported_eq, List.nil_append] at hreplayed
  exact hreplayed.of_sameLevels hsame

/-- What a list of requests exports is the set of its requests for export. -/
theorem exported_ofDirectives (asked : List Directive) :
    (ofDirectives asked).exported = ofDirectives (asked.filter (·.transitive)) := by
  refine (joins_ofDirectives _).eq_of_sameLevels (joins_ofDirectives asked).exported
    (sameLevels_of_mem_iff fun _ => Iff.rfl) ?_
  rw [ns_exported, ofDirectives, ofDirectives, ns_foldl_insert, ns_foldl_insert]

/-- Exporting commutes with uniting, also in whether the sets can be united. -/
theorem exported_union (h : set.Joins asked) (h' : other.Joins asked') :
    set.exported.union other.exported = (set.union other).map exported := by
  have hns := set.ns_exported
  have hns' := other.ns_exported
  cases hadmits : admits set.ns other.ns with
  | true =>
      rcases exists_union_of_admits hadmits with ⟨merged, hunion⟩
      rw [← hns, ← hns'] at hadmits
      rcases exists_union_of_admits hadmits with ⟨united, hunited⟩
      rw [hunion, hunited]
      refine congrArg Except.ok ?_
      have hmerged := (h.union h' hunion).exported
      rw [List.filter_append] at hmerged
      refine hmerged.eq_of_sameLevels (h.exported.union h'.exported hunited)
        (sameLevels_of_mem_iff fun _ => Iff.rfl) ?_
      rw [ns_exported, ns_union hunited, ns_union hunion, hns, hns']
  | false =>
      -- Both unions are refused for the same two namespaces.
      rcases union_of_not_admits hadmits with ⟨held, ns, hheld, hfound, hunion⟩
      rw [← hns, ← hns'] at hadmits
      rcases union_of_not_admits hadmits with ⟨held', ns', hheld', hfound', hunited⟩
      rw [hns, hheld] at hheld'
      rw [hns', hfound] at hfound'
      cases hheld'
      cases hfound'
      rw [hunion, hunited]
      rfl

/-- Private requests leave no trace in what is exported. A set of requests that is replayed through
    the filter into a fresh set gives the set of its requests for export alone, and so it exports a
    target only if one of these names it, and of the target only the levels that these ask for. Lists
    of requests that differ in private ones only, or in order and number, export the same. And it
    makes no difference whether sets are united before or after, whatever their histories are. -/
theorem exported_exact :
    (∀ asked : List Directive,
      ((ofDirectives asked).toStream.through onlyTransitive).deliver visit .empty =
        (ofDirectives (asked.filter (·.transitive)), none)) ∧
    (∀ (asked : List Directive) (target : Target),
      ((ofDirectives asked).exported.get? target = none ↔
        ∀ d ∈ asked, d.target = target → d.transitive = false) ∧
      ∀ level,
        (((ofDirectives asked).exported.grantOf target).access.contains level = true ↔
          ⟨target, level, true⟩ ∈ asked) ∧
        (((ofDirectives asked).exported.grantOf target).transitive.contains level = true ↔
          ⟨target, level, true⟩ ∈ asked)) ∧
    (∀ asked asked' : List Directive,
      (∀ d : Directive, d.transitive = true → (d ∈ asked' ↔ d ∈ asked)) →
      (ofDirectives asked').exported = (ofDirectives asked).exported) ∧
    ∀ h h' : History, h.set.exported.union h'.set.exported =
      (h.set.union h'.set).map exported := by
  refine ⟨fun asked => ?_, fun asked target => ?_, fun asked asked' hsame => ?_, fun h h' => ?_⟩
  · rw [deliver_exported, exported_ofDirectives]
  · -- The export of a set collects the requests with a mark, so each level is asked of these.
    have hjoins := (joins_ofDirectives asked).exported
    refine ⟨?_, fun level => ⟨?_, ?_⟩⟩
    · rw [hjoins.absent]
      simp only [List.mem_filter, and_imp, ne_eq]
      refine forall₂_congr fun d _ => ?_
      rw [← Bool.not_eq_true]
      exact ⟨fun h htarget hmark => h hmark htarget, fun h hmark htarget => h htarget hmark⟩
    · simp only [hjoins.access, List.mem_filter, exists_eq_right]
    · simp only [hjoins.transitive, List.mem_filter, and_true]
  · -- Two exports of the same marked requests hold the same levels, and both are without a
    -- namespace.
    refine (joins_ofDirectives asked).exported.eq_of_sameLevels (joins_ofDirectives asked').exported
      (sameLevels_of_mem_iff fun d => ?_) ?_
    · rw [List.mem_filter, List.mem_filter]
      exact and_congr_left (hsame d)
    · rw [ns_exported, ns_exported, ofDirectives, ofDirectives, ns_foldl_insert, ns_foldl_insert]
  · exact exported_union h.joins_given h'.joins_given

end DirectiveSet

end AccessWidener
