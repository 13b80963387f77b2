import AccessWidener.ClassFile.Blueprint
import AccessWidener.Proofs.Widening.Writes

/-!
# Widening a Class File

A widener does to a class file what its directive set asks and nothing else. A file that does not
parse is given back with the fault of the parser. A file that parses keeps its length and every byte
that belongs to no flag word, and parses to its layout with the flags that are asked for. The order
in which the members of a plan come has no say in this, and the widener tells whether the file
changed.

The argument has two halves that meet in a list of writes. A class file that parses is a form, whose
blanks are its flag words and may be filled in anew without changing what else the parser sees
(`ClassLayout.parse_form`). The writes of a widener go to blanks only, to each at most once, and
they say what the set asks for (`Widener.refill_writes`).

## Theorems

* `patchClass_form`: Widening a class file fills in the blanks of its form.
* `patchClass_of_parse`, `parse_patchClass`: What becomes of a class file that parses.
* `patchClass_of_widened`: A class file that has the flags asked for is left as it is.
* `patchClass_order`: The order of members makes no difference.
* `patchClass_exact`: What becomes of any file.
-/

namespace AccessWidener

namespace Widener

variable {set : DirectiveSet} {widener : Widener}

/-- The blanks of a form stand apart, and so do the flag words of a layout that are its blanks. -/
theorem apart_of_sites {form : Form} {layout : ClassLayout}
    (hsites : Form.sites 0 form = layout.sites) : layout.Apart := by
  refine ClassLayout.apart_of_nodup ?_
  rw [← hsites]
  exact Form.nodup_offsets 0 form

/-- Widening a class file fills in the blanks of its form, by one rule in every order. -/
theorem patchClass_form {form : Form} {rest : Bytes} {layout : ClassLayout}
    (hparse : ClassLayout.parse (Form.bytes form ++ rest) = .ok layout)
    (hsites : Form.sites 0 form = layout.sites) (order : MemberOrder) :
    widener.patchClass (Form.bytes form ++ rest) order =
      (Form.bytes (Form.refill (overwriting (widener.writes .sorted layout)) 0 form) ++ rest,
        .ok (decide (Form.bytes (Form.refill (overwriting (widener.writes .sorted layout)) 0 form) ++
          rest ≠ Form.bytes form ++ rest))) := by
  have hapart : layout.Apart := apart_of_sites hsites
  have hmem : ∀ write ∈ widener.writes order layout,
      write.offset ∈ (Form.sites 0 form).map (·.offset) := by
    intro write hwrite
    rw [hsites]
    exact offset_mem_of_mem_writes hwrite
  -- The list of writes depends on the order, the rule that it amounts to does not.
  have hrule : overwriting (widener.writes order layout) =
      overwriting (widener.writes .sorted layout) :=
    overwriting_perm (writes_perm order) (nodup_writes hapart order)
  rw [patchClass, hparse, ← hrule]
  exact Form.writeSites_bytes hmem (nodup_writes hapart order) rest

/-- What becomes of a class file that parses. The same bytes come out in every order. -/
theorem patchClass_of_parse (hset : ofSet set = .ok widener) {bytes : Bytes} {layout : ClassLayout}
    (hparse : ClassLayout.parse bytes = .ok layout) :
    ∃ patched : Bytes,
      (∀ order, widener.patchClass bytes order = (patched, .ok (decide (patched ≠ bytes)))) ∧
      patched.length = bytes.length ∧
      (∀ i, (∀ site ∈ layout.sites, i ≠ site.offset ∧ i ≠ site.offset + 1) →
        patched[i]? = bytes[i]?) ∧
      ClassLayout.parse patched = .ok (layout.widened set) := by
  rcases ClassLayout.parse_form hparse with ⟨form, rest, rfl, hsites, hrefill⟩
  refine ⟨Form.bytes (Form.refill (overwriting (widener.writes .sorted layout)) 0 form) ++ rest,
    fun order => patchClass_form hparse hsites order, ?_, fun i hi => ?_, ?_⟩
  · rw [List.length_append, List.length_append, Form.length_bytes_refill]
  · -- Outside the blanks the form prints the same bytes, and the rest behind it is not touched.
    have hkept := Form.getElem?_bytes_refill (overwriting (widener.writes .sorted layout)) 0 form i
      (fun site hmem => by
        rw [Nat.zero_add]
        exact hi site (hsites ▸ hmem))
    rw [List.getElem?_append, List.getElem?_append, Form.length_bytes_refill, hkept]
  · rw [hrefill, refill_writes (plans_of_ofSet hset) (apart_of_sites hsites)]

/-- What is left of a class file that parses has the flags that are asked for. -/
theorem parse_patchClass (hset : ofSet set = .ok widener) {bytes : Bytes} {layout : ClassLayout}
    (hparse : ClassLayout.parse bytes = .ok layout) (order : MemberOrder) :
    ClassLayout.parse (widener.patchClass bytes order).1 = .ok (layout.widened set) := by
  rcases patchClass_of_parse hset hparse with ⟨patched, hpatched, -, -, hlayout⟩
  rw [hpatched order]
  exact hlayout

/-- A class file whose layout has the flags that are asked for is left as it is. -/
theorem patchClass_of_widened (hset : ofSet set = .ok widener) {bytes : Bytes}
    {layout : ClassLayout} (hparse : ClassLayout.parse bytes = .ok layout)
    (hwidened : layout.widened set = layout) (order : MemberOrder) :
    widener.patchClass bytes order = (bytes, .ok false) := by
  rcases ClassLayout.parse_form hparse with ⟨form, rest, rfl, hsites, -⟩
  have hlayout := refill_writes (plans_of_ofSet hset) (apart_of_sites hsites) .sorted
  rw [hwidened] at hlayout
  -- The rule keeps the layout, hence every flag word of it, and these are the blanks of the form.
  have hkept := ClassLayout.flags_of_refill_eq hlayout
  rw [← hsites] at hkept
  rw [patchClass_form hparse hsites, Form.refill_eq_self hkept]
  simp only [ne_eq, not_true_eq_false, decide_false]

/-- A file that does not parse is left alone. -/
theorem patchClass_of_fault {bytes : Bytes} {fault : ClassFault}
    (hparse : ClassLayout.parse bytes = .error fault) (order : MemberOrder) :
    widener.patchClass bytes order = (bytes, .error fault) := by
  rw [patchClass, hparse]

/-- The order in which the members of a plan come makes no difference to a file. -/
theorem patchClass_order (hset : ofSet set = .ok widener) (bytes : Bytes)
    (order order' : MemberOrder) :
    widener.patchClass bytes order = widener.patchClass bytes order' := by
  cases hparse : ClassLayout.parse bytes with
  | error fault => rw [patchClass_of_fault hparse, patchClass_of_fault hparse]
  | ok layout =>
      rcases patchClass_of_parse hset hparse with ⟨patched, hpatched, -⟩
      rw [hpatched, hpatched]

theorem exists_ofSet {set : DirectiveSet} (hset : set.isEmpty = false) :
    ∃ widener, ofSet set = .ok widener := by
  unfold ofSet
  rw [hset, if_neg Bool.false_ne_true]
  exact ⟨_, rfl⟩

/-- A directive set that is not empty has a widener, and this is what it does to a file. If the file
    does not parse, it is left alone and the fault of the parser is reported. If it parses, nothing
    is reported but whether the file changed: its length stays, as does every byte outside the flag
    words, and it parses to the layout with exactly the flags that the set asks for. The outcome is
    the same whatever order the members of a plan come in. -/
theorem patchClass_exact (set : DirectiveSet) (hset : set.isEmpty = false) :
    ∃ widener, ofSet set = .ok widener ∧ ∀ bytes : Bytes,
      (∀ fault, ClassLayout.parse bytes = .error fault →
        ∀ order, widener.patchClass bytes order = (bytes, .error fault)) ∧
      (∀ layout, ClassLayout.parse bytes = .ok layout →
        ∃ patched : Bytes,
          (∀ order, widener.patchClass bytes order = (patched, .ok (decide (patched ≠ bytes)))) ∧
          patched.length = bytes.length ∧
          (∀ i, (∀ site ∈ layout.sites, i ≠ site.offset ∧ i ≠ site.offset + 1) →
            patched[i]? = bytes[i]?) ∧
          ClassLayout.parse patched = .ok (layout.widened set)) := by
  rcases exists_ofSet hset with ⟨widener, hwidener⟩
  refine ⟨widener, hwidener, fun bytes => ⟨fun fault hparse order => ?_, fun layout hparse => ?_⟩⟩
  · exact patchClass_of_fault hparse order
  · exact patchClass_of_parse hwidener hparse

/-- A set that asks for one method to be extendable. -/
def oneMethodSet : DirectiveSet :=
  .ofDirectives [⟨.member .method ⟨"Box", ⟨"open", "()V"⟩⟩, .extendable, false⟩]

/-- A class that keeps the method private. -/
def oneMethodClass : Bytes :=
  Blueprint.assemble { name := "Box", flags := 0x20, methods := [⟨⟨"open", "()V"⟩, 0x02⟩] }

/-- The method becomes protected and its class public. -/
theorem patchClass_exact_oneMethod :
    oneMethodSet.isEmpty = false ∧
      ∃ widener patched, ofSet oneMethodSet = .ok widener ∧
        widener.patchClass oneMethodClass = (patched, .ok (decide (patched ≠ oneMethodClass))) ∧
        ClassLayout.parse patched = .ok ⟨"Box", some "java/lang/Object", [], ⟨54, 0x21⟩, [],
          [⟨⟨"open", "()V"⟩, ⟨66, 0x04⟩⟩], []⟩ := by
  have hset : oneMethodSet.isEmpty = false := by decide
  have hparse : ClassLayout.parse oneMethodClass = .ok ⟨"Box", some "java/lang/Object", [],
      ⟨54, 0x20⟩, [], [⟨⟨"open", "()V"⟩, ⟨66, 0x02⟩⟩], []⟩ := by decide
  rcases patchClass_exact oneMethodSet hset with ⟨widener, hwidener, hfile⟩
  rcases (hfile oneMethodClass).2 _ hparse with ⟨patched, hpatched, -, -, hlayout⟩
  refine ⟨hset, widener, patched, hwidener, hpatched .sorted, ?_⟩
  rw [hlayout]
  decide

end Widener

end AccessWidener
