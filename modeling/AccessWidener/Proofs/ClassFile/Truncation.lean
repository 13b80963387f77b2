import AccessWidener.Proofs.ClassFile.Assembly

/-!
# Class Files That Are Cut Off

How much of a file does its layout depend on? A reader of class files takes a front of the file, and
what it takes settles the result, so nothing behind that front has a say. The other direction is the
one that makes truncation visible. A file that ends inside the front may be read in two ways only:
the reader succeeds, or it stops. If it succeeded it would have taken a shorter front than it did.
If it stopped for any reason but the end of the file, it would stop for that reason on the whole
file as well. So it stops because the file ends (`Local.runs_out`), and no fault of another kind can
come first, however lookups and reads are interleaved.

For a class file this means that there is one length which decides (`parse_front`). Every front that
is at least so long has the layout of the whole file, and every shorter one ends too early. An
assembled class file is read to its end, so the length that decides is its own.

## Main definitions

* `ClassLayout.EndsAt`: The length of the front that decides.

## Theorems

* `Local.runs_out`: Inside what it takes, a reader meets the end of the file.
* `ClassLayout.parse_front`: What becomes of the fronts of a class file.
* `ClassLayout.parse_cut`: Bytes behind a class file do not matter, and truncation is detected.
-/

namespace AccessWidener

open Reader

/-- A local reader that is given less than it takes runs out of bytes. -/
theorem Reader.Local.runs_out {α : Type} {reader : Reader α} (hl : Local reader) {offset : Nat}
    {front missing : Bytes} {a : α} (h : Takes reader offset (front ++ missing) a)
    (hmissing : missing ≠ []) : reader ⟨offset, front⟩ = .error .unexpectedEnd := by
  have hwhole : reader ⟨offset, front ++ missing⟩ =
      .ok (a, ⟨offset + (front ++ missing).length, []⟩) := by
    have hrun := h []
    rwa [List.append_nil] at hrun
  cases hfront : reader ⟨offset, front⟩ with
  | error fault =>
      -- Any other fault would have come up in the whole as well.
      rcases hl.fails _ _ _ hfront with rfl | hmore
      · rfl
      · rw [hmore missing] at hwhole
        cases hwhole
  | ok result =>
      -- The whole would have been read with the missing bytes left over.
      rcases result with ⟨a', cursor⟩
      rcases hl.takes _ _ _ _ hfront with ⟨taken, hbytes, -, htake⟩
      rw [hbytes, List.append_assoc, htake] at hwhole
      simp only [Except.ok.injEq, Prod.mk.injEq, Cursor.mk.injEq, List.append_eq_nil_iff] at hwhole
      exact absurd hwhole.2.2.2 hmissing

namespace ClassLayout

/-- The first `size` bytes of a file are what its layout depends on: a front that has them all has
    the layout, and one that does not ends too early. -/
def EndsAt (bytes : Bytes) (size : Nat) (layout : ClassLayout) : Prop :=
  ∀ front, front <+: bytes →
    parse front = if size ≤ front.length then .ok layout else .error .unexpectedEnd

theorem parse_of_runs_out {bytes : Bytes} (h : read ⟨0, bytes⟩ = .error .unexpectedEnd) :
    parse bytes = .error .unexpectedEnd := by
  rw [parse, runOn, Cursor.start, h]

/-- A class file that parses has a front that its reader takes. -/
theorem exists_takes_of_parse {bytes : Bytes} {layout : ClassLayout}
    (h : parse bytes = .ok layout) :
    ∃ taken rest, bytes = taken ++ rest ∧ Takes read 0 taken layout := by
  rw [parse, runOn] at h
  cases hrun : read (.start bytes) with
  | error fault =>
      rw [hrun] at h
      cases h
  | ok result =>
      rw [hrun] at h
      cases h
      -- Reading is local, so what it consumed gives the same layout before any other rest.
      rcases local_read.takes _ _ _ _ hrun with ⟨taken, hbytes, -, htake⟩
      exact ⟨taken, _, hbytes, htake⟩

/-- What the reader takes is the front that decides. -/
theorem endsAt_of_takes {taken : Bytes} {layout : ClassLayout} (h : Takes read 0 taken layout)
    (rest : Bytes) : EndsAt (taken ++ rest) taken.length layout := by
  intro front hfront
  have htaken : taken <+: taken ++ rest := List.prefix_append taken rest
  by_cases hlength : taken.length ≤ front.length
  · -- All that is taken is there, and something may follow.
    rcases List.prefix_of_prefix_length_le htaken hfront hlength with ⟨more, rfl⟩
    rw [if_pos hlength, parse_append_of_takes h]
  · -- Some of what is taken is missing.
    rw [if_neg hlength]
    rcases List.prefix_of_prefix_length_le hfront htaken (by omega) with ⟨missing, rfl⟩
    refine parse_of_runs_out (local_read.runs_out h ?_)
    rintro rfl
    rw [List.append_nil] at hlength
    exact hlength (Nat.le_refl _)

/-- In every class file one length decides which of its fronts have its layout. -/
theorem parse_front {bytes : Bytes} {layout : ClassLayout} (h : parse bytes = .ok layout) :
    ∃ size ≤ bytes.length, EndsAt bytes size layout := by
  rcases exists_takes_of_parse h with ⟨taken, rest, rfl, htake⟩
  refine ⟨taken.length, ?_, endsAt_of_takes htake rest⟩
  rw [List.length_append]
  exact Nat.le_add_right _ _

/-- The reader takes an assembled class file as a whole. -/
theorem takes_assemble {blueprint : Blueprint} (h : blueprint.Fits) :
    ∃ layout, Takes read 0 blueprint.assemble layout := by
  rcases builds_body h [] with ⟨body, draft, hassemble, hfits, hyields⟩
  rw [List.nil_append] at hassemble hyields
  have hslots : draft.slotCount + 1 < UInt16.size := by
    have hslots := h.slots
    rwa [Blueprint.constants, hassemble] at hslots
  -- Nothing is added to the pool behind the body.
  have hbody := hyields []
  rw [List.append_nil] at hbody
  rcases yields_read hfits hslots (hbody hslots) 0 with ⟨layout, htake, -⟩
  refine ⟨layout, ?_⟩
  rw [Blueprint.assemble, hassemble]
  exact htake

/-- Every front of an assembled class file ends too early. -/
theorem parse_front_assemble {blueprint : Blueprint} (h : blueprint.Fits) {front : Bytes}
    (hfront : front <+: blueprint.assemble) (hne : front ≠ blueprint.assemble) :
    parse front = .error .unexpectedEnd := by
  rcases takes_assemble h with ⟨layout, htake⟩
  have hshorter : ¬blueprint.assemble.length ≤ front.length := by
    intro hlength
    exact hne (hfront.eq_of_length_le hlength)
  have hends := endsAt_of_takes htake []
  rw [List.append_nil] at hends
  rw [hends front hfront, if_neg hshorter]

/-- Bytes behind a class file do not matter, and truncation is detected. Whatever follows a class
    file that parses, the layout is the same. Of its fronts those from some length on have this
    layout, and all others end too early; there is no third layout and no other fault. Of an
    assembled class file every front ends too early. -/
theorem parse_cut :
    (∀ (bytes : Bytes) (layout : ClassLayout), parse bytes = .ok layout →
      (∀ more, parse (bytes ++ more) = .ok layout) ∧
      ∃ size ≤ bytes.length, EndsAt bytes size layout) ∧
    ∀ blueprint : Blueprint, blueprint.Fits →
      ∀ front, front <+: blueprint.assemble → front ≠ blueprint.assemble →
        parse front = .error .unexpectedEnd := by
  refine ⟨fun bytes layout h => ⟨fun more => ?_, parse_front h⟩, fun blueprint h => ?_⟩
  · -- More bytes join the rest that was not consumed.
    rcases exists_takes_of_parse h with ⟨taken, rest, rfl, htake⟩
    rw [List.append_assoc, parse_append_of_takes htake]
  · intro front hfront hne
    exact parse_front_assemble h hfront hne

/-- A class with a long constant, a field, and an entry for a nested class at its end. -/
def hingedChest : Blueprint where
  name := "Chest"
  flags := 0x21
  superName := none
  fields := [{ signature := { name := "size", descriptor := "J" }, flags := 2 }]
  inner := [{ name := "Chest$Lid", flags := 10 }]
  longs := [27]

/-- The class file parses also with a byte behind it, and ends too early without its last one. -/
theorem parse_cut_hingedChest :
    hingedChest.Fits ∧ ∃ layout, parse hingedChest.assemble = .ok layout ∧
      parse (hingedChest.assemble ++ [0]) = .ok layout ∧
      parse hingedChest.assemble.dropLast = .error .unexpectedEnd := by
  have hfits : hingedChest.Fits :=
    { name := by decide
      superName := by decide
      interfaces := ⟨by decide, by decide⟩
      fields := ⟨by decide, by decide⟩
      methods := ⟨by decide, by decide⟩
      inner := ⟨by decide, by decide⟩
      sourceFile := by decide
      slots := by decide }
  have hparse : ∃ layout, parse hingedChest.assemble = .ok layout := by
    rcases takes_assemble hfits with ⟨layout, htake⟩
    have hwhole := parse_append_of_takes htake []
    rw [List.append_nil] at hwhole
    exact ⟨layout, hwhole⟩
  rcases hparse with ⟨layout, hlayout⟩
  have hlonger := (parse_cut.1 _ layout hlayout).1 [0]
  have hshorter := parse_cut.2 hingedChest hfits _ (List.dropLast_prefix _) (by decide)
  exact ⟨hfits, layout, hlayout, hlonger, hshorter⟩

end ClassLayout

end AccessWidener
