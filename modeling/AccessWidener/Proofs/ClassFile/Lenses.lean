import Mathlib.Data.List.Nodup
import AccessWidener.ClassFile.Blueprint
import AccessWidener.Proofs.ClassFile.Words

/-!
# Flag Words as Lenses

Each flag word of a class file can be read off the layout and overwritten in the file, and the two
fit together as they do for a lens. What the layout says about the word stands in the file; writing
it changes these two bytes and nothing else; and the file that is left parses to the layout with
this one word replaced, so it can be read and written again. Writing what is there already changes
nothing.

The lenses are independent. The words of a layout stand in file order without overlapping, and what
the parser makes of the rest of the file does not depend on them. So a run of writes never gets in
its own way: each write meets a file whose words stand where they stood before, and of several
writes to a word the last one stays (`writeSites_run`). Different words may be written in any order
(`writeSites_perm`).

That the parser follows is left to `ClassLayout.parse_form`. That a byte outside the word is kept
needs no parser, it is seen from the write alone (`getElem?_of_writeFlags`).

## Main definitions

* `ClassLayout.withFlags`: A layout with the flags at one place replaced.

## Theorems

* `getElem?_of_writeFlags`: A write keeps every byte but the two of its word.
* `sites_withFlags`: Replacing one flag word of a layout leaves the others as they are.
* `write_site`: What becomes of a class file when a word of it is written.
* `writeSites_run`: Of several writes to a word the last one stays.
* `writeSites_perm`: Different words may be written in any order.
* `sites_independent`: The flag words of a class file are independent lenses.
-/

namespace AccessWidener

/-! ### Writing anywhere -/

theorem writeFlags_eq_ok_iff {bytes written : Bytes} {offset : Nat} {flags : UInt16} :
    writeFlags bytes offset flags = .ok written ↔ offset + 2 ≤ bytes.length ∧
      bytes.take offset ++ Bytes.ofUInt16 flags ++ bytes.drop (offset + 2) = written := by
  unfold writeFlags
  by_cases hbound : offset + 2 ≤ bytes.length
  · rw [if_pos hbound, Except.ok.injEq]
    simp only [hbound, true_and]
  · rw [if_neg hbound]
    simp only [hbound, reduceCtorEq, false_and]

/-- A write keeps the length of a file. -/
theorem length_of_writeFlags {bytes written : Bytes} {offset : Nat} {flags : UInt16}
    (h : writeFlags bytes offset flags = .ok written) : written.length = bytes.length := by
  rcases writeFlags_eq_ok_iff.mp h with ⟨hbound, rfl⟩
  simp only [List.length_append, List.length_take, List.length_drop, Bytes.length_ofUInt16]
  omega

/-- A write keeps every byte but the two of its word. -/
theorem getElem?_of_writeFlags {bytes written : Bytes} {offset : Nat} {flags : UInt16}
    (h : writeFlags bytes offset flags = .ok written) {i : Nat} (hi : i ≠ offset)
    (hi' : i ≠ offset + 1) : written[i]? = bytes[i]? := by
  rcases writeFlags_eq_ok_iff.mp h with ⟨hbound, rfl⟩
  have hfront : (bytes.take offset).length = offset := by
    rw [List.length_take]
    omega
  have hword : (bytes.take offset ++ Bytes.ofUInt16 flags).length = offset + 2 := by
    rw [List.length_append, hfront, Bytes.length_ofUInt16]
  by_cases hbefore : i < offset
  · rw [List.getElem?_append_left (by omega), List.getElem?_append_left (by omega),
      List.getElem?_take_of_lt hbefore]
  · -- What stands behind the word was cut off and put back where it was.
    have hbehind : offset + 2 + (i - (offset + 2)) = i := by omega
    rw [List.getElem?_append_right (by omega), hword, List.getElem?_drop, hbehind]

/-- A later list of writes is looked at behind an earlier one only where that one says nothing. -/
theorem overwriting_append (writes writes' : List FlagSite) (offset : Nat) (flags : UInt16) :
    overwriting (writes ++ writes') offset flags =
      overwriting writes offset (overwriting writes' offset flags) := by
  simp only [overwriting, List.find?_append]
  cases writes.find? (·.offset = offset) with
  | some write => rfl
  | none => rfl

theorem overwriting_self (write : FlagSite) (held : UInt16) :
    overwriting [write] write.offset held = write.flags := by
  simp only [overwriting, List.find?_cons, decide_true]

namespace ClassLayout

variable {bytes : Bytes} {layout : ClassLayout} {site : FlagSite}

/-! ### Words of a layout -/

/-- The layout with the flags at one place replaced. -/
def withFlags (layout : ClassLayout) (offset : Nat) (flags : UInt16) : ClassLayout :=
  layout.refill (overwriting [{ offset, flags }])

/-- Only what a rule does to the flag words of a layout matters for it. -/
theorem refill_congr {rule rule' : Rule}
    (h : ∀ site ∈ layout.sites, rule site.offset site.flags = rule' site.offset site.flags) :
    layout.refill rule = layout.refill rule' := by
  have hsite : ∀ site ∈ layout.sites, site.refill rule = site.refill rule' := by
    intro site hmem
    rw [FlagSite.refill, FlagSite.refill, h site hmem]
  simp only [sites, List.mem_append, List.mem_cons, List.mem_map] at hsite
  -- Each of the four groups of words holds listed sites only, so the rules agree on each.
  have hfields : layout.fields.map (MemberLayout.refill rule) =
      layout.fields.map (MemberLayout.refill rule') := by
    refine List.map_congr_left (fun field hmem => ?_)
    rw [MemberLayout.refill, MemberLayout.refill,
      hsite _ (Or.inl (Or.inl (Or.inr ⟨field, hmem, rfl⟩)))]
  have hmethods : layout.methods.map (MemberLayout.refill rule) =
      layout.methods.map (MemberLayout.refill rule') := by
    refine List.map_congr_left (fun method hmem => ?_)
    rw [MemberLayout.refill, MemberLayout.refill, hsite _ (Or.inl (Or.inr ⟨method, hmem, rfl⟩))]
  have hinner : layout.inner.map (InnerLayout.refill rule) =
      layout.inner.map (InnerLayout.refill rule') := by
    refine List.map_congr_left (fun inner hmem => ?_)
    rw [InnerLayout.refill, InnerLayout.refill, hsite _ (Or.inr ⟨inner, hmem, rfl⟩)]
  rw [refill, refill, hfields, hmethods, hinner, hsite _ (Or.inl (Or.inl (Or.inl rfl)))]

theorem refill_refill (first second : Rule) (layout : ClassLayout) :
    (layout.refill first).refill second =
      layout.refill (fun offset flags => second offset (first offset flags)) := by
  simp only [refill, List.map_map]
  rfl

theorem refill_held (layout : ClassLayout) :
    layout.refill (fun _ flags => flags) = layout := by
  have hmembers : ∀ members : List MemberLayout,
      members.map (MemberLayout.refill fun _ flags => flags) = members := List.map_id
  have hinner : layout.inner.map (InnerLayout.refill fun _ flags => flags) = layout.inner :=
    List.map_id _
  rw [refill, hmembers, hmembers, hinner]
  rfl

/-- The words of a class file stand in order and do not overlap. -/
theorem pairwise_sites (h : parse bytes = .ok layout) :
    layout.sites.Pairwise (fun site later => site.offset + 2 ≤ later.offset) := by
  rcases parse_form h with ⟨form, rest, -, hsites, -⟩
  rw [← hsites]
  exact Form.sites_pairwise 0 form

/-- The words of a class file lie inside it. -/
theorem site_bounds (h : parse bytes = .ok layout) (hsite : site ∈ layout.sites) :
    site.offset + 2 ≤ bytes.length := by
  rcases parse_form h with ⟨form, rest, rfl, hsites, -⟩
  rw [← hsites] at hsite
  have hbound := (Form.sites_bounds hsite).2
  rw [List.length_append]
  omega

theorem nodup_offsets (h : parse bytes = .ok layout) : (layout.sites.map (·.offset)).Nodup := by
  rw [List.Nodup, List.pairwise_map]
  refine (pairwise_sites h).imp (fun hbefore => ?_)
  omega

/-- Replacing one flag word of a layout leaves the others as they are. -/
theorem sites_withFlags (hnodup : (layout.sites.map (·.offset)).Nodup) {i : Nat}
    (hi : layout.sites[i]? = some site) (flags : UInt16) :
    (layout.withFlags site.offset flags).sites = layout.sites.set i { site with flags } := by
  rw [withFlags, sites_refill]
  refine List.ext_getElem? (fun j => ?_)
  by_cases hij : i = j
  · subst hij
    have hlength := (List.getElem?_eq_some_iff.mp hi).1
    rw [List.getElem?_map, hi, List.getElem?_set_self hlength, Option.map_some, FlagSite.refill,
      overwriting_self { site with flags }]
  · rw [List.getElem?_map, List.getElem?_set_ne hij]
    cases hj : layout.sites[j]? with
    | none => rfl
    | some other =>
        -- Another word stands at another place, where nothing is written.
        have hne : site.offset ≠ other.offset := by
          intro heq
          refine hij ((List.getElem?_inj ?_ hnodup).mp ?_)
          · rw [List.length_map]
            exact (List.getElem?_eq_some_iff.mp hi).1
          · rw [List.getElem?_map, List.getElem?_map, hi, hj, Option.map_some, Option.map_some, heq]
        have hplace : ({ site with flags } : FlagSite).offset ≠ other.offset := hne
        rw [Option.map_some, FlagSite.refill, Form.overwriting_singleton_of_ne hplace]

/-- Replacing a flag word of a layout by itself is the only way to replace it by nothing new. -/
theorem withFlags_eq_self_iff (hnodup : (layout.sites.map (·.offset)).Nodup)
    (hsite : site ∈ layout.sites) (flags : UInt16) :
    layout.withFlags site.offset flags = layout ↔ flags = site.flags := by
  constructor
  · intro hsame
    have hheld := flags_of_refill_eq hsame site hsite
    rwa [overwriting_self { site with flags }] at hheld
  · rintro rfl
    rw [withFlags, refill_congr (fun other hother => ?_), refill_held]
    by_cases hplace : site.offset = other.offset
    · -- Places are distinct, so the word at this place is the site itself.
      have heq : site = other := List.inj_on_of_nodup_map hnodup hsite hother hplace
      rw [heq, overwriting_self other]
    · exact Form.overwriting_singleton_of_ne hplace _

/-! ### Words of a file -/

/-- A word of a class file is written without fault. The file that is left parses to the layout with
    this word replaced. -/
theorem write_site (h : parse bytes = .ok layout) (hsite : site ∈ layout.sites) (flags : UInt16) :
    ∃ written, writeFlags bytes site.offset flags = .ok written ∧
      parse written = .ok (layout.withFlags site.offset flags) := by
  rcases parse_form h with ⟨form, rest, rfl, hsites, hrefill⟩
  rw [← hsites] at hsite
  exact ⟨_, Form.writeFlags_bytes hsite flags rest, hrefill _ rest⟩

/-- A write to a word changes the file exactly if the flags are other than those recorded. -/
theorem writeFlags_ne_iff (h : parse bytes = .ok layout) (hsite : site ∈ layout.sites)
    {flags : UInt16} {written : Bytes} (hwrite : writeFlags bytes site.offset flags = .ok written)
    (hwritten : parse written = .ok (layout.withFlags site.offset flags)) :
    written ≠ bytes ↔ flags ≠ site.flags := by
  rw [ne_eq, ne_eq, not_iff_not, ← withFlags_eq_self_iff (nodup_offsets h) hsite]
  constructor
  · rintro rfl
    rw [h, Except.ok.injEq] at hwritten
    exact hwritten.symm
  · intro hsame
    -- The files have one layout, and outside the word that was written they agree anyway.
    rw [hsame] at hwritten
    refine bytes_ext hwritten h (fun i hi => ?_)
    exact getElem?_of_writeFlags hwrite (hi site hsite).1 (hi site hsite).2

/-- A run of writes to words of a class file succeeds, and of several writes to a word the last one
    stays. -/
theorem writeSites_run (h : parse bytes = .ok layout) {writes : List FlagSite}
    (hwrites : ∀ write ∈ writes, write.offset ∈ layout.sites.map (·.offset)) :
    ∃ written changed, writeSites bytes writes = (written, .ok changed) ∧
      parse written = .ok (layout.refill (overwriting writes.reverse)) := by
  induction writes generalizing bytes layout with
  | nil =>
      refine ⟨bytes, false, rfl, ?_⟩
      rw [h, List.reverse_nil]
      exact congrArg Except.ok (refill_held layout).symm
  | cons write writes ih =>
      rw [List.forall_mem_cons] at hwrites
      rcases List.mem_map.mp hwrites.1 with ⟨site, hsite, hoffset⟩
      rcases write_site h hsite write.flags with ⟨first, hfirst, hlayout⟩
      rw [hoffset] at hfirst hlayout
      -- The words stand where they stood before, so the other writes go to words again.
      have hplaces : (layout.withFlags write.offset write.flags).sites.map (·.offset) =
          layout.sites.map (·.offset) := by
        rw [withFlags, sites_refill, List.map_map]
        rfl
      rw [← hplaces] at hwrites
      rcases ih hlayout hwrites.2 with ⟨written, changed, hrun, hwritten⟩
      refine ⟨written, first ≠ bytes || changed, ?_, ?_⟩
      · simp only [writeSites, hfirst, hrun, Except.map]
      · rw [hwritten, withFlags, refill_refill, List.reverse_cons]
        congr 2
        funext offset flags
        exact (overwriting_append ..).symm

/-- Different words of a class file may be written in any order. -/
theorem writeSites_perm (h : parse bytes = .ok layout) {writes writes' : List FlagSite}
    (hperm : writes.Perm writes')
    (hwrites : ∀ write ∈ writes, write.offset ∈ layout.sites.map (·.offset))
    (hnodup : (writes.map (·.offset)).Nodup) :
    writeSites bytes writes = writeSites bytes writes' := by
  rcases parse_form h with ⟨form, rest, rfl, hsites, -⟩
  rw [← hsites] at hwrites
  have hwrites' : ∀ write ∈ writes', write.offset ∈ (Form.sites 0 form).map (·.offset) :=
    fun write hmem => hwrites write (hperm.mem_iff.mpr hmem)
  have hnodup' : (writes'.map (·.offset)).Nodup := (hperm.map _).nodup_iff.mp hnodup
  -- Both orders come down to refilling the same form, with one rule for both.
  rw [Form.writeSites_bytes hwrites hnodup, Form.writeSites_bytes hwrites' hnodup',
    overwriting_perm hperm hnodup]

/-- The flag words of a class file are independent lenses. They stand in file order without
    overlapping, each of them inside the file and as recorded, most significant byte first. Any
    flags can be written to each of them. A change is reported if they are other than those
    recorded; the two bytes of the word are all that is touched; and the file that is left parses to
    the layout with this word replaced and no other. Of a run of writes to any of the words the last
    one to each of them stays, and different words may be written in any order. -/
theorem sites_independent (h : parse bytes = .ok layout) :
    layout.sites.Pairwise (fun site later => site.offset + 2 ≤ later.offset) ∧
    (∀ site ∈ layout.sites, site.offset + 2 ≤ bytes.length ∧
      bytes[site.offset]? = some (site.flags >>> 8).toUInt8 ∧
      bytes[site.offset + 1]? = some site.flags.toUInt8) ∧
    (∀ i site, layout.sites[i]? = some site → ∀ flags, ∃ written,
      writeFlags bytes site.offset flags = .ok written ∧
      writeSites bytes [{ site with flags }] = (written, .ok (decide (flags ≠ site.flags))) ∧
      written.length = bytes.length ∧
      (∀ j, j ≠ site.offset → j ≠ site.offset + 1 → written[j]? = bytes[j]?) ∧
      parse written = .ok (layout.withFlags site.offset flags) ∧
      (layout.withFlags site.offset flags).sites = layout.sites.set i { site with flags }) ∧
    ∀ writes, (∀ write ∈ writes, write.offset ∈ layout.sites.map (·.offset)) →
      (∃ written changed, writeSites bytes writes = (written, .ok changed) ∧
        parse written = .ok (layout.refill (overwriting writes.reverse))) ∧
      ∀ writes', writes.Perm writes' → (writes.map (·.offset)).Nodup →
        writeSites bytes writes = writeSites bytes writes' := by
  refine ⟨pairwise_sites h, fun site hsite => ?_, fun i site hi flags => ?_,
    fun writes hwrites => ?_⟩
  · exact ⟨site_bounds h hsite, (standsIn_of_parse h site hsite).getElem?⟩
  · -- A single write: its outcome and report, then the bytes around it, then the layout.
    have hsite : site ∈ layout.sites := List.mem_of_getElem? hi
    rcases write_site h hsite flags with ⟨written, hwrite, hwritten⟩
    refine ⟨written, hwrite, ?_, length_of_writeFlags hwrite, fun j hj hj' => ?_, hwritten,
      sites_withFlags (nodup_offsets h) hi flags⟩
    · have hreport := writeFlags_ne_iff h hsite hwrite hwritten
      simp only [writeSites, hwrite, Except.map, Bool.or_false, hreport]
    · exact getElem?_of_writeFlags hwrite hj hj'
  · exact ⟨writeSites_run h hwrites, fun writes' hperm hnodup =>
      writeSites_perm h hperm hwrites hnodup⟩

/-- A class with a method and with two attributes that list the same nested class. -/
def twiceListed : Bytes :=
  Bytes.ofUInt32 magic ++ Bytes.ofUInt16 0 ++ Bytes.ofUInt16 61 ++
    Blueprint.assemblePool [.utf8 (Utf8.encodeString "Box"), .classRef 1,
      .utf8 (Utf8.encodeString innerClassesName), .utf8 (Utf8.encodeString "Box$Lid"), .classRef 4,
      .utf8 (Utf8.encodeString "()V")] ++
    ([0x31, 2, 0, 0, 0, 1, 0x12, 1, 6, 0, 2, 3, 0, 10, 1, 5, 2, 0, 0x0A, 3, 0, 10, 1, 5, 0, 0,
      0x19] : List UInt16).flatMap Bytes.ofUInt16

/-- The layout of the class with these flags. -/
def twiceListedLayout (type method first second : UInt16) : ClassLayout :=
  ⟨"Box", none, [], ⟨53, type⟩, [], [⟨⟨"Box", "()V"⟩, ⟨65, method⟩⟩],
    [⟨"Box$Lid", ⟨89, first⟩⟩, ⟨"Box$Lid", ⟨105, second⟩⟩]⟩

/-- The last entry can be written by itself, the class and the first entry in both orders, and of
    two writes to the method the second one stays. -/
theorem sites_independent_twiceListed :
    parse twiceListed = .ok (twiceListedLayout 0x31 0x12 0x0A 0x19) ∧
      (∃ written, writeFlags twiceListed 105 0x09 = .ok written ∧
        parse written = .ok (twiceListedLayout 0x31 0x12 0x0A 0x09)) ∧
      writeSites twiceListed [⟨53, 0x21⟩, ⟨89, 0x09⟩] =
        writeSites twiceListed [⟨89, 0x09⟩, ⟨53, 0x21⟩] ∧
      ∃ written changed, writeSites twiceListed [⟨65, 0x01⟩, ⟨65, 0x04⟩] = (written, .ok changed) ∧
        parse written = .ok (twiceListedLayout 0x31 0x04 0x0A 0x19) := by
  have hparse : parse twiceListed = .ok (twiceListedLayout 0x31 0x12 0x0A 0x19) := by decide
  rcases sites_independent hparse with ⟨-, -, hwrite, hrun⟩
  rcases hwrite 3 ⟨105, 0x19⟩ rfl 0x09 with ⟨written, hwritten, -, -, -, hlayout, -⟩
  refine ⟨hparse, ⟨written, hwritten, hlayout⟩, ?_, ?_⟩
  · exact (hrun [⟨53, 0x21⟩, ⟨89, 0x09⟩] (by decide)).2 _ (List.Perm.swap ..) (by decide)
  · -- The same place twice: the order of these two writes counts, and the later one stays.
    exact (hrun [⟨65, 0x01⟩, ⟨65, 0x04⟩] (by decide)).1

end ClassLayout

end AccessWidener
