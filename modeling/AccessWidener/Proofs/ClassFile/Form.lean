import Mathlib.Data.List.Basic
import AccessWidener.ClassFile.Patch

/-!
# Forms

A class file read as a form with blanks. The blanks are its flag words; everything between them is
printed and never changes. Writing a flag word fills in a blank, and since blanks are separate
from each other by construction, writing some of them in any order gives the one form in which
exactly these are filled in anew.

`refill` is the only operation on a form. It goes through the blanks with a rule that knows where a
blank stands and what it holds. Refilling keeps the length, keeps every printed byte and keeps the
places of the blanks, so what a patched file looks like can be read off its form instead of being
computed with `take` and `drop`. That computation happens once, in `writeFlags_bytes`.

## Main definitions

* `Rule`: What a blank is to hold, given its place and what it holds.
* `Piece`, `Form`: Printed bytes and blanks.
* `Form.bytes`, `Form.sites`: The file that a form stands for, and the blanks in it.
* `Form.refill`: A form with its blanks filled in anew.
* `overwriting`: The rule that a list of writes amounts to.

## Theorems

* `length_bytes_refill`, `sites_refill`: Refilling keeps the length and the places of the blanks.
* `sites_bounds`, `sites_pairwise`: Blanks lie inside the file and do not overlap.
* `getElem?_bytes_refill`: Refilling keeps every printed byte.
* `refill_congr`: A form is refilled by what a rule does to its own blanks.
* `bytes_refill_eq_iff`: A refilled file is the same only if each blank holds what it held.
* `writeFlags_bytes`: Writing a flag word fills in one blank.
* `writeSites_bytes`: Writing several, each once, fills in these and no others.
-/

namespace AccessWidener

/-- What a blank is to hold, given its offset and what it holds. -/
abbrev Rule := Nat → UInt16 → UInt16

/-- A site with the flags that a rule gives it. -/
def FlagSite.refill (rule : Rule) (site : FlagSite) : FlagSite :=
  { site with flags := rule site.offset site.flags }

/-- The rule that a list of writes amounts to: what is not written stays. -/
def overwriting (writes : List FlagSite) : Rule := fun offset flags =>
  match writes.find? (·.offset = offset) with
  | some write => write.flags
  | none => flags

theorem overwriting_of_mem {writes : List FlagSite} (hnodup : (writes.map (·.offset)).Nodup)
    {write : FlagSite} (hmem : write ∈ writes) (flags : UInt16) :
    overwriting writes write.offset flags = write.flags := by
  induction writes with
  | nil => cases hmem
  | cons first rest ih =>
      rw [List.map_cons, List.nodup_cons] at hnodup
      simp only [overwriting, List.find?_cons]
      by_cases hfirst : first.offset = write.offset
      · rcases List.mem_cons.mp hmem with rfl | hrest
        · simp only [decide_true]
        · -- A second write at the place of the first would repeat an offset.
          exact absurd (List.mem_map.mpr ⟨write, hrest, hfirst.symm⟩) hnodup.1
      · have hrest : write ∈ rest := by
          rcases List.mem_cons.mp hmem with rfl | hrest
          · exact absurd rfl hfirst
          · exact hrest
        simp only [hfirst, decide_false]
        exact ih hnodup.2 hrest

theorem overwriting_of_forall_ne {writes : List FlagSite} {offset : Nat}
    (h : ∀ write ∈ writes, write.offset ≠ offset) (flags : UInt16) :
    overwriting writes offset flags = flags := by
  have hnone : writes.find? (·.offset = offset) = none := by
    rw [List.find?_eq_none]
    intro write hmem
    simpa only [decide_eq_true_eq] using h write hmem
  simp only [overwriting, hnone]

/-- Writes to different places amount to the same in any order. -/
theorem overwriting_perm {writes writes' : List FlagSite} (hperm : writes.Perm writes')
    (hnodup : (writes.map (·.offset)).Nodup) : overwriting writes = overwriting writes' := by
  have hnodup' : (writes'.map (·.offset)).Nodup := (hperm.map _).nodup_iff.mp hnodup
  funext offset flags
  -- Distinct places make the first write at a place its only one, so order decides nothing.
  by_cases h : ∃ write ∈ writes, write.offset = offset
  · rcases h with ⟨write, hmem, rfl⟩
    rw [overwriting_of_mem hnodup hmem, overwriting_of_mem hnodup' (hperm.mem_iff.mp hmem)]
  · have hne : ∀ write ∈ writes, write.offset ≠ offset :=
      fun write hmem heq => h ⟨write, hmem, heq⟩
    rw [overwriting_of_forall_ne hne,
      overwriting_of_forall_ne (fun write hmem => hne write (hperm.mem_iff.mpr hmem))]

/-- A piece of a file: printed bytes, or a blank with the flags it holds. -/
inductive Piece where
  | printed (bytes : Bytes)
  | blank (flags : UInt16)

/-- The bytes of a piece. -/
def Piece.bytes : Piece → Bytes
  | printed bytes => bytes
  | blank flags => Bytes.ofUInt16 flags

/-- A file as its pieces in order. -/
abbrev Form := List Piece

namespace Form

/-- The file that a form stands for. -/
def bytes (form : Form) : Bytes := form.flatMap Piece.bytes

/-- The blanks of a form that starts at an offset, as flag sites. -/
def sites (offset : Nat) : Form → List FlagSite
  | [] => []
  | .printed bytes :: rest => sites (offset + bytes.length) rest
  | .blank flags :: rest => { offset, flags } :: sites (offset + 2) rest

/-- The form with its blanks filled in anew. -/
def refill (rule : Rule) (offset : Nat) : Form → Form
  | [] => []
  | .printed bytes :: rest => .printed bytes :: refill rule (offset + bytes.length) rest
  | .blank flags :: rest => .blank (rule offset flags) :: refill rule (offset + 2) rest

theorem bytes_nil : bytes [] = [] := rfl

theorem bytes_printed (printed : Bytes) (rest : Form) :
    bytes (.printed printed :: rest) = printed ++ bytes rest := rfl

theorem bytes_blank (flags : UInt16) (rest : Form) :
    bytes (.blank flags :: rest) = Bytes.ofUInt16 flags ++ bytes rest := rfl

theorem bytes_append (first second : Form) :
    bytes (first ++ second) = bytes first ++ bytes second :=
  List.flatMap_append

theorem sites_append (offset : Nat) (first second : Form) :
    sites offset (first ++ second) =
      sites offset first ++ sites (offset + (bytes first).length) second := by
  -- Each piece of the first form moves the start of the second by its own length.
  induction first generalizing offset with
  | nil => rfl
  | cons piece rest ih =>
      cases piece with
      | printed bytes =>
          simp only [List.cons_append, sites, ih, bytes_printed, List.length_append, Nat.add_assoc]
      | blank flags =>
          simp only [List.cons_append, sites, ih, bytes_blank, List.length_append, Nat.add_assoc,
            Bytes.length_ofUInt16]

/-! ### What refilling keeps -/

theorem length_bytes_refill (rule : Rule) (offset : Nat) (form : Form) :
    (bytes (refill rule offset form)).length = (bytes form).length := by
  induction form generalizing offset with
  | nil => rfl
  | cons piece rest ih =>
      cases piece with
      | printed bytes => simp only [refill, bytes_printed, List.length_append, ih]
      | blank flags =>
          simp only [refill, bytes_blank, List.length_append, ih, Bytes.length_ofUInt16]

theorem refill_append (rule : Rule) (offset : Nat) (first second : Form) :
    refill rule offset (first ++ second) =
      refill rule offset first ++ refill rule (offset + (bytes first).length) second := by
  induction first generalizing offset with
  | nil => rfl
  | cons piece rest ih =>
      cases piece with
      | printed bytes =>
          simp only [List.cons_append, refill, ih, bytes_printed, List.length_append, Nat.add_assoc]
      | blank flags =>
          simp only [List.cons_append, refill, ih, bytes_blank, List.length_append, Nat.add_assoc,
            Bytes.length_ofUInt16]

theorem sites_refill (rule : Rule) (offset : Nat) (form : Form) :
    sites offset (refill rule offset form) = (sites offset form).map (FlagSite.refill rule) := by
  induction form generalizing offset with
  | nil => rfl
  | cons piece rest ih =>
      cases piece with
      | printed bytes => simp only [refill, sites, ih]
      | blank flags => simp only [refill, sites, ih, List.map_cons, FlagSite.refill]

theorem refill_refill (first second : Rule) (offset : Nat) (form : Form) :
    refill second offset (refill first offset form) =
      refill (fun place flags => second place (first place flags)) offset form := by
  induction form generalizing offset with
  | nil => rfl
  | cons piece rest ih =>
      cases piece with
      | printed bytes => simp only [refill, ih]
      | blank flags => simp only [refill, ih]

/-- Only what a rule does to the blanks of a form matters for it. -/
theorem refill_congr {rule rule' : Rule} {offset : Nat} {form : Form}
    (h : ∀ site ∈ sites offset form, rule site.offset site.flags = rule' site.offset site.flags) :
    refill rule offset form = refill rule' offset form := by
  induction form generalizing offset with
  | nil => rfl
  | cons piece rest ih =>
      cases piece with
      | printed bytes =>
          simp only [refill]
          rw [ih h]
      | blank flags =>
          -- Only a blank consults the rule, and it consults it at a listed place.
          simp only [sites, List.forall_mem_cons] at h
          simp only [refill]
          rw [h.1, ih h.2]

theorem refill_held (offset : Nat) (form : Form) :
    refill (fun _ flags => flags) offset form = form := by
  induction form generalizing offset with
  | nil => rfl
  | cons piece rest ih =>
      cases piece with
      | printed bytes => simp only [refill, ih]
      | blank flags => simp only [refill, ih]

theorem refill_eq_self {rule : Rule} {offset : Nat} {form : Form}
    (h : ∀ site ∈ sites offset form, rule site.offset site.flags = site.flags) :
    refill rule offset form = form := by
  have hheld : refill rule offset form = refill (fun _ flags => flags) offset form :=
    refill_congr h
  rw [hheld, refill_held]

/-! ### Where blanks are -/

theorem sites_bounds {offset : Nat} {form : Form} {site : FlagSite}
    (h : site ∈ sites offset form) :
    offset ≤ site.offset ∧ site.offset + 2 ≤ offset + (bytes form).length := by
  induction form generalizing offset with
  | nil => cases h
  | cons piece rest ih =>
      cases piece with
      | printed bytes =>
          have hrest := ih h
          rw [bytes_printed, List.length_append]
          omega
      | blank flags =>
          rw [bytes_blank, List.length_append, Bytes.length_ofUInt16]
          -- The first blank occupies the two bytes in front; every other place lies behind them.
          rcases List.mem_cons.mp h with rfl | hmem
          · simp only
            omega
          · have hrest := ih hmem
            omega

/-- Blanks come in order and do not overlap. -/
theorem sites_pairwise (offset : Nat) (form : Form) :
    (sites offset form).Pairwise (fun site later => site.offset + 2 ≤ later.offset) := by
  induction form generalizing offset with
  | nil => exact List.Pairwise.nil
  | cons piece rest ih =>
      cases piece with
      | printed bytes => exact ih (offset + bytes.length)
      | blank flags =>
          exact List.Pairwise.cons (fun later hmem => (sites_bounds hmem).1) (ih (offset + 2))

theorem nodup_offsets (offset : Nat) (form : Form) :
    ((sites offset form).map (·.offset)).Nodup := by
  rw [List.Nodup, List.pairwise_map]
  refine (sites_pairwise offset form).imp (fun h => ?_)
  omega

/-- Refilling keeps every byte outside the blanks. -/
theorem getElem?_bytes_refill (rule : Rule) (offset : Nat) (form : Form) (i : Nat)
    (h : ∀ site ∈ sites offset form, offset + i ≠ site.offset ∧ offset + i ≠ site.offset + 1) :
    (bytes (refill rule offset form))[i]? = (bytes form)[i]? := by
  induction form generalizing offset i with
  | nil => rfl
  | cons piece rest ih =>
      cases piece with
      | printed bytes =>
          simp only [refill, bytes_printed]
          -- A byte of this piece is not touched; a later one belongs to the rest.
          by_cases hi : i < bytes.length
          · rw [List.getElem?_append_left hi, List.getElem?_append_left hi]
          · rw [List.getElem?_append_right (by omega), List.getElem?_append_right (by omega)]
            refine ih (offset + bytes.length) (i - bytes.length) (fun site hmem => ?_)
            have hsite := h site hmem
            omega
      | blank flags =>
          simp only [sites, List.forall_mem_cons] at h
          simp only [refill, bytes_blank]
          -- The first two bytes are the blank itself, which `i` is said to avoid.
          have hi : 2 ≤ i := by omega
          rw [List.getElem?_append_right (by simpa using hi),
            List.getElem?_append_right (by simpa using hi)]
          simp only [Bytes.length_ofUInt16]
          refine ih (offset + 2) (i - 2) (fun site hmem => ?_)
          have hsite := h.2 site hmem
          omega

theorem ofUInt16_injective {word word' : UInt16} (h : Bytes.ofUInt16 word = Bytes.ofUInt16 word') :
    word = word' := by
  simp only [Bytes.ofUInt16, List.cons.injEq, and_true] at h
  rw [← Bytes.toUInt16_ofUInt16 word, h.1, h.2, Bytes.toUInt16_ofUInt16]

/-- A refilled file is the same as before only if every blank holds what it held. -/
theorem bytes_refill_eq_iff (rule : Rule) (offset : Nat) (form : Form) :
    bytes (refill rule offset form) = bytes form ↔
      ∀ site ∈ sites offset form, rule site.offset site.flags = site.flags := by
  constructor
  · intro h
    induction form generalizing offset with
    | nil => exact fun site hmem => absurd hmem List.not_mem_nil
    | cons piece rest ih =>
        cases piece with
        | printed bytes =>
            simp only [refill, bytes_printed, List.append_cancel_left_eq] at h
            exact ih (offset + bytes.length) h
        | blank flags =>
            simp only [refill, bytes_blank] at h
            -- Words are equally long, so equal files have equal words and equal rests.
            rcases List.append_inj h (by simp only [Bytes.length_ofUInt16]) with ⟨hword, hrest⟩
            simp only [sites, List.forall_mem_cons]
            exact ⟨ofUInt16_injective hword, ih (offset + 2) hrest⟩
  · intro h
    rw [refill_eq_self h]

/-! ### Writing flag words -/

/-- A splice behind the front of a list is a splice of what follows the front. -/
theorem splice_append (front rest word : Bytes) {position : Nat} (h : front.length ≤ position) :
    (front ++ rest).take position ++ word ++ (front ++ rest).drop (position + 2) =
      front ++ (rest.take (position - front.length) ++ word ++
        rest.drop (position - front.length + 2)) := by
  have hbehind : position + 2 - front.length = position - front.length + 2 := by omega
  rw [List.take_append, List.drop_append, List.take_of_length_le h,
    List.drop_of_length_le (Nat.le_add_right_of_le h), hbehind, List.nil_append,
    List.append_assoc, List.append_assoc, List.append_assoc]

/-- A single write leaves the blanks at other places as they are. -/
theorem overwriting_singleton_of_ne {write : FlagSite} {offset : Nat} (h : write.offset ≠ offset)
    (flags : UInt16) : overwriting [write] offset flags = flags :=
  overwriting_of_forall_ne (fun _ hmem => (List.mem_singleton.mp hmem).symm ▸ h) flags

/-- A write in front of a form leaves the form as it is. -/
theorem refill_overwriting_of_lt {write : FlagSite} {offset : Nat} (h : write.offset < offset)
    (form : Form) : refill (overwriting [write]) offset form = form := by
  refine refill_eq_self (fun later hlater => overwriting_singleton_of_ne ?_ _)
  have hbounds := (sites_bounds hlater).1
  omega

/-- Overwriting the two bytes of a blank fills it in and leaves all else alone. -/
theorem splice_bytes {offset : Nat} {form : Form} {site : FlagSite}
    (h : site ∈ sites offset form) (flags : UInt16) :
    (bytes form).take (site.offset - offset) ++ Bytes.ofUInt16 flags ++
        (bytes form).drop (site.offset - offset + 2) =
      bytes (refill (overwriting [{ site with flags }]) offset form) := by
  induction form generalizing offset with
  | nil => cases h
  | cons piece rest ih =>
      cases piece with
      | printed bytes =>
          -- The blank lies behind this piece.
          have hrest : site ∈ sites (offset + bytes.length) rest := h
          have hbounds := (sites_bounds hrest).1
          have hfront : bytes.length ≤ site.offset - offset := by omega
          simp only [refill, bytes_printed]
          rw [splice_append _ _ _ hfront, Nat.sub_sub, ih hrest]
      | blank held =>
          have hlength := Bytes.length_ofUInt16 held
          simp only [refill, bytes_blank]
          rcases List.mem_cons.mp h with rfl | hmem
          · -- This blank is the one written; those behind it stand elsewhere.
            have hthis : overwriting [{ offset, flags }] offset held = flags := by
              simp only [overwriting, List.find?_cons, decide_true]
            rw [hthis, refill_overwriting_of_lt (Nat.lt_add_of_pos_right Nat.two_pos),
              Nat.sub_self, Nat.zero_add, List.take_zero, List.nil_append,
              List.drop_left' hlength]
          · -- This blank is in front of the one written and stays as it is.
            have hbounds := (sites_bounds hmem).1
            have hne : { site with flags }.offset ≠ offset := by
              change site.offset ≠ offset
              omega
            have hfront : (Bytes.ofUInt16 held).length ≤ site.offset - offset := by omega
            rw [overwriting_singleton_of_ne hne, splice_append _ _ _ hfront, hlength, Nat.sub_sub,
              ih hmem]

/-- Writing a flag word fills in its blank, whatever follows the form in the file. -/
theorem writeFlags_bytes {form : Form} {site : FlagSite} (h : site ∈ sites 0 form)
    (flags : UInt16) (rest : Bytes) :
    writeFlags (bytes form ++ rest) site.offset flags =
      .ok (bytes (refill (overwriting [{ site with flags }]) 0 form) ++ rest) := by
  have hbounds := (sites_bounds h).2
  have hsplice := splice_bytes h flags
  rw [Nat.zero_add] at hbounds
  rw [Nat.sub_zero] at hsplice
  -- The blank ends inside the form, so what is cut off in front and behind does not reach `rest`.
  rw [writeFlags, if_pos (by rw [List.length_append]; omega), ← hsplice, List.take_append,
    List.drop_append, show site.offset - (bytes form).length = 0 by omega,
    show site.offset + 2 - (bytes form).length = 0 by omega, List.take_zero, List.drop_zero,
    List.append_nil, List.append_assoc, List.append_assoc, List.append_assoc]

/-- A first write and later ones at other places meet in one rule. -/
theorem overwriting_cons {write : FlagSite} {writes : List FlagSite}
    (hfree : ∀ later ∈ writes, later.offset ≠ write.offset) (offset : Nat) (flags : UInt16) :
    overwriting writes offset (overwriting [write] offset flags) =
      overwriting (write :: writes) offset flags := by
  by_cases h : write.offset = offset
  · subst h
    rw [overwriting_of_forall_ne hfree]
    simp only [overwriting, List.find?_cons, decide_true]
  · simp only [overwriting, List.find?_cons, h, decide_false, List.find?_nil]

theorem refill_overwriting_cons {write : FlagSite} {writes : List FlagSite}
    (hfree : ∀ later ∈ writes, later.offset ≠ write.offset) (offset : Nat) (form : Form) :
    refill (overwriting writes) offset (refill (overwriting [write]) offset form) =
      refill (overwriting (write :: writes)) offset form := by
  rw [refill_refill]
  exact refill_congr (fun site _ => overwriting_cons hfree site.offset site.flags)

/-- What a first write changed, no later one at another place changes back. -/
theorem bytes_refill_cons_ne {write : FlagSite} (writes : List FlagSite) {offset : Nat}
    {form : Form} (h : bytes (refill (overwriting [write]) offset form) ≠ bytes form) :
    bytes (refill (overwriting (write :: writes)) offset form) ≠ bytes form := by
  intro hall
  rw [bytes_refill_eq_iff] at hall
  refine h ((bytes_refill_eq_iff _ _ _).mpr (fun site hsite => ?_))
  -- If all writes together changed nothing, each blank keeps its flags, the first one too.
  have hheld := hall site hsite
  by_cases hw : write.offset = site.offset
  · simp only [overwriting, List.find?_cons, hw, decide_true] at hheld ⊢
    exact hheld
  · simp only [overwriting, List.find?_cons, hw, decide_false, List.find?_nil]

/-- Writing flag words, each of them once, fills in their blanks and no others, and reports a
    change exactly if the file is another one. -/
theorem writeSites_bytes {form : Form} {writes : List FlagSite}
    (hsites : ∀ write ∈ writes, write.offset ∈ (sites 0 form).map (·.offset))
    (hnodup : (writes.map (·.offset)).Nodup) (rest : Bytes) :
    writeSites (bytes form ++ rest) writes =
      (bytes (refill (overwriting writes) 0 form) ++ rest,
        .ok (decide (bytes (refill (overwriting writes) 0 form) ++ rest ≠
          bytes form ++ rest))) := by
  induction writes generalizing form with
  | nil =>
      rw [refill_eq_self (fun _ _ => rfl)]
      simp only [writeSites, ne_eq, not_true_eq_false, decide_false]
  | cons write writes ih =>
      rw [List.map_cons, List.nodup_cons] at hnodup
      rw [List.forall_mem_cons] at hsites
      have hfree : ∀ later ∈ writes, later.offset ≠ write.offset :=
        fun later hmem heq => hnodup.1 (List.mem_map.mpr ⟨later, hmem, heq⟩)
      have hwrite : writeFlags (bytes form ++ rest) write.offset write.flags =
          .ok (bytes (refill (overwriting [write]) 0 form) ++ rest) := by
        rcases List.mem_map.mp hsites.1 with ⟨site, hsite, hoffset⟩
        have hfound := writeFlags_bytes hsite write.flags rest
        rwa [hoffset] at hfound
      -- The first write leaves the places of the blanks as they are for the later ones.
      have hlater : ∀ later ∈ writes,
          later.offset ∈ (sites 0 (refill (overwriting [write]) 0 form)).map (·.offset) := by
        intro later hmem
        rw [sites_refill, List.map_map]
        exact hsites.2 later hmem
      simp only [writeSites, hwrite]
      rw [ih hlater hnodup.2, refill_overwriting_cons hfree]
      simp only [Except.map, ne_eq, List.append_cancel_right_eq, Prod.mk.injEq, Except.ok.injEq,
        true_and]
      -- A file the first write changed stays changed, as no later write comes back to that place.
      by_cases hsame : bytes (refill (overwriting [write]) 0 form) = bytes form
      · simp only [hsame, not_true_eq_false, decide_false, Bool.false_or]
      · have hchanged := bytes_refill_cons_ne writes hsame
        simp only [hsame, hchanged, not_false_eq_true, decide_true, Bool.true_or]

end Form

end AccessWidener
