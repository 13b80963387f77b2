import AccessWidener.Proofs.ClassFile.Encoding
import AccessWidener.Proofs.Text.Utf8

/-!
# Numbers That Stay

A class file is assembled back to front: the bodies of its members are written with constant numbers
in them while the pool is still growing, and the pool is put in front of them at the end. What makes
this work is that a draft only ever grows at its end. The number of a constant is one more than the
number of slots before it, so later constants do not change it, and whatever a body says by numbers
it says in every pool that the draft grows into.

`Assembler.Builds` is this statement for one step of an assembly: the step adds constants at the
end, each of a length that fits, and in every pool that starts with the draft it leaves a fact is
known of its result. Sequencing keeps the statement, since the constants added by a later step are
only further growth for the earlier one.

## Main definitions

* `Assembler.Builds`: A step whose result keeps its meaning while the pool grows.

## Theorems

* `ConstantPool.get?_ofConstants`: The number of a constant counts the slots before it.
* `Builds.bind`, `builds_mapM`: Steps in a row.
* `builds_intern`, `builds_text`, `builds_className`: The number given for a name stands for the
  name.
-/

namespace AccessWidener

/-! ### The number of a constant -/

namespace ConstantPool

theorem length_slots (constant : Constant) : constant.slots.length = constant.width := by
  unfold Constant.slots Constant.width
  split <;> rfl

theorem length_flatMap_slots (draft : PoolDraft) :
    (draft.flatMap Constant.slots).length = draft.slotCount := by
  induction draft with
  | nil => rfl
  | cons constant draft ih =>
      rw [List.flatMap_cons, List.length_append, ih, length_slots, PoolDraft.slotCount_cons]

theorem getElem?_slots_zero (constant : Constant) : constant.slots[0]? = some (some constant) := by
  unfold Constant.slots
  split <;> rfl

/-- The number of a constant counts the slots before it, whatever follows. -/
theorem get?_ofConstants (before after : PoolDraft) (constant : Constant)
    (h : before.slotCount + 1 < UInt16.size) :
    (ofConstants (before ++ constant :: after)).get? (UInt16.ofNat (before.slotCount + 1)) =
      some constant := by
  have hnumber : (UInt16.ofNat (before.slotCount + 1)).toNat = before.slotCount + 1 := by
    rw [UInt16.toNat_ofNat_of_lt' h]
  have hfirst : 0 < constant.slots.length := by
    rw [length_slots, Constant.width]
    split <;> decide
  -- Skip the empty slot 0 and the slots in front: the constant opens its own.
  rw [get?, ofConstants, hnumber, List.getElem?_toArray, List.getElem?_cons_succ,
    List.flatMap_append, List.getElem?_append_right (Nat.le_of_eq (length_flatMap_slots before)),
    length_flatMap_slots, Nat.sub_self, List.flatMap_cons, List.getElem?_append_left hfirst,
    getElem?_slots_zero, Option.join_some]

/-- Number zero stands for no class. -/
theorem className_zero (draft : PoolDraft) :
    (ofConstants draft).className 0 = .error (.invalidIndex 0) := rfl

end ConstantPool

namespace PoolDraft

/-- A number that is found counts on from the start by the slots before the constant. -/
theorem exists_of_numberFrom? {constant : Constant} {next number : Nat} {draft : PoolDraft}
    (h : numberFrom? constant next draft = some number) :
    ∃ before after, draft = before ++ constant :: after ∧
      number = next + before.slotCount := by
  induction draft generalizing next with
  | nil => exact absurd h (by simp [numberFrom?])
  | cons held rest ih =>
      rw [numberFrom?] at h
      by_cases heq : held = constant
      · rw [if_pos heq, Option.some.injEq] at h
        exact ⟨[], rest, by rw [heq, List.nil_append], h.symm⟩
      · rw [if_neg heq] at h
        -- Not this constant: its slots are passed over, one or two of them.
        rcases ih h with ⟨before, after, hdraft, hnumber⟩
        refine ⟨held :: before, after, by rw [hdraft, List.cons_append], ?_⟩
        rw [hnumber, slotCount_cons, Nat.add_assoc]

end PoolDraft

namespace Assembler

variable {α β : Type}

/-- A step that adds fitting constants at the end of the draft, and in every pool which the draft
    grows into `P` is true of what it gives. -/
def Builds (action : Assembler α) (P : ConstantPool → α → Prop) : Prop :=
  ∀ draft, ∃ a more, action draft = (a, draft ++ more) ∧ (∀ constant ∈ more, constant.Fits) ∧
    ∀ after, PoolDraft.slotCount (draft ++ more ++ after) + 1 < UInt16.size →
      P (.ofConstants (draft ++ more ++ after)) a

/-! ### Sequences -/

theorem Builds.imp {action : Assembler α} {P Q : ConstantPool → α → Prop} (h : Builds action P)
    (himp : ∀ constants a, P (.ofConstants constants) a → Q (.ofConstants constants) a) :
    Builds action Q := by
  intro draft
  rcases h draft with ⟨a, more, haction, hfits, hP⟩
  exact ⟨a, more, haction, hfits, fun after hslots => himp _ a (hP after hslots)⟩

theorem builds_pure {a : α} {P : ConstantPool → α → Prop}
    (h : ∀ constants, P (.ofConstants constants) a) : Builds (pure a) P := by
  intro draft
  refine ⟨a, [], by rw [List.append_nil]; rfl, by simp, fun after _ => h _⟩

/-- What is known of the first result is known when the second step is looked at. -/
theorem Builds.bind {action : Assembler α} {next : α → Assembler β} {P : ConstantPool → α → Prop}
    {Q : ConstantPool → β → Prop} (h : Builds action P)
    (hn : ∀ a, Builds (next a) (fun pool b => P pool a → Q pool b)) :
    Builds (action >>= next) Q := by
  intro draft
  rcases h draft with ⟨a, more, haction, hfits, hP⟩
  rcases hn a (draft ++ more) with ⟨b, further, hnext, hfits', hQ⟩
  refine ⟨b, more ++ further, ?_, ?_, fun after hslots => ?_⟩
  · change next (action draft).1 (action draft).2 = _
    rw [haction, hnext, List.append_assoc]
  · intro constant hmem
    rcases List.mem_append.mp hmem with hmem | hmem
    · exact hfits constant hmem
    · exact hfits' constant hmem
  · rw [← List.append_assoc draft] at hslots ⊢
    refine hQ after hslots ?_
    -- The constants of the second step are further growth for the first one.
    rw [List.append_assoc _ further] at hslots ⊢
    exact hP (further ++ after) hslots

theorem builds_mapM {f : α → Assembler β} {P : ConstantPool → β → α → Prop} {items : List α}
    (h : ∀ item ∈ items, Builds (f item) (fun pool row => P pool row item)) :
    Builds (items.mapM f) (fun pool rows => List.Forall₂ (P pool) rows items) := by
  induction items with
  | nil => exact builds_pure fun _ => .nil
  | cons item items ih =>
      rw [List.forall_mem_cons] at h
      rw [List.mapM_cons]
      refine h.1.bind (fun row => (ih h.2).bind (fun rows => builds_pure ?_))
      exact fun _ hrows hrow => .cons hrow hrows

/-! ### Constants and names -/

/-- A constant added at the end of a draft gets the number after the last slot. -/
theorem builds_append {constant : Constant} (h : constant.Fits) :
    Builds (append constant) (fun pool number => pool.get? number = some constant) := by
  intro draft
  refine ⟨_, [constant], rfl, by simpa using h, fun after hslots => ?_⟩
  rw [List.append_assoc, List.singleton_append] at hslots ⊢
  rw [PoolDraft.slotCount_append] at hslots
  exact ConstantPool.get?_ofConstants draft after constant (by omega)

/-- A constant that is there already is not added again, and its number is found. -/
theorem builds_intern {constant : Constant} (h : constant.Fits) :
    Builds (intern constant) (fun pool number => pool.get? number = some constant) := by
  intro draft
  rcases hnumber : draft.number? constant with _ | number
  · -- A new constant is appended.
    have hintern : intern constant draft = append constant draft := by
      simp only [intern, hnumber]
    rw [hintern]
    exact builds_append h draft
  · -- A known constant adds nothing, and its number survives whatever is appended later.
    rcases PoolDraft.exists_of_numberFrom? hnumber with ⟨before, later, hdraft, hnumber'⟩
    refine ⟨UInt16.ofNat number, [], ?_, by simp, fun after hslots => ?_⟩
    · simp only [intern, hnumber, List.append_nil]
    · rw [List.append_nil, hdraft, List.append_assoc, List.cons_append] at hslots ⊢
      rw [PoolDraft.slotCount_append] at hslots
      rw [hnumber', Nat.add_comm]
      exact ConstantPool.get?_ofConstants before (later ++ after) constant (by omega)

/-- A text whose length fits into its place in a class file. -/
def TextFits (value : String) : Prop :=
  (Utf8.encodeString value).length < UInt16.size

instance (value : String) : Decidable (TextFits value) :=
  inferInstanceAs (Decidable (_ < _))

/-- The number given for a text stands for the text. -/
theorem builds_text {value : String} (h : TextFits value) :
    Builds (text value) (fun pool number => pool.text number = .ok value) := by
  have hconstant : (Constant.utf8 (Utf8.encodeString value)).Fits := h
  refine (builds_intern hconstant).imp (fun constants number hnumber => ?_)
  rw [ConstantPool.text, hnumber]
  simp only [Utf8.encodeString, Utf8.decodeLossy_encode, String.ofList_toList]

/-- The number given for a class stands for its name. -/
theorem builds_className {name : String} (h : TextFits name) :
    Builds (className name) (fun pool number => pool.className number = .ok name) := by
  refine (builds_text h).bind (fun index => ?_)
  have hconstant : (Constant.classRef index).Fits := trivial
  refine (builds_intern hconstant).imp (fun constants number hnumber hname => ?_)
  rw [ConstantPool.className, hnumber]
  exact hname

end Assembler

end AccessWidener
