import AccessWidener.Proofs.ClassFile.Numbering

/-!
# Numbers of a Constant Pool

Constants are numbered from one in the order in which they stand in the file, and a long or a double
uses up the number after its own. This module says what such a numbering is without a table: a
number holds a constant if it is one more than the slots of the constants before it, and it is
vacant if it is zero, the second number of a wide constant, or past the last slot. Every number is
either vacant or holds one constant (`vacant_iff`, `Holds.unique`).

The pool that is read from a file has this numbering, whatever the constants are and in whatever
order they come. So a lookup by number finds what was written: a text by its own number, the name of
a class by the number of the class, behind which the number of the text may come earlier or later.
Every other lookup is a fault that names the number where it went wrong, and that is the number of
the text if only the second step of a class lookup fails.

All of it rests on one fact about the table, that slot `k` is the `j`-th slot of some constant and
the constants before it take the `k - j` slots in front (`getElem?_flatMap_slots_iff`).

## Main definitions

* `PoolDraft.Holds`, `PoolDraft.Vacant`: What a number stands for in a list of constants.
* `PoolDraft.Names`: A pool whose lookups are those of a list of constants.

## Theorems

* `vacant_iff`, `Holds.unique`: A number is vacant or holds one constant.
* `get?_ofConstants_eq_some_iff`: A pool has the numbering of its constants.
* `names_ofConstants`: What is looked up in a pool is what the constants say.
* `readPool_numbered`: Reading encoded constants gives their numbering.
-/

namespace AccessWidener

open Reader

/-! ### The slots of a list of constants -/

theorem Constant.getElem?_slots_eq_some_iff {constant : Constant} {j : Nat}
    {slot : Option Constant} : constant.slots[j]? = some slot ↔
      j = 0 ∧ slot = some constant ∨ j = 1 ∧ slot = none ∧ constant.isWide = true := by
  unfold Constant.slots
  by_cases hwide : constant.isWide = true
  · rw [if_pos hwide]
    rcases j with _ | _ | j <;> simp [hwide, eq_comm]
  · rw [if_neg hwide]
    rcases j with _ | j <;> simp [hwide, eq_comm]

namespace PoolDraft

variable {draft : PoolDraft} {number : Nat} {constant : Constant}

/-- A slot of a list of constants is a slot of one of them, behind the slots of those before it. -/
theorem getElem?_flatMap_slots_iff {k : Nat} {slot : Option Constant} :
    (draft.flatMap Constant.slots)[k]? = some slot ↔
      ∃ (before after : PoolDraft) (constant : Constant) (j : Nat),
        draft = before ++ constant :: after ∧ k = before.slotCount + j ∧
          constant.slots[j]? = some slot := by
  constructor
  · intro h
    induction draft generalizing k with
    | nil => cases h
    | cons first rest ih =>
        rw [List.flatMap_cons] at h
        -- The slot is one of the first constant, or it lies that many slots further on in the rest.
        by_cases hk : k < first.slots.length
        · rw [List.getElem?_append_left hk] at h
          exact ⟨[], rest, first, k, rfl, (Nat.zero_add k).symm, h⟩
        · rw [List.getElem?_append_right (by omega)] at h
          rcases ih h with ⟨before, after, constant, j, rfl, hj, hslot⟩
          refine ⟨first :: before, after, constant, j, rfl, ?_, hslot⟩
          rw [ConstantPool.length_slots] at hk hj
          rw [slotCount_cons]
          omega
  · rintro ⟨before, after, constant, j, rfl, rfl, hslot⟩
    have hj := (List.getElem?_eq_some_iff.mp hslot).1
    have hfront := ConstantPool.length_flatMap_slots before
    rw [List.flatMap_append, List.getElem?_append_right (by omega), hfront, Nat.add_sub_cancel_left,
      List.flatMap_cons, List.getElem?_append_left hj, hslot]

/-! ### What a number stands for -/

/-- A number holds a constant: it is one more than the slots of the constants before it. -/
def Holds (draft : PoolDraft) (number : Nat) (constant : Constant) : Prop :=
  ∃ before after : PoolDraft, draft = before ++ constant :: after ∧ number = before.slotCount + 1

/-- A number that holds nothing. -/
inductive Vacant (draft : PoolDraft) : Nat → Prop where
  | zero : Vacant draft 0
  | second (before after : PoolDraft) (constant : Constant)
      (hdraft : draft = before ++ constant :: after) (hwide : constant.isWide = true) :
      Vacant draft (before.slotCount + 2)
  | past {number : Nat} (hpast : draft.slotCount < number) : Vacant draft number

theorem getElem?_flatMap_slots_eq_some_iff {k : Nat} :
    (draft.flatMap Constant.slots)[k]? = some (some constant) ↔ draft.Holds (k + 1) constant := by
  rw [getElem?_flatMap_slots_iff]
  constructor
  · rintro ⟨before, after, found, j, hdraft, rfl, hslot⟩
    rcases Constant.getElem?_slots_eq_some_iff.mp hslot with ⟨rfl, hfound⟩ | ⟨-, hnone, -⟩
    · cases hfound
      exact ⟨before, after, hdraft, rfl⟩
    · -- The second slot of a wide constant is empty.
      cases hnone
  · rintro ⟨before, after, hdraft, hnumber⟩
    refine ⟨before, after, constant, 0, hdraft, Nat.succ.inj hnumber, ?_⟩
    exact Constant.getElem?_slots_eq_some_iff.mpr (Or.inl ⟨rfl, rfl⟩)

theorem Holds.pos (h : draft.Holds number constant) : 0 < number := by
  rcases h with ⟨before, after, -, rfl⟩
  omega

/-- A number holds one constant at most. -/
theorem Holds.unique {constant' : Constant} (h : draft.Holds number constant)
    (h' : draft.Holds number constant') : constant = constant' := by
  rcases number with _ | k
  · exact absurd h.pos (Nat.lt_irrefl 0)
  · rw [← getElem?_flatMap_slots_eq_some_iff] at h h'
    rw [h] at h'
    cases h'
    rfl

/-- The vacant numbers are those that hold no constant. -/
theorem vacant_iff : draft.Vacant number ↔ ∀ constant, ¬draft.Holds number constant := by
  constructor
  · rintro (_ | ⟨before, after, wide, hdraft, hwide⟩ | hpast) constant hholds
    · exact absurd hholds.pos (Nat.lt_irrefl 0)
    · -- The slot behind a wide constant is there, and it is empty.
      have hempty : (draft.flatMap Constant.slots)[before.slotCount + 1]? = some none :=
        getElem?_flatMap_slots_iff.mpr ⟨before, after, wide, 1, hdraft, rfl,
          Constant.getElem?_slots_eq_some_iff.mpr (Or.inr ⟨rfl, rfl, hwide⟩)⟩
      rw [← getElem?_flatMap_slots_eq_some_iff, hempty] at hholds
      cases hholds
    · -- A held number is within the slots, so it cannot be past them.
      rcases hholds with ⟨before, after, rfl, rfl⟩
      rw [slotCount_append, slotCount_cons, Constant.width] at hpast
      split at hpast <;> omega
  · intro hnone
    rcases number with _ | k
    · exact .zero
    · cases hslot : (draft.flatMap Constant.slots)[k]? with
      | none =>
          rw [List.getElem?_eq_none_iff, ConstantPool.length_flatMap_slots] at hslot
          exact .past (by omega)
      | some slot =>
          cases slot with
          | some constant => exact absurd (getElem?_flatMap_slots_eq_some_iff.mp hslot) (hnone _)
          | none =>
              rcases getElem?_flatMap_slots_iff.mp hslot with
                ⟨before, after, constant, j, hdraft, rfl, hj⟩
              -- An empty slot in the pool is the second one of a wide constant.
              rcases Constant.getElem?_slots_eq_some_iff.mp hj with ⟨-, hsome⟩ | ⟨rfl, -, hwide⟩
              · cases hsome
              · exact .second before after constant hdraft hwide

/-- A pool in which a lookup finds what a list of constants says, and names the number at fault if
    it finds nothing. Ill-formed bytes of a text show as replacement characters. -/
structure Names (draft : PoolDraft) (pool : ConstantPool) : Prop where
  text_eq_ok_iff : ∀ index value, pool.text index = .ok value ↔
    ∃ bytes, draft.Holds index.toNat (.utf8 bytes) ∧
      String.ofList (Utf8.decodeLossy bytes) = value
  text_eq_error_iff : ∀ index fault, pool.text index = .error fault ↔
    (∀ bytes, ¬draft.Holds index.toNat (.utf8 bytes)) ∧ fault = .invalidIndex index
  className_eq_ok_iff : ∀ index value, pool.className index = .ok value ↔
    ∃ name bytes, draft.Holds index.toNat (.classRef name) ∧
      draft.Holds name.toNat (.utf8 bytes) ∧ String.ofList (Utf8.decodeLossy bytes) = value
  className_eq_error_iff : ∀ index fault, pool.className index = .error fault ↔
    (∀ name, ¬draft.Holds index.toNat (.classRef name)) ∧ fault = .invalidIndex index ∨
      ∃ name, draft.Holds index.toNat (.classRef name) ∧
        (∀ bytes, ¬draft.Holds name.toNat (.utf8 bytes)) ∧ fault = .invalidIndex name

end PoolDraft

/-! ### Lookups -/

namespace ConstantPool

variable {draft : PoolDraft} {index : UInt16}

/-- A pool has the numbering of its constants. -/
theorem get?_ofConstants_eq_some_iff {constant : Constant} :
    (ofConstants draft).get? index = some constant ↔ draft.Holds index.toNat constant := by
  rw [get?, ofConstants, List.getElem?_toArray]
  rcases index.toNat with _ | k
  · refine iff_of_false ?_ (fun h => absurd h.pos (Nat.lt_irrefl 0))
    simp only [List.getElem?_cons_zero, Option.join_some, reduceCtorEq, not_false_eq_true]
  · rw [List.getElem?_cons_succ, Option.join_eq_some_iff,
      PoolDraft.getElem?_flatMap_slots_eq_some_iff]

theorem text_ofConstants_of_holds {bytes : Bytes} (h : draft.Holds index.toNat (.utf8 bytes)) :
    (ofConstants draft).text index = .ok (String.ofList (Utf8.decodeLossy bytes)) := by
  rw [text, get?_ofConstants_eq_some_iff.mpr h]

theorem text_ofConstants_of_not_holds (h : ∀ bytes, ¬draft.Holds index.toNat (.utf8 bytes)) :
    (ofConstants draft).text index = .error (.invalidIndex index) := by
  unfold text
  split
  · rename_i bytes hget
    exact absurd (get?_ofConstants_eq_some_iff.mp hget) (h bytes)
  · rfl

theorem className_ofConstants_of_holds {name : UInt16}
    (h : draft.Holds index.toNat (.classRef name)) :
    (ofConstants draft).className index = (ofConstants draft).text name := by
  rw [className, get?_ofConstants_eq_some_iff.mpr h]

theorem className_ofConstants_of_not_holds
    (h : ∀ name, ¬draft.Holds index.toNat (.classRef name)) :
    (ofConstants draft).className index = .error (.invalidIndex index) := by
  unfold className
  split
  · rename_i name hget
    exact absurd (get?_ofConstants_eq_some_iff.mp hget) (h name)
  · rfl

theorem text_ofConstants_eq_ok_iff {value : String} :
    (ofConstants draft).text index = .ok value ↔ ∃ bytes, draft.Holds index.toNat (.utf8 bytes) ∧
      String.ofList (Utf8.decodeLossy bytes) = value := by
  constructor
  · intro h
    by_cases hholds : ∃ bytes, draft.Holds index.toNat (.utf8 bytes)
    · rcases hholds with ⟨bytes, hholds⟩
      rw [text_ofConstants_of_holds hholds, Except.ok.injEq] at h
      exact ⟨bytes, hholds, h⟩
    · rw [text_ofConstants_of_not_holds (not_exists.mp hholds)] at h
      cases h
  · rintro ⟨bytes, hholds, rfl⟩
    exact text_ofConstants_of_holds hholds

theorem text_ofConstants_eq_error_iff {fault : ClassFault} :
    (ofConstants draft).text index = .error fault ↔
      (∀ bytes, ¬draft.Holds index.toNat (.utf8 bytes)) ∧ fault = .invalidIndex index := by
  constructor
  · intro h
    have hnone : ∀ bytes, ¬draft.Holds index.toNat (.utf8 bytes) := by
      intro bytes hholds
      rw [text_ofConstants_of_holds hholds] at h
      cases h
    rw [text_ofConstants_of_not_holds hnone, Except.error.injEq] at h
    exact ⟨hnone, h.symm⟩
  · rintro ⟨hnone, rfl⟩
    exact text_ofConstants_of_not_holds hnone

/-- A class lookup is a text lookup behind a class constant. -/
theorem className_ofConstants_eq_ok_iff {value : String} :
    (ofConstants draft).className index = .ok value ↔
      ∃ name bytes, draft.Holds index.toNat (.classRef name) ∧
        draft.Holds name.toNat (.utf8 bytes) ∧
        String.ofList (Utf8.decodeLossy bytes) = value := by
  constructor
  · intro h
    by_cases hholds : ∃ name, draft.Holds index.toNat (.classRef name)
    · -- Two lookups: the class constant names the text constant.
      rcases hholds with ⟨name, hholds⟩
      rw [className_ofConstants_of_holds hholds, text_ofConstants_eq_ok_iff] at h
      rcases h with ⟨bytes, htext, hvalue⟩
      exact ⟨name, bytes, hholds, htext, hvalue⟩
    · rw [className_ofConstants_of_not_holds (not_exists.mp hholds)] at h
      cases h
  · rintro ⟨name, bytes, hholds, htext, rfl⟩
    rw [className_ofConstants_of_holds hholds, text_ofConstants_of_holds htext]

/-- The number at fault is the one of the class, or the one of the text if the class is there. -/
theorem className_ofConstants_eq_error_iff {fault : ClassFault} :
    (ofConstants draft).className index = .error fault ↔
      (∀ name, ¬draft.Holds index.toNat (.classRef name)) ∧ fault = .invalidIndex index ∨
        ∃ name, draft.Holds index.toNat (.classRef name) ∧
          (∀ bytes, ¬draft.Holds name.toNat (.utf8 bytes)) ∧ fault = .invalidIndex name := by
  constructor
  · intro h
    by_cases hholds : ∃ name, draft.Holds index.toNat (.classRef name)
    · rcases hholds with ⟨name, hholds⟩
      -- The class constant is there, so the fault names the index it points to.
      rw [className_ofConstants_of_holds hholds, text_ofConstants_eq_error_iff] at h
      exact Or.inr ⟨name, hholds, h⟩
    · have hnone := not_exists.mp hholds
      rw [className_ofConstants_of_not_holds hnone, Except.error.injEq] at h
      exact Or.inl ⟨hnone, h.symm⟩
  · rintro (⟨hnone, rfl⟩ | ⟨name, hholds, hfault⟩)
    · exact className_ofConstants_of_not_holds hnone
    · rw [className_ofConstants_of_holds hholds, text_ofConstants_eq_error_iff]
      exact hfault

/-- What is looked up in a pool is what its constants say. -/
theorem names_ofConstants (draft : PoolDraft) : draft.Names (ofConstants draft) where
  text_eq_ok_iff _ _ := text_ofConstants_eq_ok_iff
  text_eq_error_iff _ _ := text_ofConstants_eq_error_iff
  className_eq_ok_iff _ _ := className_ofConstants_eq_ok_iff
  className_eq_error_iff _ _ := className_ofConstants_eq_error_iff

end ConstantPool

namespace PoolDraft.Names

variable {draft : PoolDraft} {pool : ConstantPool} {index : UInt16} {constant : Constant}

/-- A number that holds no text is at fault when a text is looked up. -/
theorem text_eq_error (h : draft.Names pool)
    (hnone : ∀ bytes, ¬draft.Holds index.toNat (.utf8 bytes)) :
    pool.text index = .error (.invalidIndex index) :=
  (h.text_eq_error_iff index _).mpr ⟨hnone, rfl⟩

/-- A number that holds no class is at fault when a class is looked up. -/
theorem className_eq_error (h : draft.Names pool)
    (hnone : ∀ name, ¬draft.Holds index.toNat (.classRef name)) :
    pool.className index = .error (.invalidIndex index) :=
  (h.className_eq_error_iff index _).mpr (Or.inl ⟨hnone, rfl⟩)

end PoolDraft.Names

/-- Reading the encodings of any constants, as many as have numbers, gives their numbering and stops
    behind the last of them. A text is found exactly by its number, and a class name by the number
    of a class whose text is anywhere in the pool. Every other number is at fault, be it that of
    another kind of constant or a vacant one, and a class whose text is missing puts the fault on
    the number that it has for the text. -/
theorem readPool_numbered {draft : PoolDraft} (hfits : ∀ constant ∈ draft, constant.Fits)
    (hslots : draft.slotCount ≤ 65534) :
    ∃ pool,
      (∀ offset rest, ConstantPool.read ⟨offset, Blueprint.assemblePool draft ++ rest⟩ =
        .ok (pool, ⟨offset + (Blueprint.assemblePool draft).length, rest⟩)) ∧
      draft.Names pool ∧
      (∀ index : UInt16, draft.Vacant index.toNat ∨
        ∃ constant, draft.Holds index.toNat constant ∧
          ∀ other, draft.Holds index.toNat other → other = constant) ∧
      (∀ index : UInt16, draft.Vacant index.toNat →
        pool.text index = .error (.invalidIndex index) ∧
        pool.className index = .error (.invalidIndex index)) ∧
      ∀ (index : UInt16) (constant : Constant), draft.Holds index.toNat constant →
        (constant.tag ≠ 1 → pool.text index = .error (.invalidIndex index)) ∧
        (constant.tag ≠ 7 → pool.className index = .error (.invalidIndex index)) := by
  have hnames := ConstantPool.names_ofConstants draft
  refine ⟨.ofConstants draft, fun offset rest => ?_, hnames, fun index => ?_,
    fun index hvacant => ?_, fun index constant hholds => ⟨fun htag => ?_, fun htag => ?_⟩⟩
  · have hread := yields_readPool hfits (Nat.lt_succ_of_le (Nat.succ_le_succ hslots))
    rcases hread offset with ⟨pool, htake, rfl⟩
    exact htake rest
  · -- Vacant means held by nothing, so the two cases exhaust the numbers.
    rw [PoolDraft.vacant_iff]
    by_cases hholds : ∃ constant, draft.Holds index.toNat constant
    · rcases hholds with ⟨constant, hholds⟩
      exact Or.inr ⟨constant, hholds, fun other hother => hother.unique hholds⟩
    · exact Or.inl (not_exists.mp hholds)
  · -- A number that holds nothing holds neither a text nor a class.
    rw [PoolDraft.vacant_iff] at hvacant
    exact ⟨hnames.text_eq_error fun _ => hvacant _, hnames.className_eq_error fun _ => hvacant _⟩
  · -- A number holds one constant only, and its tag is not that of a text.
    refine hnames.text_eq_error fun bytes htext => htag ?_
    rw [hholds.unique htext]
    rfl
  · refine hnames.className_eq_error fun name hname => htag ?_
    rw [hholds.unique hname]
    rfl

/-- A class before its text, a class without one, and a wide constant in last place. -/
def crowdedPool : PoolDraft :=
  [.classRef 4, .long 27, .utf8 (Utf8.encodeString "Box"), .classRef 2, .methodHandle 6 1,
    .double 0]

/-- The first class has its name; the second one has the number of the long for it. The numbers
    after the two wide constants are vacant. -/
theorem readPool_numbered_crowdedPool :
    (∀ constant ∈ crowdedPool, constant.Fits) ∧ crowdedPool.slotCount ≤ 65534 ∧
      ∃ pool, ConstantPool.read ⟨8, Blueprint.assemblePool crowdedPool ++ [0, 33]⟩ =
          .ok (pool, ⟨8 + (Blueprint.assemblePool crowdedPool).length, [0, 33]⟩) ∧
        pool.className 1 = .ok "Box" ∧ pool.text 3 = .error (.invalidIndex 3) ∧
        pool.className 5 = .error (.invalidIndex 2) ∧ pool.text 6 = .error (.invalidIndex 6) ∧
        pool.text 8 = .error (.invalidIndex 8) ∧ pool.className 9 = .error (.invalidIndex 9) := by
  have hfits : ∀ constant ∈ crowdedPool, constant.Fits := by decide
  have hslots : crowdedPool.slotCount ≤ 65534 := by decide
  have htype : crowdedPool.Holds 1 (.classRef 4) := ⟨[], _, rfl, rfl⟩
  have hlong : crowdedPool.Holds 2 (.long 27) := ⟨[.classRef 4], _, rfl, rfl⟩
  have htext : crowdedPool.Holds 4 (.utf8 (Utf8.encodeString "Box")) :=
    ⟨[.classRef 4, .long 27], _, rfl, rfl⟩
  have hnameless : crowdedPool.Holds 5 (.classRef 2) :=
    ⟨[.classRef 4, .long 27, .utf8 (Utf8.encodeString "Box")], _, rfl, rfl⟩
  have hhandle : crowdedPool.Holds 6 (.methodHandle 6 1) :=
    ⟨[.classRef 4, .long 27, .utf8 (Utf8.encodeString "Box"), .classRef 2], _, rfl, rfl⟩
  have hsecond : crowdedPool.Vacant 3 := .second [.classRef 4] _ _ rfl rfl
  have hlast : crowdedPool.Vacant 8 := .second crowdedPool.dropLast _ _ rfl rfl
  have hpast : crowdedPool.Vacant 9 := .past (by decide)
  rcases readPool_numbered hfits hslots with ⟨pool, hread, hnames, -, hvacant, hkind⟩
  refine ⟨hfits, hslots, pool, hread 8 [0, 33], ?_, (hvacant 3 hsecond).1, ?_,
    (hkind 6 _ hhandle).1 (by decide), (hvacant 8 hlast).1, (hvacant 9 hpast).2⟩
  · exact (hnames.className_eq_ok_iff 1 _).mpr ⟨4, _, htype, htext, by decide⟩
  · -- The class constant at 5 points to a long, which is not a text.
    refine (hnames.className_eq_error_iff 5 _).mpr (Or.inr ⟨2, hnameless, ?_, rfl⟩)
    intro bytes hbytes
    cases hlong.unique hbytes

end AccessWidener
