import Mathlib.Data.List.Forall2
import AccessWidener.ClassFile.Blueprint
import AccessWidener.Proofs.ClassFile.Taking

/-!
# Reading What Was Encoded

Every piece of a class file has an encoding, and the reader of such a piece takes exactly this
encoding off the front of a file and gives the piece back. What some readers give depends on where
in the file they stand, because they note the offset of a flag word. So the statement made for each
reader is that it takes the bytes wherever they stand and gives something of which a fact is known
(`Reader.Yields`), and the facts are chosen so that no offset occurs in them.

The statement passes through sequencing like the bytes do. A repeated reader takes the encodings of
its results one after the other. Constants are read until their slots are used up, and a wide one
uses up two, so the number to give to the reader is the number of slots and not of constants
(`yields_readConstants`).

## Main definitions

* `Reader.Yields`: A reader takes these bytes and gives something of which a fact is known.
* `Constant.Fits`: A constant that has a place for the length of its text.

## Theorems

* `Yields.bind`, `yields_times`, `yields_counted`: Sequences and repetitions.
* `yields_readConstant`: A constant is read from its encoding.
* `yields_readPool`: A pool is read from the encodings of its constants.
-/

namespace AccessWidener

namespace Bytes

/-! ### Wide words -/

/-- A number that fits below the digits of another one is put there by adding. -/
theorem shiftLeft_or {low places size : Nat} (high : Nat) (hsize : 1 <<< places = size)
    (h : low < size) : high <<< places ||| low = high * size + low := by
  rw [Nat.shiftLeft_eq, Nat.one_mul] at hsize
  rw [← hsize] at h ⊢
  rw [← Nat.shiftLeft_add_eq_or_of_lt h, Nat.shiftLeft_eq]

/-- Bytes in front of others count 256 times as much. -/
theorem toNat_toUInt32 (a b c d : UInt8) :
    (toUInt32 a b c d).toNat =
      a.toNat * 16777216 + b.toNat * 65536 + c.toNat * 256 + d.toNat := by
  have ha := a.toNat_lt
  have hb := b.toNat_lt
  have hc := c.toNat_lt
  have hd := d.toNat_lt
  have hshift₁ : a.toNat <<< 24 % 2 ^ 32 = a.toNat <<< 24 := by
    rw [Nat.mod_eq_of_lt (by rw [Nat.shiftLeft_eq]; omega)]
  have hshift₂ : b.toNat <<< 16 % 2 ^ 32 = b.toNat <<< 16 := by
    rw [Nat.mod_eq_of_lt (by rw [Nat.shiftLeft_eq]; omega)]
  have hshift₃ : c.toNat <<< 8 % 2 ^ 32 = c.toNat <<< 8 := by
    rw [Nat.mod_eq_of_lt (by rw [Nat.shiftLeft_eq]; omega)]
  -- The bytes are put below each other from the right, where there is room.
  have h₁ : c.toNat <<< 8 ||| d.toNat = c.toNat * 256 + d.toNat := shiftLeft_or _ rfl (by omega)
  have h₂ : b.toNat <<< 16 ||| (c.toNat * 256 + d.toNat) =
      b.toNat * 65536 + (c.toNat * 256 + d.toNat) := shiftLeft_or _ rfl (by omega)
  have h₃ : a.toNat <<< 24 ||| (b.toNat * 65536 + (c.toNat * 256 + d.toNat)) =
      a.toNat * 16777216 + (b.toNat * 65536 + (c.toNat * 256 + d.toNat)) :=
    shiftLeft_or _ rfl (by omega)
  simp only [toUInt32, UInt32.toNat_or, UInt32.toNat_shiftLeft, UInt8.toNat_toUInt32,
    UInt32.reduceToNat, Nat.reduceMod]
  rw [hshift₁, hshift₂, hshift₃, Nat.or_assoc, Nat.or_assoc, h₁, h₂, h₃]
  omega

theorem toUInt32_ofUInt32 (word : UInt32) :
    toUInt32 (word >>> 24).toUInt8 (word >>> 16).toUInt8 (word >>> 8).toUInt8 word.toUInt8 =
      word := by
  have hword := word.toNat_lt
  apply UInt32.toNat_inj.mp
  rw [toNat_toUInt32]
  simp only [UInt32.toNat_toUInt8, UInt32.toNat_shiftRight, UInt32.reduceToNat, Nat.reduceMod,
    Nat.shiftRight_eq_div_pow]
  omega

theorem toUInt64_ofUInt64 (word : UInt64) :
    toUInt64 (word >>> 32).toUInt32 word.toUInt32 = word := by
  have hword := word.toNat_lt
  apply UInt64.toNat_inj.mp
  simp only [toUInt64, UInt64.toNat_or, UInt64.toNat_shiftLeft, UInt32.toNat_toUInt64,
    UInt64.toNat_toUInt32, UInt64.toNat_shiftRight, UInt64.reduceToNat, Nat.reduceMod,
    Nat.shiftRight_eq_div_pow]
  rw [Nat.mod_eq_of_lt (by rw [Nat.shiftLeft_eq]; omega), shiftLeft_or _ rfl (by omega)]
  omega

end Bytes

namespace Reader

variable {α β : Type}

/-- Wherever they stand in a file, the reader takes exactly these bytes and gives something of which
    `P` is true. -/
def Yields (reader : Reader α) (bytes : Bytes) (P : α → Prop) : Prop :=
  ∀ offset, ∃ a, Takes reader offset bytes a ∧ P a

/-! ### Sequences -/

theorem Yields.imp {reader : Reader α} {bytes : Bytes} {P Q : α → Prop}
    (h : Yields reader bytes P) (himp : ∀ a, P a → Q a) : Yields reader bytes Q := by
  intro offset
  rcases h offset with ⟨a, htake, ha⟩
  exact ⟨a, htake, himp a ha⟩

theorem yields_pure {a : α} {P : α → Prop} (h : P a) : Yields (pure a) [] P :=
  fun offset => ⟨a, takes_pure offset a, h⟩

theorem Yields.bind {reader : Reader α} {next : α → Reader β} {first second : Bytes} {P : α → Prop}
    {Q : β → Prop} (h : Yields reader first P) (hn : ∀ a, P a → Yields (next a) second Q) :
    Yields (reader >>= next) (first ++ second) Q := by
  intro offset
  rcases h offset with ⟨a, htake, ha⟩
  rcases hn a ha (offset + first.length) with ⟨b, htake', hb⟩
  exact ⟨b, htake.bind htake', hb⟩

/-- A last step that takes nothing. -/
theorem Yields.bind_nil {reader : Reader α} {next : α → Reader β} {bytes : Bytes} {P : α → Prop}
    {Q : β → Prop} (h : Yields reader bytes P) (hn : ∀ a, P a → Yields (next a) [] Q) :
    Yields (reader >>= next) bytes Q := by
  have hbind := h.bind hn
  rwa [List.append_nil] at hbind

theorem Yields.map {reader : Reader α} {bytes : Bytes} {P : α → Prop} (h : Yields reader bytes P)
    (f : α → β) {Q : β → Prop} (hf : ∀ a, P a → Q (f a)) : Yields (f <$> reader) bytes Q := by
  rw [map_eq_pure_bind]
  exact h.bind_nil (fun a ha => yields_pure (hf a ha))

theorem yields_lift {result : Except ClassFault α} {a : α} (h : result = .ok a) :
    Yields (liftM result) [] (· = a) := by
  rw [h]
  exact yields_pure rfl

/-! ### Primitives -/

theorem yields_byte (b : UInt8) : Yields byte [b] (· = b) :=
  fun _ => ⟨b, fun _ => rfl, rfl⟩

theorem yields_word16 (word : UInt16) : Yields word16 (Bytes.ofUInt16 word) (· = word) :=
  fun offset => ⟨word, (takes_word16_iff offset _ word).mpr rfl, rfl⟩

theorem yields_word32 (word : UInt32) : Yields word32 (Bytes.ofUInt32 word) (· = word) := by
  refine fun offset => ⟨word, fun rest => ?_, rfl⟩
  simp only [Bytes.ofUInt32, word32, List.cons_append, List.nil_append, Bytes.toUInt32_ofUInt32,
    List.length_cons, List.length_nil]

theorem yields_word64 (word : UInt64) : Yields word64 (Bytes.ofUInt64 word) (· = word) := by
  refine (yields_word32 _).bind (fun high hhigh => ?_)
  refine (yields_word32 _).bind_nil (fun low hlow => yields_pure ?_)
  rw [hhigh, hlow, Bytes.toUInt64_ofUInt64]

theorem yields_take (taken : Bytes) : Yields (take taken.length) taken (· = taken) := by
  refine fun offset => ⟨taken, fun rest => ?_, rfl⟩
  simp only [take, splitExactly_append]

theorem yields_skip (skipped : Bytes) : Yields (skip skipped.length) skipped (fun _ => True) :=
  (yields_take skipped).bind_nil (fun _ _ => yields_pure trivial)

/-- A flag word is read with its flags, and with a place that depends on the file. -/
theorem yields_readSite (flags : UInt16) :
    Yields FlagSite.read (Bytes.ofUInt16 flags) (·.flags = flags) := by
  intro offset
  refine ⟨⟨offset, flags⟩, fun rest => ?_, rfl⟩
  have htake := (takes_word16_iff offset _ flags).mpr rfl rest
  simp only [FlagSite.read, bind_apply, Reader.offset, htake, pure_apply]

/-! ### Repetitions -/

/-- A reader that shows an item for each row shows all of them when it is repeated. -/
theorem yields_times {reader : Reader α} {γ : Type} {view : α → γ} {rows : List Bytes}
    {items : List γ}
    (h : List.Forall₂ (fun row item => Yields reader row (view · = item)) rows items) :
    Yields (times reader rows.length) rows.flatten (·.map view = items) := by
  induction h with
  | nil => exact yields_pure rfl
  | cons hfirst _ ih =>
      refine hfirst.bind (fun a ha => ih.bind_nil (fun others hothers => yields_pure ?_))
      rw [List.map_cons, ha, hothers]

/-- A table is read by its count. -/
theorem yields_counted {reader : Reader α} {γ : Type} {view : α → γ} {rows : List Bytes}
    {items : List γ}
    (h : List.Forall₂ (fun row item => Yields reader row (view · = item)) rows items)
    (hlength : rows.length < UInt16.size) :
    Yields (counted reader) (Assembler.table rows) (·.map view = items) := by
  refine (yields_word16 _).bind (fun count hcount => ?_)
  have hrows : count.toNat = rows.length := by
    rw [hcount, UInt16.toNat_ofNat_of_lt' hlength]
  rw [hrows]
  exact yields_times h

end Reader

open Reader

/-! ### Constants -/

/-- A constant that has a place for the length of its text. -/
def Constant.Fits : Constant → Prop
  | utf8 text => text.length < UInt16.size
  | _ => True

instance (constant : Constant) : Decidable constant.Fits :=
  match constant with
  | .utf8 text => inferInstanceAs (Decidable (text.length < UInt16.size))
  | .integer _ | .float _ | .long _ | .double _ | .classRef _ | .string _ | .fieldRef .. |
    .methodRef .. | .interfaceMethodRef .. | .nameAndType .. | .methodHandle .. | .methodType _ |
    .dynamic .. | .invokeDynamic .. | .moduleRef _ | .packageRef _ => isTrue trivial

theorem yields_readPair (combine : UInt16 → UInt16 → Constant) (a b : UInt16) :
    Yields (Constant.readPair combine) (Bytes.ofUInt16 a ++ Bytes.ofUInt16 b)
      (· = combine a b) := by
  refine (yields_word16 a).bind (fun first hfirst => ?_)
  refine (yields_word16 b).bind_nil (fun second hsecond => yields_pure ?_)
  rw [hfirst, hsecond]

/-- What follows the tag of a constant is read as this constant. -/
theorem yields_readPayload {constant : Constant} (h : constant.Fits) :
    Yields (Constant.readPayload constant.tag) constant.payload (· = constant) := by
  have hword : ∀ (combine : UInt16 → Constant) (index : UInt16),
      Yields (combine <$> word16) (Bytes.ofUInt16 index) (· = combine index) :=
    fun combine index => (yields_word16 index).map combine (fun _ ha => congrArg combine ha)
  cases constant with
  | utf8 text =>
      refine (yields_word16 _).bind (fun length hlength => ?_)
      -- A fitting text has a length that two bytes hold.
      have hlength : length.toNat = text.length := by
        rw [hlength, UInt16.toNat_ofNat_of_lt' h]
      rw [hlength]
      exact (yields_take text).map _ (fun _ ha => congrArg _ ha)
  | integer value => exact (yields_word32 value).map _ (fun _ ha => congrArg _ ha)
  | float bits => exact (yields_word32 bits).map _ (fun _ ha => congrArg _ ha)
  | long value => exact (yields_word64 value).map _ (fun _ ha => congrArg _ ha)
  | double bits => exact (yields_word64 bits).map _ (fun _ ha => congrArg _ ha)
  | classRef name => exact hword _ name
  | string text => exact hword _ text
  | fieldRef owner signature => exact yields_readPair _ owner signature
  | methodRef owner signature => exact yields_readPair _ owner signature
  | interfaceMethodRef owner signature => exact yields_readPair _ owner signature
  | nameAndType name descriptor => exact yields_readPair _ name descriptor
  | methodHandle kind target =>
      -- The kind byte stands in front of the index and is kept as read.
      refine (yields_byte kind).bind (fun read hread => ?_)
      rw [hread]
      exact hword _ target
  | methodType descriptor => exact hword _ descriptor
  | dynamic bootstrap signature => exact yields_readPair _ bootstrap signature
  | invokeDynamic bootstrap signature => exact yields_readPair _ bootstrap signature
  | moduleRef name => exact hword _ name
  | packageRef name => exact hword _ name

/-- A constant is read from its encoding. -/
theorem yields_readConstant {constant : Constant} (h : constant.Fits) :
    Yields Constant.read constant.encode (· = constant) := by
  refine (yields_byte constant.tag).bind (fun tag htag => ?_)
  rw [htag]
  exact yields_readPayload h

/-! ### Pools -/

namespace PoolDraft

theorem slotCount_cons (constant : Constant) (draft : PoolDraft) :
    slotCount (constant :: draft) = constant.width + slotCount draft := rfl

theorem slotCount_append (draft more : PoolDraft) :
    slotCount (draft ++ more) = slotCount draft + slotCount more := by
  induction draft with
  | nil => rw [List.nil_append]; exact (Nat.zero_add _).symm
  | cons constant draft ih =>
      rw [List.cons_append, slotCount_cons, slotCount_cons, ih, Nat.add_assoc]

theorem eq_nil_of_slotCount {draft : PoolDraft} (h : draft.slotCount = 0) : draft = [] := by
  cases draft with
  | nil => rfl
  | cons constant draft =>
      rw [slotCount_cons, Constant.width] at h
      split at h <;> omega

end PoolDraft

/-- Constants are read until their slots are used up. -/
theorem yields_readConstants {draft : PoolDraft} (h : ∀ constant ∈ draft, constant.Fits) :
    Yields (ConstantPool.readConstants draft.slotCount) (draft.flatMap Constant.encode)
      (· = draft) := by
  induction draft with
  | nil => exact yields_pure rfl
  | cons constant rest ih =>
      rw [List.forall_mem_cons] at h
      have hfirst := yields_readConstant h.1
      rw [PoolDraft.slotCount_cons, List.flatMap_cons, Constant.width]
      by_cases hwide : constant.isWide = true
      · rw [if_pos hwide, Nat.add_comm, ConstantPool.readConstants]
        refine hfirst.bind (fun first heq => ?_)
        rw [heq, if_pos hwide]
        exact (ih h.2).bind_nil (fun others hothers => yields_pure (by rw [hothers]))
      · rw [if_neg hwide]
        -- The last slot is read on its own, so there are two ways to get here.
        cases hslots : PoolDraft.slotCount rest with
        | zero =>
            rw [PoolDraft.eq_nil_of_slotCount hslots, List.flatMap_nil, List.append_nil]
            exact hfirst.bind_nil (fun first heq => yields_pure (by rw [heq]))
        | succ slots =>
            have hcount : 1 + (slots + 1) = slots + 2 := by omega
            rw [hcount, ConstantPool.readConstants]
            refine hfirst.bind (fun first heq => ?_)
            rw [heq, if_neg hwide, ← hslots]
            exact (ih h.2).bind_nil (fun others hothers => yields_pure (by rw [hothers]))

/-- A pool is read from the encodings of its constants. -/
theorem yields_readPool {draft : PoolDraft} (h : ∀ constant ∈ draft, constant.Fits)
    (hslots : draft.slotCount + 1 < UInt16.size) :
    Yields ConstantPool.read (Blueprint.assemblePool draft) (· = .ofConstants draft) := by
  refine (yields_word16 _).bind (fun count hcount => ?_)
  have hslots : count.toNat - 1 = draft.slotCount := by
    rw [hcount, UInt16.toNat_ofNat_of_lt' hslots, Nat.add_sub_cancel]
  rw [hslots]
  exact (yields_readConstants h).map _ (fun _ ha => congrArg _ ha)

end AccessWidener
