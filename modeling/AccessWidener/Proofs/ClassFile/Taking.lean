import AccessWidener.ClassFile.Layout

/-!
# What a Reader Takes

A reader of class files is a function of a cursor, and nothing in its type keeps it from looking at
bytes far behind the ones it takes off. The readers of this library do not: what they give depends
on the bytes they take and on no others. `Takes` says that of one run, for every possible rest of
the file, and `Local` says that all runs of a reader are of that kind.

Locality has a second half for runs that fail. A local reader that stops with anything but an
unexpected end has seen enough: more bytes at the end of the file leave the fault as it is. The
first half makes a run composable, since the bytes taken by a sequence are those taken by its
parts, one behind the other (`takes_bind_iff`). The second half is what makes truncation visible.

Locality passes through sequencing, so it is proved once for the primitives and every reader that
is put together from them inherits it.

## Main definitions

* `Takes`: A reader takes exactly these bytes, whatever follows.
* `Local`: Every run of a reader depends on the bytes it takes only.

## Theorems

* `takes_bind_iff`: A sequence takes the bytes of its parts, one behind the other.
* `local_bind`, `local_times`, `local_counted`: Locality passes through sequencing.
* `takes_word16_iff`: A word is taken from its two bytes.
* `local_readPool`, `local_readSite`: The readers of constants and flag words are local.
-/

namespace AccessWidener

namespace Reader

variable {α β : Type}

/-- At this offset the reader takes exactly `bytes` off the front of a file and gives `a`, whatever
    follows. -/
def Takes (reader : Reader α) (offset : Nat) (bytes : Bytes) (a : α) : Prop :=
  ∀ rest, reader ⟨offset, bytes ++ rest⟩ = .ok (a, ⟨offset + bytes.length, rest⟩)

/-- Runs of the reader depend on the bytes they take only. A run that fails for any reason but the
    end of the file fails for the same reason on every longer file. -/
structure Local (reader : Reader α) : Prop where
  takes : ∀ offset bytes a cursor, reader ⟨offset, bytes⟩ = .ok (a, cursor) →
    ∃ taken, bytes = taken ++ cursor.rest ∧ cursor.offset = offset + taken.length ∧
      Takes reader offset taken a
  fails : ∀ offset bytes fault, reader ⟨offset, bytes⟩ = .error fault →
    fault = .unexpectedEnd ∨ ∀ more, reader ⟨offset, bytes ++ more⟩ = .error fault

/-- A run that leaves nothing behind has taken everything. -/
theorem Local.takes_all {reader : Reader α} (hl : Local reader) {offset : Nat} {bytes : Bytes}
    {a : α} {cursor : Cursor} (h : reader ⟨offset, bytes⟩ = .ok (a, cursor))
    (hrest : cursor.rest = []) : Takes reader offset bytes a := by
  rcases hl.takes offset bytes a cursor h with ⟨taken, hbytes, -, ht⟩
  rw [hrest, List.append_nil] at hbytes
  rwa [hbytes]

/-! ### Sequencing -/

theorem bind_apply (reader : Reader α) (next : α → Reader β) (cursor : Cursor) :
    (reader >>= next) cursor = match reader cursor with
      | .ok (a, moved) => next a moved
      | .error fault => .error fault := by
  change (reader cursor >>= fun result => next result.1 result.2) = _
  cases reader cursor <;> rfl

theorem pure_apply (a : α) (cursor : Cursor) : (pure a : Reader α) cursor = .ok (a, cursor) := rfl

theorem takes_pure (offset : Nat) (a : α) : Takes (pure a) offset [] a := by
  intro rest
  rfl

theorem Takes.bind {reader : Reader α} {next : α → Reader β} {offset : Nat} {first second : Bytes}
    {a : α} {b : β} (h : Takes reader offset first a)
    (hn : Takes (next a) (offset + first.length) second b) :
    Takes (reader >>= next) offset (first ++ second) b := by
  intro rest
  rw [List.append_assoc, bind_apply, h]
  simp only [hn rest, List.length_append, Nat.add_assoc]

theorem local_pure (a : α) : Local (pure a : Reader α) := by
  refine ⟨fun offset bytes b cursor h => ?_, fun offset bytes fault h => ?_⟩
  · rw [pure_apply] at h
    cases h
    exact ⟨[], rfl, rfl, takes_pure offset a⟩
  · rw [pure_apply] at h
    cases h

theorem local_bind {reader : Reader α} {next : α → Reader β} (hr : Local reader)
    (hn : ∀ a, Local (next a)) : Local (reader >>= next) := by
  refine ⟨fun offset bytes b cursor h => ?_, fun offset bytes fault h => ?_⟩
  · rw [bind_apply] at h
    cases hfirst : reader ⟨offset, bytes⟩ with
    | error fault =>
        rw [hfirst] at h
        cases h
    | ok result =>
        rcases result with ⟨a, middle⟩
        rw [hfirst] at h
        rcases hr.takes _ _ _ _ hfirst with ⟨first, hbytes, hoffset, htake⟩
        rcases (hn a).takes _ _ _ _ h with ⟨second, hrest, hend, htake'⟩
        rw [hoffset] at hend htake'
        -- What the second part takes begins where the first part stopped.
        refine ⟨first ++ second, ?_, ?_, htake.bind htake'⟩
        · rw [hbytes, hrest, List.append_assoc]
        · rw [hend, List.length_append, Nat.add_assoc]
  · rw [bind_apply] at h
    cases hfirst : reader ⟨offset, bytes⟩ with
    | error early =>
        rw [hfirst] at h
        cases h
        -- A sequence that stops in its first part stops for the reason of that part.
        rcases hr.fails _ _ _ hfirst with hend | hmore
        · exact Or.inl hend
        · refine Or.inr (fun more => ?_)
          rw [bind_apply, hmore]
    | ok result =>
        rcases result with ⟨a, middle⟩
        rw [hfirst] at h
        rcases hr.takes _ _ _ _ hfirst with ⟨first, hbytes, hoffset, htake⟩
        rcases (hn a).fails _ _ _ h with hend | hmore
        · exact Or.inl hend
        · -- The first part takes what it took before, so the second one sees the longer rest.
          refine Or.inr (fun more => ?_)
          rw [bind_apply, hbytes, List.append_assoc, htake]
          rw [hoffset] at hmore
          exact hmore more

/-- A sequence takes the bytes of its first part and, behind them, those of the second. -/
theorem takes_bind_iff {reader : Reader α} {next : α → Reader β} (hr : Local reader)
    (hn : ∀ a, Local (next a)) (offset : Nat) (bytes : Bytes) (b : β) :
    Takes (reader >>= next) offset bytes b ↔
      ∃ first second a, bytes = first ++ second ∧ Takes reader offset first a ∧
        Takes (next a) (offset + first.length) second b := by
  constructor
  · intro h
    -- With nothing behind it, the run leaves nothing behind, so the second part takes it all.
    have hrun := h []
    rw [List.append_nil, bind_apply] at hrun
    cases hfirst : reader ⟨offset, bytes⟩ with
    | error fault =>
        rw [hfirst] at hrun
        cases hrun
    | ok result =>
        rcases result with ⟨a, middle⟩
        rw [hfirst] at hrun
        rcases hr.takes _ _ _ _ hfirst with ⟨first, hbytes, hoffset, htake⟩
        refine ⟨first, middle.rest, a, hbytes, htake, ?_⟩
        rw [← hoffset]
        exact (hn a).takes_all hrun rfl
  · rintro ⟨first, second, a, rfl, htake, htake'⟩
    exact htake.bind htake'

theorem local_map {reader : Reader α} (f : α → β) (hr : Local reader) : Local (f <$> reader) := by
  rw [map_eq_pure_bind]
  exact local_bind hr (fun a => local_pure (f a))

theorem takes_map_iff {reader : Reader α} (f : α → β) (hr : Local reader) (offset : Nat)
    (bytes : Bytes) (b : β) :
    Takes (f <$> reader) offset bytes b ↔ ∃ a, Takes reader offset bytes a ∧ f a = b := by
  rw [map_eq_pure_bind, takes_bind_iff hr (fun a => local_pure (f a))]
  constructor
  · rintro ⟨first, second, a, rfl, htake, hpure⟩
    -- Wrapping a result up takes no bytes.
    have hrun := hpure []
    rw [pure_apply, Except.ok.injEq, Prod.mk.injEq, Cursor.mk.injEq, List.append_nil] at hrun
    refine ⟨a, ?_, hrun.1⟩
    rwa [hrun.2.2, List.append_nil]
  · rintro ⟨a, htake, rfl⟩
    exact ⟨bytes, [], a, (List.append_nil bytes).symm, htake, takes_pure _ _⟩

theorem local_lift (result : Except ClassFault α) : Local (liftM result : Reader α) := by
  cases result with
  | ok a => exact local_pure a
  | error fault =>
      refine ⟨fun offset bytes a cursor h => ?_, fun offset bytes early h => ?_⟩
      · cases h
      · cases h
        exact Or.inr (fun more => rfl)

theorem local_fail (fault : ClassFault) : Local (fail fault : Reader α) := by
  refine ⟨fun offset bytes a cursor h => ?_, fun offset bytes early h => ?_⟩
  · cases h
  · cases h
    exact Or.inr (fun more => rfl)

/-! ### Primitives -/

theorem splitExactly_append (taken left : Bytes) :
    splitExactly taken.length (taken ++ left) = some (taken, left) := by
  induction taken with
  | nil => rfl
  | cons b taken ih =>
      simp only [List.length_cons, List.cons_append, splitExactly, ih, Option.map_some]

theorem append_of_splitExactly {n : Nat} {bytes taken left : Bytes}
    (h : splitExactly n bytes = some (taken, left)) : bytes = taken ++ left ∧ taken.length = n := by
  induction n generalizing bytes taken with
  | zero =>
      cases h
      exact ⟨rfl, rfl⟩
  | succ n ih =>
      cases bytes with
      | nil => cases h
      | cons b bytes =>
          simp only [splitExactly, Option.map_eq_some_iff, Prod.mk.injEq, Prod.exists] at h
          rcases h with ⟨taken', left', hsplit, rfl, rfl⟩
          -- One byte moves to the taken part, and the rest of the count is split from what follows.
          rcases ih hsplit with ⟨hbytes, hlen⟩
          exact ⟨by rw [hbytes, List.cons_append], by rw [List.length_cons, hlen]⟩

theorem local_take (n : Nat) : Local (take n) := by
  refine ⟨fun offset bytes a cursor h => ?_, fun offset bytes fault h => ?_⟩
  · simp only [take] at h
    cases hsplit : splitExactly n bytes with
    | none =>
        rw [hsplit] at h
        cases h
    | some parts =>
        rcases parts with ⟨taken, left⟩
        rw [hsplit] at h
        cases h
        rcases append_of_splitExactly hsplit with ⟨hbytes, rfl⟩
        -- What is taken is a front of the bytes, so anything may come behind it.
        refine ⟨a, hbytes, rfl, fun rest => ?_⟩
        simp only [take, splitExactly_append]
  · -- The only way to fail is to run out of bytes.
    simp only [take] at h
    cases hsplit : splitExactly n bytes with
    | none =>
        rw [hsplit] at h
        cases h
        exact Or.inl rfl
    | some parts =>
        rw [hsplit] at h
        cases h

theorem local_skip (n : Nat) : Local (skip n) :=
  local_bind (local_take n) (fun _ => local_pure ())

theorem local_byte : Local byte := by
  refine ⟨fun offset bytes a cursor h => ?_, fun offset bytes fault h => ?_⟩
  · match bytes with
    | [] => cases h
    | a :: left =>
        cases h
        exact ⟨[a], rfl, rfl, fun rest => rfl⟩
  · match bytes with
    | [] =>
        cases h
        exact Or.inl rfl
    | a :: left => cases h

theorem local_word16 : Local word16 := by
  refine ⟨fun offset bytes a cursor h => ?_, fun offset bytes fault h => ?_⟩
  · -- Two bytes are there, and what follows them was not looked at.
    match bytes with
    | [] => cases h
    | [_] => cases h
    | a :: b :: left =>
        cases h
        exact ⟨[a, b], rfl, rfl, fun rest => rfl⟩
  · -- With one byte or none the only fault is the end of the input.
    match bytes with
    | [] =>
        cases h
        exact Or.inl rfl
    | [_] =>
        cases h
        exact Or.inl rfl
    | a :: b :: left => cases h

/-- A word is taken from its two bytes, wherever they stand. -/
theorem takes_word16_iff (offset : Nat) (bytes : Bytes) (word : UInt16) :
    Takes word16 offset bytes word ↔ bytes = Bytes.ofUInt16 word := by
  constructor
  · intro h
    rcases local_word16.takes _ _ _ _ (h []) with ⟨taken, hbytes, -, -⟩
    have hrun := h []
    rw [List.append_nil] at hrun hbytes
    match bytes with
    | [] => cases hrun
    | [_] => cases hrun
    | a :: b :: left =>
        -- Nothing is left behind the two bytes, and they spell the word.
        simp only [word16, Except.ok.injEq, Prod.mk.injEq, Cursor.mk.injEq] at hrun
        rw [← hrun.1, Bytes.ofUInt16_toUInt16, hrun.2.2]
  · rintro rfl rest
    simp only [Bytes.ofUInt16, word16, List.cons_append, List.nil_append,
      Bytes.toUInt16_ofUInt16, List.length_cons, List.length_nil]

theorem local_word32 : Local word32 := by
  refine ⟨fun offset bytes a cursor h => ?_, fun offset bytes fault h => ?_⟩
  · match bytes with
    | [] => cases h
    | [_] => cases h
    | [_, _] => cases h
    | [_, _, _] => cases h
    | a :: b :: c :: d :: left =>
        cases h
        exact ⟨[a, b, c, d], rfl, rfl, fun rest => rfl⟩
  · match bytes with
    | [] | [_] | [_, _] | [_, _, _] =>
        cases h
        exact Or.inl rfl
    | a :: b :: c :: d :: left => cases h

theorem local_word64 : Local word64 :=
  local_bind local_word32 (fun _ => local_bind local_word32 (fun _ => local_pure _))

theorem local_offset : Local offset := by
  refine ⟨fun start bytes a cursor h => ?_, fun start bytes fault h => ?_⟩
  · cases h
    exact ⟨[], rfl, rfl, fun rest => rfl⟩
  · cases h

/-! ### Repetition -/

theorem local_times {reader : Reader α} (hr : Local reader) (n : Nat) : Local (times reader n) := by
  induction n with
  | zero => exact local_pure []
  | succ n ih => exact local_bind hr (fun _ => local_bind ih (fun _ => local_pure _))

theorem local_counted {reader : Reader α} (hr : Local reader) : Local (counted reader) :=
  local_bind local_word16 (fun count => local_times hr count.toNat)

end Reader

open Reader

/-! ### Class files -/

theorem local_readPair (combine : UInt16 → UInt16 → Constant) :
    Local (Constant.readPair combine) :=
  local_bind local_word16 (fun _ => local_bind local_word16 (fun _ => local_pure _))

theorem local_readPayload (tag : UInt8) : Local (Constant.readPayload tag) := by
  unfold Constant.readPayload
  -- One case for each tag, in the order of the format, and one for unknown tags.
  split
  · exact local_bind local_word16 (fun length => local_map _ (local_take length.toNat))
  · exact local_map _ local_word32
  · exact local_map _ local_word32
  · exact local_map _ local_word64
  · exact local_map _ local_word64
  · exact local_map _ local_word16
  · exact local_map _ local_word16
  · exact local_readPair _
  · exact local_readPair _
  · exact local_readPair _
  · exact local_readPair _
  · exact local_bind local_byte (fun _ => local_map _ local_word16)
  · exact local_map _ local_word16
  · exact local_readPair _
  · exact local_readPair _
  · exact local_map _ local_word16
  · exact local_map _ local_word16
  · exact local_fail _

theorem local_readConstant : Local Constant.read :=
  local_bind local_byte local_readPayload

theorem local_readConstants (slots : Nat) : Local (ConstantPool.readConstants slots) := by
  -- A wide constant uses up two slots, so the induction is that of the reader itself.
  induction slots using ConstantPool.readConstants.induct with
  | case1 => exact local_pure []
  | case2 => exact local_bind local_readConstant (fun _ => local_pure _)
  | case3 slots ih ih' =>
      refine local_bind local_readConstant (fun first => ?_)
      by_cases hwide : first.isWide
      · simp only [hwide, if_true]
        exact local_bind ih (fun _ => local_pure _)
      · simp only [hwide]
        exact local_bind ih' (fun _ => local_pure _)

theorem local_readPool : Local ConstantPool.read :=
  local_bind local_word16 (fun _ => local_map _ (local_readConstants _))

theorem local_readSite : Local FlagSite.read :=
  local_bind local_offset (fun _ => local_bind local_word16 (fun _ => local_pure _))

theorem local_readText (pool : ConstantPool) : Local pool.readText :=
  local_bind local_word16 (fun index => local_lift (pool.text index))

theorem local_readClassName (pool : ConstantPool) : Local pool.readClassName :=
  local_bind local_word16 (fun index => local_lift (pool.className index))

theorem local_skipAttribute : Local skipAttribute :=
  local_bind local_word16 (fun _ => local_bind local_word32 (fun length => local_skip length.toNat))

end AccessWidener
