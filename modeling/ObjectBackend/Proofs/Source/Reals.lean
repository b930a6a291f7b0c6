import ObjectBackend.Proofs.Source.Rereading

/-!
# The reals of a program

Reals are the only parts of a program that may be read back otherwise than they were written. A
program is read back if all of its reals are, and unchanged if they are unchanged. Just the finite
reals are read back.
-/

namespace ObjectBackend

open Floating

/-- A long real is read back just if it is finite. -/
lemma Floating.Binary64.isSome_reread? (x : Binary64) : x.reread?.isSome = x.isFinite := by
  have writable := Json.isWritable_ofBinary64 x
  unfold reread? isFinite
  unfold Json.ofBinary64 at writable ⊢
  cases datum : x.datum with
  | finite negative significand exponent =>
    rw [datum] at writable
    cases writable with
    | number plain inRange => exact inRange
  | _ => rfl

/-- A numeral that is read as a long real is read as a short one. -/
lemma Json.isSome_toBinary32? {n : Numeral} (inRange : n.toBinary64?.isSome = true) :
    (Json.number n).toBinary32?.isSome = true := by
  unfold toBinary32?
  dsimp only
  split
  · rfl
  · rw [Option.isSome_map, inRange]

/-- A short real is read back just if it is finite. -/
lemma Floating.Binary32.isSome_reread? (x : Binary32) : x.reread?.isSome = x.isFinite := by
  have writable := Json.isWritable_ofBinary32 x
  unfold reread? isFinite
  unfold Json.ofBinary32 at writable ⊢
  cases datum : x.datum with
  | finite negative significand exponent =>
    rw [datum] at writable
    cases writable with
    | number plain inRange => exact Json.isSome_toBinary32? inRange
  | _ => rfl

/-- A real constant of a program. -/
inductive RealConstant where
  | short (value : Binary32)
  | long (value : Binary64)
deriving DecidableEq

namespace RealConstant

/-- Whether the constant is a finite number. -/
def isFinite : RealConstant → Bool
  | short value => value.isFinite
  | long value => value.isFinite

/-- What is read of a constant that has been written. -/
def reread? : RealConstant → Option RealConstant
  | short value => value.reread?.map short
  | long value => value.reread?.map long

/-- A real constant is read back just if it is finite. -/
lemma isSome_reread? (r : RealConstant) : r.reread?.isSome = r.isFinite := by
  cases r with
  | short value => exact Option.isSome_map.trans value.isSome_reread?
  | long value => exact Option.isSome_map.trans value.isSome_reread?

end RealConstant

/-- The reals of an instruction. -/
def Instruction.reals : Instruction → List RealConstant
  | floatConstant _ value => [.short value]
  | doubleConstant _ value => [.long value]
  | _ => []

/-- The reals of the instructions of a block. -/
def BasicBlock.reals (b : BasicBlock) : List RealConstant :=
  b.instructions.flatMap Instruction.reals

/-- The reals of a body. -/
def Body.reals (b : Body) : List RealConstant := b.blocks.flatMap BasicBlock.reals

/-- The reals of an initial value. -/
def InitialValue.reals : InitialValue → List RealConstant
  | float value => [.short value]
  | double value => [.long value]
  | _ => []

/-- The reals of a field. -/
def FieldDef.reals (f : FieldDef) : List RealConstant := f.initial.toList.flatMap InitialValue.reals

/-- The reals of a method. -/
def MethodDef.reals (m : MethodDef) : List RealConstant := m.body.toList.flatMap Body.reals

/-- The reals of a class. -/
def ClassDef.reals (c : ClassDef) : List RealConstant :=
  c.fields.flatMap FieldDef.reals ++ c.methods.flatMap MethodDef.reals

/-- The reals of a program, in the order they are written. -/
def Program.reals (p : Program) : List RealConstant := p.classes.flatMap ClassDef.reals

/-- How what is read of a value depends on its reals. -/
structure Rereads {α : Type} (a : α) (reals : List RealConstant) (back : Option α) : Prop where
  isSome_iff : back.isSome = true ↔ ∀ r ∈ reals, r.reread?.isSome = true
  eq_self : (∀ r ∈ reals, r.reread? = some r) → back = some a

namespace Rereads

variable {α β γ : Type} {a : α} {reals : α → List RealConstant} {back : α → Option α}

/-- A value without reals is read as it was. -/
lemma self (a : α) : Rereads a [] (some a) where
  isSome_iff := by simp
  eq_self _ := rfl

/-- A value that is made of another one is read as that one is. -/
lemma map {b : β} {reals : List RealConstant} {back : Option α} (rereads : Rereads a reals back)
    {f : α → β} (made : f a = b) : Rereads b reals (back.map f) where
  isSome_iff := by rw [Option.isSome_map, rereads.isSome_iff]
  eq_self same := by rw [rereads.eq_self same, Option.map_some, made]

/-- A value that is made of two others is read as they are. -/
lemma both {b : β} {reals reals' : List RealConstant} {back : Option α} {back' : Option β}
    (first : Rereads a reals back) (second : Rereads b reals' back') (f : α → β → γ) :
    Rereads (f a b) (reals ++ reals') (back.bind fun a => back'.map (f a)) where
  isSome_iff := by
    rw [List.forall_mem_append, ← first.isSome_iff, ← second.isSome_iff]
    cases back <;> cases back' <;> simp
  eq_self same := by
    obtain ⟨same, same'⟩ := List.forall_mem_append.1 same
    rw [first.eq_self same, second.eq_self same']
    rfl

/-- A list is read as its items are. -/
lemma mapM_list (each : ∀ a, Rereads a (reals a) (back a)) (as : List α) :
    Rereads as (as.flatMap reals) (as.mapM back) := by
  induction as with
  | nil => exact self []
  | cons a as ih =>
    rw [List.mapM_cons, List.flatMap_cons]
    have rereads := (each a).both ih List.cons
    simp only [Option.map_eq_bind] at rereads
    exact rereads

/-- A part that may be missing is read as it is. -/
lemma mapM_option (each : ∀ a, Rereads a (reals a) (back a)) (value : Option α) :
    Rereads value (value.toList.flatMap reals) (value.mapM back) := by
  cases value with
  | none => exact self none
  | some a =>
    rw [Option.toList_some, List.flatMap_singleton, Option.mapM_some]
    exact (each a).map rfl

end Rereads

/-- What is read of a short real depends on it. -/
lemma rereads_short (value : Binary32) : Rereads value [.short value] value.reread? where
  isSome_iff := by simp [RealConstant.reread?]
  eq_self same := by simpa [RealConstant.reread?] using same

/-- What is read of a long real depends on it. -/
lemma rereads_long (value : Binary64) : Rereads value [.long value] value.reread? where
  isSome_iff := by simp [RealConstant.reread?]
  eq_self same := by simpa [RealConstant.reread?] using same

/-- What is read of an instruction depends on its reals. -/
lemma Instruction.rereads (i : Instruction) : Rereads i i.reals i.reread? := by
  cases i with
  | floatConstant receiver value => exact (rereads_short value).map rfl
  | doubleConstant receiver value => exact (rereads_long value).map rfl
  | _ => exact .self _

/-- What is read of a block depends on its reals. -/
lemma BasicBlock.rereads (b : BasicBlock) : Rereads b b.reals b.reread? :=
  (Rereads.mapM_list Instruction.rereads b.instructions).map rfl

/-- What is read of a body depends on its reals. -/
lemma Body.rereads (b : Body) : Rereads b b.reals b.reread? :=
  (Rereads.mapM_list BasicBlock.rereads b.blocks).map rfl

/-- What is read of an initial value depends on its reals. -/
lemma InitialValue.rereads (v : InitialValue) : Rereads v v.reals v.reread? := by
  cases v with
  | float value => exact (rereads_short value).map rfl
  | double value => exact (rereads_long value).map rfl
  | _ => exact .self _

/-- What is read of a field depends on its reals. -/
lemma FieldDef.rereads (f : FieldDef) : Rereads f f.reals f.reread? :=
  (Rereads.mapM_option InitialValue.rereads f.initial).map rfl

/-- What is read of a method depends on its reals. -/
lemma MethodDef.rereads (m : MethodDef) : Rereads m m.reals m.reread? :=
  (Rereads.mapM_option Body.rereads m.body).map rfl

/-- What is read of a class depends on its reals. -/
lemma ClassDef.rereads (c : ClassDef) : Rereads c c.reals c.reread? :=
  (Rereads.mapM_list FieldDef.rereads c.fields).both
    (Rereads.mapM_list MethodDef.rereads c.methods) fun fields methods => { c with fields, methods }

/-- What is read of the classes of a program depends on its reals. -/
lemma Program.rereads (p : Program) :
    Rereads p.classes p.reals (p.classes.mapM ClassDef.reread?) :=
  .mapM_list ClassDef.rereads p.classes

end ObjectBackend
