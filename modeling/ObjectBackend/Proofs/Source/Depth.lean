import ObjectBackend.Proofs.Json.Depth
import ObjectBackend.Proofs.Source.Values

/-!
# How deeply documents of programs nest

What a bound of the depth of a document says about its parts. Only types nest arbitrarily, so all
parts of a program in which no type can stand are of a fixed depth, and for any other part a bound
follows from bounds of what it holds.
-/

namespace ObjectBackend

open Floating

namespace Json

variable {α : Type} {n : Nat}

/-- The bound on a list is a bound on what is written of each item that is smaller by one. -/
lemma depth_ofList_le {write : α → Json} {items : List α} :
    (ofList write items).depth ≤ n + 1 ↔ ∀ a ∈ items, (write a).depth ≤ n := by
  rw [ofList, depth_array_le, List.forall_mem_map]

/-- A string is no container. -/
@[simp] lemma depth_string (text : String) : (string text).depth = 0 := rfl

/-- A truth value is no container. -/
@[simp] lemma depth_bool (value : Bool) : (bool value).depth = 0 := rfl

/-- An integer is no container. -/
@[simp] lemma depth_ofInt (n : Int) : (ofInt n).depth = 0 := rfl

/-- A long real is no container. -/
@[simp] lemma depth_ofBinary64 (x : Binary64) : (ofBinary64 x).depth = 0 := by
  rw [ofBinary64]
  split <;> rfl

/-- A short real is no container. -/
@[simp] lemma depth_ofBinary32 (x : Binary32) : (ofBinary32 .own x).depth = 0 := by
  rw [ofBinary32]
  split <;> rfl

/-- A text that may be missing is no container. -/
@[simp] lemma depth_optionalText (text : Option String) : (ofOption string text).depth = 0 := by
  cases text <;> rfl

end Json

open Json (depth_array_le depth_object_le depth_ofList_le)

section Written

variable {n : Nat}

/-- A kind is written in one container at most. -/
lemma Kind.depth_toJson_le (k : Kind) : k.toJson.depth ≤ 1 := by
  cases k with
  | array element => exact depth_object_le.2 (by simp)
  | _ => exact Nat.zero_le 1

/-- A variable is no container. -/
@[simp] lemma Var.depth_toJson (v : Var) : v.toJson.depth = 0 := rfl

/-- A block number is no container. -/
@[simp] lemma BlockId.depth_toJson (b : BlockId) : b.toJson.depth = 0 := rfl

/-- A reference to a field is written in one container. -/
@[simp] lemma FieldRef.depth_toJson (f : FieldRef) : f.toJson.depth = 1 := rfl

/-- A variable that may be missing is no container. -/
@[simp] lemma depth_optionalVar (v : Option Var) : (Json.ofOption Var.toJson v).depth = 0 := by
  cases v <;> rfl

/-- A list of variables is written in one container. -/
@[simp] lemma depth_vars_le (vs : List Var) (n : Nat) :
    (Json.ofList Var.toJson vs).depth ≤ n + 1 :=
  depth_ofList_le.2 fun _ _ => Nat.zero_le n

/-- An instruction is one container more around its operands. -/
lemma Instruction.depth_toJson_le {i : Instruction} : (i.toJson .own).depth ≤ n + 1 ↔
    ∀ operand ∈ i.operands.2, (operand.2.toJson .own).depth ≤ n := by
  change (Json.object (_ :: i.operands.2.map _)).depth ≤ n + 1 ↔ _
  rw [depth_object_le, List.forall_mem_cons, List.forall_mem_map]
  exact and_iff_right (Nat.zero_le n)

/-- A terminator is written in three containers at most. -/
lemma Terminator.depth_toJson_le (t : Terminator) : t.toJson.depth ≤ 3 := by
  refine depth_object_le.2 (List.forall_mem_cons.2 ⟨Nat.zero_le 2, ?_⟩)
  cases t with
  | switch condition table otherwise =>
    have entry : ∀ entry ∈ table,
        (Json.array [.ofInt entry.1.toInt, entry.2.toJson]).depth ≤ 1 := by
      intro entry _
      exact depth_array_le.2 (by simp)
    simpa [members] using depth_ofList_le.2 entry
  | _ => simp [members]

/-- A phi is written in three containers at most. -/
lemma Phi.depth_toJson_le (phi : Phi) : phi.toJson.depth ≤ 3 := by
  have incomings : (Json.ofList Incoming.toJson phi.incomings).depth ≤ 2 :=
    depth_ofList_le.2 fun _ _ => le_rfl
  exact depth_object_le.2 (by simp [incomings])

/-- A protected range is written in one container. -/
lemma TryCatch.depth_toJson_le (t : TryCatch) : t.toJson.depth ≤ 1 :=
  depth_object_le.2 (by simp)

/-- A block is one container more around its instructions, if there is room for its other parts. -/
lemma BasicBlock.depth_toJson_le {b : BasicBlock} (enough : 4 ≤ n)
    (le : (Json.ofList (Instruction.toJson .own) b.instructions).depth ≤ n) :
    (b.toJson .own).depth ≤ n + 1 := by
  have phis : (Json.ofList Phi.toJson b.phis).depth ≤ 4 :=
    depth_ofList_le.2 fun phi _ => phi.depth_toJson_le
  have tryCatches : (Json.ofList TryCatch.toJson b.tryCatches).depth ≤ 2 :=
    depth_ofList_le.2 fun t _ => t.depth_toJson_le
  have terminator := b.terminator.depth_toJson_le
  refine depth_object_le.2 ?_
  simp only [List.forall_mem_cons]
  refine ⟨by omega, le, by omega, by omega, by simp, List.forall_mem_nil _⟩

/-- A body is one container more around its blocks, if there is room for its kinds. -/
lemma Body.depth_toJson_le {b : Body} (enough : 2 ≤ n)
    (le : (Json.ofList (BasicBlock.toJson .own) b.blocks).depth ≤ n) :
    (b.toJson .own).depth ≤ n + 1 := by
  have kinds : (Json.ofList Kind.toJson b.kinds).depth ≤ 2 :=
    depth_ofList_le.2 fun k _ => k.depth_toJson_le
  exact depth_object_le.2 (by simp [le, kinds.trans enough])

/-- An initial value is written in one container. -/
lemma InitialValue.depth_toJson (v : InitialValue) : v.toJson.depth = 1 := by
  cases v <;> simp [toJson, Json.depthOfMembers]

/-- A field is one container more around its type, if there is room for its initial value. -/
lemma FieldDef.depth_toJson_le {f : FieldDef} (enough : 1 ≤ n) (le : f.type.toJson.depth ≤ n) :
    f.toJson.depth ≤ n + 1 := by
  have initial : (Json.ofOption InitialValue.toJson f.initial).depth ≤ 1 := by
    cases f.initial with
    | none => exact Nat.zero_le 1
    | some v => exact v.depth_toJson.le
  exact depth_object_le.2 (by simp [le, initial.trans enough])

/-- A method is one container more around its signature and its body. -/
lemma MethodDef.depth_toJson_le {m : MethodDef}
    (signature : ∀ member ∈ m.signature.members, member.2.depth ≤ n)
    (body : (Json.ofOption (Body.toJson .own) m.body).depth ≤ n) : m.toJson.depth ≤ n + 1 :=
  depth_object_le.2 (List.forall_mem_append.2 ⟨signature, by simp [body]⟩)

/-- A class is one container more around its fields and methods, if there is room for its
interfaces. -/
lemma ClassDef.depth_toJson_le {c : ClassDef} (enough : 1 ≤ n)
    (fields : (Json.ofList FieldDef.toJson c.fields).depth ≤ n)
    (methods : (Json.ofList MethodDef.toJson c.methods).depth ≤ n) : c.toJson.depth ≤ n + 1 := by
  have interfaces : (Json.ofList Json.string c.interfaces).depth ≤ 1 :=
    depth_ofList_le.2 fun _ _ => le_rfl
  exact depth_object_le.2 (by simp [fields, methods, interfaces.trans enough])

/-- A program is one container more around its classes and its entry point. -/
lemma Program.depth_toJson_le {p : Program}
    (classes : (Json.ofList ClassDef.toJson p.classes).depth ≤ n)
    (entryPoint : (Json.ofOption MethodRef.toJson p.entryPoint).depth ≤ n) :
    p.toJson.depth ≤ n + 1 :=
  depth_object_le.2 (by simp [classes, entryPoint])

end Written

end ObjectBackend
