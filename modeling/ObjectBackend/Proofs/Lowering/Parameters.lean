import Mathlib.Order.Nat
import ObjectBackend.Proofs.Lowering.Arithmetic
import ObjectBackend.Proofs.Lowering.Bodies

/-!
# Entering functions

The parameters of a function are the registers of the first variables of the body, one for each
parameter that the method declares (`map_parameters`). So when the function is called with the
words for some arguments, the registers hold what the variables do at the start of the body
(`mirrors_start`), and all of that is of the declared types (`typed_start`).
-/

namespace ObjectBackend

open Target

namespace Target.IrType

variable {kind kind' : Kind}

/-- The register of a reference holds a pointer. -/
lemma ofKind_of_isReference (reference : kind.isReference = true) : ofKind kind = .ptr := by
  cases kind with
  | object | array => rfl
  | _ => cases reference

/-- Kinds that a parameter may be declared and used with have registers of the same type. -/
lemma ofKind_eq_of_agree
    (agree : kind = kind' ∨ kind.isReference = true ∧ kind'.isReference = true) :
    ofKind kind = ofKind kind' := by
  rcases agree with rfl | ⟨reference, reference'⟩
  · rfl
  · rw [ofKind_of_isReference reference, ofKind_of_isReference reference']

end Target.IrType

/-- A value of a declared kind is held in a register of the kind of the variable. -/
lemma Scalar.type_eq_ofKind {ρ : Type} {d : Scalar ρ} {actual declared : Kind}
    (fits : d.HasKind declared)
    (agree : actual = declared ∨ actual.isReference = true ∧ declared.isReference = true) :
    IrType.ofKind actual = d.type := by
  cases d with
  | reference object? =>
    rcases agree with rfl | ⟨reference, _⟩
    · exact IrType.ofKind_of_isReference fits
    · exact IrType.ofKind_of_isReference reference
  | int | long | float | double =>
    cases declared with
    | object | array => cases fits
    | _ =>
      rcases agree with rfl | ⟨_, reference⟩
      · first | rfl | cases fits
      · cases reference

namespace Lowering

variable {c : Context} {args : List (Scalar Address)} {f : Function Label}

/-- The parameters of a method as variables of its body. -/
def parameterVars (m : MethodDef) : List Var :=
  (List.range (declaredKinds m).length).map Var.ofIndex

/-- The parameters of a function are of the types that the method declares. -/
lemma parameters_types : Except.Ensures (fun ps =>
    ps.map (·.type) = (declaredKinds c.method).map .ofKind) (parameters c) := by
  intro ps given
  obtain ⟨le, each⟩ := parameters_spec ps given
  have types : List.Forall₂ (fun (entry : (Kind × Kind) × Nat) (o : Target.Operand) =>
      IrType.ofKind entry.1.2 = o.type)
      (c.body.kinds.zip (declaredKinds c.method)).zipIdx ps :=
    each.imp fun _ _ is => (IrType.ofKind_eq_of_agree is.1.1).symm.trans is.2.symm
  have types := List.forall₂_map_left_iff.2 (List.forall₂_map_right_iff.2 types)
  rw [List.forall₂_eq_eq_eq] at types
  calc ps.map (·.type)
    _ = (c.body.kinds.zip (declaredKinds c.method)).zipIdx.map fun entry =>
        IrType.ofKind entry.1.2 := types.symm
    _ = ((c.body.kinds.zip (declaredKinds c.method)).zipIdx.map Prod.fst).map fun entry =>
        IrType.ofKind entry.2 := by rw [List.map_map]; rfl
    _ = ((c.body.kinds.zip (declaredKinds c.method)).map Prod.snd).map IrType.ofKind := by
      rw [List.zipIdx_map_fst, List.map_map]; rfl
    _ = (declaredKinds c.method).map .ofKind := by rw [List.map_snd_zip le]

section Arguments

variable {ps : List Target.Operand} (given : parameters c = .ok ps)

include given

/-- The parameters are the registers of the first variables. -/
lemma map_parameters : ps.map (·.value) = (parameterVars c.method).map Value.ofVar := by
  obtain ⟨enough, each⟩ := parameters_spec ps given
  have values : ps.map (·.value) = ((c.body.kinds.zip (declaredKinds c.method)).zipIdx.map
      Prod.snd).map fun i => Value.ofVar (.ofIndex i) := by
    rw [List.map_map, ← List.forall₂_eq_eq_eq, List.forall₂_map_left_iff,
      List.forall₂_map_right_iff]
    exact each.flip.imp fun _ _ is => is.1.2
  rw [values, List.zipIdx_map_snd, List.length_zip, Nat.min_eq_right enough, parameterVars,
    List.map_map, List.range_eq_range']
  rfl

/-- What the parameters hold is of the types of their registers. -/
lemma typed_start (fit : List.Forall₂ Scalar.HasKind args (declaredKinds c.method)) :
    Typed c fun v => args[v.index]? := by
  obtain ⟨enough, each⟩ := parameters_spec ps given
  intro v d holds
  obtain ⟨lt, rfl⟩ := List.getElem?_eq_some_iff.1 holds
  have lt' : v.index < (declaredKinds c.method).length := fit.length_eq ▸ lt
  have lt'' : v.index < (c.body.kinds.zip (declaredKinds c.method)).zipIdx.length := by
    rw [List.length_zipIdx, List.length_zip, Nat.min_eq_right enough]
    exact lt'
  have is := each.get lt'' (each.length_eq ▸ lt'')
  simp only [List.get_eq_getElem, List.getElem_zipIdx, List.getElem_zip, Nat.zero_add] at is
  rw [Context.typeOf, Context.kindOf, Body.kindOf,
    List.getElem?_eq_getElem (Nat.lt_of_lt_of_le lt' enough)]
  exact congrArg Except.ok (Scalar.type_eq_ofKind (fit.get lt lt') is.1.1)

/-- The function finds the words for the arguments in the registers of the variables. -/
lemma mirrors_start (same : f.parameters = ps)
    (length : args.length = (declaredKinds c.method).length) :
    Mirrors (fun v => args[v.index]?) (f.arguments (args.map Scalar.word)) := by
  intro v d holds
  obtain ⟨lt, rfl⟩ := List.getElem?_eq_some_iff.1 holds
  let entries := ((parameterVars c.method).map Value.ofVar).zip (args.map Scalar.word)
  have lengthVars : (parameterVars c.method).length = args.length := by
    rw [parameterVars, List.length_map, List.length_range, length]
  have entry : ∀ i (lt : i < entries.length), entries[i].1 = .ofVar (.ofIndex i) := by
    intro i lt
    simp [entries, parameterVars]
  have lt' : v.index < entries.length := by simpa [entries, lengthVars] using lt
  have here : entries[v.index] = (.register (.var v), args[v.index].word) := by
    have first := entry v.index lt'
    rw [Var.ofIndex_index] at first
    refine Prod.ext first ?_
    simp [entries]
  rw [Function.arguments, same, map_parameters given, List.lookup_eq_some_iff]
  refine ⟨entries.take v.index, entries.drop (v.index + 1), ?_, fun p mem => ?_⟩
  · rw [← here, ← List.drop_eq_getElem_cons, List.take_append_drop]
  · -- the variables before have smaller numbers
    obtain ⟨i, less, rfl⟩ := List.mem_take_iff_getElem.1 mem
    have small : i < UInt32.size := (Nat.lt_min.1 less).1.trans v.number.toNat_lt
    rw [bne_iff_ne, entry]
    intro eq
    have same : v = .ofIndex i := Local.var.inj (Value.register.inj eq)
    have index : v.index = i := by
      rw [same]
      exact UInt32.toNat_ofNat_of_lt small
    exact (Nat.lt_min.1 less).1.ne index.symm

end Arguments

end Lowering

end ObjectBackend
