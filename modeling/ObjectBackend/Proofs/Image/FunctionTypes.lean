import ObjectBackend.Proofs.Image.EntryNames
import ObjectBackend.Proofs.Lowering.ControlFlow
import ObjectBackend.Proofs.Lowering.MethodTypes

/-!
# Types in the functions of a module

Every function that a module defines is well typed (`functions_wellTyped`): the methods of the
program, the initializers of its classes, the function that it is started with, and what comes with
every module.
-/

namespace ObjectBackend

open Target

/-- The types of variables in a function that has none. -/
abbrev noVariables : Var → Option IrType := fun _ => none

namespace Program

variable {p : Program}

/-- A name is called with nothing for its effect. -/
lemma runCall_wellTyped {Γ : Local → IrType → Prop} (result : IrType) (s : Symbol) :
    (Line.run (.call .void (.symbol s) []) : Line Label Label).WellTyped Γ result :=
  .run (.call .symbol (List.forall_mem_nil _))

/-- An initializer computes with four registers, whatever it calls. -/
lemma definitions_initializer (c : ClassDef) : (p.initializer c).definitions =
    [(.temporary 0, .i32), (.temporary 1, .i32), (.temporary 2, .i1), (.temporary 3, .i32)] := by
  have calls {α : Type} (called : Option α) (name : α → Symbol) :
      ((called.map fun x => (Line.run (.call .void (.symbol (name x)) []) :
        Line Label Label)).toList).filterMap Line.definition? = [] := by
    cases called <;> rfl
  simp only [initializer, Function.definitions, Block.definitions, List.flatMap_cons,
    List.filterMap_append, calls]
  rfl

/-- The initializer of a class is well typed. -/
lemma initializer_wellTyped (p : Program) (c : ClassDef) :
    (p.initializer c).WellTyped noVariables := by
  let Γ : Local → IrType → Prop := fun r type =>
    (p.initializer c).typeOf? noVariables r = some type
  have known (n : Nat) {type : IrType}
      (defined : List.lookup (.temporary n) [(Local.temporary 0, IrType.i32), (.temporary 1, .i32),
        (.temporary 2, .i1), (.temporary 3, .i32)] = some type) : Γ (.temporary n) type :=
    (congrArg (List.lookup _) (definitions_initializer c)).trans defined
  have flags : (Value.register (.temporary 0)).HasType Γ .i32 := .register (known 0 rfl)
  have calls {α : Type} (called : Option α) (name : α → Symbol) :
      ∀ l ∈ (called.map fun x => (Line.run (.call .void (.symbol (name x)) []) :
        Line Label Label)).toList, l.WellTyped Γ .void := by
    cases called with
    | none => exact List.forall_mem_nil _
    | some x => exact List.forall_mem_singleton.2 (runCall_wellTyped _ _)
  refine ⟨List.forall_mem_nil _, ?_⟩
  refine List.forall_mem_cons.2 ⟨?test, List.forall_mem_cons.2 ⟨?init, ?exit⟩⟩
  case test =>
    refine List.forall_mem_cons.2 ⟨.define (known 0 rfl) rfl (.load rfl .part), ?_⟩
    refine List.forall_mem_cons.2 ⟨.define (known 1 rfl) rfl (.binary rfl flags (.int rfl)), ?_⟩
    refine List.forall_mem_cons.2 ⟨.define (known 2 rfl) rfl
      (.icmp (.inl rfl) (.register (known 1 rfl)) (.int rfl)), ?_⟩
    exact List.forall_mem_singleton.2 (.leave (.condBr (.register (known 2 rfl))))
  case init =>
    refine List.forall_mem_append.2 ⟨List.forall_mem_append.2 ⟨List.forall_mem_append.2
      ⟨?set, calls _ .initializer⟩, calls _ fun m => .method (c.reference m)⟩, ?leave⟩
    case set =>
      refine List.forall_mem_cons.2 ⟨.define (known 3 rfl) rfl (.binary rfl flags (.int rfl)), ?_⟩
      exact List.forall_mem_singleton.2 (.run (.store rfl (.register (known 3 rfl)) .part))
    case leave => exact List.forall_mem_singleton.2 (.leave .br)
  case exit =>
    exact List.forall_mem_singleton.2 (List.forall_mem_singleton.2 (.leave (.retVoid rfl)))

/-- The function that a program is started with is well typed: it keeps what the method returns, if
it returns something. -/
lemma main_wellTyped {entry : MethodRef} {f : Function Label} (given : p.main entry = .ok f) :
    f.WellTyped noVariables := by
  rw [main] at given
  split at given
  · cases given
  rename_i owner m _
  split at given
  · cases given
  obtain rfl := Except.ok.inj given
  refine ⟨List.forall_mem_nil _, List.forall_mem_singleton.2 ?_⟩
  refine List.forall_mem_cons.2 ⟨runCall_wellTyped _ _, List.forall_mem_cons.2
    ⟨runCall_wellTyped _ _, List.forall_mem_cons.2 ⟨?run, List.forall_mem_singleton.2 ?leave⟩⟩⟩
  case run =>
    have call : ∀ Γ, (Instr.call (.ofValue m.signature.result)
        (.symbol (.method (owner.reference m))) (m.signature.parameters.map fun type =>
          ⟨.ofValue type, .zeroOf (.ofValue type)⟩)).WellTyped Γ := fun Γ =>
      .call .symbol (List.forall_mem_map.2 fun type _ => Value.HasType.zeroOf (.ofValue type))
    split
    case isTrue => exact .run (call _)
    case isFalse result =>
      refine .define ?_ (if_neg result) (call _)
      generalize m.signature.result = type at result ⊢
      cases type with
      | void => exact absurd rfl result
      | primitive type => cases type <;> rfl
      | object | array => rfl
  case leave =>
    have proper : IrType.i32 ≠ .void := by decide
    exact .leave (.ret proper (.int rfl))

end Program

/-- The function that marks the literals is well typed. -/
lemma Literals.initFunction_wellTyped (count : Nat) :
    (initFunction count).WellTyped noVariables := by
  have mark (Γ : Local → IrType → Prop) (s : Symbol) : (markLine s).WellTyped Γ .void :=
    .run (.store rfl (.int rfl) .part)
  refine ⟨List.forall_mem_nil _,
    List.forall_mem_singleton.2 (List.forall_mem_append.2 ⟨?marks, ?ret⟩)⟩
  case marks =>
    intro l mem
    obtain ⟨id, _, mem⟩ := List.mem_flatMap.1 mem
    cases List.mem_pair.1 mem with
    | inl eq => exact eq ▸ mark _ _
    | inr eq => exact eq ▸ mark _ _
  case ret => exact List.forall_mem_singleton.2 (.leave (.retVoid rfl))

/-- The comparison of numbers is well typed. -/
lemma Environment.comparison_wellTyped (type : Numeric) :
    (comparison type).WellTyped noVariables := by
  cases type <;> decide

namespace Backend

open Lowering Program

variable {b : Backend} {es : List (Entry Label)} {f : Function Label} {pools pools' : Pools}

/-- The functions of a module that are not methods. -/
inductive IsAuxiliary (b : Backend) : Function Label → Prop
  | initializer (c : ClassDef) : IsAuxiliary b (b.program.initializer c)
  | main {entry : MethodRef} {f : Function Label} : b.program.main entry = .ok f → IsAuxiliary b f
  | literals (count : Nat) : IsAuxiliary b (Literals.initFunction count)
  | comparison (type : Numeric) : IsAuxiliary b (Environment.comparison type)

/-- The functions that are not methods are well typed without variables. -/
lemma IsAuxiliary.wellTyped (auxiliary : b.IsAuxiliary f) : f.WellTyped noVariables := by
  cases auxiliary with
  | initializer c => exact b.program.initializer_wellTyped c
  | main given => exact main_wellTyped given
  | literals count => exact Literals.initFunction_wellTyped count
  | comparison type => exact Environment.comparison_wellTyped type

/-- A function is what a method of the program with some body is lowered to. -/
def IsMethod (b : Backend) (body : Body) (f : Function Label) : Prop :=
  ∃ c ∈ b.program.classes, ∃ m ∈ c.methods, m.body = some body ∧ ∃ pools pools',
    (method b c m).run pools = .ok (some (.define f), pools')

/-- A method is well typed by the kinds its body declares. -/
lemma IsMethod.wellTyped {body : Body} (isMethod : b.IsMethod body f)
    (bound : body.kinds.length ≤ UInt32.size) :
    f.WellTyped fun v => (body.kindOf v).map .ofKind := by
  obtain ⟨c, _, m, _, given, pools, pools', lowered⟩ := isMethod
  have references := keepsReferences_ofBody bound b c m
  exact function_wellTyped references bound (function_of_method given lowered)

section Parts

variable {c : ClassDef}

/-- Only a method with a body is defined. -/
lemma isMethod_of_method {m : MethodDef} (declared : c ∈ b.program.classes) (mem : m ∈ c.methods)
    (given : (method b c m).run pools = .ok (some (.define f), pools')) :
    ∃ body, b.IsMethod body f := by
  cases method_spec given with
  | function _ _ found _ => exact ⟨_, c, declared, m, mem, found, _, _, given⟩

/-- A function among the literals is an auxiliary one. -/
lemma isAuxiliary_of_mem_literals {l : Literals} {className charsField : String}
    (given : l.entries b.program className charsField = .ok es) (mem : .define f ∈ es) :
    b.IsAuxiliary f := by
  obtain ⟨_, _, rfl, _⟩ := literals_entries_spec given
  rcases List.mem_append.1 mem with mem | mem
  · obtain ⟨_, _, or⟩ := List.mem_flatMap.1 mem
    rcases List.mem_pair.1 or with data | data <;> cases data
  · rcases List.mem_pair.1 mem with blank | eq
    · cases blank
    · cases eq
      exact .literals _

/-- A function of the epilogue is an auxiliary one. -/
lemma isAuxiliary_of_mem_epilogue (mem : .define f ∈ Environment.epilogue) : b.IsAuxiliary f := by
  rcases List.mem_append.1 mem with mem | mem
  · cases List.mem_singleton.1 mem
  · obtain ⟨type, _, or⟩ := List.mem_flatMap.1 mem
    rcases List.mem_pair.1 or with blank | eq
    · cases blank
    · cases eq
      exact .comparison type

/-- The head of a module defines no function. -/
lemma define_not_mem_heading (settings : Settings) : .define f ∉ settings.heading := by
  simp [Settings.heading]

/-- The prologue defines no function. -/
lemma define_not_mem_prologue : .define f ∉ Environment.prologue := by
  simp [Environment.prologue, Environment.types, Environment.externals, Environment.functions]

/-- The structure types define no function. -/
lemma define_not_mem_classTypes : .define f ∉ b.classTypes c := by
  rw [classTypes]
  split <;> simp

end Parts

/-- The functions of a module are methods of the program or of the other sorts. -/
lemma isMethod_or_isAuxiliary (emitted : b.entries.run pools = .ok (es, pools'))
    (mem : .define f ∈ es) : (∃ body, b.IsMethod body f) ∨ b.IsAuxiliary f := by
  generalize entry : Entry.define f = e at mem
  have noData {s : Symbol} (data : e.dataSymbol? = some s) :
      (∃ body, b.IsMethod body f) ∨ b.IsAuxiliary f := by
    rw [← entry] at data
    cases data
  cases isPart_of_mem emitted mem with
  | blank | headerType | stackRoots => cases entry
  | heading mem => exact absurd (entry ▸ mem) (define_not_mem_heading _)
  | prologue mem => exact absurd (entry ▸ mem) define_not_mem_prologue
  | classTypes _ mem => exact absurd (entry ▸ mem) define_not_mem_classTypes
  | staticField _ _ given => exact noData (dataSymbol?_staticField given)
  | method declared mem given => exact .inl (isMethod_of_method declared mem (entry ▸ given))
  | initializer c =>
    cases entry
    exact .inr (.initializer c)
  | metadata _ given => exact noData (dataSymbol?_metadata given)
  | arrayMetadata mem => exact noData (exists_dataSymbol?_arrayMetadata mem).choose_spec
  | fieldTable _ mem => exact noData (dataSymbol?_fieldTable mem)
  | main given =>
    cases entry
    exact .inr (.main given)
  | literals given mem => exact .inr (isAuxiliary_of_mem_literals given (entry ▸ mem))
  | callSites mem =>
    rcases dataSymbol?_callSites mem with ⟨_, data⟩ | data | data
    · exact noData data
    · exact noData data
    · exact noData data
  | epilogue mem => exact .inr (isAuxiliary_of_mem_epilogue (entry ▸ mem))

/-- Every function that can be written for a program is well typed, and a module has no others. In
the function of a method the register of a variable has the type of the kind that the body declares
the variable with; every other register has the type of what defines it. The bound says that each
variable has a number of its own. -/
theorem functions_wellTyped (b : Backend) :
    (∀ body f, b.IsMethod body f → body.kinds.length ≤ UInt32.size →
      f.WellTyped fun v => (body.kindOf v).map .ofKind) ∧
    (∀ f, b.IsAuxiliary f → f.WellTyped noVariables) ∧
    ∀ es pools f, b.entries.run .empty = .ok (es, pools) → .define f ∈ es →
      (∃ body, b.IsMethod body f) ∨ b.IsAuxiliary f :=
  ⟨fun _ _ => IsMethod.wellTyped, fun _ => IsAuxiliary.wellTyped,
    fun _ _ _ => isMethod_or_isAuxiliary⟩

/-- The functions that entries define. -/
def functions (es : List (Entry Label)) : List (Function Label) :=
  es.filterMap fun
    | .define f => some f
    | _ => none

/-- The module of the clock defines the method that waits and what comes with every module, and all
of that is well typed. -/
theorem clock_wellTyped :
    ∃ b es pools, ofProgram clockProgram .default = .ok b ∧ b.entries.run .empty = .ok (es, pools) ∧
      (functions es).map (·.name) =
        .method (clock.reference waitMethod) :: .runtime .initStringPool ::
          Numeric.all.map (fun type => .runtime (.compare type)) ∧
      ∀ f, .define f ∈ es → (f.WellTyped fun v => (waiting.kindOf v).map .ofKind) ∨
        f.WellTyped noVariables := by
  have computed : ((ofProgram clockProgram .default).toOption.bind fun b =>
      (b.entries.run .empty).toOption.map fun e => (functions e.1).map (·.name)) =
        some (.method (clock.reference waitMethod) :: .runtime .initStringPool ::
          Numeric.all.map (fun type => .runtime (.compare type))) := by
    cbv
  obtain ⟨b, ⟨es, pools⟩, built, emitted, names⟩ := Except.exists_of_toOption_bind_map computed
  refine ⟨b, es, pools, built, emitted, names, fun f mem => ?_⟩
  obtain ⟨methods, auxiliary, all⟩ := functions_wellTyped b
  rcases all es pools f emitted mem with ⟨body, isMethod⟩ | isAuxiliary
  · have only : body = waiting := by
      obtain ⟨c, memc, m, memm, given, _⟩ := isMethod
      rw [(ofProgram_spec built).1] at memc
      obtain rfl := List.mem_singleton.1 memc
      rcases List.mem_pair.1 memm with rfl | rfl
      · exact (Option.some.inj given).symm
      · cases given
    subst only
    exact .inl (methods _ f isMethod (by decide))
  · exact .inr (auxiliary f isAuxiliary)

end Backend

end ObjectBackend
