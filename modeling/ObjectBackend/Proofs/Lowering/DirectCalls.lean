import ObjectBackend.Proofs.Image.VirtualCall
import ObjectBackend.Proofs.Lowering.Bodies
import ObjectBackend.Proofs.Objects.OwnedSlots

/-!
# Calls bound directly

A virtual call to a method that the named class declares itself. It is bound to that method just if
no class or interface above owns a slot for it (`bound_directly_iff`). Otherwise it goes through the
slot, even if the method is private: an overridable method of the same signature above a private one
takes its calls.
-/

namespace ObjectBackend.Lowering

open Target

variable {p : Program} {settings : Settings} {b : Backend} {c : Context} {receiver : Option Var}
  {inst : Var} {m : MethodRef} {md : MethodDef} {arguments : List Var} {kind : InvocationKind}
  {code : Emit Unit} {operands : List Target.Operand}

/-- A call of the method that a value stands for. -/
def callOf (receiver : Option Var) (result : IrType) (operands : List Target.Operand)
    (target : Value) : Emit Unit :=
  match receiver with
  | some v => .assignVar v (.call result target operands)
  | none => .run (.call result target operands)

/-- A call of a method that is known. -/
def directCall (receiver : Option Var) (m : MethodRef) (operands : List Target.Operand) :
    Emit Unit :=
  callOf receiver (.ofValue m.signature.result) operands (.symbol (.method m))

/-- A call of the method in a slot of the class of an object. -/
def slotCall (receiver : Option Var) (inst : Var) (slot : Slot) (m : MethodRef)
    (operands : List Target.Operand) : Emit Unit := do
  callOf receiver (.ofValue m.signature.result) operands (← loadSlot inst slot)

/-- A call through a slot needs three temporaries, a direct one none. -/
lemma slotCall_ne_directCall (s : Progress) (slot : Slot) (operands' : List Target.Operand) :
    slotCall receiver inst slot m operands ≠ directCall receiver m operands' := by
  intro eq
  have three : ((slotCall receiver inst slot m operands).next s).draft.nextTemporary =
      s.draft.nextTemporary + 3 := by
    cases receiver <;> cases slot <;> rfl
  have none : ((directCall receiver m operands').next s).draft.nextTemporary =
      s.draft.nextTemporary := by
    cases receiver <;> rfl
  rw [eq, none] at three
  omega

/-- An invocation finds its callee and then calls it with its arguments. -/
lemma invoke_eq (given : invoke c receiver inst m arguments kind = .ok code) :
    ∃ operands target, callArguments c inst m arguments = .ok operands ∧
      callee c inst m kind = .ok target ∧
      code = (do callOf receiver (.ofValue m.signature.result) operands (← target)) := by
  dsimp only [invoke] at given
  split at given
  · cases given
  · split at given
    · cases given
    · obtain ⟨operands, evaluated, given⟩ := Except.exists_of_bind_eq_ok given
      obtain ⟨_, _, given⟩ := Except.exists_of_bind_eq_ok given
      obtain ⟨target, found, given⟩ := Except.exists_of_bind_eq_ok given
      cases given
      exact ⟨operands, target, evaluated, found, rfl⟩

/-- A method that a class declares itself is what a reference through the class resolves to. -/
lemma directCallee_eq (declared : c.program.method? m = some md) (hasInstance : md.isStatic = false)
    (concrete : md.isAbstract = false) : directCallee c m false = .ok (.method m) := by
  obtain ⟨D, found, own⟩ := Option.bind_eq_some_iff.1 declared
  obtain ⟨_, named⟩ := Program.lookup?_eq_some_iff.1 found
  have signature : md.signature = m.signature := by simpa using List.find?_some own
  have resolved : c.program.resolveMethod? m = some (D, md) := by
    rw [Program.resolveMethod?, Program.ancestors, Pool.chain_of_find? found, List.cons_append,
      List.findSome?_cons, own]
    rfl
  have reference : D.reference md = m := by rw [ClassDef.reference, named, signature]
  rw [directCallee, resolved]
  simp [hasInstance, concrete, reference]

/-- The code of a virtual call to a method that the named class declares itself. -/
lemma exists_call (declared : c.program.method? m = some md) (hasInstance : md.isStatic = false)
    (concrete : md.isAbstract = false)
    (given : invoke c receiver (some inst) m arguments .virtual = .ok code) :
    ∃ operands, callArguments c (some inst) m arguments = .ok operands ∧
      code = match c.backend.tables.resolve? c.program m with
        | none => directCall receiver m operands
        | some slot => slotCall receiver inst slot m operands := by
  obtain ⟨operands, target, evaluated, goes, rfl⟩ := invoke_eq given
  refine ⟨operands, evaluated, ?_⟩
  rw [callee] at goes
  split at goes
  case h_1 _ slot resolved =>
    cases goes
    rw [resolved]
    rfl
  case h_2 _ none =>
    change (directCallee c m false >>= fun s => pure (pure (Value.symbol s))) = _ at goes
    rw [directCallee_eq declared hasInstance concrete] at goes
    cases goes
    rw [none]
    rfl

/-- A virtual call to a method with code that the named class declares itself, private or not, goes
to that method directly just if no class or interface among the supertypes of the class owns a slot
for it, and through such a slot otherwise. By the conventions that is so just if none of them
declares the method as virtual. -/
theorem bound_directly_iff (built : Backend.ofProgram p settings = .ok b)
    (ofBackend : c.backend = b) (declared : p.method? m = some md)
    (hasInstance : md.isStatic = false) (concrete : md.isAbstract = false)
    (given : invoke c receiver (some inst) m arguments .virtual = .ok code) :
    ∃ operands, callArguments c (some inst) m arguments = .ok operands ∧
      (code = directCall receiver m operands ↔
        ∀ o ∈ p.supertypes m.className, b.tables.slot? ⟨o.name, m.signature⟩ = none) ∧
      (code ≠ directCall receiver m operands → ∃ o ∈ p.supertypes m.className, ∃ slot,
        b.tables.slot? ⟨o.name, m.signature⟩ = some slot ∧
        code = slotCall receiver inst slot m operands) ∧
      (p.ListsInterfaces → p.InterfacesAreRoots → (code = directCall receiver m operands ↔
        ∀ o ∈ p.supertypes m.className, ¬o.HasVirtual m.signature)) := by
  obtain ⟨program, tagged, tabled⟩ := Backend.ofProgram_spec built
  obtain rfl := ofBackend
  obtain rfl := program
  obtain ⟨operands, evaluated, eq⟩ := exists_call declared hasInstance concrete given
  -- the call is direct just if no slot is resolved
  have direct : code = directCall receiver m operands ↔
      ¬∃ slot, c.backend.tables.resolve? c.program m = some slot := by
    cases resolved : c.backend.tables.resolve? c.program m with
    | none =>
      rw [resolved] at eq
      simp [eq]
    | some slot =>
      rw [resolved] at eq
      simp [eq, slotCall_ne_directCall (.initial c [] .empty)]
  have unowned : (¬∃ slot, c.backend.tables.resolve? c.program m = some slot) ↔
      ∀ o ∈ c.program.supertypes m.className,
        ¬DispatchTables.HasSlot ⟨o.name, m.signature⟩ c.backend.tables := by
    simp only [DispatchTables.exists_resolve?_iff, not_exists, not_and]
  refine ⟨operands, evaluated, ?_, ?_, ?_⟩
  · rw [direct, unowned]
    simp only [DispatchTables.HasSlot, Bool.not_eq_true, Option.isSome_eq_false_iff,
      Option.isNone_iff_eq_none]
    rfl
  · intro other
    obtain ⟨slot, resolved⟩ := not_not.1 (mt direct.2 other)
    rw [resolved] at eq
    obtain ⟨o, mem, owned⟩ := List.exists_of_findSome?_eq_some resolved
    exact ⟨o, mem, slot, owned, eq⟩
  · intro lists roots
    have same := DispatchTables.exists_slot_iff (s := m.signature) tabled lists roots
      (fun d mem => TagMap.grounded_of_ofProgram tagged mem) m.className
    rw [direct, DispatchTables.exists_resolve?_iff]
    exact (not_congr same).trans (by simp)

/-- The reference to a method of a class. -/
def lockOf (className : String) : MethodRef := ⟨className, ⟨"lock", [], .void⟩⟩

/-- Call the method of an object. -/
def lockBody (className : String) : Body :=
  { kinds := [.object]
    blocks :=
      [{ BasicBlock.empty with
          instructions := [.invoke none (some ⟨0⟩) (lockOf className) [] .virtual]
          terminator := .exit none }] }

/-- A method with the body. -/
def lockMethod (className : String) : MethodDef :=
  { signature := ⟨"lockAll", [.object className], .void⟩, isStatic := true, isNative := false
    isAbstract := false, access := .anyClass, body := some (lockBody className) }

/-- A class with a private method and a method that calls it. -/
def lockable (className : String) : ClassDef :=
  { ClassDef.empty className with
    methods :=
      [{ Backend.nativeMethod "lock" with access := .sameClass }, lockMethod className] }

/-- The class alone. -/
def safe : Program :=
  { classes := [lockable "Safe"]
    entryPoint := none
    nodup := by decide }

/-- The class below another one, which has a method with the same signature that may be overridden.
-/
def gate : Program :=
  { classes :=
      [{ ClassDef.empty "Door" with methods := [Backend.nativeMethod "lock"] },
       { lockable "Gate" with parent := some "Door" }]
    entryPoint := none
    nodup := by decide }

/-- The context of the method that calls. -/
def locking (b : Backend) (className : String) : Context :=
  .ofBody b (lockable className) (lockMethod className) (lockBody className)

/-- The private method of a class with nothing above it is called directly. -/
theorem safe_locked_directly :
    ∃ b operands, Backend.ofProgram safe .default = .ok b ∧
      invoke (locking b "Safe") none (some ⟨0⟩) (lockOf "Safe") [] .virtual =
        .ok (directCall none (lockOf "Safe") operands) := by
  have computed : ((Backend.ofProgram safe .default).toOption.bind fun b =>
      (invoke (locking b "Safe") none (some ⟨0⟩) (lockOf "Safe") [] .virtual).toOption.map
        fun _ => ()) = some () := by
    cbv
  obtain ⟨b, code, built, given, _⟩ := Except.exists_of_toOption_bind_map computed
  have declared : safe.method? (lockOf "Safe") =
      some { Backend.nativeMethod "lock" with access := .sameClass } := by decide
  obtain ⟨operands, _, _, _, conventions⟩ := bound_directly_iff built rfl declared rfl rfl given
  have direct := (conventions (by decide) (by decide)).2 (by decide +kernel)
  exact ⟨b, operands, built, direct ▸ given⟩

/-- The private method of a class below one with a method that may be overridden is not called
directly, but through the slot of that one. The class does not run it there: it runs the method
above. -/
theorem gate_locked_as_door :
    ∃ b md code, Backend.ofProgram gate .default = .ok b ∧
      gate.method? (lockOf "Gate") = some md ∧
      md.isPrivate = true ∧ md.isStatic = false ∧ md.isAbstract = false ∧
      invoke (locking b "Gate") none (some ⟨0⟩) (lockOf "Gate") [] .virtual = .ok code ∧
      (∀ operands, code ≠ directCall none (lockOf "Gate") operands) ∧
      (∃ operands, code = slotCall none ⟨0⟩ (.ofClass "Door" 0) (lockOf "Gate") operands) ∧
      gate.implementation? "Gate" (lockOf "Gate").signature = some (lockOf "Door") := by
  have computed : ((Backend.ofProgram gate .default).toOption.bind fun b =>
      (invoke (locking b "Gate") none (some ⟨0⟩) (lockOf "Gate") [] .virtual).toOption.map
        fun _ => b.tables.resolve? gate (lockOf "Gate")) = some (some (.ofClass "Door" 0)) := by
    cbv
  obtain ⟨b, code, built, given, resolved⟩ := Except.exists_of_toOption_bind_map computed
  have program : (locking b "Gate").program = gate := (Backend.ofProgram_spec built).1
  have declared : gate.method? (lockOf "Gate") =
      some { Backend.nativeMethod "lock" with access := .sameClass } := by decide
  obtain ⟨operands, _, eq⟩ := exists_call (program ▸ declared) rfl rfl given
  have resolved' : (locking b "Gate").backend.tables.resolve? (locking b "Gate").program
      (lockOf "Gate") = some (.ofClass "Door" 0) := by
    rw [program]
    exact resolved
  rw [resolved'] at eq
  refine ⟨b, _, code, built, declared, rfl, rfl, rfl, given, ?_, ⟨operands, eq⟩, by decide +kernel⟩
  intro operands'
  rw [eq]
  exact slotCall_ne_directCall (.initial (locking b "Gate") [] .empty) _ _

end ObjectBackend.Lowering
