import ObjectBackend.Proofs.Image.EntryNames
import ObjectBackend.Proofs.Lowering.ControlFlow

/-!
# Closed modules

A module defines or declares every symbol and every structure type that it refers to
(`names_defined`). The functions that start a program make no difference: they call methods of the
program, and only such a method can be missing.
-/

namespace ObjectBackend.Backend

open Target

variable {p : Program} {settings : Settings} {b : Backend} {es : List (Entry Label)} {pools : Pools}

/-- Every name that an entry refers to is defined or declared by an entry of the same module: by the
code of methods, metadata, tables, literals and call sites always, and by the entry point and the
initializers unless the name is that of a declared method without code. -/
theorem names_defined (built : ofProgram p settings = .ok b)
    (emitted : b.entries.run .empty = .ok (es, pools)) :
    (∀ e ∈ es, e.startsUp = false → ∀ n ∈ e.names, ∃ e' ∈ es, e'.name? = some n) ∧
    ∀ e ∈ es, e.startsUp = true → ∀ n ∈ e.names,
      (∃ e' ∈ es, e'.name? = some n) ∨
        ∃ c ∈ p.classes, ∃ m ∈ c.methods, m.isNative = false ∧ m.isAbstract = true ∧
          n = .symbol (.method (c.reference m)) := by
  obtain ⟨rfl, -, -⟩ := ofProgram_spec built
  have made := entries_made built emitted
  have defined : ∀ n ∈ (b.definitions pools).flatten, ∃ e' ∈ es, e'.name? = some n := by
    intro n mem
    rw [← made.names] at mem
    exact List.mem_filterMap.1 mem
  refine ⟨fun e mem code n memn => ?_, fun e mem _ n memn => ?_⟩
  · rcases made.refers e mem n memn with known | ⟨starts, _⟩
    · exact defined n known
    · rw [code] at starts
      cases starts
  · rcases made.refers e mem n memn with known | ⟨_, c, memc, m, memm, none, eq⟩
    · exact .inl (defined n known)
    · rw [MethodDef.hasEntry, Bool.or_eq_false_iff, Bool.not_eq_false'] at none
      exact .inr ⟨c, memc, m, memm, none.1, none.2, eq⟩

/-- The name of the method that a clock waits with. -/
def waitName : Name := .symbol (.method (Lowering.clock.reference Lowering.waitMethod))

/-- The name of the method that it calls. -/
def tickName : Name := .symbol (.method ⟨"Clock", ⟨"tick", [], .void⟩⟩)

/-- The method that waits refers to a method whose code is elsewhere, which is declared. -/
theorem tick_declared :
    ∃ b es pools, ofProgram Lowering.clockProgram .default = .ok b ∧
      b.entries.run .empty = .ok (es, pools) ∧
      ∃ e ∈ es, e.name? = some waitName ∧ tickName ∈ e.names ∧
        ∃ e' ∈ es, e'.name? = some tickName := by
  have computed : ((ofProgram Lowering.clockProgram .default).toOption.bind fun b =>
      (b.entries.run .empty).toOption.map fun r => r.1.any fun e =>
        decide (e.name? = some waitName) && decide (tickName ∈ e.names)) = some true := by
    cbv
  obtain ⟨b, ⟨es, pools⟩, built, emitted, found⟩ := Except.exists_of_toOption_bind_map computed
  obtain ⟨e, mem, here⟩ := List.any_eq_true.1 found
  rw [Bool.and_eq_true, decide_eq_true_eq, decide_eq_true_eq] at here
  obtain ⟨name, refers⟩ := here
  have code : e.startsUp = false := by
    rw [Entry.startsUp, name]
    rfl
  exact ⟨b, es, pools, built, emitted, e, mem, name, refers,
    (names_defined built emitted).1 e mem code tickName refers⟩

end ObjectBackend.Backend
