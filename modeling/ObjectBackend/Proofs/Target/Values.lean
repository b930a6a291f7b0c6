import Mathlib.Tactic.Lemma
import ObjectBackend.Target.Module

/-!
# Values in lines and data

The values that an instruction, a line or a piece of data uses, wherever they stand in it.
-/

namespace ObjectBackend.Target

/-- The values that an instruction uses. -/
def Instr.operands : Instr → List Value
  | binary _ _ lhs rhs | icmp _ _ lhs rhs | fcmp _ _ lhs rhs => [lhs, rhs]
  | fneg _ value => [value]
  | cast _ operand _ => [operand.value]
  | load _ address => [address]
  | store operand address => [operand.value, address]
  | element _ address indices => address :: indices
  | call _ callee arguments => callee :: arguments.map (·.value)
  | alloca _ => []
  | select condition _ consequent alternative => [condition, consequent, alternative]

/-- The values that a terminator uses. -/
def Term.operands {ℓ : Type} : Term ℓ → List Value
  | condBr condition _ _ => [condition]
  | switch _ value _ _ => [value]
  | ret operand => operand.toList.map (·.value)
  | br _ | unreachable => []

namespace Line

variable {ℓ σ τ : Type}

/-- The values in a line. -/
def values : Line ℓ σ → List Value
  | comment _ => []
  | run instr => instr.operands
  | define receiver instr => receiver :: instr.operands
  | phi receiver _ incomings => receiver :: incomings.map (·.1)
  | leave term => term.operands

/-- Whether a line is a comment. -/
def isComment : Line ℓ σ → Bool
  | comment _ => true
  | _ => false

/-- The sources of phis are no values of a line. -/
lemma values_mapSources (f : σ → τ) (l : Line ℓ σ) : (l.mapSources f).values = l.values := by
  cases l with
  | phi => simp only [mapSources, values, List.map_map, Function.comp_def]
  | _ => rfl

/-- The sources of phis do not matter to whether a line is a comment. -/
@[simp] lemma isComment_mapSources (f : σ → τ) (l : Line ℓ σ) :
    (l.mapSources f).isComment = l.isComment := by
  cases l <;> rfl

end Line

namespace Constant

mutual

/-- The values in a constant. -/
def values : Constant → List Value
  | value v => [v]
  | record fields => valuesOf fields
  | sequence items => valuesOf items

/-- The values in a constant that follows its type. -/
def typedValues : IrType × Constant → List Value
  | (_, constant) => constant.values

/-- The values in several constants. -/
def valuesOf : List (IrType × Constant) → List Value
  | [] => []
  | item :: items => typedValues item ++ valuesOf items

end

/-- Cells hold what each of them holds. -/
@[simp] lemma valuesOf_eq (items : List (IrType × Constant)) :
    valuesOf items = items.flatMap typedValues := by
  induction items with
  | nil => rfl
  | cons item items ih => rw [valuesOf, ih, List.flatMap_cons]

attribute [simp] values typedValues

end Constant

end ObjectBackend.Target
