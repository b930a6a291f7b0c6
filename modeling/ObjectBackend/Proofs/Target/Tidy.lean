import Mathlib.Tactic.Lemma
import ObjectBackend.Target.Function

/-!
# Tidy lines

Lines that leave the stack of frames alone. They do not assign the register in which the frame of
the caller is kept, and they store only to symbols other than the top of the stack and to parts of
what some address points to. Which registers hold the address of a part is seen from the lines
before (`Line.parts`).
-/

namespace ObjectBackend.Target

/-- Whether an instruction writes to memory itself. -/
def Instr.isStore : Instr → Bool
  | .store .. => true
  | _ => false

/-- A temporary is not the register of the caller's frame. -/
lemma temporary_ne_callerFrame {n : Nat} :
    Value.register (.temporary n) ≠ .register .callerFrame := by rintro ⟨⟩

/-- The register of a variable is not that of the caller's frame. -/
lemma var_ne_callerFrame {v : Var} : Value.register (.var v) ≠ .register .callerFrame := by
  rintro ⟨⟩

namespace Line

variable {ℓ σ τ : Type} {known known' : List Local}

/-- The registers that hold the address of a part, behind a line. -/
def parts (known : List Local) : Line ℓ σ → List Local
  | define (.register r) (.element ..) => r :: known
  | define (.register r) _ | phi (.register r) _ _ => known.filter (· ≠ r)
  | _ => known

/-- A line leaves the stack alone if some registers hold addresses of parts. -/
def IsTidy (known : List Local) : Line ℓ σ → Prop
  | run (.store _ (.register r)) => r ∈ known
  | run (.store _ (.symbol s)) => s ≠ .runtime .stackTop
  | run (.store _ _) => False
  | define receiver i => receiver ≠ .register .callerFrame ∧ i.isStore = false
  | phi receiver _ _ => receiver ≠ .register .callerFrame
  | _ => True

/-- More registers with addresses of parts before a line are more behind it. -/
lemma parts_subset (subset : known ⊆ known') (l : Line ℓ σ) : l.parts known ⊆ l.parts known' := by
  cases l with
  | define receiver i =>
    cases receiver with
    | register r =>
      cases i with
      | element => exact List.cons_subset_cons r subset
      | _ => exact List.filter_subset _ subset
    | _ => exact subset
  | phi receiver type incomings =>
    cases receiver with
    | register r => exact List.filter_subset _ subset
    | _ => exact subset
  | _ => exact subset

/-- A line that leaves the stack alone does so if more registers hold addresses of parts. -/
lemma IsTidy.mono (subset : known ⊆ known') {l : Line ℓ σ} (tidy : l.IsTidy known) :
    l.IsTidy known' := by
  cases l with
  | run i =>
    cases i with
    | store operand address =>
      cases address with
      | register r => exact subset tidy
      | _ => exact tidy
    | _ => trivial
  | _ => exact tidy

/-- Some lines leave the stack alone if some registers hold addresses of parts before them. -/
def Tidy (known : List Local) : List (Line ℓ σ) → Prop
  | [] => True
  | l :: ls => l.IsTidy known ∧ Tidy (l.parts known) ls

namespace Tidy

variable {ls ms : List (Line ℓ σ)}

/-- Lines that leave the stack alone do so if more registers hold addresses of parts. -/
lemma mono (subset : known ⊆ known') (tidy : Tidy known ls) : Tidy known' ls := by
  induction ls generalizing known known' with
  | nil => trivial
  | cons l ls ih => exact ⟨tidy.1.mono subset, ih (parts_subset subset l) tidy.2⟩

/-- Lines that leave the stack alone may be followed by others that do without knowing any register.
-/
lemma append (first : Tidy known ls) (second : Tidy [] ms) : Tidy known (ls ++ ms) := by
  induction ls generalizing known with
  | nil => exact second.mono (List.nil_subset known)
  | cons l ls ih => exact ⟨first.1, ih first.2⟩

end Tidy

-- Where the values of phis come from does not matter.

/-- The sources of phis do not matter to the addresses of parts. -/
lemma parts_mapSources (f : σ → τ) (l : Line ℓ σ) :
    (l.mapSources f).parts known = l.parts known := by
  cases l with
  | define receiver i =>
    cases receiver with
    | register r => cases i <;> rfl
    | _ => rfl
  | phi receiver type incomings => cases receiver <;> rfl
  | _ => rfl

/-- The sources of phis do not matter to whether a line leaves the stack alone. -/
lemma IsTidy.mapSources (f : σ → τ) {l : Line ℓ σ} (tidy : l.IsTidy known) :
    (l.mapSources f).IsTidy known := by
  cases l with
  | run i =>
    cases i with
    | store operand address => cases address <;> exact tidy
    | _ => trivial
  | _ => exact tidy

/-- The sources of phis do not matter to whether lines leave the stack alone. -/
lemma Tidy.mapSources (f : σ → τ) {ls : List (Line ℓ σ)} (tidy : Tidy known ls) :
    Tidy known (ls.map (Line.mapSources f)) := by
  induction ls generalizing known with
  | nil => trivial
  | cons l ls ih =>
    refine ⟨tidy.1.mapSources f, ?_⟩
    rw [parts_mapSources]
    exact ih tidy.2

end Line

end ObjectBackend.Target
