import Mathlib
import ObjectBackend.Proofs.Success
import ObjectBackend.Source.Program

/-!
# Evaluation of closed programs

What a closed program is compiled to is computed by `cbv`, which rewrites with the equations of every
function that it meets. The equations of library functions are found where all of the library is
imported; that is done here, and a module that evaluates something imports this one. Results are
read off as options, and classes are sorted by insertion first, since `cbv` does not follow the
sorting by merging.
-/

namespace Except

variable {ε ε' α β γ : Type} {x : Except ε α}

/-- What has been read off the results of two computations, the second from the result of the first,
shows that both have results. -/
lemma exists_of_toOption_bind_map {f : α → Except ε' β} {g : α → β → γ} {c : γ}
    (computed : (x.toOption.bind fun a => (f a).toOption.map (g a)) = some c) :
    ∃ a b, x = .ok a ∧ f a = .ok b ∧ g a b = c := by
  obtain ⟨a, first, rest⟩ := Option.bind_eq_some_iff.1 computed
  obtain ⟨b, second, read⟩ := Option.map_eq_some_iff.1 rest
  exact ⟨a, b, eq_ok_of_toOption first, eq_ok_of_toOption second, read⟩

end Except

namespace ObjectBackend

/-- Names differ, so there is only one list of the classes that is sorted by name. -/
lemma Program.sortedClasses_eq_insertionSort (p : Program) :
    p.sortedClasses = p.classes.insertionSort fun c d => c.name ≤ d.name := by
  have : IsTrans ClassDef fun c d => c.name ≤ d.name := ⟨fun _ _ _ => String.le_trans⟩
  have : Std.Total fun c d : ClassDef => c.name ≤ d.name := ⟨fun _ _ => String.le_total ..⟩
  have sorted : p.sortedClasses.Pairwise fun c d => c.name ≤ d.name := by
    refine (List.pairwise_mergeSort ?_ ?_ _).imp of_decide_eq_true
    · simpa using fun _ _ _ => String.le_trans
    · simpa using fun _ _ => String.le_total ..
  have perm : p.sortedClasses.Perm (p.classes.insertionSort fun c d => c.name ≤ d.name) :=
    (List.mergeSort_perm ..).trans (List.perm_insertionSort ..).symm
  refine perm.eq_of_pairwise ?_ sorted (List.pairwise_insertionSort ..)
  intro c d memc memd le le'
  exact Program.eq_of_name_eq (List.mem_mergeSort.1 memc) ((List.mem_insertionSort _).1 memd)
    (String.le_antisymm le le')

end ObjectBackend
