import ObjectBackend.Proofs.Success
import ObjectBackend.Source.Program

/-!
# Names of classes

A list of classes makes a program just if their names differ (`Program.ofClasses_eq_ok`). Within a
program a name stands for one class, so what is tabulated by the names of some classes of a program
is found under the name of each of them.
-/

namespace ObjectBackend

namespace Program

variable {p q : Program} {c d : ClassDef}

/-- The classes of a program are among the sorted ones. -/
lemma mem_sortedClasses (mem : c ∈ p.classes) : c ∈ p.sortedClasses := List.mem_mergeSort.2 mem

/-- A name that looks up no class is the name of none. -/
lemma name_ne_of_lookup?_eq_none {n : String} (none : p.lookup? n = none) (mem : c ∈ p.classes) :
    c.name ≠ n := by
  rintro rfl
  rw [lookup?_of_mem mem] at none
  cases none

/-- Adding classes succeeds just if all names differ, and puts the classes behind the others. -/
lemma foldlM_addClass_eq_ok {cs : List ClassDef} :
    cs.foldlM addClass p = .ok q ↔ q.classes = p.classes ++ cs ∧ q.entryPoint = p.entryPoint := by
  induction cs generalizing p with
  | nil =>
    obtain ⟨classes, entryPoint, nodup⟩ := p
    obtain ⟨classes', entryPoint', nodup'⟩ := q
    rw [List.append_nil, List.foldlM_nil]
    constructor
    · rintro ⟨⟩
      exact ⟨rfl, rfl⟩
    · rintro ⟨rfl, rfl⟩
      rfl
  | cons c cs ih =>
    rw [List.foldlM_cons, addClass]
    split
    case isTrue taken =>
      constructor
      · rintro ⟨⟩
      · rintro ⟨classes, _⟩
        -- the name would be there twice
        have nodup := q.nodup
        rw [classes, List.map_append, List.nodup_append] at nodup
        exact absurd rfl (nodup.2.2 _ taken c.name (List.mem_cons_self ..))
    case isFalse =>
      change cs.foldlM addClass _ = .ok q ↔ _
      rw [ih, List.append_assoc, List.singleton_append]

/-- A list of classes makes a program just if their names differ. -/
lemma ofClasses_eq_ok {cs : List ClassDef} {entry : Option MethodRef} :
    ofClasses cs entry = .ok p ↔ p.classes = cs ∧ p.entryPoint = entry := by
  constructor
  · intro made
    obtain ⟨p', folded, whole⟩ := Except.exists_of_bind_eq_ok made
    cases whole
    exact ⟨(foldlM_addClass_eq_ok.1 folded).1, rfl⟩
  · rintro ⟨rfl, rfl⟩
    have folded : p.classes.foldlM addClass empty = .ok { p with entryPoint := none } :=
      foldlM_addClass_eq_ok.2 ⟨rfl, rfl⟩
    rw [ofClasses, folded]
    rfl

/-- What is tabulated for some classes of a program is found under their names. -/
lemma lookup_map_name {α : Type} {cs : List ClassDef} (declared : ∀ c ∈ cs, c ∈ p.classes)
    (f : ClassDef → α) (mem : c ∈ cs) :
    (cs.map fun c => (c.name, f c)).lookup c.name = some (f c) := by
  induction cs with
  | nil => cases mem
  | cons d cs ih =>
    rw [List.map_cons, List.lookup_cons]
    by_cases eq : c.name = d.name
    · obtain rfl := eq_of_name_eq (declared c mem) (declared d (List.mem_cons_self ..)) eq
      simp
    · rw [beq_false_of_ne eq]
      cases mem with
      | head => exact absurd rfl eq
      | tail _ mem => exact ih (fun e mem' => declared e (List.mem_cons_of_mem _ mem')) mem

end Program

/-- Nothing is tabulated under other names. -/
lemma lookup_map_name_eq_none {α : Type} {cs : List ClassDef} {n : String} (f : ClassDef → α)
    (other : ∀ c ∈ cs, c.name ≠ n) : (cs.map fun c => (c.name, f c)).lookup n = none := by
  induction cs with
  | nil => rfl
  | cons d cs ih =>
    rw [List.map_cons, List.lookup_cons, beq_false_of_ne (other d (List.mem_cons_self ..)).symm]
    exact ih fun c mem => other c (List.mem_cons_of_mem _ mem)

end ObjectBackend
