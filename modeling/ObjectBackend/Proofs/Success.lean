import Mathlib.Data.List.Forall2
import Mathlib.Tactic.Lemma

/-!
# Successful runs

What the success of a checked computation says about its parts. A computation that has succeeded can
be taken apart step by step, and what each step preserves, a successful loop preserves.
-/

namespace List

/-- An element of the first list is related to one of the second. -/
lemma Forall₂.exists_of_mem {α β : Type} {R : α → β → Prop} {xs : List α} {ys : List β}
    (related : Forall₂ R xs ys) {a : α} (mem : a ∈ xs) : ∃ b ∈ ys, R a b := by
  induction related with
  | nil => cases mem
  | cons first _ ih =>
    cases mem with
    | head => exact ⟨_, mem_cons_self .., first⟩
    | tail _ mem =>
      obtain ⟨b, memb, related⟩ := ih mem
      exact ⟨b, mem_cons_of_mem _ memb, related⟩

/-- If each step of a loop adds something to what holds of its state, the loop adds all of it. -/
lemma adds_of_foldl {σ α : Type} {f : σ → α → σ} {new : α → Prop} {xs : List α} {s : σ}
    (P : σ → Prop) (step : ∀ s, ∀ x ∈ xs, (P (f s x) ↔ P s ∨ new x)) :
    P (xs.foldl f s) ↔ P s ∨ ∃ x ∈ xs, new x := by
  induction xs generalizing s with
  | nil => simp
  | cons x xs ih =>
    rw [foldl_cons, ih fun s y mem => step s y (mem_cons_of_mem _ mem),
      step s x (mem_cons_self ..)]
    simp [or_assoc]

end List

namespace Except

variable {ε ε' α β : Type} {x : Except ε α} {b : β}

/-- If a sequence of two steps succeeds, so does each of them. -/
lemma exists_of_bind_eq_ok {f : α → Except ε β} (succeeds : x >>= f = .ok b) :
    ∃ a, x = .ok a ∧ f a = .ok b := by
  cases x with
  | error e => cases succeeds
  | ok a => exact ⟨a, rfl, succeeds⟩

/-- Naming an error in another way does not make it a success. -/
lemma of_mapError_eq_ok {f : ε → ε'} {a : α} (succeeds : x.mapError f = .ok a) : x = .ok a := by
  cases x with
  | error e => cases succeeds
  | ok a' => exact congrArg ok (Except.ok.inj succeeds)

/-- What does not succeed fails with an error. -/
lemma exists_eq_error (fails : ∀ a, x ≠ .ok a) : ∃ e, x = .error e := by
  cases x with
  | error e => exact ⟨e, rfl⟩
  | ok a => exact absurd rfl (fails a)

/-- If a check succeeds for a whole list, it does for each element. -/
lemma of_forM_eq_ok {f : α → Except ε Unit} {xs : List α} (succeeds : xs.forM f = .ok ()) {a : α}
    (mem : a ∈ xs) : f a = .ok () := by
  induction xs with
  | nil => cases mem
  | cons x xs ih =>
    obtain ⟨_, first, others⟩ := exists_of_bind_eq_ok (x := f x) succeeds
    cases mem with
    | head => exact first
    | tail _ mem => exact ih others mem

/-- A check succeeds for a whole list if it does for each element. -/
lemma forM_eq_ok {f : α → Except ε Unit} {xs : List α} (each : ∀ a ∈ xs, f a = .ok ()) :
    xs.forM f = .ok () := by
  induction xs with
  | nil => rfl
  | cons x xs ih =>
    obtain ⟨first, others⟩ := List.forall_mem_cons.1 each
    change (f x >>= fun _ => xs.forM f) = _
    rw [first]
    exact ih others

/-- What a computation gives, if it succeeds, has a property. -/
def Ensures (P : α → Prop) (x : Except ε α) : Prop := ∀ a, x = .ok a → P a

namespace Ensures

variable {P : α → Prop} {Q : β → Prop}

/-- A result ensures what holds of it. -/
lemma pure {a : α} (holds : P a) : Ensures P (Pure.pure a : Except ε α) := by
  rintro _ ⟨⟩
  exact holds

/-- A failure ensures anything. -/
lemma error (e : ε) : Ensures P (.error e : Except ε α) := by rintro _ ⟨⟩

/-- What succeeds ensures what follows from each of its results. -/
lemma bind {f : α → Except ε β} (step : ∀ a, x = .ok a → Ensures Q (f a)) :
    Ensures Q (x >>= f) := by
  intro b succeeds
  obtain ⟨a, given, rest⟩ := exists_of_bind_eq_ok succeeds
  exact step a given b rest

/-- A computation for each element of a list gives a result for each. -/
lemma mapM {R : α → β → Prop} {f : α → Except ε β} {xs : List α}
    (each : ∀ a ∈ xs, Ensures (R a) (f a)) : Ensures (List.Forall₂ R xs) (xs.mapM f) := by
  induction xs with
  | nil => exact pure .nil
  | cons a xs ih =>
    rw [List.mapM_cons]
    obtain ⟨first, others⟩ := List.forall_mem_cons.1 each
    refine bind fun b given => bind fun bs given' => pure ?_
    exact .cons (first b given) (ih others bs given')

end Ensures

section Loop

variable {f : α → Except ε β} {xs : List α} {ys : List β}

/-- If each element of a list has a result, the results are those of the list. -/
lemma mapM_eq_ok {g : α → β} (each : ∀ a ∈ xs, f a = .ok (g a)) : xs.mapM f = .ok (xs.map g) := by
  induction xs with
  | nil => rfl
  | cons a xs ih =>
    obtain ⟨first, others⟩ := List.forall_mem_cons.1 each
    rw [List.mapM_cons, first, ih others]
    rfl

/-- If a computation for the elements of a list fails, it does so at the first element for which
there is no result. -/
lemma exists_of_mapM_eq_error {e : ε} (fails : xs.mapM f = .error e) :
    ∃ before a after, xs = before ++ a :: after ∧ f a = .error e ∧
      ∀ b ∈ before, ∃ y, f b = .ok y := by
  induction xs with
  | nil => cases fails
  | cons a xs ih =>
    rw [List.mapM_cons] at fails
    cases first : f a with
    | error e' =>
      rw [first] at fails
      cases fails
      exact ⟨[], a, xs, rfl, first, List.forall_mem_nil _⟩
    | ok y =>
      rw [first] at fails
      cases others : xs.mapM f with
      | ok ys =>
        rw [others] at fails
        cases fails
      | error e' =>
        rw [others] at fails
        cases fails
        obtain ⟨before, b, after, rfl, failed, each⟩ := ih others
        exact ⟨a :: before, b, after, rfl, failed, List.forall_mem_cons.2 ⟨⟨y, first⟩, each⟩⟩

/-- Each result of a traversal is that of its item. -/
lemma forall₂_of_mapM_eq_ok (succeeds : xs.mapM f = .ok ys) :
    List.Forall₂ (fun a b => f a = .ok b) xs ys :=
  Ensures.mapM (fun _ _ _ given => given) ys succeeds

/-- What is computed for an element of a list is among the results. -/
lemma exists_mem_of_mapM_eq_ok {a : α} (succeeds : xs.mapM f = .ok ys) (mem : a ∈ xs) :
    ∃ b ∈ ys, f a = .ok b :=
  (forall₂_of_mapM_eq_ok succeeds).exists_of_mem mem

/-- Every result has been computed for an element of the list. -/
lemma exists_of_mem_of_mapM_eq_ok {b : β} (succeeds : xs.mapM f = .ok ys) (mem : b ∈ ys) :
    ∃ a ∈ xs, f a = .ok b :=
  (forall₂_of_mapM_eq_ok succeeds).flip.exists_of_mem mem

end Loop

/-- If each step of a loop adds something to what holds of its state, the loop adds all of it. -/
lemma adds_of_foldlM {σ : Type} {f : σ → α → Except ε σ} {new : α → Prop} {xs : List α} {s s' : σ}
    (P : σ → Prop) (run : xs.foldlM f s = .ok s')
    (step : ∀ s s', ∀ x ∈ xs, f s x = .ok s' → (P s' ↔ P s ∨ new x)) :
    P s' ↔ P s ∨ ∃ x ∈ xs, new x := by
  induction xs generalizing s with
  | nil =>
    cases run
    simp
  | cons x xs ih =>
    rw [List.foldlM_cons] at run
    obtain ⟨s₁, first, others⟩ := exists_of_bind_eq_ok run
    rw [ih others fun s s' y mem => step s s' y (List.mem_cons_of_mem _ mem),
      step s s₁ x (List.mem_cons_self ..) first]
    simp [or_assoc]

/-- What a computation gives as an option, it gives. -/
lemma eq_ok_of_toOption {a : α} {x : Except ε α} (some : x.toOption = some a) : x = .ok a := by
  cases x with
  | error e => cases some
  | ok a' => exact congrArg ok (Option.some.inj some)

end Except

namespace StateT

variable {σ ε α β : Type} {x : StateT σ (Except ε) α} {s s' : σ} {b : β}

/-- If a sequence of two steps succeeds, so does each of them, one after the other. -/
lemma exists_of_run_bind_eq_ok {f : α → StateT σ (Except ε) β}
    (succeeds : (x >>= f).run s = .ok (b, s')) :
    ∃ a s₁, x.run s = .ok (a, s₁) ∧ (f a).run s₁ = .ok (b, s') := by
  rw [run_bind] at succeeds
  obtain ⟨⟨a, s₁⟩, first, second⟩ := Except.exists_of_bind_eq_ok succeeds
  exact ⟨a, s₁, first, second⟩

/-- A step without state leaves it as it is. -/
lemma of_run_liftM_eq_ok {y : Except ε α} {a : α}
    (succeeds : (liftM y : StateT σ (Except ε) α).run s = .ok (a, s')) : y = .ok a ∧ s' = s := by
  cases y with
  | error e => cases succeeds
  | ok a' =>
    cases succeeds
    exact ⟨rfl, rfl⟩

section Loop

variable {f : α → StateT σ (Except ε) β} {xs : List α} {ys : List β}

/-- Steps for the elements of a list that keep an invariant are made in states with the invariant.
-/
lemma forall₂_of_run_mapM_eq_ok {I : σ → Prop}
    (keeps : ∀ x ∈ xs, ∀ s y s', I s → (f x).run s = .ok (y, s') → I s') (start : I s)
    (succeeds : (xs.mapM f).run s = .ok (ys, s')) :
    List.Forall₂ (fun x y => ∃ s s', I s ∧ (f x).run s = .ok (y, s')) xs ys := by
  induction xs generalizing s ys with
  | nil =>
    cases succeeds
    exact .nil
  | cons x xs ih =>
    rw [List.mapM_cons] at succeeds
    obtain ⟨y, s₁, first, rest⟩ := exists_of_run_bind_eq_ok succeeds
    obtain ⟨ys', s₂, others, whole⟩ := exists_of_run_bind_eq_ok rest
    cases whole
    obtain ⟨keeps, keeps'⟩ := List.forall_mem_cons.1 keeps
    exact .cons ⟨s, s₁, start, first⟩ (ih keeps' (keeps s y s₁ start first) others)

/-- What steps for each element of a list give, one of them has given in some state. -/
lemma exists_of_mem_of_run_mapM_eq_ok (succeeds : (xs.mapM f).run s = .ok (ys, s')) {y : β}
    (mem : y ∈ ys) : ∃ x ∈ xs, ∃ s₁ s₂, (f x).run s₁ = .ok (y, s₂) := by
  have each := forall₂_of_run_mapM_eq_ok (I := fun _ => True) (fun _ _ _ _ _ _ _ => trivial) trivial
    succeeds
  obtain ⟨x, mem, s₁, s₂, -, given⟩ := each.flip.exists_of_mem mem
  exact ⟨x, mem, s₁, s₂, given⟩

/-- What the step for an element of a list gives in some state is among the results. -/
lemma exists_mem_of_run_mapM_eq_ok (succeeds : (xs.mapM f).run s = .ok (ys, s')) {x : α}
    (mem : x ∈ xs) : ∃ y ∈ ys, ∃ s₁ s₂, (f x).run s₁ = .ok (y, s₂) := by
  have each := forall₂_of_run_mapM_eq_ok (I := fun _ => True) (fun _ _ _ _ _ _ _ => trivial) trivial
    succeeds
  obtain ⟨y, mem, s₁, s₂, -, given⟩ := each.exists_of_mem mem
  exact ⟨y, mem, s₁, s₂, given⟩

/-- Steps without state leave it as it is. -/
lemma of_run_mapM_liftM_eq_ok {f : α → Except ε β}
    (succeeds : (xs.mapM fun x => (f x : StateT σ (Except ε) β)).run s = .ok (ys, s')) :
    xs.mapM f = .ok ys ∧ s' = s := by
  induction xs generalizing s ys with
  | nil =>
    cases succeeds
    exact ⟨rfl, rfl⟩
  | cons x xs ih =>
    rw [List.mapM_cons] at succeeds
    obtain ⟨y, s₁, first, succeeds⟩ := exists_of_run_bind_eq_ok succeeds
    obtain ⟨ys', s₂, others, succeeds⟩ := exists_of_run_bind_eq_ok succeeds
    cases succeeds
    obtain ⟨first', rfl⟩ := of_run_liftM_eq_ok first
    obtain ⟨others', rfl⟩ := ih others
    rw [List.mapM_cons, first', others']
    exact ⟨rfl, rfl⟩

end Loop

end StateT
