import ObjectBackend.Proofs.Hierarchy.Overriding
import ObjectBackend.Proofs.Objects.Dispatch

/-!
# Slots in the shared table

Which declarations have a slot in the table that all classes share. Entering a virtual method gives
one to the declarations in interfaces that the method is found to override and, in an interface, to
the method itself if it is found to override nothing (`NeedsSlot`). A declaration that has its slot
keeps it, so the table has what one of the entered methods needs, in whatever order they are entered
(`mem_interfaceTable_iff`).

A declaration that overrides something should have no slot, since what it overrides has one. It gets
one just if it is found in place of that, which depends on the order in which supertypes are listed.
-/

namespace ObjectBackend

namespace DispatchTables

variable {p : Program} {t t' t'' : DispatchTables} {c : ClassDef} {m : MethodRef} {md : MethodDef}
  {new new' : MethodRef → Prop}

/-- A reference is to a method of an interface. -/
def InInterface (p : Program) (m : MethodRef) : Prop := ∃ i ∈ p.interfaces, i.name = m.className

/-- Whether a method is that of an interface is told by its class. -/
lemma any_isInterface_iff :
    (p.lookup? m.className).any (·.isInterface) = true ↔ InInterface p m := by
  rw [Option.any_eq_true, InInterface]
  refine exists_congr fun i => ?_
  rw [Program.lookup?_eq_some_iff, Program.interfaces, List.mem_filter]
  exact and_right_comm

/-- The declarations in interfaces that own slots are in the shared table. -/
def Shared (p : Program) (t : DispatchTables) : Prop :=
  ∀ m s, (m, s) ∈ t.slots → InInterface p m → m ∈ t.interfaceTable

/-- Some declarations enter the shared table. -/
def Enters (p : Program) (t t' : DispatchTables) (new : MethodRef → Prop) : Prop :=
  Shared p t → Shared p t' ∧ ∀ m, m ∈ t'.interfaceTable ↔ m ∈ t.interfaceTable ∨ new m

/-- What is entered may be described otherwise. -/
lemma Enters.congr (enters : Enters p t t' new) (same : ∀ m, new m ↔ new' m) :
    Enters p t t' new' := by
  obtain rfl : new = new' := funext fun m => propext (same m)
  exact enters

/-- What is entered in two rounds is entered in one. -/
lemma Enters.trans (first : Enters p t t' new) (second : Enters p t' t'' new') :
    Enters p t t'' fun m => new m ∨ new' m := by
  intro shared
  obtain ⟨shared', mem⟩ := first shared
  obtain ⟨shared'', mem'⟩ := second shared'
  exact ⟨shared'', fun m => by rw [mem', mem, or_assoc]⟩

/-- The steps of a loop that succeeds enter what each of them enters. -/
lemma Enters.foldlM {ε σ α : Type} (tables : σ → DispatchTables) {f : σ → α → Except ε σ}
    {each : α → MethodRef → Prop} {xs : List α} {s s' : σ} (run : xs.foldlM f s = .ok s')
    (step : ∀ s s', ∀ x ∈ xs, f s x = .ok s' → Enters p (tables s) (tables s') (each x)) :
    Enters p (tables s) (tables s') fun m => ∃ x ∈ xs, each x m := by
  induction xs generalizing s with
  | nil =>
    cases run
    exact fun shared => ⟨shared, by simp⟩
  | cons x xs ih =>
    rw [List.foldlM_cons] at run
    obtain ⟨s₁, first, others⟩ := Except.exists_of_bind_eq_ok run
    have entered := step _ _ x (List.mem_cons_self ..) first
    have entered' := ih others fun s s' y mem => step s s' y (List.mem_cons_of_mem _ mem)
    exact (entered.trans entered').congr fun m => by simp

/-- The steps of a loop enter what each of them enters. -/
lemma Enters.foldl {α : Type} {f : DispatchTables → α → DispatchTables}
    {each : α → MethodRef → Prop} {xs : List α}
    (step : ∀ t, ∀ x ∈ xs, Enters p t (f t x) (each x)) :
    Enters p t (xs.foldl f t) fun m => ∃ x ∈ xs, each x m := by
  have run : xs.foldlM (fun t x => (pure (f t x) : Except Empty DispatchTables)) t =
      .ok (xs.foldl f t) := List.foldlM_pure
  refine Enters.foldlM id run fun t t' x mem result => ?_
  cases result
  exact step t x mem

/-- Giving a declaration of an interface a slot enters it. -/
lemma enters_addInterfaceSlot (within : InInterface p m) :
    Enters p t (t.addInterfaceSlot m) (· = m) := by
  intro shared
  rw [addInterfaceSlot]
  split
  case isTrue owned =>
    obtain ⟨s, owns⟩ := Option.isSome_iff_exists.1 owned
    refine ⟨shared, fun m' => (or_iff_left_of_imp ?_).symm⟩
    rintro rfl
    exact shared m' s (mem_slots_of_slot? owns) within
  case isFalse =>
    simp only
    refine ⟨fun m' s mem within' => ?_, fun m' => by rw [interfaceTable_push]; simp⟩
    rw [interfaceTable_push]
    rcases List.mem_append.1 mem with mem | mem
    · exact List.mem_append_left _ (shared m' s mem within')
    · cases List.mem_singleton.1 mem
      exact List.mem_append_right _ (List.mem_cons_self ..)

/-- Giving some declarations of interfaces slots enters them. -/
lemma enters_addInterfaceSlots (ms : List MethodRef) :
    Enters p t (t.addInterfaceSlots p ms) fun m => m ∈ ms ∧ InInterface p m := by
  have entered : Enters p t (t.addInterfaceSlots p ms) _ := Enters.foldl fun t m mem =>
    enters_addInterfaceSlot (any_isInterface_iff.1 (List.mem_filter.1 mem).2)
  exact entered.congr fun m => by simp [any_isInterface_iff]

/-- What the shared table has to have for a method of a class. -/
def NeedsSlot (p : Program) (c : ClassDef) (md : MethodDef) (m : MethodRef) : Prop :=
  m ∈ p.topmostDeclarations c md.signature ∧ InInterface p m ∨
    c.isInterface = true ∧ p.topmostDeclarations c md.signature = [] ∧ m = c.reference md

/-- Entering a method of a class enters the declarations of interfaces that it needs. -/
lemma enters_addClassMethod {s s' : DispatchTables × VirtualTable} (memc : c ∈ p.concreteClasses)
    (entered : addClassMethod p c s md = .ok s') : Enters p s.1 s'.1 (NeedsSlot p c md) := by
  have isClass : ¬c.isInterface = true := by simpa using (Program.mem_concreteClasses.1 memc).2
  rw [addClassMethod] at entered
  split at entered
  case isTrue none =>
    simp only at entered
    split at entered
    case isTrue => cases entered
    case isFalse =>
      cases entered
      refine fun shared => ⟨fun m s mem within => ?_, fun m => ?_⟩
      · rcases List.mem_append.1 mem with mem | mem
        · exact shared m s mem within
        · cases List.mem_singleton.1 mem
          obtain ⟨i, memi, named⟩ := within
          obtain ⟨memi, isInterface⟩ := List.mem_filter.1 memi
          exact absurd named.symm (Program.name_ne_of_isInterface memc memi isInterface)
      · simp [NeedsSlot, List.isEmpty_iff.1 none, isClass, interfaceTable]
  case isFalse =>
    cases entered
    exact (enters_addInterfaceSlots _).congr fun m => by simp [NeedsSlot, isClass]

/-- Entering a class enters what its methods need. -/
lemma enters_addClass (memc : c ∈ p.concreteClasses) (entered : addClass p t c = .ok t') :
    Enters p t t' fun m => ∃ md ∈ c.methods.filter (·.isVirtual), NeedsSlot p c md m := by
  obtain ⟨⟨t₁, table⟩, methods, result⟩ := Except.exists_of_bind_eq_ok entered
  cases result
  exact Enters.foldlM Prod.fst methods fun _ _ _ _ => enters_addClassMethod memc

/-- Entering an interface enters what its methods need. -/
lemma enters_addInterface (memc : c ∈ p.interfaces) :
    Enters p t (t.addInterface p c) fun m =>
      ∃ md ∈ c.methods.filter (·.isVirtual), NeedsSlot p c md m := by
  have isInterface := (List.mem_filter.1 memc).2
  refine Enters.foldl fun t md _ => ?_
  simp only
  split
  case isTrue none =>
    refine (enters_addInterfaceSlot ⟨c, memc, rfl⟩).congr fun m => ?_
    simp [NeedsSlot, List.isEmpty_iff.1 none, isInterface]
  case isFalse some =>
    refine (enters_addInterfaceSlots _).congr fun m => ?_
    simp [NeedsSlot, mt List.isEmpty_iff.2 some]

/-- The shared table has what the virtual methods of all classes need. -/
lemma mem_interfaceTable_iff (built : ofProgram p = .ok t) :
    m ∈ t.interfaceTable ↔
      ∃ c ∈ p.classes, ∃ md ∈ c.methods.filter (·.isVirtual), NeedsSlot p c md m := by
  obtain ⟨t₁, classes, result⟩ := Except.exists_of_bind_eq_ok built
  cases result
  have entered : Enters p empty t₁ _ := Enters.foldlM id classes fun _ _ c mem =>
    enters_addClass (mem_classOrder.1 mem)
  have entered' :
      Enters p t₁ ((p.sortedClasses.filter (·.isInterface)).foldl (addInterface p) t₁) _ :=
    Enters.foldl fun t c mem => enters_addInterface (by
      rw [List.mem_filter, Program.sortedClasses, List.mem_mergeSort] at mem
      exact List.mem_filter.2 mem)
  rw [((entered.trans entered') fun _ _ mem => absurd mem List.not_mem_nil).2 m]
  have nothing : empty.interfaceTable = [] := rfl
  simp only [nothing, List.not_mem_nil, false_or, mem_classOrder, Program.mem_concreteClasses,
    Program.sortedClasses, List.mem_filter, List.mem_mergeSort]
  constructor
  · rintro (⟨c, mem, needs⟩ | ⟨c, mem, needs⟩)
    · exact ⟨c, mem.1, needs⟩
    · exact ⟨c, mem.1, needs⟩
  · rintro ⟨c, mem, needs⟩
    cases kind : c.isInterface with
    | false => exact .inl ⟨c, ⟨mem, kind⟩, needs⟩
    | true => exact .inr ⟨c, ⟨mem, kind⟩, needs⟩

/-- The search for topmost declarations finds all of them, and something where there are any. It
finds no others just if the declarations above a class that override something are met before
something that they override. An interface's declaration that overrides something has a slot just if
a virtual method of a class below is found to override it, because nothing that it overrides is met
behind it there. -/
theorem finds_topmost_iff (acyclic : p.Acyclic) (s : Signature) :
    (∀ T, p.IsTopmost s T ↔ T = p.Topmost s) ∧
    (∀ c ∈ p.classes,
      (∀ e, p.Topmost s c e → ⟨e.name, s⟩ ∈ p.topmostDeclarations c s) ∧
      (p.topmostDeclarations c s = [] ↔ ∀ e, ¬p.Topmost s c e) ∧
      ((∀ m, m ∈ p.topmostDeclarations c s ↔ ∃ e, p.Topmost s c e ∧ m = ⟨e.name, s⟩) ↔
        p.MeetsInTime s c)) ∧
    ∀ t, ofProgram p = .ok t → ∀ i ∈ p.interfaces, (∃ f, p.Overrides s i f) →
      (⟨i.name, s⟩ ∈ t.interfaceTable ↔
        ∃ c ∈ p.classes, (∃ md ∈ c.methods, md.isVirtual = true ∧ md.signature = s) ∧
          p.Below c i ∧ p.IsTopOf s (p.walk c) i) := by
  refine ⟨fun T => acyclic.isTopmost_iff, fun c mem => ⟨fun e => acyclic.topmost_subset mem,
    acyclic.topmostDeclarations_eq_nil_iff mem, acyclic.topmostDeclarations_iff mem⟩, ?_⟩
  intro t built i memi overriding
  obtain ⟨f, overrides⟩ := overriding
  have declared := (List.mem_filter.1 memi).1
  rw [mem_interfaceTable_iff built]
  constructor
  · rintro ⟨c, mem, md, virtual, ⟨found, _⟩ | ⟨_, none, same⟩⟩
    · obtain ⟨memmd, virtual⟩ := List.mem_filter.1 virtual
      obtain ⟨e, below, top, eq⟩ := (acyclic.mem_topmostDeclarations mem).1 found
      obtain ⟨named, rfl⟩ := MethodRef.mk.inj eq
      obtain rfl := Program.eq_of_name_eq declared below.mem named
      exact ⟨c, mem, ⟨md, memmd, virtual, rfl⟩, below, top⟩
    · -- the declaration itself is not found to override nothing
      obtain ⟨named, rfl⟩ := MethodRef.mk.inj same
      obtain rfl := Program.eq_of_name_eq declared mem named
      obtain ⟨e, top⟩ := acyclic.exists_topmost overrides
      exact absurd top ((acyclic.topmostDeclarations_eq_nil_iff mem).1 none e)
  · rintro ⟨c, mem, ⟨md, memmd, virtual, rfl⟩, below, top⟩
    exact ⟨c, mem, md, List.mem_filter.2 ⟨memmd, virtual⟩, .inl
      ⟨(acyclic.mem_topmostDeclarations mem).2 ⟨i, below, top, rfl⟩, i, memi, rfl⟩⟩

/-- How to draw. -/
def draw : MethodDef :=
  { signature := ⟨"draw", [], .void⟩
    isStatic := false
    isNative := true
    isAbstract := false
    access := .anyClass
    body := none }

/-- An interface of what can be drawn. -/
def drawable : ClassDef :=
  { ClassDef.empty "Drawable" with
    isInterface := true
    methods := [{ draw with isNative := false, isAbstract := true }] }

/-- A subinterface of it that declares the method again. -/
def shape : ClassDef := { drawable with name := "Shape", interfaces := ["Drawable"] }

/-- A class that lists interfaces. -/
def circle (interfaces : List String) : ClassDef :=
  { ClassDef.empty "Circle" with interfaces := interfaces, methods := [draw] }

/-- A program with these three. -/
def drawing (interfaces : List String) : Program :=
  { classes := [drawable, shape, circle interfaces]
    entryPoint := none
    nodup := (by decide : ["Drawable", "Shape", "Circle"].Nodup) }

variable {interfaces : List String}

/-- The circle is a class of the drawing. -/
lemma circle_mem : circle interfaces ∈ (drawing interfaces).classes := by simp [drawing]

/-- The drawing has no circles unless the circle lists itself. -/
lemma drawing_acyclic (others : "Circle" ∉ interfaces) : (drawing interfaces).Acyclic := by
  let rank (n : String) : Nat := if n = "Circle" then 2 else if n = "Shape" then 1 else 0
  refine Program.acyclic_of_rank rank fun c mem n listed => ?_
  rcases List.mem_cons.1 mem with rfl | mem
  · cases listed
  · rcases List.mem_cons.1 mem with rfl | mem
    · obtain rfl := List.mem_singleton.1 listed
      decide
    · obtain rfl := List.mem_singleton.1 mem
      have other : n ≠ "Circle" := fun eq => others (eq ▸ listed)
      simp only [rank, if_neg other, circle]
      split <;> decide

/-- The subinterface's declaration overrides the interface's. -/
lemma shape_overrides : (drawing interfaces).Overrides draw.signature shape drawable :=
  ⟨.single (.inr ⟨"Drawable", List.mem_cons_self .., rfl⟩), rfl⟩

/-- The interface's declaration overrides nothing. -/
lemma drawable_overrides {f : ClassDef} :
    ¬(drawing interfaces).Overrides draw.signature drawable f := by
  rintro ⟨below, _⟩
  obtain ⟨d, link, _⟩ := Relation.TransGen.head'_iff.1 below
  obtain ⟨n, listed, _⟩ := Program.extends_iff.1 link
  cases listed

/-- A class that lists the subinterface first meets the interface behind it. -/
lemma circle_meetsInTime : (drawing ["Shape", "Drawable"]).MeetsInTime draw.signature
    (circle ["Shape", "Drawable"]) := by
  rintro e ⟨below, _⟩ ⟨f, overrides⟩
  have mem : e ∈ [drawable, shape, circle _] := below.mem
  simp only [List.mem_cons, List.not_mem_nil, or_false] at mem
  rcases mem with rfl | rfl | rfl
  · exact absurd overrides drawable_overrides
  · refine ⟨drawable, shape_overrides, ?_⟩
    change [shape, drawable].Sublist (Pool.walk [drawable, shape] ["Shape", "Drawable"]).met
    have above : Pool.find? [drawable] "Drawable" = some drawable := by decide
    rw [(Pool.walk_of_find? (c := shape) _ (by decide)).1, List.cons_sublist_cons,
      List.singleton_sublist]
    refine List.mem_append_left _ ?_
    change drawable ∈ (Pool.walk [drawable] ["Drawable"]).met
    rw [(Pool.walk_of_find? _ above).1]
    exact List.mem_cons_self ..
  · exact absurd below (drawing_acyclic (by decide) _)

/-- It finds just the interface's declaration. -/
theorem circle_finds_topmost :
    (drawing ["Shape", "Drawable"]).Acyclic ∧
      ∀ m, m ∈ (drawing ["Shape", "Drawable"]).topmostDeclarations (circle ["Shape", "Drawable"])
          draw.signature ↔
        ∃ e, (drawing ["Shape", "Drawable"]).Topmost draw.signature
          (circle ["Shape", "Drawable"]) e ∧ m = ⟨e.name, draw.signature⟩ := by
  have acyclic := drawing_acyclic (by decide : "Circle" ∉ ["Shape", "Drawable"])
  have found := ((finds_topmost_iff acyclic draw.signature).2.1 _ circle_mem).2.2
  exact ⟨acyclic, found.2 circle_meetsInTime⟩

/-- A class that lists the interface first finds the subinterface's declaration, too: the interface
above that is not met again. -/
lemma circle_finds_shape : ⟨"Shape", draw.signature⟩ ∈
    (drawing ["Drawable", "Shape"]).topmostDeclarations (circle ["Drawable", "Shape"])
      draw.signature := by
  have first : Pool.find? [drawable, shape] "Drawable" = some drawable := by decide
  have second : Pool.find? [shape] "Shape" = some shape := by decide
  refine List.mem_map.2 ⟨"Shape", ?_, rfl⟩
  change _ ∈ (Pool.topmost draw.signature [drawable, shape] ["Drawable", "Shape"]).classes
  rw [(Pool.topmost_of_find? _ first).1]
  refine List.mem_append_right _ ?_
  have left : (Pool.topmost draw.signature (Pool.without [drawable, shape] "Drawable")
      drawable.supertypeNames).rest = [shape] := by
    change (Pool.topmost draw.signature [shape] []).rest = _
    rw [Pool.topmost]
  have above : (Pool.topmost draw.signature (Pool.without [shape] "Shape")
      shape.supertypeNames).classes = [] := by
    change (Pool.topmost draw.signature [] ["Drawable"]).classes = _
    rw [(Pool.topmost_of_not_found [] rfl).1, Pool.topmost]
  rw [left, (Pool.topmost_of_find? _ second).1, above]
  exact List.mem_cons_self ..

/-- The classes have tables. -/
lemma exists_tables : ∃ t, ofProgram (drawing ["Drawable", "Shape"]) = .ok t := by
  have order : classOrder (drawing ["Drawable", "Shape"]) = [circle ["Drawable", "Shape"]] :=
    List.mergeSort_singleton _
  have virtual : (circle ["Drawable", "Shape"]).methods.filter (·.isVirtual) = [draw] := by decide
  have found := List.isEmpty_eq_false_iff_exists_mem.2 ⟨_, circle_finds_shape⟩
  rw [ofProgram, order, List.foldlM_cons, addClass, virtual, List.foldlM_cons, addClassMethod]
  simp only [found]
  exact ⟨_, rfl⟩

/-- Then the subinterface's declaration has a slot of its own, although it overrides the
interface's and is not topmost in any reading of the recursion. -/
theorem shape_has_slot :
    (drawing ["Drawable", "Shape"]).Acyclic ∧
    (drawing ["Drawable", "Shape"]).Overrides draw.signature shape drawable ∧
    (∀ T, (drawing ["Drawable", "Shape"]).IsTopmost draw.signature T →
      ¬∀ m, m ∈ (drawing ["Drawable", "Shape"]).topmostDeclarations (circle ["Drawable", "Shape"])
          draw.signature ↔ ∃ e, T (circle ["Drawable", "Shape"]) e ∧ m = ⟨e.name, draw.signature⟩) ∧
    ∃ t, ofProgram (drawing ["Drawable", "Shape"]) = .ok t ∧
      ⟨"Shape", draw.signature⟩ ∈ t.interfaceTable := by
  have acyclic := drawing_acyclic (by decide : "Circle" ∉ ["Drawable", "Shape"])
  refine ⟨acyclic, shape_overrides, ?_, ?_⟩
  · intro T recursive same
    obtain rfl := acyclic.isTopmost_iff.1 recursive
    obtain ⟨e, top, eq⟩ := (same _).1 circle_finds_shape
    have mem : shape ∈ (drawing ["Drawable", "Shape"]).classes :=
      List.mem_cons_of_mem _ (List.mem_cons_self ..)
    obtain rfl := Program.eq_of_name_eq mem top.1.1.mem (congrArg MethodRef.className eq)
    exact top.2 drawable shape_overrides
  · obtain ⟨t, built⟩ := exists_tables
    refine ⟨t, built, (mem_interfaceTable_iff built).2 ⟨_, circle_mem, draw, ?_, .inl ?_⟩⟩
    · exact List.mem_cons_self ..
    · exact ⟨circle_finds_shape, shape, by decide, rfl⟩

end DispatchTables

end ObjectBackend
