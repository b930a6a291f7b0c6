import Mathlib.Data.List.Infix
import Mathlib.Data.List.Nodup
import Mathlib.Logic.Function.Basic
import ObjectBackend.Proofs.Evaluation
import ObjectBackend.Proofs.Objects.OwnedSlots
import ObjectBackend.Proofs.Objects.TypeTag

/-!
# Slot numbers

What the numbers of slots say. Every entry past the inherited part of a class's table owns the slot
of that number, so does every entry of the shared table, and no other slots are owned
(`slot?_iff`). Both directions are kept by each step that gives a slot, because a declaration gets
one only if it has none.

The table of a class thus lists, once each, the declarations of its ancestors that own slots. Two of
them have one signature just if the lower one does not find the upper one, which is virtual but
stands behind a static or private method with the same signature (`exists_repeated_iff`).
-/

namespace ObjectBackend

namespace Program

variable {p : Program} {c d e : ClassDef} {pool : List ClassDef} {s : Signature}

/-- A class among some of the classes is found there by its name. -/
lemma find?_of_mem (within : pool ⊆ p.classes) (mem : c ∈ pool) :
    Pool.find? pool c.name = some c := by
  obtain ⟨d, found⟩ := Option.isSome_iff_exists.1
    (List.find?_isSome.2 ⟨c, mem, decide_eq_true rfl⟩ : (Pool.find? pool c.name).isSome = true)
  obtain ⟨memd, named⟩ := Pool.find?_eq_some found
  rwa [eq_of_name_eq (within memd) (within mem) named] at found

/-- The first supertype of a class is its parent. -/
lemma supertypeNames_of_parent {parent : String} (link : c.parentName = some parent) :
    c.supertypeNames = parent :: c.interfaces := by
  rw [ClassDef.supertypeNames, link]
  rfl

/-- A walk that begins with a class meets all its ancestors, unless some have been met before. -/
lemma Grounded.ancestors_subset_met (grounded : p.Grounded c) (names : List String)
    (within : pool ⊆ p.classes) (fresh : p.ancestors c.name ⊆ pool) :
    p.ancestors c.name ⊆ (Pool.walk pool (c.name :: names)).met := by
  induction grounded generalizing pool names with
  | @root c memc noParent =>
    have memc := concreteClasses_subset memc
    have found := find?_of_mem within (fresh (mem_ancestors_self memc))
    rw [ancestors_of_root memc noParent, (Pool.walk_of_find? names found).1]
    exact List.cons_subset_cons _ (List.nil_subset _)
  | @child c d memc link up grounded' ih =>
    have found := find?_of_mem within (fresh (mem_ancestors_self (concreteClasses_subset memc)))
    have notAbove := grounded'.not_mem_ancestors up
    rw [up, List.cons_subset] at fresh
    have fresh' : p.ancestors d.name ⊆ Pool.without pool c.name := fun e mem => by
      refine Pool.mem_without.2 ⟨fresh.2 mem, fun eq => notAbove ?_⟩
      rwa [← eq_of_name_eq (mem_of_mem_ancestors mem) (concreteClasses_subset memc) eq]
    rw [up, (Pool.walk_of_find? names found).1, supertypeNames_of_parent link]
    refine List.cons_subset_cons _ (List.subset_append_of_subset_left _ ?_)
    exact ih _ (List.Subset.trans (Pool.without_subset _ _) within) fresh'

/-- Where a method is found to override nothing, no ancestor declares it, as far as the first method
with the signature tells. -/
lemma Grounded.declares_eq_false (grounded : p.Grounded c) (none : p.topmostDeclarations c s = [])
    (up : d ∈ p.ancestors c.name) (other : d ≠ c) : d.declares s = false := by
  cases grounded with
  | root memc noParent =>
    rw [ancestors_of_root (concreteClasses_subset memc) noParent] at up
    exact absurd (List.mem_singleton.1 up) other
  | @child _ e memc link split grounded' =>
    rw [split] at up
    have above := (List.mem_cons.1 up).resolve_left other
    have fresh : p.ancestors e.name ⊆ Pool.without p.classes c.name := fun f mem => by
      refine Pool.mem_without.2 ⟨mem_of_mem_ancestors mem, fun eq => ?_⟩
      obtain rfl := eq_of_name_eq (mem_of_mem_ancestors mem) (concreteClasses_subset memc) eq
      exact grounded'.not_mem_ancestors split mem
    rw [topmostDeclarations, List.map_eq_nil_iff, Pool.topmost_eq_nil_iff,
      supertypeNames_of_parent link] at none
    exact none d (grounded'.ancestors_subset_met _ (Pool.without_subset _ _) fresh above)

/-- On the line of descent of a class there are two declarations of one virtual method, and neither
is found to override anything: the upper class has another method with the signature, a static or a
private one, in front of it. -/
def Repeats (p : Program) (c : ClassDef) : Prop :=
  ∃ d ∈ p.ancestors c.name, ∃ e ∈ p.ancestors d.name, e ≠ d ∧ ∃ s,
    (d.HasVirtual s ∧ p.topmostDeclarations d s = []) ∧
    (e.HasVirtual s ∧ p.topmostDeclarations e s = []) ∧ e.declares s = false

end Program

namespace DispatchTables

variable {p : Program} {t t' : DispatchTables} {c d : ClassDef} {m m' : MethodRef} {s : Slot}
  {md : MethodDef} {tables : String → List MethodRef} {starts starts' : String → Nat}
  {table table' : List MethodRef} {v v' : VirtualTable} {classes : List ClassDef} {n : Nat}
  {name : String}

/-- What the table of a class begins with: the table of its parent. -/
def inherited (p : Program) (t : DispatchTables) (name : String) : List MethodRef :=
  (((p.lookup? name).bind (·.parentName)).map t.tableOf).getD []

/-- What a class inherits is what it starts with when it is entered. -/
lemma inherited_eq (mem : c ∈ p.classes) :
    t.inherited p c.name = (c.parentName.map t.tableOf).getD [] := by
  rw [inherited, Program.lookup?_of_mem mem, Option.bind_some]

/-- A class without a parent inherits nothing. -/
lemma inherited_of_root (mem : c ∈ p.classes) (root : c.parentName = none) :
    t.inherited p c.name = [] := by
  rw [inherited_eq mem, root]
  rfl

/-- A class inherits the table of its parent. -/
lemma inherited_of_parent {parent : String} (mem : c ∈ p.classes)
    (link : c.parentName = some parent) : t.inherited p c.name = t.tableOf parent := by
  rw [inherited_eq mem, link]
  rfl

/-- A declaration stands at a slot: in the shared table, or in the table of a class from the place
on where its own part starts. -/
def StandsAt (tables : String → List MethodRef) (starts : String → Nat) (shared : List MethodRef)
    (m : MethodRef) : Slot → Prop
  | .ofClass owner n => starts owner ≤ n ∧ (tables owner)[n]? = some m
  | .ofInterface n => shared[n]? = some m

/-- Declarations own the slots they stand at. -/
def Exact (t : DispatchTables) (tables : String → List MethodRef) (starts : String → Nat) : Prop :=
  ∀ m s, t.slot? m = some s ↔ StandsAt tables starts t.interfaceTable m s

/-- The entries of a table to which one is added. -/
lemma getElem?_append_singleton :
    (table ++ [m'])[n]? = some m ↔ table[n]? = some m ∨ n = table.length ∧ m = m' := by
  rw [List.getElem?_append]
  split <;> grind

/-- A declaration without a slot gets one. -/
lemma slot?_append (none : t.slot? m' = none) {s' : Slot} :
    slot? { t with slots := t.slots ++ [(m', s')] } m = some s ↔
      t.slot? m = some s ∨ s = s' ∧ m = m' := by
  rw [slot?, List.lookup_append, ← slot?]
  by_cases eq : m = m'
  · subst eq
    rw [none, List.lookup_cons_self]
    simp [eq_comm]
  · rw [List.lookup_cons, beq_false_of_ne eq, List.lookup_nil, Option.or_none]
    simp [eq]

/-- The own parts of all tables may be told in another way. -/
lemma Exact.congr {tables' : String → List MethodRef} (exact : Exact t tables starts)
    (same : ∀ name n m, starts name ≤ n ∧ (tables name)[n]? = some m ↔
      starts' name ≤ n ∧ (tables' name)[n]? = some m) : Exact t tables' starts' := by
  intro m s
  rw [exact]
  cases s with
  | ofClass owner n => exact same owner n m
  | ofInterface n => exact Iff.rfl

/-- The slots stay exact when an interface declaration gets its own. -/
lemma Exact.addInterfaceSlot (exact : Exact t tables starts) :
    Exact (t.addInterfaceSlot m) tables starts := by
  rw [DispatchTables.addInterfaceSlot]
  split
  case isTrue => exact exact
  case isFalse new =>
    intro m' s
    have none : t.slot? m = none := by simpa using new
    refine (slot?_append none).trans ?_
    rw [exact]
    cases s with
    | ofClass owner n => simp [StandsAt]
    | ofInterface n =>
      refine Iff.trans ?_ (iff_of_eq (congrArg (·[n]? = some m') interfaceTable_push)).symm
      rw [StandsAt, getElem?_append_singleton, Slot.ofInterface.injEq]
      rfl

/-- The slots stay exact when some interface declarations get theirs. -/
lemma Exact.addInterfaceSlots (exact : Exact t tables starts) (ms : List MethodRef) :
    Exact (t.addInterfaceSlots p ms) tables starts :=
  List.foldlRecOn (motive := (Exact · tables starts)) _ _ exact
    fun _ exact _ _ => exact.addInterfaceSlot

/-- A declaration of a class gets the slot at the end of the class's table. -/
lemma Exact.addClassSlot {name : String}
    (exact : Exact t (Function.update tables name table) starts) (none : t.slot? m = none)
    (start : starts name ≤ table.length) :
    Exact { t with slots := t.slots ++ [(m, .ofClass name table.length)] }
      (Function.update tables name (table ++ [m])) starts := by
  intro m' s
  refine (slot?_append none).trans ?_
  rw [exact]
  cases s with
  | ofInterface n => simp [StandsAt, interfaceTable]
  | ofClass owner n =>
    rw [StandsAt, StandsAt, Slot.ofClass.injEq]
    by_cases eq : owner = name
    · subst eq
      rw [Function.update_self, Function.update_self, getElem?_append_singleton]
      constructor
      · rintro (⟨le, has⟩ | ⟨⟨_, rfl⟩, rfl⟩)
        · exact ⟨le, .inl has⟩
        · exact ⟨start, .inr ⟨rfl, rfl⟩⟩
      · rintro ⟨le, has | ⟨rfl, rfl⟩⟩
        · exact .inl ⟨le, has⟩
        · exact .inr ⟨⟨rfl, rfl⟩, rfl⟩
    · rw [Function.update_of_ne eq, Function.update_of_ne eq]
      simp [eq]

/-- Entering a method of a class keeps the slots exact, and the own part of the class's table starts
where it did. -/
lemma Exact.addClassMethod (exact : Exact t (Function.update tables c.name v.methods) starts)
    (start : starts c.name ≤ v.methods.length)
    (entered : addClassMethod p c (t, v) md = .ok (t', v')) :
    Exact t' (Function.update tables c.name v'.methods) starts ∧ t'.tables = t.tables ∧
      starts c.name ≤ v'.methods.length := by
  rw [DispatchTables.addClassMethod] at entered
  split at entered
  case isFalse =>
    cases entered
    exact ⟨exact.addInterfaceSlots _, tables_addInterfaceSlots _, start⟩
  case isTrue =>
    simp only at entered
    split at entered
    case isTrue => cases entered
    case isFalse new =>
      cases entered
      rw [VirtualTable.methods_push]
      refine ⟨exact.addClassSlot (by simpa using new) start, rfl, ?_⟩
      exact start.trans (List.prefix_append ..).length_le

/-- Entering some methods of a class keeps the slots exact. -/
lemma Exact.foldlM_addClassMethod {mds : List MethodDef}
    (exact : Exact t (Function.update tables c.name v.methods) starts)
    (start : starts c.name ≤ v.methods.length)
    (entered : mds.foldlM (DispatchTables.addClassMethod p c) (t, v) = .ok (t', v')) :
    Exact t' (Function.update tables c.name v'.methods) starts ∧ t'.tables = t.tables := by
  induction mds generalizing t v with
  | nil =>
    cases entered
    exact ⟨exact, rfl⟩
  | cons md mds ih =>
    rw [List.foldlM_cons] at entered
    obtain ⟨⟨t₁, v₁⟩, first, others⟩ := Except.exists_of_bind_eq_ok entered
    obtain ⟨exact₁, same₁, start₁⟩ := exact.addClassMethod start first
    obtain ⟨exact', same⟩ := ih exact₁ start₁ others
    exact ⟨exact', same.trans same₁⟩

/-- Entering a class without a table keeps the slots exact if its own part starts behind the table
of its parent. -/
lemma Exact.addClass (new : t.classTable? c.name = none) (exact : Exact t t.tableOf starts)
    (start : starts c.name = ((c.parentName.map t.tableOf).getD []).length)
    (entered : DispatchTables.addClass p t c = .ok t') : Exact t' t'.tableOf starts := by
  rw [DispatchTables.addClass] at entered
  obtain ⟨⟨t₁, own⟩, methods, result⟩ := Except.exists_of_bind_eq_ok entered
  cases result
  rw [← methods_inherited] at start
  -- the class has no own entries as yet, with or without the inherited ones
  have begun : Exact t (Function.update t.tableOf c.name
      (VirtualTable.methods ((c.parentName.bind t.table?).getD .empty))) starts := by
    refine exact.congr fun name n m => ?_
    by_cases eq : name = c.name
    · subst eq
      have none : t.tableOf c.name = [] := by rw [tableOf, new, Option.getD_none]
      rw [none, Function.update_self, start]
      refine iff_of_false (by simp) ?_
      rintro ⟨le, has⟩
      rw [List.getElem?_eq_none le] at has
      cases has
    · rw [Function.update_of_ne eq]
  obtain ⟨exact', kept⟩ := begun.foldlM_addClassMethod start.le methods
  have new' : t₁.classTable? c.name = none := (classTable?_congr kept _).trans new
  have same' : t₁.tableOf = t.tableOf := tableOf_congr kept
  rw [tableOf_append new', same']
  exact exact'

/-- The own parts of all tables start behind the tables of the parents. -/
def ExactSlots (p : Program) (t : DispatchTables) : Prop :=
  Exact t t.tableOf fun name => (t.inherited p name).length

/-- Entering the next class keeps the slots exact. -/
lemma ExactSlots.addClass (exact : ExactSlots p t) (entered : Entered p classes t)
    (within : classes ⊆ p.classes) (memc : c ∈ p.concreteClasses)
    (new : c.name ∉ classes.map (·.name))
    (parent : ∀ parent, c.parentName = some parent → ∃ d ∈ classes, d.name = parent)
    (result : DispatchTables.addClass p t c = .ok t') : ExactSlots p t' := by
  have mem := Program.concreteClasses_subset memc
  have none : t.classTable? c.name = none := entered.classTable?_eq_none new
  have start : (t.inherited p c.name).length = ((c.parentName.map t.tableOf).getD []).length := by
    rw [inherited_eq mem]
  obtain ⟨_, _, others, _⟩ := addClass_spec memc none entered.consistent result
  have entered' := entered.addClass memc new parent result
  -- what an entered class inherits has been entered before, and stays
  have stays : ∀ d ∈ classes ++ [c], t'.inherited p d.name = t.inherited p d.name := by
    intro d memd
    have declared : d ∈ p.classes := by
      rcases List.mem_append.1 memd with memd | memd
      · exact within memd
      · rwa [List.mem_singleton.1 memd]
    cases link : d.parentName with
    | none => rw [inherited_of_root declared link, inherited_of_root declared link]
    | some q =>
      have before : ∃ e ∈ classes, e.name = q := by
        rcases List.mem_append.1 memd with memd | memd
        · exact entered.parents d memd q link
        · exact parent q (List.mem_singleton.1 memd ▸ link)
      obtain ⟨e, meme, rfl⟩ := before
      rw [inherited_of_parent declared link, inherited_of_parent declared link]
      exact others _ fun eq => new (eq ▸ List.mem_map_of_mem meme)
  refine (Exact.addClass none exact start result).congr fun name n m => ?_
  by_cases known : name ∈ (classes ++ [c]).map (·.name)
  · obtain ⟨d, memd, rfl⟩ := List.mem_map.1 known
    rw [stays d memd]
  · have nothing : t'.tableOf name = [] := by
      rw [tableOf, entered'.classTable?_eq_none known, Option.getD_none]
    simp [nothing]

/-- Entering all classes in their order keeps the slots exact. -/
lemma ExactSlots.foldlM_addClass {before after : List ClassDef}
    (grounded : ∀ c ∈ p.concreteClasses, p.Grounded c) (split : classOrder p = before ++ after)
    (entered : Entered p before t) (exact : ExactSlots p t)
    (result : after.foldlM (DispatchTables.addClass p) t = .ok t') : ExactSlots p t' := by
  induction after generalizing before t with
  | nil =>
    cases result
    exact exact
  | cons c after ih =>
    rw [List.foldlM_cons] at result
    obtain ⟨t₁, first, others⟩ := Except.exists_of_bind_eq_ok result
    have split' : classOrder p = (before ++ [c]) ++ after := by rw [split]; simp
    obtain ⟨memc, new, parent⟩ := next_of_split grounded split
    have within : before ⊆ p.classes := fun d mem => by
      refine Program.concreteClasses_subset (mem_classOrder.1 ?_)
      rw [split]
      exact List.mem_append_left _ mem
    have entered' := entered.addClass memc new parent first
    exact ih split' entered' (exact.addClass entered within memc new parent first) others

/-- Entering an interface keeps the slots exact. -/
lemma Exact.addInterface (exact : Exact t tables starts) :
    Exact (t.addInterface p c) tables starts := by
  refine List.foldlRecOn (motive := (Exact · tables starts)) _ _ exact fun t exact md _ => ?_
  simp only
  split
  · exact exact.addInterfaceSlot
  · exact exact.addInterfaceSlots _

/-- Interfaces have no part in the tables of classes. -/
lemma tables_addInterface : (t.addInterface p c).tables = t.tables := by
  refine List.foldlRecOn (motive := fun t' : DispatchTables => t'.tables = t.tables)
    _ _ rfl fun t' same md _ => ?_
  simp only
  split
  · exact tables_addInterfaceSlot.trans same
  · exact (tables_addInterfaceSlots _).trans same

/-- Entering an interface keeps the slots exact. -/
lemma ExactSlots.addInterface (exact : ExactSlots p t) : ExactSlots p (t.addInterface p c) := by
  have same : (t.addInterface p c).tableOf = t.tableOf := tableOf_congr tables_addInterface
  have same' : (t.addInterface p c).inherited p = t.inherited p := by
    funext name
    rw [inherited, inherited, same]
  rw [ExactSlots, same, same']
  exact Exact.addInterface exact

/-- In the tables of a grounded program a declaration owns a slot just if it stands there. -/
lemma exact_ofProgram (grounded : ∀ c ∈ p.concreteClasses, p.Grounded c)
    (built : ofProgram p = .ok t) : ExactSlots p t := by
  obtain ⟨t₁, classes, result⟩ := Except.exists_of_bind_eq_ok built
  have nothing : ExactSlots p empty := by
    intro m s
    cases s with
    | ofClass owner n => simp [slot?, empty, StandsAt, tableOf, classTable?, table?]
    | ofInterface n =>
      simp [slot?, empty, StandsAt, interfaceTable, VirtualTable.methods, VirtualTable.empty]
  have exact := nothing.foldlM_addClass grounded rfl (Entered.empty p) classes
  cases result
  exact List.foldlRecOn (motive := ExactSlots p) _ _ exact fun _ exact _ _ => exact.addInterface

/-- A class's own declaration has a slot just if it is virtual and found to override nothing. -/
lemma hasSlot_class_iff (built : ofProgram p = .ok t) (memc : c ∈ p.concreteClasses)
    {s : Signature} :
    HasSlot ⟨c.name, s⟩ t ↔ c.HasVirtual s ∧ p.topmostDeclarations c s = [] := by
  rw [hasSlot_iff built]
  constructor
  · rintro ⟨d, memd, md, mem, gives⟩
    obtain ⟨memmd, virtual⟩ := List.mem_filter.1 mem
    rcases gives with ⟨_, i, memi, named⟩ | ⟨none, eq⟩
    · obtain ⟨memi, isInterface⟩ := List.mem_filter.1 memi
      exact absurd named.symm (Program.name_ne_of_isInterface memc memi isInterface)
    · obtain ⟨named, rfl⟩ := MethodRef.mk.inj eq
      obtain rfl := Program.eq_of_name_eq (Program.concreteClasses_subset memc) memd named
      exact ⟨⟨md, memmd, virtual, rfl⟩, none⟩
  · rintro ⟨⟨md, memmd, virtual, rfl⟩, none⟩
    exact ⟨c, Program.concreteClasses_subset memc, md, List.mem_filter.2 ⟨memmd, virtual⟩,
      .inr ⟨none, rfl⟩⟩

section Tables

variable (grounded : ∀ c ∈ p.concreteClasses, p.Grounded c) (built : ofProgram p = .ok t)

include grounded built

/-- A declaration owns a slot just if it stands there, in the shared table or in what the table of
its class has behind the inherited entries. -/
lemma slot?_iff : t.slot? m = some s ↔
    StandsAt t.tableOf (fun name => (t.inherited p name).length) t.interfaceTable m s :=
  exact_ofProgram grounded built m s

/-- The owner of a slot in the table of a class is declared by the class. -/
lemma owner_eq (owned : t.slot? m = some (.ofClass name n)) : name = m.className :=
  ((ofProgram_spec grounded built).1 m _ (mem_slots_of_slot? owned)).1

/-- The slot of a class's declaration is in the table of the class. -/
lemma exists_slot_of_class (memc : c ∈ p.concreteClasses) (named : m.className = c.name)
    (owned : HasSlot m t) : ∃ n, t.slot? m = some (.ofClass c.name n) := by
  obtain ⟨s, found⟩ := Option.isSome_iff_exists.1 owned
  have owns := (ofProgram_spec grounded built).1 m s (mem_slots_of_slot? found)
  cases s with
  | ofClass owner n =>
    obtain rfl : owner = c.name := owns.1.trans named
    exact ⟨n, found⟩
  | ofInterface n =>
    obtain ⟨i, memi, eq⟩ := owns.2
    obtain ⟨memi, isInterface⟩ := List.mem_filter.1 memi
    exact absurd (named.symm.trans eq.symm) (Program.name_ne_of_isInterface memc memi isInterface)

/-- The entries of a class's table are the inherited ones and then, each once, the declarations of
the class that own slots. -/
lemma tableOf_eq_append (memc : c ∈ p.concreteClasses) :
    ∃ own, t.tableOf c.name = t.inherited p c.name ++ own ∧ own.Nodup ∧
      (∀ m, m ∈ own ↔ HasSlot m t ∧ m.className = c.name) ∧
      ∀ m n, own[n]? = some m →
        t.slot? m = some (.ofClass c.name ((t.inherited p c.name).length + n)) := by
  have mem := Program.concreteClasses_subset memc
  have begins : t.inherited p c.name <+: t.tableOf c.name := by
    cases link : c.parentName with
    | none =>
      rw [inherited_of_root mem link]
      exact List.nil_prefix
    | some parent =>
      rw [inherited_of_parent mem link]
      exact (ofProgram_spec grounded built).2 c memc parent link
  obtain ⟨own, split⟩ := begins
  -- behind the inherited slots a method stands at its own slot
  have entry : ∀ m n, own[n]? = some m ↔
      t.slot? m = some (.ofClass c.name ((t.inherited p c.name).length + n)) := by
    intro m n
    rw [slot?_iff grounded built, StandsAt, ← split, List.getElem?_append_right (by omega),
      Nat.add_sub_cancel_left, and_iff_right (by omega)]
  refine ⟨own, split.symm, ?distinct, ?members, fun m n => (entry m n).1⟩
  case distinct =>
    rw [List.nodup_iff_injective_get]
    intro i j eq
    have owned := (entry (own.get i) i).1 (List.getElem?_eq_getElem i.2)
    have owned' := (entry (own.get j) j).1 (List.getElem?_eq_getElem j.2)
    rw [eq, owned', Option.some.injEq, Slot.ofClass.injEq] at owned
    exact Fin.ext (by omega)
  case members =>
    intro m
    constructor
    · intro within
      obtain ⟨n, has⟩ := List.mem_iff_getElem?.1 within
      have owned := (entry m n).1 has
      exact ⟨Option.isSome_iff_exists.2 ⟨_, owned⟩, (owner_eq grounded built owned).symm⟩
    · rintro ⟨owned, named⟩
      obtain ⟨n, found⟩ := exists_slot_of_class grounded built memc named owned
      have stands := (slot?_iff grounded built).1 found
      obtain ⟨k, rfl⟩ := Nat.exists_eq_add_of_le stands.1
      exact List.mem_of_getElem? ((entry m k).2 found)

/-- The table of a class lists, each once, the declarations of its ancestors that own slots, each at
its slot. -/
lemma tableOf_spec (memc : c ∈ p.concreteClasses) :
    (t.tableOf c.name).Nodup ∧
      (∀ m, m ∈ t.tableOf c.name ↔
        HasSlot m t ∧ ∃ d ∈ p.ancestors c.name, d.name = m.className) ∧
      ∀ m n, (t.tableOf c.name)[n]? = some m → t.slot? m = some (.ofClass m.className n) := by
  induction grounded c memc with
  | @root c memc noParent =>
    have mem := Program.concreteClasses_subset memc
    obtain ⟨own, split, nodup, members, slots⟩ := tableOf_eq_append grounded built memc
    rw [inherited_of_root mem noParent] at split slots
    rw [split, List.nil_append, Program.ancestors_of_root mem noParent]
    refine ⟨nodup, fun m => ?_, fun m n has => ?_⟩
    · rw [members]
      simp [eq_comm]
    · have owned := slots m n has
      rw [List.length_nil, Nat.zero_add] at owned
      rwa [← owner_eq grounded built owned]
  | @child c d memc link up grounded' ih =>
    have mem := Program.concreteClasses_subset memc
    obtain ⟨own, split, nodup, members, slots⟩ := tableOf_eq_append grounded built memc
    obtain ⟨nodup', members', slots'⟩ := ih grounded'.mem_concreteClasses
    rw [inherited_of_parent mem link] at split slots
    rw [split, up]
    refine ⟨?distinct, fun m => ?members, fun m n has => ?numbers⟩
    case distinct =>
      -- an inherited method is owned above, and no class stands above itself
      refine List.nodup_append.2 ⟨nodup', nodup, ?_⟩
      rintro m inherits _ owns rfl
      obtain ⟨_, e, above, named⟩ := (members' m).1 inherits
      obtain rfl := Program.eq_of_name_eq (Program.mem_of_mem_ancestors above) mem
        (named.trans ((members m).1 owns).2)
      exact grounded'.not_mem_ancestors up above
    case members =>
      rw [List.mem_append, members', members, List.exists_mem_cons_iff, eq_comm (a := c.name),
        ← and_or_left, or_comm]
    case numbers =>
      rcases Nat.lt_or_ge n (t.tableOf d.name).length with less | le
      · rw [List.getElem?_append_left less] at has
        exact slots' m n has
      · rw [List.getElem?_append_right le] at has
        have owned := slots m _ has
        rw [Nat.add_sub_cancel' le] at owned
        rwa [← owner_eq grounded built owned]

/-- The entries of a class's table have distinct signatures unless its line of descent repeats
one. -/
lemma nodup_signatures_iff (memc : c ∈ p.concreteClasses) :
    ((t.tableOf c.name).map (·.signature)).Nodup ↔ ¬p.Repeats c := by
  obtain ⟨nodup, members, _⟩ := tableOf_spec grounded built memc
  have ground : ∀ d ∈ p.ancestors c.name, p.Grounded d := fun d =>
    (grounded c memc).of_mem_ancestors
  have owns : ∀ d ∈ p.ancestors c.name, ∀ s, HasSlot ⟨d.name, s⟩ t ↔
      d.HasVirtual s ∧ p.topmostDeclarations d s = [] := fun d up s =>
    hasSlot_class_iff built (ground d up).mem_concreteClasses
  rw [List.nodup_map_iff_inj_on nodup]
  constructor
  · rintro distinct ⟨d, up, e, up', other, s, owned, owned', _⟩
    have up' := Program.ancestors_trans up up'
    have eq := distinct ⟨d.name, s⟩ ((members _).2 ⟨(owns d up s).2 owned, d, up, rfl⟩)
      ⟨e.name, s⟩ ((members _).2 ⟨(owns e up' s).2 owned', e, up', rfl⟩) rfl
    exact other (Program.eq_of_name_eq (Program.mem_of_mem_ancestors up')
      (Program.mem_of_mem_ancestors up) (MethodRef.mk.inj eq).1.symm)
  · intro none
    -- of two classes on one line of descent, one is above the other
    have apart : ∀ d ∈ p.ancestors c.name, ∀ e ∈ p.ancestors d.name, ∀ s,
        HasSlot ⟨d.name, s⟩ t → HasSlot ⟨e.name, s⟩ t → d = e := by
      intro d up e up' s owned owned'
      by_contra ne
      have owned := (owns d up s).1 owned
      have owned' := (owns e (Program.ancestors_trans up up') s).1 owned'
      have hidden := (ground d up).declares_eq_false owned.2 up' (Ne.symm ne)
      exact none ⟨d, up, e, up', Ne.symm ne, s, owned, owned', hidden⟩
    rintro ⟨_, s⟩ mem ⟨_, s'⟩ mem' (rfl : s = s')
    obtain ⟨owned, d, up, rfl⟩ := (members _).1 mem
    obtain ⟨owned', e, up', rfl⟩ := (members _).1 mem'
    rcases List.suffix_or_suffix_of_suffix ((grounded c memc).ancestors_suffix up)
      ((grounded c memc).ancestors_suffix up') with below | below
    · have above := below.subset (Program.mem_ancestors_self (Program.mem_of_mem_ancestors up))
      rw [apart e up' d above s owned' owned]
    · have above := below.subset (Program.mem_ancestors_self (Program.mem_of_mem_ancestors up'))
      rw [apart d up e above s owned owned']

end Tables

/-- The number of an entry, which is stored with it, is the slot of the declaration it lists, in all
tables that have it. The table of a class begins with that of its parent. A declaration owns a slot
of a class just if the own part of the table of its class lists it there, and one of an interface
just if the shared table does. By the conventions, a call through any virtual method has a slot. The
entries of a table have distinct signatures just if the line of descent of its class does not repeat
a virtual method without seeing it. -/
theorem slot_numbers_iff {tags : TagMap} (tagged : TagMap.ofProgram p = .ok tags)
    (built : ofProgram p = .ok t) :
    (∀ c ∈ p.concreteClasses, ∀ n m, (t.tableOf c.name)[n]? = some m →
      t.slot? m = some (.ofClass m.className n)) ∧
    (∀ c ∈ p.concreteClasses, ∀ v, t.table? c.name = some v → ∀ e ∈ v.entries,
      t.slot? e.method = some (.ofClass e.method.className e.slot)) ∧
    (∀ e ∈ t.shared.entries, t.slot? e.method = some (.ofInterface e.slot)) ∧
    (∀ c ∈ p.concreteClasses, t.inherited p c.name <+: t.tableOf c.name) ∧
    (∀ m owner n, t.slot? m = some (.ofClass owner n) ↔
      m.className = owner ∧ (t.inherited p owner).length ≤ n ∧ (t.tableOf owner)[n]? = some m) ∧
    (∀ m n, t.slot? m = some (.ofInterface n) ↔ t.interfaceTable[n]? = some m) ∧
    (p.ListsInterfaces → p.InterfacesAreRoots → ∀ k ∈ p.classes, ∀ s, k.HasVirtual s →
      ∃ slot, t.resolve? p ⟨k.name, s⟩ = some slot) ∧
    ∀ c ∈ p.concreteClasses,
      ((t.tableOf c.name).map (·.signature)).Nodup ↔ ¬p.Repeats c := by
  have grounded : ∀ c ∈ p.concreteClasses, p.Grounded c := fun c =>
    TagMap.grounded_of_ofProgram tagged
  refine ⟨?numbers, ?stored, ?stored', ?inherits, ?classes, ?interfaces, ?resolves, ?distinct⟩
  case numbers => exact fun c memc n m => (tableOf_spec grounded built memc).2.2 m n
  case stored =>
    intro c memc v found e mem
    refine (tableOf_spec grounded built memc).2.2 _ _ ?_
    rw [tableOf, classTable?, found]
    exact VirtualTable.getElem?_slot mem
  case stored' =>
    exact fun e mem => (slot?_iff grounded built).2 (VirtualTable.getElem?_slot mem)
  case inherits =>
    intro c memc
    obtain ⟨own, split, _⟩ := tableOf_eq_append grounded built memc
    exact ⟨own, split.symm⟩
  case classes =>
    intro m owner n
    constructor
    · intro owned
      obtain rfl := owner_eq grounded built owned
      exact ⟨rfl, (slot?_iff grounded built).1 owned⟩
    · rintro ⟨rfl, stands⟩
      exact (slot?_iff grounded built).2 stands
  case interfaces => exact fun m n => slot?_iff grounded built
  case resolves =>
    intro lists roots k mem s virtual
    rw [exists_resolve?_iff, exists_slot_iff built lists roots grounded]
    exact ⟨k, List.mem_append_left _ (Program.mem_ancestors_self mem), virtual⟩
  case distinct => exact fun c => nodup_signatures_iff grounded built

/-- A class below another one that draws. -/
def disc : ClassDef :=
  { ClassDef.empty "Disc" with parent := some "Figure", methods := [draw] }

/-- A program with it, and with some methods of the upper class. -/
def sketch (methods : List MethodDef) : Program :=
  { classes := [{ ClassDef.empty "Figure" with methods }, disc]
    entryPoint := none
    nodup := (by decide : ["Figure", "Disc"].Nodup) }

/-- A static method with the signature of the virtual one behind it. -/
def hidden : List MethodDef := [{ draw with isStatic := true }, draw]

/-- The lower class has the slot of the method that it overrides, and no other. -/
theorem disc_shares_slot : ∃ tags t,
    TagMap.ofProgram (sketch [draw]) = .ok tags ∧ ofProgram (sketch [draw]) = .ok t ∧
      t.tableOf "Disc" = [⟨"Figure", draw.signature⟩] ∧
      t.slot? ⟨"Figure", draw.signature⟩ = some (.ofClass "Figure" 0) ∧
      ¬(sketch [draw]).Repeats disc := by
  have computed : ((TagMap.ofProgram (sketch [draw])).toOption.bind fun _ =>
      (ofProgram (sketch [draw])).toOption.map (tableOf · "Disc")) =
        some [⟨"Figure", draw.signature⟩] := by
    rw [DispatchTables.ofProgram, Program.sortedClasses_eq_insertionSort]
    cbv
  obtain ⟨tags, t, tagged, built, table⟩ := Except.exists_of_toOption_bind_map computed
  obtain ⟨numbers, _, _, _, _, _, _, distinct⟩ := slot_numbers_iff tagged built
  have memc : disc ∈ (sketch [draw]).concreteClasses := by decide
  refine ⟨tags, t, tagged, built, table, numbers disc memc 0 _ ?_, (distinct disc memc).1 ?_⟩
  · exact (congrArg (·[0]?) table).trans rfl
  · rw [show t.tableOf disc.name = _ from table]
    exact List.nodup_singleton _

/-- Behind a static method with the same signature the upper method is not seen, and the lower class
has a slot of its own besides the one that it inherits. -/
theorem disc_repeats_slot : ∃ tags t,
    TagMap.ofProgram (sketch hidden) = .ok tags ∧ ofProgram (sketch hidden) = .ok t ∧
      t.tableOf "Disc" = [⟨"Figure", draw.signature⟩, ⟨"Disc", draw.signature⟩] := by
  have computed : ((TagMap.ofProgram (sketch hidden)).toOption.bind fun _ =>
      (ofProgram (sketch hidden)).toOption.map (tableOf · "Disc")) =
        some [⟨"Figure", draw.signature⟩, ⟨"Disc", draw.signature⟩] := by
    rw [DispatchTables.ofProgram, Program.sortedClasses_eq_insertionSort]
    cbv
  exact Except.exists_of_toOption_bind_map computed

end DispatchTables

end ObjectBackend
