import Mathlib.Data.List.Infix
import Mathlib.Logic.Function.Basic
import ObjectBackend.Objects.Dispatch
import ObjectBackend.Proofs.Hierarchy.Grounded
import ObjectBackend.Proofs.Hierarchy.Interfaces
import ObjectBackend.Proofs.Success

/-!
# Dispatch tables

What is true of the tables that `DispatchTables.ofProgram` builds. Every slot that a declaration
owns is where the table of its class, or the shared table, has the declaration (`Consistent`), and
the table of a class begins with that of its parent. Both are kept by each entry of a method, hence
by the two loops over all classes. The second one needs that parents are entered before their
children, which they are since their lines of descent are shorter.

Under the conventions of front ends a slot found through a supertype of a class is then a slot of
the class itself (`classSlot_of_resolve?`, `interfaceSlot_of_resolve?`).
-/

namespace ObjectBackend

namespace DispatchTables

variable {p : Program} {t t' : DispatchTables} {c d : ClassDef} {m : MethodRef}
variable {tables : String → List MethodRef} {table table' : List MethodRef} {v v' : VirtualTable}

/-- The table of a class; a class without one has an empty one. -/
def tableOf (t : DispatchTables) (name : String) : List MethodRef := (t.classTable? name).getD []

/-- The table of a class is looked up among those stored. -/
lemma classTable?_congr (same : t'.tables = t.tables) (name : String) :
    t'.classTable? name = t.classTable? name := by
  rw [classTable?, classTable?, table?, table?, same]

/-- The same tables are those of the same classes. -/
lemma tableOf_congr (same : t'.tables = t.tables) : t'.tableOf = t.tableOf := by
  funext name
  rw [tableOf, tableOf, classTable?_congr same]

/-- A class without a table has no declarations in one. -/
lemma classTable?_eq_none {name : String} : t.classTable? name = none ↔ t.table? name = none :=
  Option.map_eq_none_iff

/-- What a class inherits are the declarations of its parent's table. -/
lemma methods_inherited (link : Option String) :
    VirtualTable.methods ((link.bind t.table?).getD .empty) = (link.map t.tableOf).getD [] := by
  cases link with
  | none => rfl
  | some parent =>
    rw [Option.bind_some, Option.map_some, Option.getD_some, tableOf, classTable?]
    cases t.table? parent <;> rfl

/-- After a class has been entered, its table is what its methods made of the inherited one. -/
lemma tableOf_append (new : t.classTable? c.name = none) :
    tableOf { t with tables := t.tables ++ [(c.name, v)] } =
      Function.update t.tableOf c.name v.methods := by
  funext name
  rw [tableOf, classTable?, table?, List.lookup_append]
  by_cases eq : name = c.name
  · rw [eq, Function.update_self, ← table?, classTable?_eq_none.1 new, List.lookup_cons_self]
    rfl
  · rw [Function.update_of_ne eq, List.lookup_cons, beq_false_of_ne eq, List.lookup_nil,
      Option.or_none]
    rfl

/-- A slot is where the tables have the declaration that owns it, that of an interface in the shared
table and any other in the table of its class. -/
def Owns (p : Program) (tables : String → List MethodRef) (shared : List MethodRef)
    (m : MethodRef) : Slot → Prop
  | .ofClass owner n =>
    owner = m.className ∧ (tables owner)[n]? = some m ∧ ∃ c ∈ p.concreteClasses, c.name = owner
  | .ofInterface n => shared[n]? = some m ∧ ∃ c ∈ p.interfaces, c.name = m.className

/-- All slots are where the tables have the declarations that own them. -/
def Consistent (p : Program) (t : DispatchTables) (tables : String → List MethodRef) : Prop :=
  ∀ m s, (m, s) ∈ t.slots → Owns p tables t.interfaceTable m s

/-- A declaration that is added is the last one. -/
lemma getElem?_append_self : (table ++ [m])[table.length]? = some m := by simp

/-- Declarations keep their places when a table grows. -/
lemma getElem?_of_isPrefix {n : Nat} (grows : table <+: table') (has : table[n]? = some m) :
    table'[n]? = some m := by
  obtain ⟨rest, rfl⟩ := grows
  rw [List.getElem?_append_left (List.getElem?_eq_some_iff.1 has).1, has]

/-- The tables of classes grow if the table of one does. -/
lemma update_isPrefix (tables : String → List MethodRef) (owner : String)
    (grows : table <+: table') (name : String) :
    Function.update tables owner table name <+: Function.update tables owner table' name := by
  by_cases eq : name = owner
  · rw [eq, Function.update_self, Function.update_self]
    exact grows
  · rw [Function.update_of_ne eq, Function.update_of_ne eq]

/-- A slot that is found is one of those given out. -/
lemma mem_slots_of_slot? {s : Slot} (found : t.slot? m = some s) : (m, s) ∈ t.slots := by
  obtain ⟨front, back, eq, _⟩ := List.lookup_eq_some_iff.1 found
  rw [eq]
  exact List.mem_append_right _ (List.mem_cons_self ..)

/-- A slot stays where it is when the tables grow. -/
lemma Owns.mono {tables' : String → List MethodRef} {shared shared' : List MethodRef} {s : Slot}
    (owns : Owns p tables shared m s) (grows : ∀ name, tables name <+: tables' name)
    (grows' : shared <+: shared') : Owns p tables' shared' m s := by
  cases s with
  | ofClass owner n =>
    obtain ⟨rfl, has, owner⟩ := owns
    exact ⟨rfl, getElem?_of_isPrefix (grows _) has, owner⟩
  | ofInterface n => exact ⟨getElem?_of_isPrefix grows' owns.1, owns.2⟩

/-- Slots stay consistent when the tables grow and a declaration gets a slot in them. -/
lemma Consistent.push {tables' : String → List MethodRef} {s : Slot}
    (consistent : Consistent p t tables) (slots : t'.slots = t.slots ++ [(m, s)])
    (grows : ∀ name, tables name <+: tables' name)
    (grows' : t.interfaceTable <+: t'.interfaceTable)
    (owns : Owns p tables' t'.interfaceTable m s) : Consistent p t' tables' := by
  intro m' s' mem
  rw [slots] at mem
  rcases List.mem_append.1 mem with mem | mem
  · exact (consistent m' s' mem).mono grows grows'
  · cases List.mem_singleton.1 mem
    exact owns

/-- The declaration of an interface that gets a slot is the last one of the shared table. -/
lemma interfaceTable_push {slots : List (MethodRef × Slot)} :
    interfaceTable { t with shared := (t.shared.push m).2, slots } = t.interfaceTable ++ [m] :=
  VirtualTable.methods_push ..

/-- Slots stay consistent when an interface declaration gets its own. -/
lemma Consistent.addInterfaceSlot (consistent : Consistent p t tables)
    (declared : ∃ c ∈ p.interfaces, c.name = m.className) :
    Consistent p (t.addInterfaceSlot m) tables := by
  rw [DispatchTables.addInterfaceSlot]
  split
  case isTrue => exact consistent
  case isFalse =>
    refine consistent.push rfl (fun _ => List.prefix_rfl) ?_ ⟨?_, declared⟩
    · exact ⟨_, interfaceTable_push.symm⟩
    · exact (congrArg (·[t.interfaceTable.length]?) interfaceTable_push).trans
        getElem?_append_self

/-- The slot of an interface is no part of the tables of classes. -/
lemma tables_addInterfaceSlot : (t.addInterfaceSlot m).tables = t.tables := by
  rw [addInterfaceSlot]
  split <;> rfl

/-- Slots stay consistent when some declarations get interface slots. -/
lemma Consistent.foldl_addInterfaceSlot {ms : List MethodRef} (consistent : Consistent p t tables)
    (declared : ∀ m ∈ ms, ∃ c ∈ p.interfaces, c.name = m.className) :
    Consistent p (ms.foldl DispatchTables.addInterfaceSlot t) tables := by
  induction ms generalizing t with
  | nil => exact consistent
  | cons m ms ih =>
    refine ih (consistent.addInterfaceSlot (declared m (List.mem_cons_self ..))) ?_
    exact fun m' mem => declared m' (List.mem_cons_of_mem _ mem)

/-- Slots stay consistent when those of some declarations that stand in interfaces get theirs. -/
lemma Consistent.addInterfaceSlots (consistent : Consistent p t tables) (ms : List MethodRef) :
    Consistent p (t.addInterfaceSlots p ms) tables := by
  refine consistent.foldl_addInterfaceSlot fun m mem => ?_
  obtain ⟨c, found, isInterface⟩ := (Option.any_eq_true ..).1 (List.mem_filter.1 mem).2
  obtain ⟨declared, named⟩ := Program.lookup?_eq_some_iff.1 found
  exact ⟨c, List.mem_filter.2 ⟨declared, isInterface⟩, named⟩

/-- Interface slots are no part of the tables of classes. -/
lemma tables_addInterfaceSlots (ms : List MethodRef) :
    (t.addInterfaceSlots p ms).tables = t.tables := by
  rw [addInterfaceSlots]
  induction ms.filter _ generalizing t with
  | nil => rfl
  | cons m ms ih => exact ih.trans tables_addInterfaceSlot

/-- Slots stay consistent when a declaration of a class gets one at the end of the class's table. -/
lemma Consistent.addClassSlot (md : MethodDef) (memc : c ∈ p.concreteClasses)
    (consistent : Consistent p t (Function.update tables c.name table)) :
    Consistent p
      { t with slots := t.slots ++ [(c.reference md, .ofClass c.name table.length)] }
      (Function.update tables c.name (table ++ [c.reference md])) := by
  have grows := update_isPrefix tables c.name (List.prefix_append table [c.reference md])
  refine consistent.push rfl grows List.prefix_rfl ⟨rfl, ?_, c, memc, rfl⟩
  rw [Function.update_self]
  exact getElem?_append_self

/-- Entering a method of a class keeps the slots consistent and makes the table of the class, and no
other, grow. -/
lemma Consistent.addClassMethod {md : MethodDef} (memc : c ∈ p.concreteClasses)
    (consistent : Consistent p t (Function.update tables c.name v.methods))
    (entered : addClassMethod p c (t, v) md = .ok (t', v')) :
    Consistent p t' (Function.update tables c.name v'.methods) ∧ t'.tables = t.tables ∧
      v.methods <+: v'.methods := by
  rw [DispatchTables.addClassMethod] at entered
  split at entered
  case isFalse =>
    cases entered
    exact ⟨consistent.addInterfaceSlots _, tables_addInterfaceSlots _, List.prefix_rfl⟩
  case isTrue =>
    simp only at entered
    split at entered
    case isTrue => cases entered
    case isFalse =>
      cases entered
      rw [VirtualTable.methods_push]
      exact ⟨consistent.addClassSlot md memc, rfl, List.prefix_append ..⟩

/-- Entering some methods of a class keeps the slots consistent and makes the table of the class,
and no other, grow. -/
lemma Consistent.foldlM_addClassMethod {mds : List MethodDef} (memc : c ∈ p.concreteClasses)
    (consistent : Consistent p t (Function.update tables c.name v.methods))
    (entered : mds.foldlM (DispatchTables.addClassMethod p c) (t, v) = .ok (t', v')) :
    Consistent p t' (Function.update tables c.name v'.methods) ∧ t'.tables = t.tables ∧
      v.methods <+: v'.methods := by
  induction mds generalizing t v with
  | nil =>
    cases entered
    exact ⟨consistent, rfl, List.prefix_rfl⟩
  | cons md mds ih =>
    rw [List.foldlM_cons] at entered
    obtain ⟨⟨t₁, v₁⟩, first, others⟩ := Except.exists_of_bind_eq_ok entered
    obtain ⟨consistent₁, same₁, grows₁⟩ := consistent.addClassMethod memc first
    obtain ⟨consistent', same, grows⟩ := ih consistent₁ others
    exact ⟨consistent', same.trans same₁, grows₁.trans grows⟩

/-- Entering a class without a table gives it one, which begins with that of its parent, and changes
no other. -/
lemma addClass_spec (memc : c ∈ p.concreteClasses) (new : t.classTable? c.name = none)
    (consistent : Consistent p t t.tableOf) (entered : addClass p t c = .ok t') :
    Consistent p t' t'.tableOf ∧ t'.tables.map (·.1) = t.tables.map (·.1) ++ [c.name] ∧
      (∀ name ≠ c.name, t'.tableOf name = t.tableOf name) ∧
      (∀ parent, c.parentName = some parent → t.tableOf parent <+: t'.tableOf c.name) := by
  rw [addClass] at entered
  obtain ⟨⟨t₁, own⟩, methods, result⟩ := Except.exists_of_bind_eq_ok entered
  cases result
  -- no slot is owned by the class as yet, so its table may begin in any way
  have start : ∀ name, t.tableOf name <+: Function.update t.tableOf c.name
      (VirtualTable.methods ((c.parentName.bind t.table?).getD .empty)) name := by
    intro name
    by_cases eq : name = c.name
    · rw [eq, tableOf, new]
      exact List.nil_prefix
    · rw [Function.update_of_ne eq]
  have begun : Consistent p t (Function.update t.tableOf c.name _) :=
    fun m s mem => (consistent m s mem).mono start List.prefix_rfl
  obtain ⟨consistent', same, grows⟩ := begun.foldlM_addClassMethod memc methods
  rw [methods_inherited] at grows
  have new' : t₁.classTable? c.name = none := (classTable?_congr same _).trans new
  have entry : tableOf { t₁ with tables := t₁.tables ++ [(c.name, own)] } =
      Function.update t.tableOf c.name own.methods := by
    rw [tableOf_append new', tableOf_congr same]
  refine ⟨?_, ?_, ?_, ?_⟩
  · rw [entry]
    exact consistent'
  · rw [same, List.map_append]
    rfl
  · intro name ne
    rw [entry, Function.update_of_ne ne]
  · intro parent link
    rw [entry, Function.update_self]
    rw [link] at grows
    exact grows

/-- Whether a class is entered before another one: by the lengths of their lines of descent and
then by name. -/
def precedes (p : Program) (a b : ClassDef) : Bool :=
  decide ((p.ancestors a.name).length < (p.ancestors b.name).length) ||
    ((p.ancestors a.name).length == (p.ancestors b.name).length && decide (a.name ≤ b.name))

/-- The order of the classes is that of their concrete ones, sorted. -/
lemma classOrder_eq (p : Program) : classOrder p = p.concreteClasses.mergeSort (precedes p) := rfl

/-- The order of the classes is transitive. -/
lemma precedes_trans (p : Program) (a b c : ClassDef) (ab : precedes p a b = true)
    (bc : precedes p b c = true) : precedes p a c = true := by
  simp only [precedes, Bool.or_eq_true, Bool.and_eq_true, decide_eq_true_eq, beq_iff_eq] at *
  rcases ab with ab | ⟨ab, names⟩
  · exact .inl (by omega)
  · rcases bc with bc | ⟨bc, names'⟩
    · exact .inl (by omega)
    · exact .inr ⟨ab.trans bc, String.le_trans names names'⟩

/-- The order of the classes is total. -/
lemma precedes_total (p : Program) (a b : ClassDef) :
    (precedes p a b || precedes p b a) = true := by
  simp only [precedes, Bool.or_eq_true, Bool.and_eq_true, decide_eq_true_eq, beq_iff_eq]
  rcases Nat.lt_trichotomy (p.ancestors a.name).length (p.ancestors b.name).length with
    less | eq | greater
  · exact .inl (.inl less)
  · exact (String.le_total a.name b.name).imp (fun le => .inr ⟨eq, le⟩)
      fun le => .inr ⟨eq.symm, le⟩
  · exact .inr (.inl greater)

/-- The classes are ordered by the lengths of their lines of descent. -/
lemma classOrder_sorted (p : Program) :
    (classOrder p).Pairwise fun a b =>
      (p.ancestors a.name).length ≤ (p.ancestors b.name).length := by
  rw [classOrder_eq]
  refine (List.pairwise_mergeSort (precedes_trans p) (precedes_total p) _).imp ?_
  intro a b ab
  simp only [precedes, Bool.or_eq_true, Bool.and_eq_true, decide_eq_true_eq, beq_iff_eq] at ab
  omega

/-- The classes in order are the concrete ones. -/
lemma mem_classOrder : c ∈ classOrder p ↔ c ∈ p.concreteClasses := List.mem_mergeSort

/-- A program without virtual methods has tables. -/
lemma exists_ofProgram (none : ∀ c ∈ p.classes, c.methods.filter (·.isVirtual) = []) :
    ∃ t, ofProgram p = .ok t := by
  have folds : ∀ (cs : List ClassDef) (t : DispatchTables),
      (∀ c ∈ cs, c.methods.filter (·.isVirtual) = []) →
      ∃ t', cs.foldlM (addClass p) t = .ok t' := by
    intro cs
    induction cs with
    | nil => exact fun t _ => ⟨t, rfl⟩
    | cons c cs ih =>
      intro t none
      rw [List.foldlM_cons, addClass, none c (List.mem_cons_self ..)]
      exact ih _ fun c mem => none c (List.mem_cons_of_mem _ mem)
  obtain ⟨t, folded⟩ := folds (classOrder p) empty fun c mem =>
    none c (Program.concreteClasses_subset (mem_classOrder.1 mem))
  rw [ofProgram, folded]
  exact ⟨_, rfl⟩

/-- No two of the classes in order share a name. -/
lemma classOrder_nodup (p : Program) : ((classOrder p).map (·.name)).Nodup := by
  refine ((List.mergeSort_perm ..).map _).nodup_iff.2 ?_
  exact p.nodup.sublist (List.filter_sublist.map _)

/-- The parent of a grounded class comes before it. -/
lemma parent_before {before after : List ClassDef} {parent : String}
    (grounded : ∀ c ∈ p.concreteClasses, p.Grounded c)
    (split : classOrder p = before ++ c :: after) (link : c.parentName = some parent) :
    ∃ d ∈ before, d.name = parent := by
  have mem : c ∈ classOrder p := by rw [split]; simp
  cases grounded c (mem_classOrder.1 mem) with
  | root _ noParent => rw [noParent] at link; cases link
  | @child _ d _ link' up grounded' =>
    refine ⟨d, ?_, Option.some.inj (link'.symm.trans link)⟩
    have shorter : (p.ancestors d.name).length < (p.ancestors c.name).length := by
      rw [up]
      exact Nat.lt_succ_self _
    have memd := mem_classOrder.2 grounded'.mem_concreteClasses
    have sorted := classOrder_sorted p
    rw [split, List.mem_append] at memd
    rcases memd with memd | memd
    · exact memd
    · rw [split, List.pairwise_append] at sorted
      -- what is not before the class has no shorter line of descent
      cases memd with
      | head => exact absurd shorter (lt_irrefl _)
      | tail _ memd =>
        exact absurd ((List.pairwise_cons.1 sorted.2.1).1 d memd) (Nat.not_le_of_lt shorter)

/-- What comes next in the order of classes has another name than what comes before, and its parent
is there. -/
lemma next_of_split {before after : List ClassDef}
    (grounded : ∀ c ∈ p.concreteClasses, p.Grounded c)
    (split : classOrder p = before ++ c :: after) :
    c ∈ p.concreteClasses ∧ c.name ∉ before.map (·.name) ∧
      ∀ parent, c.parentName = some parent → ∃ d ∈ before, d.name = parent := by
  have mem : c ∈ classOrder p := by rw [split]; simp
  refine ⟨mem_classOrder.1 mem, ?_, fun parent link => parent_before grounded split link⟩
  have nodup := classOrder_nodup p
  rw [split, List.map_append, List.map_cons] at nodup
  exact fun mem => (List.nodup_append.1 nodup).2.2 _ mem _ (List.mem_cons_self ..) rfl

/-- Some classes have been entered, parents before their children. -/
structure Entered (p : Program) (entered : List ClassDef) (t : DispatchTables) : Prop where
  consistent : Consistent p t t.tableOf
  names : t.tables.map (·.1) = entered.map (·.name)
  parents : ∀ c ∈ entered, ∀ parent, c.parentName = some parent → ∃ d ∈ entered, d.name = parent
  inherits : ∀ c ∈ entered, ∀ parent, c.parentName = some parent →
    t.tableOf parent <+: t.tableOf c.name

/-- Nothing has been entered in empty tables. -/
lemma Entered.empty (p : Program) : Entered p [] empty where
  consistent _ _ mem := absurd mem List.not_mem_nil
  names := rfl
  parents _ mem := absurd mem List.not_mem_nil
  inherits _ mem := absurd mem List.not_mem_nil

/-- A class that has not been entered has no table. -/
lemma Entered.classTable?_eq_none {name : String} (entered : Entered p classes t)
    (new : name ∉ classes.map (·.name)) : t.classTable? name = none := by
  refine DispatchTables.classTable?_eq_none.2 (List.lookup_eq_none_iff.2 fun entry mem => ?_)
  rw [← entered.names] at new
  simpa using fun eq => new (List.mem_map.2 ⟨entry, mem, eq.symm⟩)

/-- A class is entered after its parent. -/
lemma Entered.addClass {classes : List ClassDef} (entered : Entered p classes t)
    (memc : c ∈ p.concreteClasses) (new : c.name ∉ classes.map (·.name))
    (parent : ∀ parent, c.parentName = some parent → ∃ d ∈ classes, d.name = parent)
    (result : addClass p t c = .ok t') : Entered p (classes ++ [c]) t' := by
  have none : t.classTable? c.name = none := entered.classTable?_eq_none new
  obtain ⟨consistent, names, others, own⟩ := addClass_spec memc none entered.consistent result
  have known : ∀ {name}, (∃ d ∈ classes, d.name = name) → t'.tableOf name = t.tableOf name := by
    rintro _ ⟨d, mem, rfl⟩
    exact others _ fun eq => new (eq ▸ List.mem_map_of_mem mem)
  refine ⟨consistent, ?_, ?_, ?_⟩
  · rw [names, entered.names, List.map_append]
    rfl
  · intro d mem q link
    rcases List.mem_append.1 mem with mem | mem
    · obtain ⟨e, mem', eq⟩ := entered.parents d mem q link
      exact ⟨e, List.mem_append_left _ mem', eq⟩
    · obtain rfl := List.mem_singleton.1 mem
      obtain ⟨e, mem', eq⟩ := parent q link
      exact ⟨e, List.mem_append_left _ mem', eq⟩
  · intro d mem q link
    rcases List.mem_append.1 mem with mem | mem
    · rw [known (entered.parents d mem q link), known ⟨d, mem, rfl⟩]
      exact entered.inherits d mem q link
    · obtain rfl := List.mem_singleton.1 mem
      rw [known (parent q link)]
      exact own q link

/-- All classes are entered in their order. -/
lemma Entered.foldlM_addClass {before after : List ClassDef}
    (grounded : ∀ c ∈ p.concreteClasses, p.Grounded c) (split : classOrder p = before ++ after)
    (entered : Entered p before t)
    (result : after.foldlM (DispatchTables.addClass p) t = .ok t') :
    Entered p (classOrder p) t' := by
  induction after generalizing before t with
  | nil =>
    cases result
    rwa [split, List.append_nil]
  | cons c after ih =>
    rw [List.foldlM_cons] at result
    obtain ⟨t₁, first, others⟩ := Except.exists_of_bind_eq_ok result
    have split' : classOrder p = (before ++ [c]) ++ after := by rw [split]; simp
    obtain ⟨memc, new, parent⟩ := next_of_split grounded split
    exact ih split' (entered.addClass memc new parent first) others

/-- Entering an interface keeps the slots consistent. -/
lemma Consistent.addInterface (memc : c ∈ p.interfaces) (consistent : Consistent p t tables) :
    Consistent p (t.addInterface p c) tables ∧
      (t.addInterface p c).tables = t.tables := by
  rw [DispatchTables.addInterface]
  induction c.methods.filter _ generalizing t with
  | nil => exact ⟨consistent, rfl⟩
  | cons md mds ih =>
    rw [List.foldl_cons]
    simp only
    split
    case isTrue =>
      have first := consistent.addInterfaceSlot (m := c.reference md) ⟨c, memc, rfl⟩
      obtain ⟨consistent', same⟩ := ih first
      exact ⟨consistent', same.trans tables_addInterfaceSlot⟩
    case isFalse =>
      obtain ⟨consistent', same⟩ := ih (consistent.addInterfaceSlots _)
      exact ⟨consistent', same.trans (tables_addInterfaceSlots _)⟩

/-- Entering some interfaces keeps the slots consistent. -/
lemma Consistent.foldl_addInterface {cs : List ClassDef} (mem : ∀ c ∈ cs, c ∈ p.interfaces)
    (consistent : Consistent p t tables) :
    Consistent p (cs.foldl (DispatchTables.addInterface p) t) tables ∧
      (cs.foldl (DispatchTables.addInterface p) t).tables = t.tables := by
  induction cs generalizing t with
  | nil => exact ⟨consistent, rfl⟩
  | cons c cs ih =>
    obtain ⟨first, same⟩ := consistent.addInterface (mem c (List.mem_cons_self ..))
    obtain ⟨others, same'⟩ := ih (fun d mem' => mem d (List.mem_cons_of_mem _ mem')) first
    exact ⟨others, same'.trans same⟩

/-- In the tables of a grounded program the slots are consistent, and the table of a class begins
with that of its parent. -/
lemma ofProgram_spec (grounded : ∀ c ∈ p.concreteClasses, p.Grounded c)
    (built : ofProgram p = .ok t) :
    Consistent p t t.tableOf ∧
      ∀ c ∈ p.concreteClasses, ∀ parent, c.parentName = some parent →
        t.tableOf parent <+: t.tableOf c.name := by
  rw [ofProgram] at built
  obtain ⟨t₁, classes, result⟩ := Except.exists_of_bind_eq_ok built
  cases result
  have entered := (Entered.empty p).foldlM_addClass grounded rfl classes
  have interfaces : ∀ c ∈ p.sortedClasses.filter (·.isInterface), c ∈ p.interfaces := by
    intro c mem
    rw [List.mem_filter, Program.sortedClasses, List.mem_mergeSort] at mem
    exact List.mem_filter.2 mem
  obtain ⟨consistent, same⟩ := entered.consistent.foldl_addInterface interfaces
  rw [tableOf_congr same]
  exact ⟨consistent, fun c mem => entered.inherits c (mem_classOrder.2 mem)⟩

/-- The table of a class begins with those of its ancestors. -/
lemma tableOf_isPrefix (grounded : ∀ c ∈ p.concreteClasses, p.Grounded c)
    (built : ofProgram p = .ok t) (memc : c ∈ p.concreteClasses)
    (up : d ∈ p.ancestors c.name) : t.tableOf d.name <+: t.tableOf c.name := by
  have inherits := (ofProgram_spec grounded built).2
  induction grounded c memc with
  | @root c mem noParent =>
    rw [Program.ancestors_of_root (Program.concreteClasses_subset mem) noParent] at up
    obtain rfl := List.mem_singleton.1 up
    exact List.prefix_rfl
  | @child c e mem link split grounded' ih =>
    rw [split] at up
    cases up with
    | head => exact List.prefix_rfl
    | tail _ up => exact (ih grounded'.mem_concreteClasses up).trans (inherits c mem _ link)

/-- A slot that a reference resolves to is owned by a declaration among the supertypes of each
subtype of the referenced class. -/
lemma exists_of_resolve? {slot : Slot} {sub : String} (lists : p.ListsInterfaces)
    (roots : p.InterfacesAreRoots) (subtype : p.isSubtype sub m.className = true)
    (resolved : t.resolve? p m = some slot) :
    ∃ d ∈ p.ancestors sub ++ p.allInterfaces sub, (⟨d.name, m.signature⟩, slot) ∈ t.slots := by
  obtain ⟨d, mem, owned⟩ := List.exists_of_findSome?_eq_some resolved
  exact ⟨d, Program.mem_supertypes_of_isSubtype lists roots subtype mem,
    mem_slots_of_slot? owned⟩

/-- A class slot that a reference resolves to is owned by an ancestor of each class which is a
subtype of the referenced one, and its own table has it at the same place. -/
lemma classSlot_of_resolve? {owner : String} {n : Nat}
    (grounded : ∀ c ∈ p.concreteClasses, p.Grounded c) (built : ofProgram p = .ok t)
    (lists : p.ListsInterfaces) (roots : p.InterfacesAreRoots) (memc : c ∈ p.concreteClasses)
    (subtype : p.isSubtype c.name m.className = true)
    (resolved : t.resolve? p m = some (.ofClass owner n)) :
    ∃ d ∈ p.concreteClasses, d.name = owner ∧ t.tableOf d.name <+: t.tableOf c.name ∧
      (t.tableOf d.name)[n]? = some ⟨d.name, m.signature⟩ := by
  obtain ⟨d, mem, owned⟩ := exists_of_resolve? lists roots subtype resolved
  obtain ⟨rfl, place, d', memd', eq⟩ := (ofProgram_spec grounded built).1 _ _ owned
  rcases List.mem_append.1 mem with up | mem
  · obtain rfl := Program.eq_of_name_eq (Program.concreteClasses_subset memd')
      (Program.mem_of_mem_ancestors up) eq
    exact ⟨d', memd', rfl, tableOf_isPrefix grounded built memc up, place⟩
  · exact absurd eq (Program.name_ne_of_isInterface memd' (Program.mem_of_mem_allInterfaces mem)
      (lists.isInterface mem))

/-- An interface slot that a reference resolves to is owned by an interface of which each class that
is a subtype of the referenced one is a subtype, too. -/
lemma interfaceSlot_of_resolve? {n : Nat}
    (grounded : ∀ c ∈ p.concreteClasses, p.Grounded c) (built : ofProgram p = .ok t)
    (lists : p.ListsInterfaces) (roots : p.InterfacesAreRoots)
    (subtype : p.isSubtype c.name m.className = true)
    (resolved : t.resolve? p m = some (.ofInterface n)) :
    ∃ d : String, p.isSubtype c.name d = true ∧
      t.interfaceTable[n]? = some ⟨d, m.signature⟩ := by
  obtain ⟨d, mem, owned⟩ := exists_of_resolve? lists roots subtype resolved
  refine ⟨d.name, ?_, ((ofProgram_spec grounded built).1 _ _ owned).1⟩
  rw [Program.isSubtype_iff]
  rcases List.mem_append.1 mem with up | mem
  · exact .inr (.inl ⟨d, up, rfl⟩)
  · exact .inr (.inr ⟨d, mem, rfl⟩)

end DispatchTables

end ObjectBackend
