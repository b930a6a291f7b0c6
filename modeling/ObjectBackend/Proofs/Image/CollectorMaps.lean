import ObjectBackend.Proofs.Image.Emission
import ObjectBackend.Proofs.Image.VirtualCall
import ObjectBackend.Proofs.Objects.Layout

/-!
# The collector's maps

How a collector finds the references of an object: it follows the parent links of the metadata and
reads, for each class, as many offsets as are recorded, from the table that is recorded with them
(`Collects`). It finds every reference field of the layout once (`maps_list_references`). A table
only has the fields of its own class, so this rests on layouts extending those of the parents; and
it counts them in the class's own structure, whose beginning is the same in all subclasses.
-/

namespace ObjectBackend

open Target

/-- The part of a constant that a path of positions leads to. -/
def Target.Constant.at? : Constant → List Nat → Option Constant
  | c, [] => some c
  | .record items, i :: path => items[i]?.bind fun item => item.2.at? path
  | .sequence items, i :: path => items[i]?.bind fun item => item.2.at? path
  | .value _, _ :: _ => none

/-- The offset of a field in the structure of the instances of a class. -/
structure FieldOffset where
  className : String
  index : Nat
deriving DecidableEq

/-- How an offset stands in a table. -/
def FieldOffset.contents (o : FieldOffset) : IrType × Constant :=
  Constant.i32 (.offset (.named (.instances o.className)) [0, o.index])

/-- The offset of a field in the structure of the class that declares it. -/
def FieldSlot.offset (f : FieldSlot) : FieldOffset := ⟨f.className, f.index⟩

/-- What metadata records about fields: its parent, the number of own references and their table. -/
def Records (es : List (Entry Label)) (metadata : Symbol) (parent : Value) (count : Nat)
    (table : Value) : Prop :=
  ∃ storage type contents, .data metadata storage type contents ∈ es ∧
    contents.at? [0, 4, 0] = some (.value parent) ∧
    contents.at? [0, 4, 1] = some (.value (.int count)) ∧
    contents.at? [0, 4, 2] = some (.value table)

/-- The offsets that a table has; there is none if it would be empty. -/
inductive Tabulates (es : List (Entry Label)) : Value → List FieldOffset → Prop where
  | none :
    Tabulates es .null []
  | some {table : Symbol} {storage : Storage} {type : IrType} {offsets : List FieldOffset} :
    .data table storage type (.sequence (offsets.map FieldOffset.contents)) ∈ es →
    Tabulates es (.symbol table) offsets

/-- The offsets that are found from some metadata on along the parent links. -/
inductive Collects (es : List (Entry Label)) : Value → List FieldOffset → Prop where
  | done :
    Collects es .null []
  | step {metadata : Symbol} {parent table : Value} {own inherited : List FieldOffset} :
    Records es metadata parent own.length table →
    Tabulates es table own →
    Collects es parent inherited →
    Collects es (.symbol metadata) (own ++ inherited)

/-- The static fields of a class that are references. -/
def ClassDef.roots (c : ClassDef) : List Symbol :=
  (c.staticFields.filter (·.type.isReference)).map fun f => .field c.name f.name

/-- The table of some static references, after their number. -/
def rootsEntry (roots : List Symbol) : Entry Label :=
  let table : IrType := .array roots.length .ptr
  .data (.runtime .stackRoots) .readOnly (.struct [.i64, table])
    (.record
      [Constant.i64 (.int roots.length),
        (table, .sequence (roots.map fun root => Constant.ptr (.symbol root)))])

/-- Field offsets with the same contents are the same. -/
lemma FieldOffset.contents_injective : Function.Injective FieldOffset.contents := by
  rintro ⟨className, index⟩ ⟨className', index'⟩ eq
  cases eq
  rfl

namespace Backend

variable {p : Program} {settings : Settings} {b : Backend} {es : List (Entry Label)}
  {pools : Pools} {c : ClassDef} {offsets : List FieldOffset}

/-- The only metadata under the symbol of a class is its own. -/
lemma records_iff (built : ofProgram p settings = .ok b)
    (emitted : b.entries.run .empty = .ok (es, pools)) (memc : c ∈ p.concreteClasses)
    {parent table : Value} {count : Nat} :
    Records es (.metadata c.name) parent count table ↔
      parent = c.parentName.elim .null (fun name => .symbol (.metadata name)) ∧
      count = (p.ownReferences c.name).length ∧
      table = if (p.ownReferences c.name).isEmpty then .null else .symbol (.fieldTable c.name) := by
  obtain ⟨rfl, tagged, _⟩ := ofProgram_spec built
  obtain ⟨declared, isClass⟩ := Program.mem_concreteClasses.1 memc
  obtain ⟨layout, found⟩ : ∃ layout, b.program.layout? c.name = some layout :=
    ⟨_, Program.layout?_of_mem memc⟩
  have data := metadata_eq_of_layout? isClass (TagMap.classRange?_of_mem tagged memc) found
  have own : b.program.ownReferences c.name = layout.ownReferences := by
    rw [Program.ownReferences, found]
    rfl
  rw [own]
  constructor
  · rintro ⟨storage, type, contents, mem, parent', count', table'⟩
    obtain ⟨c', memc', name, data'⟩ := origin_of_mem emitted mem rfl
    obtain rfl := Program.eq_of_name_eq memc' declared name
    cases data.symm.trans data'
    cases parent'
    cases table'
    refine ⟨rfl, ?_, rfl⟩
    exact (Int.ofNat_inj.1 (Value.int.inj (Constant.value.inj (Option.some.inj count')))).symm
  · rintro ⟨rfl, rfl, rfl⟩
    exact ⟨_, _, _, mem_of_metadata emitted declared data, rfl, rfl, rfl⟩

/-- The table of a class has the offsets of its own references. -/
lemma fieldTable_eq (grounded : b.program.Grounded c) :
    b.fieldTable c = if (b.program.ownReferences c.name).isEmpty then []
      else
        [.data (.fieldTable c.name) .privateReadOnly
          (.array (b.program.ownReferences c.name).length .i32)
          (.sequence (((b.program.ownReferences c.name).map FieldSlot.offset).map
            FieldOffset.contents))] := by
  have cells : ((b.program.ownReferences c.name).map fun f =>
      Constant.i32 (.offset (.named (.instances c.name)) [0, f.index])) =
        ((b.program.ownReferences c.name).map FieldSlot.offset).map FieldOffset.contents := by
    rw [List.map_map]
    refine List.map_congr_left fun f mem => ?_
    rw [Program.ownReferences_eq] at mem
    rw [← grounded.className_of_mem_ownFields (List.mem_of_mem_filter mem)]
    rfl
  rw [fieldTable, ← Program.ownReferences, cells, List.isEmpty_map, List.isEmpty_map,
    List.length_map, List.length_map]

/-- The only table of a class is that of its own references. -/
lemma tabulates_iff (built : ofProgram p settings = .ok b)
    (emitted : b.entries.run .empty = .ok (es, pools)) (grounded : p.Grounded c) :
    Tabulates es
        (if (p.ownReferences c.name).isEmpty then .null else .symbol (.fieldTable c.name)) offsets ↔
      offsets = (p.ownReferences c.name).map FieldSlot.offset := by
  obtain ⟨rfl, _, _⟩ := ofProgram_spec built
  have declared := Program.concreteClasses_subset grounded.mem_concreteClasses
  have table := fieldTable_eq grounded
  cases empty : (b.program.ownReferences c.name).isEmpty with
  | true =>
    rw [List.isEmpty_iff.1 empty]
    constructor
    · intro tabulates
      cases tabulates
      rfl
    · rintro rfl
      exact .none
  | false =>
    rw [empty, if_neg Bool.false_ne_true] at table
    constructor
    · intro tabulates
      cases tabulates with
      | some mem =>
        obtain ⟨c', memc', name, mem⟩ := origin_of_mem emitted mem rfl
        obtain rfl := Program.eq_of_name_eq memc' declared name
        rw [table] at mem
        have eq := (Entry.data.inj (List.mem_singleton.1 mem)).2.2.2
        exact List.map_injective_iff.2 FieldOffset.contents_injective (Constant.sequence.inj eq)
    · rintro rfl
      exact .some (mem_of_fieldTable emitted declared (table ▸ List.mem_singleton_self _))

/-- From the metadata of a class on, its own references are found and what is found from its parent
on. -/
lemma collects_step_iff (built : ofProgram p settings = .ok b)
    (emitted : b.entries.run .empty = .ok (es, pools)) (grounded : p.Grounded c) {parent : Value}
    (link : c.parentName.elim .null (fun name => .symbol (.metadata name)) = parent) :
    Collects es (.symbol (.metadata c.name)) offsets ↔
      ∃ inherited, Collects es parent inherited ∧
        offsets = (p.ownReferences c.name).map FieldSlot.offset ++ inherited := by
  have memc := grounded.mem_concreteClasses
  constructor
  · intro collects
    cases collects with
    | step recorded tabulated above =>
      obtain ⟨rfl, -, rfl⟩ := (records_iff built emitted memc).1 recorded
      obtain rfl := (tabulates_iff built emitted grounded).1 tabulated
      exact ⟨_, link ▸ above, rfl⟩
  · rintro ⟨inherited, above, rfl⟩
    exact .step ((records_iff built emitted memc).2 ⟨link.symm, List.length_map _, rfl⟩)
      ((tabulates_iff built emitted grounded).2 rfl) above

/-- What is found from the metadata of a class on: the own references of it and its ancestors. -/
lemma collects_iff (built : ofProgram p settings = .ok b)
    (emitted : b.entries.run .empty = .ok (es, pools)) (grounded : p.Grounded c) :
    Collects es (.symbol (.metadata c.name)) offsets ↔
      offsets = ((p.ancestors c.name).flatMap fun d => p.ownReferences d.name).map
        FieldSlot.offset := by
  -- the metadata of a class links to that of its parent, so the induction is along the chain
  induction grounded generalizing offsets with
  | @root c memc noParent =>
    have link : c.parentName.elim .null (fun name => .symbol (.metadata name)) = Value.null := by
      rw [noParent]
      rfl
    rw [collects_step_iff built emitted (.root memc noParent) link,
      Program.ancestors_of_root (Program.concreteClasses_subset memc) noParent,
      List.flatMap_singleton]
    constructor
    · rintro ⟨inherited, above, rfl⟩
      cases above
      exact List.append_nil _
    · rintro rfl
      exact ⟨[], .done, (List.append_nil _).symm⟩
  | @child c d memc parent split grounded ih =>
    have link : c.parentName.elim .null (fun name => .symbol (.metadata name)) =
        Value.symbol (.metadata d.name) := by
      rw [parent]
      rfl
    rw [collects_step_iff built emitted (.child memc parent split grounded) link, split,
      List.flatMap_cons, List.map_append]
    constructor
    · rintro ⟨inherited, above, rfl⟩
      rw [ih.1 above]
    · rintro rfl
      exact ⟨_, ih.2 rfl, rfl⟩

/-- The structure of a class's instances is in the module: a header, then its fields. -/
lemma structure_mem (emitted : b.entries.run .empty = .ok (es, pools))
    (grounded : b.program.Grounded c) :
    .typeDef (.instances c.name)
      (.runtime .object :: (b.program.slots c.name).map fun f => .storage f.type) ∈ es := by
  obtain ⟨declared, isClass⟩ := Program.mem_concreteClasses.1 grounded.mem_concreteClasses
  refine mem_of_classTypes emitted declared ?_
  rw [classTypes, isClass, instanceFields, Program.layout?_of_mem grounded.mem_concreteClasses]
  exact List.mem_cons_self ..

/-- The static references are those that the classes declare. -/
lemma stackRoots_eq : ∃ roots : List Symbol, b.stackRoots = rootsEntry roots ∧
    roots.Perm (b.program.classes.flatMap ClassDef.roots) := by
  have sorted : b.program.sortedClasses.Perm b.program.classes := List.mergeSort_perm _ _
  have references : b.staticReferences = (b.program.sortedClasses.flatMap ClassDef.roots).map
      fun root => Constant.ptr (.symbol root) := by
    rw [staticReferences, List.map_flatMap]
    refine congrArg (List.flatMap · b.program.sortedClasses) (funext fun c => ?_)
    rw [ClassDef.roots, List.map_map]
    rfl
  refine ⟨_, ?_, sorted.flatMap_right _⟩
  rw [stackRoots, references, List.length_map]
  rfl

/-- The collector finds all references. From the metadata of a class on it collects the offsets of
the reference fields of the layout, each once and nothing else, and as many are recorded for the
class as its table has; an offset is counted in a structure that the structure of the class begins
with. And the static references are those of all classes and interfaces, one for each declaration.
-/
theorem maps_list_references (built : ofProgram p settings = .ok b)
    (emitted : b.entries.run .empty = .ok (es, pools)) :
    (∀ c ∈ p.concreteClasses, ∃ layout offsets, p.layout? c.name = some layout ∧
      (∀ found, Collects es (.symbol (.metadata c.name)) found ↔ found = offsets) ∧
      offsets.Perm ((layout.fields.filter (·.isReference)).map FieldSlot.offset) ∧
      (offsets.map (·.index)).Nodup ∧
      (∀ parent count table own, Records es (.metadata c.name) parent count table →
        Tabulates es table own → count = own.length) ∧
      ∀ f ∈ layout.fields, ∃ upper lower,
        .typeDef (.instances f.className) upper ∈ es ∧ .typeDef (.instances c.name) lower ∈ es ∧
        upper <+: lower ∧ f.index < upper.length) ∧
    ∃ roots : List Symbol,
      (∀ e, e ∈ es ∧ e.dataSymbol? = some (.runtime .stackRoots) ↔ e = rootsEntry roots) ∧
      roots.Perm (p.classes.flatMap ClassDef.roots) := by
  obtain ⟨rfl, tagged, _⟩ := ofProgram_spec built
  constructor
  · intro c memc
    have grounded := TagMap.grounded_of_ofProgram tagged memc
    refine ⟨_, _, Program.layout?_of_mem memc, fun found => collects_iff built emitted grounded,
      grounded.ownReferences_perm.map _, ?_, ?_, ?_⟩
    · rw [List.map_map]
      refine ((grounded.ownReferences_perm.map _).nodup_iff).2 ?_
      exact (ObjectLayout.nodup_index_place).sublist (List.filter_sublist.map _)
    · intro parent count table own recorded tabulated
      obtain ⟨-, rfl, rfl⟩ := (records_iff built emitted memc).1 recorded
      rw [(tabulates_iff built emitted grounded).1 tabulated, List.length_map]
    · -- a table of an ancestor counts in the ancestor's structure, not in that of the class
      intro f mem
      obtain ⟨d, up, owner, mem⟩ := grounded.exists_declaring mem
      rw [owner]
      refine ⟨_, _, structure_mem emitted (grounded.of_mem_ancestors up),
        structure_mem emitted grounded, ?_, ?_⟩
      · exact List.cons_prefix_cons.2 ⟨rfl, (grounded.slots_isPrefix up).map _⟩
      · obtain ⟨i, found⟩ := List.getElem?_of_mem mem
        rw [ObjectLayout.index_of_getElem? found, List.length_cons, List.length_map]
        exact Nat.succ_lt_succ (List.getElem?_eq_some_iff.1 found).1
  · obtain ⟨roots, whole, perm⟩ := stackRoots_eq (b := b)
    refine ⟨roots, fun e => ⟨?_, ?_⟩, perm⟩
    · rintro ⟨mem, data⟩
      exact (origin_of_mem emitted mem data).trans whole
    · rintro rfl
      exact ⟨whole ▸ stackRoots_mem emitted, rfl⟩

/-- The collector finds the two references of the subclass, and the static one. -/
theorem points_references :
    ∃ b es pools offsets, ofProgram Program.points .default = .ok b ∧
      b.entries.run .empty = .ok (es, pools) ∧
      Collects es (.symbol (.metadata "Named")) offsets ∧
      offsets.Perm [⟨"Named", 3⟩, ⟨"Named", 5⟩] ∧
      rootsEntry [.field "Point" "origin"] ∈ es := by
  obtain ⟨b, es, pools, built, emitted⟩ := exists_entries_points
  obtain ⟨objects, roots, table, perm⟩ := maps_list_references built emitted
  obtain ⟨layout, offsets, found, collects, references, _⟩ :=
    objects Program.points.classes[0] (by decide)
  have listed : (Program.points.layout? Program.points.classes[0].name).map (fun layout =>
      (layout.fields.filter (·.isReference)).map FieldSlot.offset) =
        some [⟨"Named", 3⟩, ⟨"Named", 5⟩] := by
    decide +kernel
  refine ⟨b, es, pools, offsets, built, emitted, (collects _).2 rfl, ?_, ?_⟩
  · rw [found, Option.map_some] at listed
    exact Option.some.inj listed ▸ references
  · obtain rfl : roots = [.field "Point" "origin"] := List.perm_singleton.1 perm
    exact ((table _).2 rfl).1

end Backend

end ObjectBackend
