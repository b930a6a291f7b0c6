import ObjectBackend.Objects.Layout
import ObjectBackend.Proofs.Objects.TypeTag

/-!
# Layouts along the hierarchy

The layout of a class begins with that of each of its ancestors (`layout_extends_ancestors`). Every
layout is computed from a parent chain of its own, so this rests on the chains: the chain of an
ancestor is the end of the chain (`Program.Grounded.ancestors_suffix`), and a layout places the
fields of a chain from its end on. A field reference that is resolved in an ancestor therefore finds
the same field in the objects of every subclass. The fields of a class are its own and those that
its ancestors declare, each once (`Grounded.ownFields_perm`).
-/

namespace ObjectBackend

/-- The declaration that a slot is for: its class, its name and its type. -/
def FieldSlot.declaration (f : FieldSlot) : String × String × ValueType :=
  (f.className, f.name, f.type)

/-- The declarations of the instance fields of a class, in their order. -/
def ClassDef.declarations (c : ClassDef) : List (String × String × ValueType) :=
  c.instanceFields.map fun f => (c.name, f.name, f.type)

namespace ObjectLayout

variable {chain chain' : List ClassDef} {c : ClassDef} {f g : FieldSlot} {i : Nat}

/-- A chain is laid out with a place for each declared field. -/
lemma length_place : (place chain).length = (declaredFields chain).length := by
  rw [place, List.length_map, List.length_zipIdx]

/-- The slots of a chain are those of its declarations. -/
lemma map_declaration_place :
    (place chain).map FieldSlot.declaration = chain.flatMap ClassDef.declarations := by
  have slots : (place chain).map FieldSlot.declaration =
      ((declaredFields chain).zipIdx.map Prod.fst).map fun d => (d.1.name, d.2.name, d.2.type) := by
    rw [place, List.map_map, List.map_map]
    rfl
  rw [slots, List.zipIdx_map_fst, declaredFields, List.map_flatMap]
  refine congrArg chain.flatMap (funext fun c => ?_)
  rw [List.map_map]
  rfl

/-- A field has the index behind its position, since the header comes first. -/
lemma index_of_getElem? (found : (place chain)[i]? = some f) : f.index = i + 1 := by
  rw [place, List.getElem?_map, Option.map_eq_some_iff] at found
  obtain ⟨entry, found, rfl⟩ := found
  rw [List.getElem?_zipIdx, Option.map_eq_some_iff] at found
  obtain ⟨declared, _, rfl⟩ := found
  simp

/-- No two fields of a layout have the same index. -/
lemma eq_of_index_eq (memf : f ∈ place chain) (memg : g ∈ place chain)
    (eq : f.index = g.index) : f = g := by
  obtain ⟨i, atf⟩ := List.getElem?_of_mem memf
  obtain ⟨j, atg⟩ := List.getElem?_of_mem memg
  rw [index_of_getElem? atf, index_of_getElem? atg, Nat.add_right_cancel_iff] at eq
  rw [eq, atg] at atf
  exact (Option.some.inj atf).symm

/-- The fields behind those of the chain above a class are the class's own. -/
lemma className_of_mem_drop
    (mem : f ∈ (place (c :: chain).reverse).drop (declaredFields chain).length) :
    f.className = c.name := by
  have above : (chain.reverse.flatMap ClassDef.declarations).length =
      (declaredFields chain).length := by
    rw [← map_declaration_place, List.length_map, length_place]
    exact ((List.reverse_perm _).flatMap_right _).length_eq
  have own : ((place (c :: chain).reverse).drop (declaredFields chain).length).map
      FieldSlot.declaration = c.declarations := by
    rw [List.map_drop, map_declaration_place, List.reverse_cons, List.flatMap_append,
      List.drop_left' above, List.flatMap_singleton]
  have declared : f.declaration ∈ c.declarations := own ▸ List.mem_map_of_mem mem
  obtain ⟨_, _, eq⟩ := List.mem_map.1 declared
  exact (congrArg Prod.fst eq).symm

/-- The fields of a layout have different indices. -/
lemma nodup_index_place : ((place chain).map (·.index)).Nodup := by
  have indices : (place chain).map (·.index) =
      ((declaredFields chain).zipIdx.map Prod.snd).map (· + 1) := by
    rw [place, List.map_map, List.map_map]
    rfl
  rw [indices, List.zipIdx_map_snd]
  exact (List.nodup_range' ..).map (add_left_injective 1)

/-- The fields of a longer chain come behind those of its beginning. -/
lemma place_isPrefix (begins : chain <+: chain') : place chain <+: place chain' := by
  obtain ⟨rest, rfl⟩ := begins
  rw [place, place, declaredFields, declaredFields, List.flatMap_append, List.zipIdx_append,
    List.map_append]
  exact List.prefix_append _ _

end ObjectLayout

namespace Program

open ObjectLayout

variable {p : Program} {c d : ClassDef} {f slot : FieldSlot}

/-- The fields of the instances of a class. -/
def slots (p : Program) (name : String) : List FieldSlot :=
  ObjectLayout.place (p.ancestors name).reverse

/-- The layout of a class. -/
lemma layout?_of_mem (memc : c ∈ p.concreteClasses) :
    p.layout? c.name = some
      { className := c.name
        parent := c.parentName
        fields := p.slots c.name
        inherited := (declaredFields ((p.ancestors c.name).drop 1)).length } := by
  obtain ⟨declared, isClass⟩ := mem_concreteClasses.1 memc
  rw [layout?, lookup?_of_mem declared, Option.filter_some, isClass]
  rfl

/-- Only classes have layouts. -/
lemma exists_of_layout? {name : String} {layout : ObjectLayout}
    (found : p.layout? name = some layout) :
    ∃ c ∈ p.concreteClasses, c.name = name ∧ layout.fields = p.slots name := by
  obtain ⟨c, laid, rfl⟩ := Option.map_eq_some_iff.1 found
  obtain ⟨looked, isClass⟩ := Option.filter_eq_some_iff.1 laid
  obtain ⟨memc, named⟩ := lookup?_eq_some_iff.1 looked
  exact ⟨c, mem_concreteClasses.2 ⟨memc, by simpa using isClass⟩, named, rfl⟩

/-- The fields of a layout are declared by ancestors. -/
lemma exists_of_mem_slots {name : String} (mem : slot ∈ p.slots name) :
    ∃ c ∈ p.ancestors name, ∃ g ∈ c.instanceFields,
      slot.declaration = (c.name, g.name, g.type) := by
  have declared := List.mem_map_of_mem (f := FieldSlot.declaration) mem
  rw [slots, map_declaration_place] at declared
  obtain ⟨c, up, declared⟩ := List.mem_flatMap.1 declared
  obtain ⟨g, memg, eq⟩ := List.mem_map.1 declared
  exact ⟨c, List.mem_reverse.1 up, g, memg, eq.symm⟩

/-- The layout of an ancestor is the beginning of the layout. -/
lemma Grounded.slots_isPrefix (grounded : Grounded p c) (up : d ∈ p.ancestors c.name) :
    p.slots d.name <+: p.slots c.name :=
  ObjectLayout.place_isPrefix (List.reverse_prefix.2 (grounded.ancestors_suffix up))

/-- A class inherits the fields of its parent's layout, and none if it starts a hierarchy. -/
lemma Grounded.inherited_eq (grounded : Grounded p c) :
    (declaredFields ((p.ancestors c.name).drop 1)).length =
      c.parentName.elim 0 fun q => (p.slots q).length := by
  cases grounded with
  | root memc noParent =>
    rw [ancestors_of_root (concreteClasses_subset memc) noParent, noParent]
    rfl
  | child _ parent split _ =>
    rw [split, parent, Option.elim_some, slots, length_place]
    exact ((List.reverse_perm _).symm.flatMap_right _).length_eq

/-- The fields that a class itself declares. -/
def ownFields (p : Program) (name : String) : List FieldSlot :=
  (p.layout? name).elim [] (·.ownFields)

/-- The own fields of a class that are references. -/
def ownReferences (p : Program) (name : String) : List FieldSlot :=
  (p.layout? name).elim [] (·.ownReferences)

/-- The own references of a class are the references among its own fields. -/
lemma ownReferences_eq (name : String) :
    p.ownReferences name = (p.ownFields name).filter (·.isReference) := by
  rw [ownReferences, ownFields]
  cases p.layout? name <;> rfl

/-- The own fields of a class are the fields of its layout behind those of its ancestors. -/
lemma ownFields_eq (memc : c ∈ p.concreteClasses) :
    p.ownFields c.name = (p.slots c.name).drop
      (ObjectLayout.declaredFields ((p.ancestors c.name).drop 1)).length := by
  rw [ownFields, layout?_of_mem memc]
  rfl

/-- A root has only own fields. -/
lemma slots_of_root (memc : c ∈ p.concreteClasses) (root : c.parentName = none) :
    p.slots c.name = p.ownFields c.name := by
  rw [ownFields_eq memc, ancestors_of_root (concreteClasses_subset memc) root]
  rfl

/-- Behind the fields of the parent's layout come the class's own. -/
lemma Grounded.slots_of_parent (grounded : Grounded p c) (parent : c.parentName = some d.name)
    (up : d ∈ p.ancestors c.name) : p.slots c.name = p.slots d.name ++ p.ownFields c.name := by
  have inherited := grounded.inherited_eq
  rw [parent, Option.elim_some] at inherited
  rw [ownFields_eq grounded.mem_concreteClasses, inherited]
  exact (List.prefix_iff_eq_append.1 (grounded.slots_isPrefix up)).symm

/-- The fields of a class are its own and those that its ancestors declare. -/
lemma Grounded.ownFields_perm (grounded : Grounded p c) :
    ((p.ancestors c.name).flatMap fun d => p.ownFields d.name).Perm (p.slots c.name) := by
  -- the chain lists the class first, and the layout lists the root first
  induction grounded with
  | @root c memc noParent =>
    rw [slots_of_root memc noParent, ancestors_of_root (concreteClasses_subset memc) noParent,
      List.flatMap_singleton]
  | @child c d memc parent split grounded ih =>
    have up : d ∈ p.ancestors c.name := by
      rw [split]
      exact List.mem_cons_of_mem _
        (mem_ancestors_self (concreteClasses_subset grounded.mem_concreteClasses))
    rw [(Grounded.child memc parent split grounded).slots_of_parent parent up, split,
      List.flatMap_cons]
    exact List.perm_append_comm.trans (ih.append_right _)

/-- The references of a class are its own and those that its ancestors declare. -/
lemma Grounded.ownReferences_perm (grounded : Grounded p c) :
    ((p.ancestors c.name).flatMap fun d => p.ownReferences d.name).Perm
      ((p.slots c.name).filter (·.isReference)) := by
  simp only [ownReferences_eq]
  rw [← List.filter_flatMap]
  exact grounded.ownFields_perm.filter _

/-- The own fields of a grounded class belong to it. -/
lemma Grounded.className_of_mem_ownFields (grounded : Grounded p c)
    (mem : f ∈ p.ownFields c.name) : f.className = c.name := by
  obtain ⟨above, split⟩ : ∃ above, p.ancestors c.name = c :: above := by
    cases grounded with
    | root mem noParent => exact ⟨[], ancestors_of_root (concreteClasses_subset mem) noParent⟩
    | child _ _ split _ => exact ⟨_, split⟩
  rw [ownFields_eq grounded.mem_concreteClasses, slots, split] at mem
  exact ObjectLayout.className_of_mem_drop mem

/-- Every field of a class is a field of the ancestor that declares it. -/
lemma Grounded.exists_declaring (grounded : Grounded p c) (mem : f ∈ p.slots c.name) :
    ∃ d ∈ p.ancestors c.name, f.className = d.name ∧ f ∈ p.slots d.name := by
  obtain ⟨d, up, mem⟩ := List.mem_flatMap.1 (grounded.ownFields_perm.mem_iff.2 mem)
  have declaring := grounded.of_mem_ancestors up
  refine ⟨d, up, declaring.className_of_mem_ownFields mem, ?_⟩
  rw [ownFields_eq declaring.mem_concreteClasses] at mem
  exact List.mem_of_mem_drop mem

/-- What a field reference finds is a field of the layout of the class it names. -/
lemma mem_slots_of_fieldSlot? {name : String} (memc : c ∈ p.concreteClasses)
    (found : p.fieldSlot? ⟨c.name, name⟩ = some slot) :
    slot ∈ p.slots c.name := by
  rw [fieldSlot?, layout?_of_mem memc, Option.bind_some, ObjectLayout.field?] at found
  exact List.mem_reverse.1 (List.mem_of_find?_eq_some found)

/-- If a program has tags, the layout of a class extends those of its ancestors. Its fields are
numbered from one on; they are the instance fields that the class and its ancestors declare, the
root's first, and as many of them are inherited as the parent's layout has. So a field that a
reference finds in an ancestor is the one with the same index in the layout of the class. -/
theorem layout_extends_ancestors {t : TagMap} (built : TagMap.ofProgram p = .ok t)
    (memc : c ∈ p.concreteClasses) (up : d ∈ p.ancestors c.name) :
    ∃ upper lower : ObjectLayout, p.layout? d.name = some upper ∧ p.layout? c.name = some lower ∧
      upper.fields <+: lower.fields ∧
      (∀ i f, lower.fields[i]? = some f → f.index = i + 1) ∧
      lower.fields.map FieldSlot.declaration =
        (p.ancestors c.name).reverse.flatMap ClassDef.declarations ∧
      (c.parentName = none → lower.inherited = 0) ∧
      (∀ q, c.parentName = some q →
        ∃ l, p.layout? q = some l ∧ lower.inherited = l.fields.length) ∧
      ∀ name slot, p.fieldSlot? ⟨d.name, name⟩ = some slot →
        ∀ f, f ∈ lower.fields ∧ f.index = slot.index ↔ f = slot := by
  have grounded := TagMap.grounded_of_ofProgram built memc
  have memd := (grounded.of_mem_ancestors up).mem_concreteClasses
  refine ⟨_, _, layout?_of_mem memd, layout?_of_mem memc, grounded.slots_isPrefix up,
    fun i f => index_of_getElem?, map_declaration_place, ?_, ?_, ?_⟩
  · intro noParent
    exact grounded.inherited_eq.trans (by rw [noParent]; rfl)
  · intro q parent
    cases grounded with
    | root _ noParent =>
      rw [noParent] at parent
      cases parent
    | child memc parent' split grounded' =>
      obtain rfl := Option.some.inj (parent'.symm.trans parent)
      refine ⟨_, layout?_of_mem grounded'.mem_concreteClasses, ?_⟩
      exact (Grounded.child memc parent' split grounded').inherited_eq.trans (by rw [parent']; rfl)
  · intro name slot found f
    have mem := (grounded.slots_isPrefix up).subset (mem_slots_of_fieldSlot? memd found)
    constructor
    · rintro ⟨memf, eq⟩
      exact eq_of_index_eq memf mem eq
    · rintro rfl
      exact ⟨mem, rfl⟩

/-- A field that is declared without a value. -/
def plainField (name : String) (type : ValueType) : FieldDef :=
  { name, isStatic := false, type, initial := none }

/-- A class whose subclass hides one of its fields and repeats another, with a static field between
them; the subclass comes first. -/
def points : Program :=
  { classes :=
      [{ ClassDef.empty "Named" with
          parent := some "Point"
          fields :=
            [plainField "name" (.object "Text"), plainField "x" (.primitive .double),
             plainField "name" (.array (.primitive .char))] },
       { ClassDef.empty "Point" with
          fields :=
            [plainField "x" (.primitive .int),
             { plainField "origin" (.object "Point") with isStatic := true },
             plainField "y" (.primitive .int)] }]
    entryPoint := none
    nodup := by decide }

/-- The hidden field of the class is still in its place in the layout of the subclass. -/
theorem points_keep_hidden_field :
    ∃ t layout, TagMap.ofProgram points = .ok t ∧
      points.classes[1] ∈ points.ancestors "Named" ∧
      points.fieldSlot? ⟨"Point", "x"⟩ = some ⟨"Point", "x", .primitive .int, 1⟩ ∧
      points.layout? "Named" = some layout ∧ layout.inherited = 2 ∧
      ∀ f ∈ layout.fields, f.index = 1 → f = ⟨"Point", "x", .primitive .int, 1⟩ := by
  obtain ⟨t, built⟩ := TagMap.exists_ofProgram (p := points) (by decide +kernel)
  have up : points.classes[1] ∈ points.ancestors "Named" := by decide +kernel
  have slot : points.fieldSlot? ⟨"Point", "x"⟩ = some ⟨"Point", "x", .primitive .int, 1⟩ := by
    decide +kernel
  obtain ⟨upper, lower, _, layout, _, _, _, _, inherits, keeps⟩ :=
    layout_extends_ancestors built (by decide : points.classes[0] ∈ points.concreteClasses) up
  obtain ⟨parent, found, inherited⟩ := inherits "Point" rfl
  have length : (points.layout? "Point").map (·.fields.length) = some 2 := by decide +kernel
  rw [found, Option.map_some] at length
  refine ⟨t, lower, built, up, slot, layout, inherited.trans (Option.some.inj length), ?_⟩
  exact fun f mem index => (keeps "x" _ slot f).1 ⟨mem, index⟩

end Program

end ObjectBackend
