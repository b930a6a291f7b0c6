import ObjectBackend.Proofs.Image.Neat
import ObjectBackend.Proofs.Image.Tags
import ObjectBackend.Proofs.Lowering.Uncommented

/-!
# Modules with and without comments

Comments only add lines. A program is compiled with comments if and only if it is compiled without,
and the module without comments is the one with comments less the lines that are comments in
functions (`compile_withoutComments`). The entries of the two modules differ in the functions of
methods alone (`Backend.entries_alike`), and by comments (`Backend.entries_uncommented`).
-/

namespace List

/-- Results that are changed afterwards are changed in the list of all results. -/
lemma mapM_map_result {m : Type → Type} [Monad m] [LawfulMonad m] {α β γ : Type} (f : α → m β)
    (h : β → γ) (xs : List α) : xs.mapM (fun x => h <$> f x) = map h <$> xs.mapM f := by
  induction xs with
  | nil => simp
  | cons x xs ih => simp [ih]

end List

namespace ObjectBackend

open Target Text

namespace Lowering

/-- The entry of a method for which no comments are emitted. -/
lemma method_uncommented (b : Backend) (owner : ClassDef) (m : MethodDef) :
    method b.uncommented owner m = Option.map Entry.uncommented <$> method b owner m := by
  rw [method, method]
  split
  · rfl
  · split
    · rfl
    · cases m.body with
      | none => rfl
      | some body =>
        have code : function (.ofBody b.uncommented owner m body) =
            Function.uncommented <$> function (.ofBody b owner m body) :=
          StateT.ext fun pools => function_uncommented (c := .ofBody b owner m body) pools
        simp only [code, bind_map_left, map_bind, map_pure]
        rfl

end Lowering

namespace Backend

variable {b : Backend} {c : ClassDef} {p : Program} {settings : Settings} {es : List (Entry Label)}
  {pools pools' : Pools}

/-- The methods of a class for which no comments are emitted. -/
lemma methods_uncommented (b : Backend) (c : ClassDef) :
    b.uncommented.methods c = List.map Entry.uncommented <$> b.methods c := by
  have each : c.methods.mapM (Lowering.method b.uncommented c) =
      List.map (Option.map Entry.uncommented) <$> c.methods.mapM (Lowering.method b c) := by
    rw [← List.mapM_map_result, ← funext (Lowering.method_uncommented b c)]
  have entries (made : List (Option (Entry Label))) :
      ((made.map (Option.map Entry.uncommented)).reduceOption.flatMap fun e => [e, .blank]) =
        (made.reduceOption.flatMap fun e => [e, .blank]).map Entry.uncommented := by
    rw [List.reduceOption_map, List.flatMap_map, List.map_flatMap]
    rfl
  rw [methods, each, methods]
  simp only [bind_map_left, map_bind, map_pure, entries]

/-- What a module contains before its methods, with the data of its static fields. -/
def beginning (b : Backend) (statics : List (List (Entry Label))) : List (Entry Label) :=
  b.settings.heading
    ++ Environment.prologue ++ [.blank]
    ++ [b.headerType] ++ b.program.sortedClasses.flatMap b.classTypes ++ [.blank]
    ++ statics.flatten ++ [.blank]

/-- What a module contains after its methods. -/
def ending (b : Backend) : Pooled (List (Entry Label)) := do
  let metadata ← b.program.sortedClasses.mapM fun c => (b.metadata c : Pooled (Entry Label))
  let main ← b.main
  let pools ← get
  let literals ← pools.literals.entries b.program b.settings.stringClass b.settings.charsField
  return b.initializers
    ++ metadata ++ b.arrayMetadata ++ [.blank]
    ++ b.program.sortedClasses.flatMap b.fieldTable ++ [b.stackRoots, .blank]
    ++ main
    ++ literals ++ [.blank]
    ++ pools.sites.entries ++ [.blank]
    ++ Environment.epilogue

/-- The entries of a module are those before the methods, the methods and those after them. -/
lemma entries_eq (b : Backend) : b.entries = do
    let statics ← b.program.sortedClasses.mapM ClassDef.staticEntries
    let methods ← b.program.sortedClasses.mapM b.methods
    let after ← b.ending
    return b.beginning statics ++ methods.flatten ++ after := by
  simp only [entries, ending, beginning, bind_assoc, pure_bind, List.append_assoc]

/-- Some entries are those of others without comments, apart from entries that are the same. -/
def Sheds (r r' : List (Entry Label) × Pools) : Prop :=
  r'.2 = r.2 ∧ ∃ before methods after, r.1 = before ++ methods ++ after ∧
    r'.1 = before ++ methods.map Entry.uncommented ++ after

/-- With or without comments, the same entries are emitted before and after those of the methods. -/
lemma entries_alike (b : Backend) (pools : Pools) :
    Except.Alike Sheds (b.entries.run pools) (b.uncommented.entries.run pools) := by
  have all : b.program.sortedClasses.mapM b.uncommented.methods =
      List.map (List.map Entry.uncommented) <$> b.program.sortedClasses.mapM b.methods := by
    rw [← List.mapM_map_result, ← funext b.methods_uncommented]
  have same : b.uncommented.entries = do
      let statics ← b.program.sortedClasses.mapM ClassDef.staticEntries
      let methods ← b.program.sortedClasses.mapM b.methods
      let after ← b.ending
      return b.beginning statics ++ methods.flatten.map Entry.uncommented ++ after := by
    rw [entries_eq]
    change (_ >>= fun statics => b.program.sortedClasses.mapM b.uncommented.methods >>= _) = _
    rw [all]
    simp only [bind_map_left, List.map_flatten]
    rfl
  rw [entries_eq, same]
  refine .bind_same fun statics _ => .bind_same fun methods _ => .bind_same fun after _ => .ok ?_
  exact ⟨rfl, _, _, _, rfl, rfl⟩

/-- A module that is emitted without comments has none. -/
lemma uncommented_of_mem (off : b.settings.comments = false)
    (emitted : b.entries.run pools = .ok (es, pools')) {e : Entry Label} (mem : e ∈ es) :
    e.uncommented = e := by
  have same : b.uncommented = b := by rw [uncommented, ← off]
  cases e with
  | define f =>
    refine congrArg Entry.define ?_
    rcases isMethod_or_isAuxiliary emitted mem with
      ⟨body, c, _, m, _, given, pools₁, pools₂, lowered⟩ | auxiliary
    · have sameContext : (Lowering.Context.ofBody b c m body).uncommented = .ofBody b c m body :=
        congrArg (Lowering.Context.ofBody · c m body) same
      have bare := Lowering.function_uncommented (c := .ofBody b c m body) pools₁
      rw [sameContext, Lowering.function_of_method given lowered] at bare
      exact (Prod.mk.inj (Except.ok.inj bare)).1.symm
    · exact auxiliary.isBare.uncommented_eq
  | _ => rfl

/-- The entries that are emitted without comments are those that are emitted with comments, without
the comments. -/
lemma entries_uncommented (b : Backend) (pools : Pools) : b.uncommented.entries.run pools =
    (b.entries.run pools).map fun r => (r.1.map Entry.uncommented, r.2) := by
  refine Except.Alike.eq_map ((entries_alike b pools).imp ?_)
  rintro ⟨es, pools₁⟩ ⟨es', pools₂⟩ _ emitted ⟨same, before, methods, after, whole, whole'⟩
  dsimp only at same whole whole'
  subst same whole whole'
  have bare (e : Entry Label) := uncommented_of_mem (e := e) rfl emitted
  simp only [List.mem_append, or_imp, forall_and] at bare
  obtain ⟨⟨bareBefore, _⟩, bareAfter⟩ := bare
  have fixed {es : List (Entry Label)} (bare : ∀ e ∈ es, e.uncommented = e) :
      es.map Entry.uncommented = es :=
    (List.map_congr_left bare).trans (List.map_id es)
  rw [List.map_append, List.map_append, fixed bareBefore, fixed bareAfter]

end Backend

/-- Comments are additional lines. A program is compiled without comments if and only if it is
compiled with comments, with the same error otherwise, and its module is then the one with comments
less every line that starts as comments in functions do: two blanks, a semicolon, a blank. The texts
that the module is headed with have to stay on their lines. -/
theorem Program.compile_withoutComments (p : Program) {settings : Settings}
    (lines : settings.HasLines) :
    p.compile { settings with comments := false } =
      (p.compile { settings with comments := true }).map (withoutLines startsComment) := by
  have build : Backend.ofProgram p { settings with comments := false } =
      (Backend.ofProgram p { settings with comments := true }).map Backend.uncommented := by
    rw [Backend.ofProgram, Backend.ofProgram]
    exact Except.Alike.eq_map (.bind_same fun _ _ => .bind_same fun _ _ => .bind_same fun _ _ =>
      .ok rfl)
  rw [compile, compile, build]
  cases built : Backend.ofProgram p { settings with comments := true } with
  | error => rfl
  | ok b =>
    change (b.uncommented.entries.run .empty >>= _) = Except.map _ (b.entries.run .empty >>= _)
    rw [b.entries_uncommented]
    cases emitted : b.entries.run .empty with
    | error => rfl
    | ok r =>
      have same : b.settings = { settings with comments := true } := Backend.settings_eq built
      have own : b.settings.HasLines :=
        same ▸ ⟨lines.moduleName, lines.targetTriple, lines.dataLayout⟩
      have leaves := Backend.entries_leavesOut own built emitted
      exact congrArg Except.ok (leaves.withoutLines_eq rfl).symm

/-- Whether there are comments in the functions that entries define. -/
def Backend.anyComment (es : List (Entry Label)) : Bool :=
  (functions es).any fun f => f.blocks.any fun b => b.lines.any Line.isComment

set_option maxRecDepth 1024 in
/-- The method of the clock is described by comments, and without them the module is the same. -/
theorem clock_compile_withoutComments :
    ∃ es, Backend.anyComment es = true ∧
      Lowering.clockProgram.compile { Settings.default with comments := true } =
        .ok (moduleText es) ∧
      Lowering.clockProgram.compile { Settings.default with comments := false } =
        .ok (withoutLines startsComment (moduleText es)) := by
  have lines : Settings.default.HasLines := ⟨by decide, nofun, nofun⟩
  have computed : ((Backend.ofProgram Lowering.clockProgram
      { Settings.default with comments := true }).toOption.bind fun b =>
        (b.entries.run .empty).toOption.map fun r => Backend.anyComment r.1) = some true := by
    cbv
  obtain ⟨b, ⟨es, pools⟩, built, emitted, commented⟩ := Except.exists_of_toOption_bind_map computed
  have compiled : Lowering.clockProgram.compile { Settings.default with comments := true } =
      .ok (moduleText es) := by
    rw [Program.compile, built]
    change (b.entries.run .empty >>= _) = _
    rw [emitted]
    rfl
  refine ⟨es, commented, compiled, ?_⟩
  rw [Lowering.clockProgram.compile_withoutComments lines, compiled]
  rfl

end ObjectBackend
