import ObjectBackend.Proofs.Lowering.Region

/-!
# Ways through code

The lines that are met on a way through a listing (`Listing.Path`): a block is left for another one
of the listing, and the way goes on there, or for one elsewhere, and the way ends. A region that no
exception leaves is gone through to its end, whatever listing it is a part of
(`Region.exists_of_path`), and there is a way through it (`Region.exists_path`).
-/

namespace ObjectBackend.Lowering

open Target

namespace Listing

/-- The lines of a listing, those of all its blocks. -/
def lines : Listing → List DraftLine
  | [] => []
  | .line l :: x => l :: lines x
  | .start _ :: x => lines x

/-- The lines of two listings are those of one after the other. -/
lemma lines_append (x y : Listing) : lines (x ++ y) = lines x ++ lines y := by
  induction x with
  | nil => rfl
  | cons i x ih =>
    cases i with
    | line l => exact congrArg (l :: ·) ih
    | start l => exact ih

/-- Lines are the lines of their listing. -/
lemma lines_ofLines (ls : List DraftLine) : lines (ofLines ls) = ls := by
  induction ls with
  | nil => rfl
  | cons l ls ih => exact congrArg (l :: ·) ih

/-- The lines that are met one after the other from the beginning of a part of a listing on, to
where the listing ends or is left. -/
inductive Path (whole : Listing) : Listing → List DraftLine → Prop where
  | done : Path whole [] []
  | stay {l : DraftLine} {y : Listing} {ls : List DraftLine} :
    l.isLeave = false →
    Path whole y ls →
    Path whole (.line l :: y) (l :: ls)
  | jump {t : Term Label} {target : Label} {before after y : Listing} {ls : List DraftLine} :
    target ∈ t.targets →
    whole = before ++ .start target :: after →
    Path whole after ls →
    Path whole (.line (.leave t) :: y) (.leave t :: ls)
  | exit {t : Term Label} {target : Label} {y : Listing} :
    target ∈ t.targets →
    target ∉ labels whole →
    Path whole (.line (.leave t) :: y) [.leave t]
  | stop {t : Term Label} {y : Listing} :
    t.targets = [] →
    Path whole (.line (.leave t) :: y) [.leave t]

variable {whole y : Listing} {l : DraftLine} {ls ms : List DraftLine} {t : Term Label}
  {target : Label}

namespace Path

/-- A path through a line that stays in the block goes on behind it. -/
lemma of_stay (stays : l.isLeave = false) (path : Path whole (.line l :: y) ls) :
    ∃ ms, ls = l :: ms ∧ Path whole y ms := by
  cases path with
  | stay _ path => exact ⟨_, rfl, path⟩
  | jump | exit | stop => cases stays

/-- Lines that go to one block are all met. -/
lemma of_ofLines (stay : ∀ l ∈ ms, l.isLeave = false) (path : Path whole (ofLines ms ++ y) ls) :
    ∃ ls', ls = ms ++ ls' ∧ Path whole y ls' := by
  induction ms generalizing ls with
  | nil => exact ⟨ls, rfl, path⟩
  | cons m ms ih =>
    obtain ⟨first, others⟩ := List.forall_mem_cons.1 stay
    obtain ⟨ls₁, rfl, behind⟩ := of_stay first path
    obtain ⟨ls', rfl, behind'⟩ := ih others behind
    exact ⟨ls', rfl, behind'⟩

end Path

/-- A label starts one block only if no other one starts behind it. -/
lemma not_nodup_labels (target : Label) (x y : Listing) :
    ¬(labels (.start target :: (x ++ .start target :: y))).Nodup := by
  intro nodup
  rw [labels, labels_append] at nodup
  exact (List.nodup_cons.1 nodup).1 (List.mem_append_right _ (List.mem_cons_self ..))

/-- What is behind the start of a block, if no other one starts with its label. -/
lemma eq_of_nodup {before after before' after' : Listing}
    (nodup : (labels (before ++ .start target :: after)).Nodup)
    (same : before ++ .start target :: after = before' ++ .start target :: after') :
    after = after' := by
  induction before generalizing before' with
  | nil =>
    cases before' with
    | nil => exact (List.cons.inj same).2
    | cons i before' =>
      obtain ⟨rfl, rfl⟩ := List.cons.inj same
      exact absurd nodup (not_nodup_labels target before' after')
  | cons i before ih =>
    cases before' with
    | nil =>
      obtain ⟨rfl, rfl⟩ := List.cons.inj same
      exact absurd nodup (not_nodup_labels target before after)
    | cons j before' =>
      apply ih _ (List.cons.inj same).2
      cases i with
      | line l => exact nodup
      | start l => exact (List.nodup_cons.1 nodup).2

/-- A block that is started in a listing has its label there. -/
lemma mem_labels_of_eq {before after : Listing} (there : whole = before ++ .start target :: after) :
    target ∈ labels whole := by
  rw [there, labels_append]
  exact List.mem_append_right _ (List.mem_cons_self ..)

/-- A block that is left for no place outside the listing is left for one of its blocks. -/
lemma Path.of_leave (inside : ∀ target ∈ t.targets, target ∈ labels whole)
    (some : t.targets ≠ []) (path : Path whole (.line (.leave t) :: y) ls) :
    ∃ target before after ms, target ∈ t.targets ∧ whole = before ++ .start target :: after ∧
      ls = .leave t :: ms ∧ Path whole after ms := by
  cases path with
  | stay stays => cases stays
  | jump mem here path => exact ⟨_, _, _, _, mem, here, rfl, path⟩
  | exit mem outside => exact absurd (inside _ mem) outside
  | stop none => exact absurd none some

/-- A block that is left for another one of the listing goes on there. -/
lemma Path.of_br {before after : Listing} (nodup : (labels whole).Nodup)
    (there : whole = before ++ .start target :: after)
    (path : Path whole (.line (.leave (.br target)) :: y) ls) :
    ∃ ms, ls = .leave (.br target) :: ms ∧ Path whole after ms := by
  have inside : ∀ target' ∈ (Term.br target).targets, target' ∈ labels whole := by
    intro _ mem
    rw [List.mem_singleton.1 mem]
    exact mem_labels_of_eq there
  obtain ⟨target', before', after', ms, mem, there', rfl, behind⟩ :=
    path.of_leave inside (List.cons_ne_nil target [])
  obtain rfl := List.mem_singleton.1 mem
  rw [eq_of_nodup (there' ▸ nodup) (there'.symm.trans there)] at behind
  exact ⟨ms, rfl, behind⟩

/-- The lines of code that can be skipped. -/
lemma lines_skippable {ℓ tested : Label} {n : Nat} {x : Listing} {flag skipped result : Value} :
    lines (skippable ℓ tested n t x flag skipped result) = .leave t :: (lines x ++
      [.leave (.br (.split ℓ n)),
        .phi flag .i1 [(skipped, .label ℓ), (result, .label tested)]]) := by
  rw [skippable, lines_append, lines_append]
  rfl

end Listing

namespace Region

open Listing

variable {ℓ ℓ' : Label} {n n' : Nat} {x before after whole : Listing}
  {out : List (Label × Label)} {ls : List DraftLine}

/-- A plain line stays in its block. -/
lemma isLeave_eq_false {l : DraftLine} (plain : l.isPlain = true) : l.isLeave = false := by
  cases l with
  | leave t => cases plain
  | _ => rfl

/-- No two parts that a region splits its block into have the same label. -/
lemma nodup_labels (region : Region ℓ n x ℓ' n' out) : (labels x).Nodup := by
  have nodup := region.contained.nodup
  rwa [List.filter_eq_self.2 fun l mem => region.isSplit_of_mem_labels mem] at nodup

/-- A way that goes into a region which no exception leaves comes out at its end. -/
lemma exists_of_path (region : Region ℓ n x ℓ' n' []) (nodup : (labels whole).Nodup)
    (here : whole = before ++ (x ++ after)) (path : Path whole (x ++ after) ls) :
    ∃ ms ls', ls = ms ++ ls' ∧ ms ⊆ lines x ∧ Path whole after ls' := by
  generalize none : ([] : List (Label × Label)) = out at region
  induction region generalizing before after ls with
  | nil => exact ⟨[], ls, rfl, List.nil_subset _, path⟩
  | @line _ _ l plain =>
    obtain ⟨ms, rfl, behind⟩ := path.of_stay (isLeave_eq_false plain)
    exact ⟨[l], ms, rfl, List.Subset.refl _, behind⟩
  | @append _ _ _ _ _ _ x y _ _ _ _ ih ih' =>
    obtain ⟨none, none'⟩ := List.nil_eq_append_iff.1 none
    rw [List.append_assoc] at here path
    obtain ⟨ms, ls, rfl, within, behind⟩ := ih here path none.symm
    have here' : whole = (before ++ x) ++ (y ++ after) := by
      rw [List.append_assoc]
      exact here
    obtain ⟨ms', ls', rfl, within', behind'⟩ := ih' here' behind none'.symm
    refine ⟨ms ++ ms', ls', (List.append_assoc ..).symm, ?_, behind'⟩
    rw [lines_append]
    exact List.append_subset.2 ⟨List.subset_append_of_subset_left _ within,
      List.subset_append_of_subset_right _ within'⟩
  | @test ℓ tested n n' t x out flag skipped result perm r ih =>
    let phi : DraftLine := .phi flag .i1 [(skipped, .label ℓ), (result, .label tested)]
    let back : Term Label := .br (.split ℓ n)
    -- both targets of the leave are in the listing: the test, and what follows it
    have toTest : whole = (before ++ [.line (.leave t)]) ++ .start (.split ℓ (n + 1)) ::
        (x ++ .line (.leave back) :: .start (.split ℓ n) :: .line phi :: after) := by
      simpa [skippable] using here
    have toRest : whole = (before ++ .line (.leave t) :: .start (.split ℓ (n + 1)) :: x ++
        [.line (.leave back)]) ++ .start (.split ℓ n) :: .line phi :: after := by
      simpa [skippable] using here
    have path : Path whole (.line (.leave t) :: _) ls := path
    have inside : ∀ target ∈ t.targets, target ∈ labels whole := by
      intro target mem
      rcases mem_pair.1 (perm.mem_iff.1 mem) with rfl | rfl
      · exact mem_labels_of_eq toRest
      · exact mem_labels_of_eq toTest
    have some : t.targets ≠ [] := List.ne_nil_of_mem (perm.mem_iff.2 (List.mem_cons_self ..))
    obtain ⟨target, b, a, ms, mem, there, rfl, behind⟩ := path.of_leave inside some
    rcases mem_pair.1 (perm.mem_iff.1 mem) with rfl | rfl
    · -- around the test
      rw [eq_of_nodup (there ▸ nodup) (there.symm.trans toRest)] at behind
      obtain ⟨ls', rfl, behind'⟩ := behind.of_stay rfl
      refine ⟨[.leave t, phi], ls', rfl, ?_, behind'⟩
      rw [lines_skippable]
      exact List.cons_subset_cons _
        (List.subset_append_of_subset_right _ (List.subset_cons_self ..))
    · -- through it
      rw [eq_of_nodup (there ▸ nodup) (there.symm.trans toTest)] at behind
      have inside : whole = (before ++ [.line (.leave t), .start (.split ℓ (n + 1))]) ++
          (x ++ .line (.leave back) :: .start (.split ℓ n) :: .line phi :: after) := by
        simpa using toTest
      obtain ⟨xs, ls₁, rfl, within, behind₁⟩ := ih inside behind none
      obtain ⟨ls₂, rfl, behind₂⟩ := behind₁.of_br nodup toRest
      obtain ⟨ls', rfl, behind'⟩ := behind₂.of_stay rfl
      refine ⟨.leave t :: (xs ++ [.leave back, phi]), ls', by simp [back], ?_, behind'⟩
      rw [lines_skippable]
      exact List.cons_subset_cons _ (List.append_subset.2
        ⟨List.subset_append_of_subset_left _ within, List.subset_append_right _ _⟩)
  | site => cases none

/-- There is a way through a region: around each test, and on behind each call. -/
lemma exists_path (region : Region ℓ n x ℓ' n' out) (here : whole = before ++ (x ++ after))
    (path : Path whole after ls) : ∃ ms, Path whole (x ++ after) (ms ++ ls) := by
  induction region generalizing before after ls with
  | nil => exact ⟨[], path⟩
  | line _ _ plain => exact ⟨[_], .stay (isLeave_eq_false plain) path⟩
  | @append _ _ _ _ _ _ x y _ _ _ _ ih ih' =>
    rw [List.append_assoc] at here
    have here' : whole = (before ++ x) ++ (y ++ after) := by
      rw [List.append_assoc]
      exact here
    obtain ⟨ms', behind'⟩ := ih' here' path
    obtain ⟨ms, behind⟩ := ih here behind'
    rw [← List.append_assoc ms] at behind
    rw [List.append_assoc]
    exact ⟨ms ++ ms', behind⟩
  | @test ℓ tested n n' t x out flag skipped result perm r _ =>
    let phi : DraftLine := .phi flag .i1 [(skipped, .label ℓ), (result, .label tested)]
    have toRest : whole = (before ++ .line (.leave t) :: .start (.split ℓ (n + 1)) :: x ++
        [.line (.leave (.br (.split ℓ n)))]) ++ .start (.split ℓ n) :: .line phi :: after := by
      simpa [skippable] using here
    have mem : .split ℓ n ∈ t.targets := perm.mem_iff.2 (List.mem_cons_self ..)
    exact ⟨[.leave t, phi], .jump mem toRest (.stay rfl path)⟩
  | @site ℓ first n thrown target other =>
    have there : whole = (before ++ [.line (.leave (.condBr thrown target (.split first n)))]) ++
        .start (.split first n) :: after := by
      simpa using here
    exact ⟨[_], .jump (List.mem_cons_of_mem _ (List.mem_singleton_self _)) there path⟩

end Region

end ObjectBackend.Lowering
