import Mathlib.Data.List.Perm.Basic
import Mathlib.Tactic.Lemma
import ObjectBackend.Lowering.Emit
import ObjectBackend.Proofs.Target.Tidy

/-!
# Listings

Emitted code as one sequence of lines and block starts. Splitting a block inserts the new part right
behind it, so code that is emitted later always comes later in the function too, and what a piece of
code adds to a function is a listing that is put at the end of what there is. `closed` and `last`
turn a listing back into blocks: those that are left behind, and the one that lines go to.

The other functions read off a listing what the blocks have in common: their labels, the edges
between them, and where the values of their phis come from. All of them go over to the concatenation
of two listings, given the label that the first one ends in.
-/

namespace ObjectBackend

open Target

/-- The blocks that edges lead from to a label, each as often as it has such an edge. -/
def sourcesTo (target : Label) (edges : List (Label × Label)) : List Label :=
  (edges.filter fun e => e.2 = target).map Prod.fst

/-- The sources of edges are those of the first ones and those of the others. -/
lemma sourcesTo_append (target : Label) (es fs : List (Label × Label)) :
    sourcesTo target (es ++ fs) = sourcesTo target es ++ sourcesTo target fs := by
  rw [sourcesTo, List.filter_append, List.map_append, sourcesTo, sourcesTo]

/-- Edges to other labels have no sources for a label. -/
lemma sourcesTo_eq_nil {target : Label} {es : List (Label × Label)}
    (other : ∀ e ∈ es, e.2 ≠ target) : sourcesTo target es = [] := by
  rw [sourcesTo, List.map_eq_nil_iff, List.filter_eq_nil_iff]
  intro e mem
  rw [decide_eq_true_eq]
  exact other e mem

/-- Edges from some sources to a label have just these. -/
lemma sourcesTo_map_self (target : Label) (sources : List Label) :
    sourcesTo target (sources.map (·, target)) = sources := by
  rw [sourcesTo, List.filter_eq_self.2, List.map_map]
  · exact List.map_id sources
  · rintro _ mem
    obtain ⟨_, _, rfl⟩ := List.mem_map.1 mem
    exact decide_eq_true rfl

/-- The edges of one block to a label: one for each time that it is named. -/
lemma sourcesTo_map_const (target source : Label) (targets : List Label) :
    sourcesTo target (targets.map (source, ·)) =
      List.replicate (targets.count target) source := by
  induction targets with
  | nil => rfl
  | cons l ls ih =>
    rw [sourcesTo, List.map_cons, List.filter_cons, List.count_cons]
    by_cases eq : l = target
    · rw [if_pos (decide_eq_true eq), List.map_cons, ← sourcesTo, ih, beq_iff_eq.2 eq, if_pos rfl]
      rfl
    · rw [if_neg (by simpa using eq), ← sourcesTo, ih, beq_false_of_ne eq]
      rfl

/-- Whether a label is that of a part that a block has been split into. -/
def Label.isSplit : Label → Bool
  | split _ _ => true
  | _ => false

/-- A block of a function under construction. -/
abbrev DraftBlock := Block Label (Source Label)

/-- A line of a function under construction. -/
abbrev DraftLine := Line Label (Source Label)

namespace Lowering

/-- A part of a listing. -/
inductive Item where
  | line (l : DraftLine)
  | start (l : Label)

/-- Emitted code, in the order of the function. -/
abbrev Listing := List Item

namespace Listing

variable {b : DraftBlock} {x y : Listing}

/-- Lines that go to one block. -/
def ofLines (lines : List DraftLine) : Listing := lines.map .line

/-- The blocks that a listing leaves behind, after a block that its first lines go to. -/
def closed (b : DraftBlock) : Listing → List DraftBlock
  | [] => []
  | .line l :: x => closed (b.push l) x
  | .start l :: x => b :: closed ⟨l, []⟩ x

/-- The block that lines go to after a listing. -/
def last (b : DraftBlock) : Listing → DraftBlock
  | [] => b
  | .line l :: x => last (b.push l) x
  | .start l :: x => last ⟨l, []⟩ x

/-- The blocks of a listing that starts in a block. -/
def blocks (b : DraftBlock) (x : Listing) : List DraftBlock := closed b x ++ [last b x]

/-- The labels of the blocks that start in a listing. -/
def labels : Listing → List Label
  | [] => []
  | .line _ :: x => labels x
  | .start l :: x => l :: labels x

/-- The label of the block that a listing ends in, after the one it starts in. -/
def endLabel (ℓ : Label) : Listing → Label
  | [] => ℓ
  | .line _ :: x => endLabel ℓ x
  | .start l :: x => endLabel l x

/-- The edges that a line makes. -/
def lineEdges {σ : Type} (ℓ : Label) : Line Label σ → List (Label × Label)
  | .leave t => t.targets.map (ℓ, ·)
  | _ => []

/-- The edges between blocks, from the block that the listing starts in on. -/
def edges (ℓ : Label) : Listing → List (Label × Label)
  | [] => []
  | .line l :: x => lineEdges ℓ l ++ edges ℓ x
  | .start l :: x => edges l x

/-- Where the values of a line come from, if it is a phi. -/
def lineJoins (ℓ : Label) : DraftLine → List (Label × List (Source Label))
  | .phi _ _ incomings => [(ℓ, incomings.map Prod.snd)]
  | _ => []

/-- The labels of the blocks with phis, and where the values of each phi come from. -/
def joins (ℓ : Label) : Listing → List (Label × List (Source Label))
  | [] => []
  | .line l :: x => lineJoins ℓ l ++ joins ℓ x
  | .start l :: x => joins l x

/-- Whether lines may follow after a listing, given whether they may before it. There is no answer
if a line follows a terminator or a block starts without one. -/
def isOpen? : Bool → Listing → Option Bool
  | s, [] => some s
  | true, .line l :: x => isOpen? (!l.isLeave) x
  | false, .start _ :: x => isOpen? true x
  | false, .line _ :: _ | true, .start _ :: _ => none

-- Each of these functions is a recursion on the first listing, up to where the second one begins.

/-- The blocks that two listings leave behind, one after the other. -/
lemma closed_append (b : DraftBlock) (x y : Listing) :
    closed b (x ++ y) = closed b x ++ closed (last b x) y := by
  induction x generalizing b with
  | nil => rfl
  | cons i x ih =>
    cases i with
    | line l => exact ih (b.push l)
    | start l => exact congrArg (b :: ·) (ih ⟨l, []⟩)

/-- The block that lines go to after two listings. -/
lemma last_append (b : DraftBlock) (x y : Listing) : last b (x ++ y) = last (last b x) y := by
  induction x generalizing b with
  | nil => rfl
  | cons i x ih =>
    cases i with
    | line l => exact ih (b.push l)
    | start l => exact ih ⟨l, []⟩

/-- The labels of two listings, one after the other. -/
lemma labels_append (x y : Listing) : labels (x ++ y) = labels x ++ labels y := by
  induction x with
  | nil => rfl
  | cons i x ih =>
    cases i with
    | line l => exact ih
    | start l => exact congrArg (l :: ·) ih

/-- The labels of listings, one after the other. -/
lemma labels_flatMap {α : Type} (as : List α) (f : α → Listing) :
    labels (as.flatMap f) = as.flatMap fun a => labels (f a) := by
  induction as with
  | nil => rfl
  | cons a as ih => rw [List.flatMap_cons, labels_append, ih, List.flatMap_cons]

/-- The block that two listings end in. -/
lemma endLabel_append (ℓ : Label) (x y : Listing) :
    endLabel ℓ (x ++ y) = endLabel (endLabel ℓ x) y := by
  induction x generalizing ℓ with
  | nil => rfl
  | cons i x ih =>
    cases i with
    | line l => exact ih ℓ
    | start l => exact ih l

/-- The edges of two listings, one after the other. -/
lemma edges_append (ℓ : Label) (x y : Listing) :
    edges ℓ (x ++ y) = edges ℓ x ++ edges (endLabel ℓ x) y := by
  induction x generalizing ℓ with
  | nil => rfl
  | cons i x ih =>
    cases i with
    | line l =>
      rw [List.cons_append, edges, ih, edges, List.append_assoc]
      rfl
    | start l => exact ih l

/-- The joins of two listings, one after the other. -/
lemma joins_append (ℓ : Label) (x y : Listing) :
    joins ℓ (x ++ y) = joins ℓ x ++ joins (endLabel ℓ x) y := by
  induction x generalizing ℓ with
  | nil => rfl
  | cons i x ih =>
    cases i with
    | line l =>
      rw [List.cons_append, joins, ih, joins, List.append_assoc]
      rfl
    | start l => exact ih l

/-- Whether a block is open after two listings, one after the other. -/
lemma isOpen?_append (s : Bool) (x y : Listing) :
    isOpen? s (x ++ y) = (isOpen? s x).bind (isOpen? · y) := by
  induction x generalizing s with
  | nil => rfl
  | cons i x ih =>
    cases i with
    | line l =>
      cases s with
      | true => exact ih _
      | false => rfl
    | start l =>
      cases s with
      | true => rfl
      | false => exact ih true

-- Lines that go to one block.

/-- Lines leave no block behind. -/
lemma closed_ofLines (b : DraftBlock) (lines : List DraftLine) : closed b (ofLines lines) = [] := by
  induction lines generalizing b with
  | nil => rfl
  | cons l lines ih => exact ih (b.push l)

/-- Lines go to the block that they start in. -/
lemma last_ofLines (b : DraftBlock) (lines : List DraftLine) :
    last b (ofLines lines) = ⟨b.label, b.lines ++ lines⟩ := by
  induction lines generalizing b with
  | nil => simp [ofLines, last]
  | cons l lines ih =>
    change last (b.push l) (ofLines lines) = _
    rw [ih]
    simp [Block.push]

/-- Lines before other code go to the block that it starts in, lines after it to the one that it
ends in. -/
lemma closed_between (ls ms : List DraftLine) :
    closed b (ofLines ls ++ x ++ ofLines ms) = closed ⟨b.label, b.lines ++ ls⟩ x := by
  rw [closed_append, closed_append, last_append, closed_ofLines, closed_ofLines, last_ofLines,
    List.append_nil, List.nil_append]

/-- Lines around a listing go to the block it starts in and to the one it ends in. -/
lemma last_between (ls ms : List DraftLine) :
    last b (ofLines ls ++ x ++ ofLines ms) =
      ⟨(last ⟨b.label, b.lines ++ ls⟩ x).label,
        (last ⟨b.label, b.lines ++ ls⟩ x).lines ++ ms⟩ := by
  rw [last_append, last_append, last_ofLines, last_ofLines]

/-- Lines start no block. -/
lemma labels_ofLines (lines : List DraftLine) : labels (ofLines lines) = [] := by
  induction lines with
  | nil => rfl
  | cons l lines ih => exact ih

/-- Lines end in the block that they start in. -/
lemma endLabel_ofLines (ℓ : Label) (lines : List DraftLine) : endLabel ℓ (ofLines lines) = ℓ := by
  induction lines with
  | nil => rfl
  | cons l lines ih => exact ih

/-- Lines that stay in their block leave it open. -/
lemma isOpen?_ofLines {lines : List DraftLine} (stay : ∀ l ∈ lines, l.isLeave = false) :
    isOpen? true (ofLines lines) = some true := by
  induction lines with
  | nil => rfl
  | cons l lines ih =>
    obtain ⟨first, others⟩ := List.forall_mem_cons.1 stay
    change isOpen? (!l.isLeave) (ofLines lines) = _
    rw [first]
    exact ih others

/-- What a listing says of its blocks, they say themselves. -/
lemma labels_blocks (b : DraftBlock) (x : Listing) :
    (blocks b x).map Block.label = b.label :: labels x := by
  induction x generalizing b with
  | nil => rfl
  | cons i x ih =>
    cases i with
    | line l => exact ih (b.push l)
    | start l => exact congrArg (b.label :: ·) (ih ⟨l, []⟩)

/-- The block that lines go to after a listing has the label that the listing ends with. -/
lemma label_last (b : DraftBlock) (x : Listing) : (last b x).label = endLabel b.label x := by
  induction x generalizing b with
  | nil => rfl
  | cons i x ih =>
    cases i with
    | line l => exact ih (b.push l)
    | start l => exact ih ⟨l, []⟩

/-- The edges of a block. -/
def blockEdges {σ : Type} (b : Block Label σ) : List (Label × Label) :=
  b.lines.flatMap (lineEdges b.label)

/-- The edges of the blocks of a listing are those of the first one and of the listing. -/
lemma edges_blocks (b : DraftBlock) (x : Listing) :
    (blocks b x).flatMap blockEdges = blockEdges b ++ edges b.label x := by
  induction x generalizing b with
  | nil => simp [blocks, closed, last, edges]
  | cons i x ih =>
    cases i with
    | line l =>
      refine (ih (b.push l)).trans ?_
      rw [blockEdges, Block.push, List.flatMap_append, List.flatMap_singleton, List.append_assoc]
      rfl
    | start l => exact congrArg (blockEdges b ++ ·) (ih ⟨l, []⟩)

/-- The phis of a block. -/
def blockJoins (b : DraftBlock) : List (Label × List (Source Label)) :=
  b.lines.flatMap (lineJoins b.label)

/-- The joins of the blocks of a listing are those of the first one and of the listing. -/
lemma joins_blocks (b : DraftBlock) (x : Listing) :
    (blocks b x).flatMap blockJoins = blockJoins b ++ joins b.label x := by
  induction x generalizing b with
  | nil => simp [blocks, closed, last, joins]
  | cons i x ih =>
    cases i with
    | line l =>
      refine (ih (b.push l)).trans ?_
      rw [blockJoins, Block.push, List.flatMap_append, List.flatMap_singleton, List.append_assoc]
      rfl
    | start l => exact congrArg (blockJoins b ++ ·) (ih ⟨l, []⟩)

/-- A block that lines may follow in has no terminator; any other one ends with its only one. -/
def Fits (b : DraftBlock) : Bool → Prop
  | true => ∀ l ∈ b.lines, l.isLeave = false
  | false => ∃ lines t, b.lines = lines ++ [.leave t] ∧ ∀ l ∈ lines, l.isLeave = false

/-- A block that lines may follow in is left by a line that leaves. -/
lemma Fits.push {l : DraftLine} (fits : Fits b true) : Fits (b.push l) (!l.isLeave) := by
  cases l with
  | leave t => exact ⟨b.lines, t, rfl, fits⟩
  | _ =>
    intro m mem
    rcases List.mem_append.1 mem with old | new
    · exact fits m old
    · rw [List.mem_singleton.1 new]
      rfl

/-- A block that lines may follow in has no terminator. -/
lemma Fits.isTerminated (fits : Fits b true) : b.isTerminated = false := by
  rw [Block.isTerminated, List.any_eq_false]
  intro l mem
  rw [fits l mem]
  exact Bool.false_ne_true

/-- A listing that has an answer leaves every block with its only terminator at the end. -/
lemma fits_of_isOpen? {s s' : Bool} (fits : Fits b s) (answer : isOpen? s x = some s') :
    (∀ c ∈ closed b x, Fits c false) ∧ Fits (last b x) s' := by
  induction x generalizing b s with
  | nil =>
    obtain rfl : s = s' := Option.some.inj answer
    exact ⟨by simp [closed], fits⟩
  | cons i x ih =>
    cases i with
    | line l =>
      cases s with
      | true => exact ih fits.push answer
      | false => cases answer
    | start l =>
      cases s with
      | true => cases answer
      | false =>
        obtain ⟨others, end'⟩ := ih (b := ⟨l, []⟩) (s := true) (by simp [Fits]) answer
        exact ⟨List.forall_mem_cons.2 ⟨fits, others⟩, end'⟩

/-- The blocks of two listings are those left behind by the first one and those of the second. -/
lemma blocks_append (b : DraftBlock) (x y : Listing) :
    blocks b (x ++ y) = closed b x ++ blocks (last b x) y := by
  rw [blocks, closed_append, last_append, List.append_assoc]
  rfl

/-- The block that a listing starts in only gets longer. -/
lemma exists_prefix_block (b : DraftBlock) (x : Listing) :
    ∃ c ∈ blocks b x, c.label = b.label ∧ b.lines <+: c.lines := by
  induction x generalizing b with
  | nil => exact ⟨b, List.mem_singleton_self b, rfl, List.prefix_rfl⟩
  | cons i x ih =>
    cases i with
    | line l =>
      obtain ⟨c, mem, label, grows⟩ := ih (b.push l)
      exact ⟨c, mem, label, (List.prefix_append ..).trans grows⟩
    | start l => exact ⟨b, List.mem_cons_self .., rfl, List.prefix_rfl⟩

/-- Lines that stand together in a listing stand together in one of its blocks. -/
lemma exists_block_of_infix {lines : List DraftLine} (b : DraftBlock)
    (part : ofLines lines <:+: x) : ∃ c ∈ blocks b x, lines <:+: c.lines := by
  obtain ⟨y, z, rfl⟩ := part
  rw [List.append_assoc, blocks_append, blocks_append, closed_ofLines, last_ofLines]
  -- the block that the lines are put into may go on behind them
  obtain ⟨c, mem, _, grows⟩ :=
    exists_prefix_block ⟨(last b y).label, (last b y).lines ++ lines⟩ z
  refine ⟨c, List.mem_append_right _ mem, ?_⟩
  exact (List.suffix_append _ lines).isInfix.trans grows.isInfix

/-- A listing leaves the stack of frames alone if some registers hold addresses of parts before it.
Blocks know nothing of each other's registers. -/
def Tidy (known : List Local) : Listing → Prop
  | [] => True
  | .line l :: x => l.IsTidy known ∧ Tidy (l.parts known) x
  | .start _ :: x => Tidy [] x

namespace Tidy

variable {known known' : List Local}

/-- A listing leaves the stack alone if more registers hold addresses of parts. -/
lemma mono (subset : known ⊆ known') (tidy : Tidy known x) : Tidy known' x := by
  induction x generalizing known known' with
  | nil => trivial
  | cons i x ih =>
    cases i with
    | line l => exact ⟨tidy.1.mono subset, ih (l.parts_subset subset) tidy.2⟩
    | start l => exact tidy

/-- A listing that leaves the stack alone may be followed by one that does without knowing any
register. -/
lemma append (first : Tidy known x) (second : Tidy [] y) : Tidy known (x ++ y) := by
  induction x generalizing known with
  | nil => exact second.mono (List.nil_subset known)
  | cons i x ih =>
    cases i with
    | line l => exact ⟨first.1, ih first.2⟩
    | start l => exact ih first

/-- A listing of lines leaves the stack alone if they do. -/
lemma ofLines {lines : List DraftLine} (tidy : Line.Tidy known lines) :
    Tidy known (Listing.ofLines lines) := by
  induction lines generalizing known with
  | nil => trivial
  | cons l lines ih => exact ⟨tidy.1, ih tidy.2⟩

/-- The block that a tidy listing starts in gets tidy lines, and all other blocks are tidy. -/
lemma blocks (tidy : Tidy known x) (b : DraftBlock) : ∃ rest others,
    Listing.blocks b x = ⟨b.label, b.lines ++ rest⟩ :: others ∧ Line.Tidy known rest ∧
      ∀ d ∈ others, Line.Tidy [] d.lines := by
  induction x generalizing known b with
  | nil =>
    refine ⟨[], [], ?_, trivial, List.forall_mem_nil _⟩
    rw [List.append_nil]
    rfl
  | cons i x ih =>
    cases i with
    | line l =>
      obtain ⟨rest, others, eq, first, second⟩ := ih tidy.2 (b.push l)
      refine ⟨l :: rest, others, ?_, ⟨tidy.1, first⟩, second⟩
      rw [List.append_cons]
      exact eq
    | start l =>
      obtain ⟨rest, others, eq, first, second⟩ := ih tidy ⟨l, []⟩
      refine ⟨[], Listing.blocks ⟨l, []⟩ x, ?_, trivial, ?_⟩
      · rw [List.append_nil]
        rfl
      · rw [eq]
        exact List.forall_mem_cons.2 ⟨first, second⟩

end Tidy

/-- After code that has left its block there is nothing, or another block starts. -/
lemma eq_nil_or_start {s : Bool} (answer : isOpen? false x = some s) :
    x = [] ∨ ∃ l y, x = .start l :: y := by
  cases x with
  | nil => exact .inl rfl
  | cons i x =>
    cases i with
    | line l => cases answer
    | start l => exact .inr ⟨l, x, rfl⟩

/-- The lines behind the start of a block, up to where it is left, are its lines. -/
lemma mem_blocks_of_start {s : Bool} {lines : List DraftLine} {ℓ : Label} (b : DraftBlock)
    (answer : isOpen? false y = some s) :
    ⟨ℓ, lines⟩ ∈ blocks b (x ++ .start ℓ :: (ofLines lines ++ y)) := by
  have inner : ⟨ℓ, lines⟩ ∈ blocks ⟨ℓ, []⟩ (ofLines lines ++ y) := by
    rw [blocks_append, closed_ofLines, last_ofLines, List.nil_append, List.nil_append]
    rcases eq_nil_or_start answer with rfl | ⟨l, y, rfl⟩
    · exact List.mem_singleton_self _
    · exact List.mem_cons_self ..
  rw [blocks_append]
  exact List.mem_append_right _ (List.mem_cons_of_mem _ inner)

end Listing

end Lowering

end ObjectBackend
