import MessageTemplate.Analysis.Piece
import MessageTemplate.Proofs.Template.Progress
import MessageTemplate.Proofs.Template.Writing

/-! # Every piece that is kept is read

The occurrences in a tree are those in its pieces: what a piece reads by itself stands among what the
tree reads, under the names that are bound around the piece (`Body.partOf`). The induction follows the
derivation of the tree, since it is the derivation that connects the fields of a node with the markup of
its tags. -/

namespace MessageTemplate.Analysis

open Template

/-! ## Occurrences among others -/

namespace PartOf

variable {part inner whole : List Occurrence}

theorem refl (part : List Occurrence) : PartOf part part :=
  ⟨[], [], [], by
    rw [List.nil_append, List.append_nil]
    exact (List.map_id part).symm⟩

theorem nil (whole : List Occurrence) : PartOf [] whole :=
  ⟨whole, [], [], by simp⟩

theorem append_left (isPart : PartOf part whole) (after : List Occurrence) :
    PartOf part (whole ++ after) := by
  obtain ⟨before, binders, behind, rfl⟩ := isPart
  exact ⟨before, binders, behind ++ after, by simp⟩

theorem append_right (isPart : PartOf part whole) (before : List Occurrence) :
    PartOf part (before ++ whole) := by
  obtain ⟨front, binders, after, rfl⟩ := isPart
  exact ⟨before ++ front, binders, after, by simp⟩

theorem under (isPart : PartOf part whole) (names : List String) :
    PartOf part (whole.map (.under names)) := by
  obtain ⟨before, binders, after, rfl⟩ := isPart
  have composed : Occurrence.under names ∘ Occurrence.under binders =
      Occurrence.under (names ++ binders) := by
    funext found
    simp [Occurrence.under]
  exact ⟨before.map (.under names), names ++ binders, after.map (.under names), by
    simp [composed]⟩

theorem trans (isPart : PartOf part inner) (among : PartOf inner whole) : PartOf part whole := by
  obtain ⟨before, binders, after, rfl⟩ := among
  exact ((isPart.under binders).append_right before).append_left after

theorem of_mem {α : Type} {found : List α} {one : α} (member : one ∈ found)
    (occurrences : α → List Occurrence) : PartOf (occurrences one) (found.flatMap occurrences) := by
  obtain ⟨before, after, rfl⟩ := List.append_of_mem member
  rw [List.flatMap_append, List.flatMap_cons]
  exact ((refl _).append_left _).append_right _

end PartOf

/-! ## Blocks -/

variable {filters : Filter.Registry}

/-- The names that a branch of a conditional reads. -/
def occurrencesInBranch (filters : Filter.Registry) (kind : ConditionalKind)
    (branch : Branch Node) : List Occurrence :=
  branch.condition.toList.flatMap (occurrencesInExpression kind.tagName branch.token) ++
    occurrencesInAll filters branch.body

theorem occurrencesInBranches_eq (kind : ConditionalKind) (branches : List (Branch Node)) :
    occurrencesInBranches filters kind branches =
      branches.flatMap (occurrencesInBranch filters kind) := by
  induction branches with
  | nil => rw [occurrencesInBranches]; rfl
  | cons branch rest ih => rw [occurrencesInBranches, List.flatMap_cons, ih, occurrencesInBranch]

/-- The names that a branch of a case distinction reads. -/
def occurrencesInWhen (filters : Filter.Registry) (branch : When Node) : List Occurrence :=
  ((branch.values.filter fun value => !isLiteral value).flatMap
      (occurrencesInExpression "when" branch.token)) ++
    occurrencesInAll filters branch.body

theorem occurrencesInWhens_eq (whens : List (When Node)) :
    occurrencesInWhens filters whens = whens.flatMap (occurrencesInWhen filters) := by
  induction whens with
  | nil => rw [occurrencesInWhens]; rfl
  | cons branch rest ih => rw [occurrencesInWhens, List.flatMap_cons, ih, occurrencesInWhen]

/-- Whether what the tag of a clause reads, and what its body reads, is read. -/
def ReadsClause (filters : Filter.Registry) (whole : List Occurrence) (clause : Clause Node) :
    Prop :=
  (∃ kind, PartOf (occurrencesInTag filters kind clause.tag) whole) ∧
    PartOf (occurrencesInAll filters clause.body) whole

theorem occurrencesInTag_else {kind : ConditionalKind} {tag : Tag} (name : tag.name = "else") :
    occurrencesInTag filters kind tag = [] := by
  simp only [occurrencesInTag, name]
  rfl

end MessageTemplate.Analysis

namespace MessageTemplate.Template

open Analysis

variable {filters : Filter.Registry}

theorem occurrencesInTag_of_standsAlone {kind : ConditionalKind} {tag : Tag}
    (alone : standsAlone tag.name = true) :
    occurrencesInTag filters kind tag =
      if tag.name = "cycle" then occurrencesInExpression "cycle" tag.token tag.markup else [] := by
  obtain ⟨free, own⟩ := standsAlone_iff.mp alone
  unfold occurrencesInTag
  split
  case h_10 name => rw [if_pos name]
  case h_11 other => rw [if_neg other]
  case h_5 name => rw [name] at free; contradiction
  case h_7 name => rw [name] at free; contradiction
  all_goals
    next name => simp [name] at own

/-- The tag of a last clause reads nothing. -/
theorem IsLast.reads {last : List (Clause Node)} (isLast : IsLast last) {whole : List Occurrence}
    (bodies : PartOf (occurrencesInAll filters (last.flatMap Clause.body)) whole) :
    ∀ clause ∈ last, ReadsClause filters whole clause := by
  cases isLast with
  | none => exact fun clause member => absurd member List.not_mem_nil
  | otherwise name =>
    intro clause member
    obtain rfl := List.mem_singleton.mp member
    rw [List.flatMap_singleton] at bodies
    exact ⟨⟨.positive, by rw [occurrencesInTag_else name]; exact .nil whole⟩, bodies⟩

theorem Clause.reads_conditioned {kind : ConditionalKind} {clause : Clause Node}
    (tag : OpensConditional kind clause.tag ∨ OpensElsif clause.tag) {whole : List Occurrence}
    (isPart : PartOf (occurrencesInBranch filters kind clause.conditioned) whole) :
    ReadsClause filters whole clause := by
  have same : occurrencesInTag filters kind clause.tag =
      occurrencesInExpression kind.tagName clause.tag.token clause.tag.markup := by
    rcases tag with opens | further
    · simp only [occurrencesInTag, opens.1]
      cases kind <;> rfl
    · simp only [occurrencesInTag, further.1]
  have branch : occurrencesInBranch filters kind clause.conditioned =
      occurrencesInTag filters kind clause.tag ++ occurrencesInAll filters clause.body := by
    rw [same]
    simp [occurrencesInBranch, Clause.conditioned]
  rw [branch] at isPart
  exact ⟨⟨kind, ((PartOf.refl _).append_left _).trans isPart⟩,
    ((PartOf.refl _).append_right _).trans isPart⟩

theorem Clause.reads_when {clause : Clause Node} (opens : OpensWhen clause.tag)
    {whole : List Occurrence} (isPart : PartOf (occurrencesInWhen filters clause.when) whole) :
    ReadsClause filters whole clause := by
  have branch : occurrencesInWhen filters clause.when =
      occurrencesInTag filters .positive clause.tag ++ occurrencesInAll filters clause.body := by
    simp only [occurrencesInTag, opens.1]
    rfl
  rw [branch] at isPart
  exact ⟨⟨.positive, ((PartOf.refl _).append_left _).trans isPart⟩,
    ((PartOf.refl _).append_right _).trans isPart⟩

/-- The branches of a conditional read what their clauses read. -/
theorem reads_branches {kind : ConditionalKind} {clauses last : List (Clause Node)}
    (headed : Headed (OpensConditional kind) OpensElsif (clauses.map Clause.tag))
    (isLast : IsLast last) :
    ∀ clause ∈ clauses ++ last, ReadsClause filters ((clauses.map Clause.conditioned ++
      last.map Clause.unconditioned).flatMap (occurrencesInBranch filters kind)) clause := by
  intro clause member
  rcases List.mem_append.mp member with inside | behind
  · exact Clause.reads_conditioned (headed.or_of_mem _ (List.mem_map_of_mem inside))
      (PartOf.of_mem (List.mem_append_left _ (List.mem_map_of_mem inside)) _)
  · refine isLast.reads ?_ clause behind
    rw [List.flatMap_append]
    refine PartOf.append_right ?_ _
    cases isLast with
    | none => exact .nil _
    | otherwise name => simpa [occurrencesInBranch, Clause.unconditioned] using PartOf.refl _

/-- The node that a block stands for reads what its clauses read. Nothing is read before the first branch
of a case distinction. -/
theorem BlockRule.reads (filters : Filter.Registry) {first : Clause Node}
    {further : List (Clause Node)} {node : Node} (rule : BlockRule (first :: further) node) :
    (∃ kind, PartOf (occurrencesInTag filters kind first.tag) (occurrences filters node)) ∧
      (first.tag.name ≠ "case" →
        PartOf (occurrencesInAll filters first.body) (occurrences filters node)) ∧
      ∀ clause ∈ further, ReadsClause filters (occurrences filters node) clause := by
  generalize given : first :: further = clauses at rule
  cases rule with
  | @conditional kind clauses last headed isLast =>
    rw [occurrences, occurrencesInBranches_eq]
    have reads : ∀ clause ∈ clauses ++ last, ReadsClause filters _ clause :=
      reads_branches headed isLast
    rw [← given] at reads
    obtain ⟨⟨tag, body⟩, further⟩ := List.forall_mem_cons.mp reads
    exact ⟨tag, fun _ => body, further⟩
  | @loop kind header _ _ opens isLast =>
    obtain ⟨rfl, rfl⟩ := List.cons.inj given
    rw [occurrences, List.append_assoc]
    refine ⟨⟨.positive, ?_⟩, fun _ => ?_, isLast.reads ?_⟩
    · rw [occurrencesInTag_loop opens.1 opens.2]
      exact (PartOf.refl _).append_left _
    · exact (((PartOf.refl _).under _).append_left _).append_right _
    · exact ((PartOf.refl _).append_right _).append_right _
  | @case _ whens last opens branches isLast =>
    obtain ⟨rfl, rfl⟩ := List.cons.inj given
    have same : occurrencesInTag filters .positive first.tag =
        occurrencesInExpression "case" first.tag.token first.tag.markup := by
      simp only [occurrencesInTag, opens.1]
    rw [occurrences, occurrencesInWhens_eq, List.append_assoc]
    refine ⟨⟨.positive, ?_⟩, fun other => absurd opens.1 other, fun clause member => ?_⟩
    · rw [same]
      exact (PartOf.refl _).append_left _
    · rcases List.mem_append.mp member with inside | behind
      · have branch : clause.when ∈ whens.map Clause.when := List.mem_map_of_mem inside
        have isPart := PartOf.of_mem branch (occurrencesInWhen filters)
        exact clause.reads_when (branches clause inside)
          ((isPart.append_left _).append_right _)
      · exact isLast.reads (((PartOf.refl _).append_right _).append_right _) clause behind
  | @capture _ target opens =>
    obtain ⟨rfl, rfl⟩ := List.cons.inj given
    have nothing : occurrencesInTag filters .positive first.tag = [] := by
      simp only [occurrencesInTag, opens.1]
      rfl
    rw [occurrences]
    refine ⟨⟨.positive, ?_⟩, fun _ => (PartOf.refl _).under _, by simp⟩
    rw [nothing]
    exact .nil _

/-! ## Derivations -/

/-- Clauses whose bodies read what the pieces that are kept of their phrases read. -/
def ReadsEach (filters : Filter.Registry) : List (Clause Phrase) → List (Clause Node) → Prop :=
  List.Forall₂ fun clause read => clause.tag = read.tag ∧ ∀ piece ∈ keptOfAll clause.body,
    ∃ kind, PartOf (occurrencesInPiece filters kind piece) (occurrencesInAll filters read.body)

/-- The pieces that are kept of clauses are read if the clauses are. -/
theorem ReadsEach.kept {clauses : List (Clause Phrase)} {read : List (Clause Node)}
    (reads : ReadsEach filters clauses read) {whole : List Occurrence}
    (each : ∀ clause ∈ read, ReadsClause filters whole clause) (hidden : Bool) :
    ∀ piece ∈ keptOfClauses hidden clauses,
      ∃ kind, PartOf (occurrencesInPiece filters kind piece) whole := by
  induction reads with
  | nil => exact fun piece member => absurd member List.not_mem_nil
  | @cons clause one rest others same more ih =>
    obtain ⟨first, further⟩ := List.forall_mem_cons.mp each
    obtain ⟨⟨kind, tag⟩, body⟩ := first
    obtain ⟨named, inside⟩ := same
    intro piece member
    rw [keptOfClauses, named] at member
    rcases List.mem_append.mp member with here | later
    · rcases List.mem_append.mp here with head | inner
      · split at head
        · contradiction
        · rw [List.mem_singleton.mp head]
          exact ⟨kind, tag⟩
      · obtain ⟨kind, isPart⟩ := inside piece inner
        exact ⟨kind, isPart.trans body⟩
    · exact ih further piece later

mutual

/-- A node reads the pieces that are kept of its phrase. -/
theorem Item.partOf {phrase : Phrase} {node : Node} (item : Item phrase node) :
    ∀ piece ∈ phrase.kept,
      ∃ kind, PartOf (occurrencesInPiece filters kind piece) (occurrences filters node) := by
  intro piece member
  cases item with
  | text =>
    rw [List.mem_singleton.mp member]
    exact ⟨.positive, .nil _⟩
  | output =>
    rw [List.mem_singleton.mp member, occurrences]
    exact ⟨.positive, .refl _⟩
  | @tag tag alone =>
    rw [List.mem_singleton.mp member, occurrences]
    refine ⟨.positive, ?_⟩
    rw [occurrencesInPiece, occurrencesInTag_of_standsAlone alone]
    exact .refl _
  | assign name read =>
    rw [List.mem_singleton.mp member, occurrences]
    refine ⟨.positive, ?_⟩
    simp only [occurrencesInPiece, occurrencesInTag, name, read]
    exact .refl _
  | echo name =>
    rw [List.mem_singleton.mp member, occurrences]
    refine ⟨.positive, ?_⟩
    simp only [occurrencesInPiece, occurrencesInTag, name]
    exact .refl _
  | @block opening closing body further clauses node derived rule name =>
    have reads := derived.readsEach
    cases reads with
    | @cons _ first _ others one more =>
      obtain ⟨same, kept⟩ := one
      obtain rfl : opening = first.tag := same
      obtain ⟨⟨kind, tag⟩, inside, behind⟩ := BlockRule.reads filters rule
      rw [Phrase.kept] at member
      rcases List.mem_cons.mp member with rfl | member
      · exact ⟨kind, tag⟩
      · rcases List.mem_append.mp member with inner | later
        · split at inner
          · contradiction
          · next other =>
            obtain ⟨kind, isPart⟩ := kept piece inner
            exact ⟨kind, isPart.trans (inside other)⟩
        · exact ReadsEach.kept more behind _ piece later

/-- Nodes read the pieces that are kept of their phrases. -/
theorem Body.partOf {phrases : List Phrase} {nodes : List Node} (body : Body phrases nodes) :
    ∀ piece ∈ keptOfAll phrases,
      ∃ kind, PartOf (occurrencesInPiece filters kind piece) (occurrencesInAll filters nodes) := by
  intro piece member
  cases body with
  | nil => exact absurd member List.not_mem_nil
  | cons item rest =>
    rw [occurrencesInAll]
    rcases List.mem_append.mp member with here | later
    · obtain ⟨kind, isPart⟩ := item.partOf piece here
      exact ⟨kind, isPart.append_left _⟩
    · obtain ⟨kind, isPart⟩ := rest.partOf piece later
      exact ⟨kind, (isPart.under _).append_right _⟩

theorem Clauses.readsEach {clauses : List (Clause Phrase)} {read : List (Clause Node)}
    (derived : Clauses clauses read) : ReadsEach filters clauses read := by
  cases derived with
  | nil => exact .nil
  | cons body rest => exact .cons ⟨rfl, body.partOf⟩ rest.readsEach

end

end MessageTemplate.Template
