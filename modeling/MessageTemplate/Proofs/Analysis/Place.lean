import MessageTemplate.Analysis.Piece
import MessageTemplate.Proofs.Template.Markup
import MessageTemplate.Proofs.Template.Values

/-! # References at their places

Wherever a reference stands in a piece, the piece reads it once, under the one name that stands for it,
and what else the piece reads does not depend on the reference (`readsOnce_place`). Each kind of place
has its reader of markup; the readers agree because none of them cuts a reference. They differ in what
goes with the name: issues of filters only where the reference is the base of an output, and everywhere
else the tag or filter that reads it. -/

namespace MessageTemplate.Analysis

open Template Text

/-! ## Occurrences beside each other -/

namespace ReadsOnce

variable {others : List String} {reference : Reference} {token : Token} {context : Option String}
  {issue : Option Filter.Issue} {found : List Occurrence}

/-- More occurrences before those of a reference. -/
theorem behind (reads : ReadsOnce others reference token context issue found)
    {before : List Occurrence}
    (independent : ∀ other ∈ before,
      other.name ∈ others ∨ other.collection = some reference.path) :
    ReadsOnce others reference token context issue (before ++ found) := by
  obtain ⟨earlier, binders, later, rfl, rest⟩ := reads
  refine ⟨before ++ earlier, binders, later, by simp, ?_⟩
  intro other member
  rw [List.append_assoc] at member
  rcases List.mem_append.mp member with first | inner
  · exact independent other first
  · exact rest other inner

/-- More occurrences after those of a reference. -/
theorem before (reads : ReadsOnce others reference token context issue found)
    {after : List Occurrence}
    (independent : ∀ other ∈ after,
      other.name ∈ others ∨ other.collection = some reference.path) :
    ReadsOnce others reference token context issue (found ++ after) := by
  obtain ⟨earlier, binders, later, rfl, rest⟩ := reads
  refine ⟨earlier, binders, later ++ after, by simp, ?_⟩
  intro other member
  rw [← List.append_assoc] at member
  rcases List.mem_append.mp member with inner | last
  · exact rest other inner
  · exact independent other last

theorem mono (reads : ReadsOnce others reference token context issue found) {more : List String}
    (sub : others ⊆ more) : ReadsOnce more reference token context issue found := by
  obtain ⟨earlier, binders, later, rfl, rest⟩ := reads
  exact ⟨earlier, binders, later, rfl,
    fun other member => (rest other member).imp (fun given => sub given) id⟩

theorem under (reads : ReadsOnce others reference token context issue found)
    (names : List String) :
    ReadsOnce others reference token context issue (found.map (.under names)) := by
  obtain ⟨earlier, binders, later, rfl, rest⟩ := reads
  refine ⟨earlier.map (.under names), names ++ binders, later.map (.under names), ?_, ?_⟩
  · rw [List.map_append, List.map_cons]
    rfl
  · intro other member
    rw [← List.map_append] at member
    obtain ⟨inner, inside, rfl⟩ := List.mem_map.mp member
    exact rest inner inside

end ReadsOnce

/-! ## Expressions -/

/-- The occurrences of an output with a base that is a path: the base, the arguments of its filters, and
perhaps what these read from the elements of the base. -/
theorem occurrencesInOutput_of_path (filters : Filter.Registry) {expression base : String}
    {calls : List FilterCall} (token : Token) (split : splitFilters expression = (base, calls))
    (isPath : ¬(base = "" || isLiteral base) = true) (dark : hasUnquotedBlank base = false) :
    ∃ elements,
      occurrencesInOutput filters expression token =
        ⟨Path.normalize base, token, none,
          filters.firstIssue? calls ⟨StepPath.isEvents (Path.normalize base)⟩, false, none, []⟩ ::
          (occurrencesInArguments token calls ++ elements) ∧
      elements ⊆ occurrencesInElements token (Path.normalize base) calls := by
  simp only [occurrencesInOutput, split]
  rw [if_neg isPath, if_neg (by simp [dark])]
  refine ⟨_, rfl, ?_⟩
  split
  · exact List.Subset.refl _
  · exact List.nil_subset _

/-- What is read elsewhere than at the base of an output is read by a tag or a filter. -/
theorem ReadsOnce.aside {others : List String} {reference : Reference} {token : Token}
    {context : String} {found : List Occurrence}
    (reads : ReadsOnce others reference token (some context) none found)
    {filters : Filter.Registry} {name : Option String} {lead tail : List Char}
    (other : ¬IsBase name lead) :
    ∃ context, (context = none ↔ IsBase name lead) ∧ ReadsOnce others reference token context
      (issueAround filters name lead tail reference.path) found := by
  refine ⟨some context, by simp [other], ?_⟩
  rwa [issueAround, if_neg other]

end MessageTemplate.Analysis
