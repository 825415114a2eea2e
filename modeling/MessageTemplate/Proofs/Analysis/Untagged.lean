import MessageTemplate.Analysis.Piece
import MessageTemplate.Proofs.Text.Occurs

/-! # Templates without tags

Text and outputs are cut into pieces without a fault (`Laid.pieces`), and without tags every piece is a
node of its own (`build_of_untagged`). So all outputs of such a template are read, and nothing binds a
name in them (`exists_parse_of_laid`). -/

namespace MessageTemplate.Template

open Text Analysis

/-! ## Cutting -/

/-- A text with some outputs and no tags, by the insides of the outputs: characters that do not open
anything, and outputs that end where the first closing delimiter stands. -/
inductive Laid : List Char → List (List Char) → Prop where
  | nil : Laid [] []
  | char {c : Char} {rest : List Char} {insides : List (List Char)} :
      openingAt? (c :: rest) = none → Laid rest insides → Laid (c :: rest) insides
  | output {inside rest : List Char} {insides : List (List Char)} :
      Parts '\x7d' '\x7d' (inside ++ ['\x7d']) → Laid rest insides →
      Laid (Delimiter.output.opening ++ inside ++ Delimiter.output.closing ++ rest)
        (inside :: insides)

theorem openingAt?_eq_none {c : Char} {rest : List Char} :
    openingAt? (c :: rest) = none ↔
      ¬(c = '\x7b' ∧ ∃ d ∈ rest.head?, d = '\x7b' ∨ d = '%') := by
  have output : Delimiter.output.opening.isPrefixOf? (c :: rest) = none ↔ _ :=
    isPrefixOf?_pair_cons
  have tag : Delimiter.tag.opening.isPrefixOf? (c :: rest) = none ↔ _ := isPrefixOf?_pair_cons
  have both : openingAt? (c :: rest) = none ↔
      Delimiter.output.opening.isPrefixOf? (c :: rest) = none ∧
        Delimiter.tag.opening.isPrefixOf? (c :: rest) = none := by
    rw [openingAt?]
    cases Delimiter.output.opening.isPrefixOf? (c :: rest) <;> simp
  rw [both, output, tag]
  grind

/-- Whether a piece is no tag. -/
def Piece.IsUntagged : Piece → Prop
  | .tag _ => False
  | _ => True

theorem textPiece_untagged (content : List Char) :
    ∀ piece ∈ textPiece content, piece.IsUntagged := by
  unfold textPiece
  split <;> simp [Piece.IsUntagged]

/-- An output is cut off with the text before it. -/
theorem piecesFrom_output (position : Nat) {text before inside body rest : List Char}
    (found : findOpening? text = some (before, .output, body))
    (closes : breakOn Delimiter.output.closing body = some (inside, rest)) :
    ∃ token : Token, piecesFrom position text =
      (piecesFrom token.span.stop rest).map fun others =>
        textPiece before ++ [.output (String.ofList (markupOf inside)) token] ++ others := by
  rw [piecesFrom]
  split
  · next none =>
    rw [found] at none
    contradiction
  · next found' =>
    cases found.symm.trans found'
    rw [cutAt, closes]
    exact ⟨_, rfl⟩

namespace Laid

variable {text : List Char} {insides : List (List Char)}

/-- The first opening delimiter is that of the first output. -/
theorem findOpening? (laid : Laid text insides) :
    match insides with
    | [] => Template.findOpening? text = none
    | inside :: others => ∃ before rest, Parts '\x7d' '\x7d' (inside ++ ['\x7d']) ∧
        Laid rest others ∧ Template.findOpening? text =
          some (before, .output, inside ++ Delimiter.output.closing ++ rest) := by
  induction laid with
  | nil => rfl
  | @char c rest insides quiet laid ih =>
    cases insides with
    | nil => simp only [Template.findOpening?, quiet, ih, Option.map_none]
    | cons inside others =>
      obtain ⟨before, behind, parts, further, found⟩ := ih
      refine ⟨c :: before, behind, parts, further, ?_⟩
      simp only [Template.findOpening?, quiet, found, Option.map_some]
  | @output inside rest insides parts laid ih =>
    exact ⟨[], rest, parts, laid, rfl⟩

/-- The text is cut into pieces, among them all outputs and no tags. -/
theorem pieces (laid : Laid text insides) (position : Nat) :
    ∃ found, piecesFrom position text = .ok found ∧ (∀ piece ∈ found, piece.IsUntagged) ∧
      ∀ inside ∈ insides, ∃ token,
        .output (String.ofList (markupOf inside)) token ∈ found := by
  induction insides generalizing position text with
  | nil =>
    refine ⟨textPiece text, ?_, textPiece_untagged text, by simp⟩
    unfold piecesFrom
    split
    · rfl
    · next found =>
      rw [laid.findOpening?] at found
      contradiction
  | cons inside others ih =>
    obtain ⟨before, rest, parts, further, found⟩ := laid.findOpening?
    have closes : breakOn Delimiter.output.closing
        (inside ++ Delimiter.output.closing ++ rest) = some (inside, rest) := by
      rw [List.append_assoc]
      exact parts.breakOn rest
    obtain ⟨token, reads⟩ := piecesFrom_output position found closes
    obtain ⟨more, cut, untagged, outputs⟩ := ih further token.span.stop
    refine ⟨_, by rw [reads, cut]; rfl, fun piece member => ?_, fun inner member => ?_⟩
    · rcases List.mem_append.mp member with here | later
      · rcases List.mem_append.mp here with earlier | one
        · exact textPiece_untagged before piece earlier
        · rw [List.mem_singleton.mp one]
          trivial
      · exact untagged piece later
    · rcases List.mem_cons.mp member with rfl | later
      · exact ⟨token, by simp⟩
      · obtain ⟨other, given⟩ := outputs inner later
        exact ⟨other, List.mem_append_right _ given⟩

end Laid

/-! ## Reading -/

/-- The node that a piece is on its own. -/
def Piece.node : Piece → Node
  | .text content => .text content
  | .output markup token => .output markup token
  | .tag found => .tag found

theorem foldlM_step_of_untagged {pieces : List Piece} (state : Building)
    (untagged : ∀ piece ∈ pieces, piece.IsUntagged) :
    pieces.foldlM Building.step state =
      .ok { state with body := state.body ++ pieces.map Piece.node } := by
  induction pieces generalizing state with
  | nil => rw [List.map_nil, List.append_nil]; rfl
  | cons piece rest ih =>
    obtain ⟨first, others⟩ := List.forall_mem_cons.mp untagged
    have stepped : state.step piece = .ok (state.add piece.node) := by
      cases piece with
      | text => rfl
      | output => rfl
      | tag => exact first.elim
    rw [List.foldlM_cons, stepped]
    change List.foldlM Building.step (state.add piece.node) rest = _
    rw [ih _ others]
    simp [Building.add]

/-- Without tags every piece is a node. -/
theorem build_of_untagged {pieces : List Piece} (untagged : ∀ piece ∈ pieces, piece.IsUntagged) :
    build pieces = .ok (pieces.map Piece.node) := by
  rw [build, foldlM_step_of_untagged .start untagged]
  rfl

/-- Without tags nothing is bound in any piece. -/
theorem occurrencesInAll_of_untagged (filters : Filter.Registry) {pieces : List Piece}
    (untagged : ∀ piece ∈ pieces, piece.IsUntagged) :
    occurrencesInAll filters (pieces.map Piece.node) =
      pieces.flatMap (occurrencesInPiece filters .positive) := by
  induction pieces with
  | nil => rw [List.map_nil, occurrencesInAll]; rfl
  | cons piece rest ih =>
    obtain ⟨first, others⟩ := List.forall_mem_cons.mp untagged
    have free (found : List Occurrence) : found.map (.under []) = found := List.map_id _
    rw [List.map_cons, occurrencesInAll, ih others, List.flatMap_cons]
    cases piece with
    | text => simp only [Piece.node, bindersAfter, free, occurrences, occurrencesInPiece]
    | output => simp only [Piece.node, bindersAfter, free, occurrences, occurrencesInPiece]
    | tag => exact first.elim

/-- Text with outputs is a template, and what its outputs read is all that it reads. -/
theorem exists_parse_of_laid (filters : Filter.Registry) {source : String}
    {insides : List (List Char)} (laid : Laid source.toList insides) :
    ∃ nodes, parse source = .ok nodes ∧ ∀ inside ∈ insides, ∃ token before after,
      occurrencesInAll filters nodes = before ++
        occurrencesInOutput filters (String.ofList (markupOf inside)) token ++ after := by
  obtain ⟨found, cut, untagged, outputs⟩ := laid.pieces 0
  refine ⟨found.map Piece.node, ?_, fun inside member => ?_⟩
  · have unfolded : parse source = pieces source >>= build := rfl
    rw [unfolded, Template.pieces, cut]
    exact build_of_untagged untagged
  · obtain ⟨token, given⟩ := outputs inside member
    obtain ⟨before, after, rfl⟩ := List.append_of_mem given
    refine ⟨token, before.flatMap (occurrencesInPiece filters .positive),
      after.flatMap (occurrencesInPiece filters .positive), ?_⟩
    rw [occurrencesInAll_of_untagged filters untagged, List.flatMap_append, List.flatMap_cons,
      List.append_assoc]
    rfl

end MessageTemplate.Template
