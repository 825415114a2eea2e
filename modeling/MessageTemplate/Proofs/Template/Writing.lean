import Mathlib.Data.List.Forall2
import MessageTemplate.Template.Grammar
import MessageTemplate.Template.Writing

/-! # Trees keep their pieces

The text of every token that is cut off a source gives its piece again (`pieces_told`). Hence what
a tree writes back are the pieces of the phrases that it stands for, without those of which nothing is
kept (`Body.pieces_eq`). -/

namespace MessageTemplate.Template

/-! ## Tokens tell their pieces -/

/-- Whether the token of a piece, if it has one, tells the piece. -/
def Piece.IsTold : Piece → Prop
  | .text _ => True
  | .output markup token => token.piece = .output markup token
  | .tag found => found.token.piece = .tag found

/-- The output or the tag that a cut is, whatever it opens. -/
def Cut.piece (cut : Cut) : Piece :=
  match cut.delimiter with
  | .output => .output (String.ofList cut.markup) cut.token
  | .tag => .tag (tagOf cut.markup cut.token)

theorem openingAt?_opening (delimiter : Delimiter) (body : List Char) :
    openingAt? (delimiter.opening ++ body) = some (delimiter, body) := by
  cases delimiter <;> rfl

theorem dropLast_closing (delimiter : Delimiter) (inner : List Char) :
    (inner ++ delimiter.closing).dropLast.dropLast = inner := by
  cases delimiter <;> simp [Delimiter.closing]

/-- The token of a cut gives its piece again. -/
theorem cutAt_told {start : Nat} {delimiter : Delimiter} {body : List Char} {cut : Cut}
    (found : cutAt start delimiter body = .ok cut) : cut.token.piece = cut.piece := by
  unfold cutAt at found
  split at found
  · next inner after broken =>
    obtain rfl := Except.ok.inj found
    rw [Token.piece, String.toList_ofList, List.append_assoc, openingAt?_opening]
    cases delimiter with
    | output => simp only [dropLast_closing, Cut.piece]
    | tag => simp only [dropLast_closing, Cut.piece]
  · contradiction

/-- The pieces of a cut are told by their tokens. -/
theorem Cut.read_told {cut : Cut} {reading : Reading} (told : cut.token.piece = cut.piece)
    (read : cut.read = .ok reading) : ∀ piece ∈ reading.pieces, piece.IsTold := by
  unfold Cut.read at read
  split at read
  · next output =>
    obtain rfl := Except.ok.inj read
    simpa [Piece.IsTold, Cut.piece, output] using told
  · next tag =>
    rw [Cut.piece, tag] at told
    unfold Cut.readTag Cut.readRaw Cut.readComment at read
    repeat' split at read
    all_goals cases read
    all_goals simp [Piece.IsTold]
    exact told

theorem textPiece_told (content : List Char) : ∀ piece ∈ textPiece content, piece.IsTold := by
  unfold textPiece
  split <;> simp [Piece.IsTold]

/-- Every piece of a source is told by its token. -/
theorem piecesFrom_told {position : Nat} {text : List Char} {found : List Piece}
    (read : piecesFrom position text = .ok found) : ∀ piece ∈ found, piece.IsTold := by
  fun_induction piecesFrom position text generalizing found with
  | case1 position text none =>
    obtain rfl := Except.ok.inj read
    exact textPiece_told text
  | case2 => contradiction
  | case3 => contradiction
  | case4 position text before delimiter body opened cut cuts reading reads ih =>
    cases more : piecesFrom (cut.token.span.stop + reading.skipped) reading.after with
    | error fault =>
      rw [more] at read
      contradiction
    | ok others =>
      rw [more] at read
      obtain rfl := Except.ok.inj read
      intro piece member
      rcases List.mem_append.mp member with here | later
      · rcases List.mem_append.mp here with earlier | inside
        · exact textPiece_told before piece earlier
        · exact Cut.read_told (cutAt_told cuts) reads piece inside
      · exact ih more piece later

theorem pieces_told {source : String} {found : List Piece} (read : pieces source = .ok found) :
    ∀ piece ∈ found, piece.IsTold :=
  piecesFrom_told read

/-! ## Trees tell what is kept of their phrases -/

theorem piecesOfBranches_eq (branches : List (Branch Node)) :
    piecesOfBranches branches =
      branches.flatMap fun branch => branch.token.piece :: piecesOfNodes branch.body := by
  induction branches with
  | nil => rfl
  | cons branch rest ih => rw [piecesOfBranches, List.flatMap_cons, ih, List.cons_append]

theorem piecesOfWhens_eq (whens : List (When Node)) :
    piecesOfWhens whens =
      whens.flatMap fun branch => branch.token.piece :: piecesOfNodes branch.body := by
  induction whens with
  | nil => rfl
  | cons branch rest ih => rw [piecesOfWhens, List.flatMap_cons, ih, List.cons_append]

/-- What is kept of a clause that has been read. -/
def Clause.kept (hidden : Bool) (clause : Clause Node) : List Piece :=
  (if hidden && clause.tag.name = "else" then [] else [clause.tag.token.piece]) ++
    piecesOfNodes clause.body

theorem Clause.kept_of_ne {clause : Clause Node} (other : clause.tag.name ≠ "else") :
    clause.kept true = clause.tag.token.piece :: piecesOfNodes clause.body := by
  simp [kept, other]

/-- Of a last clause that is hidden only the body is kept. -/
theorem IsLast.kept {clauses : List (Clause Node)} (last : IsLast clauses) :
    clauses.flatMap (Clause.kept true) = piecesOfNodes (clauses.flatMap Clause.body) := by
  cases last with
  | none => rfl
  | otherwise name => simp [Clause.kept, name]

/-- The node that a block stands for tells what is kept of the clauses. -/
theorem BlockRule.pieces_eq {first : Clause Node} {further : List (Clause Node)} {node : Node}
    (rule : BlockRule (first :: further) node) :
    node.pieces = first.tag.token.piece ::
      ((if first.tag.name = "case" then [] else piecesOfNodes first.body) ++
        further.flatMap (Clause.kept (hidesElse first.tag.name))) := by
  generalize given : first :: further = clauses at rule
  cases rule with
  | @conditional kind clauses last headed final =>
    cases clauses with
    | nil => exact headed.elim
    | cons opening elsifs =>
      rw [List.cons_append] at given
      obtain ⟨rfl, rfl⟩ := List.cons.inj given
      have shown : hidesElse first.tag.name = false := by rw [headed.1.1]; cases kind <;> rfl
      have other : first.tag.name ≠ "case" := by rw [headed.1.1]; cases kind <;> decide
      simp only [Node.pieces, piecesOfBranches_eq, List.map_cons, List.cons_append,
        List.flatMap_cons, List.flatMap_append, List.flatMap_map, shown, if_neg other]
      rfl
  | @loop kind _ _ _ opens final =>
    obtain ⟨rfl, rfl⟩ := List.cons.inj given
    have hidden : hidesElse first.tag.name = true := by rw [opens.1]; cases kind <;> rfl
    have other : first.tag.name ≠ "case" := by rw [opens.1]; cases kind <;> decide
    rw [Node.pieces, hidden, if_neg other, final.kept]
  | @case _ whens last opens branches final =>
    obtain ⟨rfl, rfl⟩ := List.cons.inj given
    have hidden : hidesElse first.tag.name = true := by rw [opens.1]; rfl
    have kept : whens.flatMap (Clause.kept true) =
        whens.flatMap fun clause => clause.tag.token.piece :: piecesOfNodes clause.body :=
      List.flatMap_congr fun clause member =>
        Clause.kept_of_ne (by rw [(branches clause member).1]; decide)
    rw [Node.pieces, hidden, if_pos opens.1, List.flatMap_append, final.kept, kept,
      piecesOfWhens_eq, List.flatMap_map]
    rfl
  | capture opens =>
    obtain ⟨rfl, rfl⟩ := List.cons.inj given
    have other : first.tag.name ≠ "case" := by rw [opens.1]; decide
    rw [Node.pieces, if_neg other, List.flatMap_nil, List.append_nil]

/-- Clauses whose tags are told, with bodies that tell what is kept of their phrases. -/
def TellsEach : List (Clause Phrase) → List (Clause Node) → Prop :=
  List.Forall₂ fun clause read => clause.tag = read.tag ∧ read.tag.token.piece = .tag read.tag ∧
    piecesOfNodes read.body = keptOfAll clause.body

/-- What is kept of clauses is kept of the clauses that have been read. -/
theorem TellsEach.kept {clauses : List (Clause Phrase)} {read : List (Clause Node)}
    (tells : TellsEach clauses read) (hidden : Bool) :
    keptOfClauses hidden clauses = read.flatMap (Clause.kept hidden) := by
  induction tells with
  | nil => rfl
  | @cons clause read rest others one more ih =>
    obtain ⟨tag, told, body⟩ := one
    rw [keptOfClauses, List.flatMap_cons, ← ih, Clause.kept, tag, told, body]

mutual

/-- A node tells what is kept of its phrase. -/
theorem Item.pieces_eq {phrase : Phrase} {node : Node} (item : Item phrase node)
    (told : ∀ piece ∈ phrase.pieces, piece.IsTold) : node.pieces = phrase.kept := by
  cases item with
  | text => rfl
  | output => exact congrArg (fun piece => [piece]) (told _ (List.mem_singleton.mpr rfl))
  | tag => exact congrArg (fun piece => [piece]) (told _ (List.mem_singleton.mpr rfl))
  | assign => exact congrArg (fun piece => [piece]) (told _ (List.mem_singleton.mpr rfl))
  | echo => exact congrArg (fun piece => [piece]) (told _ (List.mem_singleton.mpr rfl))
  | @block opening closing body further read node derived rule name =>
    have tells := derived.tellsEach fun piece member =>
      told piece (List.mem_append_left _ member)
    cases tells with
    | cons one more =>
      obtain ⟨same, first, kept⟩ := one
      obtain rfl : opening = _ := same
      rw [rule.pieces_eq, Phrase.kept, TellsEach.kept more, first, kept]

/-- Nodes tell what is kept of their phrases. -/
theorem Body.pieces_eq {phrases : List Phrase} {nodes : List Node} (body : Body phrases nodes)
    (told : ∀ piece ∈ piecesOfAll phrases, piece.IsTold) :
    piecesOfNodes nodes = keptOfAll phrases := by
  cases body with
  | nil => rfl
  | cons item rest =>
    rw [piecesOfNodes, keptOfAll,
      item.pieces_eq fun piece member => told piece (List.mem_append_left _ member),
      rest.pieces_eq fun piece member => told piece (List.mem_append_right _ member)]

theorem Clauses.tellsEach {clauses : List (Clause Phrase)} {read : List (Clause Node)}
    (derived : Clauses clauses read) (told : ∀ piece ∈ piecesOfClauses clauses, piece.IsTold) :
    TellsEach clauses read := by
  cases derived with
  | nil => exact .nil
  | cons body rest =>
    simp only [piecesOfClauses, List.mem_cons, List.mem_append, or_imp, forall_and,
      forall_eq] at told
    obtain ⟨tag, inside, behind⟩ := told
    exact .cons ⟨rfl, tag, body.pieces_eq inside⟩ (rest.tellsEach behind)

end

end MessageTemplate.Template
