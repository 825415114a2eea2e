import MessageTemplate.Proofs.Template.Progress
import MessageTemplate.Template.Shift

/-! # The machine elsewhere

What the machine builds depends neither on where its tokens stand nor on the nodes that it has built
before: it carries the tokens along, and adds to the nodes (`step_relocate`). Hence the nodes of
pieces with other tokens are the same nodes with other tokens, and those of pieces behind a whole
template stand behind the nodes of that template. -/

namespace MessageTemplate.Template

open Building

/-- The same outcome with a changed token to blame, or with a changed result. -/
def relocated {α β : Type} (change : Token → Token) (result : α → β) :
    Except Fault α → Except Fault β
  | .ok found => .ok (result found)
  | .error fault => .error (fault.mapToken change)

/-! ## Nodes with other tokens -/

section Tokens

variable (change : Token → Token)

/-- A branch of a conditional with its tokens changed. -/
def Branch.mapTokens (branch : Branch Node) : Branch Node :=
  ⟨branch.condition, branch.body.map (Node.mapTokens change), change branch.token⟩

/-- A branch of a case distinction with its tokens changed. -/
def When.mapTokens (branch : When Node) : When Node :=
  ⟨branch.values, branch.body.map (Node.mapTokens change), change branch.token⟩

theorem mapTokensInAll_eq (nodes : List Node) :
    mapTokensInAll change nodes = nodes.map (Node.mapTokens change) := by
  induction nodes with
  | nil => rfl
  | cons node rest ih => rw [mapTokensInAll, ih, List.map_cons]

theorem mapTokensInBranches_eq (branches : List (Branch Node)) :
    mapTokensInBranches change branches = branches.map (Branch.mapTokens change) := by
  induction branches with
  | nil => rfl
  | cons branch rest ih =>
    rw [mapTokensInBranches, mapTokensInAll_eq, ih, List.map_cons]
    rfl

theorem mapTokensInWhens_eq (whens : List (When Node)) :
    mapTokensInWhens change whens = whens.map (When.mapTokens change) := by
  induction whens with
  | nil => rfl
  | cons branch rest ih =>
    rw [mapTokensInWhens, mapTokensInAll_eq, ih, List.map_cons]
    rfl

mutual

theorem Node.mapTokens_id (node : Node) : node.mapTokens id = node := by
  cases node with
  | text => rfl
  | output => rfl
  | assign => rfl
  | tag => rfl
  | capture target body token => rw [Node.mapTokens, mapTokensInAll_id body, id]
  | loop kind iterator collection params body otherwise token =>
    rw [Node.mapTokens, mapTokensInAll_id body, mapTokensInAll_id otherwise, id]
  | conditional kind branches => rw [Node.mapTokens, mapTokensInBranches_id branches]
  | case subject whens otherwise token =>
    rw [Node.mapTokens, mapTokensInWhens_id whens, mapTokensInAll_id otherwise, id]

theorem mapTokensInAll_id (nodes : List Node) : mapTokensInAll id nodes = nodes := by
  cases nodes with
  | nil => rfl
  | cons node rest => rw [mapTokensInAll, node.mapTokens_id, mapTokensInAll_id rest]

theorem mapTokensInBranches_id (branches : List (Branch Node)) :
    mapTokensInBranches id branches = branches := by
  match branches with
  | [] => rfl
  | ⟨condition, body, token⟩ :: rest =>
    rw [mapTokensInBranches, mapTokensInAll_id body, mapTokensInBranches_id rest, id]

theorem mapTokensInWhens_id (whens : List (When Node)) : mapTokensInWhens id whens = whens := by
  match whens with
  | [] => rfl
  | ⟨values, body, token⟩ :: rest =>
    rw [mapTokensInWhens, mapTokensInAll_id body, mapTokensInWhens_id rest, id]

end

theorem Piece.mapToken_id (piece : Piece) : piece.mapToken id = piece := by
  cases piece <;> rfl

/-! ## States elsewhere -/

/-- Where an open case distinction stands, with its token changed. -/
def CasePart.mapToken : CasePart → CasePart
  | .prelude => .prelude
  | .branch values token => .branch values (change token)
  | .otherwise => .otherwise

/-- What an open block has collected, with all tokens changed. -/
def Block.mapTokens : Block → Block
  | .conditional kind done condition token =>
    .conditional kind (done.map (Branch.mapTokens change)) condition (change token)
  | .loopBody kind header => .loopBody kind header
  | .loopElse kind header body => .loopElse kind header (body.map (Node.mapTokens change))
  | .case subject done otherwise part =>
    .case subject (done.map (When.mapTokens change)) (otherwise.map (Node.mapTokens change))
      (part.mapToken change)
  | .capture target => .capture target

variable (earlier : List Node)

/-- Nodes with their tokens changed, behind earlier ones if no block is open around them. -/
def relocateBody (around : List OpenBlock) (body : List Node) : List Node :=
  (if around.isEmpty then earlier else []) ++ body.map (Node.mapTokens change)

/-- Open blocks with their tokens changed, the outermost one behind earlier nodes. -/
def relocateBlocks : List OpenBlock → List OpenBlock
  | [] => []
  | ⟨block, opening, before⟩ :: outer =>
    ⟨block.mapTokens change, opening.mapToken change, relocateBody change earlier outer before⟩ ::
      relocateBlocks outer

/-- A state with all tokens changed, and with earlier nodes before all that it holds. -/
def Building.relocate (state : Building) : Building :=
  ⟨relocateBody change earlier state.blocks state.body, relocateBlocks change earlier state.blocks⟩

theorem relocate_add (state : Building) (node : Node) :
    (state.add node).relocate change earlier =
      (state.relocate change earlier).add (node.mapTokens change) := by
  simp [Building.relocate, add, relocateBody]

theorem relocate_openBlock (state : Building) (opening : Tag) (block : Block) :
    (state.openBlock opening block).relocate change earlier =
      (state.relocate change earlier).openBlock (opening.mapToken change)
        (block.mapTokens change) := by
  simp [Building.relocate, openBlock, relocateBody, relocateBlocks]

/-! ## One step -/

theorem closingName_mapTokens (block : Block) :
    closingName (block.mapTokens change) = closingName block := by
  cases block <;> rfl

theorem settleCase_mapTokens (done : List (When Node)) (otherwise : List Node) (part : CasePart)
    (body : List Node) :
    settleCase (done.map (When.mapTokens change)) (otherwise.map (Node.mapTokens change))
        (part.mapToken change) (body.map (Node.mapTokens change)) =
      ((settleCase done otherwise part body).1.map (When.mapTokens change),
        (settleCase done otherwise part body).2.map (Node.mapTokens change)) := by
  cases part with
  | prelude => rfl
  | otherwise => rfl
  | branch => simp [settleCase, CasePart.mapToken, When.mapTokens]

theorem closeNode_mapTokens (block : Block) (opening : Tag) (body : List Node) :
    closeNode (block.mapTokens change) (opening.mapToken change)
        (body.map (Node.mapTokens change)) =
      (closeNode block opening body).mapTokens change := by
  cases block with
  | conditional kind done condition token =>
    simp [closeNode, Block.mapTokens, Node.mapTokens, mapTokensInBranches_eq, Branch.mapTokens]
  | loopBody kind header =>
    simp [closeNode, Block.mapTokens, Node.mapTokens, mapTokensInAll_eq, Tag.mapToken]
  | loopElse kind header earlier =>
    simp [closeNode, Block.mapTokens, Node.mapTokens, mapTokensInAll_eq, Tag.mapToken]
  | case subject done otherwise part =>
    simp [closeNode, Block.mapTokens, Node.mapTokens, mapTokensInAll_eq, mapTokensInWhens_eq,
      Tag.mapToken, settleCase_mapTokens]
  | capture target =>
    simp [closeNode, Block.mapTokens, Node.mapTokens, mapTokensInAll_eq, Tag.mapToken]

section Case

variable {subject : String} {done : List (When Node)} {otherwise : List Node} {part : CasePart}
  {body : List Node} {tag : Tag}

theorem nextBranch?_when (going : part ≠ .otherwise) (name : tag.name = "when") :
    nextBranch? (.case subject done otherwise part) body tag =
      some (if (whenValues tag.markup).isEmpty then .error ⟨.missingValue, some tag.token⟩
        else .ok (.case subject (settleCase done otherwise part body).1
          (settleCase done otherwise part body).2 (.branch (whenValues tag.markup) tag.token))) := by
  cases part with
  | otherwise => contradiction
  | prelude =>
    simp only [nextBranch?, name]
    split <;> rfl
  | branch =>
    simp only [nextBranch?, name]
    split <;> rfl

theorem nextBranch?_else (going : part ≠ .otherwise) (name : tag.name = "else") :
    nextBranch? (.case subject done otherwise part) body tag =
      some (.ok (.case subject (settleCase done otherwise part body).1
        (settleCase done otherwise part body).2 .otherwise)) := by
  cases part with
  | otherwise => contradiction
  | prelude => simp only [nextBranch?, name]
  | branch => simp only [nextBranch?, name]

theorem nextBranch?_of_case (further : tag.name ≠ "when") (last : tag.name ≠ "else") :
    nextBranch? (.case subject done otherwise part) body tag = none := by
  cases part <;> simp [nextBranch?, further, last]

theorem nextBranch?_case_mapTokens :
    nextBranch? ((Block.case subject done otherwise part).mapTokens change)
        (body.map (Node.mapTokens change)) (tag.mapToken change) =
      (nextBranch? (.case subject done otherwise part) body tag).map
        (relocated change (Block.mapTokens change)) := by
  by_cases ended : part = .otherwise
  · subst ended
    rfl
  have settled := settleCase_mapTokens change done otherwise part body
  have going : part.mapToken change ≠ .otherwise := by
    cases part <;> simp_all [CasePart.mapToken]
  have same : (tag.mapToken change).name = tag.name := rfl
  by_cases further : tag.name = "when"
  · rw [Block.mapTokens, nextBranch?_when ended further, nextBranch?_when going (same ▸ further),
      settled]
    by_cases missing : (whenValues tag.markup).isEmpty = true
    · simp [missing, Tag.mapToken, relocated, Fault.mapToken]
    · simp [missing, Tag.mapToken, relocated, Block.mapTokens, CasePart.mapToken]
  by_cases last : tag.name = "else"
  · rw [Block.mapTokens, nextBranch?_else ended last, nextBranch?_else going (same ▸ last), settled]
    rfl
  · rw [Block.mapTokens, nextBranch?_of_case further last,
      nextBranch?_of_case (same ▸ further) (same ▸ last)]
    rfl

end Case

theorem nextBranch?_mapTokens (block : Block) (body : List Node) (tag : Tag) :
    nextBranch? (block.mapTokens change) (body.map (Node.mapTokens change)) (tag.mapToken change) =
      (nextBranch? block body tag).map (relocated change (Block.mapTokens change)) := by
  obtain ⟨name, markup, token⟩ := tag
  cases block with
  | loopElse => simp [nextBranch?, Block.mapTokens]
  | capture => simp [nextBranch?, Block.mapTokens]
  | loopBody kind header =>
    by_cases last : name = "else"
    · subst last
      simp [nextBranch?, Block.mapTokens, Tag.mapToken, relocated]
    · simp [nextBranch?, Block.mapTokens, Tag.mapToken, last]
  | conditional kind done condition previous =>
    cases condition with
    | none => simp [nextBranch?, Block.mapTokens]
    | some condition =>
      by_cases further : name = "elsif"
      · subst further
        by_cases missing : markup = ""
        · simp [nextBranch?, Block.mapTokens, Tag.mapToken, missing, relocated, Fault.mapToken]
        · simp [nextBranch?, Block.mapTokens, Tag.mapToken, missing, relocated, Branch.mapTokens]
      · by_cases last : name = "else"
        · subst last
          simp [nextBranch?, Block.mapTokens, Tag.mapToken, relocated, Branch.mapTokens]
        · simp [nextBranch?, Block.mapTokens, Tag.mapToken, further, last]
  | case => exact nextBranch?_case_mapTokens change

section Tags

variable (state : Building) (tag : Tag)

theorem openConditional_relocate (kind : ConditionalKind) :
    (state.relocate change earlier).openConditional kind (tag.mapToken change) =
      relocated change (Building.relocate change earlier) (state.openConditional kind tag) := by
  unfold openConditional
  by_cases missing : tag.markup = ""
  · simp [missing, Tag.mapToken, relocated, Fault.mapToken]
  · simp [missing, Tag.mapToken, relocated, relocate_openBlock, Block.mapTokens]

theorem openLoop_relocate (kind : LoopKind) :
    (state.relocate change earlier).openLoop kind (tag.mapToken change) =
      relocated change (Building.relocate change earlier) (state.openLoop kind tag) := by
  unfold openLoop
  cases given : loopHeader? tag.markup with
  | none => simp [given, Tag.mapToken, relocated, Fault.mapToken]
  | some header => simp [given, Tag.mapToken, relocated, relocate_openBlock, Block.mapTokens]

theorem openCase_relocate :
    (state.relocate change earlier).openCase (tag.mapToken change) =
      relocated change (Building.relocate change earlier) (state.openCase tag) := by
  unfold openCase
  by_cases missing : tag.markup = ""
  · simp [missing, Tag.mapToken, relocated, Fault.mapToken]
  · simp [missing, Tag.mapToken, relocated, relocate_openBlock, Block.mapTokens, CasePart.mapToken]

theorem openCapture_relocate :
    (state.relocate change earlier).openCapture (tag.mapToken change) =
      relocated change (Building.relocate change earlier) (state.openCapture tag) := by
  unfold openCapture
  cases given : captureTarget? tag.markup with
  | none => simp [given, Tag.mapToken, relocated, Fault.mapToken]
  | some target => simp [given, Tag.mapToken, relocated, relocate_openBlock, Block.mapTokens]

theorem readAssign_relocate :
    (state.relocate change earlier).readAssign (tag.mapToken change) =
      relocated change (Building.relocate change earlier) (state.readAssign tag) := by
  unfold readAssign
  cases given : assignment? tag.markup with
  | none => simp [given, Tag.mapToken, relocated, Fault.mapToken]
  | some parts => simp [given, Tag.mapToken, relocated, relocate_add, Node.mapTokens]

theorem readEcho_relocate :
    (state.relocate change earlier).readEcho (tag.mapToken change) =
      relocated change (Building.relocate change earlier) (state.readEcho tag) := by
  unfold readEcho
  by_cases missing : tag.markup = ""
  · simp [missing, Tag.mapToken, relocated, Fault.mapToken]
  · simp [missing, Tag.mapToken, relocated, relocate_add, Node.mapTokens]

theorem readTag_relocate :
    (state.relocate change earlier).readTag (tag.mapToken change) =
      relocated change (Building.relocate change earlier) (state.readTag tag) := by
  unfold readTag
  have same : (tag.mapToken change).name = tag.name := rfl
  rw [same]
  by_cases free : needsBlock tag.name = true
  · rw [if_pos free, if_pos free]
    rfl
  rw [if_neg free, if_neg free]
  split
  case h_1 => exact openConditional_relocate change earlier state tag _
  case h_2 => exact openConditional_relocate change earlier state tag _
  case h_3 => exact openLoop_relocate change earlier state tag _
  case h_4 => exact openLoop_relocate change earlier state tag _
  case h_5 => exact openCase_relocate change earlier state tag
  case h_6 => exact openCapture_relocate change earlier state tag
  case h_7 => exact readAssign_relocate change earlier state tag
  case h_8 => exact readEcho_relocate change earlier state tag
  case h_9 => exact congrArg Except.ok (relocate_add change earlier state (.tag tag)).symm

end Tags

/-- A step reads a tag as it would elsewhere. -/
theorem step_relocate (state : Building) (piece : Piece) :
    (state.relocate change earlier).step (piece.mapToken change) =
      relocated change (Building.relocate change earlier) (state.step piece) := by
  cases piece with
  | text content =>
    exact congrArg Except.ok (relocate_add change earlier state (.text content)).symm
  | output markup token =>
    exact congrArg Except.ok (relocate_add change earlier state (.output markup token)).symm
  | tag tag =>
    obtain ⟨body, blocks⟩ := state
    cases blocks with
    | nil => exact readTag_relocate change earlier ⟨body, []⟩ tag
    | cons innermost outer =>
      obtain ⟨block, opening, before⟩ := innermost
      have inside : relocateBody change earlier (⟨block, opening, before⟩ :: outer) body =
          body.map (Node.mapTokens change) := by simp [relocateBody]
      by_cases closing : tag.name = closingName block
      · have elsewhere : (tag.mapToken change).name = closingName (block.mapTokens change) := by
          rw [closingName_mapTokens, ← closing]
          rfl
        rw [Piece.mapToken, step_of_closing closing, Building.relocate, relocateBlocks,
          step_of_closing elsewhere, inside, closeNode_mapTokens]
        exact congrArg Except.ok (relocate_add change earlier ⟨before, outer⟩ _).symm
      · have elsewhere : ¬(tag.mapToken change).name = closingName (block.mapTokens change) := by
          rwa [closingName_mapTokens]
        have goes := nextBranch?_mapTokens change block body tag
        have read := readTag_relocate change earlier ⟨body, ⟨block, opening, before⟩ :: outer⟩ tag
        simp only [Piece.mapToken, step, Building.relocate, relocateBlocks, inside, if_neg closing,
          if_neg elsewhere, goes] at read ⊢
        cases nextBranch? block body tag with
        | none => exact read
        | some outcome =>
          cases outcome with
          | error fault => rfl
          | ok next =>
            simp [relocated, Except.map, Building.relocate, relocateBlocks, relocateBody]


/-! ## Whole templates -/

theorem run_cons_of_error {state : Building} {piece : Piece} {fault : Fault}
    (refused : state.step piece = .error fault) (rest : List Piece) :
    state.run (piece :: rest) = .error fault := by
  rw [run, List.foldlM_cons, refused]
  rfl

theorem run_relocate (pieces : List Piece) (state : Building) :
    (state.relocate change earlier).run (pieces.map (Piece.mapToken change)) =
      relocated change (Building.relocate change earlier) (state.run pieces) := by
  induction pieces generalizing state with
  | nil => rfl
  | cons piece rest ih =>
    have first := step_relocate change earlier state piece
    cases read : state.step piece with
    | ok next =>
      rw [read] at first
      rw [List.map_cons, run_cons first, run_cons read, ih]
    | error fault =>
      rw [read] at first
      rw [List.map_cons, run_cons_of_error first, run_cons_of_error read]
      rfl

theorem finish_relocate (state : Building) :
    (state.relocate change earlier).finish =
      relocated change (fun nodes => earlier ++ nodes.map (Node.mapTokens change))
        state.finish := by
  obtain ⟨body, blocks⟩ := state
  cases blocks with
  | nil => rfl
  | cons => rfl

end Tokens

theorem build_eq (pieces : List Piece) : build pieces = start.run pieces >>= finish :=
  rfl

theorem build_relocate (change : Token → Token) (earlier : List Node) (pieces : List Piece) :
    (Building.run ⟨earlier, []⟩ (pieces.map (Piece.mapToken change)) >>= finish) =
      relocated change (fun nodes => earlier ++ nodes.map (Node.mapTokens change))
        (build pieces) := by
  have first : start.relocate change earlier = ⟨earlier, []⟩ := by
    simp [start, Building.relocate, relocateBody, relocateBlocks]
  rw [← first, run_relocate, build_eq]
  cases start.run pieces with
  | error fault => rfl
  | ok state => exact finish_relocate change earlier state

/-- Pieces with other tokens are built as they are with these. -/
theorem build_mapToken (change : Token → Token) (pieces : List Piece) :
    build (pieces.map (Piece.mapToken change)) =
      relocated change (List.map (Node.mapTokens change)) (build pieces) :=
  build_relocate change [] pieces

section Append

variable {left right : List Piece} {nodes : List Node}

/-- Pieces behind a whole template are built as they are without it. -/
theorem build_append (built : build left = .ok nodes) :
    build (left ++ right) = (build right).map (nodes ++ ·) := by
  obtain ⟨phrases, rfl, body⟩ := build_eq_ok_iff.mp built
  have behind := build_relocate id nodes right
  rw [List.map_id'' Piece.mapToken_id] at behind
  rw [build_eq, run_append (body.adds start)]
  refine behind.trans ?_
  cases build right with
  | ok others => rw [relocated, List.map_id'' Node.mapTokens_id]; rfl
  | error fault => simp [relocated, Except.map, Fault.mapToken]

/-- Before a text at its end, a template is a whole one. -/
theorem build_of_snoc {content : String} (built : build (left ++ [.text content]) = .ok nodes) :
    ∃ earlier, build left = .ok earlier ∧ nodes = earlier ++ [.text content] := by
  cases read : start.run left with
  | error fault =>
    obtain ⟨state, reads⟩ : ∃ state, start.run (left ++ [.text content]) = .ok state := by
      cases whole : start.run (left ++ [.text content]) with
      | ok state => exact ⟨state, rfl⟩
      | error fault => rw [build_eq, whole] at built; contradiction
    obtain ⟨middle, reads⟩ := run_of_append reads
    rw [reads] at read
    contradiction
  | ok state =>
    obtain ⟨body, blocks⟩ := state
    rw [build_eq, run_append read] at built
    cases blocks with
    | nil => exact ⟨body, by rw [build_eq, read]; rfl, (Except.ok.inj built).symm⟩
    | cons innermost outer => contradiction

end Append

/-- What comes of a text behind a good one: the items of both in a row, or what is wrong with it. -/
def Extends {α : Type} (text : String → α) (first : List α) :
    Except Fault (List α) → Except Fault (List α) → Prop
  | .ok others, .ok whole => Seam text first others whole
  | .error fault, .error found => found = fault
  | _, _ => False

/-- The nodes of pieces in a row are in a row. -/
theorem Seam.build {first others whole : List Piece} {nodes : List Node}
    (seam : Seam Piece.text first others whole) (built : build first = .ok nodes) :
    Extends Node.text nodes (Template.build others) (Template.build whole) := by
  cases seam with
  | apart =>
    rw [build_append built]
    cases Template.build others with
    | ok more => exact .apart
    | error fault => exact rfl
  | @joined earlier others left right =>
    obtain ⟨body, before, rfl⟩ := build_of_snoc built
    have single (content : String) (rest : List Piece) :
        Template.build (.text content :: rest) = (Template.build rest).map (.text content :: ·) :=
      build_append (show Template.build [.text content] = .ok [.text content] from rfl)
    rw [single, build_append before, single]
    cases Template.build others with
    | ok more => exact .joined
    | error fault => exact rfl

end MessageTemplate.Template
