import Mathlib.Data.List.Forall2
import Mathlib.Data.List.Induction
import MessageTemplate.Proofs.Template.Standing

/-! # The machine reads phrases

A tag that belongs to no block adds a node or opens a block, whatever is open around it; the spec
lemmas say which. Hence the machine reads the pieces of a phrase that stands for a node by adding the
node (`Item.adds`), by induction on the derivation: the bodies of a block's clauses are read one after
another, and the tags between them go on the block. -/

namespace MessageTemplate.Template

open Building

/-! ## Tags that belong to no block -/

/-- Whether a name starts as those of closing tags do. -/
def isClosing (name : String) : Bool :=
  ['e', 'n', 'd'].isPrefixOf name.toList

theorem isClosing_append (name : String) : isClosing ("end" ++ name) = true := by
  simp [isClosing]

theorem isClosing_closingName (block : Block) : isClosing (closingName block) = true := by
  cases block with
  | case => exact isClosing_append "case"
  | capture => exact isClosing_append "capture"
  | conditional => exact isClosing_append _
  | loopBody => exact isClosing_append _
  | loopElse => exact isClosing_append _

/-- Only three tags ever go on a block. -/
theorem name_of_nextBranch? {block : Block} {body : List Node} {tag : Tag}
    {outcome : Except Fault Block} (goes : nextBranch? block body tag = some outcome) :
    tag.name ∈ ["else", "elsif", "when"] := by
  unfold nextBranch? at goes
  split at goes
  case h_4 => contradiction
  case h_7 => contradiction
  all_goals
    next name => simp [name]

theorem needsBlock_iff {name : String} :
    needsBlock name = true ↔ isClosing name = true ∨ name ∈ ["else", "elsif", "when"] := by
  rw [needsBlock, Bool.or_eq_true, List.contains_iff_mem, isClosing]

theorem nextBranch?_eq_none {tag : Tag} (free : needsBlock tag.name = false) (block : Block)
    (body : List Node) : nextBranch? block body tag = none := by
  by_contra goes
  obtain ⟨outcome, goes⟩ := Option.ne_none_iff_exists'.mp goes
  have needs := needsBlock_iff.mpr (.inr (name_of_nextBranch? goes))
  rw [free] at needs
  contradiction

/-- A tag that belongs to no block means the same everywhere. -/
theorem step_of_free {tag : Tag} (free : needsBlock tag.name = false) (state : Building) :
    state.step (.tag tag) = state.readTag tag := by
  unfold step
  split
  · contradiction
  · contradiction
  · next given =>
    obtain rfl := Piece.tag.inj given
    split
    · rfl
    · next innermost outer _ =>
      have aside : tag.name ≠ closingName innermost.block := fun same => by
        rw [same, needsBlock_iff.mpr (.inl (isClosing_closingName _))] at free
        contradiction
      rw [if_neg aside, nextBranch?_eq_none free]

section Tags

variable {state next : Building} {tag : Tag}

theorem openConditional_eq_ok {kind : ConditionalKind} :
    state.openConditional kind tag = .ok next ↔ tag.markup ≠ "" ∧
      state.openBlock tag (.conditional kind [] (some tag.markup) tag.token) = next := by
  by_cases missing : tag.markup = "" <;> simp [openConditional, missing]

theorem openLoop_eq_ok {kind : LoopKind} :
    state.openLoop kind tag = .ok next ↔ ∃ header, loopHeader? tag.markup = some header ∧
      state.openBlock tag (.loopBody kind header) = next := by
  cases given : loopHeader? tag.markup <;> simp [openLoop, given]

theorem openCase_eq_ok :
    state.openCase tag = .ok next ↔
      tag.markup ≠ "" ∧ state.openBlock tag (.case tag.markup [] [] .prelude) = next := by
  by_cases missing : tag.markup = "" <;> simp [openCase, missing]

theorem openCapture_eq_ok :
    state.openCapture tag = .ok next ↔ ∃ target, captureTarget? tag.markup = some target ∧
      state.openBlock tag (.capture target) = next := by
  cases given : captureTarget? tag.markup <;> simp [openCapture, given]

theorem readAssign_eq_ok :
    state.readAssign tag = .ok next ↔ ∃ target expression,
      assignment? tag.markup = some (target, expression) ∧
        state.add (.assign target expression tag.token) = next := by
  cases given : assignment? tag.markup with
  | none => simp [readAssign, given]
  | some parts => simp [readAssign, given, Prod.ext_iff, and_assoc]

theorem readEcho_eq_ok :
    state.readEcho tag = .ok next ↔
      tag.markup ≠ "" ∧ state.add (.output tag.markup tag.token) = next := by
  by_cases missing : tag.markup = "" <;> simp [readEcho, missing]

/-- A tag that goes on the innermost block. -/
theorem step_of_nextBranch? {block further : Block} {body : List Node}
    (goes : nextBranch? block body tag = some (.ok further)) (opening : Tag)
    (before : List Node) (blocks : List OpenBlock) :
    step ⟨body, ⟨block, opening, before⟩ :: blocks⟩ (.tag tag) =
      .ok ⟨[], ⟨further, opening, before⟩ :: blocks⟩ := by
  have aside : tag.name ≠ closingName block := fun same => by
    have closing := isClosing_closingName block
    have names := name_of_nextBranch? goes
    rw [← same] at closing
    rcases List.mem_cons.mp names with name | names
    · rw [name] at closing; contradiction
    rcases List.mem_cons.mp names with name | names
    · rw [name] at closing; contradiction
    · rw [List.mem_singleton.mp names] at closing; contradiction
  simp only [step, if_neg aside, goes]
  rfl

/-- The tag that closes the innermost block. -/
theorem step_of_closing {block : Block} (closes : tag.name = closingName block)
    (opening : Tag) (body before : List Node) (blocks : List OpenBlock) :
    step ⟨body, ⟨block, opening, before⟩ :: blocks⟩ (.tag tag) =
      .ok ⟨before ++ [closeNode block opening body], blocks⟩ := by
  simp [step, closes]

theorem standsAlone_iff {name : String} :
    standsAlone name = true ↔ needsBlock name = false ∧
      name ∉ ["if", "unless", "for", "tablerow", "case", "capture", "assign", "echo"] := by
  simp only [standsAlone, reservedNames, needsBlock, Bool.not_eq_true', Bool.or_eq_false_iff,
    List.contains_eq_mem, decide_eq_false_iff_not, List.mem_cons, not_or]
  tauto

/-- A tag that stands for a node adds it. -/
theorem readTag_of_item {node : Node} (item : Item (.tag tag) node) (state : Building) :
    needsBlock tag.name = false ∧ state.readTag tag = .ok (state.add node) := by
  cases item with
  | tag alone =>
    obtain ⟨free, own⟩ := standsAlone_iff.mp alone
    refine ⟨free, ?_⟩
    rw [readTag, if_neg (by simp [free])]
    split
    case h_9 => rfl
    all_goals
      next name => simp [name] at own
  | assign name given =>
    have free : needsBlock tag.name = false := by rw [name]; rfl
    refine ⟨free, ?_⟩
    rw [readTag, if_neg (by simp [free]), name]
    exact readAssign_eq_ok.mpr ⟨_, _, given, rfl⟩
  | echo name given =>
    have free : needsBlock tag.name = false := by rw [name]; rfl
    refine ⟨free, ?_⟩
    rw [readTag, if_neg (by simp [free]), name]
    exact readEcho_eq_ok.mpr ⟨given, rfl⟩

/-- A tag that a block starts with opens it. -/
theorem readTag_of_stands {block : Block} (stands : Stands [] tag block) (state : Building) :
    needsBlock tag.name = false ∧ state.readTag tag = .ok (state.openBlock tag block) := by
  cases stands with
  | @condition kind _ _ headed =>
    obtain ⟨name, given⟩ := Headed.singleton.mp headed
    have free : needsBlock tag.name = false := by rw [name]; cases kind <;> rfl
    refine ⟨free, ?_⟩
    rw [readTag, if_neg (by simp [free]), name]
    cases kind <;> exact openConditional_eq_ok.mpr ⟨given, rfl⟩
  | unconditioned headed => exact headed.elim
  | @loopBody kind header _ opens =>
    obtain ⟨name, given⟩ := opens
    have free : needsBlock tag.name = false := by rw [name]; cases kind <;> rfl
    refine ⟨free, ?_⟩
    rw [readTag, if_neg (by simp [free]), name]
    cases kind <;> exact openLoop_eq_ok.mpr ⟨header, given, rfl⟩
  | prelude opens =>
    have free : needsBlock tag.name = false := by rw [opens.1]; rfl
    refine ⟨free, ?_⟩
    rw [readTag, if_neg (by simp [free]), opens.1]
    exact openCase_eq_ok.mpr ⟨opens.2, rfl⟩
  | capture opens =>
    have free : needsBlock tag.name = false := by rw [opens.1]; rfl
    refine ⟨free, ?_⟩
    rw [readTag, if_neg (by simp [free]), opens.1]
    exact openCapture_eq_ok.mpr ⟨_, opens.2, rfl⟩

/-- A tag that belongs to no block adds a node or opens a block. -/
theorem readTag_eq_ok (read : state.readTag tag = .ok next) :
    (∃ node, Item (.tag tag) node ∧ state.add node = next) ∨
      ∃ block, Stands [] tag block ∧ state.openBlock tag block = next := by
  unfold readTag at read
  split at read
  · contradiction
  next free =>
  split at read
  case h_1 name =>
    obtain ⟨given, opened⟩ := openConditional_eq_ok.mp read
    have opens : OpensConditional .positive tag := ⟨name, given⟩
    exact .inr ⟨_, .condition (Headed.singleton.mpr opens), opened⟩
  case h_2 name =>
    obtain ⟨given, opened⟩ := openConditional_eq_ok.mp read
    have opens : OpensConditional .negative tag := ⟨name, given⟩
    exact .inr ⟨_, .condition (Headed.singleton.mpr opens), opened⟩
  case h_3 name =>
    obtain ⟨header, given, opened⟩ := openLoop_eq_ok.mp read
    exact .inr ⟨_, @Stands.loopBody .list header tag ⟨name, given⟩, opened⟩
  case h_4 name =>
    obtain ⟨header, given, opened⟩ := openLoop_eq_ok.mp read
    exact .inr ⟨_, @Stands.loopBody .table header tag ⟨name, given⟩, opened⟩
  case h_5 name =>
    obtain ⟨given, opened⟩ := openCase_eq_ok.mp read
    exact .inr ⟨_, .prelude ⟨name, given⟩, opened⟩
  case h_6 name =>
    obtain ⟨target, given, opened⟩ := openCapture_eq_ok.mp read
    exact .inr ⟨_, .capture ⟨name, given⟩, opened⟩
  case h_7 name =>
    obtain ⟨target, expression, given, added⟩ := readAssign_eq_ok.mp read
    exact .inl ⟨_, .assign name given, added⟩
  case h_8 name =>
    obtain ⟨given, added⟩ := readEcho_eq_ok.mp read
    exact .inl ⟨_, .echo name given, added⟩
  case h_9 =>
    have own : tag.name ∉ ["if", "unless", "for", "tablerow", "case", "capture", "assign",
        "echo"] := by
      simp only [List.mem_cons, List.not_mem_nil, or_false, not_or]
      refine ⟨?_, ?_, ?_, ?_, ?_, ?_, ?_, ?_⟩ <;> assumption
    have alone : standsAlone tag.name = true := standsAlone_iff.mpr ⟨by simpa using free, own⟩
    exact .inl ⟨_, .tag alone, Except.ok.inj read⟩

/-! ## Tags that are refused -/

/-- The token of a fault is that of the tag that does not fit. -/
theorem readTag_eq_error {fault : Fault} (refused : state.readTag tag = .error fault) :
    fault.token = some tag.token := by
  unfold readTag openConditional openLoop openCase openCapture readAssign readEcho at refused
  repeat' split at refused
  all_goals cases refused
  all_goals rfl

theorem nextBranch?_eq_error {block : Block} {body : List Node} {fault : Fault}
    (refused : nextBranch? block body tag = some (.error fault)) :
    fault.token = some tag.token := by
  unfold nextBranch? at refused
  repeat' split at refused
  all_goals cases refused
  all_goals rfl

theorem step_eq_error {piece : Piece} {fault : Fault}
    (refused : state.step piece = .error fault) :
    ∃ tag, piece = .tag tag ∧ fault.token = some tag.token := by
  unfold step at refused
  split at refused
  · contradiction
  · contradiction
  · next tag =>
    refine ⟨tag, rfl, ?_⟩
    split at refused
    · exact readTag_eq_error refused
    split at refused
    · contradiction
    split at refused
    · next outcome goes =>
      cases outcome with
      | error cause => cases refused; exact nextBranch?_eq_error goes
      | ok block => contradiction
    · exact readTag_eq_error refused

end Tags

/-! ## Reading phrases -/

/-- The state after some pieces. -/
def Building.run (state : Building) (pieces : List Piece) : Except Fault Building :=
  pieces.foldlM step state

section Run

variable {state next : Building} {left right : List Piece}

@[simp] theorem run_nil : state.run [] = .ok state :=
  rfl

theorem run_cons {piece : Piece} (read : state.step piece = .ok next) :
    state.run (piece :: right) = next.run right := by
  rw [run, List.foldlM_cons, read]
  rfl

theorem run_append (read : state.run left = .ok next) :
    state.run (left ++ right) = next.run right := by
  rw [run] at read
  rw [run, List.foldlM_append, read]
  rfl

end Run

theorem run_tag_of_item {tag : Tag} {node : Node} (item : Item (.tag tag) node)
    (state : Building) : state.run [.tag tag] = .ok (state.add node) := by
  obtain ⟨free, added⟩ := readTag_of_item item state
  rw [run_cons ((step_of_free free state).trans added), run_nil]

/-- Pieces that the machine reads by adding nodes, whatever is open. -/
def Adds (pieces : List Piece) (nodes : List Node) : Prop :=
  ∀ state : Building, state.run pieces = .ok ⟨state.body ++ nodes, state.blocks⟩

theorem Adds.append {left right : List Piece} {first rest : List Node} (front : Adds left first)
    (back : Adds right rest) : Adds (left ++ right) (first ++ rest) := by
  intro state
  rw [run_append (front state), back, List.append_assoc]

/-- Clauses whose bodies the machine reads. -/
def AddsEach : List (Clause Phrase) → List (Clause Node) → Prop :=
  List.Forall₂ fun clause read => clause.tag = read.tag ∧ Adds (piecesOfAll clause.body) read.body

theorem piecesOfClauses_append (left right : List (Clause Phrase)) :
    piecesOfClauses (left ++ right) = piecesOfClauses left ++ piecesOfClauses right := by
  induction left with
  | nil => rfl
  | cons clause rest ih =>
    simp only [List.cons_append, piecesOfClauses, ih, List.append_assoc]

/-- Clauses that end with a certain one are read as clauses that do. -/
theorem AddsEach.snoc {clauses : List (Clause Phrase)} {done : List (Clause Node)}
    {last : Clause Node} (adds : AddsEach clauses (done ++ [last])) :
    ∃ earlier body, clauses = earlier ++ [⟨last.tag, body⟩] ∧ AddsEach earlier done ∧
      Adds (piecesOfAll body) last.body := by
  have front := List.forall₂_take_append clauses done [last] adds
  have back := List.forall₂_drop_append clauses done [last] adds
  obtain ⟨⟨tag, body⟩, rest, ⟨same, reads⟩, nothing, split⟩ := List.forall₂_cons_right_iff.mp back
  obtain rfl : tag = last.tag := same
  obtain rfl := List.forall₂_nil_right_iff.mp nothing
  exact ⟨_, body, by rw [← split, List.take_append_drop], front, reads⟩

/-- The machine reads the clauses of a block up to its closing tag. -/
theorem AddsEach.run {clauses : List (Clause Phrase)} {done : List (Clause Node)} {current : Tag}
    {body : List Node} {block : Block} (adds : AddsEach clauses (done ++ [⟨current, body⟩]))
    (stands : Stands done current block) (state : Building) :
    state.run (piecesOfClauses clauses) =
      .ok ⟨body, ⟨block, openingTag done current, state.body⟩ :: state.blocks⟩ := by
  induction done using List.reverseRecOn generalizing clauses current body block with
  | nil =>
    obtain ⟨earlier, phrases, rfl, nothing, reads⟩ := adds.snoc
    obtain rfl := List.forall₂_nil_right_iff.mp nothing
    obtain ⟨free, opened⟩ := readTag_of_stands stands state
    have first : state.step (.tag current) = .ok (state.openBlock current block) :=
      (step_of_free free state).trans opened
    simp only [List.nil_append, piecesOfClauses, List.append_nil]
    rw [run_cons first, reads]
    rfl
  | append_singleton done last ih =>
    obtain ⟨earlier, phrases, rfl, before, reads⟩ := adds.snoc
    obtain ⟨previous, stood, goes⟩ := stands.goBack
    have further := step_of_nextBranch? goes (openingTag done last.tag) state.body state.blocks
    rw [piecesOfClauses_append, run_append (ih before stood)]
    simp only [piecesOfClauses, List.append_nil]
    rw [run_cons further, reads, openingTag_snoc]
    rfl

/-- Clauses that are read have the tags that they are read with. -/
theorem AddsEach.openingTag_eq {opening current : Tag} {phrases : List Phrase}
    {further : List (Clause Phrase)} {done : List (Clause Node)} {body : List Node}
    (adds : AddsEach (⟨opening, phrases⟩ :: further) (done ++ [⟨current, body⟩])) :
    openingTag done current = opening := by
  cases done with
  | nil =>
    obtain ⟨⟨same, -⟩, -⟩ := List.forall₂_cons.mp adds
    exact same.symm
  | cons first rest =>
    obtain ⟨⟨same, -⟩, -⟩ := List.forall₂_cons.mp adds
    exact same.symm

mutual

/-- The machine reads the pieces of a phrase by adding the node that it stands for. -/
theorem Item.adds {phrase : Phrase} {node : Node} (item : Item phrase node) :
    Adds phrase.pieces [node] := by
  intro state
  cases item with
  | text => rfl
  | output => rfl
  | tag alone => exact run_tag_of_item (.tag alone) state
  | assign name given => exact run_tag_of_item (.assign name given) state
  | echo name given => exact run_tag_of_item (.echo name given) state
  | @block opening closing _ _ _ _ clauses rule name =>
    have adds := clauses.addsEach
    obtain ⟨done, current, body, block, rfl, stands, rfl⟩ := rule.stands
    have closes : closing.name = closingName block := by
      rw [stands.closingName_eq, adds.openingTag_eq, name]
    rw [Phrase.pieces, run_append (adds.run stands state), run_cons (step_of_closing closes _ _ _ _)]
    rfl

theorem Body.adds {phrases : List Phrase} {nodes : List Node} (body : Body phrases nodes) :
    Adds (piecesOfAll phrases) nodes := by
  cases body with
  | nil => intro state; simp [piecesOfAll]
  | cons item rest => exact item.adds.append rest.adds

theorem Clauses.addsEach {clauses : List (Clause Phrase)} {read : List (Clause Node)}
    (derived : Clauses clauses read) : AddsEach clauses read := by
  cases derived with
  | nil => exact .nil
  | cons body rest => exact .cons ⟨rfl, body.adds⟩ rest.addsEach

end

end MessageTemplate.Template
