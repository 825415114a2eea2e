import MessageTemplate.Proofs.Template.Machine

/-! # What the machine has read

The pieces that the machine has read fall into phrases and open blocks: for each open block there are
clauses that are complete and a tag with phrases behind it (`Reads`). Every step keeps it so. Hence
what has been read can always be completed, by closing what is open, and the machine gets through
pieces exactly if they are viable (`viable_iff`). -/

namespace MessageTemplate.Template

open Building

/-! ## Phrases at the end -/

theorem piecesOfAll_append (left right : List Phrase) :
    piecesOfAll (left ++ right) = piecesOfAll left ++ piecesOfAll right := by
  induction left with
  | nil => rfl
  | cons phrase rest ih => simp only [List.cons_append, piecesOfAll, ih, List.append_assoc]

theorem Body.snoc {phrases : List Phrase} {nodes : List Node} {phrase : Phrase} {node : Node}
    (body : Body phrases nodes) (item : Item phrase node) :
    Body (phrases ++ [phrase]) (nodes ++ [node]) := by
  induction phrases generalizing nodes with
  | nil =>
    cases body
    exact .cons item .nil
  | cons first rest ih =>
    cases body with
    | cons front others => exact .cons front (ih others)

theorem Clauses.snoc {clauses : List (Clause Phrase)} {read : List (Clause Node)} {tag : Tag}
    {phrases : List Phrase} {nodes : List Node} (derived : Clauses clauses read)
    (body : Body phrases nodes) :
    Clauses (clauses ++ [⟨tag, phrases⟩]) (read ++ [⟨tag, nodes⟩]) := by
  induction clauses generalizing read with
  | nil =>
    cases derived
    exact .cons body .nil
  | cons first rest ih =>
    cases derived with
    | cons front others => exact .cons front (ih others)

/-! ## The steps -/

/-- Pieces that fall into the phrases and open blocks of a state. -/
inductive Reads : List Piece → Building → Prop where
  | outside {phrases : List Phrase} {nodes : List Node} :
      Body phrases nodes → Reads (piecesOfAll phrases) ⟨nodes, []⟩
  | inside {pieces : List Piece} {before : List Node} {blocks : List OpenBlock}
      {clauses : List (Clause Phrase)} {done : List (Clause Node)} {current : Tag} {block : Block}
      {phrases : List Phrase} {nodes : List Node} :
      Reads pieces ⟨before, blocks⟩ → Clauses clauses done → Stands done current block →
      Body phrases nodes →
      Reads (pieces ++ piecesOfClauses (clauses ++ [⟨current, phrases⟩]))
        ⟨nodes, ⟨block, openingTag done current, before⟩ :: blocks⟩

theorem reads_start : Reads [] .start :=
  .outside .nil

namespace Reads

variable {pieces : List Piece} {state next : Building} {tag opening : Tag} {block : Block}
  {nodes before : List Node} {blocks : List OpenBlock}

theorem add {phrase : Phrase} {node : Node} (reads : Reads pieces state)
    (item : Item phrase node) : Reads (pieces ++ phrase.pieces) (state.add node) := by
  cases reads with
  | outside body =>
    simpa [piecesOfAll_append, piecesOfAll, Building.add] using Reads.outside (body.snoc item)
  | inside outer clauses stands body =>
    have more := Reads.inside outer clauses stands (body.snoc item)
    simpa [piecesOfClauses_append, piecesOfClauses, piecesOfAll_append, piecesOfAll, Building.add]
      using more

theorem openBlock (reads : Reads pieces state) (stands : Stands [] tag block) :
    Reads (pieces ++ [.tag tag]) (state.openBlock tag block) := by
  simpa [piecesOfClauses, piecesOfAll, Building.openBlock, openingTag] using
    Reads.inside reads .nil stands .nil

theorem goOn {further : Block} (reads : Reads pieces ⟨nodes, ⟨block, opening, before⟩ :: blocks⟩)
    (goes : nextBranch? block nodes tag = some (.ok further)) :
    Reads (pieces ++ [.tag tag]) ⟨[], ⟨further, opening, before⟩ :: blocks⟩ := by
  cases reads with
  | inside outer clauses stands body =>
    have more := Reads.inside outer (clauses.snoc body) (stands.goOn goes) .nil
    rw [openingTag_snoc] at more
    simpa [piecesOfClauses_append, piecesOfClauses, piecesOfAll] using more

/-- A closing tag completes a whole block, which begins with the tag that opened it. -/
theorem complete (reads : Reads pieces ⟨nodes, ⟨block, opening, before⟩ :: blocks⟩)
    (closes : tag.name = closingName block) :
    ∃ earlier phrases further, Reads earlier ⟨before, blocks⟩ ∧
      Item (.block (⟨opening, phrases⟩ :: further) tag) (closeNode block opening nodes) ∧
      pieces ++ [.tag tag] =
        earlier ++ (Phrase.block (⟨opening, phrases⟩ :: further) tag).pieces := by
  cases reads with
  | @inside earlier _ _ clauses done current _ phrases _ outer derived stands body =>
    have whole : Clauses (clauses ++ [⟨current, phrases⟩]) (done ++ [⟨current, nodes⟩]) :=
      derived.snoc body
    have same := whole.addsEach
    have rule : BlockRule (done ++ [⟨current, nodes⟩])
        (closeNode block (openingTag done current) nodes) := stands.blockRule
    rw [stands.closingName_eq] at closes
    obtain ⟨first, further, split⟩ : ∃ first further,
        clauses ++ [⟨current, phrases⟩] = first :: further :=
      List.exists_cons_of_ne_nil (by simp)
    obtain ⟨opened, inner⟩ := first
    rw [split] at whole same ⊢
    obtain rfl : openingTag done current = opened := same.openingTag_eq
    exact ⟨earlier, inner, further, outer, .block whole rule closes, by simp [Phrase.pieces]⟩

theorem close (reads : Reads pieces ⟨nodes, ⟨block, opening, before⟩ :: blocks⟩)
    (closes : tag.name = closingName block) :
    Reads (pieces ++ [.tag tag]) ⟨before ++ [closeNode block opening nodes], blocks⟩ := by
  obtain ⟨earlier, phrases, further, outer, item, whole⟩ := reads.complete closes
  rw [whole]
  exact outer.add item

theorem innermostOpen (reads : Reads pieces ⟨nodes, ⟨block, opening, before⟩ :: blocks⟩) :
    InnermostOpen opening pieces := by
  have closes : (Tag.mk (closingName block) "" default).name = closingName block := rfl
  obtain ⟨earlier, phrases, further, -, item, whole⟩ := reads.complete closes
  exact ⟨earlier, phrases, further, _, _, item, whole⟩

theorem readTag (reads : Reads pieces state) (read : state.readTag tag = .ok next) :
    Reads (pieces ++ [.tag tag]) next := by
  obtain ⟨node, item, rfl⟩ | ⟨block, stands, rfl⟩ := readTag_eq_ok read
  · exact reads.add item
  · exact reads.openBlock stands

/-- What has been read falls into phrases and open blocks after every step. -/
theorem step {piece : Piece} (reads : Reads pieces state) (read : state.step piece = .ok next) :
    Reads (pieces ++ [piece]) next := by
  unfold Building.step at read
  split at read
  · next content =>
    obtain rfl := Except.ok.inj read
    exact reads.add .text
  · next markup token =>
    obtain rfl := Except.ok.inj read
    exact reads.add .output
  · next tag =>
    split at read
    · exact reads.readTag read
    · next innermost outer opened =>
      obtain ⟨nodes, blocks⟩ := state
      obtain rfl : blocks = innermost :: outer := opened
      split at read
      · next closes =>
        obtain rfl := Except.ok.inj read
        exact reads.close closes
      split at read
      · next outcome goes =>
        cases outcome with
        | error fault => contradiction
        | ok further =>
          obtain rfl := Except.ok.inj read
          exact reads.goOn goes
      · exact reads.readTag read

theorem run {more : List Piece} (reads : Reads pieces state) (read : state.run more = .ok next) :
    Reads (pieces ++ more) next := by
  induction more generalizing pieces state with
  | nil =>
    obtain rfl := Except.ok.inj read
    simpa using reads
  | cons piece rest ih =>
    cases first : state.step piece with
    | error fault =>
      rw [Building.run, List.foldlM_cons, first] at read
      contradiction
    | ok middle =>
      rw [run_cons first] at read
      simpa using ih (reads.step first) read

/-- Closing what is open, the innermost block first, completes what has been read. -/
theorem viable (reads : Reads pieces state) : Viable pieces := by
  obtain ⟨nodes, blocks⟩ := state
  induction blocks generalizing pieces nodes with
  | nil =>
    cases reads with
    | outside body => exact ⟨[], _, _, by simp, body⟩
  | cons innermost outer ih =>
    have closes : (Tag.mk (closingName innermost.block) "" default).name =
        closingName innermost.block := rfl
    have closed := reads.close closes
    obtain ⟨rest, derivable⟩ := ih _ closed
    exact ⟨_ :: rest, by simpa using derivable⟩

end Reads

/-! ## How far the machine gets -/

/-- Pieces stand for nodes exactly if the machine builds these nodes. -/
theorem build_eq_ok_iff {pieces : List Piece} {nodes : List Node} :
    build pieces = .ok nodes ↔ ∃ phrases, Derives phrases pieces nodes := by
  have unfolded : build pieces = start.run pieces >>= finish := rfl
  rw [unfolded]
  constructor
  · intro built
    cases read : start.run pieces with
    | error fault => rw [read] at built; contradiction
    | ok state =>
      rw [read] at built
      have reads := reads_start.run read
      obtain ⟨body, blocks⟩ := state
      cases blocks with
      | cons => contradiction
      | nil =>
        obtain rfl : body = nodes := Except.ok.inj built
        generalize given : [] ++ pieces = whole at reads
        cases reads with
        | outside derived => exact ⟨_, given.symm, derived⟩
  · rintro ⟨phrases, rfl, body⟩
    rw [body.adds start]
    rfl

theorem run_of_append {state next : Building} {left right : List Piece}
    (read : state.run (left ++ right) = .ok next) : ∃ middle, state.run left = .ok middle := by
  cases front : state.run left with
  | ok middle => exact ⟨middle, rfl⟩
  | error fault =>
    rw [run] at front
    rw [run, List.foldlM_append, front] at read
    contradiction

/-- The machine gets through pieces exactly if they can be completed. -/
theorem viable_iff {pieces : List Piece} :
    Viable pieces ↔ ∃ state, start.run pieces = .ok state := by
  constructor
  · rintro ⟨rest, phrases, nodes, whole, body⟩
    have read := body.adds start
    rw [whole] at read
    exact run_of_append read
  · rintro ⟨state, read⟩
    simpa using (reads_start.run read).viable

theorem run_eq_error {state : Building} {pieces : List Piece} {fault : Fault}
    (refused : state.run pieces = .error fault) :
    ∃ before piece rest middle, pieces = before ++ piece :: rest ∧
      state.run before = .ok middle ∧ middle.step piece = .error fault := by
  induction pieces generalizing state with
  | nil => contradiction
  | cons piece rest ih =>
    cases first : state.step piece with
    | error cause =>
      rw [run, List.foldlM_cons, first] at refused
      obtain rfl : cause = fault := Except.error.inj refused
      exact ⟨[], piece, rest, state, rfl, rfl, first⟩
    | ok next =>
      rw [run_cons first] at refused
      obtain ⟨before, last, others, middle, rfl, reads, stops⟩ := ih refused
      exact ⟨piece :: before, last, others, middle, rfl, by rw [run_cons first, reads], stops⟩

/-- A fault has the token of the first tag that ends viability, or of the innermost open block. -/
theorem blames_of_build {pieces : List Piece} {fault : Fault}
    (refused : build pieces = .error fault) : Blames pieces fault.token := by
  have unfolded : build pieces = start.run pieces >>= finish := rfl
  rw [unfolded] at refused
  cases read : start.run pieces with
  | error cause =>
    rw [read] at refused
    obtain rfl : cause = fault := Except.error.inj refused
    obtain ⟨before, piece, rest, middle, rfl, reads, stops⟩ := run_eq_error read
    obtain ⟨tag, rfl, token⟩ := step_eq_error stops
    rw [token]
    refine .tag rfl (viable_iff.mpr ⟨middle, reads⟩) fun viable => ?_
    -- what can be completed is read to its end, but the machine stops at the tag
    obtain ⟨state, further⟩ := viable_iff.mp viable
    rw [run_append reads, run, List.foldlM_cons, stops] at further
    contradiction
  | ok state =>
    rw [read] at refused
    have reads := reads_start.run read
    obtain ⟨nodes, blocks⟩ := state
    cases blocks with
    | nil => contradiction
    | cons innermost outer =>
      obtain rfl := Except.error.inj refused
      exact .unclosed reads.viable reads.innermostOpen

end MessageTemplate.Template
