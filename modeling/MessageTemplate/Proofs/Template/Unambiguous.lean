import MessageTemplate.Proofs.Template.Machine

/-! # Pieces fall into phrases in one way

No phrase starts with a tag that belongs to a block, and clauses are only ever followed by such a
tag. So phrases end where such a tag stands, and two ways to read the same pieces cannot part. -/

namespace MessageTemplate.Template

/-- Whether pieces are at an end or go on with a tag that belongs to a block. -/
def Stops : List Piece → Prop
  | .tag tag :: _ => Building.needsBlock tag.name = true
  | [] => True
  | _ => False

/-- The names of tags that open blocks. -/
def openingNames : List String :=
  ["if", "unless", "for", "tablerow", "case", "capture"]

/-- A tag that goes on a block. -/
def Continues (tag : Tag) : Prop :=
  tag.name ∈ ["else", "elsif", "when"]

theorem IsLast.continues {clauses : List (Clause Node)} (last : IsLast clauses) :
    ∀ clause ∈ clauses, Continues clause.tag := by
  cases last with
  | none => simp
  | otherwise name => simp [Continues, name]

/-- A block begins with an opening tag, and its other clauses begin with tags that go on it. -/
theorem BlockRule.tags {first : Clause Node} {further : List (Clause Node)} {node : Node}
    (rule : BlockRule (first :: further) node) :
    first.tag.name ∈ openingNames ∧ ∀ clause ∈ further, Continues clause.tag := by
  generalize given : first :: further = clauses at rule
  cases rule with
  | @conditional kind clauses last headed final =>
    cases clauses with
    | nil => exact headed.elim
    | cons opening elsifs =>
      obtain ⟨rfl, rfl⟩ := List.cons.inj given
      obtain ⟨opens, others⟩ := headed
      refine ⟨by rw [opens.1]; cases kind <;> decide, fun clause member => ?_⟩
      rcases List.mem_append.mp member with middle | last
      · simp [Continues, (others _ (List.mem_map_of_mem middle)).1]
      · exact final.continues clause last
  | @loop kind _ _ _ opens final =>
    obtain ⟨rfl, rfl⟩ := List.cons.inj given
    exact ⟨by rw [opens.1]; cases kind <;> decide, final.continues⟩
  | case opens branches final =>
    obtain ⟨rfl, rfl⟩ := List.cons.inj given
    refine ⟨by rw [opens.1]; decide, fun clause member => ?_⟩
    rcases List.mem_append.mp member with middle | last
    · simp [Continues, (branches clause middle).1]
    · exact final.continues clause last
  | capture opens =>
    obtain ⟨rfl, rfl⟩ := List.cons.inj given
    exact ⟨by rw [opens.1]; decide, by simp⟩

/-- The phrase that a piece is on its own. -/
def Piece.phrase : Piece → Phrase
  | .text content => .text content
  | .output markup token => .output markup token
  | .tag found => .tag found

/-- Whether a piece is a phrase on its own. -/
def Piece.IsSingle : Piece → Prop
  | .tag found => Building.needsBlock found.name = false ∧ found.name ∉ openingNames
  | _ => True

/-- A phrase that stands for a node is a single piece or a block. -/
theorem Item.single_or_block {phrase : Phrase} {node : Node} (item : Item phrase node) :
    (∃ piece : Piece, piece.IsSingle ∧ phrase = piece.phrase) ∨
      ∃ clauses closing, phrase = .block clauses closing := by
  cases item with
  | @text content => exact .inl ⟨.text content, trivial, rfl⟩
  | @output markup token => exact .inl ⟨.output markup token, trivial, rfl⟩
  | @tag tag alone =>
    obtain ⟨free, own⟩ := standsAlone_iff.mp alone
    refine .inl ⟨.tag tag, ⟨free, fun member => own ?_⟩, rfl⟩
    simp only [openingNames, List.mem_cons, List.not_mem_nil, or_false] at member ⊢
    tauto
  | @assign tag _ _ name =>
    exact .inl ⟨.tag tag, by simp only [Piece.IsSingle, name]; decide, rfl⟩
  | @echo tag name =>
    exact .inl ⟨.tag tag, by simp only [Piece.IsSingle, name]; decide, rfl⟩
  | block => exact .inr ⟨_, _, rfl⟩

theorem Piece.pieces_phrase (piece : Piece) : piece.phrase.pieces = [piece] := by
  cases piece <;> rfl

theorem not_stops_of_isSingle {piece : Piece} (single : piece.IsSingle) (rest : List Piece) :
    ¬Stops (piece :: rest) := by
  cases piece with
  | text => exact id
  | output => exact id
  | tag found =>
    intro stops
    rw [Stops, single.1] at stops
    contradiction

/-- The pieces of a block begin with its opening tag. -/
theorem Item.opening {clauses : List (Clause Phrase)} {closing : Tag} {node : Node}
    (item : Item (.block clauses closing) node) :
    ∃ opening rest, opening.name ∈ openingNames ∧
      (Phrase.block clauses closing).pieces = .tag opening :: rest := by
  cases item with
  | @block opening _ _ _ _ _ derived rule name =>
    cases derived with
    | cons body rest => exact ⟨opening, _, rule.tags.1, rfl⟩

theorem not_stops_of_item {phrase : Phrase} {node : Node} (item : Item phrase node)
    (rest : List Piece) : ¬Stops (phrase.pieces ++ rest) := by
  obtain ⟨piece, single, rfl⟩ | ⟨clauses, closing, rfl⟩ := item.single_or_block
  · rw [piece.pieces_phrase]
    exact not_stops_of_isSingle single rest
  · obtain ⟨opening, others, name, starts⟩ := item.opening
    rw [starts]
    intro stops
    change Building.needsBlock opening.name = true at stops
    simp only [openingNames, List.mem_cons, List.not_mem_nil, or_false] at name
    rcases name with name | name | name | name | name | name
    all_goals
      rw [name] at stops
      contradiction

/-- A single piece is told from a block by its name. -/
theorem Item.unique_of_single {piece : Piece} {other : Phrase} {node : Node} {left right : List Piece}
    (single : piece.IsSingle) (item : Item other node)
    (same : piece.phrase.pieces ++ left = other.pieces ++ right) :
    piece.phrase = other ∧ left = right := by
  rw [piece.pieces_phrase] at same
  obtain ⟨found, -, rfl⟩ | ⟨clauses, closing, rfl⟩ := item.single_or_block
  · rw [found.pieces_phrase] at same
    obtain ⟨rfl, rfl⟩ := List.cons.inj same
    exact ⟨rfl, rfl⟩
  · obtain ⟨opening, rest, name, starts⟩ := item.opening
    rw [starts] at same
    obtain ⟨rfl, -⟩ := List.cons.inj same
    exact absurd name single.2

theorem Item.unique_of_not_block {phrase other : Phrase} {node more : Node}
    {left right : List Piece} (one : Item phrase node)
    (single : ∀ clauses closing, phrase ≠ .block clauses closing) (two : Item other more)
    (same : phrase.pieces ++ left = other.pieces ++ right) : phrase = other ∧ left = right := by
  obtain ⟨piece, found, rfl⟩ | ⟨clauses, closing, block⟩ := one.single_or_block
  · exact two.unique_of_single found same
  · exact absurd block (single clauses closing)

theorem stops_of_continues {tag : Tag} (continues : Continues tag) (rest : List Piece) :
    Stops (.tag tag :: rest) :=
  needsBlock_iff.mpr (.inr continues)

/-- A tag that goes on a block does not close one. -/
theorem Continues.not_closing {tag : Tag} (continues : Continues tag) :
    isClosing tag.name = false := by
  simp only [Continues, List.mem_cons, List.not_mem_nil, or_false] at continues
  rcases continues with name | name | name
  all_goals
    rw [name]
    rfl

/-- Clauses that go on a block stop what stands before them, and so does a closing tag. -/
theorem stops_of_clauses {clauses : List (Clause Phrase)} {closing : Tag} {rest : List Piece}
    (continues : ∀ clause ∈ clauses, Continues clause.tag) (closes : isClosing closing.name = true) :
    Stops (piecesOfClauses clauses ++ .tag closing :: rest) := by
  cases clauses with
  | nil => exact needsBlock_iff.mpr (.inl closes)
  | cons first others => exact stops_of_continues (continues first List.mem_cons_self) _

theorem Clauses.tags_eq {clauses : List (Clause Phrase)} {read : List (Clause Node)}
    (derived : Clauses clauses read) : clauses.map Clause.tag = read.map Clause.tag := by
  induction clauses generalizing read with
  | nil => cases derived; rfl
  | cons first rest ih =>
    cases derived with
    | cons body others => simp only [List.map_cons, ih others]

theorem Clauses.continues {clauses : List (Clause Phrase)} {read : List (Clause Node)}
    (derived : Clauses clauses read) (continues : ∀ clause ∈ read, Continues clause.tag) :
    ∀ clause ∈ clauses, Continues clause.tag := by
  intro clause member
  have tag := List.mem_map_of_mem (f := Clause.tag) member
  rw [derived.tags_eq] at tag
  obtain ⟨other, inside, same⟩ := List.mem_map.mp tag
  exact same ▸ continues other inside

mutual

theorem Item.unique {phrase other : Phrase} {node more : Node} {left right : List Piece}
    (one : Item phrase node) (two : Item other more)
    (same : phrase.pieces ++ left = other.pieces ++ right) : phrase = other ∧ left = right := by
  cases one with
  | text => exact Item.text.unique_of_not_block (by simp) two same
  | output => exact Item.output.unique_of_not_block (by simp) two same
  | tag alone => exact (Item.tag alone).unique_of_not_block (by simp) two same
  | assign name given => exact (Item.assign name given).unique_of_not_block (by simp) two same
  | echo name given => exact (Item.echo name given).unique_of_not_block (by simp) two same
  | @block _ closing _ _ _ _ derived rule name =>
    obtain ⟨piece, single, rfl⟩ | ⟨clauses, last, rfl⟩ := two.single_or_block
    · obtain ⟨alike, rest⟩ := (Item.block derived rule name).unique_of_single single same.symm
      exact ⟨alike.symm, rest.symm⟩
    · cases two with
      | block second law title =>
        cases derived with
        | cons body further =>
          cases second with
          | cons inner others =>
            have goes := further.continues rule.tags.2
            have continues := others.continues law.tags.2
            have closes : isClosing closing.name = true := name ▸ isClosing_append _
            have ends : isClosing last.name = true := title ▸ isClosing_append _
            simp only [Phrase.pieces, piecesOfClauses, List.cons_append, List.append_assoc,
              List.nil_append] at same
            obtain ⟨opening, behind⟩ := List.cons.inj same
            obtain rfl := Piece.tag.inj opening
            obtain ⟨rfl, beyond⟩ := body.unique inner behind (stops_of_clauses goes closes)
              (stops_of_clauses continues ends)
            obtain ⟨rfl, rfl, rest⟩ := further.unique others goes continues closes ends beyond
            exact ⟨rfl, rest⟩

theorem Body.unique {phrases others : List Phrase} {nodes more : List Node}
    {left right : List Piece} (one : Body phrases nodes) (two : Body others more)
    (same : piecesOfAll phrases ++ left = piecesOfAll others ++ right) (stop : Stops left)
    (halt : Stops right) : phrases = others ∧ left = right := by
  cases one with
  | nil =>
    cases two with
    | nil => exact ⟨rfl, same⟩
    | cons item rest =>
      simp only [piecesOfAll, List.nil_append, List.append_assoc] at same
      exact absurd (same ▸ stop) (not_stops_of_item item _)
  | cons item rest =>
    cases two with
    | nil =>
      simp only [piecesOfAll, List.nil_append, List.append_assoc] at same
      exact absurd (same ▸ halt) (not_stops_of_item item _)
    | cons other further =>
      simp only [piecesOfAll, List.append_assoc] at same
      obtain ⟨rfl, behind⟩ := item.unique other same
      obtain ⟨rfl, beyond⟩ := rest.unique further behind stop halt
      exact ⟨rfl, beyond⟩

theorem Clauses.unique {clauses others : List (Clause Phrase)} {read more : List (Clause Node)}
    {closing last : Tag} {left right : List Piece} (one : Clauses clauses read)
    (two : Clauses others more) (goes : ∀ clause ∈ clauses, Continues clause.tag)
    (continues : ∀ clause ∈ others, Continues clause.tag) (closes : isClosing closing.name = true)
    (ends : isClosing last.name = true)
    (same : piecesOfClauses clauses ++ .tag closing :: left =
      piecesOfClauses others ++ .tag last :: right) :
    clauses = others ∧ closing = last ∧ left = right := by
  cases one with
  | nil =>
    cases two with
    | nil =>
      obtain ⟨head, rfl⟩ := List.cons.inj same
      exact ⟨rfl, Piece.tag.inj head, rfl⟩
    | cons body rest =>
      obtain rfl := Piece.tag.inj (List.cons.inj same).1
      rw [(continues _ List.mem_cons_self).not_closing] at closes
      contradiction
  | cons body rest =>
    cases two with
    | nil =>
      obtain rfl := Piece.tag.inj (List.cons.inj same).1
      rw [(goes _ List.mem_cons_self).not_closing] at ends
      contradiction
    | cons inner further =>
      have going := fun clause member => goes clause (List.mem_cons_of_mem _ member)
      have continuing := fun clause member => continues clause (List.mem_cons_of_mem _ member)
      simp only [piecesOfClauses, List.cons_append, List.append_assoc] at same
      obtain ⟨tag, behind⟩ := List.cons.inj same
      obtain rfl := Piece.tag.inj tag
      obtain ⟨rfl, beyond⟩ := body.unique inner behind (stops_of_clauses going closes)
        (stops_of_clauses continuing ends)
      obtain ⟨rfl, others⟩ := rest.unique further going continuing closes ends beyond
      exact ⟨rfl, others⟩

end

/-- Pieces are derived from phrases in one way. -/
theorem Derives.unique {phrases others : List Phrase} {pieces : List Piece}
    {nodes more : List Node} (one : Derives phrases pieces nodes)
    (two : Derives others pieces more) : phrases = others := by
  have same : piecesOfAll phrases ++ [] = piecesOfAll others ++ [] := by rw [one.1, two.1]
  exact (one.2.unique two.2 same trivial trivial).1

end MessageTemplate.Template
