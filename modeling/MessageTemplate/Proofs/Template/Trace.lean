import MessageTemplate.Proofs.Template.Progress
import MessageTemplate.Template.Trace

/-! # Where tokens stand

The pieces of a source are cut off one after another, each with the position behind the one before. So
their tokens stand in the source where they say, one behind the other (`pieces_stand`), and a token that
is blamed on the way stands in the source too. A tree has its tokens from the pieces that it was built
from, in their order (`Body.tokens_sublist`). -/

namespace MessageTemplate.Template

open Text

/-! ## One token -/

theorem extract_middle (before bytes after : ByteArray) :
    (before ++ (bytes ++ after)).extract before.size (before.size + bytes.size) = bytes := by
  have behind := @ByteArray.extract_append_size_add before (bytes ++ after) 0 bytes.size
  rw [Nat.add_zero] at behind
  rw [behind]
  exact ByteArray.extract_append_eq_left rfl

/-- A token stands in a source that its text has been found in. -/
theorem Token.standsIn_of_split {before text after : List Char} (full : text ≠ []) :
    Token.StandsIn (String.ofList (before ++ text ++ after))
      ⟨String.ofList text, ⟨width before, width before + width text⟩⟩ := by
  have sizes (one other : List Char) : (String.ofList (one ++ other)).utf8ByteSize =
      width one + width other := by rw [utf8ByteSize_ofList, width_append]
  have positive : 0 < width text := by
    cases text with
    | nil => contradiction
    | cons c rest => exact Nat.add_pos_left c.utf8Size_pos _
  refine ⟨Nat.lt_add_of_pos_right positive, ?_, ?_, ?_, ?_⟩
  · rw [sizes, width_append]
    exact Nat.le_add_right _ _
  · refine String.Pos.Raw.isValid_iff_exists_append.mpr
      ⟨String.ofList before, String.ofList (text ++ after), ?_, ?_⟩
    · rw [← String.ofList_append, List.append_assoc]
    · exact congrArg String.Pos.Raw.mk (utf8ByteSize_ofList before).symm
  · refine String.Pos.Raw.isValid_iff_exists_append.mpr
      ⟨String.ofList (before ++ text), String.ofList after, ?_, ?_⟩
    · rw [← String.ofList_append]
    · exact congrArg String.Pos.Raw.mk (sizes before text).symm
  · have size (one : List Char) : width one = (String.ofList one).toByteArray.size :=
      (utf8ByteSize_ofList one).symm
    rw [String.ofList_append, String.ofList_append, String.toByteArray_append,
      String.toByteArray_append, ByteArray.append_assoc, size before, size text]
    exact extract_middle _ _ _

/-! ## Pieces -/

theorem dropLeading_suffix (mark : Char) (text : List Char) : dropLeading mark text <:+ text := by
  cases text with
  | nil => exact List.suffix_rfl
  | cons c rest =>
    rw [dropLeading]
    split
    · exact List.suffix_cons c rest
    · exact List.suffix_rfl

theorem isPrefixOf?_suffix {needle text rest : List Char}
    (cut : needle.isPrefixOf? text = some rest) : rest <:+ text :=
  ⟨needle, (isPrefixOf?_eq_some cut).symm⟩

/-- An end tag stands in front of what is behind it. -/
theorem endTag?_suffix {name text after : List Char} (found : endTag? name text = some after) :
    after <:+ text := by
  obtain ⟨one, first, found⟩ := Option.bind_eq_some_iff.mp found
  obtain ⟨two, second, third⟩ := Option.bind_eq_some_iff.mp found
  have name : two <:+ one :=
    (isPrefixOf?_suffix second).trans ((List.dropWhile_suffix _).trans (dropLeading_suffix _ _))
  have closing : after <:+ two :=
    (isPrefixOf?_suffix third).trans ((dropLeading_suffix _ _).trans (List.dropWhile_suffix _))
  exact closing.trans (name.trans (isPrefixOf?_suffix first))

theorem breakEndTag?_suffix {name text before after : List Char}
    (found : breakEndTag? name text = some (before, after)) : after <:+ text := by
  induction text generalizing before with
  | nil => simp [breakEndTag?] at found
  | cons c rest ih =>
    rw [breakEndTag?] at found
    split at found
    · next cut =>
      obtain ⟨-, rfl⟩ := Prod.mk.inj (Option.some.inj found)
      exact endTag?_suffix cut
    · obtain ⟨⟨first, last⟩, more, joined⟩ := Option.map_eq_some_iff.mp found
      obtain ⟨-, rfl⟩ := Prod.mk.inj joined
      exact (ih more).trans (List.suffix_cons c rest)

namespace Cut

variable {cut : Cut} {reading : Reading}

/-- What is read behind a token is counted. -/
structure Skips (cut : Cut) (reading : Reading) : Prop where
  tokens : (tokensOf reading.pieces).Sublist [cut.token]
  behind : ∃ skipped, cut.after = skipped ++ reading.after ∧ reading.skipped = width skipped

theorem skips_of_suffix {pieces : List Piece} {after : List Char} (plain : tokensOf pieces = [])
    (rest : after <:+ cut.after) :
    cut.Skips ⟨pieces, width cut.after - width after, after⟩ := by
  obtain ⟨skipped, whole⟩ := rest
  refine ⟨by simp [plain], skipped, whole.symm, ?_⟩
  rw [← whole, width_append, Nat.add_sub_cancel]

theorem skips_of_piece {piece : Piece} (own : piece.token? = some cut.token) :
    cut.Skips ⟨[piece], 0, cut.after⟩ :=
  ⟨by simp [tokensOf, own], [], rfl, rfl⟩

theorem skips_of_read (read : cut.read = .ok reading) : cut.Skips reading := by
  unfold Cut.read at read
  split at read
  · obtain rfl := Except.ok.inj read
    exact skips_of_piece rfl
  unfold Cut.readTag at read
  split at read
  · contradiction
  split at read
  · obtain rfl := Except.ok.inj read
    exact ⟨by simp [tokensOf], [], rfl, rfl⟩
  split at read
  · unfold Cut.readRaw at read
    split at read
    · next found =>
      obtain rfl := Except.ok.inj read
      exact skips_of_suffix rfl (breakEndTag?_suffix found)
    · contradiction
  split at read
  · unfold Cut.readComment at read
    split at read
    · next found =>
      obtain rfl := Except.ok.inj read
      exact skips_of_suffix rfl (breakEndTag?_suffix found)
    · contradiction
  · obtain rfl := Except.ok.inj read
    exact skips_of_piece rfl

/-- Of a cut that cannot be read the token is to blame. -/
theorem token_of_read_error {fault : Fault} (refused : cut.read = .error fault) :
    fault.token = some cut.token := by
  unfold Cut.read Cut.readTag Cut.readRaw Cut.readComment at refused
  repeat' split at refused
  all_goals cases refused
  all_goals rfl

end Cut

/-- What is cut off stands in the source, and the text behind it comes next. -/
theorem cutAt_stands {consumed body : List Char} {delimiter : Delimiter} {cut : Cut}
    (cuts : cutAt (width consumed) delimiter body = .ok cut) :
    cut.token.StandsIn (String.ofList (consumed ++ (delimiter.opening ++ body))) ∧
      cut.token.span.start = width consumed ∧
      ∃ read, consumed ++ (delimiter.opening ++ body) = read ++ cut.after ∧
        cut.token.span.stop = width read := by
  unfold cutAt at cuts
  split at cuts
  · next inner after broken =>
    obtain rfl := Except.ok.inj cuts
    have full : delimiter.opening ++ inner ++ delimiter.closing ≠ [] := by
      cases delimiter <;> simp [Delimiter.opening]
    have whole : consumed ++ (delimiter.opening ++ body) =
        consumed ++ (delimiter.opening ++ inner ++ delimiter.closing) ++ after := by
      rw [breakOn_eq_some broken]
      simp only [List.append_assoc]
    rw [whole]
    exact ⟨Token.standsIn_of_split full, rfl, _, rfl, (width_append _ _).symm⟩
  · contradiction

/-- Without a closing delimiter, the rest of the line is to blame. -/
theorem token_of_cutAt_error {consumed body : List Char} {delimiter : Delimiter} {fault : Fault}
    (refused : cutAt (width consumed) delimiter body = .error fault) :
    ∃ token, fault.token = some token ∧ token.span.start = width consumed ∧
      token.StandsIn (String.ofList (consumed ++ (delimiter.opening ++ body))) := by
  unfold cutAt at refused
  split at refused
  · contradiction
  · obtain rfl := Except.error.inj refused
    refine ⟨_, rfl, rfl, ?_⟩
    generalize text : delimiter.opening ++ body = rest
    have full : rest.takeWhile (· ≠ '\n') ≠ [] := by
      subst text
      cases delimiter <;> simp [Delimiter.opening]
    have stands := @Token.standsIn_of_split consumed _ (rest.dropWhile (· ≠ '\n')) full
    rwa [List.append_assoc, List.takeWhile_append_dropWhile] at stands

/-- A token stands in a source, behind the text that has been read of it. -/
structure Token.StandsBehind (consumed text : List Char) (token : Token) : Prop where
  standsIn : token.StandsIn (String.ofList (consumed ++ text))
  behind : width consumed ≤ token.span.start

theorem Token.StandsBehind.of_split {consumed before rest : List Char} {token : Token}
    (start : token.span.start = width (consumed ++ before))
    (stands : token.StandsIn (String.ofList (consumed ++ before ++ rest))) :
    token.StandsBehind consumed (before ++ rest) := by
  refine ⟨by rwa [← List.append_assoc], ?_⟩
  rw [start, width_append]
  exact Nat.le_add_right _ _

/-- The tokens of pieces, or the one that is to blame, stand behind what has been read. -/
def StandBehind (consumed text : List Char) : Except Fault (List Piece) → Prop
  | .ok found => (∀ token ∈ tokensOf found, token.StandsBehind consumed text) ∧
      (tokensOf found).Pairwise Token.Before
  | .error fault => ∃ token, fault.token = some token ∧ token.StandsBehind consumed text

theorem tokensOf_append (left right : List Piece) :
    tokensOf (left ++ right) = tokensOf left ++ tokensOf right :=
  List.filterMap_append

theorem tokensOf_textPiece (content : List Char) : tokensOf (textPiece content) = [] := by
  unfold textPiece
  split <;> rfl

/-- What stands behind a cut and what it skips stands behind what has been read before. -/
theorem StandBehind.of_skips {consumed text read skipped after : List Char} {cut : Cut}
    {reading : Reading} {outcome : Except Fault (List Piece)} {before : List Char}
    (stands : cut.token.StandsBehind consumed text) (skips : cut.Skips reading)
    (stop : cut.token.span.stop = width read)
    (whole : consumed ++ text = read ++ skipped ++ after)
    (rest : StandBehind (read ++ skipped) after outcome) :
    StandBehind consumed text
      (outcome.map fun others => textPiece before ++ reading.pieces ++ others) := by
  have first := stands.standsIn.start_lt_stop
  have step := width_append read skipped
  have later {token : Token} (found : token.StandsBehind (read ++ skipped) after) :
      token.StandsBehind consumed text := by
    have behind := found.behind
    refine ⟨whole ▸ found.standsIn, ?_⟩
    have := stands.behind
    omega
  cases outcome with
  | error fault =>
    obtain ⟨token, blamed, found⟩ := rest
    exact ⟨token, blamed, later found⟩
  | ok others =>
    obtain ⟨each, ordered⟩ := rest
    have own {token : Token} (member : token ∈ tokensOf reading.pieces) : token = cut.token :=
      List.mem_singleton.mp (skips.tokens.subset member)
    simp only [StandBehind, Except.map, tokensOf_append, tokensOf_textPiece, List.nil_append,
      List.forall_mem_append, List.pairwise_append]
    refine ⟨⟨fun token member => own member ▸ stands, fun token member => later (each token member)⟩,
      (List.pairwise_singleton _ _).sublist skips.tokens, ordered, ?_⟩
    intro one here other there
    have behind := (each other there).behind
    rw [own here, Token.Before]
    omega

/-- From a position on, the tokens of the pieces stand in the source, one behind the other. -/
theorem piecesFrom_stand {position : Nat} {text consumed : List Char}
    (same : position = width consumed) : StandBehind consumed text (piecesFrom position text) := by
  fun_induction piecesFrom position text generalizing consumed with
  | case1 position text none =>
    simp [StandBehind, tokensOf_textPiece]
  | case2 position text before delimiter body opened fault cuts =>
    rw [same, ← width_append] at cuts
    obtain ⟨token, blamed, start, stands⟩ := token_of_cutAt_error cuts
    rw [findOpening?_eq_some opened, List.append_assoc]
    exact ⟨token, blamed, .of_split start stands⟩
  | case3 position text before delimiter body opened cut cuts fault reads =>
    rw [same, ← width_append] at cuts
    obtain ⟨stands, start, -⟩ := cutAt_stands cuts
    rw [findOpening?_eq_some opened, List.append_assoc]
    exact ⟨cut.token, Cut.token_of_read_error reads, .of_split start stands⟩
  | case4 position text before delimiter body opened cut cuts reading reads ih =>
    rw [same, ← width_append] at cuts
    obtain ⟨stands, start, read, whole, stop⟩ := cutAt_stands cuts
    obtain ⟨skipped, after, width⟩ := (Cut.skips_of_read reads).behind
    have rest := @ih (read ++ skipped) (by rw [stop, width, width_append])
    rw [findOpening?_eq_some opened, List.append_assoc]
    refine StandBehind.of_skips (.of_split start stands) (Cut.skips_of_read reads) stop ?_ rest
    rw [after] at whole
    simpa using whole

/-- Tokens that stand in a source, one behind the other. -/
structure StandInOrder (source : String) (tokens : List Token) : Prop where
  standsIn : ∀ token ∈ tokens, token.StandsIn source
  ordered : tokens.Pairwise Token.Before

theorem StandInOrder.sublist {source : String} {some all : List Token}
    (stand : StandInOrder source all) (part : some.Sublist all) : StandInOrder source some :=
  ⟨fun token member => stand.standsIn token (part.subset member), stand.ordered.sublist part⟩

theorem pieces_stand (source : String) : StandBehind [] source.toList (pieces source) :=
  piecesFrom_stand rfl

theorem standInOrder_of_pieces {source : String} {found : List Piece}
    (cut : pieces source = .ok found) : StandInOrder source (tokensOf found) := by
  have stand := pieces_stand source
  rw [cut] at stand
  obtain ⟨each, ordered⟩ := stand
  exact ⟨fun token member => by simpa using (each token member).standsIn, ordered⟩

theorem standsIn_of_pieces_error {source : String} {fault : Fault}
    (refused : pieces source = .error fault) :
    ∃ token, fault.token = some token ∧ token.StandsIn source := by
  have stand := pieces_stand source
  rw [refused] at stand
  obtain ⟨token, blamed, stands⟩ := stand
  exact ⟨token, blamed, by simpa using stands.standsIn⟩

/-! ## Trees -/

theorem tokensInAll_append (left right : List Node) :
    tokensInAll (left ++ right) = tokensInAll left ++ tokensInAll right := by
  induction left with
  | nil => rfl
  | cons node rest ih => rw [List.cons_append, tokensInAll, tokensInAll, ih, List.append_assoc]

theorem tokensInBranches_eq (branches : List (Branch Node)) :
    tokensInBranches branches =
      branches.flatMap fun branch => branch.token :: tokensInAll branch.body := by
  induction branches with
  | nil => rfl
  | cons branch rest ih => rw [tokensInBranches, List.flatMap_cons, ih, List.cons_append]

theorem tokensInWhens_eq (whens : List (When Node)) :
    tokensInWhens whens =
      whens.flatMap fun branch => branch.token :: tokensInAll branch.body := by
  induction whens with
  | nil => rfl
  | cons branch rest ih => rw [tokensInWhens, List.flatMap_cons, ih, List.cons_append]

/-- The tokens of a clause that has been read. -/
def Clause.tokens (clause : Clause Node) : List Token :=
  clause.tag.token :: tokensInAll clause.body

/-- The bodies of clauses have their tokens among those of the clauses. -/
theorem tokensInAll_bodies (clauses : List (Clause Node)) :
    (tokensInAll (clauses.flatMap Clause.body)).Sublist (clauses.flatMap Clause.tokens) := by
  induction clauses with
  | nil => exact .slnil
  | cons clause rest ih =>
    rw [List.flatMap_cons, List.flatMap_cons, tokensInAll_append]
    exact (List.sublist_cons_self _ _).append ih

/-- A block has its tokens from its clauses, in their order. -/
theorem BlockRule.tokens_sublist {clauses : List (Clause Node)} {node : Node}
    (rule : BlockRule clauses node) : node.tokens.Sublist (clauses.flatMap Clause.tokens) := by
  cases rule with
  | conditional =>
    rw [Node.tokens, tokensInBranches_eq, List.flatMap_append, List.flatMap_append,
      List.flatMap_map, List.flatMap_map]
    exact List.Sublist.refl _
  | @loop _ _ first last =>
    rw [Node.tokens, List.flatMap_cons, Clause.tokens, List.cons_append]
    exact ((List.Sublist.refl _).append (tokensInAll_bodies last)).cons_cons _
  | @case first whens last =>
    have branches : tokensInWhens (whens.map Clause.when) = whens.flatMap Clause.tokens := by
      rw [tokensInWhens_eq, List.flatMap_map]
      rfl
    rw [Node.tokens, List.flatMap_cons, Clause.tokens, List.cons_append, List.flatMap_append,
      branches]
    exact (((List.Sublist.refl _).append (tokensInAll_bodies last)).trans
      (List.sublist_append_right _ _)).cons_cons _
  | capture =>
    rw [Node.tokens, List.flatMap_singleton, Clause.tokens]

mutual

/-- A node has its tokens from the pieces of its phrase, in their order. -/
theorem Item.tokens_sublist {phrase : Phrase} {node : Node} (item : Item phrase node) :
    node.tokens.Sublist (tokensOf phrase.pieces) := by
  cases item with
  | text => exact .slnil
  | output => exact .refl _
  | tag => exact .refl _
  | assign => exact .refl _
  | echo => exact .refl _
  | @block opening closing body further clauses _ derived rule name =>
    rw [Phrase.pieces, tokensOf_append]
    exact (rule.tokens_sublist.trans derived.tokens_sublist).trans (List.sublist_append_left _ _)

/-- Nodes have their tokens from the pieces of their phrases, in their order. -/
theorem Body.tokens_sublist {phrases : List Phrase} {nodes : List Node}
    (body : Body phrases nodes) : (tokensInAll nodes).Sublist (tokensOf (piecesOfAll phrases)) := by
  cases body with
  | nil => exact .slnil
  | cons item rest =>
    rw [tokensInAll, piecesOfAll, tokensOf_append]
    exact item.tokens_sublist.append rest.tokens_sublist

theorem Clauses.tokens_sublist {clauses : List (Clause Phrase)} {read : List (Clause Node)}
    (derived : Clauses clauses read) :
    (read.flatMap Clause.tokens).Sublist (tokensOf (piecesOfClauses clauses)) := by
  cases derived with
  | nil => exact .slnil
  | @cons tag body nodes rest others first more =>
    have inside := first.tokens_sublist
    have behind := more.tokens_sublist
    rw [List.flatMap_cons, piecesOfClauses]
    change (tag.token :: tokensInAll nodes ++ others.flatMap Clause.tokens).Sublist
      (tag.token :: tokensOf (piecesOfAll body ++ piecesOfClauses rest))
    rw [tokensOf_append]
    exact (inside.append behind).cons_cons _

end

/-- The token that is to blame for a fault in the blocks is the one of a piece. -/
theorem Blames.mem_tokensOf {found : List Piece} {blamed : Option Token}
    (blames : Blames found blamed) : ∃ token ∈ tokensOf found, blamed = some token := by
  have tag {tag : Tag} (member : Piece.tag tag ∈ found) :
      ∃ token ∈ tokensOf found, some tag.token = some token :=
    ⟨tag.token, List.mem_filterMap.mpr ⟨_, member, rfl⟩, rfl⟩
  cases blames with
  | tag split => exact tag (by simp [split])
  | unclosed viable innermost =>
    obtain ⟨before, body, further, closing, node, item, whole⟩ := innermost
    rw [Phrase.pieces, ← List.append_assoc] at whole
    obtain ⟨rfl, -⟩ := List.append_inj' whole rfl
    exact tag (by simp [piecesOfClauses])

theorem standInOrder_of_parse {source : String} {nodes : List Node}
    (parsed : parse source = .ok nodes) : StandInOrder source (tokensInAll nodes) := by
  have unfolded : parse source = pieces source >>= build := rfl
  rw [unfolded] at parsed
  cases cut : pieces source with
  | error fault =>
    rw [cut] at parsed
    contradiction
  | ok found =>
    rw [cut] at parsed
    obtain ⟨phrases, rfl, body⟩ := build_eq_ok_iff.mp parsed
    exact (standInOrder_of_pieces cut).sublist body.tokens_sublist

/-- Whatever is wrong with a source, a token in it is to blame. -/
theorem standsIn_of_parse_error {source : String} {fault : Fault}
    (refused : parse source = .error fault) :
    ∃ token, fault.token = some token ∧ token.StandsIn source := by
  have unfolded : parse source = pieces source >>= build := rfl
  rw [unfolded] at refused
  cases cut : pieces source with
  | error cause =>
    rw [cut] at refused
    obtain rfl : cause = fault := Except.error.inj refused
    exact standsIn_of_pieces_error cut
  | ok found =>
    rw [cut] at refused
    obtain ⟨token, member, blamed⟩ := (blames_of_build refused).mem_tokensOf
    exact ⟨token, blamed, (standInOrder_of_pieces cut).standsIn token member⟩

end MessageTemplate.Template
