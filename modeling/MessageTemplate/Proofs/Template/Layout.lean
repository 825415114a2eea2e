import MessageTemplate.Proofs.Template.Concatenation
import MessageTemplate.Template.Layout

/-! # Templates are cut along their layout

All searches of the lexer end at the first place that fits: the first opening delimiter, the first
closing one behind it, the first end tag of a block. So a source is cut into pieces exactly if it is
laid out in stretches, and these become the pieces, each at its position (`pieces_eq_ok_iff`). -/

namespace MessageTemplate.Template

open Text

/-! ## End tags -/

section EndTags

variable {name text : List Char}

/-- The name of an end tag starts neither with a blank nor with a hyphen. -/
def StartsDark (name : List Char) : Prop :=
  ∃ c rest, name = c :: rest ∧ isBlank c = false ∧ c ≠ '-'

theorem startsDark_endName (shield : Shield) : StartsDark shield.endName := by
  cases shield with
  | raw => exact ⟨'e', "ndraw".toList, rfl, by decide, by decide⟩
  | comment => exact ⟨'e', "ndcomment".toList, rfl, by decide, by decide⟩

theorem exists_hyphen_append (text : List Char) :
    ∃ first, first ∈ [[], ['-']] ∧ text = first ++ dropLeading '-' text := by
  cases text with
  | nil => exact ⟨[], by simp, rfl⟩
  | cons c rest =>
    by_cases hyphen : c = '-'
    · exact ⟨['-'], by simp, by simp [dropLeading, hyphen]⟩
    · exact ⟨[], by simp, by simp [dropLeading, hyphen]⟩

theorem dropLeading_hyphen_append {first : List Char} (hyphen : first ∈ [[], ['-']])
    (other : text.head? ≠ some '-') : dropLeading '-' (first ++ text) = text := by
  rcases List.mem_pair.mp hyphen with rfl | rfl
  · cases text with
    | nil => rfl
    | cons c rest => exact if_neg fun same => other (congrArg some same)
  · rfl

theorem exists_blanks_append (text : List Char) :
    ∃ blanks : List Char, blanks.all isBlank ∧ text = blanks ++ trimStart text :=
  ⟨text.takeWhile isBlank, List.all_takeWhile, (List.takeWhile_append_dropWhile).symm⟩

theorem trimStart_blanks_append {blanks : List Char} (blank : blanks.all isBlank)
    (dark : ∀ c ∈ text.head?, isBlank c = false) : trimStart (blanks ++ text) = text := by
  rw [trimStart, List.dropWhile_append_of_pos (List.all_eq_true.mp blank)]
  exact trimStart_eq_self dark

/-- What is found at the start of a text is an end tag. -/
theorem exists_isEndTag {after : List Char} (found : endTag? name text = some after) :
    ∃ tag, IsEndTag name tag ∧ text = tag ++ after := by
  obtain ⟨one, opening, found⟩ := Option.bind_eq_some_iff.mp found
  obtain ⟨two, named, closing⟩ := Option.bind_eq_some_iff.mp found
  obtain ⟨first, firstHyphen, first_eq⟩ := exists_hyphen_append one
  obtain ⟨lead, leadBlank, lead_eq⟩ := exists_blanks_append (dropLeading '-' one)
  obtain ⟨trail, trailBlank, trail_eq⟩ := exists_blanks_append two
  obtain ⟨last, lastHyphen, last_eq⟩ := exists_hyphen_append (trimStart two)
  refine ⟨_, .intro firstHyphen leadBlank trailBlank lastHyphen, ?_⟩
  rw [isPrefixOf?_eq_some opening, first_eq, lead_eq, isPrefixOf?_eq_some named, trail_eq, last_eq,
    isPrefixOf?_eq_some closing]
  simp [Delimiter.enclose]

/-- An end tag is found where it stands. -/
theorem IsEndTag.endTag? (isEnd : IsEndTag name text) (starts : StartsDark name)
    (more : List Char) : endTag? name (text ++ more) = some more := by
  obtain ⟨c, rest, rfl, dark, other⟩ := starts
  obtain @⟨first, lead, trail, last, firstHyphen, leadBlank, trailBlank, lastHyphen⟩ := isEnd
  -- the text behind each part of the tag, from its end on
  have closed : dropLeading '-' (last ++ (Delimiter.tag.closing ++ more)) =
      Delimiter.tag.closing ++ more :=
    dropLeading_hyphen_append lastHyphen (by simp [Delimiter.closing])
  have trailed : trimStart (trail ++ (last ++ (Delimiter.tag.closing ++ more))) =
      last ++ (Delimiter.tag.closing ++ more) := by
    refine trimStart_blanks_append trailBlank fun d head => ?_
    rcases List.mem_pair.mp lastHyphen with rfl | rfl
    · obtain rfl : '%' = d := by simpa [Delimiter.closing] using head
      decide
    · obtain rfl : '-' = d := by simpa using head
      decide
  have named : trimStart (lead ++ (c :: rest ++
      (trail ++ (last ++ (Delimiter.tag.closing ++ more))))) =
        c :: rest ++ (trail ++ (last ++ (Delimiter.tag.closing ++ more))) := by
    refine trimStart_blanks_append leadBlank fun d head => ?_
    obtain rfl : c = d := by simpa using head
    exact dark
  have opened : dropLeading '-' (first ++ (lead ++ (c :: rest ++
      (trail ++ (last ++ (Delimiter.tag.closing ++ more)))))) =
        lead ++ (c :: rest ++ (trail ++ (last ++ (Delimiter.tag.closing ++ more)))) := by
    refine dropLeading_hyphen_append firstHyphen ?_
    cases lead with
    | nil => simpa using other
    | cons b lead =>
      have blank : isBlank b = true := List.all_eq_true.mp leadBlank b List.mem_cons_self
      simp only [List.cons_append, List.head?_cons, ne_eq, Option.some.injEq]
      rintro rfl
      cases blank
  have whole : Delimiter.tag.enclose (first ++ (lead ++ (c :: rest ++ (trail ++ last)))) ++ more =
      Delimiter.tag.opening ++ (first ++ (lead ++ (c :: rest ++
        (trail ++ (last ++ (Delimiter.tag.closing ++ more)))))) := by
    simp [Delimiter.enclose]
  rw [whole, Template.endTag?]
  simp only [isPrefixOf?_append, Option.bind_eq_bind, Option.bind_some, opened, named, trailed,
    closed]

theorem IsEndTag.mem_brace (isEnd : IsEndTag name text) : '\x7b' ∈ text := by
  cases isEnd with
  | intro => simp [Delimiter.enclose, Delimiter.opening]

/-- The search for an end tag ends at one that closes what stands before it. -/
theorem exists_ends_of_breakEndTag? {content after : List Char} (starts : StartsDark name)
    (found : breakEndTag? name text = some (content, after)) :
    ∃ ending, Ends name content ending ∧ text = content ++ ending ++ after := by
  induction text generalizing content with
  | nil => contradiction
  | cons c rest ih =>
    rw [breakEndTag?] at found
    split at found
    · next here =>
      obtain ⟨rfl, rfl⟩ := Prod.mk.inj (Option.some.inj found)
      obtain ⟨ending, isEnd, whole⟩ := exists_isEndTag here
      exact ⟨ending, ⟨isEnd, fun _ _ _ _ _ => Nat.zero_le _⟩, whole⟩
    · next none =>
      obtain ⟨⟨inner, behind⟩, later, joined⟩ := Option.map_eq_some_iff.mp found
      obtain ⟨rfl, rfl⟩ := Prod.mk.inj joined
      obtain ⟨ending, ends, rfl⟩ := ih later
      refine ⟨ending, ⟨ends.isEndTag, fun before tag after isEnd split => ?_⟩, rfl⟩
      cases before with
      | nil =>
        have here := isEnd.endTag? starts (after ++ behind)
        rw [List.nil_append] at split
        rw [← List.append_assoc, ← split, List.cons_append, List.cons_append, none] at here
        cases here
      | cons d before =>
        obtain ⟨-, split⟩ := List.cons.inj split
        exact Nat.succ_le_succ (ends.first before tag after isEnd split)

/-- An end tag that closes a content is found behind it. -/
theorem Ends.breakEndTag? {content ending : List Char} (ends : Ends name content ending)
    (starts : StartsDark name) (absent : '\x7b' ∉ name) (more : List Char) :
    breakEndTag? name (content ++ ending ++ more) = some (content, more) := by
  induction content with
  | nil =>
    have here := ends.isEndTag.endTag? starts more
    have full := List.ne_nil_of_mem ends.isEndTag.mem_brace
    obtain ⟨c, rest, whole⟩ := List.exists_cons_of_ne_nil full
    rw [whole, List.cons_append] at here
    rw [List.nil_append, whole, List.cons_append, Template.breakEndTag?, here]
  | cons c content ih =>
    have brace : '\x7b' ∈ content ++ ending := List.mem_append_right _ ends.isEndTag.mem_brace
    have none : endTag? name (c :: (content ++ ending) ++ more) = Option.none := by
      rw [endTag?_append_of_mem more absent brace, Option.map_eq_none_iff,
        Option.eq_none_iff_forall_ne_some]
      intro after found
      obtain ⟨tag, isEnd, whole⟩ := exists_isEndTag found
      exact absurd (ends.first [] tag after isEnd whole) (Nat.not_succ_le_zero _)
    have further : Ends name content ending := by
      refine ⟨ends.isEndTag, fun before tag after isEnd split => ?_⟩
      exact Nat.le_of_succ_le_succ
        (ends.first (c :: before) tag after isEnd (congrArg (List.cons c) split))
    rw [List.cons_append, List.cons_append, Template.breakEndTag?]
    rw [List.cons_append] at none
    rw [none, ih further]
    rfl

end EndTags

/-! ## Delimiters -/

section Delimiters

variable {text before body : List Char} {delimiter : Delimiter}

theorem quiet_nil : Quiet [] := by
  intro delimiter
  cases delimiter <;> decide

theorem quiet_cons_iff {c : Char} {rest : List Char} :
    Quiet (c :: rest) ↔ openingAt? (c :: rest) = none ∧ Quiet rest := by
  have both : ∀ text, Quiet text ↔
      ¬ occurs ['\x7b', '\x7b'] text ∧ ¬ occurs ['\x7b', '%'] text := by
    refine fun text => ⟨fun quiet => ⟨quiet .output, quiet .tag⟩, fun ⟨output, tag⟩ delimiter => ?_⟩
    cases delimiter with
    | output => exact output
    | tag => exact tag
  rw [both, both, occurs_pair_cons, occurs_pair_cons, openingAt?_eq_none]
  grind

theorem findOpening?_eq_none_iff : findOpening? text = none ↔ Quiet text := by
  induction text with
  | nil => exact iff_of_true rfl quiet_nil
  | cons c rest ih =>
    rw [findOpening?, quiet_cons_iff]
    cases openingAt? (c :: rest) with
    | some opened => simp
    | none => simp [ih]

/-- Before the first opening delimiter nothing opens, not even with its first brace. -/
theorem quiet_of_findOpening? (found : findOpening? text = some (before, delimiter, body)) :
    Quiet before ∧ before.getLast? ≠ some '\x7b' := by
  induction text generalizing before with
  | nil => contradiction
  | cons c rest ih =>
    rw [findOpening?] at found
    split at found
    · obtain ⟨rfl, -⟩ := Prod.mk.inj (Option.some.inj found)
      exact ⟨quiet_nil, by simp⟩
    · next none =>
      obtain ⟨⟨inner, kind, behind⟩, later, joined⟩ := Option.map_eq_some_iff.mp found
      simp only [Prod.mk.injEq] at joined
      obtain ⟨rfl, rfl, rfl⟩ := joined
      obtain ⟨quiet, last⟩ := ih later
      have apart := openingAt?_eq_none.mp none
      rw [findOpening?_eq_some later] at apart
      rw [quiet_cons_iff, openingAt?_eq_none]
      cases inner with
      | nil =>
        refine ⟨⟨by simp, quiet⟩, fun brace => apart ⟨Option.some.inj brace, ?_⟩⟩
        cases kind <;> simp [Delimiter.opening]
      | cons d inner => exact ⟨⟨apart, quiet⟩, by rwa [List.getLast?_cons_cons]⟩

theorem findOpening?_opening (delimiter : Delimiter) (body : List Char) :
    findOpening? (delimiter.opening ++ body) = some ([], delimiter, body) := by
  cases delimiter <;> rfl

theorem findOpening?_of_quiet (quiet : Quiet before) (last : before.getLast? ≠ some '\x7b') :
    findOpening? (before ++ (delimiter.opening ++ body)) = some (before, delimiter, body) := by
  rw [findOpening?_append_of_none _ (findOpening?_eq_none_iff.mpr quiet) last,
    findOpening?_opening]
  simp

theorem closesFirst_iff_parts : delimiter.ClosesFirst body ↔
    match delimiter with
    | .output => Parts '\x7d' '\x7d' (body ++ ['\x7d'])
    | .tag => Parts '%' '\x7d' (body ++ ['%']) := by
  cases delimiter with
  | output => exact parts_iff.symm
  | tag => exact parts_iff.symm

theorem closesFirst_of_breakOn {after : List Char}
    (found : breakOn delimiter.closing text = some (body, after)) :
    delimiter.ClosesFirst body := by
  rw [closesFirst_iff_parts]
  cases delimiter with
  | output => exact parts_of_breakOn found
  | tag => exact parts_of_breakOn found

theorem Delimiter.ClosesFirst.breakOn (closes : delimiter.ClosesFirst body) (rest : List Char) :
    breakOn delimiter.closing (body ++ delimiter.closing ++ rest) = some (body, rest) := by
  rw [closesFirst_iff_parts] at closes
  rw [List.append_assoc]
  cases delimiter with
  | output => exact Parts.breakOn closes rest
  | tag => exact Parts.breakOn closes rest

end Delimiters

/-! ## One stretch -/

section Stretches

variable {start : Nat} {delimiter : Delimiter} {inner body rest : List Char}

theorem exists_inner_of_cutAt {cut : Cut} (cuts : cutAt start delimiter body = .ok cut) :
    ∃ inner after, delimiter.ClosesFirst inner ∧ body = inner ++ delimiter.closing ++ after ∧
      cut = ⟨delimiter, tokenAt start (delimiter.enclose inner), markupOf inner, after⟩ := by
  unfold cutAt at cuts
  split at cuts
  · next inner after broken =>
    obtain rfl := Except.ok.inj cuts
    exact ⟨inner, after, closesFirst_of_breakOn broken, breakOn_eq_some broken, rfl⟩
  · contradiction

theorem cutAt_enclosed (closes : delimiter.ClosesFirst inner) (start : Nat) (rest : List Char) :
    cutAt start delimiter (inner ++ delimiter.closing ++ rest) =
      .ok ⟨delimiter, tokenAt start (delimiter.enclose inner), markupOf inner, rest⟩ := by
  rw [cutAt, closes.breakOn]
  rfl

/-- A stretch becomes the pieces of a reading, which goes on where the stretch ends. -/
structure Stretch.Gives (stretch : Stretch) (start : Nat) (cut : Cut) (reading : Reading) :
    Prop where
  pieces : reading.pieces = stretch.pieces start
  stop : cut.token.span.stop + reading.skipped = start + width stretch.source

theorem Stretch.gives_shielded {shield : Shield} {content ending after : List Char}
    {cut : Cut} {pieces : List Piece}
    (token : cut.token = tokenAt start (Delimiter.tag.enclose inner))
    (behind : cut.after = content ++ ending ++ after)
    (same : pieces = Stretch.pieces start (.shielded shield inner content ending)) :
    Stretch.Gives (.shielded shield inner content ending) start cut
      ⟨pieces, width cut.after - width after, after⟩ := by
  refine ⟨same, ?_⟩
  simp only [token, behind, tokenAt, Stretch.source, width_append]
  omega

section Tags

variable {cut : Cut} {tag : Tag}

theorem readTag_of_remark (remark : tag.name.toList.head? = some '#') :
    cut.readTag tag = .ok ⟨[], 0, cut.after⟩ := by
  have named : tag.name ≠ "" := by
    intro empty
    rw [empty] at remark
    cases remark
  rw [Cut.readTag, if_neg named, if_pos remark]

theorem readTag_of_plain (named : tag.name ≠ "") (spoken : tag.name.toList.head? ≠ some '#')
    (plain : ∀ shield : Shield, tag.name ≠ shield.name) :
    cut.readTag tag = .ok ⟨[.tag tag], 0, cut.after⟩ := by
  have cooked : tag.name ≠ "raw" := plain .raw
  have shown : tag.name ≠ "comment" := plain .comment
  rw [Cut.readTag, if_neg named, if_neg spoken, if_neg cooked, if_neg shown]

/-- A block whose content is not read ends at its first end tag. -/
theorem readTag_of_shield {shield : Shield} {content after : List Char}
    (named : tag.name = shield.name)
    (found : breakEndTag? shield.endName cut.after = some (content, after)) (ending : List Char) :
    cut.readTag tag = .ok ⟨Stretch.pieces start (.shielded shield inner content ending),
      width cut.after - width after, after⟩ := by
  cases shield with
  | raw =>
    have raw : breakEndTag? "endraw".toList cut.after = some (content, after) := found
    rw [Cut.readTag, named, if_neg (by decide), if_neg (by decide), if_pos (by decide), Cut.readRaw,
      raw]
    rfl
  | comment =>
    have comment : breakEndTag? "endcomment".toList cut.after = some (content, after) := found
    rw [Cut.readTag, named, if_neg (by decide), if_neg (by decide), if_neg (by decide),
      if_pos (by decide), Cut.readComment, comment]
    rfl

end Tags

/-- A block whose content is not read is a stretch. -/
theorem exists_stretch_of_breakEndTag? (shield : Shield) {content after : List Char} {cut : Cut}
    {pieces : List Piece} (closes : Delimiter.tag.ClosesFirst inner)
    (named : tagName inner = shield.name)
    (token : cut.token = tokenAt start (Delimiter.tag.enclose inner))
    (found : breakEndTag? shield.endName cut.after = some (content, after))
    (same : ∀ ending, pieces = Stretch.pieces start (.shielded shield inner content ending)) :
    ∃ stretch : Stretch, stretch.WellFormed ∧ stretch.IsMarkup ∧
      Delimiter.tag.enclose inner ++ cut.after = stretch.source ++ after ∧
        stretch.Gives start cut ⟨pieces, width cut.after - width after, after⟩ := by
  obtain ⟨ending, ends, whole⟩ := exists_ends_of_breakEndTag? (startsDark_endName shield) found
  refine ⟨.shielded shield inner content ending, ⟨closes, named, ends⟩, trivial, ?_,
    Stretch.gives_shielded token whole (same ending)⟩
  simp [whole, Stretch.source]

/-- What is read from an output or a tag is a stretch. -/
theorem exists_stretch_of_read {cut : Cut} {reading : Reading}
    (cuts : cutAt start delimiter body = .ok cut) (reads : cut.read = .ok reading) :
    ∃ stretch : Stretch, stretch.WellFormed ∧ stretch.IsMarkup ∧
      delimiter.opening ++ body = stretch.source ++ reading.after ∧
        stretch.Gives start cut reading := by
  obtain ⟨inner, rest, closes, rfl, rfl⟩ := exists_inner_of_cutAt cuts
  have whole : delimiter.opening ++ (inner ++ delimiter.closing ++ rest) =
      delimiter.enclose inner ++ rest := by
    simp [Delimiter.enclose]
  rw [whole]
  cases delimiter with
  | output =>
    obtain rfl := Except.ok.inj reads
    exact ⟨.output inner, closes, trivial, rfl, rfl, rfl⟩
  | tag =>
    simp only [Cut.read, Cut.readTag] at reads
    split at reads
    · cases reads
    next named =>
    split at reads
    · next remark =>
      obtain rfl := Except.ok.inj reads
      exact ⟨.remark inner, ⟨closes, remark⟩, trivial, rfl, rfl, rfl⟩
    next spoken =>
    split at reads
    · next raw =>
      unfold Cut.readRaw at reads
      split at reads
      · next content after found =>
        obtain rfl := Except.ok.inj reads
        exact exists_stretch_of_breakEndTag? .raw closes raw rfl found fun _ => rfl
      · cases reads
    next cooked =>
    split at reads
    · next comment =>
      unfold Cut.readComment at reads
      split at reads
      · next content after found =>
        obtain rfl := Except.ok.inj reads
        exact exists_stretch_of_breakEndTag? .comment closes comment rfl found fun _ => rfl
      · cases reads
    next plain =>
    obtain rfl := Except.ok.inj reads
    refine ⟨.tag inner, ⟨closes, named, spoken, fun shield => ?_⟩, trivial, rfl, rfl, rfl⟩
    cases shield with
    | raw => exact cooked
    | comment => exact plain

/-- A stretch that starts with an opening delimiter is read there. -/
theorem exists_read_of_stretch {stretch : Stretch} (wellFormed : stretch.WellFormed)
    (markup : stretch.IsMarkup) (start : Nat) (rest : List Char) :
    ∃ delimiter body cut reading, stretch.source ++ rest = Delimiter.opening delimiter ++ body ∧
      cutAt start delimiter body = .ok cut ∧ cut.read = .ok reading ∧ reading.after = rest ∧
        stretch.Gives start cut reading := by
  have whole (delimiter : Delimiter) (inner rest : List Char) : delimiter.enclose inner ++ rest =
      delimiter.opening ++ (inner ++ delimiter.closing ++ rest) := by
    simp [Delimiter.enclose]
  cases stretch with
  | text => exact markup.elim
  | output inner =>
    exact ⟨.output, _, _, _, whole .output inner rest, cutAt_enclosed wellFormed start rest, rfl,
      rfl, rfl, rfl⟩
  | tag inner =>
    obtain ⟨closes, named, spoken, plain⟩ := wellFormed
    exact ⟨.tag, _, _, _, whole .tag inner rest, cutAt_enclosed closes start rest,
      readTag_of_plain named spoken plain, rfl, rfl, rfl⟩
  | remark inner =>
    obtain ⟨closes, remark⟩ := wellFormed
    exact ⟨.tag, _, _, _, whole .tag inner rest, cutAt_enclosed closes start rest,
      readTag_of_remark remark, rfl, rfl, rfl⟩
  | shielded shield inner content ending =>
    obtain ⟨closes, named, ends⟩ := wellFormed
    have absent : '\x7b' ∉ shield.endName := by cases shield <;> decide
    have found := ends.breakEndTag? (startsDark_endName shield) absent rest
    have split : Stretch.source (.shielded shield inner content ending) ++ rest =
        Delimiter.tag.opening ++
          (inner ++ Delimiter.tag.closing ++ (content ++ ending ++ rest)) := by
      rw [← whole]
      simp [Stretch.source]
    exact ⟨.tag, _, _, _, split, cutAt_enclosed closes start _,
      readTag_of_shield named found ending, rfl, Stretch.gives_shielded rfl rfl rfl⟩

end Stretches

/-! ## All stretches -/

section Layouts

variable {position : Nat} {stretches : List Stretch} {next : Stretch}

theorem exists_opening_of_isMarkup (markup : next.IsMarkup) :
    ∃ delimiter body, next.source = Delimiter.opening delimiter ++ body := by
  cases next with
  | text => exact markup.elim
  | output inner => exact ⟨.output, _, List.append_assoc _ _ _⟩
  | tag inner => exact ⟨.tag, _, List.append_assoc _ _ _⟩
  | remark inner => exact ⟨.tag, _, List.append_assoc _ _ _⟩
  | shielded shield inner content ending =>
    exact ⟨.tag, inner ++ (Delimiter.tag.closing ++ (content ++ ending)),
      by simp [Stretch.source, Delimiter.enclose]⟩

theorem piecesFrom_of_isMarkup (wellFormed : next.WellFormed) (markup : next.IsMarkup)
    (position : Nat) (rest : List Char) :
    piecesFrom position (next.source ++ rest) =
      (piecesFrom (position + width next.source) rest).map (next.pieces position ++ ·) := by
  obtain ⟨delimiter, body, cut, reading, whole, cuts, reads, rfl, gives⟩ :=
    exists_read_of_stretch wellFormed markup position rest
  rw [whole, piecesFrom_of_some (findOpening?_opening delimiter body), width_nil, Nat.add_zero,
    piecesAt_of_read cuts reads, gives.stop, gives.pieces]
  cases piecesFrom (position + width next.source) reading.after with
  | error fault => rfl
  | ok others => rfl

theorem piecesFrom_of_text {content : List Char} (full : content ≠ []) (quiet : Quiet content)
    (last : content.getLast? ≠ some '\x7b') (markup : next.IsMarkup) (position : Nat)
    (rest : List Char) :
    piecesFrom position (content ++ (next.source ++ rest)) =
      (piecesFrom (position + width content) (next.source ++ rest)).map
        (Piece.text (String.ofList content) :: ·) := by
  obtain ⟨delimiter, body, opens⟩ := exists_opening_of_isMarkup markup
  rw [opens, List.append_assoc, piecesFrom_of_some (findOpening?_of_quiet quiet last),
    piecesFrom_of_some (findOpening?_opening delimiter (body ++ rest)), width_nil, Nat.add_zero]
  cases piecesAt (position + width content) delimiter (body ++ rest) with
  | error fault => rfl
  | ok others => simp [Except.map, textPiece, full]

/-- Stretches that lay out a template become its pieces. -/
theorem piecesFrom_of_isLayout (layout : IsLayout stretches) (position : Nat) :
    piecesFrom position (sourceOf stretches) = .ok (piecesOfStretches position stretches) := by
  induction stretches generalizing position with
  | nil => exact piecesFrom_of_none rfl
  | cons first others ih =>
    have wellFormed := layout.wellFormed first List.mem_cons_self
    have behind : IsLayout others :=
      ⟨fun next member => layout.wellFormed next (List.mem_cons_of_mem _ member), layout.chain.tail⟩
    rw [sourceOf, List.flatMap_cons, ← sourceOf]
    cases first with
    | text content =>
      obtain ⟨full, quiet⟩ := wellFormed
      cases others with
      | nil =>
        have none := findOpening?_eq_none_iff.mpr quiet
        simp [sourceOf, Stretch.source, piecesFrom_of_none none, textPiece, full, piecesOfStretches,
          Stretch.pieces]
      | cons next others =>
        obtain ⟨markup, last⟩ := (List.isChain_cons_cons.mp layout.chain).1
        exact (piecesFrom_of_text full quiet last markup position _).trans
          (congrArg (Except.map (Piece.text (String.ofList content) :: ·)) (ih behind _))
    | output | tag | remark | shielded =>
      rw [piecesFrom_of_isMarkup wellFormed trivial, ih behind]
      rfl

/-- The text before an opening delimiter as a stretch, unless it is empty. -/
def textStretch (content : List Char) : List Stretch :=
  if content.isEmpty then [] else [.text content]

theorem sourceOf_textStretch_append (content : List Char) (stretches : List Stretch) :
    sourceOf (textStretch content ++ stretches) = content ++ sourceOf stretches := by
  cases content with
  | nil => rfl
  | cons c content => rfl

theorem piecesOfStretches_textStretch_append (content : List Char) (stretches : List Stretch) :
    piecesOfStretches position (textStretch content ++ stretches) =
      textPiece content ++ piecesOfStretches (position + width content) stretches := by
  cases content with
  | nil => rfl
  | cons c content => rfl

theorem isLayout_textStretch {content : List Char} (quiet : Quiet content) :
    IsLayout (textStretch content) := by
  cases content with
  | nil => exact ⟨List.forall_mem_nil _, .nil⟩
  | cons c content =>
    exact ⟨List.forall_mem_singleton.mpr ⟨List.cons_ne_nil _ _, quiet⟩, .singleton _⟩

theorem IsLayout.cons (layout : IsLayout stretches) (wellFormed : next.WellFormed)
    (markup : next.IsMarkup) : IsLayout (next :: stretches) := by
  refine ⟨List.forall_mem_cons.mpr ⟨wellFormed, layout.wellFormed⟩, layout.chain.cons ?_⟩
  cases next with
  | text => exact markup.elim
  | output | tag | remark | shielded => exact fun _ _ => trivial

theorem IsLayout.textStretch_append {content : List Char} (layout : IsLayout (next :: stretches))
    (markup : next.IsMarkup) (quiet : Quiet content) (last : content.getLast? ≠ some '\x7b') :
    IsLayout (textStretch content ++ next :: stretches) := by
  cases content with
  | nil => exact layout
  | cons c content =>
    refine ⟨List.forall_mem_cons.mpr ⟨⟨List.cons_ne_nil _ _, quiet⟩, layout.wellFormed⟩, ?_⟩
    exact List.isChain_cons_cons.mpr ⟨⟨markup, last⟩, layout.chain⟩

/-- A text that is cut into pieces is laid out in stretches that become them. -/
theorem exists_isLayout_of_piecesFrom {text : List Char} {found : List Piece}
    (cut : piecesFrom position text = .ok found) :
    ∃ stretches, IsLayout stretches ∧ sourceOf stretches = text ∧
      piecesOfStretches position stretches = found := by
  fun_induction piecesFrom position text generalizing found with
  | case1 position text none =>
    obtain rfl := Except.ok.inj cut
    have whole := sourceOf_textStretch_append text []
    have become := @piecesOfStretches_textStretch_append position text []
    rw [List.append_nil] at whole become
    refine ⟨textStretch text, isLayout_textStretch (findOpening?_eq_none_iff.mp none), ?_, ?_⟩
    · rw [whole]
      exact List.append_nil text
    · rw [become]
      exact List.append_nil _
  | case2 => contradiction
  | case3 => contradiction
  | case4 position text before delimiter body opened taken cuts reading reads ih =>
    cases more : piecesFrom (taken.token.span.stop + reading.skipped) reading.after with
    | error fault =>
      rw [more] at cut
      contradiction
    | ok others =>
      rw [more] at cut
      obtain rfl := Except.ok.inj cut
      obtain ⟨stretches, layout, whole, become⟩ := ih more
      obtain ⟨next, wellFormed, markup, split, gives⟩ := exists_stretch_of_read cuts reads
      obtain ⟨quiet, last⟩ := quiet_of_findOpening? opened
      refine ⟨textStretch before ++ next :: stretches,
        (layout.cons wellFormed markup).textStretch_append markup quiet last, ?_, ?_⟩
      · rw [sourceOf_textStretch_append, findOpening?_eq_some opened, List.append_assoc, split,
          ← whole]
        rfl
      · rw [piecesOfStretches_textStretch_append, piecesOfStretches, ← become, gives.pieces,
          gives.stop]
        exact (List.append_assoc _ _ _).symm

end Layouts

/-- A source is cut into pieces exactly if it is laid out in stretches that become these pieces,
each at the position where it stands. So nothing of the source is lost or read twice: its stretches
one behind the other are the source, texts open nothing outside of raw blocks, and what becomes no
piece are remarks, comment blocks and the tags around raw blocks. The tokens of the pieces stand in
the source where they say, one behind the other. -/
theorem pieces_eq_ok_iff {source : String} {found : List Piece} :
    pieces source = .ok found ↔ ∃ stretches, IsLayout stretches ∧
      String.ofList (sourceOf stretches) = source ∧ piecesOfStretches 0 stretches = found ∧
        StandInOrder source (tokensOf found) := by
  constructor
  · intro cut
    obtain ⟨stretches, layout, whole, become⟩ := exists_isLayout_of_piecesFrom cut
    exact ⟨stretches, layout, by rw [whole, String.ofList_toList], become,
      standInOrder_of_pieces cut⟩
  · rintro ⟨stretches, layout, rfl, rfl, -⟩
    rw [pieces, String.toList_ofList]
    exact piecesFrom_of_isLayout layout 0

example : pieces ("Hi \x7b% raw %\x7d\x7b\x7b x \x7d\x7d\x7b%- endraw %\x7d" ++
      "\x7b% # note %\x7d\x7b% comment %\x7d\x7b\x7b\x7b% endcomment %\x7d\x7b\x7b y \x7d\x7d") =
    .ok [.text "Hi ", .text "\x7b\x7b x \x7d\x7d",
      .output "y" ⟨"\x7b\x7b y \x7d\x7d", ⟨75, 82⟩⟩] := by
  decide +kernel

end MessageTemplate.Template
