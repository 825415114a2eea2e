import MessageTemplate.Proofs.Analysis.Untagged
import MessageTemplate.Proofs.Template.Relocation
import MessageTemplate.Proofs.Template.Trace
import MessageTemplate.Proofs.Text.Trim

/-! # Templates one behind the other

All searches of the lexer end at the first place that fits, so a text that has been cut into pieces
is cut into the same pieces when more text follows, and what follows is cut as it is on its own,
further on (`piecesFrom_append`). Only a brace at the end of the text could open something with the
text behind it. As the machine reads whole templates one after the other too, a good template leaves
what stands behind it as it is (`parse_append`). -/

namespace MessageTemplate.Template

open Text

/-! ## Searches in longer texts -/

section Longer

variable {text : List Char} (more : List Char)

theorem dropLeading_append (mark : Char) (full : text ≠ []) :
    dropLeading mark (text ++ more) = dropLeading mark text ++ more := by
  cases text with
  | nil => contradiction
  | cons c rest =>
    simp only [List.cons_append, dropLeading]
    split <;> rfl

theorem trimStart_append_of_ne_nil (full : trimStart text ≠ []) :
    trimStart (text ++ more) = trimStart text ++ more := by
  rw [trimStart, List.dropWhile_append, if_neg (by simpa [trimStart] using full)]
  rfl

theorem mem_dropLeading {c mark : Char} (member : c ∈ text) (other : c ≠ mark) :
    c ∈ dropLeading mark text := by
  cases text with
  | nil => contradiction
  | cons d rest =>
    rw [dropLeading]
    split
    · next same => exact (List.mem_cons.mp member).resolve_left (same ▸ other)
    · exact member

/-- More text does not matter to a prefix that ends before a character which the text holds. -/
theorem isPrefixOf?_append_of_mem {needle : List Char} {c : Char} (absent : c ∉ needle)
    (member : c ∈ text) :
    needle.isPrefixOf? (text ++ more) = (needle.isPrefixOf? text).map (· ++ more) ∧
      ∀ rest, needle.isPrefixOf? text = some rest → c ∈ rest := by
  obtain ⟨front, back, rfl⟩ := List.append_of_mem member
  rw [List.append_assoc, List.cons_append, isPrefixOf?_append_cons _ absent,
    isPrefixOf?_append_cons _ absent]
  cases needle.isPrefixOf? front <;> simp

theorem trimStart_dropLeading_append (full : trimStart (dropLeading '-' text) ≠ []) :
    trimStart (dropLeading '-' (text ++ more)) = trimStart (dropLeading '-' text) ++ more := by
  have given : text ≠ [] := by
    rintro rfl
    exact full rfl
  rw [dropLeading_append more '-' given, trimStart_append_of_ne_nil more full]

theorem dropLeading_trimStart_append (full : dropLeading '-' (trimStart text) ≠ []) :
    dropLeading '-' (trimStart (text ++ more)) = dropLeading '-' (trimStart text) ++ more := by
  have given : trimStart text ≠ [] := by
    intro empty
    rw [empty] at full
    exact full rfl
  rw [trimStart_append_of_ne_nil more given, dropLeading_append more '-' given]

theorem brace_ne_hyphen : '\x7b' ≠ '-' := by decide

theorem isBlank_brace : isBlank '\x7b' = false := by decide

/-- An end tag that is found is found when more text follows. -/
theorem endTag?_append {name after : List Char} (found : endTag? name text = some after) :
    endTag? name (text ++ more) = some (after ++ more) := by
  obtain ⟨one, first, found⟩ := Option.bind_eq_some_iff.mp found
  obtain ⟨two, second, third⟩ := Option.bind_eq_some_iff.mp found
  have closing : dropLeading '-' (trimStart two) ≠ [] := by
    rw [isPrefixOf?_eq_some third]
    simp [Delimiter.closing]
  have behind : two ≠ [] := by
    rintro rfl
    exact closing rfl
  have named : trimStart (dropLeading '-' one) ≠ [] := by
    rw [isPrefixOf?_eq_some second]
    simp [behind]
  refine Option.bind_eq_some_iff.mpr ⟨one ++ more, isPrefixOf?_append_of_eq_some more first, ?_⟩
  rw [trimStart_dropLeading_append more named]
  refine Option.bind_eq_some_iff.mpr ⟨two ++ more, isPrefixOf?_append_of_eq_some more second, ?_⟩
  rw [dropLeading_trimStart_append more closing, isPrefixOf?_append_of_eq_some more third]

/-- Where another brace comes first, more text behind it does not complete an end tag. -/
theorem endTag?_append_of_mem {name rest : List Char} {c : Char} (absent : '\x7b' ∉ name)
    (member : '\x7b' ∈ rest) :
    endTag? name (c :: rest ++ more) = (endTag? name (c :: rest)).map (· ++ more) := by
  have long : Delimiter.tag.opening.length ≤ (c :: rest).length :=
    Nat.succ_le_succ (List.length_pos_of_mem member)
  unfold endTag?
  rw [isPrefixOf?_append_right more long]
  cases first : Delimiter.tag.opening.isPrefixOf? (c :: rest) with
  | none => rfl
  | some one =>
    obtain ⟨-, rfl⟩ := List.cons.inj (isPrefixOf?_eq_some first)
    have inside : '\x7b' ∈ one := (List.mem_cons.mp member).resolve_left (by decide)
    have before := mem_trimStart (mem_dropLeading inside brace_ne_hyphen) isBlank_brace
    obtain ⟨goesOn, kept⟩ := isPrefixOf?_append_of_mem more absent before
    simp only [Option.map_some, Option.bind_eq_bind, Option.bind_some]
    rw [trimStart_dropLeading_append more (List.ne_nil_of_mem before), goesOn]
    cases second : name.isPrefixOf? (trimStart (dropLeading '-' one)) with
    | none => rfl
    | some two =>
      have last := mem_dropLeading (mem_trimStart (kept two second) isBlank_brace) brace_ne_hyphen
      simp only [Option.map_some, Option.bind_some]
      rw [dropLeading_trimStart_append more (List.ne_nil_of_mem last)]
      exact (isPrefixOf?_append_of_mem more (by decide) last).1

theorem mem_of_breakEndTag? {name before after : List Char}
    (found : breakEndTag? name text = some (before, after)) : '\x7b' ∈ text := by
  induction text generalizing before with
  | nil => contradiction
  | cons c rest ih =>
    rw [breakEndTag?] at found
    split at found
    · next here =>
      obtain ⟨one, first, -⟩ := Option.bind_eq_some_iff.mp here
      rw [isPrefixOf?_eq_some first]
      exact List.mem_cons_self
    · obtain ⟨⟨first, last⟩, later, joined⟩ := Option.map_eq_some_iff.mp found
      obtain ⟨rfl, rfl⟩ := Prod.mk.inj joined
      exact List.mem_cons_of_mem c (ih later)

/-- The first end tag is found at the same place when more text follows. -/
theorem breakEndTag?_append {name before after : List Char} (absent : '\x7b' ∉ name)
    (found : breakEndTag? name text = some (before, after)) :
    breakEndTag? name (text ++ more) = some (before, after ++ more) := by
  induction text generalizing before with
  | nil => contradiction
  | cons c rest ih =>
    rw [breakEndTag?] at found
    rw [List.cons_append, breakEndTag?, ← List.cons_append]
    split at found
    · next here =>
      obtain ⟨rfl, rfl⟩ := Prod.mk.inj (Option.some.inj found)
      rw [endTag?_append more here]
    · next other =>
      obtain ⟨⟨first, last⟩, later, joined⟩ := Option.map_eq_some_iff.mp found
      obtain ⟨rfl, rfl⟩ := Prod.mk.inj joined
      rw [endTag?_append_of_mem more absent (mem_of_breakEndTag? later), other, Option.map_none,
        ih later]
      rfl

theorem openingAt?_append {c : Char} {rest : List Char} (full : rest ≠ []) :
    openingAt? (c :: rest ++ more) =
      (openingAt? (c :: rest)).map fun (delimiter, body) => (delimiter, body ++ more) := by
  have long (delimiter : Delimiter) : delimiter.opening.length ≤ (c :: rest).length := by
    have := List.length_pos_iff.mpr full
    cases delimiter <;> exact Nat.succ_le_succ this
  unfold openingAt?
  rw [isPrefixOf?_append_right more (long .output), isPrefixOf?_append_right more (long .tag)]
  cases Delimiter.output.opening.isPrefixOf? (c :: rest) with
  | some body => rfl
  | none => cases Delimiter.tag.opening.isPrefixOf? (c :: rest) <;> rfl

/-- The first opening delimiter is found at the same place when more text follows. -/
theorem findOpening?_append {before body : List Char} {delimiter : Delimiter}
    (found : findOpening? text = some (before, delimiter, body)) :
    findOpening? (text ++ more) = some (before, delimiter, body ++ more) := by
  induction text generalizing before with
  | nil => contradiction
  | cons c rest ih =>
    have full : rest ≠ [] := by
      rintro rfl
      have whole := congrArg List.length (findOpening?_eq_some found)
      cases delimiter <;> simp [Delimiter.opening] at whole <;> omega
    rw [findOpening?] at found
    rw [List.cons_append, findOpening?, ← List.cons_append, openingAt?_append more full]
    cases here : openingAt? (c :: rest) with
    | some opened =>
      rw [here] at found
      obtain ⟨rfl, rfl, rfl⟩ := by simpa using found
      rfl
    | none =>
      rw [here] at found
      obtain ⟨⟨first, kind, last⟩, later, joined⟩ := Option.map_eq_some_iff.mp found
      obtain ⟨rfl, rfl, rfl⟩ := by simpa using joined
      simp only [Option.map_none, ih later, Option.map_some]

/-- If a text opens nothing, the first opening delimiter is one of what follows. -/
theorem findOpening?_append_of_none (none : findOpening? text = none)
    (shut : text.getLast? ≠ some '\x7b') :
    findOpening? (text ++ more) =
      (findOpening? more).map fun (before, delimiter, body) => (text ++ before, delimiter, body) := by
  induction text with
  | nil => simp
  | cons c rest ih =>
    rw [findOpening?] at none
    cases here : openingAt? (c :: rest) with
    | some opened =>
      rw [here] at none
      contradiction
    | none =>
      rw [here] at none
      have later := Option.map_eq_none_iff.mp none
      have passes : openingAt? (c :: rest ++ more) = Option.none := by
        cases rest with
        | nil =>
          have other : c ≠ '\x7b' := by simpa using shut
          exact openingAt?_eq_none.mpr fun opens => other opens.1
        | cons d rest =>
          rw [openingAt?_append more (List.cons_ne_nil d rest), here, Option.map_none]
      have closed : rest.getLast? ≠ some '\x7b' := by
        cases rest with
        | nil => simp
        | cons d rest => rwa [List.getLast?_cons_cons] at shut
      rw [List.cons_append, findOpening?, ← List.cons_append, passes]
      simp only [ih later closed, Option.map_map]
      rfl

/-- A cut with more text behind it. -/
def Cut.followedBy (cut : Cut) : Cut :=
  { cut with after := cut.after ++ more }

/-- A reading with more text behind it. -/
def Reading.followedBy (reading : Reading) : Reading :=
  { reading with after := reading.after ++ more }

theorem cutAt_append {start : Nat} {delimiter : Delimiter} {cut : Cut}
    (cuts : cutAt start delimiter text = .ok cut) :
    cutAt start delimiter (text ++ more) = .ok (cut.followedBy more) := by
  unfold cutAt at cuts
  split at cuts
  · next broken =>
    obtain rfl := Except.ok.inj cuts
    rw [cutAt, breakOn_append_of_eq_some more broken]
    rfl
  · contradiction

namespace Cut

variable {cut : Cut} {reading : Reading}

/-- What is skipped up to an end tag does not depend on the text behind that. -/
theorem followedBy_of_pieces (pieces : List Piece) (after : List Char) :
    (⟨pieces, width (cut.after ++ more) - width (after ++ more), after ++ more⟩ : Reading) =
      Reading.followedBy more ⟨pieces, width cut.after - width after, after⟩ := by
  rw [width_append, width_append, Nat.add_sub_add_right]
  rfl

theorem readRaw_append (read : cut.readRaw = .ok reading) :
    (cut.followedBy more).readRaw = .ok (reading.followedBy more) := by
  unfold readRaw at read
  split at read
  · next found =>
    obtain rfl := Except.ok.inj read
    rw [readRaw, followedBy, breakEndTag?_append more (by decide) found, ← followedBy_of_pieces]
  · contradiction

theorem readComment_append (read : cut.readComment = .ok reading) :
    (cut.followedBy more).readComment = .ok (reading.followedBy more) := by
  unfold readComment at read
  split at read
  · next found =>
    obtain rfl := Except.ok.inj read
    rw [readComment, followedBy, breakEndTag?_append more (by decide) found, ← followedBy_of_pieces]
  · contradiction

theorem readTag_append {tag : Tag} (read : cut.readTag tag = .ok reading) :
    (cut.followedBy more).readTag tag = .ok (reading.followedBy more) := by
  unfold readTag at read ⊢
  split at read
  · contradiction
  next named =>
  rw [if_neg named]
  split at read
  · next comment =>
    obtain rfl := Except.ok.inj read
    rw [if_pos comment]
    rfl
  next spoken =>
  rw [if_neg spoken]
  split at read
  · next raw =>
    rw [if_pos raw, readRaw_append more read]
  next cooked =>
  rw [if_neg cooked]
  split at read
  · next comment =>
    rw [if_pos comment, readComment_append more read]
  next plain =>
  obtain rfl := Except.ok.inj read
  rw [if_neg plain]
  rfl

/-- What is read is read when more text follows. -/
theorem read_append (read : cut.read = .ok reading) :
    (cut.followedBy more).read = .ok (reading.followedBy more) := by
  obtain ⟨delimiter, token, markup, after⟩ := cut
  cases delimiter with
  | output =>
    obtain rfl := Except.ok.inj read
    rfl
  | tag => exact readTag_append more read

end Cut

end Longer

/-! ## Cutting -/

/-- The pieces from an opening delimiter on, by the text behind it. -/
def piecesAt (start : Nat) (delimiter : Delimiter) (body : List Char) :
    Except Fault (List Piece) := do
  let cut ← cutAt start delimiter body
  let reading ← cut.read
  return reading.pieces ++ (← piecesFrom (cut.token.span.stop + reading.skipped) reading.after)

theorem piecesAt_of_read {start : Nat} {delimiter : Delimiter} {body : List Char} {cut : Cut}
    {reading : Reading} (cuts : cutAt start delimiter body = .ok cut)
    (reads : cut.read = .ok reading) :
    piecesAt start delimiter body =
      (piecesFrom (cut.token.span.stop + reading.skipped) reading.after).map
        (reading.pieces ++ ·) := by
  simp only [piecesAt, cuts, reads, bind, Except.bind]
  cases piecesFrom (cut.token.span.stop + reading.skipped) reading.after <;> rfl

theorem piecesFrom_of_none {position : Nat} {text : List Char} (none : findOpening? text = none) :
    piecesFrom position text = .ok (textPiece text) := by
  rw [piecesFrom]
  split
  · rfl
  · next found =>
    rw [none] at found
    contradiction

theorem piecesFrom_of_some {position : Nat} {text before body : List Char} {delimiter : Delimiter}
    (found : findOpening? text = some (before, delimiter, body)) :
    piecesFrom position text =
      (piecesAt (position + width before) delimiter body).map (textPiece before ++ ·) := by
  rw [piecesFrom]
  split
  · next none =>
    rw [found] at none
    contradiction
  · next other =>
    cases found.symm.trans other
    split
    · next fault cuts =>
      simp [piecesAt, cuts, bind, Except.bind, Except.map]
    next cut cuts =>
    split
    · next fault reads =>
      simp [piecesAt, cuts, reads, bind, Except.bind, Except.map]
    next reading reads =>
    rw [piecesAt_of_read cuts reads]
    cases piecesFrom (cut.token.span.stop + reading.skipped) reading.after with
    | error fault => rfl
    | ok others => simp [Except.map]

/-! ## Cutting elsewhere -/

section Shift

variable (distance : Nat)

/-- A cut with a changed token. -/
def Cut.mapToken (change : Token → Token) (cut : Cut) : Cut :=
  { cut with token := change cut.token }

/-- A reading with changed tokens. -/
def Reading.mapTokens (change : Token → Token) (reading : Reading) : Reading :=
  { reading with pieces := reading.pieces.map (Piece.mapToken change) }

theorem Cut.readRaw_mapToken (change : Token → Token) (cut : Cut) :
    (cut.mapToken change).readRaw = relocated change (Reading.mapTokens change) cut.readRaw := by
  unfold readRaw
  dsimp only [mapToken]
  cases breakEndTag? "endraw".toList cut.after <;> rfl

theorem Cut.readComment_mapToken (change : Token → Token) (cut : Cut) :
    (cut.mapToken change).readComment =
      relocated change (Reading.mapTokens change) cut.readComment := by
  unfold readComment
  dsimp only [mapToken]
  cases breakEndTag? "endcomment".toList cut.after <;> rfl

theorem Cut.readTag_mapToken (change : Token → Token) (cut : Cut) (tag : Tag) :
    (cut.mapToken change).readTag (tag.mapToken change) =
      relocated change (Reading.mapTokens change) (cut.readTag tag) := by
  have same : (tag.mapToken change).name = tag.name := rfl
  unfold readTag
  rw [same, readRaw_mapToken, readComment_mapToken]
  by_cases missing : tag.name = ""
  · rw [if_pos missing, if_pos missing]
    rfl
  by_cases comment : tag.name.toList.head? = some '#'
  · rw [if_neg missing, if_neg missing, if_pos comment, if_pos comment]
    rfl
  rw [if_neg missing, if_neg missing, if_neg comment, if_neg comment]
  split
  · rfl
  split
  · rfl
  · rfl

theorem Cut.read_mapToken (change : Token → Token) (cut : Cut) :
    (cut.mapToken change).read = relocated change (Reading.mapTokens change) cut.read := by
  obtain ⟨delimiter, token, markup, after⟩ := cut
  cases delimiter with
  | output => rfl
  | tag => exact readTag_mapToken change _ (tagOf markup token)

theorem cutAt_shift (start : Nat) (delimiter : Delimiter) (body : List Char) :
    cutAt (distance + start) delimiter body =
      relocated (Token.shift distance) (Cut.mapToken (Token.shift distance))
        (cutAt start delimiter body) := by
  unfold cutAt
  split <;> simp [relocated, Cut.mapToken, Fault.mapToken, Token.shift, Span.shift, Nat.add_assoc]

theorem map_mapToken_textPiece (change : Token → Token) (content : List Char) :
    (textPiece content).map (Piece.mapToken change) = textPiece content := by
  unfold textPiece
  split <;> rfl

/-- A text further on has the same pieces, further on. -/
theorem piecesFrom_shift (position : Nat) (text : List Char) :
    piecesFrom (distance + position) text =
      relocated (Token.shift distance) (List.map (Piece.mapToken (Token.shift distance)))
        (piecesFrom position text) := by
  fun_induction piecesFrom position text with
  | case1 position text none =>
    rw [piecesFrom_of_none none, relocated, map_mapToken_textPiece]
  | case2 position text before delimiter body opened fault cuts =>
    rw [piecesFrom_of_some opened, piecesAt, Nat.add_assoc, cutAt_shift, cuts]
    rfl
  | case3 position text before delimiter body opened cut cuts fault reads =>
    have further := Cut.read_mapToken (Token.shift distance) cut
    rw [reads] at further
    rw [piecesFrom_of_some opened, piecesAt, Nat.add_assoc, cutAt_shift, cuts]
    simp only [relocated, bind, Except.bind, further]
    rfl
  | case4 position text before delimiter body opened cut cuts reading reads ih =>
    have further := Cut.read_mapToken (Token.shift distance) cut
    have elsewhere := cutAt_shift distance (position + width before) delimiter body
    rw [reads] at further
    rw [cuts, ← Nat.add_assoc] at elsewhere
    have behind : (cut.mapToken (Token.shift distance)).token.span.stop + reading.skipped =
        distance + (cut.token.span.stop + reading.skipped) := Nat.add_assoc _ _ _
    rw [piecesFrom_of_some opened, piecesAt_of_read elsewhere further, Reading.mapTokens]
    dsimp only
    rw [behind, ih]
    cases piecesFrom (cut.token.span.stop + reading.skipped) reading.after with
    | error fault => rfl
    | ok others => simp [relocated, Except.map, map_mapToken_textPiece]

end Shift

/-! ## Cutting texts one behind the other -/

theorem Seam.textPiece (left right : List Char) (rest : List Piece) :
    Seam Piece.text (Template.textPiece left) (Template.textPiece right ++ rest)
      (Template.textPiece (left ++ right) ++ rest) := by
  unfold Template.textPiece
  by_cases first : left = []
  · subst first
    exact .apart
  by_cases second : right = []
  · subst second
    simpa [first] using @Seam.apart _ Piece.text [.text (String.ofList left)] rest
  · simpa [first, second] using
      @Seam.joined _ Piece.text [] rest (String.ofList left) (String.ofList right)

theorem Seam.prepend {α : Type} {text : String → α} {first others whole : List α}
    (seam : Seam text first others whole) (earlier : List α) :
    Seam text (earlier ++ first) others (earlier ++ whole) := by
  cases seam with
  | apart =>
    rw [← List.append_assoc]
    exact .apart
  | joined =>
    rw [← List.append_assoc, ← List.append_assoc]
    exact .joined

theorem Extends.prepend {α : Type} {text : String → α} {first : List α}
    {others whole : Except Fault (List α)} (goesOn : Extends text first others whole)
    (earlier : List α) : Extends text (earlier ++ first) others (whole.map (earlier ++ ·)) := by
  cases others with
  | error fault =>
    cases whole with
    | error found => exact goesOn
    | ok all => exact goesOn.elim
  | ok more =>
    cases whole with
    | error found => exact goesOn.elim
    | ok all => exact Seam.prepend goesOn earlier

/-- What a cut has of the text behind the delimiter, it counts. -/
theorem cutAt_split {start : Nat} {delimiter : Delimiter} {body : List Char} {cut : Cut}
    (cuts : cutAt start delimiter body = .ok cut) :
    ∃ taken, delimiter.opening ++ body = taken ++ cut.after ∧
      cut.token.span.stop = start + width taken := by
  unfold cutAt at cuts
  split at cuts
  · next inner after broken =>
    obtain rfl := Except.ok.inj cuts
    exact ⟨delimiter.opening ++ inner ++ delimiter.closing, by simp [breakOn_eq_some broken], rfl⟩
  · contradiction

/-- Where the reader goes on behind an output or a tag, all of the text before has been counted. -/
theorem exists_taken_of_read {position : Nat} {text before body : List Char}
    {delimiter : Delimiter} {cut : Cut} {reading : Reading}
    (opened : findOpening? text = some (before, delimiter, body))
    (cuts : cutAt (position + width before) delimiter body = .ok cut)
    (reads : cut.read = .ok reading) :
    ∃ taken, text = taken ++ reading.after ∧
      cut.token.span.stop + reading.skipped = position + width taken := by
  obtain ⟨inside, split, stop⟩ := cutAt_split cuts
  obtain ⟨skipped, behind, counted⟩ := (Cut.skips_of_read reads).behind
  refine ⟨before ++ inside ++ skipped, ?_, ?_⟩
  · rw [findOpening?_eq_some opened, List.append_assoc, split, behind]
    simp only [List.append_assoc]
  · rw [stop, counted]
    simp only [width_append]
    omega

/-- Behind a text that is cut into pieces, what follows is cut as it is there on its own. -/
theorem piecesFrom_append {position : Nat} {text : List Char} {found : List Piece}
    (cut : piecesFrom position text = .ok found) (shut : text.getLast? ≠ some '\x7b')
    (more : List Char) :
    Extends Piece.text found (piecesFrom (position + width text) more)
      (piecesFrom position (text ++ more)) := by
  fun_induction piecesFrom position text generalizing found with
  | case1 position text none =>
    obtain rfl := Except.ok.inj cut
    have goesOn := findOpening?_append_of_none more none shut
    cases opened : findOpening? more with
    | none =>
      rw [opened] at goesOn
      rw [piecesFrom_of_none opened, piecesFrom_of_none goesOn]
      have seam := Seam.textPiece text more []
      rwa [List.append_nil, List.append_nil] at seam
    | some parts =>
      obtain ⟨before, delimiter, body⟩ := parts
      rw [opened] at goesOn
      rw [piecesFrom_of_some opened, piecesFrom_of_some goesOn, width_append, Nat.add_assoc]
      cases piecesAt (position + (width text + width before)) delimiter body with
      | error fault => exact rfl
      | ok rest => exact Seam.textPiece text before rest
  | case2 => contradiction
  | case3 => contradiction
  | case4 position text before delimiter body opened taken cuts reading reads ih =>
    cases rest : piecesFrom (taken.token.span.stop + reading.skipped) reading.after with
    | error fault =>
      rw [rest] at cut
      contradiction
    | ok others =>
      rw [rest] at cut
      obtain rfl := Except.ok.inj cut
      obtain ⟨earlier, whole, counted⟩ := exists_taken_of_read opened cuts reads
      have closed : reading.after.getLast? ≠ some '\x7b' := by
        intro last
        rw [whole, List.getLast?_append, last] at shut
        exact shut rfl
      have reached : taken.token.span.stop + reading.skipped + width reading.after =
          position + width text := by
        rw [counted, whole, width_append, Nat.add_assoc]
      have goesOn := ih rest closed
      rw [reached] at goesOn
      rw [piecesFrom_of_some (findOpening?_append more opened),
        piecesAt_of_read (cutAt_append more cuts) (Cut.read_append more reads)]
      have joined := (goesOn.prepend reading.pieces).prepend (textPiece before)
      rw [← List.append_assoc] at joined
      exact joined

/-! ## Reading texts one behind the other -/

section Reading

variable {first : String} {nodes : List Node}

theorem parse_continues (parsed : parse first = .ok nodes)
    (shut : first.toList.getLast? ≠ some '\x7b') (second : String) :
    Extends Node.text nodes
      (relocated (Token.shift first.utf8ByteSize)
        (List.map (Node.mapTokens (Token.shift first.utf8ByteSize))) (parse second))
      (parse (first ++ second)) := by
  have distance : first.utf8ByteSize = 0 + width first.toList := by
    rw [Nat.zero_add, ← utf8ByteSize_ofList, String.ofList_toList]
  have unfolded (source : String) : parse source = pieces source >>= build := rfl
  rw [unfolded] at parsed
  cases front : pieces first with
  | error fault =>
    rw [front] at parsed
    contradiction
  | ok found =>
    rw [front] at parsed
    have behind := piecesFrom_append front shut second.toList
    have shifted := piecesFrom_shift first.utf8ByteSize 0 second.toList
    rw [Nat.add_zero] at shifted
    rw [← distance, ← String.toList_append, shifted] at behind
    change Extends _ found (relocated _ _ (pieces second)) (pieces (first ++ second)) at behind
    rw [unfolded, unfolded]
    cases back : pieces second with
    | error fault =>
      rw [back] at behind
      cases whole : pieces (first ++ second) with
      | error found => exact (whole ▸ behind : _ = _)
      | ok all => rw [whole] at behind; exact behind.elim
    | ok others =>
      rw [back] at behind
      cases whole : pieces (first ++ second) with
      | error fault => rw [whole] at behind; exact behind.elim
      | ok all =>
        rw [whole] at behind
        have built := Seam.build behind parsed
        rwa [build_mapToken] at built

/-- A template behind a good one that does not end in an opening brace is read as it is on its own,
with its tokens as many bytes further on as the good one has: it is refused for the same fault, and
else the nodes of both follow each other, with a text on either side of the seam as one. -/
theorem parse_append (parsed : parse first = .ok nodes)
    (shut : first.toList.getLast? ≠ some '\x7b') (second : String) :
    ((∃ all, parse (first ++ second) = .ok all) ↔ ∃ others, parse second = .ok others) ∧
      (∀ others all, parse second = .ok others → parse (first ++ second) = .ok all →
        Seam Node.text nodes
          (others.map (Node.mapTokens (Token.shift first.utf8ByteSize))) all) ∧
      ∀ fault, parse second = .error fault →
        parse (first ++ second) = .error (fault.mapToken (Token.shift first.utf8ByteSize)) := by
  have goesOn := parse_continues parsed shut second
  cases back : parse second with
  | error fault =>
    cases whole : parse (first ++ second) with
    | ok all => rw [back, whole] at goesOn; exact goesOn.elim
    | error found =>
      rw [back, whole] at goesOn
      obtain rfl : found = fault.mapToken _ := goesOn
      simp
  | ok others =>
    cases whole : parse (first ++ second) with
    | error fault => rw [back, whole] at goesOn; exact goesOn.elim
    | ok all =>
      rw [back, whole] at goesOn
      have seam : Seam Node.text nodes _ all := goesOn
      simpa using seam

end Reading

/-- The tag of a conditional at the start of a source. -/
def ifTag : Tag :=
  ⟨"if", "a", ⟨"\x7b% if a %\x7d", ⟨0, 10⟩⟩⟩

/-- The tag that closes it behind a single letter. -/
def endifTag : Tag :=
  ⟨"endif", "", ⟨"\x7b% endif %\x7d", ⟨11, 22⟩⟩⟩

theorem parse_append_conditional :
    Seam Node.text
        [.conditional .positive [⟨some "a", [.text "b"], ifTag.token⟩], .text "x"]
        [.text "y", .output "c" ⟨"\x7b\x7b c \x7d\x7d", ⟨24, 31⟩⟩]
        [.conditional .positive [⟨some "a", [.text "b"], ifTag.token⟩], .text "xy",
          .output "c" ⟨"\x7b\x7b c \x7d\x7d", ⟨24, 31⟩⟩] ∧
      parse ("\x7b% if a %\x7db\x7b% endif %\x7dx" ++ "y\x7b\x7b c") =
        .error ⟨.missingClosing .output, some ⟨"\x7b\x7b c", ⟨24, 28⟩⟩⟩ := by
  have parsed : parse "\x7b% if a %\x7db\x7b% endif %\x7dx" =
      .ok [.conditional .positive [⟨some "a", [.text "b"], ifTag.token⟩], .text "x"] := by
    have cut : pieces "\x7b% if a %\x7db\x7b% endif %\x7dx" =
        .ok [.tag ifTag, .text "b", .tag endifTag, .text "x"] := by decide +kernel
    rw [parse, cut]
    rfl
  have output : parse "y\x7b\x7b c \x7d\x7d" =
      .ok [.text "y", .output "c" ⟨"\x7b\x7b c \x7d\x7d", ⟨1, 8⟩⟩] := by
    have cut : pieces "y\x7b\x7b c \x7d\x7d" =
        .ok [.text "y", .output "c" ⟨"\x7b\x7b c \x7d\x7d", ⟨1, 8⟩⟩] := by decide +kernel
    rw [parse, cut]
    rfl
  have whole : parse ("\x7b% if a %\x7db\x7b% endif %\x7dx" ++ "y\x7b\x7b c \x7d\x7d") =
      .ok [.conditional .positive [⟨some "a", [.text "b"], ifTag.token⟩], .text "xy",
        .output "c" ⟨"\x7b\x7b c \x7d\x7d", ⟨24, 31⟩⟩] := by
    have cut : pieces ("\x7b% if a %\x7db\x7b% endif %\x7dx" ++ "y\x7b\x7b c \x7d\x7d") =
        .ok [.tag ifTag, .text "b", .tag endifTag, .text "xy",
          .output "c" ⟨"\x7b\x7b c \x7d\x7d", ⟨24, 31⟩⟩] := by decide +kernel
    rw [parse, cut]
    rfl
  have unclosed : parse "y\x7b\x7b c" =
      .error ⟨.missingClosing .output, some ⟨"\x7b\x7b c", ⟨1, 5⟩⟩⟩ := by
    have cut : pieces "y\x7b\x7b c" =
        .error ⟨.missingClosing .output, some ⟨"\x7b\x7b c", ⟨1, 5⟩⟩⟩ := by decide +kernel
    rw [parse, cut]
    rfl
  exact ⟨(parse_append parsed (by decide) _).2.1 _ _ output whole,
    (parse_append parsed (by decide) _).2.2 _ unclosed⟩

end MessageTemplate.Template
