import MessageTemplate.Proofs.Analysis.Untagged
import MessageTemplate.Proofs.Document.Indexing
import MessageTemplate.Proofs.Document.Wrapping
import MessageTemplate.Proofs.Template.Escaped
import MessageTemplate.Proofs.Template.Quoted

/-! # Outputs with a fallback

The output of a path with a fallback is a filter with a quoted text. Inside of the quotes the fallback is
never cut, as it holds none itself. But the search for the end of an output heeds no quotes
(`IsBase.exists_pieces_iff`): it stops in a fallback that holds such an end, and what is left of the text
before it has no closing quote and is read as no text. -/

namespace MessageTemplate

open Text Template

/-- Whether a step is a position, or a name of letters, digits, underscores and hyphens. -/
def Segment.isPlain : Segment → Bool
  | .key name => name ≠ "" && name.toList.all isReferenceChar
  | .index _ => true

namespace Path

/-! ## Paths in an expression -/

variable {segments : List Segment}

/-- A path of plain steps holds no other marks than dots and brackets. -/
theorem forall_mem_joinFrom (plain : ∀ segment ∈ segments, segment.isPlain) (started : Bool) :
    ∀ c ∈ joinFrom started segments, isReferenceChar c = true ∨ c ∈ ['.', '[', ']'] := by
  induction segments generalizing started with
  | nil => simp [joinFrom]
  | cons segment rest ih =>
    obtain ⟨first, later⟩ := List.forall_mem_cons.mp plain
    intro c member
    cases segment with
    | key name =>
      have words := List.all_eq_true.mp (Bool.and_eq_true_iff.mp first).2
      simp only [joinFrom] at member
      rcases List.mem_append.mp member with here | there
      · cases started with
        | true => exact (List.mem_cons.mp here).symm.imp (words c) (by rintro rfl; simp)
        | false => exact .inl (words c here)
      · exact ih later _ c there
    | index position =>
      simp only [joinFrom, List.cons_append, List.mem_cons, List.mem_append] at member
      rcases member with rfl | digit | rfl | there
      · simp
      · exact .inl (isReferenceChar_of_isDigit (Nat.isDigit_of_mem_toDigits (by decide) (by decide) digit))
      · simp
      · exact ih later _ c there

theorem sealed_joinFrom (plain : ∀ segment ∈ segments, segment.isPlain) (started : Bool) :
    Sealed '|' 0 (joinFrom started segments) := by
  induction segments generalizing started with
  | nil => exact .nil
  | cons segment rest ih =>
    obtain ⟨first, later⟩ := List.forall_mem_cons.mp plain
    cases segment with
    | key name =>
      have words : Sealed '|' 0 name.toList :=
        sealed_of_words isApart_bar (Bool.and_eq_true_iff.mp first).2
      rw [joinFrom]
      refine Sealed.append ?_ (ih later _)
      cases started with
      | true => exact sealed_dot.append words
      | false => exact words
    | index position =>
      have digits : (Nat.toDigits 10 position).all Char.isDigit = true :=
        List.all_eq_true.mpr fun c member =>
          Nat.isDigit_of_mem_toDigits (by decide) (by decide) member
      have bracket : Sealed '|' 0 ('[' :: (Nat.toDigits 10 position ++ [']'])) :=
        sealed_of_inner (ReferenceStep.inner_of_position digits)
      have whole := bracket.append (ih later true)
      simpa [joinFrom] using whole

end Path

namespace Document

/-! ## The filter of a fallback -/

/-- A text that stands as the base of an output: it holds neither blanks nor closing braces, and it is
not cut. -/
structure IsBase (path : List Char) : Prop where
  full : path ≠ []
  dark : ∀ c ∈ path, isBlank c = false
  unclosed : '\x7d' ∉ path
  isSealed : Sealed '|' 0 path

theorem isBase_join {segments : List Segment} (stepped : segments ≠ [])
    (plain : ∀ segment ∈ segments, segment.isPlain) : IsBase (Path.joinFrom false segments) where
  full := by
    obtain ⟨segment, rest, rfl⟩ := List.exists_cons_of_ne_nil stepped
    cases segment with
    | key name =>
      have full := (Bool.and_eq_true_iff.mp (plain _ List.mem_cons_self)).1
      simpa [Path.joinFrom] using fun empty => absurd empty (of_decide_eq_true full)
    | index position => simp [Path.joinFrom]
  dark c member := by
    rcases Path.forall_mem_joinFrom plain false c member with word | mark
    · exact isBlank_of_isReferenceChar word
    · have marks : ['.', '[', ']'].any isBlank = false := rfl
      exact Bool.eq_false_iff.mpr (List.any_eq_false.mp marks c mark)
  unclosed member := by
    rcases Path.forall_mem_joinFrom plain false _ member with word | mark
    · exact absurd word (by decide)
    · exact absurd mark (by decide)
  isSealed := Path.sealed_joinFrom plain false

namespace IsBase

variable {path : List Char} (isBase : IsBase path)
include isBase

theorem tight : Tight path :=
  ⟨fun c first => isBase.dark c (List.mem_of_head? first),
    fun c last => isBase.dark c (List.mem_of_getLast? last)⟩

/-- A path with one filter that gets one argument, which is not cut. -/
theorem splitFilters_default {argument : List Char} (bar : splitTopLevel '|' argument = [argument])
    (comma : splitTopLevel ',' argument = [argument]) (full : argument ≠ [])
    (ends : ∀ c ∈ argument.getLast?, isBlank c = false) :
    splitFilters (String.ofList (path ++ " | default: ".toList ++ argument)) =
      (String.ofList path, [⟨"default", [readArgument (' ' :: argument)]⟩]) := by
  have space {separator : Char} (other : separator ≠ ' ') : Sealed separator 0 [' '] :=
    .singleton (by decide) other.symm
  have base := isBase.isSealed.append (space (by decide))
  have name : Sealed '|' 0 " default: ".toList := .of_checked (by decide)
  have parts : splitTopLevel '|' (path ++ " | default: ".toList ++ argument) =
      [path ++ [' '], " default: ".toList ++ argument] := by
    have whole : path ++ " | default: ".toList ++ argument =
        (path ++ [' ']) ++ '|' :: (" default: ".toList ++ argument) := by simp
    rw [whole, splitTopLevel_append_separator isApart_bar.plain base.closed,
      name.splitTopLevel_append, bar, show splitTopLevel '|' (path ++ [' ']) = [path ++ [' ']] from
        base.whole]
    rfl
  have filter : readFilter (" default: ".toList ++ argument) =
      ⟨"default", [readArgument (' ' :: argument)]⟩ := by
    have kept : trimEnd (' ' :: argument) = ' ' :: argument := by
      refine trimEnd_eq_self fun c last => ends c ?_
      rwa [List.getLast?_cons_of_ne_nil full] at last
    have trimmed : trim (" default: ".toList ++ argument) =
        "default".toList ++ ':' :: ' ' :: argument := by
      have around := trim_append_mark " default".toList (show isBlank ':' = false by decide)
        (' ' :: argument)
      rwa [kept] at around
    have given : (trim (' ' :: argument)).isEmpty = false := by
      have last := List.getLast?_eq_some_getLast full
      have kept := mem_trim (List.mem_cons_of_mem ' ' (List.getLast_mem full)) (ends _ last)
      exact List.isEmpty_eq_false_iff.mpr (List.ne_nil_of_mem kept)
    have cut : splitTopLevel ',' (' ' :: argument) = [' ' :: argument] := by
      have gap := (space (show ',' ≠ ' ' by decide)).splitTopLevel_append argument
      rwa [comma] at gap
    have colon := @breakAt_append_cons ':' "default".toList (by decide) (' ' :: argument)
    simp only [readFilter, trimmed, colon, given, cut]
    rfl
  have trimmed : trim (path ++ [' ']) = path := by
    rw [isGap_space.trim_append, trim_eq_self isBase.tight]
  rw [splitFilters, String.toList_ofList, parts]
  simp only [List.map_cons, List.map_nil, filter, trimmed]
  rfl

end IsBase

/-! ## Reading an output with a fallback -/

/-- What stands between the braces of an output with a fallback. -/
def insideOf (path : List Char) (fallback : String) : List Char :=
  path ++ " | default: ".toList ++ '\'' :: ((withoutQuotes fallback).toList ++ ['\''])

theorem not_mem_withoutQuotes (fallback : String) : '\'' ∉ (withoutQuotes fallback).toList := by
  rw [withoutQuotes, String.toList_ofList]
  intro member
  obtain ⟨c, -, same⟩ := List.mem_map.mp member
  split at same
  · exact absurd same (by decide)
  · contradiction

/-- Replacing quotes does not touch the end of an output. -/
theorem breakOn_withoutQuotes (fallback : String) :
    (breakOn outputClosing (withoutQuotes fallback).toList).isSome =
      occurs outputClosing fallback.toList := by
  rw [withoutQuotes, String.toList_ofList, breakOn_map, Option.isSome_map, occurs]
  intro d member c
  obtain rfl : d = '\x7d' := by simpa [outputClosing] using member
  split
  · next quote => simp [quote]
  · rfl

variable {path : List Char} {fallback : String}

theorem wrapOutput_eq_outputOf (given : fallback ≠ "") :
    wrapOutput (String.ofList path) (some fallback) =
      outputOf (String.ofList (insideOf path fallback)) := by
  rw [wrapOutput_of_ne given, insideOf]
  exact congrArg outputOf (String.toList_inj.mp (by simp))

/-- The search for the end of the output passes the path and goes on in the fallback. -/
theorem breakOn_inside (isBase : IsBase path) (more : List Char) :
    breakOn outputClosing (' ' :: (path ++ " | default: ".toList ++ '\'' :: more)) =
      (breakOn outputClosing more).map fun (before, after) =>
        (' ' :: (path ++ " | default: ".toList ++ '\'' :: before), after) := by
  have absent : '\x7d' ∉ ' ' :: (path ++ " | default: ".toList) := by
    simp [isBase.unclosed]
  have none : breakOn outputClosing (' ' :: (path ++ " | default: ".toList)) = none := by
    refine breakOn_eq_none fun inside => absent (inside.subset ?_)
    decide
  have cut := @breakOn_append_cons outputClosing _ more '\'' (by decide) (by decide) none
  simpa using cut

/-- The pieces of an output, once its end has been found. -/
theorem exists_pieces_outputOf {inside : String} {before after : List Char}
    (closes : breakOn outputClosing (' ' :: (inside.toList ++ [' ']) ++ outputClosing) =
      some (before, after)) :
    ∃ token : Token, pieces (outputOf inside) =
      (piecesFrom token.span.stop after).map fun others =>
        .output (String.ofList (markupOf before)) token :: others := by
  have found : findOpening? (outputOf inside).toList =
      some ([], .output, ' ' :: (inside.toList ++ [' ']) ++ outputClosing) := by
    rw [Json.toList_outputOf]
    rfl
  exact piecesFrom_output 0 found closes

theorem dropTrailing_append_cons (left : List Char) {mark c : Char} (other : c ≠ mark)
    (right : List Char) :
    dropTrailing mark (left ++ c :: right) = left ++ c :: dropTrailing mark right := by
  obtain rfl | ⟨init, last, rfl⟩ := List.eq_nil_or_concat' right
  · simp [dropTrailing, dropLeading, other]
  · by_cases same : last = mark <;> simp [dropTrailing, dropLeading, same]

theorem dropTrailing_subset (mark : Char) (text : List Char) :
    dropTrailing mark text ⊆ text := by
  obtain rfl | ⟨init, last, rfl⟩ := List.eq_nil_or_concat' text
  · simp [dropTrailing, dropLeading]
  · by_cases same : last = mark <;> simp [dropTrailing, dropLeading, same]

namespace IsBase

variable (isBase : IsBase path)
include isBase

/-- The markup of an output whose end has been found in the fallback. -/
theorem exists_markupOf (before : List Char) :
    ∃ rest, markupOf (' ' :: (path ++ " | default: ".toList ++ '\'' :: before)) =
        path ++ " | default: ".toList ++ '\'' :: rest ∧ rest ⊆ before ∧
      ∀ c ∈ ('\'' :: rest).getLast?, isBlank c = false := by
  have left : trimStart (' ' :: (path ++ " | default: ".toList)) =
      path ++ " | default: ".toList := by
    rw [← List.singleton_append, isGap_space.trimStart_append]
    refine trimStart_eq_self fun c first => ?_
    rw [List.head?_append_of_ne_nil _ isBase.full] at first
    exact isBase.tight.1 c first
  refine ⟨trimEnd (dropTrailing '-' before), ?_, ?_, ?_⟩
  · have around := trim_append_mark (' ' :: (path ++ " | default: ".toList))
      (show isBlank '\'' = false by decide) (dropTrailing '-' before)
    rw [left] at around
    rw [markupOf, dropLeading, if_neg (by decide), ← List.cons_append,
      dropTrailing_append_cons _ (by decide), around]
  · refine List.Subset.trans ?_ (dropTrailing_subset '-' before)
    obtain ⟨blanks, whole, -⟩ := exists_trimEnd_append (dropTrailing '-' before)
    conv_rhs => rw [whole]
    exact List.subset_append_left _ _
  · intro c last
    cases rest : trimEnd (dropTrailing '-' before) with
    | nil =>
      rw [rest] at last
      cases last
      decide
    | cons d more =>
      rw [List.getLast?_cons_of_ne_nil (by simp [rest])] at last
      exact getLast?_trimEnd _ c last

/-- A fallback without its closing quote is read as no text. -/
theorem splitFilters_opened_ne {rest : List Char} (absent : '\'' ∉ rest)
    (ends : ∀ c ∈ ('\'' :: rest).getLast?, isBlank c = false) (value : String) :
    splitFilters (String.ofList (path ++ " | default: ".toList ++ '\'' :: rest)) ≠
      (String.ofList path, [⟨"default", [.text value]⟩]) := by
  intro read
  rw [isBase.splitFilters_default (splitFrom_opened rfl absent) (splitFrom_opened rfl absent)
    (List.cons_ne_nil _ _) ends] at read
  have argument : readArgument (' ' :: '\'' :: rest) = .text value := by
    have calls := (Prod.mk.inj read).2
    exact (List.cons.inj (FilterCall.mk.inj (List.cons.inj calls).1).2).1
  obtain ⟨inner, unquoted⟩ := exists_unquote?_of_readArgument argument
  have trimmed : trim (' ' :: '\'' :: rest) = '\'' :: rest := by
    have tight : Tight ('\'' :: rest) := ⟨by rintro c ⟨rfl⟩; decide, ends⟩
    rw [← List.singleton_append, trim, isGap_space.trimStart_append, ← trim, trim_eq_self tight]
  rw [trimmed, unquote?] at unquoted
  have closed : rest.getLast? = some '\'' := by
    by_contra other
    simp [other] at unquoted
  exact absent (List.mem_of_getLast? closed)

theorem tight_insideOf (fallback : String) : Tight (insideOf path fallback) := by
  constructor
  · intro c first
    rw [insideOf, List.append_assoc, List.head?_append_of_ne_nil _ isBase.full] at first
    exact isBase.tight.1 c first
  · intro c last
    rw [insideOf, ← List.cons_append, ← List.append_assoc, List.getLast?_concat] at last
    cases last
    decide

/-- A whole fallback is read as a text. -/
theorem splitFilters_insideOf (fallback : String) :
    splitFilters (String.ofList (insideOf path fallback)) =
      (String.ofList path, [⟨"default", [.text (withoutQuotes fallback)]⟩]) := by
  have quoted {separator : Char} := @Sealed.quoted separator '\'' (withoutQuotes fallback).toList 0
    rfl (not_mem_withoutQuotes fallback)
  have argument := @readArgument_quoted '\'' [' '] isGap_space rfl (withoutQuotes fallback).toList
  rw [List.singleton_append, String.ofList_toList] at argument
  rw [insideOf, isBase.splitFilters_default quoted.whole quoted.whole (List.cons_ne_nil _ _)
    (tight_quoted rfl _).2, argument]

/-- The pieces of the output, once its end has been found behind the quote that opens the fallback. -/
theorem exists_pieces_insideOf {before after : List Char}
    (closes : breakOn outputClosing ((withoutQuotes fallback).toList ++ '\'' :: ' ' :: outputClosing) =
      some (before, after)) :
    ∃ token : Token, pieces (outputOf (String.ofList (insideOf path fallback))) =
      (piecesFrom token.span.stop after).map fun others =>
        .output (String.ofList (markupOf (' ' :: (path ++ " | default: ".toList ++ '\'' :: before))))
          token :: others := by
  refine exists_pieces_outputOf ?_
  have found := breakOn_inside isBase ((withoutQuotes fallback).toList ++ '\'' :: ' ' :: outputClosing)
  rw [closes, Option.map_some] at found
  rw [← found]
  simp [insideOf]

/-- Where the fallback does not hold the end of an output, the output is a single piece. -/
theorem exists_pieces_of_none
    (whole : breakOn outputClosing (withoutQuotes fallback).toList = none) :
    ∃ token : Token, pieces (outputOf (String.ofList (insideOf path fallback))) =
      .ok [.output (String.ofList (insideOf path fallback)) token] := by
  have behind : breakOn outputClosing (' ' :: outputClosing) = some ([' '], []) := by decide
  have closes := @breakOn_append_cons outputClosing _ (' ' :: outputClosing) '\'' (by decide)
    (by decide) whole
  rw [behind, Option.map_some] at closes
  have before : ' ' :: (path ++ " | default: ".toList ++
      '\'' :: ((withoutQuotes fallback).toList ++ '\'' :: [' '])) =
        ' ' :: (insideOf path fallback ++ [' ']) := by
    simp [insideOf]
  have nothing (position : Nat) : piecesFrom position [] = .ok [] := by
    rw [piecesFrom]
    rfl
  obtain ⟨token, read⟩ := isBase.exists_pieces_insideOf closes
  refine ⟨token, ?_⟩
  rw [read, nothing, before, markupOf_spaces (isBase.tight_insideOf fallback)]
  rfl

/-- Where it does, what is cut off there is not the fallback. -/
theorem splitFilters_ne_of_some {cut : List Char × List Char} {markup : String} {token : Token}
    (broken : breakOn outputClosing (withoutQuotes fallback).toList = some cut)
    (single : pieces (outputOf (String.ofList (insideOf path fallback))) =
      .ok [.output markup token]) (value : String) :
    splitFilters markup ≠ (String.ofList path, [⟨"default", [.text value]⟩]) := by
  have closes := breakOn_append_of_eq_some ('\'' :: ' ' :: outputClosing) broken
  obtain ⟨first, read⟩ := isBase.exists_pieces_insideOf closes
  obtain ⟨rest, shown, inside, ends⟩ := isBase.exists_markupOf cut.1
  have absent : '\'' ∉ rest := fun member => by
    have whole := breakOn_eq_some broken
    exact not_mem_withoutQuotes fallback (by simp [whole, inside member])
  rw [read] at single
  cases others : piecesFrom first.span.stop (cut.2 ++ '\'' :: ' ' :: outputClosing) with
  | error fault =>
    rw [others] at single
    contradiction
  | ok pieces =>
    rw [others] at single
    have same := (Piece.output.inj (List.cons.inj (Except.ok.inj single)).1).1
    rw [← same, shown]
    exact isBase.splitFilters_opened_ne absent ends value

/-- The output is a single piece, with the whole fallback, exactly if its end is not found in the
fallback. -/
theorem exists_pieces_iff (given : fallback ≠ "") :
    (∃ (markup : String) (token : Token),
      pieces (wrapOutput (String.ofList path) (some fallback)) = .ok [.output markup token] ∧
        splitFilters markup =
          (String.ofList path, [⟨"default", [.text (withoutQuotes fallback)]⟩])) ↔
      occurs outputClosing fallback.toList = false := by
  rw [wrapOutput_eq_outputOf given, ← breakOn_withoutQuotes]
  cases inFallback : breakOn outputClosing (withoutQuotes fallback).toList with
  | none =>
    obtain ⟨token, read⟩ := isBase.exists_pieces_of_none inFallback
    exact iff_of_true ⟨_, token, read, isBase.splitFilters_insideOf fallback⟩ rfl
  | some cut =>
    refine iff_of_false ?_ (by simp)
    rintro ⟨markup, token, single, filtered⟩
    exact isBase.splitFilters_ne_of_some inFallback single _ filtered

end IsBase

/-- A path of plain steps is read back from its output with a fallback. The output is a single piece, which
has the path for its base and the whole fallback, with typographic apostrophes, for the one argument of its
one filter, exactly if the fallback does not hold the end of an output. -/
theorem wrapOutput_reads_iff {segments : List Segment} (stepped : segments ≠ [])
    (plain : ∀ segment ∈ segments, segment.isPlain) (given : fallback ≠ "") :
    bareExpression (wrapOutput (Path.join segments) (some fallback)) = Path.join segments ∧
      ((∃ (markup : String) (token : Token),
        pieces (wrapOutput (Path.join segments) (some fallback)) = .ok [.output markup token] ∧
          splitFilters markup =
            (Path.join segments, [⟨"default", [.text (withoutQuotes fallback)]⟩])) ↔
        ¬occurs outputClosing fallback.toList) := by
  have isBase := isBase_join stepped plain
  refine ⟨?_, ?_⟩
  · rw [Path.join, wrapOutput_eq_outputOf given, bareExpression_outputOf,
      isBase.splitFilters_insideOf]
  · rw [Bool.not_eq_true]
    exact isBase.exists_pieces_iff given

/-- A fallback with all other marks of expressions in it. -/
theorem wrapOutput_reads_marks :
    ∃ (markup : String) (token : Token),
      pieces (wrapOutput "payload.items[0].first-name" (some "it's | \x7b\x7b a: ['b'], \x7d")) =
          .ok [.output markup token] ∧
        splitFilters markup = ("payload.items[0].first-name",
          [⟨"default", [.text "it’s | \x7b\x7b a: [’b’], \x7d"]⟩]) := by
  have path : Path.join [.key "payload", .key "items", .index 0, .key "first-name"] =
      "payload.items[0].first-name" := by decide
  have quotes : withoutQuotes "it's | \x7b\x7b a: ['b'], \x7d" =
      "it’s | \x7b\x7b a: [’b’], \x7d" := by decide
  have read := (wrapOutput_reads_iff
    (show [Segment.key "payload", .key "items", .index 0, .key "first-name"] ≠ [] by decide)
    (by decide +kernel) (show "it's | \x7b\x7b a: ['b'], \x7d" ≠ "" by decide)).2
  rw [path, quotes] at read
  exact read.mpr (by decide)

/-- A fallback with the end of an output in it is cut off there. -/
theorem wrapOutput_cuts_fallback :
    ¬∃ (markup : String) (token : Token),
      pieces (wrapOutput "payload.name" (some "a\x7d\x7db")) = .ok [.output markup token] ∧
        splitFilters markup = ("payload.name", [⟨"default", [.text "a\x7d\x7db"]⟩]) := by
  have isBase : IsBase "payload.name".toList :=
    @isBase_join [.key "payload", .key "name"] (by decide) (by decide +kernel)
  exact mt (isBase.exists_pieces_iff (by decide)).mp (by decide)

end Document

end MessageTemplate
