import MessageTemplate.Proofs.Template.Progress
import MessageTemplate.Proofs.Template.Unambiguous
import MessageTemplate.Proofs.Template.Writing

/-! # Templates are read by the grammar

What the machine builds is what the grammar derives, and where the grammar derives nothing, the token
of the fault is the only one to blame (`parse_follows_grammar`). -/

namespace MessageTemplate.Template

open Building

/-! ## Only one token is to blame -/

theorem Viable.of_append {left right : List Piece} (viable : Viable (left ++ right)) :
    Viable left := by
  obtain ⟨rest, derivable⟩ := viable
  exact ⟨right ++ rest, by simpa using derivable⟩

/-- What is viable goes no further than to where viability ends. -/
theorem Viable.length_le {before earlier rest others : List Piece} {piece : Piece}
    (viable : Viable earlier) (ends : ¬Viable (before ++ [piece]))
    (same : before ++ piece :: rest = earlier ++ others) : earlier.length ≤ before.length := by
  by_contra longer
  have first : before ++ [piece] <+: before ++ piece :: rest := ⟨rest, by simp⟩
  have second : earlier <+: before ++ piece :: rest := ⟨others, same.symm⟩
  obtain ⟨more, rfl⟩ := List.prefix_of_prefix_length_le first second (by simp; omega)
  exact ends viable.of_append

/-- The innermost block that is open is the one that the machine has on top. -/
theorem InnermostOpen.run {opening : Tag} {pieces : List Piece}
    (innermost : InnermostOpen opening pieces) (viable : Viable pieces) :
    ∃ nodes block before blocks,
      start.run pieces = .ok ⟨nodes, ⟨block, opening, before⟩ :: blocks⟩ := by
  obtain ⟨earlier, phrases, further, closing, node, item, whole⟩ := innermost
  rw [Phrase.pieces, ← List.append_assoc] at whole
  obtain ⟨rfl, -⟩ := List.append_inj' whole rfl
  cases item with
  | block derived rule name =>
    have adds := derived.addsEach
    obtain ⟨done, current, body, block, rfl, stands, -⟩ := rule.stands
    obtain ⟨state, read⟩ := viable_iff.mp viable.of_append
    refine ⟨body, block, state.body, state.blocks, ?_⟩
    rw [run_append read, adds.run stands, adds.openingTag_eq]

theorem Blames.unique {pieces : List Piece} {token other : Option Token}
    (one : Blames pieces token) (two : Blames pieces other) : token = other := by
  cases one with
  | @tag before rest tag split viable ends =>
    cases two with
    | @tag earlier others last cut started stops =>
      have same := split.symm.trans cut
      have lengths := Nat.le_antisymm (viable.length_le stops same.symm)
        (started.length_le ends same)
      obtain ⟨-, rest⟩ := List.append_inj same lengths
      rw [Piece.tag.inj (List.cons.inj rest).1]
    | unclosed whole =>
      rw [split, ← List.singleton_append, ← List.append_assoc] at whole
      exact absurd whole.of_append ends
  | unclosed whole innermost =>
    cases two with
    | @tag before rest tag split viable ends =>
      rw [split, ← List.singleton_append, ← List.append_assoc] at whole
      exact absurd whole.of_append ends
    | unclosed _ last =>
      obtain ⟨nodes, block, before, blocks, read⟩ := innermost.run whole
      obtain ⟨more, further, earlier, others, same⟩ := last.run whole
      rw [read] at same
      simp only [Except.ok.injEq, Building.mk.injEq, List.cons.injEq, OpenBlock.mk.injEq] at same
      rw [same.2.1.2.1]

/-- A source is read as a tree exactly if it is cut into pieces and these are derived from phrases
that stand for the nodes of the tree. The phrases are then the only ones, and what the tree writes
back is what is kept of them. If the pieces are not derived from phrases, the token of the fault is
the only one to blame: the one of the first tag at which what has been read cannot be completed any
more, or without such a tag the one that opened the innermost block still open. -/
theorem parse_follows_grammar (source : String) :
    (∀ nodes, parse source = .ok nodes ↔
      ∃ found phrases, pieces source = .ok found ∧ Derives phrases found nodes) ∧
    ∀ found, pieces source = .ok found →
      (∀ phrases others nodes more, Derives phrases found nodes → Derives others found more →
        phrases = others ∧ nodes = more) ∧
      (∀ phrases nodes, Derives phrases found nodes → piecesOfNodes nodes = keptOfAll phrases) ∧
      (¬Derivable found →
        ∃ fault, parse source = .error fault ∧ ∀ token, Blames found token ↔ token = fault.token) := by
  have unfolded : parse source = pieces source >>= build := rfl
  refine ⟨fun nodes => ?_, fun found cut => ⟨?_, ?_, ?_⟩⟩
  · rw [unfolded]
    constructor
    · intro built
      cases cut : pieces source with
      | error fault => rw [cut] at built; contradiction
      | ok found =>
        rw [cut] at built
        obtain ⟨phrases, derives⟩ := build_eq_ok_iff.mp built
        exact ⟨found, phrases, rfl, derives⟩
    · rintro ⟨found, phrases, cut, derives⟩
      rw [cut]
      exact build_eq_ok_iff.mpr ⟨phrases, derives⟩
  · intro phrases others nodes more one two
    have built := build_eq_ok_iff.mpr ⟨phrases, one⟩
    rw [build_eq_ok_iff.mpr ⟨others, two⟩] at built
    exact ⟨one.unique two, (Except.ok.inj built).symm⟩
  · rintro phrases nodes ⟨rfl, body⟩
    exact body.pieces_eq (pieces_told cut)
  · intro underivable
    cases built : build found with
    | ok nodes =>
      obtain ⟨phrases, derives⟩ := build_eq_ok_iff.mp built
      exact absurd ⟨phrases, nodes, derives⟩ underivable
    | error fault =>
      have blamed := blames_of_build built
      refine ⟨fault, ?_, fun token => ⟨fun other => other.unique blamed, fun same => same ▸ blamed⟩⟩
      rw [unfolded, cut]
      exact built

/-! A loop with a last clause, and the loop left open. -/

/-- The opening tag of a loop. -/
def forTag : Tag :=
  ⟨"for", "x in y", ⟨"\x7b% for x in y %\x7d", ⟨0, 16⟩⟩⟩

/-- The tag of the last clause. -/
def elseTag : Tag :=
  ⟨"else", "", ⟨"\x7b% else %\x7d", ⟨17, 27⟩⟩⟩

/-- The closing tag of the loop. -/
def endforTag : Tag :=
  ⟨"endfor", "", ⟨"\x7b% endfor %\x7d", ⟨28, 40⟩⟩⟩

theorem derives_loop :
    Derives [.block [⟨forTag, [.text "a"]⟩, ⟨elseTag, [.text "b"]⟩] endforTag]
      [.tag forTag, .text "a", .tag elseTag, .text "b", .tag endforTag]
      [.loop .list "x" (.expression "y") "" [.text "a"] [.text "b"] forTag.token] := by
  have header : OpensLoop .list ⟨"x", .expression "y", ""⟩ forTag := ⟨rfl, by decide +kernel⟩
  have clauses : Clauses [⟨forTag, [.text "a"]⟩, ⟨elseTag, [.text "b"]⟩]
      [⟨forTag, [.text "a"]⟩, ⟨elseTag, [.text "b"]⟩] :=
    .cons (.cons .text .nil) (.cons (.cons .text .nil) .nil)
  have rule := @BlockRule.loop _ _ ⟨forTag, [.text "a"]⟩ [⟨elseTag, [.text "b"]⟩] header
    (.otherwise rfl)
  exact ⟨rfl, .cons (.block clauses rule rfl) .nil⟩

theorem not_derivable_forTag : ¬Derivable [.tag forTag] := by
  rintro ⟨phrases, nodes, derives⟩
  have built := build_eq_ok_iff.mpr ⟨phrases, derives⟩
  have unclosed : build [.tag forTag] = .error ⟨.unclosed "for", some forTag.token⟩ := rfl
  rw [unclosed] at built
  contradiction

theorem parse_follows_grammar_loop :
    piecesOfNodes [.loop .list "x" (.expression "y") "" [.text "a"] [.text "b"] forTag.token] =
        [.tag forTag, .text "a", .text "b"] ∧
      ∃ fault, parse "\x7b% for x in y %\x7d" = .error fault ∧
        ∀ token, Blames [.tag forTag] token ↔ token = fault.token :=
  ⟨((parse_follows_grammar
      "\x7b% for x in y %\x7da\x7b% else %\x7db\x7b% endfor %\x7d").2 _
      (by decide +kernel)).2.1 _ _ derives_loop,
    ((parse_follows_grammar "\x7b% for x in y %\x7d").2 _ (by decide +kernel)).2.2
      not_derivable_forTag⟩

end MessageTemplate.Template
