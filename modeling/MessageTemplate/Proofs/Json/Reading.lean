import MessageTemplate.Json.Reader
import MessageTemplate.Proofs.Json.Lexemes

/-! # Values are read back

The reader takes the lexemes of a value from where it expects one to where the value is complete,
and leaves the open containers as they are (`runs_lexemesOf`). So a value is read back from its text
if its numbers are integers of 64 bits and it nests no deeper than containers may be open
(`readWritten?_text`), and no value that is read nests deeper (`nesting_le_of_readWritten?`). -/

namespace MessageTemplate.Json

/-! ## Runs -/

/-- The reader goes from one state to another by some lexemes. -/
def Runs (state : Progress) (lexemes : List Lexeme) (last : Progress) : Prop :=
  lexemes.foldlM Progress.step? state = some last

section Runs

variable {state next last : Progress} {lexeme : Lexeme} {lexemes more : List Lexeme}

theorem Runs.nil : Runs state [] state := rfl

theorem Runs.cons (step : Progress.step? state lexeme = some next) (later : Runs next lexemes last) :
    Runs state (lexeme :: lexemes) last := by
  rw [Runs, List.foldlM_cons, step]
  exact later

theorem Runs.append (first : Runs state lexemes next) (later : Runs next more last) :
    Runs state (lexemes ++ more) last := by
  rw [Runs, List.foldlM_append, first]
  exact later

theorem step?_of_runs_cons (runs : Runs state (lexeme :: lexemes) last) :
    ∃ next, Progress.step? state lexeme = some next ∧ Runs next lexemes last := by
  rw [Runs, List.foldlM_cons] at runs
  exact Option.bind_eq_some_iff.mp runs

end Runs

/-! ## The lexemes of a value -/

theorem open?_of_lt {frames : List Frame} (room : frames.length < maxDepth) (frame : Frame)
    (expected : Expected) : Progress.open? frames frame expected = some ⟨expected, frame :: frames⟩ :=
  if_pos room

/-- No value starts with the end of an array. -/
theorem lexemesOf_eq_cons (value : Json) :
    ∃ first later, lexemesOf value = first :: later ∧ first ≠ .endArray := by
  cases value with
  | array items =>
    cases items with
    | nil => exact ⟨.beginArray, _, rfl, nofun⟩
    | cons => exact ⟨.beginArray, _, rfl, nofun⟩
  | object members =>
    cases members with
    | nil => exact ⟨.beginObject, _, rfl, nofun⟩
    | cons => exact ⟨.beginObject, _, rfl, nofun⟩
  | null | bool | number | string => exact ⟨.scalar _, _, rfl, nofun⟩

/-- Where an array may end as well, a value is read as where only a value is expected. -/
theorem step?_valueOrEnd {lexeme : Lexeme} (goesOn : lexeme ≠ .endArray) (frames : List Frame) :
    Progress.step? ⟨.valueOrEnd, frames⟩ lexeme = Progress.step? ⟨.value, frames⟩ lexeme := by
  cases lexeme with
  | endArray => exact absurd rfl goesOn
  | beginArray | beginObject | endObject | comma | colon | scalar =>
    rcases frames with - | ⟨⟨done⟩ | ⟨done⟩ | ⟨done, key⟩, frames⟩ <;> rfl

theorem runs_valueOrEnd {value : Json} {frames : List Frame} {last : Progress}
    (runs : Runs ⟨.value, frames⟩ (lexemesOf value) last) :
    Runs ⟨.valueOrEnd, frames⟩ (lexemesOf value) last := by
  obtain ⟨first, later, given, goesOn⟩ := lexemesOf_eq_cons value
  rw [given] at runs ⊢
  obtain ⟨next, step, further⟩ := step?_of_runs_cons runs
  exact .cons ((step?_valueOrEnd goesOn frames).trans step) further

mutual

/-- The reader completes a value by its lexemes, if there is room for its containers. -/
theorem runs_lexemesOf (value : Json) {frames : List Frame}
    (fits : frames.length + value.nesting ≤ maxDepth) :
    Runs ⟨.value, frames⟩ (lexemesOf value) ⟨.after value, frames⟩ := by
  match value with
  | .null | .bool _ | .number _ | .string _ => exact .cons rfl .nil
  | .array [] =>
    exact .cons (open?_of_lt (Nat.lt_of_succ_le fits) _ _) (.cons rfl .nil)
  | .array (item :: items) =>
    rw [nesting, nestingOfItems] at fits
    have room : frames.length < maxDepth := by omega
    have first : Runs ⟨.value, .items [] :: frames⟩ (lexemesOf item) _ :=
      runs_lexemesOf item (by rw [List.length_cons]; omega)
    exact .cons (open?_of_lt room _ _)
      ((runs_valueOrEnd first).append (runs_lexemesOfItems items [] (by omega)))
  | .object [] =>
    exact .cons (open?_of_lt (Nat.lt_of_succ_le fits) _ _) (.cons rfl .nil)
  | .object ((key, next) :: members) =>
    rw [nesting, nestingOfMembers] at fits
    have room : frames.length < maxDepth := by omega
    have first : Runs ⟨.value, .member [] key :: frames⟩ (lexemesOf next) _ :=
      runs_lexemesOf next (by rw [List.length_cons]; omega)
    exact .cons (open?_of_lt room _ _) (.cons rfl (.cons rfl
      (first.append (runs_lexemesOfMembers members [] (by omega)))))

/-- The reader completes an array by what follows a first item. -/
theorem runs_lexemesOfItems (items done : List Json) {last : Json} {frames : List Frame}
    (fits : frames.length + (nestingOfItems items + 1) ≤ maxDepth) :
    Runs ⟨.after last, .items done :: frames⟩ (lexemesOfItems items)
      ⟨.after (.array ((last :: done).reverse ++ items)), frames⟩ := by
  match items with
  | [] => exact .cons rfl (by rw [List.append_nil]; exact .nil)
  | item :: items =>
    rw [nestingOfItems] at fits
    have first : Runs ⟨.value, .items (last :: done) :: frames⟩ (lexemesOf item) _ :=
      runs_lexemesOf item (by rw [List.length_cons]; omega)
    have later : Runs ⟨.after item, .items (last :: done) :: frames⟩ (lexemesOfItems items) _ :=
      runs_lexemesOfItems items (last :: done) (by omega)
    rw [List.reverse_cons, List.append_assoc] at later
    exact .cons rfl (first.append later)

/-- The reader completes an object by what follows a first member. -/
theorem runs_lexemesOfMembers (members done : List (String × Json)) {key : String} {last : Json}
    {frames : List Frame} (fits : frames.length + (nestingOfMembers members + 1) ≤ maxDepth) :
    Runs ⟨.after last, .member done key :: frames⟩ (lexemesOfMembers members)
      ⟨.after (.object (((key, last) :: done).reverse ++ members)), frames⟩ := by
  match members with
  | [] => exact .cons rfl (by rw [List.append_nil]; exact .nil)
  | (name, next) :: members =>
    rw [nestingOfMembers] at fits
    have first : Runs ⟨.value, .member ((key, last) :: done) name :: frames⟩ (lexemesOf next) _ :=
      runs_lexemesOf next (by rw [List.length_cons]; omega)
    have later : Runs ⟨.after next, .member ((key, last) :: done) name :: frames⟩
        (lexemesOfMembers members) _ :=
      runs_lexemesOfMembers members ((key, last) :: done) (by omega)
    rw [List.reverse_cons, List.append_assoc] at later
    exact .cons rfl (.cons rfl (.cons rfl (first.append later)))

end

/-- A value is read back from its text. -/
theorem readWritten?_text {value : Json} (exact : value.HasExactNumbers)
    (shallow : value.nesting ≤ maxDepth) : readWritten? value.text = some value := by
  have cut := lexemes?_write exact closes_nil
  have runs : Runs ⟨.value, []⟩ (lexemesOf value) _ := runs_lexemesOf value (by simpa using shallow)
  have complete : ofLexemes? (lexemesOf value) = some value := by
    rw [ofLexemes?, runs]
  rw [readWritten?, text, String.toList_ofList, cut, lexemes?, Option.map_some, List.append_nil]
  exact complete

/-! ## Nesting of what is read -/

/-- The values that an open container holds so far. -/
def Frame.values : Frame → List Json
  | .items done => done
  | .members done => done.map Prod.snd
  | .member done _ => done.map Prod.snd

/-- Open containers and what they hold nest no deeper than containers may be open. -/
def Fit : List Frame → Prop
  | [] => True
  | frame :: frames =>
    frames.length < maxDepth ∧
      (∀ value ∈ frame.values, value.nesting < maxDepth - frames.length) ∧ Fit frames

/-- Nothing that has been read nests too deep. -/
structure Progress.Fits (state : Progress) : Prop where
  fit : Fit state.frames
  complete : ∀ value, state.expected = .after value →
    value.nesting ≤ maxDepth - state.frames.length

section Fits

variable {state next last : Progress} {frames : List Frame} {lexeme : Lexeme}

theorem fits_of_fit {expected : Expected} (fit : Fit frames)
    (incomplete : ∀ value, .after value ≠ expected) : Progress.Fits ⟨expected, frames⟩ :=
  ⟨fit, fun value same => absurd same.symm (incomplete value)⟩

theorem fits_complete {value : Json} (fit : Fit frames)
    (shallow : value.nesting ≤ maxDepth - frames.length) : Progress.Fits ⟨.after value, frames⟩ := by
  refine ⟨fit, ?_⟩
  rintro other ⟨⟩
  exact shallow

theorem fits_array {done : List Json} (fit : Fit (.items done :: frames)) :
    Progress.Fits ⟨.after (.array done.reverse), frames⟩ := by
  obtain ⟨room, each, outer⟩ := fit
  refine fits_complete outer (nesting_array_le_iff.mpr ⟨Nat.sub_pos_of_lt room, ?_⟩)
  intro item member
  exact each item (List.mem_reverse.mp member)

theorem fits_object {done : List (String × Json)} (fit : Fit (.members done :: frames)) :
    Progress.Fits ⟨.after (.object done.reverse), frames⟩ := by
  obtain ⟨room, each, outer⟩ := fit
  refine fits_complete outer (nesting_object_le_iff.mpr ⟨Nat.sub_pos_of_lt room, ?_⟩)
  intro entry member
  exact each entry.2 (List.mem_map_of_mem (List.mem_reverse.mp member))

theorem fits_open? {frame : Frame} {expected : Expected} (fit : Fit frames)
    (empty : frame.values = []) (incomplete : ∀ value, .after value ≠ expected)
    (opened : Progress.open? frames frame expected = some next) : next.Fits := by
  obtain ⟨room, given⟩ := Option.ite_none_right_eq_some.mp opened
  cases given
  have nothing : ∀ value ∈ frame.values, value.nesting < maxDepth - frames.length := by
    rw [empty]
    exact List.forall_mem_nil _
  exact fits_of_fit ⟨room, nothing, fit⟩ incomplete

/-- A container that holds one more value fits if the value does. -/
theorem fit_add {frame wider : Frame} {value : Json} (fit : Fit (frame :: frames))
    (shallow : value.nesting ≤ maxDepth - (frame :: frames).length)
    (added : wider.values = value :: frame.values) : Fit (wider :: frames) := by
  obtain ⟨room, each, outer⟩ := fit
  refine ⟨room, ?_, outer⟩
  rw [List.length_cons] at shallow
  rw [added]
  exact List.forall_mem_cons.mpr ⟨by omega, each⟩

theorem fits_start? (fit : Fit frames) (flat : ∀ value, lexeme = .scalar value → value.nesting = 0)
    (started : Progress.start? frames lexeme = some next) : next.Fits := by
  cases lexeme with
  | scalar value =>
    cases started
    exact fits_complete fit (flat value rfl ▸ Nat.zero_le _)
  | beginArray | beginObject => exact fits_open? fit rfl (by nofun) started
  | endArray | endObject | comma | colon => cases started

theorem fits_continue? {value : Json} (fit : Fit frames)
    (shallow : value.nesting ≤ maxDepth - frames.length)
    (goesOn : Progress.continue? value frames lexeme = some next) : next.Fits := by
  unfold Progress.continue? at goesOn
  split at goesOn
  case h_5 => cases goesOn
  all_goals cases goesOn
  · exact fits_of_fit (fit_add fit shallow rfl) nofun
  · exact fits_array (fit_add fit shallow rfl)
  · exact fits_of_fit (fit_add fit shallow rfl) nofun
  · exact fits_object (fit_add fit shallow rfl)

/-- Where an object may end as well, a key is read as where only a key is expected. -/
theorem step?_keyOrEnd (goesOn : lexeme ≠ .endObject) (frames : List Frame) :
    Progress.step? ⟨.keyOrEnd, frames⟩ lexeme = Progress.step? ⟨.key, frames⟩ lexeme := by
  cases lexeme with
  | endObject => exact absurd rfl goesOn
  | scalar value =>
    cases value <;> rcases frames with - | ⟨⟨done⟩ | ⟨done⟩ | ⟨done, key⟩, frames⟩ <;> rfl
  | beginArray | endArray | beginObject | comma | colon =>
    rcases frames with - | ⟨⟨done⟩ | ⟨done⟩ | ⟨done, key⟩, frames⟩ <;> rfl

theorem fits_key (fit : Fit frames) (step : Progress.step? ⟨.key, frames⟩ lexeme = some next) :
    next.Fits := by
  rcases lexeme with _ | _ | _ | _ | _ | _ | (_ | _ | _ | key | _ | _) <;> cases step
  exact fits_of_fit fit nofun

/-- A step keeps what has been read from nesting too deep. -/
theorem fits_step? (fits : state.Fits) (flat : ∀ value, lexeme = .scalar value → value.nesting = 0)
    (step : Progress.step? state lexeme = some next) : next.Fits := by
  obtain ⟨expected, frames⟩ := state
  obtain ⟨fit, complete⟩ := fits
  -- Only the ends of containers make new values, and their frames say how deep those nest.
  cases expected with
  | value => exact fits_start? fit flat step
  | valueOrEnd =>
    by_cases ends : lexeme = .endArray
    · subst ends
      rcases frames with - | ⟨⟨done⟩ | ⟨done⟩ | ⟨done, key⟩, frames⟩ <;> cases step
      exact fits_array fit
    · rw [step?_valueOrEnd ends] at step
      exact fits_start? fit flat step
  | keyOrEnd =>
    by_cases ends : lexeme = .endObject
    · subst ends
      rcases frames with - | ⟨⟨done⟩ | ⟨done⟩ | ⟨done, key⟩, frames⟩ <;> cases step
      exact fits_object fit
    · rw [step?_keyOrEnd ends] at step
      exact fits_key fit step
  | key => exact fits_key fit step
  | colon key =>
    cases lexeme <;> rcases frames with _ | ⟨⟨done⟩ | ⟨done⟩ | ⟨done, key⟩, frames⟩ <;> cases step
    exact fits_of_fit fit nofun
  | after value => exact fits_continue? fit (complete value rfl) step

theorem fits_runs {lexemes : List Lexeme} (fits : state.Fits)
    (flat : ∀ value, .scalar value ∈ lexemes → value.nesting = 0)
    (runs : Runs state lexemes last) : last.Fits := by
  induction lexemes generalizing state with
  | nil =>
    cases runs
    exact fits
  | cons lexeme lexemes ih =>
    obtain ⟨next, step, later⟩ := step?_of_runs_cons runs
    refine ih (fits_step? fits (fun value same => ?_) step)
      (fun value member => flat value (List.mem_cons_of_mem _ member)) later
    exact flat value (same ▸ List.mem_cons_self)

end Fits

theorem nesting_of_readScalar? {text rest : List Char} {value : Json}
    (read : readScalar? text = some (value, rest)) : value.nesting = 0 := by
  unfold readScalar? at read
  split at read
  · obtain ⟨⟨body, after⟩, -, joined⟩ := Option.map_eq_some_iff.mp read
    cases joined
    rfl
  · split at read
    · next word =>
      obtain rfl := Option.some.inj read
      obtain ⟨⟨letters, meaning⟩, member, cut⟩ := List.exists_of_findSome?_eq_some word
      obtain ⟨tail, -, joined⟩ := Option.map_eq_some_iff.mp cut
      cases joined
      have flat : ∀ entry ∈ words, entry.2.nesting = 0 := by simp [words, nesting]
      exact flat _ member
    · obtain ⟨⟨figure, after⟩, -, joined⟩ := Option.map_eq_some_iff.mp read
      cases joined
      rfl

theorem punctuation?_ne_scalar (c : Char) (value : Json) :
    punctuation? c ≠ some (.scalar value) := by
  unfold punctuation?
  split <;> nofun

theorem nesting_of_mem_lexemes? {text : List Char} {lexemes : List Lexeme} {value : Json}
    (cut : lexemes? text = some lexemes) (member : .scalar value ∈ lexemes) :
    value.nesting = 0 := by
  fun_induction lexemes? text generalizing lexemes with
  | case1 => cases cut; cases member
  | case2 c rest space ih => exact ih cut member
  | case3 c rest plain mark marks ih =>
    obtain ⟨more, later, rfl⟩ := Option.map_eq_some_iff.mp cut
    rcases List.mem_cons.mp member with rfl | inside
    · exact absurd marks (punctuation?_ne_scalar c value)
    · exact ih later inside
  | case4 c rest plain noMark scalar tail read ih =>
    obtain ⟨more, later, rfl⟩ := Option.map_eq_some_iff.mp cut
    rcases List.mem_cons.mp member with same | inside
    · cases same
      exact nesting_of_readScalar? read
    · exact ih later inside
  | case5 => cases cut

/-- A value that is read nests no deeper than containers may be open. -/
theorem nesting_le_of_readWritten? {source : String} {value : Json}
    (read : readWritten? source = some value) : value.nesting ≤ maxDepth := by
  obtain ⟨lexemes, cut, read⟩ := Option.bind_eq_some_iff.mp read
  have start : Progress.Fits ⟨.value, []⟩ := fits_of_fit trivial nofun
  have kept (last : Progress) (runs : Runs ⟨.value, []⟩ lexemes last) : last.Fits :=
    fits_runs start (fun value => nesting_of_mem_lexemes? cut) runs
  unfold ofLexemes? at read
  split at read
  · next runs =>
    cases read
    exact (kept _ runs).complete value rfl
  · cases read

end MessageTemplate.Json
