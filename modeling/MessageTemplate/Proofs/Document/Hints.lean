import MessageTemplate.Proofs.Document.Wrapping

/-! # The arrays that a document tells of

The hints of a document hold one array for each collection that a node is repeated for, with the number
of elements that the first of these nodes asks for (`arraysOf_hintsOf`). A node further on that is
repeated for the same collection adds nothing, so it may ask for more elements than there are. -/

namespace MessageTemplate.Document

/-- The path of the collection that a node is repeated for, unless it is empty. -/
def Node.collection? (node : Node) : Option String :=
  (node.each?.map bareExpression).filter (· ≠ "")

/-- How many elements a node asks for in its collection: the declared number, or else the default. -/
def Node.elementsWanted (node : Node) (defaultIterations : Nat) : Nat :=
  node.iterations?.getD defaultIterations

/-- The arrays with some path. -/
def Hints.arraysOf (hints : Hints) (path : String) : List Example.DeclaredArray :=
  hints.arrays.filter fun array => array.path = path

namespace Hints

variable {path : String} {iterations : Nat}

/-- A collection is added unless there is an array of its path. -/
theorem arraysOf_addArray (hints : Hints) {added : String} (full : added ≠ "") (count : Nat) :
    (hints.addArray added count).arraysOf path =
      if hints.arraysOf path = [] ∧ added = path then [⟨path, count⟩] else hints.arraysOf path := by
  have known : (hints.arrays.any fun array => array.path = added) = true ↔
      hints.arraysOf added ≠ [] := by
    simp [arraysOf, List.filter_eq_nil_iff]
  rw [addArray]
  split
  · next present =>
    have stands : hints.arraysOf added ≠ [] := known.mp (by simpa [full] using present)
    rw [if_neg]
    rintro ⟨none, rfl⟩
    exact stands none
  · next absent =>
    have none : hints.arraysOf added = [] := by
      by_contra stands
      exact absent (by simp [known.mpr stands])
    by_cases same : added = path
    · subst same
      rw [if_pos ⟨none, rfl⟩]
      simpa [arraysOf] using none
    · rw [if_neg fun both => same both.2]
      simp [arraysOf, same]

theorem arraysOf_addFlag (hints : Hints) (flag : String) :
    (hints.addFlag flag).arraysOf path = hints.arraysOf path := by
  rw [addFlag]
  split
  · rfl
  · rfl

/-- A node adds its collection unless there is an array of its path. -/
theorem arraysOf_addNode (hints : Hints) (node : Node) :
    (hints.addNode iterations node).arraysOf path =
      if hints.arraysOf path = [] ∧ node.collection? = some path
      then [⟨path, node.elementsWanted iterations⟩] else hints.arraysOf path := by
  have told : (hints.addNode iterations node).arraysOf path = (node.each?.elim hints fun each =>
      hints.addArray (bareExpression each) (node.elementsWanted iterations)).arraysOf path := by
    rw [addNode]
    cases node.each? <;> cases node.showCondition? <;>
      simp only [Option.elim_none, Option.elim_some, arraysOf_addFlag, Node.elementsWanted]
  rw [told, Node.collection?]
  cases node.each? with
  | none => simp
  | some each =>
    by_cases empty : bareExpression each = ""
    · simp [empty, addArray, Option.filter]
    · simp [empty, Option.filter, arraysOf_addArray hints empty]

/-- Of the nodes that are repeated for a collection, the first one adds it. -/
theorem arraysOf_foldl_addNode (hints : Hints) (nodes : List Node) :
    (nodes.foldl (fun hints found => hints.addNode iterations found) hints).arraysOf path =
      if hints.arraysOf path = [] then
        ((nodes.find? fun node => node.collection? = some path).map fun first =>
          ⟨path, first.elementsWanted iterations⟩).toList
      else hints.arraysOf path := by
  induction nodes generalizing hints with
  | nil => simp
  | cons node rest ih =>
    rw [List.foldl_cons, ih, arraysOf_addNode, List.find?_cons]
    by_cases none : hints.arraysOf path = []
    · by_cases named : node.collection? = some path
      · simp [none, named]
      · simp [none, named]
    · simp [none]

end Hints

/-- The one array of a path is that of the first node which is repeated for it. -/
theorem arraysOf_hintsOf (document : Node) (defaultIterations : Nat) (path : String) :
    (hintsOf document defaultIterations).arraysOf path =
      ((document.reachable.find? fun node => node.collection? = some path).map fun first =>
        ⟨path, first.elementsWanted defaultIterations⟩).toList := by
  have nothing : Hints.empty.arraysOf path = [] := rfl
  rw [hintsOf, gatherHints_eq_foldl, Hints.arraysOf_foldl_addNode, if_pos nothing]

/-- If a node of a document is repeated for a collection whose path is not empty, the hints of the
document hold exactly one array of that path. It has as many elements as the first such node asks for,
in the order of the document, in which a node stands before its content. -/
theorem hintsOf_tells_first (document : Node) (defaultIterations : Nat) {node : Node} {path : String}
    (inside : node ∈ document.reachable) (repeated : node.collection? = some path) :
    ∃ before first after, document.reachable = before ++ first :: after ∧
      first.collection? = some path ∧ (∀ other ∈ before, other.collection? ≠ some path) ∧
      (hintsOf document defaultIterations).arraysOf path =
        [⟨path, first.elementsWanted defaultIterations⟩] := by
  obtain ⟨first, found⟩ : ∃ first,
      (document.reachable.find? fun node => node.collection? = some path) = some first := by
    refine Option.isSome_iff_exists.mp (List.find?_isSome.mpr ⟨node, inside, ?_⟩)
    simpa using repeated
  obtain ⟨named, before, after, whole, others⟩ := List.find?_eq_some_iff_append.mp found
  refine ⟨before, first, after, whole, by simpa using named, by simpa using others, ?_⟩
  rw [arraysOf_hintsOf, found]
  rfl

/-! Two nodes that are repeated for one collection, which is written in two ways. -/

/-- A node that is repeated for a collection a number of times. -/
def repeatedTimes (collection : String) (times : Nat) : Node :=
  ((Node.ofKind "repeat").withAttr Node.eachKey (.string collection)).withAttr "iterations"
    (.ofNat times)

/-- A node that asks for two items. -/
def shortRepeat : Node := repeatedTimes "payload.items" 2

/-- A node that asks for five items. -/
def longRepeat : Node := repeatedTimes "\x7b\x7b payload.items \x7d\x7d" 5

/-- A document in which the short one comes first. -/
def shortAndLong : Node := (Node.ofKind "doc").withContent [shortRepeat, longRepeat]

theorem collection?_shortRepeat : shortRepeat.collection? = some "payload.items" := by
  decide +kernel

theorem collection?_longRepeat : longRepeat.collection? = some "payload.items" := by
  decide +kernel

theorem reachable_shortAndLong :
    shortAndLong.reachable = [shortAndLong, shortRepeat, longRepeat] := by
  rfl

theorem hintsOf_tells_first_short : (hintsOf shortAndLong 3).arraysOf "payload.items" =
    [⟨"payload.items", 2⟩] := by
  have inside : longRepeat ∈ shortAndLong.reachable := by simp [reachable_shortAndLong]
  obtain ⟨before, first, after, whole, named, others, only⟩ :=
    hintsOf_tells_first shortAndLong 3 inside collection?_longRepeat
  rw [reachable_shortAndLong] at whole
  rcases before with _ | ⟨root, _ | ⟨second, rest⟩⟩
  · obtain ⟨rfl, -⟩ := List.cons.inj whole
    contradiction
  · obtain ⟨-, whole⟩ := List.cons.inj whole
    obtain ⟨rfl, -⟩ := List.cons.inj whole
    exact only
  · obtain ⟨-, whole⟩ := List.cons.inj whole
    obtain ⟨rfl, -⟩ := List.cons.inj whole
    exact absurd collection?_shortRepeat (others _ (by simp))

/-- The one array of the collection is too short for the second node. -/
theorem hintsOf_falls_short : longRepeat ∈ shortAndLong.reachable ∧
    longRepeat.collection? = some "payload.items" ∧
      ∃ array, (hintsOf shortAndLong 3).arraysOf "payload.items" = [array] ∧
        array.iterations < longRepeat.elementsWanted 3 := by
  refine ⟨by simp [reachable_shortAndLong], collection?_longRepeat, ⟨"payload.items", 2⟩, ?_, ?_⟩
  · decide +kernel
  · decide +kernel

end MessageTemplate.Document
