import MessageTemplate.Analysis.Analyzer

/-! # Occurrences of names

The places where a template reads a name, each with the names that are bound around it. The
occurrences in a part of a template are first listed for the part alone; what surrounds the part
then adds the names it binds there. Which occurrences are reported is said of the list as a whole:
those that nothing binds, and of each name only the first. -/

namespace MessageTemplate.Analysis

open Template

/-- A place where a name is read. A name with blanks in it is refused whatever is bound. A name
that is read from the elements of a collection counts only if the collection itself is valid. -/
structure Occurrence where
  name : String
  token : Token
  context : Option String
  filterIssue : Option Filter.Issue
  hasBlank : Bool
  collection : Option String
  binders : List String
  deriving DecidableEq, Repr

namespace Occurrence

/-- A name that is read by a tag or a filter. -/
def within (context : String) (token : Token) (name : String) : Occurrence :=
  ⟨name, token, some context, none, false, none, []⟩

/-- More names are bound around an occurrence. -/
def under (names : List String) (found : Occurrence) : Occurrence :=
  { found with binders := names ++ found.binders }

/-- Whether a bound name is a path or what the path leads on from. -/
def bindsPath (binders : List String) (path : String) : Bool :=
  binders.any fun name => path = name || Path.isStrictPrefix name path

/-- Whether the name is bound where it is read. -/
def isBound (found : Occurrence) : Bool :=
  !found.hasBlank && bindsPath found.binders found.name

/-- Whether the collection that the name is read from, if there is one, is valid. -/
def isFounded (schema : Option Schema) (options : Options) (found : Occurrence) : Bool :=
  found.collection.all fun events =>
    !bindsPath found.binders events && judgeFree schema options events = .valid

/-- What is wrong with the name, if anything is. -/
def problem? (schema : Option Schema) (options : Options) (found : Occurrence) :
    Option Problem :=
  if found.hasBlank then some (.naming .blank)
  else
    match judgeFree schema options found.name with
    | .invalid issue => some (.naming issue)
    | _ => none

/-- The occurrence as a variable of the template. -/
def toVariable (schema : Option Schema) (options : Options) (found : Occurrence) : Variable :=
  ⟨found.name, found.token, found.context, found.problem? schema options, found.filterIssue⟩

/-- Whether neither the name nor the filters have an issue. -/
def isValid (schema : Option Schema) (options : Options) (found : Occurrence) : Bool :=
  (found.problem? schema options).isNone && found.filterIssue.isNone

/-- The first occurrence of each name. -/
def firsts : List Occurrence → List Occurrence
  | [] => []
  | found :: rest => found :: (firsts rest).filter fun later => later.name ≠ found.name

/-- The occurrences that are reported. -/
def reported (schema : Option Schema) (options : Options) (found : List Occurrence) :
    List Occurrence :=
  firsts (found.filter fun each => each.isFounded schema options && !each.isBound)

end Occurrence

/-- The names that a node binds for the nodes behind it. -/
def bindersAfter : Node → List String
  | .assign target _ _ => [target]
  | .capture target _ _ => [target]
  | .tag tag =>
    if tag.name = "increment" || tag.name = "decrement" then
      [Text.trimmed tag.markup].filter (· ≠ "")
    else []
  | _ => []

/-- The names that a loop binds in its body. -/
def loopBinders (kind : LoopKind) (iterator : String) : List String :=
  match kind with
  | .list => [iterator, Scope.loopState]
  | .table => [iterator, Scope.loopState, Scope.tableLoopState]

/-- The names that an expression reads. -/
def occurrencesInExpression (context : String) (token : Token) (expression : String) :
    List Occurrence :=
  (identifiers expression).map (.within context token)

/-- The names that the arguments of filters read. -/
def occurrencesInArguments (token : Token) (calls : List FilterCall) : List Occurrence :=
  calls.flatMap fun call =>
    (call.arguments.filterMap fun argument => argument.passed.reference?).map
      (.within call.name token)

/-- The names that filters read from the elements of an events collection. -/
def occurrencesInElements (token : Token) (events : String) (calls : List FilterCall) :
    List Occurrence :=
  calls.filterMap fun call => (keyPath? call).map fun path =>
    ⟨events ++ "." ++ path, token, some call.name, none, false, some events, []⟩

/-- The names that an output reads. -/
def occurrencesInOutput (filters : Filter.Registry) (expression : String) (token : Token) :
    List Occurrence :=
  let (base, calls) := splitFilters expression
  if base = "" || isLiteral base then occurrencesInArguments token calls
  else if hasUnquotedBlank base then [⟨base, token, none, none, true, none, []⟩]
  else
    let name := Path.normalize base
    let issue := filters.firstIssue? calls ⟨StepPath.isEvents name⟩
    ⟨name, token, none, issue, false, none, []⟩ :: occurrencesInArguments token calls ++
      if StepPath.isEvents name && issue.isNone then occurrencesInElements token name calls else []

/-- The names that the bounds of a range or the base of a collection read. -/
def occurrencesInCollection (context : String) (token : Token) : Collection → List Occurrence
  | .range first last =>
    ([first, last].filter fun bound => (Text.integer? bound.toList).isNone).flatMap
      (occurrencesInExpression context token)
  | .expression text =>
    let base := (splitFilters text).1
    if isLiteral base then [] else [.within context token (Path.normalize base)]

/-- The names that the head of a loop reads. -/
def occurrencesInLoopHead (kind : LoopKind) (collection : Collection) (params : String)
    (token : Token) : List Occurrence :=
  occurrencesInCollection kind.tagName token collection ++
    if params = "" then [] else occurrencesInExpression kind.tagName token params

mutual

/-- The names that a node reads. -/
def occurrences (filters : Filter.Registry) : Node → List Occurrence
  | .text _ => []
  | .output expression token => occurrencesInOutput filters expression token
  | .assign target expression token =>
    (occurrencesInExpression "assign" token expression).map (.under [target])
  | .capture target body _ => (occurrencesInAll filters body).map (.under [target])
  | .loop kind iterator collection params body otherwise token =>
    occurrencesInLoopHead kind collection params token ++
      (occurrencesInAll filters body).map (.under (loopBinders kind iterator)) ++
      occurrencesInAll filters otherwise
  | .conditional kind branches => occurrencesInBranches filters kind branches
  | .case subject whens otherwise token =>
    occurrencesInExpression "case" token subject ++ occurrencesInWhens filters whens ++
      occurrencesInAll filters otherwise
  | .tag tag =>
    if tag.name = "cycle" then occurrencesInExpression "cycle" tag.token tag.markup else []

/-- The names that nodes following each other read. -/
def occurrencesInAll (filters : Filter.Registry) : List Node → List Occurrence
  | [] => []
  | node :: rest =>
    occurrences filters node ++ (occurrencesInAll filters rest).map (.under (bindersAfter node))

/-- The names that the branches of a conditional read. -/
def occurrencesInBranches (filters : Filter.Registry) (kind : ConditionalKind) :
    List (Branch Node) → List Occurrence
  | [] => []
  | ⟨condition, body, token⟩ :: rest =>
    condition.toList.flatMap (occurrencesInExpression kind.tagName token) ++
      occurrencesInAll filters body ++ occurrencesInBranches filters kind rest

/-- The names that the branches of a case distinction read. -/
def occurrencesInWhens (filters : Filter.Registry) : List (When Node) → List Occurrence
  | [] => []
  | ⟨values, body, token⟩ :: rest =>
    (values.filter fun value => !isLiteral value).flatMap
        (occurrencesInExpression "when" token) ++
      occurrencesInAll filters body ++ occurrencesInWhens filters rest

end

/-- The report on the occurrences in a tree. -/
def Analyzer.reportOccurrences (analyzer : Analyzer) (scope : Scope) (nodes : List Node) :
    Report :=
  let found := Occurrence.reported analyzer.schema analyzer.options
    ((occurrencesInAll analyzer.filters nodes).map (.under scope.names.keys))
  let (valid, invalid) := found.partition (·.isValid analyzer.schema analyzer.options)
  ⟨valid.map (·.toVariable analyzer.schema analyzer.options),
    invalid.map (·.toVariable analyzer.schema analyzer.options)⟩

end MessageTemplate.Analysis
