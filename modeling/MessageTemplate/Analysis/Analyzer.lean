import MessageTemplate.Analysis.Report
import MessageTemplate.Template.Blocks

/-! # Finding the variables of a template

The tree is walked in the order of the source. Every name that is read is judged in the scope of
its place and listed. Assignments, captures and counters bind their name for the nodes that follow
in the same body; a loop binds its iterator in its body only. -/

namespace MessageTemplate.Analysis

open Template

/-- What names and filters are judged by. -/
structure Analyzer where
  schema : Option Schema
  filters : Filter.Registry
  options : Options

/-- The scope of the nodes behind a node. -/
def scopeAfter (scope : Scope) : Node → Scope
  | .assign target _ _ => scope.bind target
  | .capture target _ _ => scope.bind target
  | .tag tag =>
    if tag.name = "increment" || tag.name = "decrement" then
      let counter := Text.trimmed tag.markup
      if counter = "" then scope else scope.bind counter
    else scope
  | _ => scope

/-- The scope of the body of a loop. -/
def loopScope (scope : Scope) (kind : LoopKind) (iterator : String) : Scope :=
  let scope := (scope.bind iterator).bind Scope.loopState
  match kind with
  | .list => scope
  | .table => scope.bind Scope.tableLoopState

/-- The position of the key path among the arguments of a filter that takes one. -/
def keyPathPosition? (filter : String) : Option Nat :=
  match filter with
  | "toSentence" => some 0
  | "digest" => some 1
  | _ => none

/-- The key path that a filter reads from each element of a collection. -/
def keyPath? (call : FilterCall) : Option String := do
  let position ← keyPathPosition? call.name
  let argument ← call.arguments[position]?
  let path ← argument.text?
  if StepPath.isNameChain path then some path else none

namespace Analyzer

variable (analyzer : Analyzer)

/-- Judges a name and lists it, unless it is bound. -/
def record (scope : Scope) (token : Token) (context : Option String)
    (filterIssue : Option Filter.Issue) (report : Report) (name : String) : Report :=
  match judge analyzer.schema analyzer.options scope name with
  | .bound => report
  | .valid => report.add ⟨name, token, context, none, filterIssue⟩ filterIssue.isNone
  | .invalid issue =>
    report.add ⟨name, token, context, some (.naming issue), filterIssue⟩ false

/-- Lists the names that an expression refers to. -/
def recordExpression (scope : Scope) (token : Token) (context : String) (report : Report)
    (expression : String) : Report :=
  (identifiers expression).foldl (analyzer.record scope token (some context) none) report

/-- Lists the references among the arguments of a filter. -/
def recordArguments (scope : Scope) (token : Token) (report : Report) (call : FilterCall) :
    Report :=
  (call.arguments.filterMap fun argument => argument.passed.reference?).foldl
    (analyzer.record scope token (some call.name) none) report

/-- Lists what a filter reads from each element of an events collection. -/
def recordKeyPath (scope : Scope) (token : Token) (events : String) (report : Report)
    (call : FilterCall) : Report :=
  match keyPath? call with
  | some path =>
    analyzer.record scope token (some call.name) none report (events ++ "." ++ path)
  | none => report

/-- Lists the names of an output: its base, the references among the filter arguments, and what
filters read from the elements of a valid events collection. A base with blanks is invalid in any
scope, and its filters are not looked at. -/
def visitOutput (scope : Scope) (expression : String) (token : Token) (report : Report) :
    Report :=
  let (base, calls) := splitFilters expression
  if base = "" || isLiteral base then calls.foldl (analyzer.recordArguments scope token) report
  else if hasUnquotedBlank base then
    report.add ⟨base, token, none, some (.naming .blank), none⟩ false
  else
    let name := Path.normalize base
    let isEvents := StepPath.isEvents name
    let issue := analyzer.filters.firstIssue? calls ⟨isEvents⟩
    let report := analyzer.record scope token none issue report name
    let report := calls.foldl (analyzer.recordArguments scope token) report
    let valid :=
      issue.isNone && judge analyzer.schema analyzer.options scope name = .valid
    if valid && isEvents then
      calls.foldl (analyzer.recordKeyPath scope token name) report
    else report

/-- Lists the names in the bounds of a range or in the base of a collection. -/
def visitCollection (scope : Scope) (token : Token) (context : String)
    (collection : Collection) (report : Report) : Report :=
  match collection with
  | .range first last =>
    ([first, last].filter fun bound => (Text.integer? bound.toList).isNone).foldl
      (analyzer.recordExpression scope token context) report
  | .expression text =>
    let base := (splitFilters text).1
    if isLiteral base then report
    else analyzer.record scope token (some context) none report (Path.normalize base)

/-- Lists the names in the head of a loop. -/
def visitLoopHead (scope : Scope) (kind : LoopKind) (collection : Collection) (params : String)
    (token : Token) (report : Report) : Report :=
  let report := analyzer.visitCollection scope token kind.tagName collection report
  if params = "" then report
  else analyzer.recordExpression scope token kind.tagName report params

/-- Lists the names in the condition of a branch. -/
def visitCondition (scope : Scope) (kind : ConditionalKind) (condition : Option String)
    (token : Token) (report : Report) : Report :=
  match condition with
  | some condition => analyzer.recordExpression scope token kind.tagName report condition
  | none => report

/-- Lists the names among the values of a branch. -/
def visitValues (scope : Scope) (values : List String) (token : Token) (report : Report) :
    Report :=
  (values.filter fun value => !isLiteral value).foldl
    (analyzer.recordExpression scope token "when") report

/-- Lists the names in a tag that stands for itself. -/
def visitTag (scope : Scope) (tag : Tag) (report : Report) : Report :=
  if tag.name = "cycle" then analyzer.recordExpression scope tag.token "cycle" report tag.markup
  else report

mutual

/-- Lists the names in a node. -/
def visit (scope : Scope) (report : Report) : Node → Report
  | .text _ => report
  | .output expression token => analyzer.visitOutput scope expression token report
  | .assign target expression token =>
    analyzer.recordExpression (scope.bind target) token "assign" report expression
  | .capture target body _ => visitAll (scope.bind target) report body
  | .loop kind iterator collection params body otherwise token =>
    let report := analyzer.visitLoopHead scope kind collection params token report
    let report := visitAll (loopScope scope kind iterator) report body
    visitAll scope report otherwise
  | .conditional kind branches => visitBranches scope kind report branches
  | .case subject whens otherwise token =>
    let report := analyzer.recordExpression scope token "case" report subject
    let report := visitWhens scope report whens
    visitAll scope report otherwise
  | .tag tag => analyzer.visitTag scope tag report

/-- Lists the names in nodes that follow each other. -/
def visitAll (scope : Scope) (report : Report) : List Node → Report
  | [] => report
  | node :: rest => visitAll (scopeAfter scope node) (visit scope report node) rest

/-- Lists the names in the branches of a conditional. -/
def visitBranches (scope : Scope) (kind : ConditionalKind) (report : Report) :
    List (Branch Node) → Report
  | [] => report
  | ⟨condition, body, token⟩ :: rest =>
    let report := analyzer.visitCondition scope kind condition token report
    visitBranches scope kind (visitAll scope report body) rest

/-- Lists the names in the branches of a case distinction. -/
def visitWhens (scope : Scope) (report : Report) : List (When Node) → Report
  | [] => report
  | ⟨values, body, token⟩ :: rest =>
    let report := analyzer.visitValues scope values token report
    visitWhens scope (visitAll scope report body) rest

end

/-- The report on a tree. -/
def analyzeNodes (scope : Scope) (nodes : List Node) : Report :=
  analyzer.visitAll scope .empty nodes

end Analyzer

mutual

/-- The token of the first tag in a node that stands for itself and whose name a message
mentions. -/
def mentionedTag? (message : String) : Node → Option Token
  | .tag tag =>
    if Text.occurs tag.name.toList message.toList then some tag.token else none
  | .capture _ body _ => mentionedTagIn? message body
  | .loop _ _ _ _ body otherwise _ =>
    match mentionedTagIn? message body with
    | some token => some token
    | none => mentionedTagIn? message otherwise
  | .conditional _ branches => mentionedTagInBranches? message branches
  | .case _ whens otherwise _ =>
    match mentionedTagInWhens? message whens with
    | some token => some token
    | none => mentionedTagIn? message otherwise
  | _ => none

/-- `mentionedTag?` for nodes that follow each other. -/
def mentionedTagIn? (message : String) : List Node → Option Token
  | [] => none
  | node :: rest =>
    match mentionedTag? message node with
    | some token => some token
    | none => mentionedTagIn? message rest

/-- `mentionedTag?` for the branches of a conditional. -/
def mentionedTagInBranches? (message : String) : List (Branch Node) → Option Token
  | [] => none
  | ⟨_, body, _⟩ :: rest =>
    match mentionedTagIn? message body with
    | some token => some token
    | none => mentionedTagInBranches? message rest

/-- `mentionedTag?` for the branches of a case distinction. -/
def mentionedTagInWhens? (message : String) : List (When Node) → Option Token
  | [] => none
  | ⟨_, body, _⟩ :: rest =>
    match mentionedTagIn? message body with
    | some token => some token
    | none => mentionedTagInWhens? message rest

end

/-- The outcome of reading and analyzing a template: the report, and the fault if the template
could not be read. -/
structure Outcome where
  report : Report
  fault : Option Fault

/-- The outcome for a template with a fault. -/
def Outcome.ofFault (fault : Fault) : Outcome := ⟨.ofFault fault, some fault⟩

namespace Analyzer

variable (analyzer : Analyzer)

/-- Reads and analyzes a template. Once it has been read, `check` may refuse it with a message;
the first tag that the message mentions is then at fault. -/
def analyzeChecked {m : Type → Type} [Monad m] (check : String → m (Except String Unit))
    (source : String) : m Outcome :=
  match parse source with
  | .error fault => pure (.ofFault fault)
  | .ok nodes => do
    match ← check source with
    | .ok () => return ⟨analyzer.analyzeNodes .empty nodes, none⟩
    | .error message => return .ofFault ⟨.rejected message, mentionedTagIn? message nodes⟩

/-- Reads and analyzes a template. -/
def analyze (source : String) : Outcome :=
  Id.run (analyzer.analyzeChecked (fun _ => pure (.ok ())) source)

end Analyzer

end MessageTemplate.Analysis
