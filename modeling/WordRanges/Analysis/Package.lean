import WordRanges.Analysis.Annotate
import WordRanges.Analysis.Diagnostic
import WordRanges.Source.Directive
import WordRanges.Source.Layout.Stm

/-!
# The analysis of a package

The comparisons of all files of a package are looked at in order.  Findings in generated
files, and those that a directive covers, are not reported.

Main definitions:

- {lit}`Report`: what is reported of a comparison.
- {lit}`analyze`: the reports on a package.
- {lit}`constantExprs?`: the integer constants of a file.
-/

namespace WordRanges

open Source

/-- Why a package cannot be analyzed. -/
inductive PackageFault where
  /-- A file is malformed. -/
  | malformed
  /-- The package does not obey the rules of types. -/
  | illTyped
deriving DecidableEq, Repr

/-- What is reported of a comparison. -/
structure Report where
  start : Position
  stop : Position
  /-- Where it is shown to be. -/
  display : Position
  message : String
  related : List (Position × String)
deriving Repr

/-- Read files one after the other; each gets its own range of positions. -/
def readFiles? : Nat → List (String × String) → Option (List SourceCode)
  | _, [] => some []
  | base, (name, text) :: rest => do
    let code ← SourceCode.read? name base text
    return code :: (← readFiles? (base + code.file.size + 1) rest)

/-- The file of a position among some files. -/
def fileAt? (files : List SourceCode) (pos : Nat) : Option SourceFile :=
  (files.find? fun code => code.file.contains pos).map (·.file)

/-- The file of a name is generated.  Of several files of one name the last counts. -/
def isGeneratedFile (files : List SourceCode) (name : String) : Bool :=
  (files.reverse.find? fun code => code.file.name == name).any (·.isGenerated)

/-- A finding at a place is left out: it is shown to be in a generated file, or a directive says
so. -/
def isSuppressed (files : List SourceCode) (directives : List Directive) (file : SourceFile)
    (pos : Nat) : Bool :=
  isGeneratedFile files (file.shown pos).file
    || directives.any fun d => d.command == "ignore" && d.covers pos

/-- The text of an expression of a file, as it is usually written. -/
def layoutIn (code : SourceCode) (e : Exp) : String :=
  e.layout (fun pos => (code.file.plain pos).line) (2 * code.size)

/-- The report on a finding about a comparison of two sides at a place. -/
def reportOf (files : List SourceCode) (code : SourceCode) (span : Span) (x y : Exp)
    (f : Finding) : Report where
  start := code.file.plain span.start
  stop := code.file.plain span.stop
  display := code.file.shown span.start
  message := f.messageFor (layoutIn code (if f.onLeft then x else y))
  related := f.related.filterMap fun (pos, message) =>
    (fileAt? files pos).map fun file => (file.plain pos, message)

/-- The report on a node, if it is a comparison about which something is found out. -/
def nodeReport? (s : Typing.State) (files : List SourceCode) (code : SourceCode) (n : Node) :
    Option Report := do
  let (op, x, y) ← n.binary?
  let f ← findingOf? (← Comparison.ofToken? op) (annotate s x) (annotate s y)
  return reportOf files code n.span x y f

/-- The reports on a file. -/
def fileReports (s : Typing.State) (files : List SourceCode) (directives : List Directive)
    (code : SourceCode) : List Report :=
  code.unit.node.visit.filterMap fun n => do
    let r ← nodeReport? s files code n
    if isSuppressed files directives code.file n.span.start then none else return r

/-- The path of packages that are analyzed. -/
def packagePath : String := "pkg"

/-- The reports on a package, given the names and texts of its files. -/
def analyze (files : List (String × String)) : Except PackageFault (List Report) :=
  match readFiles? 1 files with
  | none => .error .malformed
  | some codes =>
    let size := codes.foldl (fun n code => n + code.size) 0
    match Typing.checkPackage? packagePath (codes.map (·.unit)) size with
    | none => .error .illTyped
    | some s =>
      let directives := codes.flatMap (·.directives)
      .ok (codes.flatMap (fileReports s codes directives))

/-! ## Constants -/

/-- An integer constant of a file. -/
structure ConstantExpr where
  /-- The text of the expression. -/
  text : String
  /-- The text of its type. -/
  type : String
  number : Int
  /-- The constant as a value of its type, if it is one of a machine integer. -/
  value? : Option (Value 64)

/-- The integer constant of which something is recorded. -/
def constantExpr? (env : TypeEnv) (r : Typing.Record) : Option ConstantExpr := do
  let v ← r.value?
  let b ← env.basic? r.type
  if !b.isInteger then none
  let n ← v.toInt?
  return ⟨r.exp.text, env.text r.type, n, v.value? b⟩

/-- The integer constants of a file in the order in which they end, given its text; nothing if it
is malformed or does not obey the rules of types. -/
def constantExprs? (text : String) : Option (List ConstantExpr) := do
  let code ← SourceCode.read? "pkg.go" 1 text
  let s ← Typing.checkPackage? code.unit.package.name [code.unit] code.size
  let records := s.records.toList.mergeSort fun a b =>
    a.1.stop < b.1.stop || (a.1.stop == b.1.stop && a.1.start ≤ b.1.start)
  return records.filterMap fun (_, r) => constantExpr? s.env r

end WordRanges
