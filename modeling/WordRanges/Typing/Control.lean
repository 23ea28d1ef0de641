import WordRanges.Source.Tree

/-!
# Control flow

Which statements never go on to the next one, and where branches may lead.  A function with
results must not reach its end; labels have to be used, and branches must not jump into
blocks or over declarations of variables.

Main definitions:

- {lit}`Block.terminates`: the end of a block is never reached.
- {lit}`Block.branchesFit`: all branches with labels lead where they may.
-/

namespace WordRanges
namespace Source

/-- The statements of a clause. -/
def Clause.body : Clause → List Stm
  | .mk _ _ _ body => body

/-- A clause without cases. -/
def Clause.isDefault : Clause → Bool
  | .mk _ isDefault _ _ => isDefault

/-- The statements of a clause of a select. -/
def CommClause.body : CommClause → List Stm
  | .mk _ _ body => body

/-- The lists of statements directly within a statement. -/
def Stm.blocks : Stm → List (List Stm)
  | .labeled _ _ body => [[body]]
  | .block b => [b.body]
  | .ifElse _ _ _ body else? => body.body :: else?.toList.map fun s => [s]
  | .switch _ _ _ _ clauses => clauses.map Clause.body
  | .typeSwitch _ _ _ _ clauses => clauses.map Clause.body
  | .select _ _ clauses => clauses.map CommClause.body
  | .loop _ _ _ _ body => [body.body]
  | .range _ _ _ _ _ body => [body.body]
  | _ => []

/-- A bound on the depth of statements: each takes up some of the text. -/
def Block.depth (b : Block) : Nat :=
  b.span.stop - b.span.start + 1

/-- The last statement that is not empty. -/
def lastStm? (ss : List Stm) : Option Stm :=
  ss.reverse.find? fun
    | .empty _ => false
    | _ => true

/-! ## Ends that are not reached -/

/-- A statement contains a break out of the statement around it: one with its label or, if
{lit}`implicit`, one without a label. -/
def breaksWithin : Nat → String → Bool → Stm → Bool
  | 0, _, _, _ => true
  | fuel + 1, label, implicit, s =>
    match s with
    | .branch _ .kwBreak none => implicit
    | .branch _ .kwBreak (some l) => l.name == label
    | .switch .. | .typeSwitch .. | .select .. | .loop .. | .range .. =>
      label != "" && s.blocks.any fun b => b.any (breaksWithin fuel label false)
    | s => s.blocks.any fun b => b.any (breaksWithin fuel label implicit)

/-- The statement after a statement is never reached.  {lit}`label` is the label of the
statement, {lit}`panics` are the calls that do not return. -/
def terminatesWithin (panics : List Span) : Nat → String → Stm → Bool
  | 0, _, _ => false
  | fuel + 1, label, s =>
    let list (ss : List Stm) : Bool :=
      match lastStm? ss with
      | some last => terminatesWithin panics fuel "" last
      | none => false
    let clause (ss : List Stm) : Bool :=
      list ss && !ss.any (breaksWithin fuel label true)
    match s with
    | .labeled _ l body => terminatesWithin panics fuel l.name body
    | .exp x => panics.contains x.unparen.span
    | .returns .. | .branch _ .kwGoto _ | .branch _ .kwFallthrough _ => true
    | .block b => list b.body
    | .ifElse _ _ _ body (some other) => list body.body && terminatesWithin panics fuel "" other
    | .switch _ _ _ _ clauses => clauses.any Clause.isDefault && clauses.all fun c => clause c.body
    | .typeSwitch _ _ _ _ clauses =>
      clauses.any Clause.isDefault && clauses.all fun c => clause c.body
    | .select _ _ clauses => clauses.all fun c => clause c.body
    | .loop _ _ none _ body => !body.body.any (breaksWithin fuel label true)
    | _ => false

/-- The end of a block is never reached. -/
def Block.terminates (b : Block) (panics : List Span) : Bool :=
  terminatesWithin panics (b.depth + 1) "" (.block b)

/-! ## Branches with labels -/

/-- A statement with all statements within it. -/
def nestedWithin : Nat → Stm → List Stm
  | 0, s => [s]
  | fuel + 1, s => s :: s.blocks.flatMap fun b => b.flatMap (nestedWithin fuel)

/-- The labels of a statement; the blank name is none. -/
def Stm.labels : Stm → List String
  | .labeled _ l body => if l.name == "_" then body.labels else l.name :: body.labels
  | _ => []

/-- A statement without its labels. -/
def Stm.unlabeled : Stm → Stm
  | .labeled _ _ body => body.unlabeled
  | s => s

/-- A statement declares variables. -/
def Stm.declaresVariables (s : Stm) : Bool :=
  match s.unlabeled with
  | .assign _ .define _ _ => true
  | .decl (.general _ .kwVar _) => true
  | _ => false

/-- The label that a branch leads to. -/
def Stm.branchLabel? : Stm → Option String
  | .branch _ _ (some l) => some l.name
  | _ => none

/-- The label that a jump leads to. -/
def Stm.jumpLabel? : Stm → Option String
  | .branch _ .kwGoto (some l) => some l.name
  | _ => none

/-- No jump of a list of statements leads forward over a declaration of variables in it. -/
def jumpsFit (fuel : Nat) : List Stm → Bool
  | [] => true
  | s :: rest =>
    let jumps := (nestedWithin fuel s).filterMap Stm.jumpLabel?
    let hidden := (rest.dropWhile fun r => !r.declaresVariables).drop 1
    !(jumps.any fun l => hidden.any fun r => r.labels.contains l) && jumpsFit fuel rest

/-- What branches with the label of a statement can do. -/
inductive LabelKind where
  /-- Break out of the statement or continue it. -/
  | loop
  /-- Break out of the statement. -/
  | clauses
  | other
deriving DecidableEq, Repr

/-- What branches with the label of a statement can do. -/
def Stm.labelKind : Stm → LabelKind
  | .loop .. | .range .. => .loop
  | .switch .. | .typeSwitch .. | .select .. => .clauses
  | _ => .other

/-- A label that branches may lead to. -/
structure BranchTarget where
  label : String
  kind : LabelKind

/-- The innermost label of a statement. -/
def Stm.target? : Stm → Option BranchTarget
  | .labeled _ l body =>
    match body.target? with
    | some t => some t
    | none => if l.name == "_" then none else some ⟨l.name, body.labelKind⟩
  | _ => none

/-- Statements, each with the last label at it or before it. -/
def withTargets : Option BranchTarget → List Stm → List (Option BranchTarget × Stm)
  | _, [] => []
  | last?, s :: rest =>
    let now? := s.target?.or last?
    (now?, s.unlabeled) :: withTargets now? rest

/-- The branches of a statement lead to labels around it, and its jumps to labels of blocks around
it.  A label counts as one around the blocks of its statement and of those that follow it in
the same list; {lit}`last?` is that of the statement. -/
def branchesWithin : Nat → List BranchTarget → List String → Option BranchTarget → Stm → Bool
  | 0, _, _, _, _ => false
  | fuel + 1, targets, reachable, last?, s =>
    let block (own? : Option BranchTarget) (b : List Stm) : Bool :=
      let reachable := b.flatMap Stm.labels ++ reachable
      jumpsFit fuel b && (withTargets own? b).all fun (now?, s) =>
        branchesWithin fuel (last?.toList ++ targets) reachable now? s
    match s with
    | .branch _ .kwBreak (some l) =>
      targets.any fun t => t.label == l.name && t.kind != .other
    | .branch _ .kwContinue (some l) =>
      targets.any fun t => t.label == l.name && t.kind == .loop
    | .branch _ .kwGoto (some l) => reachable.contains l.name
    | .ifElse _ _ _ body else? =>
      block last? body.body && else?.all (branchesWithin fuel targets reachable last?)
    | .switch _ _ _ _ clauses | .typeSwitch _ _ _ _ clauses =>
      clauses.all fun c => block none c.body
    | .select _ _ clauses => clauses.all fun c => block none c.body
    | s => s.blocks.all (block last?)

/-- All branches of a function lead where they may, and its labels are different and used. -/
def Block.branchesFit (b : Block) : Bool :=
  let fuel := b.depth + 1
  let all := b.body.flatMap (nestedWithin fuel)
  let labels := all.filterMap fun
    | .labeled _ l _ => if l.name == "_" then none else some l.name
    | _ => none
  let used := all.filterMap Stm.branchLabel?
  (labels.eraseDups.length == labels.length) && labels.all used.contains
    && branchesWithin (fuel + 1) [] [] none (.block b)

end Source
end WordRanges
