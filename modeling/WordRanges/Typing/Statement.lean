import WordRanges.Typing.Assignment
import WordRanges.Typing.Control

/-!
# Statements

Every statement is checked in the scope that it stands in; blocks and clauses have scopes
of their own.

Main definitions:

- {lit}`statement`, {lit}`statements`: statements.
- {lit}`checkBody`: the body of a function.
-/

namespace WordRanges
namespace Typing

open Source

/-! ## Simple statements -/

/-- An expression that stands for a statement: a call or a receive operation. -/
def checkEffect (c : Checker) (e : Exp) : Check Unit := do
  let j ← c.judge none e
  require j.isStatement

/-- A call that is run later or beside. -/
def checkSuspended (c : Checker) (e : Exp) : Check Unit := do
  match e with
  | .call .. => checkEffect c e
  | _ => failure

/-- A send operation. -/
def checkSend (c : Checker) (channel value : Exp) : Check Unit := do
  let ch ← valueOf c channel
  match (← types).core? ch.type with
  | some (.chan .receive _) => failure
  | some (.chan _ elem) =>
    discard (assign c (← valueFor c (← inferenceTarget? elem) value) (some elem))
  | _ => failure

/-- Add one to a number or take one from it.  The one takes the place of the operator. -/
def checkIncDec (c : Checker) (span : Span) (op : Token) (x : Exp) : Check Unit := do
  let j ← valueOf c x
  require ((← types).basicAll j.type (·.isNumeric))
  let one := Exp.literal ⟨x.span.stop, span.stop⟩ .int "1"
  assignOperation c (if op = .inc then .add else .sub) x one

/-- A statement that contains no other ones; nothing if it is of another kind. -/
def simpleStatement? (c : Checker) (s : Stm) : Option (Check Unit) :=
  match s with
  | .empty _ => some (pure ())
  | .exp x => some (checkEffect c x)
  | .send _ channel value => some (checkSend c channel value)
  | .incDec span op x => some (checkIncDec c span op x)
  | .assign _ .define lhs rhs => some (defineAll c lhs rhs)
  | .assign _ .assign lhs rhs => some (assignAll c lhs rhs)
  | .assign _ op [lhs] [rhs] => (Token.ofAssign? op).map fun op => assignOperation c op lhs rhs
  | .goCall _ call => some (checkSuspended c call)
  | .deferCall _ call => some (checkSuspended c call)
  | .decl d => some (declareLocal c d)
  | _ => none

/-- A statement before a condition or the like. -/
def checkInit (c : Checker) (s? : Option Stm) : Check Unit :=
  match s? with
  | none => return
  | some s => (simpleStatement? c s).getD failure

/-- A condition. -/
def checkCondition (c : Checker) (e : Exp) : Check Unit := do
  let x ← valueOf c e
  require ((← types).basicAll x.type (·.isBoolean))

/-! ## Returns -/

/-- The results of a function are named. -/
def resultsNamed (results : List Result) : Bool :=
  results.any fun r => !r.name.isEmpty

/-- A return without results, which must not be hidden by other names. -/
def checkBareReturn (results : List Result) : Check Unit := do
  require (results.isEmpty || resultsNamed results)
  results.forM fun r => do
    match r.object?, ← refer? r.name with
    | some id, some (.object found _) => require (found == id)
    | some _, _ => failure
    | none, _ => pure ()

/-- A return statement. -/
def checkReturn (c : Checker) (es : List Exp) : Check Unit := do
  let results := (← here).results
  if es.isEmpty then checkBareReturn results
  else
    let xs ← valuesFor c (results.map fun r => some r.type) false es
    (xs.zip results).forM fun (x, r) => discard (assign c x (some r.type))

/-! ## Switches -/

/-- Constants that may not occur twice in the cases of a switch: texts, integers of a word, and
numbers that floating-point variables can have. -/
def isDistinctCase : Constant → Bool
  | .number (.int n) => Constant.fitsWord n
  | .number (.fraction r) => Constant.FloatFormat.double.round? r == some r
  | .string _ => true
  | .number (.rounded _) | .bool _ | .complex .. => false

/-- The cases of a switch, which are compared with its tag; {lit}`seen` are the constants so far. -/
def checkCases (c : Checker) (tag : Judgment) :
    List (Constant × Ty) → List Exp → Check (List (Constant × Ty))
  | seen, [] => return seen
  | seen, e :: rest => do
    let (v, x) ← matchOperands (← valueOf c e) tag
    discard (compareJudgment c e .eq v x)
    match v.constant? with
    | some k =>
      if isDistinctCase k then
        let env ← types
        require !(seen.any fun (l, t) => k == l && env.same v.type t)
        checkCases c tag ((k, v.type) :: seen) rest
      else checkCases c tag seen rest
    | none => checkCases c tag seen rest

/-- At most one clause is the default clause. -/
def oneDefault (clauses : List Clause) : Bool :=
  (clauses.filter Clause.isDefault).length ≤ 1

/-- The clauses of a switch; all but the last one may fall through. -/
def checkClauses (c : Checker) (around : Surroundings) (tag : Judgment) :
    List (Constant × Ty) → List Clause → Check Unit
  | _, [] => return
  | seen, .mk _ _ cases body :: rest => do
    let seen ← checkCases c tag seen cases
    inScope [] (c.statements { around with falls := !rest.isEmpty } body)
    checkClauses c around tag seen rest

/-- A switch.  Without a tag its cases are conditions. -/
def checkSwitch (c : Checker) (around : Surroundings) (tag? : Option Exp) (body : Span)
    (clauses : List Clause) : Check Unit := do
  let tag ←
    match tag? with
    | some e => do
      let x ← assign c (← valueOf c e) none
      let env ← types
      require (env.isComparable x.type || env.hasNil x.type)
      pure x
    | none => pure ⟨.ident ⟨body.start, ""⟩, .constant (.bool true), .basic .bool, [], false⟩
  require (oneDefault clauses)
  checkClauses c { around with breaks := true } tag [] clauses

/-! ## Type switches -/

/-- The constant without a type that pointers and the like can be, as it is written. -/
def isWrittenNil (e : Exp) : Check Bool := do
  match e.unparen with
  | .ident id =>
    match ← refer? id.name with
    | some (.predeclared .nil) => return true
    | _ => return false
  | _ => return false

/-- The cases of a type switch: types, or nothing for nil.  {lit}`seen` are those so far. -/
def checkTypeCases (c : Checker) (subject : Ty) :
    List (Option Ty) → List Exp → Check (List (Option Ty))
  | seen, [] => return seen
  | seen, e :: rest => do
    if ← isWrittenNil e then
      discard (valueOf c e)
      require !(seen.any (·.isNone))
      checkTypeCases c subject (none :: seen) rest
    else
      let t ← varType c e
      settleMethods c t subject
      let env ← types
      require (assertable env subject t)
      require !(seen.any fun u? => (u?.map (env.same t)).getD false)
      checkTypeCases c subject (some t :: seen) rest

/-- The clauses of a type switch; the answer tells whether some clause uses the variable. -/
def checkTypeClauses (c : Checker) (around : Surroundings) (name? : Option String) (subject : Ty) :
    List (Option Ty) → List Clause → Check Bool
  | _, [] => return false
  | seen, .mk _ _ cases body :: rest => do
    let now ← checkTypeCases c subject seen cases
    let type :=
      match cases, now with
      | [_], some t :: _ => t
      | _, _ => subject
    let used ← inScope [] do
      match name? with
      | none =>
        c.statements { around with falls := false } body
        return false
      | some name =>
        let id ← declare name (.variable type) false
        c.statements { around with falls := false } body
        return (← must (← get).objects[id]?).used
    let others ← checkTypeClauses c around name? subject now rest
    return used || others

/-- A type switch. -/
def checkTypeSwitch (c : Checker) (around : Surroundings) (guard : Stm) (clauses : List Clause) :
    Check Unit := do
  let (name?, x) ←
    match guard with
    | .exp (.typeAssert _ x none) => pure (none, x)
    | .assign _ .define [.ident id] [.typeAssert _ x none] => do
      require (id.name != "_")
      pure (some id.name, x)
    | _ => failure
  let j ← valueOf c x
  require ((← types).isOrdinaryInterface j.type && oneDefault clauses)
  let used ← checkTypeClauses c { around with breaks := true } name? j.type [] clauses
  require (used || name?.isNone)

/-! ## Select -/

/-- A statement that sends or receives. -/
def isCommunication : Stm → Bool
  | .send .. => true
  | .exp x | .assign _ _ _ [x] =>
    match x.unparen with
    | .unary _ .arrow _ => true
    | _ => false
  | _ => false

/-- A clause of a select. -/
def checkCommClause (c : Checker) (around : Surroundings) : CommClause → Check Unit
  | .mk _ comm? body => inScope [] do
    require ((comm?.map isCommunication).getD true)
    checkInit c comm?
    c.statements around body

/-- A select. -/
def checkSelect (c : Checker) (around : Surroundings) (clauses : List CommClause) : Check Unit := do
  let isDefault : CommClause → Bool
    | .mk _ comm? _ => comm?.isNone
  require ((clauses.filter isDefault).length ≤ 1)
  clauses.forM (checkCommClause c { around with breaks := true, falls := false })

/-! ## Loops -/

/-- The types of keys and values that a loop over a range gives. -/
structure RangeTypes where
  key? : Option Ty
  value? : Option Ty

/-- The types that an iterator function gives to a loop over it. -/
def iteratorTypes? (env : TypeEnv) (t : Ty) : Option RangeTypes := do
  match t with
  | .func _ _ [yield] [] false =>
    match env.core? yield with
    | some (.func _ _ given [answer] false) =>
      if !answer.alike (.basic .bool) || given.length > 2 then none
      return ⟨given[0]?, given[1]?⟩
    | _ => none
  | _ => none

/-- The types of keys and values of a loop over values of a type. -/
def rangeTypes? (env : TypeEnv) (t : Ty) : Option RangeTypes := do
  match throughArrayPointer env (← env.core? t) with
  | .basic b =>
    if b.isString then return ⟨some (.basic .int), some (.basic .rune)⟩
    else if b.isInteger then return ⟨some t, none⟩
    else none
  | .array _ elem | .slice elem => return ⟨some (.basic .int), some elem⟩
  | .map key elem => return ⟨some key, some elem⟩
  | .chan .send _ => none
  | .chan _ elem => return ⟨some elem, none⟩
  | .func pn rn ps rs variadic => iteratorTypes? env (.func pn rn ps rs variadic)
  | _ => none

/-- The version of the language from which on there are loops over values of an underlying
type. -/
def rangeVersion : Ty → Nat
  | .basic b => if b.isInteger then 22 else 0
  | .func .. => 23
  | _ => 0

/-- Give a variable of a loop its value; the variable of a loop over an integer gets that integer,
which may be untyped. -/
def rangeVariable (c : Checker) (define : Bool) (x : Judgment) (overInteger : Bool)
    (e : Exp) (t : Ty) : Check (List (String × Ty)) := do
  let y : Judgment := if overInteger then x else ⟨e, .value, t, [], false⟩
  if define then
    match e with
    | .ident id => return [(id.name, ← giveInitial c y none)]
    | _ => failure
  else
    let z ← assign c y (← assignedType c e)
    if overInteger then require ((← types).basicIs z.type (·.isInteger))
    return []

/-- A loop over a range. -/
def checkRange (c : Checker) (around : Surroundings) (key? value? : Option Exp) (define : Bool)
    (e : Exp) (body : Block) : Check Unit := do
  let x ← valueOf c e
  let given ← must (rangeTypes? (← types) x.type)
  ((← types).core? x.type).forM fun u => needVersion (rangeVersion u)
  require ((key?.isNone || given.key?.isSome) && (value?.isNone || given.value?.isSome))
  let overInteger := (← types).basicIs x.type (·.isInteger)
  inScope [] do
    let each (e? : Option Exp) (t? : Option Ty) : Check (List (String × Ty)) :=
      match e?, t? with
      | some e, some t => rangeVariable c define x overInteger e t
      | _, _ => return []
    let names := (← each key? given.key?) ++ (← each value? given.value?)
    if key?.isNone && overInteger then discard (assign c x none)
    let fresh := names.filter fun n => n.1 != "_"
    if define then require !fresh.isEmpty
    fresh.forM fun (name, t) => discard (declare name (.variable t) true)
    inScope [] (c.statements { around with breaks := true, continues := true, falls := false }
      body.body)

/-- A loop with a condition. -/
def checkLoop (c : Checker) (around : Surroundings) (init? : Option Stm) (cond? : Option Exp)
    (post? : Option Stm) (body : Block) : Check Unit :=
  inScope [] do
    checkInit c init?
    match cond? with
    | some e => checkCondition c e
    | none => pure ()
    match post? with
    | some (.assign _ .define _ _) => failure
    | _ => checkInit c post?
    inScope [] (c.statements { around with breaks := true, continues := true, falls := false }
      body.body)

/-! ## All statements -/

/-- A branch without a label is allowed by the statements around it. -/
def branchAllowed (around : Surroundings) : Token → Bool
  | .kwBreak => around.breaks
  | .kwContinue => around.continues
  | .kwFallthrough => around.falls
  | _ => false

/-- Check a statement. -/
def statement (c : Checker) (around : Surroundings) (s : Stm) : Check Unit :=
  let inner := { around with falls := false }
  match simpleStatement? c s with
  | some check => check
  | none =>
    match s with
    | .labeled _ _ body => c.statements around [body]
    | .returns _ es => checkReturn c es
    | .branch _ token none => require (branchAllowed around token)
    | .branch _ _ (some _) => return
    | .block b => inScope [] (c.statements inner b.body)
    | .ifElse _ init? cond body else? => inScope [] do
      checkInit c init?
      checkCondition c cond
      inScope [] (c.statements inner body.body)
      c.statements inner else?.toList
    | .switch _ init? tag? body clauses => inScope [] do
      checkInit c init?
      checkSwitch c inner tag? body clauses
    | .typeSwitch _ init? guard _ clauses => inScope [] do
      checkInit c init?
      checkTypeSwitch c inner guard clauses
    | .select _ _ clauses => checkSelect c inner clauses
    | .loop _ init? cond? post? body => checkLoop c inner init? cond? post? body
    | .range _ key? value? define x body => checkRange c inner key? value? define x body
    | _ => failure

/-- Check statements one after the other; only the last one may fall through. -/
def statementList (c : Checker) (around : Surroundings) : List Stm → Check Unit
  | [] => return
  | [s] => statement c around s
  | s :: rest => do
    statement c { around with falls := false } s
    statementList c around rest

/-- Check statements; empty ones at the end do not count as the last. -/
def statements (c : Checker) (around : Surroundings) (ss : List Stm) : Check Unit :=
  let isEmpty : Stm → Bool
    | .empty _ => true
    | _ => false
  statementList c around (ss.reverse.dropWhile isEmpty).reverse

/-- Check the body of a function. -/
def checkBody (c : Checker) (b : Body) : Check Unit := do
  let around ← here
  elsewhere ⟨b.scope :: around.scopes, b.iota?, b.owner?, b.results, false, b.version?⟩ do
    c.statements .none b.block.body
    require b.block.branchesFit
    if !b.results.isEmpty then require (b.block.terminates (← get).panics)

end Typing
end WordRanges
