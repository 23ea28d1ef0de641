import WordRanges.Typing.Exp

/-!
# Assignments and declarations within functions

Values are given to variables by assignments, definitions and declarations; a single call
can give several values.  The name of a declaration is known only after it, but that of a
type already within it.

Main definitions:

- {lit}`assignAll`: assignments.
- {lit}`defineAll`: definitions.
- {lit}`declareLocal`: declarations within a function.
- {lit}`defineType`: what a declared type stands for.
-/

namespace WordRanges
namespace Typing

open Source

/-! ## Values -/

/-- The values of an expression: the results of a call, or a value together with a truth value
that tells whether it was there, if {lit}`commaOk` asks for that. -/
def valuesOf (c : Checker) (commaOk : Bool) (e : Exp) : Check (List Judgment) := do
  let j ← instantiated c none (← c.judge none e)
  require j.isValue
  match j.type, j.mode with
  | .tuple ts, _ => return ts.map fun t => ⟨e, .value, t, [], false⟩
  | _, .mapElem | _, .commaOk =>
    if commaOk then return [j, ⟨e, .value, .basic .untypedBool, [], false⟩] else return [j]
  | _, _ => return [j]

/-- As many values as are needed for variables, of which some have types: one of each expression,
or all of a single one. -/
def valuesFor (c : Checker) (targets : List (Option Ty)) (commaOk : Bool) (es : List Exp) :
    Check (List Judgment) := do
  if es.length = targets.length then
    (targets.zip es).mapM fun (t?, e) => valueFor c t? e
  else
    match es with
    | [e] =>
      let xs ← valuesOf c (commaOk && targets.length == 2) e
      require (xs.length == targets.length)
      return xs
    | _ => failure

/-! ## Assignments -/

/-- The type of what is assigned to; nothing for the blank name.  Assigning to a variable does
not count as using it. -/
def assignedType (c : Checker) (e : Exp) : Check (Option Ty) := do
  let judged : Check Ty := do
    let j ← valueOf c e
    match j.mode with
    | .variable | .mapElem => return j.type
    | _ => failure
  match e.unparen with
  | .ident id =>
    if id.name = "_" then return none
    match ← refer? id.name with
    | some (.object n o) =>
      let t ← judged
      updateObject n fun now => { now with used := o.used }
      return some t
    | _ => failure
  | _ => return some (← judged)

/-- Assign values to expressions. -/
def assignAll (c : Checker) (lhs rhs : List Exp) : Check Unit := do
  if lhs.length = rhs.length then
    (lhs.zip rhs).forM fun (l, r) => do
      let t? ← assignedType c l
      discard (assign c (← valueFor c t? r) t?)
  else
    let xs ← valuesFor c (lhs.map fun _ => none) true rhs
    (lhs.zip xs).forM fun (l, x) => do discard (assign c x (← assignedType c l))

/-- Assign the result of an operator to its left operand. -/
def assignOperation (c : Checker) (op : Token) (lhs rhs : Exp) : Check Unit := do
  let x ← valueOf c lhs
  let y ← valueOf c rhs
  let z ← binaryJudgment c lhs op x y
  discard (assign c z (← assignedType c lhs))

/-! ## Definitions -/

/-- The type that a new variable takes from a value. -/
def initialType (x : Judgment) : Check Ty := do
  require !x.isNil
  return TypeEnv.defaultType x.type

/-- Give a value to a new variable, which takes its type from the value if it has none. -/
def giveInitial (c : Checker) (x : Judgment) (t? : Option Ty) : Check Ty := do
  let t ← match t? with
    | some t => pure t
    | none => initialType x
  discard (assign c x (some t))
  return t

/-- The variable of the innermost scope that a name stands for. -/
def ownVariable? (name : String) : Check (Option Ty) := do
  match (← here).scopes with
  | [] => return none
  | scope :: _ =>
    match scope.lookup name with
    | none => return none
    | some id =>
      match (← must (← get).objects[id]?).entity? with
      | some (.variable t) => return some t
      | _ => failure

/-- Define variables by values; at least one of them must be new in its scope. -/
def defineAll (c : Checker) (lhs rhs : List Exp) : Check Unit := do
  let names ← lhs.mapM fun
    | .ident id => pure id.name
    | _ => failure
  require (distinct names)
  let old ← names.mapM ownVariable?
  let xs ← valuesFor c old true rhs
  require (xs.length == names.length)
  let found ← (xs.zip old).mapM fun (x, t?) => giveInitial c x t?
  let fresh := (names.zip (old.zip found)).filter fun (name, t?, _) => t?.isNone && name != "_"
  require !fresh.isEmpty
  fresh.forM fun (name, _, t) => discard (declare name (.variable t) true)

/-! ## Declarations -/

/-- The parts of a declaration of constants: names, type and values, which are those of the part
before if there are none, and the index. -/
structure ConstantPart where
  names : List Ident
  type? : Option Exp
  values : List Exp
  iota : Int

/-- The parts of a declaration of constants. -/
def constantParts (type? : Option Exp) (values : List Exp) : Int → List Spec → List ConstantPart
  | _, [] => []
  | n, .value _ names t? vs :: rest =>
    let (type?, values) := if t?.isNone && vs.isEmpty then (type?, values) else (t?, vs)
    ⟨names, type?, values, n⟩ :: constantParts type? values (n + 1) rest
  | n, _ :: rest => constantParts type? values (n + 1) rest

/-- The entity of a constant, given its type and value as they are written. -/
def constantEntity (c : Checker) (type? value? : Option Exp) (iota : Int) : Check Entity := do
  let before := (← here).iota?
  move fun p => { p with iota? := some iota }
  let t? ← type?.mapM fun e => do
    let t ← c.type e
    require ((← types).isConstType t)
    return t
  let x ← valueOf c (← must value?)
  require x.constant?.isSome
  let t := t?.getD x.type
  let x ← assign c x (some t)
  move fun p => { p with iota? := before }
  return .constant t (← must x.constant?)

/-- As many values as names of constants. -/
def ConstantPart.fits (p : ConstantPart) : Bool :=
  p.names.length == p.values.length

/-- The number of values of a declaration of variables is right: one for each, a single one for
all, or none if there is a type. -/
def variableCountFits (names : List Ident) (type? : Option Exp) (values : List Exp) : Bool :=
  if values.isEmpty then type?.isSome
  else values.length == names.length || values.length == 1

/-- Declare constants within a function. -/
def declareConstants (c : Checker) (part : ConstantPart) : Check Unit := do
  require part.fits
  let entities ← part.values.mapM fun v => constantEntity c part.type? (some v) part.iota
  (part.names.zip entities).forM fun (n, e) => discard (declare n.name e false)

/-- Declare variables within a function. -/
def declareVariables (c : Checker) (names : List Ident) (type? : Option Exp) (values : List Exp) :
    Check Unit := do
  require (variableCountFits names type? values)
  let t? ← type?.mapM (varType c)
  let found ←
    if values.isEmpty then do
      let t ← must t?
      pure (names.map fun _ => t)
    else do
      let xs ← valuesFor c (names.map fun _ => t?) true values
      xs.mapM fun x => giveInitial c x t?
  (names.zip found).forM fun (n, t) => discard (declare n.name (.variable t) true)

/-- Look again at constraints, now that what they mention may be known. -/
def reconstrain (params : List Nat) : Check Unit :=
  params.forM fun p => do
    let d ← must (← types).params[p]?
    constrain p (asConstraint (← types) d.constraint)

/-- Find out what a declared type stands for.  Its number is known before, so that it can mention
itself. -/
def defineType (c : Checker) (id : Nat) (params? : Option FieldList) (type : Exp) : Check Unit :=
  inScope [] do
    let params ← declareTypeParams c ((params?.map (·.fields)).getD [])
      fun params => updateNamed id fun d => { d with params }
    let t ← c.type type
    require !TypeEnv.isParam t
    updateNamed id fun d => { d with under := t }
    reconstrain params

/-- What a further name of a type stands for.  A generic one cannot stand for a type parameter
of its own. -/
def aliasEntity (c : Checker) (name : String) (params? : Option FieldList) (type : Exp) :
    Check Entity :=
  inScope [] do
    if params?.isSome then needVersion 23
    let params ← declareTypeParams c ((params?.map (·.fields)).getD []) fun _ => pure ()
    let t ← c.type type
    let name := (← get).path ++ "." ++ name
    match params?, t.unalias with
    | none, _ => return .type (.alias name [] t)
    | some _, .param id => if params.contains id then failure else pure ()
    | some _, _ => pure ()
    return .genericAlias name params t

/-- The type parameters of the functions around. -/
def paramsAround : Check (List Nat) := do
  let s ← get
  return s.place.scopes.flatMap fun scope =>
    scope.filterMap fun (_, id) =>
      match (s.objects[id]?).bind (·.entity?) with
      | some (.type (.param p)) => some p
      | _ => none

/-- Declare a type within a function. -/
def declareType (c : Checker) (name : Ident) (params? : Option FieldList) (isAlias : Bool)
    (type : Exp) : Check Unit := do
  if isAlias then
    let id ← newObject ⟨name.name, none, none, .started, false, false, none⟩
    addName name.name id
    let e ← aliasEntity c name.name params? type
    updateObject id fun o => { o with entity? := some e, progress := .done }
  else
    let n ← newNamed name.name
    let around ← paramsAround
    updateNamed n fun d => { d with around }
    discard (declare name.name (.type (.named n [])) false)
    defineType c n params? type

/-- Declare something within a function. -/
def declareLocal (c : Checker) (d : Decl) : Check Unit := do
  match d with
  | .general _ .kwConst specs => (constantParts none [] 0 specs).forM (declareConstants c)
  | .general _ _ specs =>
    specs.forM fun
      | .value _ names type? values => declareVariables c names type? values
      | .type _ name params? isAlias type => declareType c name params? isAlias type
      | .imports .. => failure
  | .func .. => failure

end Typing
end WordRanges
