import WordRanges.Typing.Statement

/-!
# Declarations of a package

The declarations of all files of a package share one scope.  First their names are
collected, then each is resolved, once and when it is needed first.

Main definitions:

- {lit}`collect`: the names that a file declares.
- {lit}`attachMethods`: the methods that types have.
- {lit}`resolveObject`: find out what a name stands for.
-/

namespace WordRanges
namespace Typing

open Source

/-! ## Names -/

/-- Declare a name of the package, where it must be new; {lit}`hidden` names are only kept. -/
def addGlobal (o : Object) (hidden : Bool) : Check Nat := do
  let id ← newObject { o with version? := (← here).version? }
  if hidden || o.name == "_" then return id
  require ((← get).package[o.name]?).isNone
  modify fun s => { s with package := s.package.insert o.name id }
  return id

/-- A name that waits for its declaration to be resolved. -/
def waiting (name : String) (entity? : Option Entity) (d : Declaration) : Object :=
  ⟨name, entity?, some d, .waiting, false, false, none⟩

/-- A name that only functions may have. -/
def isFunctionName (package name : String) : Bool :=
  name == "init" || (name == "main" && package == "main")

/-- Declare constants of the package. -/
def collectConstants (part : ConstantPart) : Check Unit := do
  require part.fits
  (part.names.zip part.values).forM fun (n, v) =>
    discard (addGlobal (waiting n.name none (.constant part.type? (some v) part.iota)) false)

/-- Declare variables of the package.  Those that share a value are resolved together. -/
def collectVariables (names : List Ident) (type? : Option Exp) (values : List Exp) :
    Check Unit := do
  require (variableCountFits names type? values)
  let first := (← get).objects.size
  let all := (List.range names.length).map (· + first)
  (names.zip all).forM fun (n, id) => do
    let (group, value?) :=
      if values.length = names.length then ([id], values[id - first]?)
      else if values.isEmpty then ([id], none)
      else (all, values.head?)
    discard (addGlobal (waiting n.name none (.variable group type? value?)) false)

/-- A function type without parameters and type parameters that says nothing of results. -/
def isPlainSignature : Exp → Bool
  | .func _ none params none => params.fields.isEmpty
  | _ => false

/-- A function type with type parameters. -/
def hasTypeParams : Exp → Bool
  | .func _ typeParams? _ _ => typeParams?.isSome
  | _ => false

/-- Declare a function of the package. -/
def collectFunction (package : String) (name : Ident) (signature : Exp) (body? : Option Block) :
    Check Unit := do
  require (!hasTypeParams signature || body?.isSome)
  if isFunctionName package name.name then require (isPlainSignature signature)
  if name.name == "init" then require body?.isSome
  discard (addGlobal (waiting name.name none (.function signature body?)) (name.name == "init"))

/-- Declare a part of a declaration. -/
def collectSpec (package : String) : Spec → Check Unit
  | .imports .. => failure
  | .value _ names type? values => do
    require !(names.any fun n => isFunctionName package n.name)
    collectVariables names type? values
  | .type _ name params? isAlias type => do
    require !isFunctionName package name.name
    let entity? ←
      if isAlias then pure none
      else do pure (some (.type (.named (← newNamed name.name) [])))
    discard (addGlobal (waiting name.name entity? (.type params? isAlias type)) false)

/-- Declare the names of a declaration. -/
def collectDecl (package : String) : Decl → Check Unit
  | .general _ .kwConst specs =>
    (constantParts none [] 0 specs).forM fun part => do
      require !(part.names.any fun n => isFunctionName package n.name)
      collectConstants part
  | .general _ _ specs => specs.forM (collectSpec package)
  | .func _ none name signature body? => collectFunction package name signature body?
  | .func _ (some receiver) name signature body? => do
    require (!hasTypeParams signature || body?.isSome)
    discard (addGlobal (waiting name.name none (.method receiver signature body?)) true)

/-- The first version of the language that a file can ask for, and the last one. -/
def versionBounds : Nat × Nat := (21, 27)

/-- Declare the names of a file, which must belong to the package and be written in a known version
of the language. -/
def collect (package : String) (unit : SourceUnit) : Check Unit := do
  require (unit.package.name == package && package != "_")
  require (unit.version?.all (· ≤ versionBounds.2))
  elsewhere { Place.outside with version? := unit.version?.map (max versionBounds.1) }
    (unit.decls.forM (collectDecl package))

/-! ## Methods of types -/

/-- The parts of the type of a receiver: whether it is a pointer, the name of its base, and
the names of its type parameters. -/
structure Receiver where
  pointer : Bool
  base : Ident
  params : List Ident

/-- The parts of the type of a receiver. -/
def receiver? : Exp → Option Receiver
  | .paren _ x => receiver? x
  | .star _ x =>
    (receiver? x).bind fun r => if r.pointer then none else some { r with pointer := true }
  | .ident id => some ⟨false, id, []⟩
  | .index _ (.ident id) params => do
    let params ← params.mapM fun
      | .ident p => some p
      | _ => none
    return ⟨false, id, params⟩
  | _ => none

/-- The declared type that a receiver is of, found by name alone, and whether the receiver is a
pointer.  Further names are followed; {lit}`fuel` bounds their number. -/
def receiverType (r : Receiver) : Nat → Check (Option (Nat × Bool))
  | 0 => return none
  | fuel + 1 => do
    let s ← get
    match (s.package[r.base.name]?).bind fun id => s.objects[id]? with
    | none => return none
    | some o =>
      match o.entity?, o.declaration? with
      | some (.type (.named id _)), _ => return some (id, r.pointer)
      | _, some (.type none true type) =>
        match receiver? type with
        | some next =>
          if r.pointer && next.pointer then return none
          else receiverType { next with pointer := r.pointer || next.pointer } fuel
        | none => return none
      | _, _ => return none

/-- Add a method, whose type is not known yet, to its type. -/
def attachMethod (object : Nat) (name : String) (receiver : FieldList) : Check Unit := do
  match receiver.fields with
  | [.mk _ _ type _] =>
    let base? ← (receiver? type).mapM fun r => do receiverType r (← get).objects.size
    match base?.join with
    | none => return
    | some (id, pointer) =>
      if name == "_" then return
      let d ← must (← types).named[id]?
      require !(d.methods.any fun m => m.name == name)
      updateNamed id fun d =>
        { d with methods := d.methods ++ [⟨name, pointer, object, [], [], .invalid⟩] }
  | _ => failure

/-- Add all methods to their types. -/
def attachMethods : Check Unit := do
  (← get).objects.toList.zipIdx.forM fun (o, id) =>
    match o.declaration? with
    | some (.method receiver ..) => attachMethod id o.name receiver
    | _ => pure ()

/-! ## Constants and variables -/

/-- What a name of the package stands for becomes known. -/
def settleEntity (id : Nat) (e : Entity) : Check Unit :=
  updateObject id fun o => { o with entity? := some e }

/-- Resolve variables of the package that share a value.  With a type written they are known
before their value is. -/
def resolveVariables (c : Checker) (id : Nat) (group : List Nat) (type? value? : Option Exp) :
    Check Unit := do
  group.forM fun m => updateObject m fun o => { o with progress := .started }
  let t? ← type?.mapM (varType c)
  match t? with
  | some t => group.forM fun m => settleEntity m (.variable t)
  | none => pure ()
  match value? with
  | none => pure ()
  | some e =>
    let xs ← valuesFor c (group.map fun _ => t?) true [e]
    (group.zip xs).forM fun (m, x) => do settleEntity m (.variable (← giveInitial c x t?))
  (group.filter (· != id)).forM fun m => do
    updateObject m fun o => { o with progress := .done }
    modify fun s => { s with uses := s.uses.push (m, id) }

/-- Resolve a further name of a type.  The types that it mentions may mention it in turn, so
they are resolved after it. -/
def resolveAlias (c : Checker) (id : Nat) (name : String) (params? : Option FieldList)
    (type : Exp) : Check Unit := do
  let before := (← get).deferred?
  modify fun s => { s with deferred? := some (before.getD []) }
  settleEntity id (← aliasEntity c name params? type)
  if before.isNone then
    let later := ((← get).deferred?).getD []
    modify fun s => { s with deferred? := none }
    later.forM c.resolve

/-! ## Functions and methods -/

/-- The body of a function is to be checked later. -/
def postpone (id : Nat) (s : Signature) (body? : Option Block) : Check Unit :=
  match body? with
  | none => return
  | some block => do
    postponeBody ⟨none, (← here).version?, some id, s.scope, s.results, block⟩

/-- Declare the type parameters of a receiver; their constraints are those of its type. -/
def declareReceiverParams (r : Receiver) (d : NamedDef) : Check (List Nat) := do
  require (r.params.length == d.params.length)
  let ids ← (r.params.zip d.params).mapM fun (p, origin) => do
    let id ← newParam p.name p.pos (some origin)
    discard (declare p.name (.type (.param id)) false)
    return id
  let put : Ty → Ty := Ty.subst (TypeEnv.lookupArg d.params (ids.map .param))
  (ids.zip d.params).forM fun (id, p) => do
    let declared ← must (← types).params[p]?
    constrain id (put declared.constraint)
  return ids

/-- The declared type that methods with a receiver belong to. -/
def receiverBase (c : Checker) (r : Receiver) : Check (Nat × NamedDef × Bool) := do
  let t ←
    match ← entityOf c r.base.name with
    | .type t => pure t
    | _ => failure
  let (base, isPointer) := strip t
  match base.unalias with
  | .named id _ =>
    require (id != errorId && id != comparableId && !(isPointer && r.pointer))
    let d ← must (← types).named[id]?
    match (← types).under base with
    | .pointer _ | .interface .. => failure
    | _ => return (id, d, isPointer || r.pointer)
  | _ => failure

/-- Resolve a method, so that its type is known. -/
def resolveMethod (c : Checker) (object : Nat) (receiver : FieldList) (signature : Exp)
    (body? : Option Block) : Check Unit :=
  inScope [] do
    match receiver.fields, signature with
    | [.mk _ names type _], .func _ typeParams? params results? =>
      let r ← must (receiver? type)
      let (id, d, pointer) ← receiverBase c r
      let ids ← declareReceiverParams r d
      let base := Ty.named id (ids.map .param)
      let self := if pointer then .pointer base else base
      require (names.length ≤ 1)
      if typeParams?.isSome then needVersion 27
      let typeParams ← declareTypeParams c ((typeParams?.map (·.fields)).getD [])
        fun _ => pure ()
      let s ← signatureIn c typeParams (names.map fun n => (n.name, self)) params results?
      settleEntity object (.function typeParams s.type)
      updateNamed id fun d => { d with
        methods := d.methods.map fun m =>
          if m.object = object then { m with pointer, params := ids, typeParams, type := s.type }
          else m }
      postpone object s body?
    | _, _ => failure

/-! ## All declarations -/

/-- Resolve a declaration. -/
def resolveDeclaration (c : Checker) (id : Nat) (o : Object) : Declaration → Check Unit
  | .constant type? value? iota => do
    settleEntity id (← constantEntity c type? value? iota)
  | .variable group type? value? => resolveVariables c id group type? value?
  | .type params? _ type => do
    match o.entity? with
    | some (.type (.named n _)) => defineType c n params? type
    | _ => resolveAlias c id o.name params? type
  | .function signature body? => do
    let s ← signatureOf c signature
    settleEntity id (.function s.typeParams s.type)
    postpone id s body?
  | .method receiver signature body? => resolveMethod c id receiver signature body?

/-- The values that a declaration uses matter for the order in which variables get their values. -/
def Declaration.hasValue : Declaration → Bool
  | .constant .. | .variable .. => true
  | _ => false

/-- Find out what a name of the package stands for, unless that is known or under way. -/
def resolveObject (c : Checker) (id : Nat) : Check Unit := do
  let o ← must (← get).objects[id]?
  match o.progress, o.declaration? with
  | .waiting, some d =>
    updateObject id fun o => { o with progress := .started }
    let owner? := if d.hasValue then some id else none
    elsewhere { Place.outside with owner?, version? := o.version? } (resolveDeclaration c id o d)
    updateObject id fun o => { o with progress := .done }
  | _, _ => return

end Typing
end WordRanges
