import WordRanges.Typing.TypeExp

/-!
# Parts of values

Selectors, elements, slices, dereferences and type assertions.

Main definitions:

- {lit}`selectorJudgment`: fields and methods.
- {lit}`indexJudgment`, {lit}`sliceJudgment`: elements and parts of lists.
- {lit}`starJudgment`: what a pointer points to.
- {lit}`assertJudgment`: type assertions.
-/

namespace WordRanges
namespace Typing

open Source

/-- An expression that is a single value or a type. -/
def valueOrType (c : Checker) (e : Exp) : Check Judgment := do
  let j ← instantiated c none (← c.judge none e)
  require ((j.isValue || j.isType) && !isTuple j.type)
  if j.isType then require !isGeneric (← types) j.type
  return j

/-! ## Selectors -/

/-- The type parameters of a generic method with its type.  The constraints of new ones are those
for the type arguments of the receiver. -/
def methodParams (m : Method) : Check (List Nat × Ty) := do
  if m.typeParams.isEmpty || m.bindings.isEmpty then return (m.typeParams, m.type)
  let ids ← m.typeParams.mapM fun p => do
    let d ← must (← types).params[p]?
    newParam d.name d.pos (some p)
  let put : Ty → Ty := Ty.subst fun id =>
    (m.bindings ++ m.typeParams.zip (ids.map Ty.param)).lookup id
  (m.typeParams.zip ids).forM fun (p, id) => do
    constrain id (put (← must (← types).params[p]?).constraint)
  return (ids, put m.type)

/-- The judgment on a selector.  A method of a type is a function whose first parameter is the
receiver. -/
def selectorJudgment (c : Checker) (e x : Exp) (name : Ident) : Check Judgment := do
  let j ← valueOrType c x
  require (name.name != "_")
  settleMethod c j.type name.name
  let found ← must ((← types).member? j.type j.isVariable name.name)
  match found.member with
  | .field t =>
    require !j.isType
    return ⟨e, if j.isVariable || found.indirect then .variable else .value, t, [], false⟩
  | .method m =>
    m.object?.forM noteUse
    let (params, t) ← methodParams m
    let typeParams := params.map fun p => (p, none)
    match j.isType, t with
    | true, .func pn rn ps rs variadic =>
      return ⟨e, .value, .func ("_" :: pn) rn (j.type :: ps) rs variadic, typeParams, false⟩
    | true, _ => failure
    | false, t => return ⟨e, .value, t, typeParams, false⟩

/-! ## Elements -/

/-- How a type can be indexed. -/
structure Indexing where
  /-- The type of keys, for a map. -/
  key? : Option Ty
  elem : Ty
  /-- The number of elements, if it is known. -/
  length? : Option Int
  /-- The elements have addresses. -/
  addressable : Bool

/-- How values of an underlying type can be indexed; {lit}`isVariable` if the value has an
address. -/
def indexing? (env : TypeEnv) (isVariable : Bool) : Ty → Option Indexing
  | .basic b => if b.isString then some ⟨none, .basic .byte, none, false⟩ else none
  | .array n elem => some ⟨none, elem, some n, isVariable⟩
  | .slice elem => some ⟨none, elem, none, true⟩
  | .map key elem => some ⟨some key, elem, none, false⟩
  | .pointer t =>
    match env.under t with
    | .array n elem => some ⟨none, elem, some n, true⟩
    | _ => none
  | _ => none

/-- How values of two types can be indexed alike.  The number of elements is known if that of the
first is. -/
def Indexing.common? (env : TypeEnv) (a b : Indexing) : Option Indexing := do
  let sameKeys :=
    match a.key?, b.key? with
    | none, none => true
    | some k, some l => env.same k l
    | _, _ => false
  if !sameKeys || !env.same a.elem b.elem then none
  let length? :=
    match a.length?, b.length? with
    | some m, some n => some (min m n)
    | l, _ => l
  return { a with length?, addressable := a.addressable && b.addressable }

/-- How an expression can be indexed. -/
def indexingOf? (env : TypeEnv) (x : Judgment) : Option Indexing := do
  let ways ← (← env.alternatives? x.type).mapM fun t =>
    indexing? env x.isVariable (env.under t.type)
  match ways with
  | [] => none
  | w :: ws =>
    let w ← ws.foldlM (Indexing.common? env) w
    match x.mode with
    | .constant (.string bytes) => return { w with length? := some bytes.length }
    | _ => return w

/-- An expression as an index: an integer, and not negative if it is constant. -/
def indexValue (x : Judgment) : Check (Judgment × Option Int) := do
  let x ← convertUntyped x (.basic .int)
  require ((← types).basicAll x.type (·.isInteger))
  match x.constant? with
  | none => return (x, none)
  | some v =>
    let n ← must v.toInt?
    require (0 ≤ n && ((Constant.int n).represent? .int).isSome)
    return (x, some n)

/-- An index below a bound, as far as that can be told. -/
def indexBelow (c : Checker) (bound? : Option Int) (e : Exp) : Check (Option Int) := do
  let (_, n?) ← indexValue (← valueOf c e)
  match n?, bound? with
  | some n, some bound => require (n < bound)
  | _, _ => pure ()
  return n?

/-- The judgment on an element of a value. -/
def elementJudgment (c : Checker) (e : Exp) (x : Judgment) (index : Exp) : Check Judgment := do
  let w ← must (indexingOf? (← types) x)
  match w.key? with
  | some key =>
    discard (assign c (← valueOf c index) (some key))
    return ⟨e, .mapElem, w.elem, [], false⟩
  | none =>
    discard (indexBelow c w.length? index)
    return ⟨e, if w.addressable then .variable else .value, w.elem, [], false⟩

/-- The judgment on an element, or on a generic type or function with type arguments. -/
def indexJudgment (c : Checker) (e x : Exp) (indices : List Exp) : Check Judgment := do
  let j ← c.judge none x
  if j.isType then
    return ⟨e, .type, ← c.type e, [], false⟩
  else if !j.typeParams.isEmpty then
    require (j.isValue && j.typeParams.all fun p => p.2.isNone)
    let args ← indices.mapM (varType c)
    require (args.length ≤ j.typeParams.length)
    let j := { j with exp := e }
    if args.length = j.typeParams.length then withArguments j args true
    else
      let written := args.map some ++ List.replicate (j.typeParams.length - args.length) none
      return { j with typeParams := (j.typeParams.map (·.1)).zip written }
  else
    require (j.isValue && !isTuple j.type)
    match indices with
    | [index] => elementJudgment c e j index
    | _ => failure

/-! ## Slices -/

/-- A part of a list: the type of the part, and the length of the whole if it is known. -/
def slicing? (env : TypeEnv) (x : Judgment) (three : Bool) : Option (Ty × Option Int) := do
  match ← env.coreText? x.type with
  | .basic b =>
    if !b.isString || three then none
    let length? :=
      match x.mode with
      | .constant (.string bytes) => some (bytes.length : Int)
      | _ => none
    return (TypeEnv.defaultType x.type, length?)
  | .array n elem => if x.isVariable then return (.slice elem, some n) else none
  | .pointer t =>
    match env.under t with
    | .array n elem => return (.slice elem, some n)
    | _ => none
  | .slice _ => return (x.type, none)
  | _ => none

/-- Bounds of a part are in ascending order, as far as they are known. -/
def ascending : List (Option Int) → Bool
  | [] => true
  | none :: rest => ascending rest
  | some n :: rest =>
    (rest.all fun m? => (m?.map fun m => decide (n ≤ m)).getD true) && ascending rest

/-- The judgment on a part of a list. -/
def sliceJudgment (c : Checker) (e x : Exp) (lo? hi? max? : Option Exp) : Check Judgment := do
  let j ← valueOf c x
  let (t, length?) ← must (slicing? (← types) j max?.isSome)
  let bound? := length?.map (· + 1)
  let at? (e? : Option Exp) (otherwise? : Option Int) : Check (Option Int) :=
    match e? with
    | some e => indexBelow c bound? e
    | none => return otherwise?
  let lo ← at? lo? (some 0)
  let hi ← at? hi? length?
  let max ← at? max? length?
  require (ascending [lo, hi, max])
  return ⟨e, .value, t, [], false⟩

/-! ## Pointers and assertions -/

/-- The judgment on what a pointer points to, or on a pointer type. -/
def starJudgment (c : Checker) (e x : Exp) : Check Judgment := do
  let j ← valueOrType c x
  if j.isType then
    await (.isOrdinary j.type)
    return ⟨e, .type, .pointer j.type, [], false⟩
  else
    require !j.isNil
    match ← must ((← types).core? j.type) with
    | .pointer t => return ⟨e, .variable, t, [], false⟩
    | _ => failure

/-- A value of an interface type can turn out to have a type. -/
def assertable (env : TypeEnv) (interface t : Ty) : Bool :=
  env.isInterface t || env.hasMethods t interface

/-- The judgment on a type assertion. -/
def assertJudgment (c : Checker) (e x type : Exp) : Check Judgment := do
  let j ← valueOf c x
  require ((← types).isOrdinaryInterface j.type)
  let t ← varType c type
  settleMethods c t j.type
  require (assertable (← types) j.type t)
  return ⟨e, .commaOk, t, [], false⟩

end Typing
end WordRanges
