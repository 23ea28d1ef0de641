import WordRanges.Typing.Access

/-!
# Composite literals

Literals of structs, arrays, slices and maps.  An element that is itself a composite
literal may leave out its type, which is then that of the elements.

Main definitions:

- {lit}`compositeJudgment`: the judgment on a composite literal.
-/

namespace WordRanges
namespace Typing

open Source

/-- A field with the names of the embedded fields on the way to it. -/
structure FieldPath where
  names : List String
  type : Ty

/-- The fields of structs, each with the way to it. -/
def fieldsOf (env : TypeEnv) (p : FieldPath) : List (FieldLabel × FieldPath) :=
  match env.under p.type with
  | .struct labels types =>
    (labels.zip types).map fun (l, t) => (l, ⟨p.names ++ [l.name], t⟩)
  | _ => []

/-- The field of a name at the least depth of embedding, but not through pointers; {lit}`level` are
the structs at some depth, and {lit}`fuel` bounds the depth. -/
def fieldPath? (env : TypeEnv) (name : String) : Nat → List FieldPath → Option FieldPath
  | 0, _ => none
  | fuel + 1, level =>
    let fields := level.flatMap (fieldsOf env)
    match fields.filter fun f => f.1.name == name with
    | [] => fieldPath? env name fuel ((fields.filter fun f => f.1.embedded).map (·.2))
    | [f] => some f.2
    | _ => none

/-- The fields of a struct literal whose elements have names, which may be those of promoted
fields.  No field may be given a value twice, nor together with a field that it is part of. -/
def namedFields (c : Checker) (base : Ty) : List (List String) → List Exp → Check Unit
  | _, [] => return
  | seen, .keyValue _ (.ident key) value :: rest => do
    let env ← types
    let found ← must (env.member? base true key.name)
    let isField :=
      match found.member with
      | .field _ => true
      | .method _ => false
    require (key.name != "_" && isField && !found.indirect)
    let f ← must (fieldPath? env key.name (env.embedDepth + 1) [⟨[], base⟩])
    discard (assign c (← valueFor c (← inferenceTarget? f.type) value) (some f.type))
    if f.names.length > 1 then needVersion 27
    require !(seen.any fun p => p.isPrefixOf f.names || f.names.isPrefixOf p)
    namedFields c base (f.names :: seen) rest
  | _, _ => failure

/-- The fields of a struct literal whose elements have no names. -/
def listedFields (c : Checker) : List (FieldLabel × Ty) → List Exp → Check Unit
  | [], [] => return
  | (_, t) :: fields, e :: rest => do
    discard (assign c (← valueFor c (← inferenceTarget? t) e) (some t))
    listedFields c fields rest
  | _, _ => failure

/-- The elements of a literal of an array or slice; the answer is the least length that holds
them.  {lit}`next` is the index of the next element without a key, {lit}`seen` are those so far. -/
def indexedElements (c : Checker) (elem : Ty) (bound? : Option Int) :
    Int → List Int → List Exp → Check Int
  | _, seen, [] => return seen.foldl (fun m n => max m (n + 1)) 0
  | next, seen, e :: rest => do
    let (index, value) ←
      match e with
      | .keyValue _ key value => do pure (← must (← indexBelow c bound? key), value)
      | e => pure (next, e)
    match bound? with
    | some bound => require (index < bound)
    | none => pure ()
    require !seen.contains index
    discard (assign c (← valueWith c (some elem) (← inferenceTarget? elem) value) (some elem))
    indexedElements c elem bound? (index + 1) (index :: seen) rest

/-- A constant as it is compared with the other keys of a literal of a map.  Numbers of all kinds
are compared by value; integers that do not fit a word are not compared. -/
def comparedKey? (k : Constant) : Option Constant :=
  match k.toInt?, k.toFloat? with
  | some n, _ => if Constant.fitsWord n then some (.int n) else none
  | none, some x => some (.number x)
  | none, none => some k

/-- The entries of a literal of a map; constant keys must differ. -/
def mapEntries (c : Checker) (key elem : Ty) : List (Constant × Ty) → List Exp → Check Unit
  | _, [] => return
  | seen, .keyValue _ k v :: rest => do
    let k ← assign c (← valueWith c (some key) (← inferenceTarget? key) k) (some key)
    let seen ←
      match k.constant?.bind comparedKey? with
      | some x => do
        let env ← types
        require !(seen.any fun (y, t) => x == y && env.same t k.type)
        pure ((x, k.type) :: seen)
      | none => pure seen
    discard (assign c (← valueWith c (some elem) (← inferenceTarget? elem) v) (some elem))
    mapEntries c key elem seen rest
  | _, _ => failure

/-- The elements of a composite literal of a type. -/
def compositeElements (c : Checker) (base : Ty) (elems : List Exp) : Check Unit := do
  let core ← must ((← types).core? base)
  match core with
  | .struct labels types =>
    let fields := labels.zip types
    match elems with
    | [] => return
    | .keyValue .. :: _ =>
      namedFields c (if TypeEnv.isParam base then core else base) [] elems
    | _ => listedFields c fields elems
  | .array n elem => discard (indexedElements c elem (some n) 0 [] elems)
  | .slice elem => discard (indexedElements c elem none 0 [] elems)
  | .map key elem => mapEntries c key elem [] elems
  | _ => failure

/-- The judgment on a composite literal, which may leave out its type where elements have a
type of their own. -/
def compositeJudgment (c : Checker) (hint? : Option Ty) (e : Exp) (type? : Option Exp)
    (elems : List Exp) : Check Judgment := do
  match type?, hint? with
  | some (.array span (some (.ellipsis _ none)) elem), _ =>
    let t ← varType c elem
    let n ← indexedElements c t none 0 [] elems
    putRecord ⟨.array span none elem, .array n t, none, true, false⟩
    return ⟨e, .value, .array n t, [], false⟩
  | some type, _ =>
    let t ← c.type type
    compositeElements c t elems
    return ⟨e, .value, t, [], false⟩
  | none, some t =>
    let base :=
      match (← types).core? t with
      | some (.pointer b) => b
      | _ => t
    compositeElements c base elems
    return ⟨e, .value, t, [], false⟩
  | none, none => failure

end Typing
end WordRanges
