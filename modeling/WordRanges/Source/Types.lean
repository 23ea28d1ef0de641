import WordRanges.Source.BasicType
import WordRanges.Text.Quoted

/-!
# Types of Go

Types as trees.  Declared types and type parameters are numbers into an environment that
holds their declarations, so that a type can mention itself.  The names of fields,
parameters and methods stand in lists beside the lists of their types.

Main definitions:

- {lit}`Ty`, {lit}`TypeEnv`: types and their declarations.
- {lit}`Ty.alike`: types that are written alike.
- {lit}`TypeEnv.under`: the underlying type.
- {lit}`TypeEnv.text`: how a type is written in messages.
-/

namespace WordRanges
namespace Source

/-- The direction of a channel. -/
inductive ChanDir where
  | both | send | receive
deriving DecidableEq, Repr

/-- The name of a struct field with its tag; embedded fields are named for their type. -/
structure FieldLabel where
  name : String
  embedded : Bool
  tag : List UInt8
deriving DecidableEq, Repr

/-- How a field is written, given the text of its type. -/
def FieldLabel.text (l : FieldLabel) (type : String) : String :=
  (if l.embedded then type else l.name ++ " " ++ type)
    ++ (if l.tag.isEmpty then "" else " " ++ Text.quotedBytes l.tag)

/-- A type. -/
inductive Ty where
  | basic (b : BasicType)
  /-- A declared type, with type arguments if it is generic. -/
  | named (id : Nat) (args : List Ty)
  /-- A type parameter. -/
  | param (id : Nat)
  | pointer (elem : Ty)
  | slice (elem : Ty)
  | array (length : Int) (elem : Ty)
  | map (key elem : Ty)
  | chan (dir : ChanDir) (elem : Ty)
  | struct (labels : List FieldLabel) (types : List Ty)
  /-- A function; names of parameters and results may be empty. -/
  | func (paramNames resultNames : List String) (params results : List Ty) (variadic : Bool)
  /-- An interface; an implicit one stands for the bare constraint that it embeds. -/
  | interface (methodNames : List String) (methods embeds : List Ty) (implicit : Bool)
  /-- A union of terms; a marked term stands for all types with that underlying type. -/
  | union (tildes : List Bool) (types : List Ty)
  | tuple (elems : List Ty)
  /-- A further name of a type, with type arguments if it is generic. -/
  | alias (name : String) (args : List Ty) (target : Ty)
deriving BEq, Repr, Inhabited

/-- The label without its tag. -/
def FieldLabel.untagged (l : FieldLabel) : FieldLabel :=
  { l with tag := [] }

/-- The number of the declared type of errors. -/
def errorId : Nat := 0

/-- The number of the constraint that all comparable types satisfy. -/
def comparableId : Nat := 1

namespace Ty

/-- The type of what is not well-typed. -/
def invalid : Ty := .basic .invalid

/-- The type that a type with further names stands for. -/
def unalias : Ty → Ty
  | .alias _ _ t => t.unalias
  | t => t

mutual

/-- A type without further names anywhere in it. -/
def plain : Ty → Ty
  | .basic b => .basic b
  | .named id args => .named id (plainAll args)
  | .param id => .param id
  | .pointer a => .pointer a.plain
  | .slice a => .slice a.plain
  | .array n a => .array n a.plain
  | .map k a => .map k.plain a.plain
  | .chan d a => .chan d a.plain
  | .struct ns ts => .struct ns (plainAll ts)
  | .func pn rn ps rs v => .func pn rn (plainAll ps) (plainAll rs) v
  | .interface ns ms es i => .interface ns (plainAll ms) (plainAll es) i
  | .union ns ts => .union ns (plainAll ts)
  | .tuple ts => .tuple (plainAll ts)
  | .alias _ _ t => t.plain

/-- Types without further names. -/
def plainAll : List Ty → List Ty
  | [] => []
  | t :: ts => t.plain :: plainAll ts

end

mutual

/-- Two types without further names are written alike.  Names of parameters and spellings do
not matter. -/
def samePlain : Ty → Ty → Bool
  | .basic a, .basic b => a.canonical == b.canonical
  | .named a xs, .named b ys => a == b && samePlainAll xs ys
  | .param a, .param b => a == b
  | .pointer a, .pointer b => a.samePlain b
  | .slice a, .slice b => a.samePlain b
  | .array m a, .array n b => m == n && a.samePlain b
  | .map k a, .map l b => k.samePlain l && a.samePlain b
  | .chan d a, .chan e b => d == e && a.samePlain b
  | .struct ms xs, .struct ns ys => ms == ns && samePlainAll xs ys
  | .func _ _ ps rs v, .func _ _ qs ss u => v == u && samePlainAll ps qs && samePlainAll rs ss
  | .interface ms xs es _, .interface ns ys fs _ =>
    ms == ns && samePlainAll xs ys && samePlainAll es fs
  | .union ms xs, .union ns ys => ms == ns && samePlainAll xs ys
  | .tuple xs, .tuple ys => samePlainAll xs ys
  | _, _ => false

/-- Lists of types without further names that are written alike. -/
def samePlainAll : List Ty → List Ty → Bool
  | [], [] => true
  | a :: as, b :: bs => a.samePlain b && samePlainAll as bs
  | _, _ => false

end

/-- Two types are written alike.  Further names, names of parameters and spellings do not
matter. -/
def alike (a b : Ty) : Bool :=
  a.plain.samePlain b.plain

mutual

/-- A type with its type parameters replaced. -/
def subst (f : Nat → Option Ty) : Ty → Ty
  | .basic b => .basic b
  | .named id args => .named id (substAll f args)
  | .param id => (f id).getD (.param id)
  | .pointer a => .pointer (a.subst f)
  | .slice a => .slice (a.subst f)
  | .array n a => .array n (a.subst f)
  | .map k a => .map (k.subst f) (a.subst f)
  | .chan d a => .chan d (a.subst f)
  | .struct ns ts => .struct ns (substAll f ts)
  | .func pn rn ps rs v => .func pn rn (substAll f ps) (substAll f rs) v
  | .interface ns ms es i => .interface ns (substAll f ms) (substAll f es) i
  | .union ns ts => .union ns (substAll f ts)
  | .tuple ts => .tuple (substAll f ts)
  | .alias n args t => .alias n (substAll f args) (t.subst f)

/-- A list of types with type parameters replaced. -/
def substAll (f : Nat → Option Ty) : List Ty → List Ty
  | [] => []
  | t :: ts => t.subst f :: substAll f ts

end

mutual

/-- The number of nodes of a type. -/
def size : Ty → Nat
  | .basic _ | .param _ => 1
  | .named _ args => 1 + sizeAll args
  | .pointer a => 1 + a.size
  | .slice a => 1 + a.size
  | .array _ a => 1 + a.size
  | .chan _ a => 1 + a.size
  | .map k a => 1 + k.size + a.size
  | .struct _ ts => 1 + sizeAll ts
  | .func _ _ ps rs _ => 1 + sizeAll ps + sizeAll rs
  | .interface _ ms es _ => 1 + sizeAll ms + sizeAll es
  | .union _ ts => 1 + sizeAll ts
  | .tuple ts => 1 + sizeAll ts
  | .alias _ args t => 1 + sizeAll args + t.size

/-- The number of nodes of a list of types. -/
def sizeAll : List Ty → Nat
  | [] => 0
  | t :: ts => 1 + t.size + sizeAll ts

end

end Ty

/-! ## Declarations -/

/-- A method of a declared type. -/
structure MethodDef where
  name : String
  /-- The receiver is a pointer. -/
  pointer : Bool
  /-- The number of its declaration. -/
  object : Nat
  /-- The receiver's own names of the type parameters. -/
  params : List Nat
  /-- The type parameters of a generic method. -/
  typeParams : List Nat
  /-- The function without the receiver; it is invalid as long as it is not known. -/
  type : Ty
deriving Inhabited

/-- The declaration of a type. -/
structure NamedDef where
  /-- The name, with its package. -/
  name : String
  /-- The type parameters of a generic type. -/
  params : List Nat
  /-- The underlying type, over the type parameters. -/
  under : Ty
  methods : List MethodDef := []
  /-- The type parameters of the functions around the declaration. -/
  around : List Nat := []
deriving Inhabited

/-- The declaration of a type parameter. -/
structure ParamDef where
  name : String
  constraint : Ty
  /-- Where the parameter is declared. -/
  pos : Nat
  /-- Without the parameter its name would stand for something that is part of the language. -/
  hides : Bool := false
  /-- The parameter that it stands for: the one of the type, for one of a receiver. -/
  origin? : Option Nat := none
deriving Inhabited

/-- How a type parameter is written within a type; it is marked if its name would stand for
something else without it. -/
def ParamDef.text (d : ParamDef) : String :=
  if d.hides then d.name ++ "/* type parameter */" else d.name

/-- The declarations of types and type parameters. -/
structure TypeEnv where
  named : Array NamedDef
  params : Array ParamDef
deriving Inhabited

namespace TypeEnv

/-- No declarations. -/
def empty : TypeEnv :=
  ⟨#[], #[]⟩

/-- The argument that belongs to a type parameter. -/
def lookupArg (params : List Nat) (args : List Ty) (id : Nat) : Option Ty :=
  (params.zip args).lookup id

/-- What a declared type, a further name or a type parameter stands for; nothing for
other types. -/
def next? (env : TypeEnv) : Ty → Option Ty
  | .alias _ _ t => some t
  | .named id args =>
    some (match env.named[id]? with
      | some d => d.under.subst (lookupArg d.params args)
      | none => .invalid)
  | .param id =>
    some (match env.params[id]? with
      | some d => d.constraint
      | none => .invalid)
  | _ => none

/-- The type at the end of a chain of declarations; it is invalid if the chain is longer than
{lit}`fuel`. -/
def underWithin (env : TypeEnv) : Nat → Ty → Ty
  | 0, _ => .invalid
  | fuel + 1, t =>
    match env.next? t with
    | none => t
    | some u => env.underWithin fuel u

/-- The underlying type of a type; that of a type parameter is its constraint.  A type that
is declared by itself has none and is invalid. -/
def under (env : TypeEnv) (t : Ty) : Ty :=
  env.underWithin (2 * (env.named.size + env.params.size) + 3) t.unalias

/-- The basic type that underlies a type. -/
def basic? (env : TypeEnv) (t : Ty) : Option BasicType :=
  match env.under t with
  | .basic b => some b
  | _ => none

/-- A bound on the number of types that can be met on a way through declarations without
meeting one of them twice. -/
def depth (env : TypeEnv) (t : Ty) : Nat :=
  t.size + env.named.foldl (fun n d => n + (d.under.size + 1)) 0
    + env.params.foldl (fun n d => n + (d.constraint.size + 1)) 0

/-! ## Text -/

/-- Names and texts joined, as in {lit}`x int`; empty names are left out. -/
def labelled (names texts : List String) : List String :=
  names.zipWith (fun n t => if n.isEmpty then t else n ++ " " ++ t) texts

/-- How parameters and results are written, given the texts of their types.  The last
parameter of a variadic function is a slice, written with dots in place of its brackets. -/
def signatureText (paramNames resultNames params results : List String) (variadic : Bool) :
    String :=
  let params :=
    if variadic then
      params.dropLast ++ ["..." ++ String.ofList ((params.getLastD "").toList.drop 2)]
    else params
  let params := labelled paramNames params
  let results :=
    match results with
    | [] => ""
    | [r] =>
      if resultNames == [""] then " " ++ r
      else " (" ++ ", ".intercalate (labelled resultNames [r]) ++ ")"
    | rs => " (" ++ ", ".intercalate (labelled resultNames rs) ++ ")"
  "(" ++ ", ".intercalate params ++ ")" ++ results

/-- How a method is written: its name in place of the word that begins a function type. -/
def methodText (name func : String) : String :=
  name ++ String.ofList (func.toList.drop "func".length)

/-- How type arguments are written, given their texts. -/
def argumentText (args : List String) : String :=
  if args.isEmpty then "" else "[" ++ ", ".intercalate args ++ "]"

mutual

/-- How a type is written. -/
def text (env : TypeEnv) : Ty → String
  | .basic .unsafePointer => "unsafe.Pointer"
  | .basic b => b.name
  | .named id args =>
    ((env.named[id]?).map (·.name)).getD "invalid type"
      ++ argumentText (texts env args)
  | .param id => ((env.params[id]?).map ParamDef.text).getD "invalid type"
  | .pointer a => "*" ++ text env a
  | .slice a => "[]" ++ text env a
  | .array n a => "[" ++ n.repr ++ "]" ++ text env a
  | .map k a => "map[" ++ text env k ++ "]" ++ text env a
  | .chan .both (.chan .receive a) => "chan (<-chan " ++ text env a ++ ")"
  | .chan .both a => "chan " ++ text env a
  | .chan .send a => "chan<- " ++ text env a
  | .chan .receive a => "<-chan " ++ text env a
  | .struct labels ts =>
    "struct\x7b" ++ "; ".intercalate (labels.zipWith FieldLabel.text (texts env ts)) ++ "\x7d"
  | .func pn rn ps rs variadic =>
    "func" ++ signatureText pn rn (texts env ps) (texts env rs) variadic
  | .interface names ms es implicit =>
    let methods := names.zipWith methodText (texts env ms)
    let embeds := texts env es
    if implicit && methods.isEmpty && embeds.length == 1 then
      String.join embeds
    else
      "interface\x7b" ++ "; ".intercalate (methods ++ embeds) ++ "\x7d"
  | .union tildes ts =>
    " | ".intercalate
      (tildes.zipWith (fun tilde t => if tilde then "~" ++ t else t) (texts env ts))
  | .tuple ts => "(" ++ ", ".intercalate (texts env ts) ++ ")"
  | .alias name args _ => name ++ argumentText (texts env args)

/-- How types are written. -/
def texts (env : TypeEnv) : List Ty → List String
  | [] => []
  | t :: ts => text env t :: texts env ts

end

end TypeEnv
end Source
end WordRanges
