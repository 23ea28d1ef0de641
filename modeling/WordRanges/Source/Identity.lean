import WordRanges.Source.Comparable

/-!
# Identity of types

Two types are identical if they are written alike; only interfaces can be written in
several ways.  What counts for them are their methods, with those of the interfaces that
they embed, and their types.  An interface may occur in its own methods; then it is
compared with the same other interface only once.

Main definitions:

- {lit}`TypeEnv.methodsOf`: the methods of an interface.
- {lit}`TypeEnv.same`: type identity.
- {lit}`TypeEnv.sameUntagged`: type identity up to the tags of fields.
-/

namespace WordRanges
namespace Source
namespace TypeEnv

/-! ## Interfaces -/

/-- The methods of an interface with those of the interfaces that it embeds; {lit}`fuel` bounds
the length of the way through declarations. -/
def methodsWithin (env : TypeEnv) : Nat → Ty → List (String × Ty)
  | 0, _ => []
  | fuel + 1, t =>
    match env.under t with
    | .interface names methods embeds _ =>
      names.zip methods ++ embeds.flatMap (env.methodsWithin fuel)
    | _ => []

/-- The methods of an interface or of the constraint of a type parameter. -/
def methodsOf (env : TypeEnv) (t : Ty) : List (String × Ty) :=
  env.methodsWithin env.embedDepth t

/-- The methods of an interface, one for each name and ordered by name. -/
def methodTable (env : TypeEnv) (t : Ty) : List (String × Ty) :=
  ((env.methodsOf t).mergeSort fun a b => a.1 ≤ b.1).eraseDupsBy fun a b => a.1 == b.1

/-- Two interfaces have the same types, and both or neither demand that values can be compared. -/
def sameTypes (env : TypeEnv) (a b : Ty) : Bool :=
  env.isComparableSet a == env.isComparableSet b &&
    (match env.typeSet? a, env.typeSet? b with
      | some xs, some ys => xs.same env ys
      | none, none => true
      | _, _ => false)

/-! ## Identity -/

/-- Two types are identical.  The tags of fields count if {lit}`tags`; {lit}`met` are the pairs of
interfaces that are being compared, and {lit}`fuel` bounds the depth. -/
def sameWithin (env : TypeEnv) : Nat → Bool → List (Ty × Ty) → Ty → Ty → Bool
  | 0, _, _, _, _ => false
  | fuel + 1, tags, met, a, b =>
    let all (xs ys : List Ty) : Bool :=
      xs.length == ys.length && (xs.zip ys).all fun p => env.sameWithin fuel tags met p.1 p.2
    match a.unalias, b.unalias with
    | .basic x, .basic y => x.canonical == y.canonical
    | .named m xs, .named n ys =>
      m == n && xs.length == ys.length &&
        (xs.zip ys).all fun p => env.sameWithin fuel true met p.1 p.2
    | .param m, .param n => m == n
    | .pointer x, .pointer y => env.sameWithin fuel tags met x y
    | .slice x, .slice y => env.sameWithin fuel tags met x y
    | .array m x, .array n y => m == n && env.sameWithin fuel tags met x y
    | .map k x, .map l y => all [k, x] [l, y]
    | .chan d x, .chan e y => d == e && env.sameWithin fuel tags met x y
    | .struct ms xs, .struct ns ys =>
      let seen (ls : List FieldLabel) := if tags then ls else ls.map FieldLabel.untagged
      seen ms == seen ns && all xs ys
    | .func _ _ ps rs v, .func _ _ qs ss w => v == w && all ps qs && all rs ss
    | .interface ms xs es i, .interface ns ys fs j =>
      let a := Ty.interface ms xs es i
      let b := Ty.interface ns ys fs j
      let xs := env.methodTable a
      let ys := env.methodTable b
      (met.any fun p => p.1.alike a && p.2.alike b) ||
        (env.sameTypes a b && xs.map (·.1) == ys.map (·.1) &&
          (xs.zip ys).all fun p => env.sameWithin fuel tags ((a, b) :: met) p.1.2 p.2.2)
    | .union ms xs, .union ns ys => ms == ns && all xs ys
    | .tuple xs, .tuple ys => all xs ys
    | _, _ => false

/-- Two types are identical. -/
def same (env : TypeEnv) (a b : Ty) : Bool :=
  a.alike b || env.sameWithin (env.depth a + env.depth b + 1) true [] a b

/-- Two types are identical if the tags of fields do not count. -/
def sameUntagged (env : TypeEnv) (a b : Ty) : Bool :=
  a.alike b || env.sameWithin (env.depth a + env.depth b + 1) false [] a b

end TypeEnv
end Source
end WordRanges
