/-!
# Tables of a configuration document

A configuration document is a tree of tables.  While a document is read, a name may be
given a value once; a table that is only implied by a longer name may still be defined,
and a name that holds an array may be given another value.

Main definitions:

- {lit}`Toml.Item`, {lit}`Toml.Table`: the contents of a document.
- {lit}`Toml.find?`: what a path of names leads to.
- {lit}`Toml.Draft`: a document under construction.
- {lit}`Toml.Draft.set?`, {lit}`Toml.Draft.enter?`: give a name a value, open a table.
-/

namespace WordRanges
namespace Toml

/-- What a name in a document stands for. -/
inductive Item where
  | integer (n : Int)
  | float
  | boolean (b : Bool)
  | text
  | datetime
  | array
  | table (entries : List (String × Item))
  /-- A table that is given several times, the latest one last. -/
  | tables (elements : List (List (String × Item)))
deriving Repr, Inhabited

/-- Names with what they stand for. -/
abbrev Table := List (String × Item)

/-- The table with one entry replaced, or added at the end. -/
def put (name : String) (item : Item) : Table → Table
  | [] => [(name, item)]
  | (n, i) :: rest => if n = name then (n, item) :: rest else (n, i) :: put name item rest

/-- What a path of names leads to. -/
def find? (t : Table) : List String → Option Item
  | [] => some (.table t)
  | name :: names =>
    match t.lookup name with
    | none => none
    | some (.table u) => find? u names
    | some item => if names.isEmpty then some item else none

/-- Change the table at the end of a path; of a table that is given several times the
latest one is meant. -/
def changeAt? (change : Table → Option Table) : List String → Table → Option Table
  | [], t => change t
  | name :: names, t =>
    match t.lookup name with
    | some (.table u) => (changeAt? change names u).map fun u => put name (.table u) t
    | some (.tables us) => do
      let last ← us.getLast?
      let last ← changeAt? change names last
      return put name (.tables (us.dropLast ++ [last])) t
    | _ => none

/-- The table at the end of a path. -/
def tableAt? : List String → Table → Option Table
  | [], t => some t
  | name :: names, t =>
    match t.lookup name with
    | some (.table u) => tableAt? names u
    | some (.tables us) => us.getLast?.bind (tableAt? names)
    | _ => none

/-- A document under construction. -/
structure Draft where
  table : Table
  /-- The path of the open table. -/
  context : List String
  /-- The tables that are only implied by longer names. -/
  implied : List String
  /-- The names whose value is an array, or is about to be one. -/
  arrays : List String

namespace Draft

/-- A document without any name. -/
def empty : Draft := ⟨[], [], [], []⟩

/-- The spelling of a path. -/
def spelling (path : List String) : String :=
  ".".intercalate path

/-- The draft where a path counts as implied. -/
def imply (path : List String) (d : Draft) : Draft :=
  { d with implied := spelling path :: d.implied }

/-- The draft where a path counts as defined. -/
def define (path : List String) (d : Draft) : Draft :=
  { d with implied := d.implied.filter (· != spelling path) }

/-- The draft where a name in the open table counts as an array, or not; the empty name stands for
the open table itself. -/
def markArray (name : String) (isArray : Bool) (d : Draft) : Draft :=
  let path := spelling (if name.isEmpty then d.context else d.context ++ [name])
  let others := d.arrays.filter (· != path)
  { d with arrays := if isArray then path :: others else others }

/-- Give a name in the open table a value.  An array is replaced, a table that was only
implied stays and counts as defined, and any other name must be new. -/
def set? (name : String) (item : Item) (d : Draft) : Option Draft := do
  let path := d.context ++ [name]
  let t ← tableAt? d.context d.table
  let isNew := (t.lookup name).isNone
  if isNew || d.arrays.contains (spelling path) then
    let table ← changeAt? (fun t => some (put name item t)) d.context d.table
    let d := { d with table }
    return if isNew then d else d.define path
  else if d.implied.contains (spelling path) then
    return d.define path
  else
    none

/-- Make the tables on the way from {lit}`done` along a path, except for its last name. -/
def implyParents? (done : List String) : List String → Draft → Option Draft
  | [], d => some d
  | [_], d => some d
  | name :: names, d => do
    let t ← tableAt? done d.table
    let d ← match t.lookup name with
      | none => do
        let table ← changeAt? (fun t => some (put name (.table []) t)) done d.table
        some ({ d with table }.imply (done ++ [name]))
      | some (.table _) => some d
      | some (.tables _) => some d
      | some _ => none
    implyParents? (done ++ [name]) names d

/-- Open the table at a path. -/
def enter? (path : List String) (d : Draft) : Option Draft := do
  let d ← d.implyParents? [] path
  let d ← { d with context := path.dropLast }.set? (path.getLastD "") (.table [])
  return { d with context := path }

/-- Open one more table at a path that is given several times. -/
def enterNext? (path : List String) (d : Draft) : Option Draft := do
  let d ← d.implyParents? [] path
  let name := path.getLastD ""
  let table ← changeAt? (fun t =>
    match t.lookup name with
    | none => some (put name (.tables [[]]) t)
    | some (.tables us) => some (put name (.tables (us ++ [[]])) t)
    | some _ => none) path.dropLast d.table
  return { d with table, context := path }

/-- Open the tables that the leading names of a dotted name imply, one inside the other. -/
def enterImplied? (names : List String) (d : Draft) : Option Draft :=
  names.foldlM (fun d name =>
    let path := d.context ++ [name]
    (d.imply path).enter? path) d

end Draft
end Toml
end WordRanges
