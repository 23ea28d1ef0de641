import WordRanges.Source.Lexer
import WordRanges.Source.Node

/-!
# Comments and the nodes that they belong to

Comments that follow each other closely form a group.  A group belongs to the declaration,
statement or field before it if it starts on the line where that ends, or on the next line
with an empty line before the next node.  Otherwise it belongs to the most recent node in
the same way, or to all that is before it at the end of a file, and else to the node after
it.

Main definitions:

- {lit}`commentGroups`: the groups of a file.
- {lit}`Association`, {lit}`associate`: groups with the nodes that they belong to.
-/

namespace WordRanges
namespace Source

/-- A comment at its place. -/
structure Comment where
  pos : Nat
  text : String
deriving DecidableEq, Repr, Inhabited

/-- Where a comment ends. -/
def Comment.stop (c : Comment) : Nat :=
  c.pos + c.text.utf8ByteSize

/-- Comments that follow each other closely, at least one. -/
structure CommentGroup where
  first : Comment
  others : List Comment
deriving Repr, Inhabited

namespace CommentGroup

/-- The comments of a group. -/
def comments (g : CommentGroup) : List Comment :=
  g.first :: g.others

/-- Where a group stands. -/
def span (g : CommentGroup) : Span :=
  ⟨g.first.pos, (g.others.getLastD g.first).stop⟩

end CommentGroup

/-! ## Groups -/

/-- The line on which a comment ends. -/
def commentEnd (f : SourceFile) (c : Comment) : Nat :=
  let newlines := if "/*".toList.isPrefixOf c.text.toList then c.text.toList.count '\n' else 0
  f.markedLine c.pos + newlines

/-- The comments that join a group which ends on a line: each starts at most {lit}`gap` lines
after the end of the one before. -/
def takeGroup (f : SourceFile) (gap endLine : Nat) : List Comment → List Comment × List Comment
  | [] => ([], [])
  | c :: cs =>
    if f.markedLine c.pos ≤ endLine + gap then
      let (group, rest) := takeGroup f gap (commentEnd f c) cs
      (c :: group, rest)
    else ([], c :: cs)

/-- Taking a group leaves no more comments. -/
theorem length_takeGroup_le (f : SourceFile) (gap endLine : Nat) (cs : List Comment) :
    (takeGroup f gap endLine cs).2.length ≤ cs.length := by
  induction cs generalizing endLine with
  | nil => simp [takeGroup]
  | cons c cs ih =>
    unfold takeGroup
    split
    · exact Nat.le_succ_of_le (ih _)
    · exact Nat.le_refl _

/-- The groups of comments with no other lexeme between them; a group goes on on the next
line. -/
def groupRun (f : SourceFile) : List Comment → List CommentGroup
  | [] => []
  | c :: cs =>
    have := length_takeGroup_le f 1 (commentEnd f c) cs
    ⟨c, (takeGroup f 1 (commentEnd f c) cs).1⟩
      :: groupRun f (takeGroup f 1 (commentEnd f c) cs).2
termination_by cs => cs.length

/-- The groups of comments after a lexeme: comments on its line are a group of their own. -/
def groupsAfter (f : SourceFile) (before : Option Lexeme) (cs : List Comment) : List CommentGroup :=
  match before, cs with
  | some l, c :: rest =>
    if f.markedLine c.pos = f.markedLine l.pos then
      let (group, rest) := takeGroup f 0 (commentEnd f c) rest
      ⟨c, group⟩ :: groupRun f rest
    else groupRun f cs
  | _, _ => groupRun f cs

/-- The groups of the comments among lexemes; {lit}`run` holds the comments since the lexeme
{lit}`before`, the last one first. -/
def groupsFrom (f : SourceFile) (before : Option Lexeme) (run : List Comment) :
    List Lexeme → List CommentGroup
  | [] => groupsAfter f before run.reverse
  | l :: ls =>
    if l.token = .comment then groupsFrom f before (⟨l.pos, l.text⟩ :: run) ls
    else groupsAfter f before run.reverse ++ groupsFrom f (some l) [] ls

/-- The groups of comments of a file, in order. -/
def commentGroups (f : SourceFile) (lexemes : List Lexeme) : List CommentGroup :=
  groupsFrom f none [] lexemes

/-! ## Association -/

/-- A group with the node that it belongs to. -/
structure Association where
  node : Node
  group : CommentGroup

/-- The state of association while the nodes are visited. -/
structure Placing where
  file : SourceFile
  /-- The node visited last. -/
  last : Option Node
  /-- The declaration, statement or field that ended last. -/
  ended : Option Node
  /-- Declarations, statements and fields that have not ended, the innermost first. -/
  open_ : List Node
  /-- The groups that are still to be placed. -/
  groups : List CommentGroup
  /-- The groups placed so far, the last one first. -/
  placed : List Association

namespace Placing

/-- Close all nodes that end at or before a position; the last one closed is returned. -/
def close (pos : Nat) : List Node → Option Node × List Node
  | [] => (none, [])
  | n :: ns =>
    if n.span.stop ≤ pos then
      let (top, rest) := close pos ns
      (top.or (some n), rest)
    else (none, n :: ns)

/-- A group belongs to a node before it: it starts on the line where the node ends, or on the
next one with an empty line before the next node, which is absent at the end of the file. -/
def follows (f : SourceFile) (node : Node) (group : CommentGroup) (next : Option Node) : Bool :=
  let ends := f.markedLine node.span.stop
  let starts := f.markedLine group.span.start
  ends == starts
    || (ends + 1 == starts
      && match next with
        | none => true
        | some n => f.markedLine group.span.stop + 1 < f.markedLine n.span.start)

/-- The node that a group belongs to, given the node after it. -/
def owner? (p : Placing) (group : CommentGroup) (next : Option Node) : Option Node :=
  match p.ended with
  | some n => if follows p.file n group next then some n else fallback
  | none => fallback
where
  fallback : Option Node :=
    match p.last with
    | some n => if next.isNone || follows p.file n group next then some n else next
    | none => next

/-- Place one group before the next node. -/
def place (p : Placing) (group : CommentGroup) (next : Option Node) : Placing :=
  let (top, rest) := close group.span.start p.open_
  let p := { p with ended := top.or p.ended, open_ := rest }
  match p.owner? group next with
  | some n => { p with placed := ⟨n, group⟩ :: p.placed }
  | none => p

/-- Place all groups that end before the next node. -/
def placeBefore (p : Placing) (next : Option Node) : List CommentGroup → Placing
  | [] => { p with groups := [] }
  | g :: gs =>
    let before := match next with
      | none => true
      | some n => decide (g.span.stop ≤ n.span.start)
    if before then placeBefore (p.place g next) next gs
    else { p with groups := g :: gs }

/-- Visit a node: place the groups before it, then remember it. -/
def visit (p : Placing) (n : Node) : Placing :=
  let p := p.placeBefore (some n) p.groups
  let open_ := if n.heavy then n :: (close n.span.start p.open_).2 else p.open_
  { p with last := some n, open_ }

end Placing

/-- The groups of a file with the nodes that they belong to, in order. -/
def associate (f : SourceFile) (unit : SourceUnit) (groups : List CommentGroup) :
    List Association :=
  let start : Placing := ⟨f, none, none, [], groups, []⟩
  let visited := unit.node.visit.foldl Placing.visit start
  (visited.placeBefore none visited.groups).placed.reverse

end Source
end WordRanges
