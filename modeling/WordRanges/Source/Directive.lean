import WordRanges.Source.BuildCondition
import WordRanges.Source.Comment
import WordRanges.Source.Parser.Decl

/-!
# Files, directives and generated files

A source file is read into its tree and its comments.  Comments of the form
{lit}`//rangecheck:command arguments` are directives about the node that they belong to, and
some comments mark a whole file as generated.

Main definitions:

- {lit}`SourceCode`, {lit}`SourceCode.read?`: a file that has been read.
- {lit}`readDirective`: the command and the arguments of a comment.
- {lit}`SourceCode.directives`: the directives of a file.
- {lit}`SourceCode.isGenerated`: the file was written by a program.
-/

namespace WordRanges
namespace Source

/-- A file that has been read. -/
structure SourceCode where
  file : SourceFile
  unit : SourceUnit
  groups : List CommentGroup
  /-- The number of its lexemes. -/
  size : Nat

/-- The comments of a file. -/
def SourceCode.comments (s : SourceCode) : List Comment :=
  s.groups.flatMap (·.comments)

/-- The version of the language that the last condition before the package clause tells. -/
def SourceCode.version? (s : SourceCode) : Option Nat := do
  let before := s.comments.filter fun c => c.pos < s.unit.span.start
  let condition ← (before.filterMap fun c => BuildCondition.read? c.text).getLast?
  condition.version?

/-- Read a file whose positions start at a base; nothing if it is malformed. -/
def SourceCode.read? (name : String) (base : Nat) (text : String) : Option SourceCode := do
  let (lexemes, marks) ← lex? name base text
  let size := text.utf8ByteSize
  let file : SourceFile := ⟨name, base, size, lineStarts text.toList size, marks⟩
  let unit ← Parser.parse? lexemes
  let code : SourceCode := ⟨file, unit, commentGroups file lexemes, lexemes.length⟩
  return { code with unit := { unit with version? := code.version? } }

/-! ## Directives -/

/-- What directives start with. -/
def directiveStart : String := "//rangecheck:"

/-- The command and the arguments of a comment; nothing if it is no directive. -/
def readDirective (text : String) : Option (String × List String) :=
  match Text.afterStart? directiveStart.toList text.toList with
  | none => none
  | some cs =>
    match Text.fields (String.ofList cs) with
    | [] => none
    | command :: arguments => some (command, arguments)

/-- A directive about a node. -/
structure Directive where
  command : String
  arguments : List String
  comment : Comment
  node : Node

/-- A position lies in the node that the directive is about. -/
def Directive.covers (d : Directive) (pos : Nat) : Bool :=
  d.node.span.start ≤ pos && pos < d.node.span.stop

/-- The directives of a file, in order. -/
def SourceCode.directives (s : SourceCode) : List Directive :=
  (associate s.file s.unit s.groups).flatMap fun a =>
    a.group.comments.filterMap fun c =>
      (readDirective c.text).map fun (command, arguments) => ⟨command, arguments, c, a.node⟩

/-! ## Generated files -/

/-- A line that marks a file as generated: a beginning and an end that do not overlap. -/
def isGeneratedLine (line : List Char) : Bool :=
  match Text.afterStart? "// Code generated ".toList line with
  | some rest => (Text.afterStart? " DO NOT EDIT.".toList.reverse rest.reverse).isSome
  | none => false

/-- The comment that marked generated files before there was a common form for it. -/
def oldGeneratedMark : String := "// Created by cgo - DO NOT EDIT"

/-- The file was written by a program: a line of a comment before the package clause says
so, or any comment says so in the old form. -/
def SourceCode.isGenerated (s : SourceCode) : Bool :=
  s.comments.any fun c =>
    (c.pos ≤ s.unit.span.start && (Text.splitAll '\n' c.text.toList).any isGeneratedLine)
      || String.ofList (Text.dropFinal '\r' c.text.toList) == oldGeneratedMark

end Source
end WordRanges
