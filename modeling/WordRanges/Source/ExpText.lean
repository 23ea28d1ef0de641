import WordRanges.Source.Tree

/-!
# The text of expressions

Expressions written on one line, with blanks around every binary operator.  The elements of
composite literals and the bodies of function literals are left out.

Main definitions:

- {lit}`Exp.text`: the text of an expression.
-/

namespace WordRanges
namespace Source

/-- How a channel type begins. -/
def ChanDir.text : ChanDir → String
  | .both => "chan "
  | .send => "chan<- "
  | .receive => "<-chan "

mutual

/-- The text of an expression. -/
def Exp.text : Exp → String
  | .ident id => id.name
  | .literal _ _ text => text
  | .composite _ type? elems =>
    Exp.text? type? ++ "\x7b" ++ (if elems.isEmpty then "" else "…") ++ "\x7d"
  | .funcLit _ signature _ => "(" ++ signature.text ++ " literal)"
  | .paren _ x => "(" ++ x.text ++ ")"
  | .selector _ x name => x.text ++ "." ++ name.name
  | .index _ x indices => x.text ++ "[" ++ Exp.commaText indices ++ "]"
  | .slice _ x lo? hi? none => x.text ++ "[" ++ Exp.text? lo? ++ ":" ++ Exp.text? hi? ++ "]"
  | .slice _ x lo? hi? (some max) =>
    x.text ++ "[" ++ Exp.text? lo? ++ ":" ++ Exp.text? hi? ++ ":" ++ max.text ++ "]"
  | .typeAssert _ x type? => x.text ++ ".(" ++ Exp.text? type? ++ ")"
  | .call _ fn args spread =>
    fn.text ++ "(" ++ Exp.commaText args ++ (if spread then "...)" else ")")
  | .star _ x => "*" ++ x.text
  | .unary _ op x => op.text ++ x.text
  | .binary _ op x y => x.text ++ " " ++ op.text ++ " " ++ y.text
  | .keyValue _ key value => key.text ++ ": " ++ value.text
  | .ellipsis _ elem? => "..." ++ Exp.text? elem?
  | .array _ length? elem => "[" ++ Exp.text? length? ++ "]" ++ elem.text
  | .struct _ fields => "struct\x7b" ++ fields.text "; " ++ "\x7d"
  | .func _ _ params results? =>
    "func(" ++ params.text ", " ++ ")" ++ FieldList.resultText? results?
  | .interface _ elems => "interface\x7b" ++ elems.elementText ++ "\x7d"
  | .map _ key value => "map[" ++ key.text ++ "]" ++ value.text
  | .chan _ dir elem => dir.text ++ elem.text

/-- The text of expressions between commas. -/
def Exp.commaText : List Exp → String
  | [] => ""
  | [x] => x.text
  | x :: xs => x.text ++ ", " ++ Exp.commaText xs

/-- The text of an expression that may be missing. -/
def Exp.text? : Option Exp → String
  | none => ""
  | some x => x.text

/-- The text of results after a blank; a single result without a name needs no parentheses. -/
def FieldList.resultText? : Option FieldList → String
  | none => ""
  | some (.mk _ []) => ""
  | some (.mk _ [.mk _ [] type _]) => " " ++ type.text
  | some (.mk _ fields) => " (" ++ Field.texts ", " fields ++ ")"

/-- The text of fields between separators. -/
def FieldList.text (sep : String) : FieldList → String
  | .mk _ fields => Field.texts sep fields

/-- The text of the elements of an interface. -/
def FieldList.elementText : FieldList → String
  | .mk _ fields => Field.elementTexts fields

/-- The text of fields between separators. -/
def Field.texts (sep : String) : List Field → String
  | [] => ""
  | [f] => f.text
  | f :: fs => f.text ++ sep ++ Field.texts sep fs

/-- The text of a field. -/
def Field.text : Field → String
  | .mk _ names type _ =>
    ", ".intercalate (names.map Ident.name) ++ (if names.isEmpty then "" else " ") ++ type.text

/-- The text of the elements of an interface. -/
def Field.elementTexts : List Field → String
  | [] => ""
  | [f] => f.elementText
  | f :: fs => f.elementText ++ "; " ++ Field.elementTexts fs

/-- The text of an element of an interface; a method is written without the word that begins a
function type. -/
def Field.elementText : Field → String
  | .mk _ names (.func _ _ params results?) _ =>
    ", ".intercalate (names.map Ident.name) ++ "(" ++ params.text ", " ++ ")"
      ++ FieldList.resultText? results?
  | .mk _ names type _ =>
    ", ".intercalate (names.map Ident.name) ++ (if names.isEmpty then "" else " ") ++ type.text

end

end Source
end WordRanges
