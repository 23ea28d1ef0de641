import WordRanges.Source.Tree

/-!
# Nodes of a source tree

A uniform view of source trees: every expression, statement, declaration, field and name is
a node with its kind, its place and its children in the order in which they are visited.

Main definitions:

- {lit}`Node`: nodes.
- {lit}`SourceUnit.node`: the nodes of a file.
- {lit}`Node.visit`: all nodes, each before its children.
-/

namespace WordRanges
namespace Source

/-- A node of a source tree. -/
inductive Node where
  /-- A node; {lit}`heavy` tells a file, field, declaration or statement from an expression,
  and {lit}`binary?` holds the parts of a binary operation. -/
  | mk (kind : String) (span : Span) (heavy : Bool) (binary? : Option (Token × Exp × Exp))
      (children : List Node)

namespace Node

/-- The kind of a node. -/
def kind : Node → String
  | .mk k _ _ _ _ => k

/-- Where a node stands. -/
def span : Node → Span
  | .mk _ s _ _ _ => s

/-- A node that is a file, field, declaration or statement. -/
def heavy : Node → Bool
  | .mk _ _ h _ _ => h

/-- The parts of a binary operation. -/
def binary? : Node → Option (Token × Exp × Exp)
  | .mk _ _ _ b _ => b

/-- A node of an expression. -/
def light (kind : String) (span : Span) (children : List Node) : Node :=
  .mk kind span false none children

/-- A node of a statement or declaration. -/
def major (kind : String) (span : Span) (children : List Node) : Node :=
  .mk kind span true none children

/-- The node of a name. -/
def ofIdent (id : Ident) : Node :=
  light "Ident" id.span []

/-- The nodes of an optional name. -/
def ofIdent? (id? : Option Ident) : List Node :=
  (id?.map ofIdent).toList

/-- The node of a literal at a place. -/
def ofLiteral (span : Span) : Node :=
  light "BasicLit" span []

mutual

/-- A node and all nodes below it, each before its children. -/
def visit : Node → List Node
  | .mk k s h b children => .mk k s h b children :: visitAll children

/-- Nodes and all nodes below them. -/
def visitAll : List Node → List Node
  | [] => []
  | n :: ns => n.visit ++ visitAll ns

end

end Node

mutual

/-- The node of an expression. -/
def Exp.node : Exp → Node
  | .ident id => .ofIdent id
  | .literal s _ _ => .ofLiteral s
  | .composite s t es => .light "CompositeLit" s (Exp.nodes? t ++ Exp.nodes es)
  | .funcLit s t b => .light "FuncLit" s [t.node, b.node]
  | .paren s x => .light "ParenExpr" s [x.node]
  | .selector s x id => .light "SelectorExpr" s [x.node, .ofIdent id]
  | .index s x is =>
    .light (if is.length = 1 then "IndexExpr" else "IndexListExpr") s (x.node :: Exp.nodes is)
  | .slice s x lo hi max =>
    .light "SliceExpr" s (x.node :: (Exp.nodes? lo ++ Exp.nodes? hi ++ Exp.nodes? max))
  | .typeAssert s x t => .light "TypeAssertExpr" s (x.node :: Exp.nodes? t)
  | .call s f as _ => .light "CallExpr" s (f.node :: Exp.nodes as)
  | .star s x => .light "StarExpr" s [x.node]
  | .unary s _ x => .light "UnaryExpr" s [x.node]
  | .binary s op x y => .mk "BinaryExpr" s false (some (op, x, y)) [x.node, y.node]
  | .keyValue s k v => .light "KeyValueExpr" s [k.node, v.node]
  | .ellipsis s t => .light "Ellipsis" s (Exp.nodes? t)
  | .array s n t => .light "ArrayType" s (Exp.nodes? n ++ [t.node])
  | .struct s fs => .light "StructType" s [fs.node]
  | .func s tps ps rs =>
    .light "FuncType" s (FieldList.nodes? tps ++ [ps.node] ++ FieldList.nodes? rs)
  | .interface s fs => .light "InterfaceType" s [fs.node]
  | .map s k v => .light "MapType" s [k.node, v.node]
  | .chan s _ t => .light "ChanType" s [t.node]

/-- The nodes of expressions. -/
def Exp.nodes : List Exp → List Node
  | [] => []
  | x :: xs => x.node :: Exp.nodes xs

/-- The nodes of an optional expression. -/
def Exp.nodes? : Option Exp → List Node
  | none => []
  | some x => [x.node]

/-- The node of a list of fields. -/
def FieldList.node : FieldList → Node
  | .mk s fs => .light "FieldList" s (Field.nodes fs)

/-- The nodes of an optional list of fields. -/
def FieldList.nodes? : Option FieldList → List Node
  | none => []
  | some fs => [fs.node]

/-- The node of a field. -/
def Field.node : Field → Node
  | .mk s names t tag? =>
    let tag := (tag?.map fun tag => Node.ofLiteral tag.span).toList
    .major "Field" s (names.map Node.ofIdent ++ [t.node] ++ tag)

/-- The nodes of fields. -/
def Field.nodes : List Field → List Node
  | [] => []
  | f :: fs => f.node :: Field.nodes fs

/-- The node of a statement. -/
def Stm.node : Stm → Node
  | .empty s => .major "EmptyStmt" s []
  | .exp x => .major "ExprStmt" x.span [x.node]
  | .labeled s id b => .major "LabeledStmt" s [.ofIdent id, b.node]
  | .send s x y => .major "SendStmt" s [x.node, y.node]
  | .incDec s _ x => .major "IncDecStmt" s [x.node]
  | .assign s _ xs ys => .major "AssignStmt" s (Exp.nodes xs ++ Exp.nodes ys)
  | .goCall s x => .major "GoStmt" s [x.node]
  | .deferCall s x => .major "DeferStmt" s [x.node]
  | .returns s xs => .major "ReturnStmt" s (Exp.nodes xs)
  | .branch s _ id => .major "BranchStmt" s (Node.ofIdent? id)
  | .block b => b.node
  | .ifElse s init c b e =>
    .major "IfStmt" s (Stm.nodes? init ++ [c.node, b.node] ++ Stm.nodes? e)
  | .switch s init tag body cs =>
    .major "SwitchStmt" s
      (Stm.nodes? init ++ Exp.nodes? tag ++ [.major "BlockStmt" body (Clause.nodes cs)])
  | .typeSwitch s init g body cs =>
    .major "TypeSwitchStmt" s
      (Stm.nodes? init ++ [g.node, .major "BlockStmt" body (Clause.nodes cs)])
  | .select s body cs => .major "SelectStmt" s [.major "BlockStmt" body (CommClause.nodes cs)]
  | .loop s init c post b =>
    .major "ForStmt" s (Stm.nodes? init ++ Exp.nodes? c ++ Stm.nodes? post ++ [b.node])
  | .range s k v _ x b =>
    .major "RangeStmt" s (Exp.nodes? k ++ Exp.nodes? v ++ [x.node, b.node])
  | .decl d => .major "DeclStmt" d.span [d.node]

/-- The nodes of statements. -/
def Stm.nodes : List Stm → List Node
  | [] => []
  | s :: ss => s.node :: Stm.nodes ss

/-- The nodes of an optional statement. -/
def Stm.nodes? : Option Stm → List Node
  | none => []
  | some s => [s.node]

/-- The node of a block. -/
def Block.node : Block → Node
  | .mk s body => .major "BlockStmt" s (Stm.nodes body)

/-- The nodes of an optional block. -/
def Block.nodes? : Option Block → List Node
  | none => []
  | some b => [b.node]

/-- The node of a clause of a switch. -/
def Clause.node : Clause → Node
  | .mk s _ cases body => .major "CaseClause" s (Exp.nodes cases ++ Stm.nodes body)

/-- The nodes of clauses of a switch. -/
def Clause.nodes : List Clause → List Node
  | [] => []
  | c :: cs => c.node :: Clause.nodes cs

/-- The node of a clause of a select. -/
def CommClause.node : CommClause → Node
  | .mk s comm body => .major "CommClause" s (Stm.nodes? comm ++ Stm.nodes body)

/-- The nodes of clauses of a select. -/
def CommClause.nodes : List CommClause → List Node
  | [] => []
  | c :: cs => c.node :: CommClause.nodes cs

/-- The node of a declaration. -/
def Decl.node : Decl → Node
  | .general s _ specs => .major "GenDecl" s (Spec.nodes specs)
  | .func s recv name sig body =>
    .major "FuncDecl" s (FieldList.nodes? recv ++ [.ofIdent name, sig.node] ++ Block.nodes? body)

/-- The nodes of declarations. -/
def Decl.nodes : List Decl → List Node
  | [] => []
  | d :: ds => d.node :: Decl.nodes ds

/-- The node of a part of a declaration. -/
def Spec.node : Spec → Node
  | .imports s name path => .major "ImportSpec" s (Node.ofIdent? name ++ [.ofLiteral path])
  | .value s names t vs =>
    .major "ValueSpec" s (names.map Node.ofIdent ++ Exp.nodes? t ++ Exp.nodes vs)
  | .type s name tps _ t =>
    .major "TypeSpec" s ([.ofIdent name] ++ FieldList.nodes? tps ++ [t.node])

/-- The nodes of the parts of a declaration. -/
def Spec.nodes : List Spec → List Node
  | [] => []
  | s :: ss => s.node :: Spec.nodes ss

end

/-- The node of a file. -/
def SourceUnit.node (u : SourceUnit) : Node :=
  .major "File" u.span (.ofIdent u.package :: Decl.nodes u.decls)

end Source
end WordRanges
