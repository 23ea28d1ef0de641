import WordRanges.Flow.Framework
import WordRanges.Flow.States
import WordRanges.Text.Quoted

/-!
# Diagrams of solved graphs

The picture of a data-flow graph in the language of Graphviz: a box for each transfer
node and a diamond for each merge node, labelled with their states, and an edge for each
input.

Main definitions:

- {lit}`Graph.diagram`: the picture of a graph with states.
-/

namespace WordRanges
namespace Flow

variable {σ : Type}

/-- The label of a node: its name and its state. -/
def Node.label (show_ : σ → String) (n : Node σ) (state : Option σ) : String :=
  n.name ++ " = " ++ (state.map show_).getD bottom

/-- The shape of a node. -/
def Node.shape (n : Node σ) : String :=
  if n.rule.isMerge then "diamond" else "box"

/-- The line that draws a node. -/
def nodeLine (show_ : σ → String) (states : States σ) (n : Node σ) (id : NodeId) : String :=
  "n" ++ id.repr ++ " [label=" ++ Text.quoted (n.label show_ (stateAt states id)) ++ " shape="
    ++ n.shape ++ "]\n"

/-- The lines that draw the inputs of a node. -/
def edgeLines (n : Node σ) (id : NodeId) : String :=
  String.join (n.inputs.map fun input => "n" ++ input.repr ++ " -> n" ++ id.repr ++ "\n")

/-- The picture of a graph whose nodes have the given states. -/
def Graph.diagram (show_ : σ → String) (g : Graph σ) (states : States σ) : String :=
  "digraph\x7b\n"
    ++ String.join (g.nodes.toList.zipIdx.map fun (n, id) => nodeLine show_ states n id)
    ++ String.join (g.nodes.toList.zipIdx.map fun (n, id) => edgeLines n id) ++ "\x7d"

end Flow
end WordRanges
