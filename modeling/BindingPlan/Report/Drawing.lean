import BindingPlan.Graph.Seal

/-!
# Drawings of graphs

A graph in the DOT language. Every node is labelled with its key and, once the graph is sealed, with
its flags. Conditionals are diamonds, names are boxes, literals are bare text, and all else is an
ellipse. Roots of bindings have a double outline, and constant nodes are grey.

An open graph shows the edges to children, a sealed one those to dependencies: mandatory ones are
bold, and guarded ones are dashed and labelled with their guard.
-/

namespace BindingPlan
namespace Drawing

/-- A text with every occurrence of a character replaced. -/
def replaceChar (c : Char) (replacement text : List Char) : List Char :=
  text.flatMap fun d => if d = c then replacement else [d]

/-- A text as it stands between quote marks (`escape`). Backslashes are doubled first, since the
escapes of quote marks and line ends bring in more of them. -/
def escape (text : String) : String :=
  let backslashes := replaceChar '\\' ['\\', '\\'] text.toList
  let quotes := replaceChar '"' ['\\', '"'] backslashes
  String.ofList (replaceChar '\n' ['\\', 'n'] quotes)

/-- The name of a node inside the drawing. -/
def name (id : Nat) : String :=
  "e" ++ toString id

/-- A branch in one letter. -/
def letter (branch : Bool) : String :=
  if branch then "T" else "F"

end Drawing

def Kind.shape : Kind → String
  | .ternary | .binary (.logical _) => "diamond"
  | .identifier _ | .classRef _ _ => "box"
  | .symbol _ _ => "plaintext"
  | _ => "ellipse"

/-- The properties of a node behind its label (`node_attrs`). -/
def Node.attributes (node : Node) : String :=
  let outline := if node.isBinding then ", peripheries=2" else ""
  let colour := if node.isDynamic then "" else ", style=dashed, color=gray50"
  ", shape=" ++ node.kind.shape ++ outline ++ colour

/-- The label of a guard: its predicate and its branch. -/
def Guard.label (guard : Guard) : String :=
  Drawing.name guard.predicate ++ " " ++ Drawing.letter guard.branch

/-- The properties of an edge that differ from those of a plain one. -/
def Dependency.attributes (dependency : Dependency) : List String :=
  let weight := if dependency.mandatory then ["style=bold"] else []
  match dependency.guard with
  | none => weight
  | some guard => weight ++ ["style=dashed", "label=\"" ++ guard.label ++ "\""]

namespace Graph

/-- The key of a node, and one line each for its own flag, for the flags of its branches, and for
its invalid flags (`node_label`). -/
def label (graph : Graph) (id : Nat) : String :=
  let node := graph.netNodeOf id
  let flag := node.flag.elim "" fun flag => "\nflag " ++ toString flag
  let branches :=
    match node.requirementFlag? true, node.requirementFlag? false with
    | some whenTrue, some whenFalse =>
      "\nreq T=" ++ toString whenTrue ++ " F=" ++ toString whenFalse
    | _, _ => ""
  let invalid :=
    if graph.isSealed && graph.isDynamic id then "\ninvalid " ++ node.invalid.render else ""
  graph.keyOf id ++ flag ++ branches ++ invalid

/-- The line of a node up to the quote mark in front of its label. -/
def nodeOpening (id : Nat) : String :=
  "    " ++ Drawing.name id ++ " [label=\""

def nodeLine (graph : Graph) (id : Nat) : String :=
  nodeOpening id ++ Drawing.escape (graph.label id) ++ "\"" ++ (graph.node id).attributes ++ "];"

/-- An edge between two nodes, with its attributes. -/
def edgeLine (start target : Nat) (attributes : List String) : String :=
  let properties := if attributes.isEmpty then "" else " [" ++ ", ".intercalate attributes ++ "]"
  "    " ++ Drawing.name start ++ " -> " ++ Drawing.name target ++ properties ++ ";"

/-- The edges that start at a node. -/
def edgeLines (graph : Graph) (id : Nat) : List String :=
  match graph.sealed? with
  | none => (graph.node id).children.map fun child => edgeLine id child ["color=gray60"]
  | some state =>
    (state.net.node id).dependencies.map fun dependency =>
      edgeLine id dependency.target dependency.attributes

/-- The lines before the nodes. -/
def drawingHead : List String :=
  ["digraph bindings \x7b", "    rankdir=BT;", "    node [fontname=\"Helvetica\", fontsize=10];",
    "    edge [fontname=\"Helvetica\", fontsize=9];", ""]

/-- All nodes and then all edges (`write_dot`). -/
def drawingLines (graph : Graph) : List String :=
  drawingHead ++ graph.ids.map graph.nodeLine ++ [""] ++ graph.ids.flatMap graph.edgeLines
    ++ ["\x7d"]

/-- The lines of a drawing, each with its end (`emit_dot`). -/
def drawing (graph : Graph) : String :=
  String.join (graph.drawingLines.map (· ++ "\n"))

end Graph
end BindingPlan
