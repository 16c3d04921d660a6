import TableParsing.Tree.Traversal

/-!
# Printed trees

For people, a tree is an outline with one node a line, two spaces deeper for each level. For
programmers, it is a list of its nodes in preorder, each with its depth; a node further down shows
only how many children it has.
-/

namespace TableParsing

namespace Tree

variable {T N : Type}

/-- Append the line of a node to an outline: the indented label, and the text of a token. -/
def addLine [Labelled T] [Labelled N] (src : Source) (outline : String) (v : Nat × Tree T N) :
    String :=
  let line := outline.pushn ' ' (2 * v.1) ++ v.2.label ++ ":"
  match v.2 with
  | .leaf token => line ++ " " ++ token.shown src ++ "\n"
  | .node _ _ => line ++ "\n"

/-- The outline of a tree. The text of its tokens is read from the source. -/
def display [Labelled T] [Labelled N] (t : Tree T N) (src : Source) : String :=
  Traversal.fold (addLine src) "" t.depthWalk

def entry [Entry T] [Entry N] (v : Nat × Tree T N) : Form :=
  match v.2 with
  | .leaf token => .atom (toString v.1 ++ ": " ++ token.form.inline)
  | .node symbol children =>
    .atom (toString v.1 ++ ": " ++ Entry.name symbol ++ "/" ++ toString children.length)

/-- The picture of a tree: its nodes in preorder. -/
def form [Entry T] [Entry N] (t : Tree T N) : Form :=
  .list ((Traversal.toList t.depthWalk).map entry)

end Tree

/-- The picture of an inner node shows the pictures of its children. -/
def Node.form {T N : Type} [Entry T] [Entry N] (n : Node T N) : Form :=
  .record "Node" [("nonterminal", Entry.form n.symbol),
    ("children", .list (n.children.map Tree.form))]

end TableParsing
