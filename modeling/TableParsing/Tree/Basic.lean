import TableParsing.Token

/-!
# Syntax trees

A syntax tree is a token at a leaf, or a nonterminal with a list of subtrees. Sizes and the plain
recursive traversals are stated here; they say what the iterators of the neighbouring module visit.
-/

namespace TableParsing

/-- An ordered tree with tokens at its leaves and nonterminals at its inner nodes. An inner node may
have no children. -/
inductive Tree (T N : Type) where
  | leaf (token : Token T)
  | node (symbol : N) (children : List (Tree T N))

/-- An inner node of a tree, seen on its own. -/
structure Node (T N : Type) where
  symbol : N
  children : List (Tree T N)

namespace Tree

variable {T N : Type}

/-- The subtrees directly below the root; a leaf has none. -/
def children : Tree T N → List (Tree T N)
  | .leaf _ => []
  | .node _ children => children

def isLeaf : Tree T N → Bool
  | .leaf _ => true
  | .node _ _ => false

def token? : Tree T N → Option (Token T)
  | .leaf token => some token
  | .node _ _ => none

def node? : Tree T N → Option (Node T N)
  | .leaf _ => none
  | .node symbol children => some ⟨symbol, children⟩

def label [Labelled T] [Labelled N] : Tree T N → String
  | .leaf token => Labelled.label token.terminal
  | .node symbol _ => Labelled.label symbol

mutual

def size : Tree T N → Nat
  | .leaf _ => 1
  | .node _ children => 1 + forestSize children

def forestSize : List (Tree T N) → Nat
  | [] => 0
  | t :: ts => t.size + forestSize ts

end

mutual

/-- The number of nodes on a longest path from the root. -/
def height : Tree T N → Nat
  | .leaf _ => 1
  | .node _ children => 1 + forestHeight children

def forestHeight : List (Tree T N) → Nat
  | [] => 0
  | t :: ts => max t.height (forestHeight ts)

end

mutual

/-- Every node, each before its children, paired with its distance from a given depth. -/
def preorderFrom (depth : Nat) : Tree T N → List (Nat × Tree T N)
  | .leaf token => [(depth, .leaf token)]
  | .node symbol children =>
    (depth, .node symbol children) :: forestPreorderFrom (depth + 1) children

def forestPreorderFrom (depth : Nat) : List (Tree T N) → List (Nat × Tree T N)
  | [] => []
  | t :: ts => t.preorderFrom depth ++ forestPreorderFrom depth ts

end

mutual

/-- Every node, each after its children. -/
def postorder : Tree T N → List (Tree T N)
  | .leaf token => [.leaf token]
  | .node symbol children => forestPostorder children ++ [.node symbol children]

def forestPostorder : List (Tree T N) → List (Tree T N)
  | [] => []
  | t :: ts => t.postorder ++ forestPostorder ts

end

mutual

/-- The tokens at the leaves, from left to right. -/
def frontier : Tree T N → List (Token T)
  | .leaf token => [token]
  | .node _ children => forestFrontier children

def forestFrontier : List (Tree T N) → List (Token T)
  | [] => []
  | t :: ts => t.frontier ++ forestFrontier ts

end

theorem forestSize_append (ts us : List (Tree T N)) :
    forestSize (ts ++ us) = forestSize ts + forestSize us := by
  induction ts with
  | nil => simp [forestSize]
  | cons t ts ih => simp [forestSize, ih, Nat.add_assoc]

theorem forestSize_reverse (ts : List (Tree T N)) : forestSize ts.reverse = forestSize ts := by
  induction ts with
  | nil => rfl
  | cons t ts ih => simp [forestSize, forestSize_append, ih, Nat.add_comm]

theorem forestFrontier_append (ts us : List (Tree T N)) :
    forestFrontier (ts ++ us) = forestFrontier ts ++ forestFrontier us := by
  induction ts with
  | nil => rfl
  | cons t ts ih => simp [forestFrontier, ih]

theorem forestPostorder_append (ts us : List (Tree T N)) :
    forestPostorder (ts ++ us) = forestPostorder ts ++ forestPostorder us := by
  induction ts with
  | nil => rfl
  | cons t ts ih => simp [forestPostorder, ih]

theorem size_eq_succ_children (t : Tree T N) : t.size = 1 + forestSize t.children := by
  cases t <;> simp [size, children, forestSize]

end Tree

end TableParsing
