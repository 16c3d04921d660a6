import TableParsing.Tree.Traversal

/-!
# Measures and equality of trees

What can be asked of a whole tree: how many nodes it has, how deep it is, which part of the source
its tokens cover, and whether another tree is the same. All of it is answered by traversals, so
trees of any depth can be asked.
-/

namespace TableParsing

namespace Tree

variable {T N : Type}

/-- The number of nodes, counted in preorder. -/
def nodeCount (t : Tree T N) : Nat := Traversal.fold (fun n _ => n + 1) 0 t.preorderWalk

/-- The number of nodes on a longest path from the root; a lone leaf has depth one. -/
def depth (t : Tree T N) : Nat :=
  Traversal.fold (fun deepest v => max deepest (v.1 + 1)) 0 t.depthWalk

/-- The first token in a list of trees, searched from the right. -/
def rightmostToken? (work : List (Tree T N)) : Option (Token T) :=
  match work with
  | [] => none
  | .leaf token :: _ => some token
  | .node _ children :: work => rightmostToken? (children.reverse ++ work)
termination_by forestSize work
decreasing_by
  simp only [forestSize, size, forestSize_append, forestSize_reverse, List.unattach_reverse,
    List.unattach_attach]
  omega

/-- The span from the first token to the last one. A tree without tokens has none. -/
def span? (t : Tree T N) : Option Span :=
  match t.leafWalk.next, rightmostToken? [t] with
  | some (first, _), some last => some (first.span.merge last.span)
  | _, _ => none

/-- Two roots agree if they hold equal tokens, or equal nonterminals over equally many children. -/
def sameRoot [DecidableEq T] [DecidableEq N] : Tree T N → Tree T N → Bool
  | .leaf a, .leaf b => a = b
  | .node s cs, .node r ds => s = r && cs.length == ds.length
  | _, _ => false

/-- Two lists of trees are the same if their preorders agree root by root to the end. -/
def sameForest [DecidableEq T] [DecidableEq N] : List (Tree T N) → List (Tree T N) → Bool
  | [], [] => true
  | t :: ts, u :: us => sameRoot t u && sameForest (t.children ++ ts) (u.children ++ us)
  | _, _ => false
termination_by ts => forestSize ts
decreasing_by
  simp only [forestSize, forestSize_append, size_eq_succ_children t]
  omega

instance [DecidableEq T] [DecidableEq N] : BEq (Tree T N) where
  beq t u := sameForest [t] [u]

end Tree

/-- Two inner nodes are the same if their nonterminals are equal and their children are the same
trees in the same order. -/
instance {T N : Type} [DecidableEq T] [DecidableEq N] : BEq (Node T N) where
  beq a b := decide (a.symbol = b.symbol) && a.children == b.children

end TableParsing
