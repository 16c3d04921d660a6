import TableParsing.Tree.Basic

/-!
# Tree traversals

Each traversal is a small machine that yields one node or token at a time and keeps the work left in
a list, so its depth of recursion does not grow with the tree. A machine that has nothing left
yields nothing, from then on. Every step makes the work left smaller, so a traversal can be run to
its end.
-/

namespace TableParsing

/-- A machine that yields values one at a time. Each step leaves less to do, so it comes to
an end. -/
class Traversal (σ : Type) (β : outParam Type) where
  /-- The next value and the machine after it, or nothing at the end. -/
  next : σ → Option (β × σ)
  /-- A bound on the number of values still to come. -/
  remaining : σ → Nat
  remaining_lt : ∀ {s s' : σ} {b : β}, next s = some (b, s') → remaining s' < remaining s

namespace Traversal

variable {σ β α : Type} [Traversal σ β]

/-- Combine all values still to come, in order. -/
def fold (f : α → β → α) (acc : α) (s : σ) : α :=
  match _h : next s with
  | none => acc
  | some (b, s') => fold f (f acc b) s'
termination_by remaining s
decreasing_by exact remaining_lt _h

def toList (s : σ) : List β := (fold (fun acc b => b :: acc) [] s).reverse

/-- The answers to `n` requests for the next value. A machine at its end stays there. -/
def answers : Nat → σ → List (Option β)
  | 0, _ => []
  | n + 1, s =>
    match next s with
    | some (b, s') => some b :: answers n s'
    | none => none :: answers n s

end Traversal

/-- Visits a node before its children, from left to right. `work` holds the trees still to visit. -/
structure Preorder (T N : Type) where
  work : List (Tree T N)

namespace Preorder

variable {T N : Type}

def next : Preorder T N → Option (Tree T N × Preorder T N)
  | ⟨[]⟩ => none
  | ⟨t :: work⟩ => some (t, ⟨t.children ++ work⟩)

def remaining (p : Preorder T N) : Nat := Tree.forestSize p.work

theorem remaining_next {p q : Preorder T N} {t : Tree T N} (h : p.next = some (t, q)) :
    p.remaining = q.remaining + 1 := by
  obtain ⟨_ | ⟨u, work⟩⟩ := p
  · cases h
  · obtain ⟨rfl, rfl⟩ := Prod.mk.inj (Option.some.inj h)
    simp only [remaining, Tree.forestSize, Tree.forestSize_append, Tree.size_eq_succ_children u]
    omega

instance : Traversal (Preorder T N) (Tree T N) where
  next := next
  remaining := remaining
  remaining_lt h := by
    have := remaining_next h
    omega

end Preorder

/-- Visits nodes in preorder and tells their distance from the root. -/
structure DepthPreorder (T N : Type) where
  work : List (Nat × Tree T N)

namespace DepthPreorder

variable {T N : Type}

def next : DepthPreorder T N → Option ((Nat × Tree T N) × DepthPreorder T N)
  | ⟨[]⟩ => none
  | ⟨(depth, t) :: work⟩ =>
    some ((depth, t), ⟨t.children.map (fun child => (depth + 1, child)) ++ work⟩)

def remaining (p : DepthPreorder T N) : Nat := Tree.forestSize (p.work.map Prod.snd)

theorem remaining_next {p q : DepthPreorder T N} {v : Nat × Tree T N}
    (h : p.next = some (v, q)) : p.remaining = q.remaining + 1 := by
  obtain ⟨_ | ⟨⟨depth, u⟩, work⟩⟩ := p
  · cases h
  · obtain ⟨rfl, rfl⟩ := Prod.mk.inj (Option.some.inj h)
    simp only [remaining, List.map_cons, List.map_append, List.map_map, Function.comp_def,
      List.map_id_fun', id_eq, Tree.forestSize, Tree.forestSize_append,
      Tree.size_eq_succ_children u]
    omega

instance : Traversal (DepthPreorder T N) (Nat × Tree T N) where
  next := next
  remaining := remaining
  remaining_lt h := by
    have := remaining_next h
    omega

end DepthPreorder

/-- Visits a node after its children. `work` holds the nodes that have been entered and not yet
visited, innermost first, each with those of its children that have not been entered. -/
structure Postorder (T N : Type) where
  work : List (Tree T N × List (Tree T N))

namespace Postorder

variable {T N : Type}

/-- The number of nodes that have not been entered. -/
def unentered (work : List (Tree T N × List (Tree T N))) : Nat :=
  work.foldr (fun entry n => Tree.forestSize entry.2 + n) 0

/-- Enter first children until a node without an unentered child is on top, and yield that node. -/
def descend (work : List (Tree T N × List (Tree T N))) :
    Option (Tree T N × Postorder T N) :=
  match work with
  | [] => none
  | (t, []) :: outer => some (t, ⟨outer⟩)
  | (t, child :: rest) :: outer => descend ((child, child.children) :: (t, rest) :: outer)
termination_by unentered work
decreasing_by
  simp only [unentered, List.foldr_cons, Tree.forestSize, Tree.size_eq_succ_children child]
  omega

def next (p : Postorder T N) : Option (Tree T N × Postorder T N) := descend p.work

def remaining (p : Postorder T N) : Nat := p.work.length + unentered p.work

theorem remaining_descend {work : List (Tree T N × List (Tree T N))} {t : Tree T N}
    {q : Postorder T N} (h : descend work = some (t, q)) :
    work.length + unentered work = q.remaining + 1 := by
  fun_induction descend work with
  | case1 => cases h
  | case2 u outer =>
    obtain ⟨rfl, rfl⟩ := Prod.mk.inj (Option.some.inj h)
    simp only [remaining, unentered, List.foldr_cons, Tree.forestSize, List.length_cons]
    omega
  | case3 u child rest outer ih =>
    rw [← ih h]
    simp only [unentered, List.foldr_cons, Tree.forestSize, List.length_cons,
      Tree.size_eq_succ_children child]
    omega

theorem remaining_next {p q : Postorder T N} {t : Tree T N} (h : p.next = some (t, q)) :
    p.remaining = q.remaining + 1 :=
  remaining_descend h

instance : Traversal (Postorder T N) (Tree T N) where
  next := next
  remaining := remaining
  remaining_lt h := by
    have := remaining_next h
    omega

end Postorder

/-- Visits the tokens at the leaves, from left to right. -/
structure Leaves (T N : Type) where
  nodes : Preorder T N

namespace Leaves

variable {T N : Type}

/-- Skip inner nodes of a preorder traversal up to the next leaf. -/
def seek (p : Preorder T N) : Option (Token T × Leaves T N) :=
  match _h : p.next with
  | none => none
  | some (.leaf token, q) => some (token, ⟨q⟩)
  | some (.node _ _, q) => seek q
termination_by p.remaining
decreasing_by
  have := Preorder.remaining_next _h
  omega

def next (l : Leaves T N) : Option (Token T × Leaves T N) := seek l.nodes

theorem remaining_seek {p : Preorder T N} {token : Token T} {l : Leaves T N}
    (h : seek p = some (token, l)) : l.nodes.remaining < p.remaining := by
  fun_induction seek p with
  | case1 => cases h
  | case2 p token' q hq =>
    obtain ⟨rfl, rfl⟩ := Prod.mk.inj (Option.some.inj h)
    have := Preorder.remaining_next hq
    change q.remaining < p.remaining
    omega
  | case3 p s cs q hq ih =>
    have := Preorder.remaining_next hq
    have := ih h
    omega

instance : Traversal (Leaves T N) (Token T) where
  next := next
  remaining l := l.nodes.remaining
  remaining_lt h := remaining_seek h

end Leaves

namespace Tree

variable {T N : Type}

def preorderWalk (t : Tree T N) : Preorder T N := ⟨[t]⟩

/-- Start a traversal in preorder that tells depths; the root is at depth zero. -/
def depthWalk (t : Tree T N) : DepthPreorder T N := ⟨[(0, t)]⟩

def postorderWalk (t : Tree T N) : Postorder T N := ⟨[(t, t.children)]⟩

def leafWalk (t : Tree T N) : Leaves T N := ⟨t.preorderWalk⟩

/-- Call a visitor on every node in preorder. What the visitor changes is handed from one call to
the next. -/
def walk {σ : Type} (visit : σ → Tree T N → σ) (s : σ) (t : Tree T N) : σ :=
  Traversal.fold visit s t.preorderWalk

end Tree

end TableParsing
