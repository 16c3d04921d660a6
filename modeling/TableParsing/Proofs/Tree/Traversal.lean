import TableParsing.Tree.Measure

/-!
# What traversals visit

A traversal is known by a view: the values that a machine has still to yield, as a function of the
machine. If the view loses its head with every step and is empty at the end, it is what the machine
yields. For each machine the view is a recursive function on the work that is left, so the
traversals of a tree visit what the recursive ones list.
-/

namespace TableParsing

namespace Traversal

variable {σ β α : Type} [Traversal σ β]

/-- A quantity that every step passes on, and that is the accumulator at the end, is what folding
comes to. -/
theorem fold_eq {f : α → β → α} (total : α → σ → α)
    (stops : ∀ acc s, next s = none → total acc s = acc)
    (goes : ∀ acc s b s', next s = some (b, s') → total acc s = total (f acc b) s')
    (acc : α) (s : σ) : fold f acc s = total acc s := by
  fun_induction fold f acc s with
  | case1 acc s ends => exact (stops acc s ends).symm
  | case2 acc s b s' step ih => rw [ih, goes acc s b s' step]

/-- A view that loses its head with every step, and is empty at the end, lists what is yielded. -/
theorem toList_eq (view : σ → List β) (stops : ∀ s, next s = none → view s = [])
    (goes : ∀ s b s', next s = some (b, s') → view s = b :: view s') (s : σ) :
    toList s = view s := by
  have folded : fold (fun acc b => b :: acc) [] s = (view s).reverse ++ [] := by
    refine fold_eq (fun acc s => (view s).reverse ++ acc) ?_ ?_ [] s
    · intro acc s ends
      simp only [stops s ends, List.reverse_nil, List.nil_append]
    · intro acc s b s' step
      simp only [goes s b s' step, List.reverse_cons, List.append_assoc, List.singleton_append]
  rw [toList, folded, List.append_nil, List.reverse_reverse]

/-- A machine at its end yields nothing, however often it is asked. -/
theorem answers_of_next_eq_none {s : σ} (ends : next s = none) (n : Nat) :
    answers n s = List.replicate n none := by
  induction n with
  | zero => rfl
  | succ n ih => rw [answers, ends, ih, List.replicate_succ]

/-- Such a view lists the answers to requests one by one, and nothing is answered from then on. -/
theorem answers_eq (view : σ → List β) (stops : ∀ s, next s = none → view s = [])
    (goes : ∀ s b s', next s = some (b, s') → view s = b :: view s') (n : Nat) (s : σ) :
    answers ((view s).length + n) s = (view s).map some ++ List.replicate n none := by
  generalize listed : view s = values
  induction values generalizing s with
  | nil =>
      cases step : next s with
      | none => rw [List.length_nil, Nat.zero_add, answers_of_next_eq_none step, List.map_nil,
          List.nil_append]
      | some result =>
          cases listed.symm.trans (goes s _ _ step)
  | cons b values ih =>
      cases step : next s with
      | none => cases listed.symm.trans (stops s step)
      | some result =>
          obtain ⟨first, s'⟩ := result
          obtain ⟨rfl, rest⟩ := List.cons.inj (listed.symm.trans (goes s first s' step))
          rw [List.length_cons, Nat.add_right_comm, answers, step]
          exact congrArg (some b :: ·) (ih s' rest.symm)

end Traversal

variable {T N : Type}

namespace Tree

mutual

/-- Every node, each before its children. -/
def preorder : Tree T N → List (Tree T N)
  | .leaf token => [.leaf token]
  | .node symbol children => .node symbol children :: forestPreorder children

def forestPreorder : List (Tree T N) → List (Tree T N)
  | [] => []
  | t :: ts => t.preorder ++ forestPreorder ts

end

theorem preorder_eq (t : Tree T N) : t.preorder = t :: forestPreorder t.children := by
  cases t <;> rfl

theorem forestPreorder_append (ts us : List (Tree T N)) :
    forestPreorder (ts ++ us) = forestPreorder ts ++ forestPreorder us := by
  induction ts with
  | nil => rfl
  | cons t ts ih => simp [forestPreorder, ih]

end Tree

namespace Preorder

theorem preorder_of_next_eq_none {p : Preorder T N} (h : p.next = none) :
    Tree.forestPreorder p.work = [] := by
  obtain ⟨_ | ⟨t, work⟩⟩ := p
  · rfl
  · cases h

theorem preorder_of_next {p q : Preorder T N} {t : Tree T N} (h : p.next = some (t, q)) :
    Tree.forestPreorder p.work = t :: Tree.forestPreorder q.work := by
  obtain ⟨_ | ⟨u, work⟩⟩ := p
  · cases h
  · obtain ⟨rfl, rfl⟩ := Prod.mk.inj (Option.some.inj h)
    rw [Tree.forestPreorder, Tree.preorder_eq, Tree.forestPreorder_append, List.cons_append]

end Preorder

namespace DepthPreorder

/-- The number of nodes on a longest path to a node that is still to visit, counted from the root
of the whole tree. -/
def deepest (work : List (Nat × Tree T N)) : Nat :=
  work.foldr (fun entry n => max (entry.1 + entry.2.height) n) 0

theorem deepest_append (work later : List (Nat × Tree T N)) :
    deepest (work ++ later) = max (deepest work) (deepest later) := by
  induction work with
  | nil => exact (Nat.zero_max _).symm
  | cons entry work ih =>
      simp only [List.cons_append, deepest, List.foldr_cons] at ih ⊢
      rw [ih, Nat.max_assoc]

/-- Below a node the paths are longer by one. -/
theorem max_deepest_children (depth : Nat) (ts : List (Tree T N)) :
    max (depth + 1) (deepest (ts.map fun child => (depth + 1, child))) =
      depth + 1 + Tree.forestHeight ts := by
  induction ts with
  | nil => rfl
  | cons t ts ih =>
      simp only [List.map_cons, deepest, List.foldr_cons, Tree.forestHeight] at ih ⊢
      omega

/-- Visiting a node leaves its own depth and the paths through its children. -/
theorem deepest_of_next {p q : DepthPreorder T N} {v : Nat × Tree T N}
    (h : p.next = some (v, q)) : deepest p.work = max (v.1 + 1) (deepest q.work) := by
  obtain ⟨_ | ⟨⟨depth, t⟩, work⟩⟩ := p
  · cases h
  · obtain ⟨rfl, rfl⟩ := Prod.mk.inj (Option.some.inj h)
    have here : depth + t.height = depth + 1 + Tree.forestHeight t.children := by
      cases t <;> simp [Tree.height, Tree.children, Tree.forestHeight, Nat.add_assoc]
    rw [deepest_append, ← Nat.max_assoc, max_deepest_children, ← here]
    rfl

end DepthPreorder

namespace Postorder

/-- The nodes that are still to visit: of each entered node its unentered children, then itself. -/
def view (work : List (Tree T N × List (Tree T N))) : List (Tree T N) :=
  work.flatMap fun entry => Tree.forestPostorder entry.2 ++ [entry.1]

/-- A node comes after its children. -/
theorem postorder_eq (t : Tree T N) : t.postorder = Tree.forestPostorder t.children ++ [t] := by
  cases t <;> rfl

/-- Entering a first child leaves what is still to visit as it is. -/
theorem view_enter (t child : Tree T N) (rest : List (Tree T N))
    (outer : List (Tree T N × List (Tree T N))) :
    view ((child, child.children) :: (t, rest) :: outer) = view ((t, child :: rest) :: outer) := by
  simp only [view, List.flatMap_cons, Tree.forestPostorder, postorder_eq child, List.append_assoc]

theorem view_of_descend_eq_none {work : List (Tree T N × List (Tree T N))}
    (h : descend work = none) : view work = [] := by
  fun_induction descend work with
  | case1 => rfl
  | case2 => cases h
  | case3 t child rest outer ih => rw [← view_enter, ih h]

theorem view_of_descend {work : List (Tree T N × List (Tree T N))} {t : Tree T N}
    {p : Postorder T N} (h : descend work = some (t, p)) : view work = t :: view p.work := by
  fun_induction descend work with
  | case1 => cases h
  | case2 u outer =>
    obtain ⟨rfl, rfl⟩ := Prod.mk.inj (Option.some.inj h)
    rfl
  | case3 u child rest outer ih => rw [← view_enter, ih h]

theorem view_postorderWalk (t : Tree T N) : view t.postorderWalk.work = t.postorder := by
  rw [postorder_eq]
  exact List.flatMap_singleton _ _

end Postorder

namespace Leaves

/-- Seeking passes over nodes that are no leaves. -/
theorem frontier_of_seek_eq_none {p : Preorder T N} (h : seek p = none) :
    Tree.forestFrontier p.work = [] := by
  fun_induction seek p with
  | case1 p ends =>
    obtain ⟨_ | ⟨t, work⟩⟩ := p
    · rfl
    · cases ends
  | case2 => cases h
  | case3 p n children q step ih =>
    obtain ⟨_ | ⟨t, work⟩⟩ := p
    · cases step
    · obtain ⟨rfl, rfl⟩ := Prod.mk.inj (Option.some.inj step)
      have rest := ih h
      rw [Tree.forestFrontier_append] at rest
      exact rest

theorem frontier_of_seek {p : Preorder T N} {token : Token T} {l : Leaves T N}
    (h : seek p = some (token, l)) :
    Tree.forestFrontier p.work = token :: Tree.forestFrontier l.nodes.work := by
  fun_induction seek p with
  | case1 => cases h
  | case2 p token' q step =>
    obtain ⟨rfl, rfl⟩ := Prod.mk.inj (Option.some.inj h)
    obtain ⟨_ | ⟨t, work⟩⟩ := p
    · cases step
    · obtain ⟨rfl, rfl⟩ := Prod.mk.inj (Option.some.inj step)
      rfl
  | case3 p n children q step ih =>
    obtain ⟨_ | ⟨t, work⟩⟩ := p
    · cases step
    · obtain ⟨rfl, rfl⟩ := Prod.mk.inj (Option.some.inj step)
      have rest := ih h
      rw [Tree.forestFrontier_append] at rest
      exact rest

end Leaves

namespace Tree

/-- The traversal in preorder visits every node before its children. -/
theorem toList_preorderWalk (t : Tree T N) : Traversal.toList t.preorderWalk = t.preorder := by
  have visits : Traversal.toList t.preorderWalk = forestPreorder t.preorderWalk.work :=
    Traversal.toList_eq (fun p : Preorder T N => forestPreorder p.work)
      (fun _ => Preorder.preorder_of_next_eq_none) (fun _ _ _ => Preorder.preorder_of_next) _
  rw [visits]
  exact List.append_nil _

/-- The traversal in postorder visits every node after its children. -/
theorem toList_postorderWalk (t : Tree T N) : Traversal.toList t.postorderWalk = t.postorder := by
  have visits : Traversal.toList t.postorderWalk = Postorder.view t.postorderWalk.work :=
    Traversal.toList_eq (fun p : Postorder T N => Postorder.view p.work)
      (fun _ => Postorder.view_of_descend_eq_none) (fun _ _ _ => Postorder.view_of_descend) _
  rw [visits, Postorder.view_postorderWalk]

/-- The traversal of leaves visits the tokens from left to right. -/
theorem toList_leafWalk (t : Tree T N) : Traversal.toList t.leafWalk = t.frontier := by
  have visits : Traversal.toList t.leafWalk = forestFrontier t.leafWalk.nodes.work :=
    Traversal.toList_eq (fun l : Leaves T N => forestFrontier l.nodes.work)
      (fun _ => Leaves.frontier_of_seek_eq_none) (fun _ _ _ => Leaves.frontier_of_seek) _
  rw [visits]
  exact List.append_nil _

/-- Counting in preorder comes to the size. -/
theorem nodeCount_eq_size (t : Tree T N) : t.nodeCount = t.size := by
  have counted : t.nodeCount = 0 + t.preorderWalk.remaining := by
    refine Traversal.fold_eq (fun n (p : Preorder T N) => n + p.remaining) ?_ ?_ 0 _
    · rintro n ⟨_ | ⟨u, work⟩⟩ ends
      · rfl
      · cases ends
    · intro n p u q step
      have := Preorder.remaining_next step
      omega
  rw [counted, Nat.zero_add]
  exact Nat.add_zero _

/-- The greatest depth in preorder is the height. -/
theorem depth_eq_height (t : Tree T N) : t.depth = t.height := by
  have measured : t.depth = max 0 (DepthPreorder.deepest t.depthWalk.work) := by
    refine Traversal.fold_eq
      (fun n (p : DepthPreorder T N) => max n (DepthPreorder.deepest p.work)) ?_ ?_ 0 _
    · rintro n ⟨_ | ⟨v, work⟩⟩ ends
      · exact Nat.max_zero n
      · cases ends
    · intro n p v q step
      rw [DepthPreorder.deepest_of_next step, Nat.max_assoc]
  rw [measured, Nat.zero_max]
  show max (0 + t.height) 0 = t.height
  rw [Nat.max_zero, Nat.zero_add]

end Tree

end TableParsing
