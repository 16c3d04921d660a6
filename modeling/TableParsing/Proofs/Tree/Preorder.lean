import TableParsing.Proofs.Tree.Postorder

/-!
# Forward traversals

The paths of a tree in lexicographic order, where a path comes before the ones that it begins, lead
to its nodes in preorder. So the recursive preorder goes from the left to the right and from the
root down, and the length of a path is the distance from the root. The tokens at the leaves are met
in the same order. The traversals of a tree yield what the recursive ones list and then nothing
more, and whatever is folded along a traversal is folded along that list.
-/

namespace TableParsing

variable {T N : Type}

namespace Traversal

variable {σ β α : Type} [Traversal σ β]

/-- Folding a traversal is folding what it yields. -/
theorem fold_eq_foldl (view : σ → List β) (stops : ∀ s, next s = none → view s = [])
    (goes : ∀ s b s', next s = some (b, s') → view s = b :: view s') (f : α → β → α) (acc : α)
    (s : σ) : fold f acc s = (view s).foldl f acc := by
  refine fold_eq (fun acc s => (view s).foldl f acc) ?_ ?_ acc s
  · intro acc s ends
    simp only [stops s ends, List.foldl_nil]
  · intro acc s b s' step
    simp only [goes s b s' step, List.foldl_cons]

end Traversal

namespace Tree

mutual

/-- The paths of all nodes, each before those of its children. -/
def preorderPaths : Tree T N → List (List Nat)
  | .leaf _ => [[]]
  | .node _ children => [] :: forestPreorderPaths 0 children

def forestPreorderPaths (i : Nat) : List (Tree T N) → List (List Nat)
  | [] => []
  | t :: ts => t.preorderPaths.map (i :: ·) ++ forestPreorderPaths (i + 1) ts

end

mutual

theorem preorderPaths_perm_postorderPaths : ∀ t : Tree T N,
    t.preorderPaths.Perm t.postorderPaths
  | .leaf _ => .refl _
  | .node _ children =>
      ((forestPreorderPaths_perm_forestPostorderPaths 0 children).cons _).trans
        (List.perm_append_singleton _ _).symm

theorem forestPreorderPaths_perm_forestPostorderPaths (i : Nat) : ∀ ts : List (Tree T N),
    (forestPreorderPaths i ts).Perm (forestPostorderPaths i ts)
  | [] => .refl _
  | t :: ts => ((preorderPaths_perm_postorderPaths t).map _).append
      (forestPreorderPaths_perm_forestPostorderPaths (i + 1) ts)

end

/-- All paths that stay within a tree are gone through. -/
theorem mem_preorderPaths {t : Tree T N} {path : List Nat} :
    path ∈ t.preorderPaths ↔ (t.at? path).isSome :=
  t.preorderPaths_perm_postorderPaths.mem_iff.trans mem_postorderPaths

theorem exists_of_mem_forestPreorderPaths {i : Nat} {ts : List (Tree T N)} {path : List Nat}
    (mem : path ∈ forestPreorderPaths i ts) : ∃ j below, path = (i + j) :: below := by
  have listed := (forestPreorderPaths_perm_forestPostorderPaths i ts).mem_iff.mp mem
  obtain ⟨j, t, below, rfl, _, _⟩ := mem_forestPostorderPaths.mp listed
  exact ⟨j, below, rfl⟩

mutual

/-- Paths are gone through in lexicographic order, so none of them twice. -/
theorem sorted_preorderPaths : ∀ t : Tree T N, t.preorderPaths.Pairwise (· < ·)
  | .leaf _ => List.pairwise_singleton _ _
  | .node _ children => by
      refine List.pairwise_cons.mpr ⟨?_, sorted_forestPreorderPaths 0 children⟩
      intro path mem
      obtain ⟨j, below, rfl⟩ := exists_of_mem_forestPreorderPaths mem
      exact List.nil_lt_cons _ _

theorem sorted_forestPreorderPaths (i : Nat) : ∀ ts : List (Tree T N),
    (forestPreorderPaths i ts).Pairwise (· < ·)
  | [] => .nil
  | t :: ts => by
      refine List.pairwise_append.mpr ⟨?_, sorted_forestPreorderPaths (i + 1) ts, ?_⟩
      · refine List.pairwise_map.mpr ((sorted_preorderPaths t).imp ?_)
        intro path path' before
        exact List.cons_lt_cons_iff.mpr (.inr ⟨rfl, before⟩)
      · -- The first index tells the tree from those behind it.
        intro path here path' later
        obtain ⟨below, _, rfl⟩ := List.mem_map.mp here
        obtain ⟨j, below', rfl⟩ := exists_of_mem_forestPreorderPaths later
        exact List.cons_lt_cons_iff.mpr (.inl (by omega))

end

/-- The node at a path and its depth, for a tree whose root is at a given depth. -/
def atDepth? (depth : Nat) (t : Tree T N) (path : List Nat) : Option (Nat × Tree T N) :=
  (t.at? path).map (depth + path.length, ·)

mutual

/-- At the paths stand the nodes of the recursive preorder, as deep as the paths are long. -/
theorem map_atDepth?_preorderPaths (depth : Nat) : ∀ t : Tree T N,
    t.preorderPaths.map (t.atDepth? depth) = (t.preorderFrom depth).map some
  | .leaf _ => rfl
  | .node symbol children => by
      have below := map_atDepth?_forestPreorderPaths depth (.node symbol children) 0 children
        fun _ => by rw [Nat.zero_add, Tree.children]
      rw [preorderPaths, preorderFrom, List.map_cons, List.map_cons, below]
      rfl

/-- The same for the children of a node from an index on. -/
theorem map_atDepth?_forestPreorderPaths (depth : Nat) (parent : Tree T N) (i : Nat) :
    ∀ ts : List (Tree T N), (∀ j, parent.children[i + j]? = ts[j]?) →
      (forestPreorderPaths i ts).map (parent.atDepth? depth) =
        (forestPreorderFrom (depth + 1) ts).map some
  | [], _ => rfl
  | t :: ts, stand => by
      have here : parent.children[i]? = some t := stand 0
      have first : (t.preorderPaths.map (i :: ·)).map (parent.atDepth? depth) =
          (t.preorderFrom (depth + 1)).map some := by
        rw [← map_atDepth?_preorderPaths (depth + 1) t, List.map_map]
        refine List.map_congr_left fun path _ => ?_
        rw [Function.comp_apply, atDepth?, at?, here, Option.bind_some, atDepth?, List.length_cons,
          Nat.add_right_comm, Nat.add_assoc]
      have later := map_atDepth?_forestPreorderPaths depth parent (i + 1) ts fun j => by
        rw [Nat.add_right_comm, Nat.add_assoc]
        exact stand (j + 1)
      rw [forestPreorderPaths, forestPreorderFrom, List.map_append, List.map_append, first, later]

end

mutual

theorem map_snd_preorderFrom (depth : Nat) : ∀ t : Tree T N,
    (t.preorderFrom depth).map Prod.snd = t.preorder
  | .leaf _ => rfl
  | .node symbol children => by
      rw [preorderFrom, preorder, List.map_cons, map_snd_forestPreorderFrom]

theorem map_snd_forestPreorderFrom (depth : Nat) : ∀ ts : List (Tree T N),
    (forestPreorderFrom depth ts).map Prod.snd = forestPreorder ts
  | [] => rfl
  | t :: ts => by
      rw [forestPreorderFrom, forestPreorder, List.map_append, map_snd_preorderFrom,
        map_snd_forestPreorderFrom]

end

mutual

/-- The tokens are those of the leaves that are met in preorder. -/
theorem filterMap_token?_preorder : ∀ t : Tree T N, t.preorder.filterMap token? = t.frontier
  | .leaf _ => rfl
  | .node symbol children => by
      rw [preorder, List.filterMap_cons_none rfl, filterMap_token?_forestPreorder, frontier]

theorem filterMap_token?_forestPreorder : ∀ ts : List (Tree T N),
    (forestPreorder ts).filterMap token? = forestFrontier ts
  | [] => rfl
  | t :: ts => by
      rw [forestPreorder, List.filterMap_append, filterMap_token?_preorder,
        filterMap_token?_forestPreorder, forestFrontier]

end

theorem length_preorder (t : Tree T N) : t.preorder.length = t.size :=
  t.preorder_perm_postorder.length_eq.trans t.length_postorder

theorem preorderFrom_eq (depth : Nat) (t : Tree T N) :
    t.preorderFrom depth = (depth, t) :: forestPreorderFrom (depth + 1) t.children := by
  cases t <;> rfl

theorem forestPreorderFrom_eq_flatMap (depth : Nat) (ts : List (Tree T N)) :
    forestPreorderFrom depth ts = ts.flatMap (preorderFrom depth) := by
  induction ts with
  | nil => rfl
  | cons t ts ih => rw [forestPreorderFrom, ih, List.flatMap_cons]

end Tree

namespace DepthPreorder

/-- The nodes that are still to visit, each with its depth. -/
def view (work : List (Nat × Tree T N)) : List (Nat × Tree T N) :=
  work.flatMap fun entry => entry.2.preorderFrom entry.1

theorem view_of_next_eq_none {p : DepthPreorder T N} (h : p.next = none) : view p.work = [] := by
  obtain ⟨_ | ⟨v, work⟩⟩ := p
  · rfl
  · cases h

theorem view_of_next {p q : DepthPreorder T N} {v : Nat × Tree T N} (h : p.next = some (v, q)) :
    view p.work = v :: view q.work := by
  obtain ⟨_ | ⟨⟨depth, t⟩, work⟩⟩ := p
  · cases h
  · obtain ⟨rfl, rfl⟩ := Prod.mk.inj (Option.some.inj h)
    rw [view, List.flatMap_cons, Tree.preorderFrom_eq, List.cons_append,
      Tree.forestPreorderFrom_eq_flatMap, view, List.flatMap_append, List.flatMap_map]

theorem view_depthWalk (t : Tree T N) : view t.depthWalk.work = t.preorderFrom 0 :=
  List.append_nil _

end DepthPreorder

namespace Tree

theorem fold_preorderWalk {σ : Type} (visit : σ → Tree T N → σ) (s : σ) (t : Tree T N) :
    Traversal.fold visit s t.preorderWalk = t.preorder.foldl visit s := by
  rw [Traversal.fold_eq_foldl (fun p : Preorder T N => forestPreorder p.work)
    (fun _ => Preorder.preorder_of_next_eq_none) (fun _ _ _ => Preorder.preorder_of_next)]
  exact congrArg (List.foldl visit s) (List.append_nil _)

theorem fold_depthWalk {σ : Type} (visit : σ → Nat × Tree T N → σ) (s : σ) (t : Tree T N) :
    Traversal.fold visit s t.depthWalk = (t.preorderFrom 0).foldl visit s := by
  rw [Traversal.fold_eq_foldl (fun p : DepthPreorder T N => DepthPreorder.view p.work)
    (fun _ => DepthPreorder.view_of_next_eq_none) (fun _ _ _ => DepthPreorder.view_of_next),
    DepthPreorder.view_depthWalk]

theorem answers_preorderWalk (t : Tree T N) (n : Nat) :
    Traversal.answers (t.preorder.length + n) t.preorderWalk =
      t.preorder.map some ++ List.replicate n none := by
  have answers := Traversal.answers_eq (fun p : Preorder T N => forestPreorder p.work)
    (fun _ => Preorder.preorder_of_next_eq_none) (fun _ _ _ => Preorder.preorder_of_next) n
    t.preorderWalk
  rwa [show forestPreorder t.preorderWalk.work = t.preorder from List.append_nil _] at answers

theorem answers_depthWalk (t : Tree T N) (n : Nat) :
    Traversal.answers ((t.preorderFrom 0).length + n) t.depthWalk =
      (t.preorderFrom 0).map some ++ List.replicate n none := by
  have answers := Traversal.answers_eq (fun p : DepthPreorder T N => DepthPreorder.view p.work)
    (fun _ => DepthPreorder.view_of_next_eq_none) (fun _ _ _ => DepthPreorder.view_of_next) n
    t.depthWalk
  rwa [DepthPreorder.view_depthWalk] at answers

theorem answers_leafWalk (t : Tree T N) (n : Nat) :
    Traversal.answers (t.frontier.length + n) t.leafWalk =
      t.frontier.map some ++ List.replicate n none := by
  have answers := Traversal.answers_eq (fun l : Leaves T N => forestFrontier l.nodes.work)
    (fun _ => Leaves.frontier_of_seek_eq_none) (fun _ _ _ => Leaves.frontier_of_seek) n t.leafWalk
  rwa [show forestFrontier t.leafWalk.nodes.work = t.frontier from List.append_nil _] at answers

/-- Request by request, the forward traversals yield the recursive preorder, the same with the
distances from the root, and the tokens of its leaves, and then nothing, however often they are
asked. A visitor is called along the preorder as well. The nodes in preorder are those at all paths
in lexicographic order. The greatest depth is the height, and the number of nodes is the size. -/
theorem forward_visits (t : Tree T N) :
    (∀ n, Traversal.answers (t.preorder.length + n) t.preorderWalk =
      t.preorder.map some ++ List.replicate n none) ∧
    (∀ n, Traversal.answers ((t.preorderFrom 0).length + n) t.depthWalk =
      (t.preorderFrom 0).map some ++ List.replicate n none) ∧
    (∀ n, Traversal.answers (t.frontier.length + n) t.leafWalk =
      t.frontier.map some ++ List.replicate n none) ∧
    (∀ (σ : Type) (visit : σ → Tree T N → σ) (s : σ), t.walk visit s = t.preorder.foldl visit s) ∧
    ((t.preorderFrom 0).map Prod.snd = t.preorder ∧
      (t.preorderFrom 0).map some =
        t.preorderPaths.map fun path => (t.at? path).map (path.length, ·)) ∧
    t.preorder.filterMap token? = t.frontier ∧
    (t.preorderPaths.Pairwise (· < ·) ∧ ∀ path, path ∈ t.preorderPaths ↔ (t.at? path).isSome) ∧
    t.depth = t.height ∧ t.nodeCount = t.size ∧ t.preorder.length = t.size := by
  have placed : (t.preorderFrom 0).map some =
      t.preorderPaths.map fun path => (t.at? path).map (path.length, ·) := by
    rw [← map_atDepth?_preorderPaths]
    refine List.map_congr_left fun path _ => ?_
    rw [atDepth?, Nat.zero_add]
  refine ⟨t.answers_preorderWalk, t.answers_depthWalk, t.answers_leafWalk, ?_,
    ⟨t.map_snd_preorderFrom 0, placed⟩, t.filterMap_token?_preorder,
    ⟨t.sorted_preorderPaths, fun path => mem_preorderPaths⟩, t.depth_eq_height,
    t.nodeCount_eq_size, t.length_preorder⟩
  intro σ visit s
  exact fold_preorderWalk visit s t

end Tree

end TableParsing
