import Mathlib.Data.List.Nodup
import TableParsing.Proofs.Tree.Traversal

/-!
# Every node once, children first

Two nodes of a tree can be the same subtree, so a node is known by its path, the indices of the
children that lead to it from the root. The recursive postorder goes through all paths of a tree and
through none twice. The traversal in postorder yields the nodes at these paths one by one, and then
nothing more. To find the next one it enters first children, of which there are finitely many below
any node.
-/

namespace TableParsing

variable {T N : Type}

namespace Tree

def at? (t : Tree T N) : List Nat → Option (Tree T N)
  | [] => some t
  | i :: path => t.children[i]?.bind fun child => child.at? path

mutual

/-- The paths of all nodes, each after those of its children. -/
def postorderPaths : Tree T N → List (List Nat)
  | .leaf _ => [[]]
  | .node _ children => forestPostorderPaths 0 children ++ [[]]

/-- The paths of the nodes of a list of trees, which are the children from an index on. -/
def forestPostorderPaths (i : Nat) : List (Tree T N) → List (List Nat)
  | [] => []
  | t :: ts => t.postorderPaths.map (i :: ·) ++ forestPostorderPaths (i + 1) ts

end

theorem postorderPaths_eq (t : Tree T N) :
    t.postorderPaths = forestPostorderPaths 0 t.children ++ [[]] := by
  cases t <;> rfl

theorem mem_forestPostorderPaths {i : Nat} {ts : List (Tree T N)} {path : List Nat} :
    path ∈ forestPostorderPaths i ts ↔
      ∃ j t below, path = (i + j) :: below ∧ ts[j]? = some t ∧ below ∈ t.postorderPaths := by
  induction ts generalizing i with
  | nil => simp [forestPostorderPaths]
  | cons t ts ih =>
      rw [forestPostorderPaths, List.mem_append, List.mem_map, ih]
      constructor
      · rintro (⟨below, mem, rfl⟩ | ⟨j, u, below, rfl, found, mem⟩)
        · exact ⟨0, t, below, rfl, rfl, mem⟩
        · exact ⟨j + 1, u, below, by rw [Nat.add_right_comm, Nat.add_assoc], found, mem⟩
      · rintro ⟨_ | j, u, below, rfl, found, mem⟩
        · obtain rfl := Option.some.inj found
          exact .inl ⟨below, mem, rfl⟩
        · exact .inr ⟨j, u, below, by rw [Nat.add_right_comm, Nat.add_assoc], found, mem⟩

/-- All paths that stay within a tree are gone through. -/
theorem mem_postorderPaths {t : Tree T N} {path : List Nat} :
    path ∈ t.postorderPaths ↔ (t.at? path).isSome := by
  induction path generalizing t with
  | nil => simp [postorderPaths_eq, at?]
  | cons i path ih =>
      rw [postorderPaths_eq, List.mem_append, mem_forestPostorderPaths, at?]
      constructor
      · rintro (⟨j, child, below, same, found, mem⟩ | last)
        · obtain ⟨rfl, rfl⟩ := List.cons.inj same
          rw [Nat.zero_add, found, Option.bind_some]
          exact ih.mp mem
        · cases List.mem_singleton.mp last
      · intro within
        obtain ⟨child, found⟩ := Option.isSome_iff_exists.mp (Option.isSome_of_isSome_bind within)
        rw [found, Option.bind_some] at within
        exact .inl ⟨i, child, path, by rw [Nat.zero_add], found, ih.mpr within⟩

mutual

/-- No path is gone through twice. -/
theorem nodup_postorderPaths : ∀ t : Tree T N, t.postorderPaths.Nodup
  | .leaf _ => List.nodup_singleton _
  | .node _ children => by
      refine (nodup_forestPostorderPaths 0 children).append (List.nodup_singleton _) ?_
      intro path mem last
      obtain ⟨j, t, below, rfl, _, _⟩ := mem_forestPostorderPaths.mp mem
      cases List.mem_singleton.mp last

theorem nodup_forestPostorderPaths (i : Nat) : ∀ ts : List (Tree T N),
    (forestPostorderPaths i ts).Nodup
  | [] => List.nodup_nil
  | t :: ts => by
      refine ((nodup_postorderPaths t).map List.cons_injective).append
        (nodup_forestPostorderPaths (i + 1) ts) ?_
      -- The first index tells the tree from those behind it.
      intro path here later
      obtain ⟨below, _, rfl⟩ := List.mem_map.mp here
      obtain ⟨j, u, below', same, _, _⟩ := mem_forestPostorderPaths.mp later
      have := (List.cons.inj same).1
      omega

end

mutual

/-- At the paths stand the nodes of the recursive postorder. -/
theorem map_at?_postorderPaths : ∀ t : Tree T N,
    t.postorderPaths.map t.at? = t.postorder.map some
  | .leaf _ => rfl
  | .node symbol children => by
      have below := map_at?_forestPostorderPaths (.node symbol children) 0 children fun _ => by
        rw [Nat.zero_add, Tree.children]
      rw [postorderPaths, postorder, List.map_append, List.map_append, below]
      rfl

/-- The same for the children of a node from an index on. -/
theorem map_at?_forestPostorderPaths (parent : Tree T N) (i : Nat) : ∀ ts : List (Tree T N),
    (∀ j, parent.children[i + j]? = ts[j]?) →
      (forestPostorderPaths i ts).map parent.at? = (forestPostorder ts).map some
  | [], _ => rfl
  | t :: ts, stand => by
      have here : parent.children[i]? = some t := stand 0
      have first : (t.postorderPaths.map (i :: ·)).map parent.at? = t.postorder.map some := by
        rw [← map_at?_postorderPaths t, List.map_map]
        refine List.map_congr_left fun path _ => ?_
        rw [Function.comp_apply, at?, here, Option.bind_some]
      have later := map_at?_forestPostorderPaths parent (i + 1) ts fun j => by
        rw [Nat.add_right_comm, Nat.add_assoc]
        exact stand (j + 1)
      rw [forestPostorderPaths, forestPostorder, List.map_append, List.map_append, first, later]

end

mutual

/-- Both orders are of the same nodes. -/
theorem preorder_perm_postorder : ∀ t : Tree T N, t.preorder.Perm t.postorder
  | .leaf _ => .refl _
  | .node symbol children => by
      have below := forestPreorder_perm_forestPostorder children
      exact (below.cons _).trans (List.perm_append_singleton _ _).symm

theorem forestPreorder_perm_forestPostorder : ∀ ts : List (Tree T N),
    (forestPreorder ts).Perm (forestPostorder ts)
  | [] => .refl _
  | t :: ts => (preorder_perm_postorder t).append (forestPreorder_perm_forestPostorder ts)

end

mutual

theorem length_postorder : ∀ t : Tree T N, t.postorder.length = t.size
  | .leaf _ => rfl
  | .node _ children => by
      rw [postorder, List.length_append, length_forestPostorder, size, Nat.add_comm]
      rfl

theorem length_forestPostorder : ∀ ts : List (Tree T N),
    (forestPostorder ts).length = forestSize ts
  | [] => rfl
  | t :: ts => by
      rw [forestPostorder, List.length_append, length_postorder, length_forestPostorder, forestSize]

end

end Tree

namespace Postorder

/-- One round of the search for the next node: it enters a first child, or it is over with an
answer. -/
def round : List (Tree T N × List (Tree T N)) →
    List (Tree T N × List (Tree T N)) ⊕ Option (Tree T N × Postorder T N)
  | [] => .inr none
  | (t, []) :: outer => .inr (some (t, ⟨outer⟩))
  | (t, child :: rest) :: outer => .inl ((child, child.children) :: (t, rest) :: outer)

/-- A search that is over after a number of rounds. -/
inductive Search : Nat → List (Tree T N × List (Tree T N)) →
    Option (Tree T N × Postorder T N) → Prop where
  | over {work : List (Tree T N × List (Tree T N))} {answer : Option (Tree T N × Postorder T N)}
      (last : round work = .inr answer) : Search 1 work answer
  | enter {rounds : Nat} {work deeper : List (Tree T N × List (Tree T N))}
      {answer : Option (Tree T N × Postorder T N)} (goes : round work = .inl deeper)
      (rest : Search rounds deeper answer) : Search (rounds + 1) work answer

/-- Every search is over, after no more rounds than there are nodes to enter and one. -/
theorem exists_search (work : List (Tree T N × List (Tree T N))) :
    ∃ rounds ≤ unentered work + 1, Search rounds work (descend work) := by
  fun_induction descend work with
  | case1 => exact ⟨1, Nat.succ_le_succ (Nat.zero_le _), .over rfl⟩
  | case2 t outer => exact ⟨1, Nat.succ_le_succ (Nat.zero_le _), .over rfl⟩
  | case3 t child rest outer ih =>
      obtain ⟨rounds, le, search⟩ := ih
      refine ⟨rounds + 1, ?_, .enter rfl search⟩
      -- The child has been entered, so it is one of the nodes that are left no more.
      simp only [unentered, List.foldr_cons, Tree.forestSize,
        Tree.size_eq_succ_children child] at le ⊢
      omega

end Postorder

namespace Tree

/-- The traversal in postorder yields the nodes of the recursive postorder one by one and then
nothing, however often it is asked. These are the nodes at all paths of the tree, each path once,
and a permutation of what the traversal in preorder yields. No request takes more rounds than there
are nodes to enter and one. -/
theorem postorder_visits (t : Tree T N) :
    (∀ n, Traversal.answers (t.nodeCount + n) t.postorderWalk =
      t.postorder.map some ++ List.replicate n none) ∧
    (t.postorderPaths.map t.at? = t.postorder.map some ∧ t.postorderPaths.Nodup ∧
      ∀ path, path ∈ t.postorderPaths ↔ (t.at? path).isSome) ∧
    (∀ p : Postorder T N, ∃ rounds ≤ Postorder.unentered p.work + 1,
      Postorder.Search rounds p.work p.next) ∧
    (Traversal.toList t.postorderWalk).Perm (Traversal.toList t.preorderWalk) ∧
    (Traversal.toList t.postorderWalk).length = t.nodeCount ∧
    (Traversal.toList t.preorderWalk).length = t.nodeCount := by
  have perm := t.preorder_perm_postorder
  have count : t.postorder.length = t.nodeCount := t.length_postorder.trans t.nodeCount_eq_size.symm
  rw [toList_postorderWalk, toList_preorderWalk]
  refine ⟨?_, ⟨t.map_at?_postorderPaths, t.nodup_postorderPaths, fun path => mem_postorderPaths⟩,
    fun p => Postorder.exists_search p.work, perm.symm, count, perm.length_eq.trans count⟩
  intro n
  have answers := Traversal.answers_eq (fun p : Postorder T N => Postorder.view p.work)
    (fun _ => Postorder.view_of_descend_eq_none) (fun _ _ _ => Postorder.view_of_descend) n
    t.postorderWalk
  rwa [Postorder.view_postorderWalk, count] at answers

end Tree

end TableParsing
