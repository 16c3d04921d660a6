import TableParsing.Tree.Measure

/-!
# Equality of trees

Trees are compared by two preorders that go on in step, root against root. Labels alone would not
tell how roots are nested, but each root is compared with its number of children, so equal roots say
where the children of both end. Hence two lists of trees agree to their ends exactly if they are the
same.
-/

namespace TableParsing

variable {T N : Type} [DecidableEq T] [DecidableEq N]

namespace Preorder

/-- Two traversals in step, and what comes of comparing them: both end with all roots the same, or
two roots differ, or only one of them ends. -/
inductive InStep : Preorder T N → Preorder T N → Bool → Prop where
  | ended {p q : Preorder T N} (first : p.next = none) (second : q.next = none) : InStep p q true
  | same {p p' q q' : Preorder T N} {t u : Tree T N} {answer : Bool} (first : p.next = some (t, p'))
      (second : q.next = some (u, q')) (roots : t.sameRoot u = true) (rest : InStep p' q' answer) :
      InStep p q answer
  | different {p p' q q' : Preorder T N} {t u : Tree T N} (first : p.next = some (t, p'))
      (second : q.next = some (u, q')) (roots : t.sameRoot u = false) : InStep p q false
  | shorter {p q q' : Preorder T N} {u : Tree T N} (first : p.next = none)
      (second : q.next = some (u, q')) : InStep p q false
  | longer {p p' q : Preorder T N} {t : Tree T N} (first : p.next = some (t, p'))
      (second : q.next = none) : InStep p q false

/-- Going on in step comes to an end, with the answer of the comparison. -/
theorem inStep_sameForest (ts us : List (Tree T N)) :
    InStep ⟨ts⟩ ⟨us⟩ (Tree.sameForest ts us) := by
  fun_induction Tree.sameForest ts us with
  | case1 => exact .ended rfl rfl
  | case2 t ts u us ih =>
      cases roots : t.sameRoot u with
      | true => exact .same rfl rfl roots ih
      | false => exact .different rfl rfl roots
  | case3 ts us notBothEmpty notBothCons =>
      cases ts with
      | nil =>
          cases us with
          | nil => exact (notBothEmpty rfl rfl).elim
          | cons u us => exact .shorter rfl rfl
      | cons t ts =>
          cases us with
          | nil => exact .longer rfl rfl
          | cons u us => exact (notBothCons t ts u us rfl rfl).elim

/-- Trees are compared by what the traversals yield. -/
theorem sameForest_eq (p q : Preorder T N) :
    Tree.sameForest p.work q.work =
      match p.next, q.next with
      | none, none => true
      | some (t, p'), some (u, q') => t.sameRoot u && Tree.sameForest p'.work q'.work
      | _, _ => false := by
  obtain ⟨_ | ⟨t, ts⟩⟩ := p <;> obtain ⟨_ | ⟨u, us⟩⟩ := q <;> simp [Tree.sameForest, next]

/-- There is no other answer. -/
theorem InStep.eq_sameForest {p q : Preorder T N} {answer : Bool} (h : InStep p q answer) :
    answer = Tree.sameForest p.work q.work := by
  induction h with
  | ended first second | shorter first second | longer first second =>
      rw [sameForest_eq, first, second]
  | different first second roots =>
      rw [sameForest_eq, first, second]
      simp only [roots, Bool.false_and]
  | same first second roots _ ih =>
      rw [sameForest_eq, first, second]
      simp only [roots, Bool.true_and]
      exact ih

end Preorder

namespace Tree

theorem sameRoot_self (t : Tree T N) : t.sameRoot t = true := by
  cases t <;> simp [sameRoot]

/-- If two roots are the same, and the children in front of what is left, then so are the trees. -/
theorem cons_eq_cons_iff (t u : Tree T N) (ts us : List (Tree T N)) :
    t :: ts = u :: us ↔ t.sameRoot u = true ∧ t.children ++ ts = u.children ++ us := by
  constructor
  · intro same
    obtain ⟨rfl, rfl⟩ := List.cons.inj same
    exact ⟨sameRoot_self t, rfl⟩
  · rintro ⟨roots, rest⟩
    cases t with
    | leaf a =>
        cases u with
        | leaf b =>
            obtain rfl : a = b := by simpa [sameRoot] using roots
            exact congrArg _ rest
        | node => cases roots
    | node s cs =>
        cases u with
        | leaf => cases roots
        | node r ds =>
            obtain ⟨rfl, lengths⟩ : s = r ∧ cs.length = ds.length := by
              simpa [sameRoot] using roots
            -- Equally many children on both sides, so what is left begins at the same place.
            obtain ⟨rfl, rfl⟩ := List.append_inj rest lengths
            rfl

theorem sameForest_iff (ts us : List (Tree T N)) : sameForest ts us = true ↔ ts = us := by
  fun_induction sameForest ts us with
  | case1 => simp
  | case2 t ts u us ih => rw [Bool.and_eq_true, ih, cons_eq_cons_iff]
  | case3 ts us notBothEmpty notBothCons =>
      constructor
      · nofun
      · rintro rfl
        cases ts with
        | nil => exact (notBothEmpty rfl rfl).elim
        | cons t ts => exact (notBothCons t ts t ts rfl rfl).elim

theorem beq_iff (t u : Tree T N) : (t == u) = true ↔ t = u := by
  rw [show (t == u) = sameForest [t] [u] from rfl, sameForest_iff, List.singleton_inj]

instance : LawfulBEq (Tree T N) where
  eq_of_beq {t u} := (beq_iff t u).mp
  rfl {t} := (beq_iff t t).mpr rfl

end Tree

namespace Node

/-- The tree whose root an inner node is. -/
def toTree (a : Node T N) : Tree T N := .node a.symbol a.children

omit [DecidableEq T] [DecidableEq N] in
theorem toTree_inj {a b : Node T N} : a.toTree = b.toTree ↔ a = b := by
  cases a
  cases b
  simp [toTree]

theorem beq_iff (a b : Node T N) : (a == b) = true ↔ a = b := by
  rw [show (a == b) = (decide (a.symbol = b.symbol) && a.children == b.children) from rfl,
    Bool.and_eq_true, decide_eq_true_eq, beq_iff_eq]
  cases a
  cases b
  simp

end Node

/-- Comparing trees comes to an end, and two trees are found equal exactly if they are the same.
Inner nodes are found equal if the trees are of which they are the roots. So both comparisons are
equivalences. -/
theorem equality_structural :
    (∀ (t u : Tree T N) (answer : Bool),
      Preorder.InStep t.preorderWalk u.preorderWalk answer ↔ answer = (t == u)) ∧
    (∀ t u : Tree T N, (t == u) = true ↔ t = u) ∧
    (∀ a b : Node T N, (a == b) = (a.toTree == b.toTree)) ∧
    Equivalence (fun t u : Tree T N => (t == u) = true) ∧
    Equivalence (fun a b : Node T N => (a == b) = true) := by
  refine ⟨?_, Tree.beq_iff, ?_, ?_, ?_⟩
  · intro t u answer
    constructor
    · intro found
      exact found.eq_sameForest
    · rintro rfl
      exact Preorder.inStep_sameForest [t] [u]
  · intro a b
    rw [Bool.eq_iff_iff, Node.beq_iff, Tree.beq_iff, Node.toTree_inj]
  · simp only [Tree.beq_iff]
    exact ⟨fun _ => rfl, Eq.symm, Eq.trans⟩
  · simp only [Node.beq_iff]
    exact ⟨fun _ => rfl, Eq.symm, Eq.trans⟩

/-- The same labels in the same order, but nested in another way. -/
example : ((.node 0 [.node 0 [], .node 0 []] : Tree Nat Nat) == .node 0 [.node 0 [.node 0 []]]) =
    false := by
  decide +kernel

end TableParsing
