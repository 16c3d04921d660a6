import TableParsing.Proofs.Tree.Preorder
import TableParsing.Proofs.Tree.Spans

/-!
# The first and the last token of a tree

The first token of a tree is the first that the traversal of leaves yields. The last one can also be
found without visiting what lies before it: descend from the root, at each node to the rightmost
child that holds a token. Children behind that one hold none, so nothing is passed by, and a node
that holds a token has a child that does. Hence the descent ends at a leaf wherever there is one,
after no more rounds than the tree is high, and the span of a tree reaches to that leaf.
-/

namespace TableParsing

variable {T N : Type}

namespace Tree

variable {t : Tree T N} {children : List (Tree T N)} {answer : Option (Token T)} {rounds : Nat}

def holdsToken (t : Tree T N) : Bool := t.leafWalk.next.isSome

/-- A descent to the last token that is over after a number of rounds. It goes on with the rightmost
child that holds a token, and gives up at a node without such a child. -/
inductive Descends : Nat → Tree T N → Option (Token T) → Prop where
  | leaf {token : Token T} : Descends 1 (.leaf token) (some token)
  | stuck {n : N} {children : List (Tree T N)}
      (missing : children.reverse.find? holdsToken = none) : Descends 1 (.node n children) none
  | down {rounds : Nat} {n : N} {children : List (Tree T N)} {child : Tree T N}
      {answer : Option (Token T)} (rightmost : children.reverse.find? holdsToken = some child)
      (rest : Descends rounds child answer) : Descends (rounds + 1) (.node n children) answer

theorem mem_preorder_iff {u : Tree T N} : u ∈ t.preorder ↔ ∃ path, t.at? path = some u := by
  have listed : some u ∈ t.postorderPaths.map t.at? ↔ u ∈ t.postorder := by
    rw [map_at?_postorderPaths, List.mem_map_of_injective fun _ _ => Option.some.inj]
  rw [t.preorder_perm_postorder.mem_iff, ← listed, List.mem_map]
  constructor
  · rintro ⟨path, _, found⟩
    exact ⟨path, found⟩
  · rintro ⟨path, found⟩
    exact ⟨path, mem_postorderPaths.mpr (Option.isSome_of_eq_some found), found⟩

/-- The tokens of a tree are those at its leaves, wherever they are. -/
theorem mem_frontier_iff {token : Token T} :
    token ∈ t.frontier ↔ ∃ path, t.at? path = some (.leaf token) := by
  rw [← mem_preorder_iff, ← filterMap_token?_preorder, List.mem_filterMap]
  constructor
  · rintro ⟨u, mem, holds⟩
    cases u with
    | leaf token' =>
        obtain rfl := Option.some.inj holds
        exact mem
    | node => cases holds
  · intro mem
    exact ⟨_, mem, rfl⟩

theorem holdsToken_iff : t.holdsToken = true ↔ t.frontier ≠ [] := by
  rw [holdsToken, ← Option.isSome_map (f := Prod.fst), leafWalk_next_eq, List.isSome_head?]

theorem height_le_forestHeight {child : Tree T N} (mem : child ∈ children) :
    child.height ≤ forestHeight children := by
  induction children with
  | nil => cases mem
  | cons t ts ih =>
      rw [forestHeight]
      rcases List.mem_cons.mp mem with rfl | later
      · exact Nat.le_max_left _ _
      · exact Nat.le_trans (ih later) (Nat.le_max_right _ _)

/-- Every descent is over, after no more rounds than there are nodes on a longest path. -/
theorem exists_descends (t : Tree T N) :
    ∃ rounds ≤ t.height, ∃ answer, t.Descends rounds answer := by
  cases t with
  | leaf token => exact ⟨1, Nat.le_refl 1, some token, .leaf⟩
  | node n children =>
      cases found : children.reverse.find? holdsToken with
      | none => exact ⟨1, Nat.le_add_right 1 _, none, .stuck found⟩
      | some child =>
          have mem := List.mem_reverse.mp (List.mem_of_find?_eq_some found)
          obtain ⟨rounds, le, answer, rest⟩ := exists_descends child
          refine ⟨rounds + 1, ?_, answer, .down found rest⟩
          have shorter := height_le_forestHeight mem
          rw [height]
          omega
termination_by sizeOf t
decreasing_by
  have := List.sizeOf_lt_of_mem mem
  simp only [node.sizeOf_spec]
  omega

theorem forestFrontier_of_holdsToken (h : ∀ child ∈ children, child.holdsToken = false) :
    forestFrontier children = [] := by
  induction children with
  | nil => rfl
  | cons t ts ih =>
      have here : t.frontier = [] := by
        by_contra nonempty
        have holds := holdsToken_iff.mpr nonempty
        rw [h t List.mem_cons_self] at holds
        cases holds
      rw [forestFrontier, here, ih fun child mem => h child (List.mem_cons_of_mem t mem)]
      rfl

/-- The rightmost child that holds a token holds the last one. -/
theorem getLast?_forestFrontier {child : Tree T N}
    (rightmost : children.reverse.find? holdsToken = some child) :
    (forestFrontier children).getLast? = child.frontier.getLast? := by
  obtain ⟨holds, later, earlier, split, none⟩ := List.find?_eq_some_iff_append.mp rightmost
  have behind : forestFrontier later.reverse = [] := by
    apply forestFrontier_of_holdsToken
    intro other mem
    simpa using none other (List.mem_reverse.mp mem)
  have children_eq : children = earlier.reverse ++ child :: later.reverse := by
    rw [← List.reverse_reverse children, split]
    simp
  rw [children_eq, forestFrontier_append, forestFrontier, behind, List.append_nil,
    List.getLast?_append_of_ne_nil _ (holdsToken_iff.mp holds)]

/-- The descent finds the last token. -/
theorem Descends.answer_eq (h : t.Descends rounds answer) : answer = t.frontier.getLast? := by
  induction h with
  | leaf => rfl
  | stuck missing =>
      rw [frontier, forestFrontier_of_holdsToken]
      · rfl
      · intro child mem
        simpa using List.find?_eq_none.mp missing child (List.mem_reverse.mpr mem)
  | down rightmost _ ih => rw [frontier, getLast?_forestFrontier rightmost, ih]

/-- A tree has no span exactly if it has no leaf. Otherwise its span begins where the first or the
last token of the traversal of leaves begins, and ends where one of the two ends. The descent to the
last token is over after no more rounds than the tree is high, its answer gives the span, and it
does not give up where the traversal finds a first token. -/
theorem span?_reaches (t : Tree T N) :
    (t.span? = none ↔ ∀ path token, t.at? path ≠ some (.leaf token)) ∧
    (∀ first last, (Traversal.toList t.leafWalk).head? = some first →
      (Traversal.toList t.leafWalk).getLast? = some last →
      t.span? = some ⟨min first.span.start last.span.start, max first.span.stop last.span.stop⟩) ∧
    (∃ rounds ≤ t.height, ∃ answer, t.Descends rounds answer) ∧
    (∀ rounds answer, t.Descends rounds answer →
      t.span? = t.leafWalk.next.bind fun first =>
        answer.map fun last => first.1.span.merge last.span) ∧
    (t.leafWalk.next.isSome = true → ∀ rounds, ¬ t.Descends rounds none) := by
  refine ⟨?_, ?_, t.exists_descends, ?_, ?_⟩
  · have noLeaf : (∀ path token, t.at? path ≠ some (.leaf token)) ↔ t.frontier = [] := by
      simp only [List.eq_nil_iff_forall_not_mem, mem_frontier_iff, not_exists]
      exact forall_comm
    rw [noLeaf, span?_eq]
    rcases eq_or_ne t.frontier [] with empty | nonempty
    · simp [empty]
    · simp [nonempty, List.head?_eq_some_head nonempty, List.getLast?_eq_some_getLast nonempty]
  · intro first last isFirst isLast
    rw [toList_leafWalk] at isFirst isLast
    rw [span?_eq, isFirst, isLast]
    rfl
  · intro rounds answer descends
    rw [span?_eq, ← descends.answer_eq, ← leafWalk_next_eq]
    cases t.leafWalk.next <;> cases answer <;> rfl
  · intro found rounds descends
    have nonempty := holdsToken_iff.mp found
    have last := descends.answer_eq
    rw [List.getLast?_eq_some_getLast nonempty] at last
    cases last

/-- Empty nodes at the right end are passed by, and a token in the middle does not count, wherever
it stands in the source. -/
example : (.node 0 [.leaf ⟨0, ⟨5, 6⟩⟩, .node 0 [.leaf ⟨0, ⟨0, 1⟩⟩, .leaf ⟨0, ⟨3, 8⟩⟩, .node 0 []],
    .node 0 [.node 0 []]] : Tree Nat Nat).span? = some ⟨3, 8⟩ := by
  decide +kernel

end Tree

end TableParsing
