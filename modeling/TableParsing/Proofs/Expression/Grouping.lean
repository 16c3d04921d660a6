import TableParsing.Proofs.Expression.Grammar

/-!
# How operators group

Two descriptions of the syntax trees of expressions are given and related. On trees, `Derived` says
that nodes stand over right-hand sides of productions, and `Grouped` that no operand of a node is
one that precedence or grouping to the left rules out. On expressions, which are the derived trees,
the same is said by numbers: a group or an atom binds tighter than a product, and a product
tighter than a sum.
-/

namespace TableParsing

namespace Tree

variable {T N : Type}

def symbol : Tree T N → T ⊕ N
  | .leaf token => .inl token.terminal
  | .node n _ => .inr n

@[simp] theorem symbol_leaf (token : Token T) :
    (leaf token : Tree T N).symbol = .inl token.terminal := rfl

@[simp] theorem symbol_node (n : N) (children : List (Tree T N)) :
    (node n children).symbol = .inr n := rfl

theorem eq_leaf_of_symbol {t : Tree T N} {a : T} (h : t.symbol = .inl a) :
    ∃ span, t = .leaf ⟨a, span⟩ := by
  cases t with
  | leaf token =>
      obtain rfl := Sum.inl.inj h
      exact ⟨token.span, rfl⟩
  | node n children => cases h

theorem eq_node_of_symbol {t : Tree T N} {n : N} (h : t.symbol = .inr n) :
    ∃ children, t = .node n children := by
  cases t with
  | leaf token => cases h
  | node m children =>
      obtain rfl := Sum.inr.inj h
      exact ⟨children, rfl⟩

theorem mem_forestPostorder {u : Tree T N} {ts : List (Tree T N)} :
    u ∈ forestPostorder ts ↔ ∃ t ∈ ts, u ∈ t.postorder := by
  induction ts with
  | nil => simp [forestPostorder]
  | cons t ts ih => simp [forestPostorder, ih]

/-- All subtrees of a tree, the tree itself among them, have a property. -/
def Throughout (P : Tree T N → Prop) (t : Tree T N) : Prop := ∀ u ∈ t.postorder, P u

variable {P : Tree T N → Prop}

@[simp] theorem throughout_leaf {token : Token T} :
    (leaf token : Tree T N).Throughout P ↔ P (.leaf token) := by
  simp [Throughout, postorder]

@[simp] theorem throughout_node {n : N} {children : List (Tree T N)} :
    (node n children).Throughout P ↔ P (.node n children) ∧ ∀ t ∈ children, t.Throughout P := by
  simp only [Throughout, postorder, List.mem_append, List.mem_singleton, mem_forestPostorder]
  constructor
  · intro h
    exact ⟨h _ (.inr rfl), fun t mem u inside => h u (.inl ⟨t, mem, inside⟩)⟩
  · rintro ⟨root, below⟩ u (⟨t, mem, inside⟩ | rfl)
    · exact below t mem u inside
    · exact root

end Tree

namespace Expression

def Production.rhs : Production → List (Lexeme ⊕ Phrase)
  | .start => [.inr .expr]
  | .sum => [.inr .expr, .inl .plus, .inr .expr]
  | .difference => [.inr .expr, .inl .minus, .inr .expr]
  | .product => [.inr .expr, .inl .times, .inr .expr]
  | .quotient => [.inr .expr, .inl .divide, .inr .expr]
  | .parentheses => [.inl .lparen, .inr .expr, .inl .rparen]
  | .number => [.inl .num]
  | .identifier => [.inl .ident]

/-- The tables replace as many symbols as a production has. -/
theorem Production.length_rhs (p : Production) : p.rhs.length = p.size := by
  cases p <;> rfl

/-- The right-hand sides for expressions have three shapes. -/
theorem Production.rhs_cases {p : Production} (h : p.lhs = .expr) :
    p.rhs = [.inl .num] ∨ p.rhs = [.inl .ident] ∨
      p.rhs = [.inl .lparen, .inr .expr, .inl .rparen] ∨
      ∃ op : Operator, p.rhs = [.inr .expr, .inl op.lexeme, .inr .expr] := by
  cases p with
  | start => cases h
  | number => exact .inl rfl
  | identifier => exact .inr (.inl rfl)
  | parentheses => exact .inr (.inr (.inl rfl))
  | sum => exact .inr (.inr (.inr ⟨.plus, rfl⟩))
  | difference => exact .inr (.inr (.inr ⟨.minus, rfl⟩))
  | product => exact .inr (.inr (.inr ⟨.times, rfl⟩))
  | quotient => exact .inr (.inr (.inr ⟨.divide, rfl⟩))

/-- A tree over the right-hand side of a production for expressions, unless it is a leaf. -/
def OverProduction (t : Tree Lexeme Phrase) : Prop :=
  ∀ n children, t = .node n children →
    n ≠ .start ∧ ∃ p : Production, p.lhs = .expr ∧ children.map Tree.symbol = p.rhs

/-- A syntax tree of an expression: its root is an expression, and every node stands over the
right-hand side of a production for expressions. -/
structure Derived (t : Tree Lexeme Phrase) : Prop where
  root : t.symbol = .inr .expr
  nodes : t.Throughout OverProduction

namespace Derived

/-- What a derived tree has below its root. -/
theorem exists_production {t : Tree Lexeme Phrase} (h : Derived t) :
    ∃ children, t = .node .expr children ∧
      (∃ p : Production, p.lhs = .expr ∧ children.map Tree.symbol = p.rhs) ∧
      ∀ u ∈ children, u.symbol = .inr .expr → Derived u := by
  obtain ⟨children, rfl⟩ := Tree.eq_node_of_symbol h.root
  obtain ⟨here, below⟩ := Tree.throughout_node.mp h.nodes
  obtain ⟨_, production⟩ := here _ _ rfl
  exact ⟨children, rfl, production, fun u mem root => ⟨root, below u mem⟩⟩

/-- Derived trees are the trees of expressions. -/
theorem exists_expr {t : Tree Lexeme Phrase} (h : Derived t) : ∃ e : Expr, e.toTree = t := by
  obtain ⟨children, rfl, ⟨p, lhs, symbols⟩, below⟩ := h.exists_production
  rcases p.rhs_cases lhs with rhs | rhs | rhs | ⟨op, rhs⟩
  all_goals rw [rhs] at symbols
  · obtain ⟨leaf, rfl, isNumber⟩ := List.map_eq_singleton_iff.mp symbols
    obtain ⟨span, rfl⟩ := Tree.eq_leaf_of_symbol isNumber
    exact ⟨.number span, rfl⟩
  · obtain ⟨leaf, rfl, isIdentifier⟩ := List.map_eq_singleton_iff.mp symbols
    obtain ⟨span, rfl⟩ := Tree.eq_leaf_of_symbol isIdentifier
    exact ⟨.identifier span, rfl⟩
  · obtain ⟨left, rest, rfl, isOpening, symbols⟩ := List.map_eq_cons_iff.mp symbols
    obtain ⟨middle, rest, rfl, isExpr, symbols⟩ := List.map_eq_cons_iff.mp symbols
    obtain ⟨right, rfl, isClosing⟩ := List.map_eq_singleton_iff.mp symbols
    obtain ⟨opening, rfl⟩ := Tree.eq_leaf_of_symbol isOpening
    obtain ⟨closing, rfl⟩ := Tree.eq_leaf_of_symbol isClosing
    obtain ⟨inner, rfl⟩ := (below middle (by simp) isExpr).exists_expr
    exact ⟨.group opening inner closing, rfl⟩
  · obtain ⟨left, rest, rfl, isLeft, symbols⟩ := List.map_eq_cons_iff.mp symbols
    obtain ⟨middle, rest, rfl, isOperator, symbols⟩ := List.map_eq_cons_iff.mp symbols
    obtain ⟨right, rfl, isRight⟩ := List.map_eq_singleton_iff.mp symbols
    obtain ⟨span, rfl⟩ := Tree.eq_leaf_of_symbol isOperator
    obtain ⟨left, rfl⟩ := (below left (by simp) isLeft).exists_expr
    obtain ⟨right, rfl⟩ := (below right (by simp) isRight).exists_expr
    exact ⟨.binary op left span right, rfl⟩
termination_by sizeOf t

end Derived

def operator? : Tree Lexeme Phrase → Option Operator
  | .node _ [_, .leaf token, _] => Operator.ofLexeme? token.terminal
  | _ => none

/-- A sum or a difference. -/
def Additive (t : Tree Lexeme Phrase) : Prop :=
  operator? t = some .plus ∨ operator? t = some .minus

/-- A product or a quotient. -/
def Multiplicative (t : Tree Lexeme Phrase) : Prop :=
  operator? t = some .times ∨ operator? t = some .divide

/-- A tree whose operands may stand where they are: no right operand of a sum is a sum, no left
operand of a product is a sum, and no right operand of a product is a sum or a product. -/
structure OverOperands (t : Tree Lexeme Phrase) : Prop where
  right_of_additive : ∀ n left op right, t = .node n [left, op, right] → Additive t →
    ¬ Additive right
  left_of_multiplicative : ∀ n left op right, t = .node n [left, op, right] → Multiplicative t →
    ¬ Additive left
  right_of_multiplicative : ∀ n left op right, t = .node n [left, op, right] → Multiplicative t →
    ¬ (Additive right ∨ Multiplicative right)

/-- A tree in which products group before sums, and each from the left. -/
def Grouped (t : Tree Lexeme Phrase) : Prop := t.Throughout OverOperands

def Operator.level : Operator → Nat
  | .plus | .minus => 1
  | .times | .divide => 2

theorem Operator.level_eq (op : Operator) : op.level = 1 ∨ op.level = 2 := by
  cases op <;> decide

namespace Expr

/-- How tight an expression binds, by its outermost operator. -/
def level : Expr → Nat
  | .binary op _ _ _ => op.level
  | _ => 3

/-- Left operands bind at least as tight as their operator, and right operands tighter. -/
def Ordered : Expr → Prop
  | .number _ | .identifier _ => True
  | .binary op left _ right =>
    left.Ordered ∧ right.Ordered ∧ op.level ≤ left.level ∧ op.level < right.level
  | .group _ inner _ => inner.Ordered

theorem operator?_toTree (e : Expr) : operator? e.toTree =
    match e with
    | .binary op _ _ _ => some op
    | _ => none := by
  cases e with
  | number | identifier => rfl
  | binary op left span right => cases op <;> rfl
  | group opening inner closing => cases inner <;> rfl

theorem additive_toTree (e : Expr) : Additive e.toTree ↔ e.level = 1 := by
  rw [Additive, operator?_toTree]
  cases e with
  | number | identifier | group => simp [level]
  | binary op => cases op <;> simp [level, Operator.level]

theorem multiplicative_toTree (e : Expr) : Multiplicative e.toTree ↔ e.level = 2 := by
  rw [Multiplicative, operator?_toTree]
  cases e with
  | number | identifier | group => simp [level]
  | binary op => cases op <;> simp [level, Operator.level]

theorem level_pos (e : Expr) : 0 < e.level := by
  cases e with
  | number | identifier | group => exact Nat.succ_pos 2
  | binary op =>
      have := op.level_eq
      simp only [level]
      omega

theorem derived_toTree (e : Expr) : Derived e.toTree := by
  induction e with
  | number span =>
      refine ⟨rfl, Tree.throughout_node.mpr ⟨?_, by simp [OverProduction]⟩⟩
      rintro _ _ ⟨rfl, rfl⟩
      exact ⟨nofun, .number, rfl, rfl⟩
  | identifier span =>
      refine ⟨rfl, Tree.throughout_node.mpr ⟨?_, by simp [OverProduction]⟩⟩
      rintro _ _ ⟨rfl, rfl⟩
      exact ⟨nofun, .identifier, rfl, rfl⟩
  | binary op left span right ihl ihr =>
      refine ⟨rfl, Tree.throughout_node.mpr ⟨?_, ?_⟩⟩
      · rintro _ _ ⟨rfl, rfl⟩
        have symbols : [left.toTree, .leaf ⟨op.lexeme, span⟩, right.toTree].map Tree.symbol =
            [.inr .expr, .inl op.lexeme, .inr .expr] := by
          simp [ihl.root, ihr.root]
        rw [symbols]
        refine ⟨nofun, ?_⟩
        cases op with
        | plus => exact ⟨.sum, rfl, rfl⟩
        | minus => exact ⟨.difference, rfl, rfl⟩
        | times => exact ⟨.product, rfl, rfl⟩
        | divide => exact ⟨.quotient, rfl, rfl⟩
      · simp [OverProduction, ihl.nodes, ihr.nodes]
  | group opening inner closing ih =>
      refine ⟨rfl, Tree.throughout_node.mpr ⟨?_, ?_⟩⟩
      · rintro _ _ ⟨rfl, rfl⟩
        refine ⟨nofun, .parentheses, rfl, ?_⟩
        simp [ih.root, Production.rhs]
      · simp [OverProduction, ih.nodes]

/-- What is over its operands is neither a sum nor a product, or a binary expression. -/
theorem overOperands_of_level {e : Expr} (atom : e.level = 3) : OverOperands e.toTree := by
  constructor
  · intro _ _ _ _ _ additive
    have := e.additive_toTree.mp additive
    omega
  · intro _ _ _ _ _ multiplicative
    have := e.multiplicative_toTree.mp multiplicative
    omega
  · intro _ _ _ _ _ multiplicative
    have := e.multiplicative_toTree.mp multiplicative
    omega

/-- On a binary expression, the conditions on operands compare levels. -/
theorem overOperands_binary {op : Operator} {left right : Expr} {span : Span} :
    OverOperands (binary op left span right).toTree ↔
      op.level ≤ left.level ∧ op.level < right.level := by
  have additive := (binary op left span right).additive_toTree
  have multiplicative := (binary op left span right).multiplicative_toTree
  have left_pos := left.level_pos
  have right_pos := right.level_pos
  constructor
  · intro h
    have sum := h.right_of_additive _ _ _ _ rfl
    have product := h.left_of_multiplicative _ _ _ _ rfl
    have product' := h.right_of_multiplicative _ _ _ _ rfl
    rw [additive, additive_toTree] at sum
    rw [multiplicative, additive_toTree] at product
    rw [multiplicative, additive_toTree, multiplicative_toTree] at product'
    rcases op.level_eq with isSum | isProduct
    · have := sum isSum
      omega
    · have := product isProduct
      have := product' isProduct
      omega
  · rintro ⟨onLeft, onRight⟩
    constructor
    · rintro _ _ _ _ ⟨rfl, rfl⟩ isAdditive
      have := additive.mp isAdditive
      rw [additive_toTree]
      simp only [level] at this
      omega
    · rintro _ _ _ _ ⟨rfl, rfl⟩ isMultiplicative
      have := multiplicative.mp isMultiplicative
      rw [additive_toTree]
      simp only [level] at this
      omega
    · rintro _ _ _ _ ⟨rfl, rfl⟩ isMultiplicative
      have := multiplicative.mp isMultiplicative
      rw [additive_toTree, multiplicative_toTree]
      simp only [level] at this
      omega

theorem overOperands_leaf (token : Token Lexeme) : OverOperands (.leaf token) := by
  constructor <;> nofun

/-- Grouping by precedence is ordering by levels. -/
theorem grouped_toTree (e : Expr) : Grouped e.toTree ↔ e.Ordered := by
  induction e with
  | number span =>
      have here := overOperands_of_level (e := number span) rfl
      exact iff_of_true (Tree.throughout_node.mpr ⟨here, by simp [overOperands_leaf]⟩) trivial
  | identifier span =>
      have here := overOperands_of_level (e := identifier span) rfl
      exact iff_of_true (Tree.throughout_node.mpr ⟨here, by simp [overOperands_leaf]⟩) trivial
  | binary op left span right ihl ihr =>
      have node : Grouped (binary op left span right).toTree ↔
          OverOperands (binary op left span right).toTree ∧
            Grouped left.toTree ∧ Grouped right.toTree := by
        rw [Grouped, toTree, Tree.throughout_node]
        simp [overOperands_leaf, Grouped]
      rw [node, overOperands_binary, ihl, ihr, Ordered, and_comm, and_assoc]
  | group opening inner closing ih =>
      have node : Grouped (group opening inner closing).toTree ↔ Grouped inner.toTree := by
        rw [Grouped, toTree, Tree.throughout_node]
        have here := overOperands_of_level (e := group opening inner closing) rfl
        simp only [toTree] at here
        simp [overOperands_leaf, Grouped, here]
      rw [node, ih, Ordered]

/-- The trees that are derived and grouped are those of ordered expressions. -/
theorem exists_ordered_iff {t : Tree Lexeme Phrase} :
    (Derived t ∧ Grouped t) ↔ ∃ e : Expr, e.toTree = t ∧ e.Ordered := by
  constructor
  · rintro ⟨derived, grouped⟩
    obtain ⟨e, rfl⟩ := derived.exists_expr
    exact ⟨e, rfl, e.grouped_toTree.mp grouped⟩
  · rintro ⟨e, rfl, ordered⟩
    exact ⟨e.derived_toTree, e.grouped_toTree.mpr ordered⟩

end Expr

end Expression

end TableParsing
