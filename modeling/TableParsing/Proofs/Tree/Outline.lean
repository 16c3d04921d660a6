import TableParsing.Expression.Alphabet
import TableParsing.Tree.Display
import TableParsing.Proofs.Tree.Preorder

/-!
# What an outline tells of a tree

Every line of an outline tells three things: how deep a node is, its label, and whether it is a leaf
and with which text. They can be read off the line if labels are plain: the blanks in front tell the
depth, the first colon ends the label, and only at a leaf something follows it. A text may hold
blanks and colons, or nothing at all, since it ends where the line does. Lines in turn can be read
off an outline if no text holds a line break.

Depths in preorder tell the shape of a tree: the nodes below a root end where a line is as deep as
the root or less. So the outline of a tree is known by its shape, its labels and the texts at its
leaves, and the other way round.
-/

namespace TableParsing

/-- A label that can be told from what stands around it: it begins with no blank, and holds neither
a colon nor a line break. -/
structure PlainLabel (label : String) : Prop where
  noIndent : label.toList.head? ≠ some ' '
  noColon : ':' ∉ label.toList
  noBreak : '\n' ∉ label.toList

/-- What a line of an outline tells: the depth of a node, its label, and at a leaf the text. -/
structure OutlineLine where
  depth : Nat
  label : String
  text? : Option String

namespace OutlineLine

/-- What stands behind the colon. -/
def remark : Option String → List Char
  | some text => ' ' :: text.toList
  | none => []

/-- A line as it is printed, without the line break at its end. -/
def chars (line : OutlineLine) : List Char :=
  List.replicate (2 * line.depth) ' ' ++ (line.label.toList ++ ':' :: remark line.text?)

def print (lines : List OutlineLine) : List Char := lines.flatMap fun line => line.chars ++ ['\n']

/-- A line that can be read back. -/
structure Legible (line : OutlineLine) : Prop where
  label : PlainLabel line.label
  text : ∀ text, line.text? = some text → '\n' ∉ text.toList

theorem remark_inj {text text' : Option String} : remark text = remark text' ↔ text = text' := by
  cases text <;> cases text' <;> simp [remark, String.toList_inj]

/-- Blanks end where something else begins. -/
theorem replicate_append_inj {m n : Nat} {cs ds : List Char} (flush : cs.head? ≠ some ' ')
    (flush' : ds.head? ≠ some ' ')
    (same : List.replicate m ' ' ++ cs = List.replicate n ' ' ++ ds) : m = n ∧ cs = ds := by
  induction m generalizing n with
  | zero =>
      cases n with
      | zero => exact ⟨rfl, same⟩
      | succ n => exact (flush (congrArg List.head? same)).elim
  | succ m ih =>
      cases n with
      | zero => exact (flush' (congrArg List.head? same).symm).elim
      | succ n =>
          obtain ⟨rfl, rest⟩ := ih (List.cons.inj same).2
          exact ⟨rfl, rest⟩

/-- A part ends where a character stands for the first time. -/
theorem append_cons_inj {c : Char} {cs ds rest rest' : List Char} (absent : c ∉ cs)
    (absent' : c ∉ ds) (same : cs ++ c :: rest = ds ++ c :: rest') : cs = ds ∧ rest = rest' := by
  induction cs generalizing ds with
  | nil =>
      cases ds with
      | nil => exact ⟨rfl, (List.cons.inj same).2⟩
      | cons d ds =>
          obtain rfl := (List.cons.inj same).1
          exact (absent' List.mem_cons_self).elim
  | cons b cs ih =>
      cases ds with
      | nil =>
          obtain rfl := (List.cons.inj same).1
          exact (absent List.mem_cons_self).elim
      | cons d ds =>
          obtain ⟨rfl, tails⟩ := List.cons.inj same
          obtain ⟨rfl, rest⟩ := ih (fun mem => absent (List.mem_cons_of_mem _ mem))
            (fun mem => absent' (List.mem_cons_of_mem _ mem)) tails
          exact ⟨rfl, rest⟩

theorem head?_append_colon {label : String} (plain : PlainLabel label) (rest : List Char) :
    (label.toList ++ ':' :: rest).head? ≠ some ' ' := by
  have first := plain.noIndent
  cases letters : label.toList with
  | nil => simp
  | cons c cs => simpa [letters] using first

/-- A line can be read back. -/
theorem chars_inj {line line' : OutlineLine} (plain : PlainLabel line.label)
    (plain' : PlainLabel line'.label) (same : line.chars = line'.chars) : line = line' := by
  obtain ⟨depths, rest⟩ := replicate_append_inj (head?_append_colon plain _)
    (head?_append_colon plain' _) same
  obtain ⟨labels, remarks⟩ := append_cons_inj plain.noColon plain'.noColon rest
  obtain ⟨depth, label, text⟩ := line
  obtain ⟨depth', label', text'⟩ := line'
  obtain rfl : depth = depth' := Nat.eq_of_mul_eq_mul_left Nat.two_pos depths
  obtain rfl := String.toList_inj.mp labels
  obtain rfl := remark_inj.mp remarks
  rfl

theorem Legible.noBreak {line : OutlineLine} (h : line.Legible) : '\n' ∉ line.chars := by
  have inRemark : '\n' ∉ remark line.text? := by
    cases shown : line.text? with
    | none => simp [remark]
    | some text => simpa [remark] using h.text text shown
  simp [chars, h.label.noBreak, inRemark]

/-- Lines can be read back. -/
theorem print_inj {lines lines' : List OutlineLine} (legible : ∀ line ∈ lines, line.Legible)
    (legible' : ∀ line ∈ lines', line.Legible) (same : print lines = print lines') :
    lines = lines' := by
  induction lines generalizing lines' with
  | nil =>
      cases lines' with
      | nil => rfl
      | cons line' lines' => simp [print] at same
  | cons line lines ih =>
      cases lines' with
      | nil => simp [print] at same
      | cons line' lines' =>
          have first := legible line List.mem_cons_self
          have first' := legible' line' List.mem_cons_self
          have split : line.chars ++ '\n' :: print lines = line'.chars ++ '\n' :: print lines' := by
            simpa [print] using same
          obtain ⟨chars, rest⟩ := append_cons_inj first.noBreak first'.noBreak split
          rw [chars_inj first.label first'.label chars,
            ih (fun l mem => legible l (List.mem_cons_of_mem _ mem))
              (fun l mem => legible' l (List.mem_cons_of_mem _ mem)) rest]

end OutlineLine

namespace Tree

variable {T N : Type} [Labelled T] [Labelled N] {src src' : Source}

/-- What the outline tells of a node at a depth. -/
def outlineLine (src : Source) (v : Nat × Tree T N) : OutlineLine :=
  ⟨v.1, v.2.label, v.2.token?.map (Token.shown · src)⟩

/-- Two trees of the same shape with the same labels, whose leaves show the same texts, each in its
own source. -/
inductive ShownAlike (src src' : Source) : Tree T N → Tree T N → Prop where
  | leaf {a b : Token T} (label : Labelled.label a.terminal = Labelled.label b.terminal)
      (text : a.shown src = b.shown src') : ShownAlike src src' (.leaf a) (.leaf b)
  | node {n m : N} {ts us : List (Tree T N)} (label : Labelled.label n = Labelled.label m)
      (children : List.Forall₂ (ShownAlike src src') ts us) :
      ShownAlike src src' (.node n ts) (.node m us)

/-- No leaf shows a text with a line break. -/
def SingleLined (src : Source) (t : Tree T N) : Prop :=
  ∀ token ∈ t.frontier, '\n' ∉ (token.shown src).toList

instance (src : Source) (t : Tree T N) : Decidable (t.SingleLined src) :=
  inferInstanceAs (Decidable (∀ token ∈ t.frontier, _))

theorem toList_pushn (s : String) (c : Char) (n : Nat) :
    (s.pushn c n).toList = s.toList ++ List.replicate n c := by
  rw [String.pushn_eq_repeat_push]
  induction n with
  | zero => exact (List.append_nil _).symm
  | succ n ih =>
      show ((Nat.repeat (fun s => s.push c) n s).push c).toList = _
      rw [String.toList_push, ih, List.append_assoc, ← List.replicate_succ']

theorem toList_addLine (src : Source) (outline : String) (v : Nat × Tree T N) :
    (addLine src outline v).toList = outline.toList ++ ((outlineLine src v).chars ++ ['\n']) := by
  obtain ⟨depth, t⟩ := v
  cases t <;> simp [addLine, outlineLine, OutlineLine.chars, OutlineLine.remark, token?,
    toList_pushn]

theorem toList_foldl_addLine (src : Source) (outline : String) (nodes : List (Nat × Tree T N)) :
    (nodes.foldl (addLine src) outline).toList =
      outline.toList ++ OutlineLine.print (nodes.map (outlineLine src)) := by
  induction nodes generalizing outline with
  | nil => exact (List.append_nil _).symm
  | cons v nodes ih =>
      rw [List.foldl_cons, ih, toList_addLine, List.append_assoc]
      rfl

/-- An outline is a line for each node in preorder. -/
theorem toList_display (t : Tree T N) (src : Source) :
    (t.display src).toList = OutlineLine.print ((t.preorderFrom 0).map (outlineLine src)) := by
  rw [display, fold_depthWalk, toList_foldl_addLine]
  rfl

omit [Labelled T] [Labelled N] in
theorem mem_frontier_of_mem_preorderFrom {t : Tree T N} {depth level : Nat} {token : Token T}
    (mem : (level, .leaf token) ∈ t.preorderFrom depth) : token ∈ t.frontier := by
  rw [← filterMap_token?_preorder, ← map_snd_preorderFrom depth]
  exact List.mem_filterMap.mpr ⟨_, List.mem_map_of_mem mem, rfl⟩

/-- The lines of a tree can be read back if labels are plain and texts are on one line. -/
theorem SingleLined.legible {t : Tree T N} (single : t.SingleLined src)
    (terminals : ∀ a : T, PlainLabel (Labelled.label a))
    (nonterminals : ∀ n : N, PlainLabel (Labelled.label n)) :
    ∀ line ∈ (t.preorderFrom 0).map (outlineLine src), line.Legible := by
  intro line mem
  obtain ⟨⟨depth, u⟩, inTree, rfl⟩ := List.mem_map.mp mem
  cases u with
  | leaf token =>
      refine ⟨terminals token.terminal, ?_⟩
      intro text shown
      obtain rfl := Option.some.inj shown
      exact single token (mem_frontier_of_mem_preorderFrom inTree)
  | node n children => exact ⟨nonterminals n, nofun⟩

/-- Lines that stand behind trees at a depth: they begin with one that is less deep. -/
def Behind (depth : Nat) (lines : List OutlineLine) : Prop :=
  ∀ line ∈ lines.head?, line.depth < depth

theorem behind_nil (depth : Nat) : Behind depth [] := by
  intro line mem
  cases mem

theorem shownAlike_of_outlineLine {t u : Tree T N} {depth : Nat}
    (roots : outlineLine src (depth, t) = outlineLine src' (depth, u))
    (children : List.Forall₂ (ShownAlike src src') t.children u.children) :
    t.ShownAlike src src' u := by
  obtain ⟨-, label, text⟩ := OutlineLine.mk.inj roots
  cases t with
  | leaf a =>
      cases u with
      | leaf b => exact .leaf label (Option.some.inj text)
      | node => cases text
  | node n ts =>
      cases u with
      | leaf => cases text
      | node m us => exact .node label children

def forestLines (src : Source) (depth : Nat) (ts : List (Tree T N)) : List OutlineLine :=
  (forestPreorderFrom depth ts).map (outlineLine src)

theorem forestLines_cons (depth : Nat) (t : Tree T N) (ts : List (Tree T N)) :
    forestLines src depth (t :: ts) =
      outlineLine src (depth, t) ::
        (forestLines src (depth + 1) t.children ++ forestLines src depth ts) := by
  rw [forestLines, forestPreorderFrom, preorderFrom_eq, List.map_append, List.map_cons,
    List.cons_append]
  rfl

/-- Behind the children of a node stand its later siblings, or what is behind these. -/
theorem Behind.forestLines {depth : Nat} {rest : List OutlineLine} (behind : Behind depth rest)
    (ts : List (Tree T N)) : Behind (depth + 1) (forestLines src depth ts ++ rest) := by
  cases ts with
  | nil =>
      intro line mem
      exact Nat.lt_succ_of_lt (behind line mem)
  | cons t ts =>
      rw [forestLines_cons]
      intro line mem
      obtain rfl := Option.some.inj mem
      exact Nat.lt_succ_self depth

theorem Behind.ne_cons {depth : Nat} {rest lines : List OutlineLine} (behind : Behind depth rest)
    (t : Tree T N) : outlineLine src (depth, t) :: lines ≠ rest := by
  rintro rfl
  exact Nat.lt_irrefl depth (behind _ rfl)

omit [Labelled T] [Labelled N] in
/-- Induction over a list of trees, by the children of the first and by the others. -/
@[elab_as_elim]
theorem forest_induction {motive : List (Tree T N) → Prop} (nil : motive [])
    (cons : ∀ t ts, motive t.children → motive ts → motive (t :: ts)) (ts : List (Tree T N)) :
    motive ts := by
  cases ts with
  | nil => exact nil
  | cons t ts =>
      apply cons
      · exact forest_induction nil cons t.children
      · exact forest_induction nil cons ts
termination_by forestSize ts
decreasing_by
  all_goals
    simp only [forestSize, size_eq_succ_children t]
    omega

/-- Trees at a depth can be read off their lines, whatever less deep lines stand behind them. -/
theorem forest_of_lines {ts us : List (Tree T N)} {depth : Nat} {rest rest' : List OutlineLine}
    (behind : Behind depth rest) (behind' : Behind depth rest')
    (same : forestLines src depth ts ++ rest = forestLines src' depth us ++ rest') :
    List.Forall₂ (ShownAlike src src') ts us ∧ rest = rest' := by
  induction ts using forest_induction generalizing us depth rest rest' with
  | nil =>
      cases us with
      | nil => exact ⟨.nil, same⟩
      | cons u us =>
          rw [forestLines_cons] at same
          exact (behind.ne_cons u same.symm).elim
  | cons t ts below later =>
      rw [forestLines_cons] at same
      cases us with
      | nil => exact (behind'.ne_cons t same).elim
      | cons u us =>
          rw [forestLines_cons, List.cons_append, List.cons_append, List.append_assoc,
            List.append_assoc] at same
          obtain ⟨roots, same⟩ := List.cons.inj same
          obtain ⟨children, same⟩ :=
            below (behind.forestLines ts) (behind'.forestLines us) same
          obtain ⟨siblings, rests⟩ := later behind behind' same
          exact ⟨.cons (shownAlike_of_outlineLine roots children) siblings, rests⟩

mutual

theorem ShownAlike.lines_eq (depth : Nat) {t u : Tree T N} : t.ShownAlike src src' u →
    (t.preorderFrom depth).map (outlineLine src) = (u.preorderFrom depth).map (outlineLine src')
  | .leaf label text => by
      simp only [preorderFrom, List.map_cons, List.map_nil, outlineLine, Tree.label, token?,
        Option.map_some, label, text]
  | .node label children => by
      have below := ShownAlike.forestLines_eq (depth + 1) children
      simp only [preorderFrom, List.map_cons, outlineLine, Tree.label, token?, Option.map_none,
        label]
      exact congrArg _ below

theorem ShownAlike.forestLines_eq (depth : Nat) {ts us : List (Tree T N)} :
    List.Forall₂ (ShownAlike src src') ts us →
      forestLines src depth ts = forestLines src' depth us
  | .nil => rfl
  | .cons first rest => by
      have here := ShownAlike.lines_eq depth first
      have later := ShownAlike.forestLines_eq depth rest
      simp only [forestLines, forestPreorderFrom, List.map_append] at later ⊢
      rw [here, later]

end

/-- Outlines of trees with plain labels and texts on one line are the same exactly if the trees are
shown alike. -/
theorem display_eq_iff {t u : Tree T N} (terminals : ∀ a : T, PlainLabel (Labelled.label a))
    (nonterminals : ∀ n : N, PlainLabel (Labelled.label n)) (single : t.SingleLined src)
    (single' : u.SingleLined src') : t.display src = u.display src' ↔ t.ShownAlike src src' u := by
  rw [← String.toList_inj, toList_display, toList_display]
  constructor
  · intro same
    have lines := OutlineLine.print_inj (single.legible terminals nonterminals)
      (single'.legible terminals nonterminals) same
    have forests : forestLines src 0 [t] ++ [] = forestLines src' 0 [u] ++ [] := by
      simpa [forestLines, forestPreorderFrom] using lines
    have alike := (forest_of_lines (behind_nil 0) (behind_nil 0) forests).1
    cases alike with
    | cons alike _ => exact alike
  · intro alike
    rw [alike.lines_eq]

end Tree

namespace Expression

theorem plainLabel_lexeme (t : Lexeme) : PlainLabel (Labelled.label t) := by
  cases t <;> exact ⟨by decide, by decide, by decide⟩

theorem plainLabel_phrase (n : Phrase) : PlainLabel (Labelled.label n) := by
  cases n <;> exact ⟨by decide, by decide, by decide⟩

/-- The outline of an expression tells the tree: its shape, the label of every node and the text of
every leaf, and nothing else. The text of a leaf is the part of the source that its token covers, in
a lossy reading, or a question mark if it does not fit. -/
theorem display_faithful {t u : Tree Lexeme Phrase} {src src' : Source}
    (single : t.SingleLined src) (single' : u.SingleLined src') :
    (t.display src = u.display src' ↔ t.ShownAlike src src' u) ∧
    ∀ (token : Token Lexeme) (source : Source), token.shown source =
      if token.span.Fits source then
        Utf8.decodeLossy ((source.toList.drop token.span.start).take token.span.length)
      else "?" := by
  refine ⟨Tree.display_eq_iff plainLabel_lexeme plainLabel_phrase single single', ?_⟩
  intro token source
  rw [Token.shown, Token.bytes?]
  cases covered : token.span.slice? source with
  | none => rw [if_neg (Span.slice?_eq_none_iff.mp covered)]
  | some bytes =>
      have fits : token.span.Fits source := by
        by_contra misfit
        cases covered.symm.trans (Span.slice?_eq_none_iff.mpr misfit)
      rw [if_pos fits]
      exact congrArg Utf8.decodeLossy (Span.toList_of_slice? covered)

/-- A letter, a colon, a blank and a byte that is no character. -/
def oddSource : Source := #[0x4E, 0x3A, 0x20, 0xFF]

/-- Leaves that show all of that source, nothing of it, and what does not fit it. -/
def oddLeaves : List (Tree Lexeme Phrase) :=
  [.leaf ⟨.ident, ⟨0, 4⟩⟩, .leaf ⟨.num, ⟨2, 2⟩⟩, .leaf ⟨.finish, ⟨9, 4⟩⟩]

/-- The same labels and texts in the same order, below an inner node or behind it. -/
theorem display_nested_ne :
    (Tree.node .expr [.node .expr oddLeaves]).SingleLined oddSource ∧
    (Tree.node .expr (.node .expr [] :: oddLeaves)).SingleLined oddSource ∧
    (Tree.node .expr [.node .expr oddLeaves]).display oddSource ≠
      (Tree.node .expr (.node .expr [] :: oddLeaves)).display oddSource := by
  have single : (Tree.node .expr [.node .expr oddLeaves]).SingleLined oddSource := by
    decide +kernel
  have single' : (Tree.node .expr (.node .expr [] :: oddLeaves)).SingleLined oddSource := by
    decide +kernel
  refine ⟨single, single', fun same => ?_⟩
  cases (display_faithful single single').1.mp same with
  | node label children =>
      cases children with
      | cons first rest => cases rest

end Expression

end TableParsing
