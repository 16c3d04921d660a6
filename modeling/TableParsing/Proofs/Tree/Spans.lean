import Mathlib.Data.List.Pairwise
import TableParsing.Proofs.Tree.Traversal

/-!
# Spans of trees

A tree spans from its first token to its last one, so its span is known from its tokens alone. If
the tokens lie in a source one behind the other, then so do the spans of the children of a node, and
the span of the node is the hull of theirs. A child without tokens has no span and adds nothing to
either side.

What is assumed of the tokens of a tree holds for those of its subtrees as well, since the tokens of
a subtree are among them in the same order. Hence nothing has to be proved by recursion on trees but
that.
-/

namespace TableParsing

namespace Span

/-- A span begins behind the beginning of another one, and not before its end. -/
def Before (s t : Span) : Prop := s.start < t.start ∧ s.stop ≤ t.start

def Within (s t : Span) : Prop := t.start ≤ s.start ∧ s.stop ≤ t.stop

/-- Spans that lie in a source one behind the other. -/
structure Ordered (src : Source) (spans : List Span) : Prop where
  fits : ∀ s ∈ spans, s.Fits src
  before : spans.Pairwise Before

/-- From the start of the first span to the end of the last one. -/
def hull? (spans : List Span) : Option Span :=
  match spans.head?, spans.getLast? with
  | some first, some last => some ⟨first.start, last.stop⟩
  | _, _ => none

variable {src : Source} {spans : List Span} {s whole : Span}

theorem hull?_nil : hull? [] = none := rfl

theorem hull?_singleton (s : Span) : hull? [s] = some s := rfl

theorem hull?_of_ne_nil (h : spans ≠ []) :
    hull? spans = some ⟨(spans.head h).start, (spans.getLast h).stop⟩ := by
  rw [hull?, List.head?_eq_some_head h, List.getLast?_eq_some_getLast h]

theorem hull?_eq_none_iff : hull? spans = none ↔ spans = [] := by
  constructor
  · intro missing
    by_contra nonempty
    cases (hull?_of_ne_nil nonempty).symm.trans missing
  · rintro rfl
    rfl

/-- The hull of two lists begins with the hull of the first, and ends with that of the second. -/
theorem hull?_append (spans spans' : List Span) :
    hull? (spans ++ spans') =
      (hull? spans).merge (fun s t => ⟨s.start, t.stop⟩) (hull? spans') := by
  rcases eq_or_ne spans [] with rfl | nonempty
  · simp [hull?_nil]
  · rcases eq_or_ne spans' [] with rfl | nonempty'
    · simp [hull?_nil]
    · rw [hull?_of_ne_nil nonempty, hull?_of_ne_nil nonempty',
        hull?_of_ne_nil (List.append_ne_nil_of_left_ne_nil nonempty spans'),
        List.head_append_of_ne_nil nonempty, List.getLast_append_of_ne_nil _ nonempty']
      rfl

theorem exists_ends_of_hull? (h : hull? spans = some whole) :
    ∃ first ∈ spans, ∃ last ∈ spans, whole = ⟨first.start, last.stop⟩ := by
  have nonempty : spans ≠ [] := by
    rintro rfl
    cases h
  rw [hull?_of_ne_nil nonempty] at h
  exact ⟨_, List.head_mem nonempty, _, List.getLast_mem nonempty, (Option.some.inj h).symm⟩

namespace Ordered

theorem sublist {spans' : List Span} (h : Ordered src spans') (sub : spans.Sublist spans') :
    Ordered src spans :=
  ⟨fun s mem => h.fits s (sub.subset mem), h.before.sublist sub⟩

/-- No end of a span lies before that of an earlier one. -/
theorem ascending (h : Ordered src spans) :
    spans.Pairwise fun s t => s.start ≤ t.start ∧ s.stop ≤ t.stop := by
  refine h.before.imp_of_mem ?_
  intro s t _ mem before
  have fits := h.fits t mem
  exact ⟨Nat.le_of_lt before.1, Nat.le_trans before.2 fits.1⟩

theorem head_le (h : Ordered src spans) (mem : s ∈ spans) (nonempty : spans ≠ []) :
    (spans.head nonempty).start ≤ s.start ∧ (spans.head nonempty).stop ≤ s.stop :=
  h.ascending.rel_head_of_rel_head_head mem ⟨Nat.le_refl _, Nat.le_refl _⟩

theorem le_getLast (h : Ordered src spans) (mem : s ∈ spans) (nonempty : spans ≠ []) :
    s.start ≤ (spans.getLast nonempty).start ∧ s.stop ≤ (spans.getLast nonempty).stop :=
  h.ascending.rel_getLast_of_rel_getLast_getLast mem ⟨Nat.le_refl _, Nat.le_refl _⟩

/-- The hull reaches as far as all spans together. -/
theorem hull?_eq_merge (h : Ordered src spans) (nonempty : spans ≠ []) :
    hull? spans = some ((spans.head nonempty).merge (spans.getLast nonempty)) := by
  have ends := h.head_le (List.getLast_mem nonempty) nonempty
  rw [hull?_of_ne_nil nonempty, merge, Nat.min_eq_left ends.1, Nat.max_eq_right ends.2]

/-- All spans lie within their hull. -/
theorem within_hull? (h : Ordered src spans) (mem : s ∈ spans) (hull : hull? spans = some whole) :
    s.Within whole := by
  have nonempty := List.ne_nil_of_mem mem
  obtain rfl := Option.some.inj ((hull?_of_ne_nil nonempty).symm.trans hull)
  exact ⟨(h.head_le mem nonempty).1, (h.le_getLast mem nonempty).2⟩

theorem fits_of_hull? (h : Ordered src spans) (hull : hull? spans = some whole) :
    whole.Fits src := by
  obtain ⟨first, memFirst, last, memLast, rfl⟩ := exists_ends_of_hull? hull
  have upper := (h.within_hull? memFirst hull).2
  exact ⟨Nat.le_trans (h.fits first memFirst).1 upper, (h.fits last memLast).2⟩

/-- The hull of spans that lie behind others lies behind the hull of those. -/
theorem before_of_hulls {spans' : List Span} {whole' : Span} (h : Ordered src (spans ++ spans'))
    (hull : hull? spans = some whole) (hull' : hull? spans' = some whole') :
    whole.Before whole' := by
  obtain ⟨first, memFirst, last, memLast, rfl⟩ := exists_ends_of_hull? hull
  obtain ⟨first', memFirst', _, _, rfl⟩ := exists_ends_of_hull? hull'
  have across := (List.pairwise_append.mp h.before).2.2
  exact ⟨(across first memFirst first' memFirst').1, (across last memLast first' memFirst').2⟩

end Ordered

end Span

namespace Tree

variable {T N : Type} {src : Source} {t u : Tree T N} {ts : List (Tree T N)}

/-- Searching from the right finds the last token. -/
theorem rightmostToken?_eq (work : List (Tree T N)) :
    rightmostToken? work = (forestFrontier work.reverse).getLast? := by
  fun_induction rightmostToken? work with
  | case1 => rfl
  | case2 token work => simp [forestFrontier_append, forestFrontier, frontier]
  | case3 n children work ih =>
      simp only [List.unattach_reverse, List.unattach_attach] at ih
      simpa [forestFrontier_append, forestFrontier, frontier] using ih

theorem leafWalk_next_eq (t : Tree T N) : t.leafWalk.next.map Prod.fst = t.frontier.head? := by
  have same : forestFrontier t.preorderWalk.work = t.frontier := List.append_nil _
  rw [← same, leafWalk, Leaves.next]
  cases found : Leaves.seek t.preorderWalk with
  | none =>
      rw [Leaves.frontier_of_seek_eq_none found]
      rfl
  | some next =>
      rw [Leaves.frontier_of_seek found]
      rfl

/-- The span of a tree is that of its first token, merged with that of its last one. -/
theorem span?_eq (t : Tree T N) :
    t.span? =
      match t.frontier.head?, t.frontier.getLast? with
      | some first, some last => some (first.span.merge last.span)
      | _, _ => none := by
  have last : rightmostToken? [t] = t.frontier.getLast? := by
    simp [rightmostToken?_eq, forestFrontier]
  rw [span?, last, ← leafWalk_next_eq]
  cases t.leafWalk.next <;> cases t.frontier.getLast? <;> rfl

mutual

/-- A subtree has some of the tokens, in the same order. -/
theorem frontier_sublist_of_mem_postorder {t u : Tree T N} (mem : u ∈ t.postorder) :
    u.frontier.Sublist t.frontier := by
  cases t with
  | leaf token =>
      obtain rfl := List.mem_singleton.mp mem
      exact List.Sublist.refl _
  | node n children =>
      rcases List.mem_append.mp mem with below | atRoot
      · exact frontier_sublist_of_mem_forestPostorder below
      · obtain rfl := List.mem_singleton.mp atRoot
        exact List.Sublist.refl _

/-- A subtree of one of several trees has some of their tokens, in the same order. -/
theorem frontier_sublist_of_mem_forestPostorder {ts : List (Tree T N)} {u : Tree T N}
    (mem : u ∈ forestPostorder ts) :
    u.frontier.Sublist (forestFrontier ts) := by
  cases ts with
  | nil => cases mem
  | cons t ts =>
      rcases List.mem_append.mp mem with first | later
      · exact (frontier_sublist_of_mem_postorder first).trans (List.sublist_append_left _ _)
      · exact (frontier_sublist_of_mem_forestPostorder later).trans
          (List.sublist_append_right _ _)

end

theorem frontier_sublist_of_mem (mem : u ∈ ts) : u.frontier.Sublist (forestFrontier ts) := by
  induction ts with
  | nil => cases mem
  | cons t ts ih =>
      rcases List.mem_cons.mp mem with rfl | later
      · exact List.sublist_append_left _ _
      · exact (ih later).trans (List.sublist_append_right _ _)

/-- The span of a tree is the hull of the spans of its tokens, if these lie in order. -/
theorem span?_of_ordered (h : Span.Ordered src (t.frontier.map Token.span)) :
    t.span? = Span.hull? (t.frontier.map Token.span) := by
  rw [span?_eq]
  rcases eq_or_ne t.frontier [] with empty | nonempty
  · rw [empty]
    rfl
  · have nonempty' : t.frontier.map Token.span ≠ [] := by simpa using nonempty
    rw [h.hull?_eq_merge nonempty', List.head_map, List.getLast_map,
      List.head?_eq_some_head nonempty, List.getLast?_eq_some_getLast nonempty]

/-- Trees have the same hull as their tokens. -/
theorem hull?_spans (h : Span.Ordered src ((forestFrontier ts).map Token.span)) :
    Span.hull? (ts.filterMap span?) = Span.hull? ((forestFrontier ts).map Token.span) := by
  induction ts with
  | nil => rfl
  | cons t ts ih =>
      rw [forestFrontier, List.map_append] at h ⊢
      have first := span?_of_ordered (h.sublist (List.sublist_append_left _ _))
      have rest := ih (h.sublist (List.sublist_append_right _ _))
      rw [Span.hull?_append, ← first, ← rest]
      cases spanned : t.span? with
      | none =>
          rw [List.filterMap_cons_none spanned, Option.merge_none_left]
      | some s =>
          rw [List.filterMap_cons_some spanned, ← List.singleton_append, Span.hull?_append,
            Span.hull?_singleton]

/-- Trees lie in order if their tokens do. Those without tokens are left out. -/
theorem ordered_spans (h : Span.Ordered src ((forestFrontier ts).map Token.span)) :
    Span.Ordered src (ts.filterMap span?) := by
  induction ts with
  | nil => exact ⟨nofun, .nil⟩
  | cons t ts ih =>
      rw [forestFrontier, List.map_append] at h
      have first := h.sublist (List.sublist_append_left _ _)
      have rest := ih (h.sublist (List.sublist_append_right _ _))
      cases spanned : t.span? with
      | none => rwa [List.filterMap_cons_none spanned]
      | some s =>
          rw [List.filterMap_cons_some spanned]
          have hull := (span?_of_ordered first).symm.trans spanned
          refine ⟨?_, List.pairwise_cons.mpr ⟨?_, rest.before⟩⟩
          · intro s' mem
            rcases List.mem_cons.mp mem with rfl | later
            · exact first.fits_of_hull? hull
            · exact rest.fits s' later
          · intro s' mem
            obtain ⟨u, inRest, spanned'⟩ := List.mem_filterMap.mp mem
            have sub := (frontier_sublist_of_mem inRest).map Token.span
            have both := h.sublist ((List.Sublist.refl (t.frontier.map Token.span)).append sub)
            have last := both.sublist (List.sublist_append_right _ _)
            exact both.before_of_hulls hull ((span?_of_ordered last).symm.trans spanned')

/-- How the span of a node and those of its children lie in a source. Children without a span are
left out. -/
structure NodeSpans (src : Source) (n : N) (children : List (Tree T N)) : Prop where
  ordered : Span.Ordered src (children.filterMap span?)
  none_iff : (node n children).span? = none ↔ ∀ child ∈ children, child.span? = none
  reaches : ∀ first last, (children.filterMap span?).head? = some first →
    (children.filterMap span?).getLast? = some last →
    (node n children).span? = some ⟨first.start, last.stop⟩

theorem nodeSpans_of_ordered {n : N} {children : List (Tree T N)}
    (h : Span.Ordered src ((node n children).frontier.map Token.span)) :
    NodeSpans src n children := by
  have hull : (node n children).span? = Span.hull? (children.filterMap span?) := by
    rw [span?_of_ordered h]
    exact (hull?_spans h).symm
  refine ⟨ordered_spans h, ?_, ?_⟩
  · rw [hull, Span.hull?_eq_none_iff, List.filterMap_eq_nil_iff]
  · intro first last isFirst isLast
    rw [hull, Span.hull?, isFirst, isLast]

/-- How the spans of the nodes of a tree lie in a source: those of children in that of their node,
those of all descendants in that of any ancestor, and all of them in the source. -/
structure SpansNest (src : Source) (t : Tree T N) : Prop where
  nodes : ∀ n children, .node n children ∈ t.postorder → NodeSpans src n children
  descendants : ∀ u ∈ t.postorder, ∀ v ∈ u.postorder, ∀ s, v.span? = some s →
    ∃ whole, u.span? = some whole ∧ s.Within whole
  fits : ∀ u ∈ t.postorder, ∀ s, u.span? = some s → s.Fits src

theorem exists_within_of_mem_postorder {s : Span}
    (h : Span.Ordered src (t.frontier.map Token.span)) (mem : u ∈ t.postorder)
    (spanned : u.span? = some s) : ∃ whole, t.span? = some whole ∧ s.Within whole := by
  have sub := (frontier_sublist_of_mem_postorder mem).map Token.span
  have hull := (span?_of_ordered (h.sublist sub)).symm.trans spanned
  obtain ⟨first, memFirst, last, memLast, rfl⟩ := Span.exists_ends_of_hull? hull
  have nonempty := List.ne_nil_of_mem (sub.subset memFirst)
  have whole := Span.hull?_of_ne_nil nonempty
  refine ⟨_, (span?_of_ordered h).trans whole, ?_, ?_⟩
  · exact (h.within_hull? (sub.subset memFirst) whole).1
  · exact (h.within_hull? (sub.subset memLast) whole).2

/-- Spans nest in a tree whose tokens lie in order. -/
theorem spansNest_of_ordered (h : Span.Ordered src (t.frontier.map Token.span)) :
    t.SpansNest src := by
  have inherited : ∀ u ∈ t.postorder, Span.Ordered src (u.frontier.map Token.span) := by
    intro u mem
    exact h.sublist ((frontier_sublist_of_mem_postorder mem).map Token.span)
  refine ⟨?_, ?_, ?_⟩
  · intro n children mem
    exact nodeSpans_of_ordered (inherited _ mem)
  · intro u mem v below s spanned
    exact exists_within_of_mem_postorder (inherited u mem) below spanned
  · intro u mem s spanned
    have ordered := inherited u mem
    exact ordered.fits_of_hull? ((span?_of_ordered ordered).symm.trans spanned)

end Tree

end TableParsing
