import Mathlib.Data.List.Forall2

/-!
# Lists that correspond element by element

What is related element by element has related elements at every index, or none in either list. To
map each element of a list with a function that may fail is to ask for a list of results that
corresponds to it.
-/

namespace TableParsing

variable {α β : Type} {R : α → β → Prop} {xs : List α} {ys : List β}

theorem getElem?_rel (related : List.Forall₂ R xs ys) (i : Nat) :
    Option.Rel R xs[i]? ys[i]? := by
  induction related generalizing i with
  | nil => exact .none
  | cons first _ ih =>
      cases i with
      | zero => exact .some first
      | succ i => exact ih i

theorem exists_getElem?_of_forall₂ {x : α} {i : Nat} (related : List.Forall₂ R xs ys)
    (listed : xs[i]? = some x) : ∃ y, ys[i]? = some y ∧ R x y := by
  have both := getElem?_rel related i
  rw [listed] at both
  cases found : ys[i]? with
  | none =>
      rw [found] at both
      cases both
  | some y =>
      rw [found] at both
      cases both with
      | some here => exact ⟨y, rfl, here⟩

/-- Mapping succeeds for a list if it does for each element. -/
theorem mapM_eq_some_iff {f : α → Option β} :
    xs.mapM f = some ys ↔ List.Forall₂ (fun x y => f x = some y) xs ys := by
  induction xs generalizing ys with
  | nil =>
      rw [List.mapM_nil, List.forall₂_nil_left_iff]
      exact ⟨fun h => (Option.some.inj h).symm, fun h => congrArg some h.symm⟩
  | cons x xs ih =>
      rw [List.forall₂_cons_left_iff, List.mapM_cons]
      constructor
      · intro h
        obtain ⟨y, first, h⟩ := Option.bind_eq_some_iff.mp h
        obtain ⟨rest, others, h⟩ := Option.bind_eq_some_iff.mp h
        exact ⟨y, rest, first, ih.mp others, (Option.some.inj h).symm⟩
      · rintro ⟨y, rest, first, others, rfl⟩
        rw [first, ih.mpr others]
        rfl

end TableParsing
