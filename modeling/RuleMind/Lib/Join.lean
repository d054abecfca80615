/-
  Operations that pick one of their operands, and folds of them.

  On a set where such an operation commutes and associates it is a maximum without
  an order: a fold holds an element that absorbs all the others, and there is only
  one, so that the order and the repetitions of what is folded do not matter.
-/
import Mathlib.Data.List.Basic
import Mathlib.Data.List.Induction
import Mathlib.Data.Set.Basic

namespace RuleMind

/-- `f` picks one of two elements of `T`, and the same one in any order and grouping. -/
structure Selects {α : Type} (f : α → α → α) (T : Set α) : Prop where
  picks : ∀ x ∈ T, ∀ y ∈ T, f x y = x ∨ f x y = y
  comm : ∀ x ∈ T, ∀ y ∈ T, f x y = f y x
  assoc : ∀ x ∈ T, ∀ y ∈ T, ∀ z ∈ T, f x (f y z) = f (f x y) z

namespace Selects
variable {α : Type} {f : α → α → α} {T : Set α} (h : Selects f T)
include h

theorem idem {x : α} (hx : x ∈ T) : f x x = x := (h.picks x hx x hx).elim id id

theorem absorbs_step {m x y : α} (hm : m ∈ T) (hx : x ∈ T) (hy : y ∈ T) (ha : f m x = m) :
    f (f m y) x = f m y := by
  calc f (f m y) x = f (f y m) x := by rw [h.comm m hm y hy]
    _ = f y (f m x) := (h.assoc y hy m hm x hx).symm
    _ = f m y := by rw [ha, h.comm y hy m hm]

theorem foldl_absorbs {l : List α} (hl : ∀ y ∈ l, y ∈ T) {x : α} (hx : x ∈ T) :
    l.foldl f x ∈ x :: l ∧ ∀ y ∈ x :: l, f (l.foldl f x) y = l.foldl f x := by
  induction l using List.reverseRecOn with
  | nil => simpa using h.idem hx
  | append_singleton l z ih =>
    obtain ⟨hmem, habs⟩ := ih fun y hy => hl y (List.mem_append_left _ hy)
    have hz : z ∈ T := hl z (by simp)
    have hin : ∀ y ∈ x :: l, y ∈ T := by
      intro y hy
      rcases List.mem_cons.1 hy with rfl | hy
      · exact hx
      · exact hl y (List.mem_append_left _ hy)
    have hm : l.foldl f x ∈ T := hin _ hmem
    rw [List.foldl_append, List.foldl_cons, List.foldl_nil]
    constructor
    · rcases h.picks _ hm z hz with he | he
      · grind
      · rw [he]
        simp
    · intro y hy
      rw [← List.cons_append, List.mem_append, List.mem_singleton] at hy
      rcases hy with hy | rfl
      · exact h.absorbs_step hm (hin y hy) hz (habs y hy)
      · rw [← h.assoc _ hm y hz y hz, h.idem hz]

theorem foldl_eq_of_mem_iff {l l' : List α} (hl : ∀ y ∈ l, y ∈ T) {x : α} (hx : x ∈ T)
    (hsame : ∀ y, y ∈ l ↔ y ∈ l') : l.foldl f x = l'.foldl f x := by
  have hl' : ∀ y ∈ l', y ∈ T := fun y hy => hl y ((hsame y).2 hy)
  have hcons : ∀ y, y ∈ x :: l ↔ y ∈ x :: l' := fun y => by rw [List.mem_cons, List.mem_cons, hsame]
  obtain ⟨hm, ha⟩ := h.foldl_absorbs hl hx
  obtain ⟨hm', ha'⟩ := h.foldl_absorbs hl' hx
  have hT : ∀ y ∈ x :: l, y ∈ T := by
    intro y hy
    rcases List.mem_cons.1 hy with rfl | hy
    · exact hx
    · exact hl y hy
  calc l.foldl f x = f (l.foldl f x) (l'.foldl f x) := (ha _ ((hcons _).2 hm')).symm
    _ = f (l'.foldl f x) (l.foldl f x) := h.comm _ (hT _ hm) _ (hT _ ((hcons _).2 hm'))
    _ = l'.foldl f x := ha' _ ((hcons _).1 hm)

end Selects

end RuleMind
