/-
  Replacing every occurrence of a text by another, from left to right and without overlap.

  `Apart v new`: no occurrence of `v` touches `new`, whatever stands around it.  A replacement by
  such a text brings no `v` in (`infix_replace`), and the text replaced is gone
  (`not_infix_replace`).
-/
import Mathlib.Data.List.Infix

namespace Lib

universe u
variable {α : Type u} [DecidableEq α]

/-- The replacement in what follows after `skip` more symbols. -/
def replaceFrom (old new : List α) : ℕ → List α → List α
  | _, [] => []
  | skip + 1, _ :: t => replaceFrom old new skip t
  | 0, c :: t =>
    if old.isPrefixOf (c :: t) then new ++ replaceFrom old new (old.length - 1) t
    else c :: replaceFrom old new 0 t

def replace (old new t : List α) : List α := replaceFrom old new 0 t

variable {old new v t : List α}

theorem replaceFrom_skip (skip : ℕ) (t : List α) :
    replaceFrom old new skip t = replace old new (t.drop skip) := by
  induction t generalizing skip with
  | nil =>
    rw [List.drop_nil]
    cases skip <;> rfl
  | cons c t ih =>
    cases skip with
    | zero => rfl
    | succ skip => exact ih skip

theorem replace_skip {c : α} (h : ¬ old <+: c :: t) :
    replace old new (c :: t) = c :: replace old new t := by simp_all [replace, replaceFrom]

theorem replace_hit (hold : old ≠ []) (t : List α) :
    replace old new (old ++ t) = new ++ replace old new t := by
  obtain ⟨c, cs, rfl⟩ := List.exists_cons_of_ne_nil hold
  have hprefix : (c :: cs).isPrefixOf (c :: (cs ++ t)) = true :=
    List.isPrefixOf_iff_prefix.2 (List.prefix_append (c :: cs) t)
  rw [List.cons_append, replace, replaceFrom, if_pos hprefix, replaceFrom_skip]
  simp

theorem replace_induction {motive : List α → Prop} (hold : old ≠ []) (nil : motive [])
    (skip : ∀ c t, ¬ old <+: c :: t → motive t → motive (c :: t))
    (hit : ∀ t, motive t → motive (old ++ t)) (t : List α) : motive t := by
  induction hlen : t.length using Nat.strong_induction_on generalizing t with
  | _ n ih =>
    cases t with
    | nil => exact nil
    | cons c t =>
      by_cases h : old <+: c :: t
      · obtain ⟨rest, hrest⟩ := h
        rw [← hrest]
        refine hit rest (ih rest.length ?_ rest rfl)
        grind [List.length_pos_iff]
      · grind

/-- `v` never touches `new`. -/
structure Apart (v new : List α) : Prop where
  prefix_of : ∀ x y, v <+: x ++ (new ++ y) → v <+: x
  infix_of : ∀ x y, v <:+: x ++ (new ++ y) → v <:+: x ∨ v <:+: y

theorem prefix_replace (hold : old ≠ []) (h : Apart v new) (t : List α) :
    ∀ q, v <+: q ++ replace old new t → v <+: q ++ t := by
  induction t using replace_induction hold with
  | nil => exact fun q hv => hv
  | skip c t hskip ih =>
    intro q hv
    rw [replace_skip hskip] at hv
    have hv' := ih (q ++ [c]) (by simpa using hv)
    simpa using hv'
  | hit t ih =>
    intro q hv
    rw [replace_hit hold] at hv
    exact (h.prefix_of q _ hv).trans (List.prefix_append _ _)

theorem infix_replace (hold : old ≠ []) (h : Apart v new) (t : List α) :
    ∀ q, v <:+: q ++ replace old new t → v <:+: q ++ t := by
  induction t using replace_induction hold with
  | nil => exact fun q hv => hv
  | skip c t hskip ih =>
    intro q hv
    rw [replace_skip hskip] at hv
    have hv' := ih (q ++ [c]) (by simpa using hv)
    simpa using hv'
  | hit t ih =>
    intro q hv
    rw [replace_hit hold] at hv
    rcases h.infix_of q _ hv with hq | ht
    · exact hq.trans (List.prefix_append _ _).isInfix
    grind

/-- No occurrence of `v` begins in `q`, where `t` follows. -/
def NoneFrom (v q t : List α) : Prop := ∀ i < q.length, ¬ v <+: q.drop i ++ t

theorem NoneFrom.replace (hold : old ≠ []) (h : Apart v new) {q : List α} (hq : NoneFrom v q t) :
    NoneFrom v q (Lib.replace old new t) :=
  fun i hi hv => hq i hi (prefix_replace hold h t _ hv)

omit [DecidableEq α] in
theorem NoneFrom.not_infix {q : List α} (hv : v ≠ []) (hq : NoneFrom v q t) : ¬ v <:+: q := by
  rintro ⟨x, y, hxy⟩
  refine hq x.length ?_ ?_
  · grind [List.length_pos_iff]
  · grind

theorem not_infix_replace (hold : old ≠ []) (h : Apart old new) (t : List α) :
    ∀ q, NoneFrom old q t → ¬ old <:+: q ++ replace old new t := by
  induction t using replace_induction hold with
  | nil =>
    intro q hq hv
    exact hq.not_infix hold (by simpa [replace, replaceFrom] using hv)
  | skip c t hskip ih =>
    intro q hq hv
    rw [replace_skip hskip] at hv
    refine ih (q ++ [c]) ?_ (by simpa using hv)
    intro i hi hprefix
    rw [List.length_append, List.length_singleton] at hi
    rcases Nat.lt_succ_iff_lt_or_eq.1 hi with hlt | rfl
    · refine hq i hlt ?_
      simp_all [List.drop_append_of_le_length, Nat.le_of_lt]
    · rw [List.drop_left] at hprefix
      exact hskip hprefix
  | hit t ih =>
    intro q hq hv
    rw [replace_hit hold] at hv
    rcases h.infix_of q _ hv with hinfix | hinfix
    · exact hq.not_infix hold hinfix
    · exact ih [] (fun i hi => absurd hi (Nat.not_lt_zero i)) hinfix

section Marker

omit [DecidableEq α]
variable {a : α} {x y : List α}

theorem prefix_of_separated (ha : a ∉ v) (h : v <+: x ++ a :: y) : v <+: x := by
  induction x generalizing v with
  | nil =>
    cases v with
    | nil => exact List.nil_prefix
    | cons b v => simp_all
  | cons c x ih =>
    cases v with
    | nil => exact List.nil_prefix
    | cons b v => simp_all

theorem infix_of_separated (ha : a ∉ v) (h : v <:+: x ++ a :: y) : v <:+: x ∨ v <:+: y := by
  induction x with
  | nil =>
    rcases List.infix_cons_iff.1 h with hprefix | hinfix
    · exact .inl (prefix_of_separated (x := []) ha hprefix).isInfix
    · exact .inr hinfix
  | cons c x ih => grind [List.infix_cons_iff, prefix_of_separated]

theorem infix_of_cons (ha : a ∉ v) (h : v <:+: a :: y) : v <:+: y := by
  grind [infix_of_separated]

theorem apart_marker {core : List α} (ha : a ∉ v) (hcore : ¬ v <:+: core) :
    Apart v (a :: a :: a :: (core ++ [a, a, a])) where
  prefix_of x y h := prefix_of_separated ha h
  infix_of x y h := by
    rcases infix_of_separated ha h with hx | h
    · exact .inl hx
    · have hopened : v <:+: core ++ a :: (a :: a :: y) := by
        have htail := infix_of_cons ha (infix_of_cons ha h)
        simpa using htail
      rcases infix_of_separated ha hopened with hin | hclosed
      · exact absurd hin hcore
      · exact .inr (infix_of_cons ha (infix_of_cons ha hclosed))

end Marker

end Lib
