/-
  Lists cut at separators.

  A cut is what stands before a separator, with the separator and what is behind it; there may
  be none.  Each way of cutting has one specification, both ways.
-/
import Mathlib.Data.List.Basic

namespace RuleMind.Cut

variable {α : Type}

def tail : Option (α × List α) → List α
  | none => []
  | some (a, as) => a :: as

def cutFirst (p : α → Bool) : List α → List α × Option (α × List α)
  | [] => ([], none)
  | a :: as => if p a then ([], some (a, as)) else (a :: (cutFirst p as).1, (cutFirst p as).2)

def cutLast (p : α → Bool) (as : List α) : List α × Option (α × List α) :=
  match (cutFirst p as.reverse).2 with
  | none => (as, none)
  | some (a, before) => (before.reverse, some (a, (cutFirst p as.reverse).1.reverse))

section Cuts
variable {p : α → Bool} {as bs : List α} {cut : Option (α × List α)}

theorem cutFirst_cons (p : α → Bool) (a : α) (as : List α) : cutFirst p (a :: as) =
    if p a then ([], some (a, as)) else (a :: (cutFirst p as).1, (cutFirst p as).2) := rfl

theorem cutFirst_spec (p : α → Bool) (as : List α) :
    as = (cutFirst p as).1 ++ tail (cutFirst p as).2 ∧ (∀ b ∈ (cutFirst p as).1, p b = false) ∧
      ∀ c ∈ (cutFirst p as).2, p c.1 = true := by
  induction as with
  | nil => exact ⟨rfl, nofun, nofun⟩
  | cons a as ih =>
    rw [cutFirst_cons]
    cases ha : p a with
    | true =>
      rw [if_pos rfl]
      refine ⟨rfl, nofun, fun c hc => ?_⟩
      cases hc
      exact ha
    | false => grind

theorem cutFirst_append (hbs : ∀ b ∈ bs, p b = false) (hcut : ∀ c ∈ cut, p c.1 = true) :
    cutFirst p (bs ++ tail cut) = (bs, cut) := by
  induction bs with
  | nil =>
    cases cut with
    | none => rfl
    | some c =>
      show (if p c.1 then _ else _) = _
      rw [if_pos (hcut c rfl)]
  | cons b bs ih => simp_all [cutFirst_cons]

theorem cutFirst_iff : cutFirst p as = (bs, cut) ↔
    as = bs ++ tail cut ∧ (∀ b ∈ bs, p b = false) ∧ ∀ c ∈ cut, p c.1 = true := by
  constructor
  · grind [cutFirst_spec]
  · rintro ⟨rfl, hbs, hcut⟩
    exact cutFirst_append hbs hcut

theorem takeWhile_cut (p : α → Bool) (as : List α) : as.takeWhile (!p ·) = (cutFirst p as).1 := by
  induction as with
  | nil => rfl
  | cons a as ih =>
    rw [cutFirst_cons]
    cases ha : p a with
    | true => rw [List.takeWhile_cons_of_neg (by simp [ha]), if_pos rfl]
    | false => simp_all

theorem dropWhile_cut (p : α → Bool) (as : List α) :
    as.dropWhile (!p ·) = tail (cutFirst p as).2 := by
  induction as with
  | nil => rfl
  | cons a as ih =>
    rw [cutFirst_cons]
    cases ha : p a with
    | true =>
      rw [List.dropWhile_cons_of_neg (by simp [ha]), if_pos rfl]
      rfl
    | false => simp_all

theorem cutLast_iff : cutLast p as = (bs, cut) ↔
    as = bs ++ tail cut ∧ (cut = none → ∀ b ∈ bs, p b = false) ∧
      ∀ c ∈ cut, p c.1 = true ∧ ∀ d ∈ c.2, p d = false := by
  constructor
  · intro h
    obtain ⟨hreverse, hbefore, hsep⟩ := cutFirst_spec p as.reverse
    unfold cutLast at h
    cases hfirst : (cutFirst p as.reverse).2 with
    | none =>
      rw [hfirst] at h hreverse
      cases h
      refine ⟨(List.append_nil _).symm, fun _ b hb => hbefore b ?_, nofun⟩
      grind [tail]
    | some c =>
      obtain ⟨a, before⟩ := c
      rw [hfirst] at h hreverse hsep
      cases h
      refine ⟨?_, nofun, fun c hc => ?_⟩
      · grind [tail, List.reverse_append]
      · cases hc
        exact ⟨hsep (a, before) rfl, fun d hd => hbefore d (List.mem_reverse.1 hd)⟩
  · rintro ⟨rfl, hnone, hsome⟩
    cases cut with
    | none =>
      have hfirst : cutFirst p bs.reverse = (bs.reverse, none) := by
        rw [cutFirst_iff]
        exact ⟨(List.append_nil _).symm, fun b hb => hnone rfl b (List.mem_reverse.1 hb), nofun⟩
      rw [tail, List.append_nil, cutLast, hfirst]
    | some c =>
      obtain ⟨a, rest⟩ := c
      have hfirst : cutFirst p (bs ++ tail (some (a, rest))).reverse =
          (rest.reverse, some (a, bs.reverse)) := by
        rw [cutFirst_iff, tail, List.reverse_append, List.reverse_cons, List.append_assoc]
        refine ⟨rfl, fun b hb => (hsome _ rfl).2 b (List.mem_reverse.1 hb), fun c hc => ?_⟩
        cases hc
        exact (hsome _ rfl).1
      rw [cutLast, hfirst]
      simp only [List.reverse_reverse]

end Cuts

/-! ### All separators -/

section Splits
variable [BEq α] [LawfulBEq α] {x : α} {as : List α}

theorem not_mem_of_splitOn (h : b ∈ as.splitOn x) : x ∉ b := by
  induction as generalizing b with
  | nil => simp_all
  | cons a as ih =>
    rw [List.splitOn_cons_eq_if_modifyHead] at h
    by_cases ha : (a == x) = true
    · grind
    · rw [if_neg ha] at h
      obtain ⟨w, ws, hws⟩ := List.exists_cons_of_ne_nil (List.splitOn_ne_nil x as)
      rw [hws, List.modifyHead_cons] at h
      grind

theorem splitOn_iff {parts : List (List α)} (hne : parts ≠ []) :
    as.splitOn x = parts ↔ as = [x].intercalate parts ∧ ∀ part ∈ parts, x ∉ part := by
  constructor
  · rintro rfl
    exact ⟨(List.intercalate_splitOn x).symm, fun part hpart => not_mem_of_splitOn hpart⟩
  · rintro ⟨rfl, hparts⟩
    exact List.splitOn_intercalate x hparts hne

end Splits

end RuleMind.Cut
