/-
  The first element of each key of a list, in the list's order.

  `mem_firsts`: an element is kept if no element before it has its key; `firsts_nodup`: the
  keys of what is kept are different; `length_firsts`: there is one for each key.
-/
import Mathlib.Data.List.Dedup

namespace Lib

variable {α κ : Type} [DecidableEq κ] {key : α → κ} {seen : List κ} {as : List α} {a : α}

/-- The first elements whose keys have not been seen. -/
def firsts (key : α → κ) : List κ → List α → List α
  | _, [] => []
  | seen, a :: as => if key a ∈ seen then firsts key seen as else a :: firsts key (key a :: seen) as

theorem mem_firsts : a ∈ firsts key seen as ↔
    key a ∉ seen ∧ ∃ l r, as = l ++ a :: r ∧ ∀ b ∈ l, key b ≠ key a := by
  induction as generalizing seen with
  | nil => simp [firsts]
  | cons b as ih =>
    rw [firsts]
    split
    · rename_i hb
      rw [ih]
      refine and_congr_right fun ha => ?_
      constructor
      · grind
      · rintro ⟨l, r, heq, hl⟩
        cases l with
        | nil =>
          obtain ⟨rfl, -⟩ := List.cons.inj heq
          exact absurd hb ha
        | cons c l => grind
    · rename_i hb
      rw [List.mem_cons, ih]
      constructor
      · rintro (rfl | ⟨ha, l, r, rfl, hl⟩)
        · exact ⟨hb, [], as, rfl, List.forall_mem_nil _⟩
        · grind
      · rintro ⟨ha, l, r, heq, hl⟩
        cases l with
        | nil => exact .inl (List.cons.inj heq).1.symm
        | cons c l => grind

theorem mem_of_mem_firsts (h : a ∈ firsts key seen as) : a ∈ as := by
  obtain ⟨-, l, r, rfl, -⟩ := mem_firsts.1 h
  simp

theorem exists_first (h : a ∈ as) : ∃ b ∈ firsts key [] as, key b = key a := by
  induction as with
  | nil => cases h
  | cons c as ih =>
    by_cases hc : key c = key a
    · exact ⟨c, mem_firsts.2 ⟨List.not_mem_nil, [], as, rfl, List.forall_mem_nil _⟩, hc⟩
    · rcases List.mem_cons.1 h with rfl | h
      · exact absurd rfl hc
      · obtain ⟨b, hb, heq⟩ := ih h
        obtain ⟨-, l, r, rfl, hl⟩ := mem_firsts.1 hb
        refine ⟨b, mem_firsts.2 ⟨List.not_mem_nil, c :: l, r, rfl, ?_⟩, heq⟩
        simp_all

theorem firsts_nodup : ((firsts key seen as).map key).Nodup := by
  induction as generalizing seen with
  | nil => exact List.nodup_nil
  | cons a as ih =>
    rw [firsts]
    split
    · exact ih
    simp_all [mem_firsts]

theorem length_firsts : (firsts key [] as).length = (as.map key).dedup.length := by
  have hperm : ((firsts key [] as).map key).Perm (as.map key).dedup := by
    rw [List.perm_ext_iff_of_nodup firsts_nodup (List.nodup_dedup _)]
    intro k
    rw [List.mem_dedup, List.mem_map, List.mem_map]
    constructor
    · rintro ⟨a, ha, rfl⟩
      exact ⟨a, mem_of_mem_firsts ha, rfl⟩
    · rintro ⟨a, ha, rfl⟩
      exact exists_first ha
  simpa using hperm.length_eq

end Lib
