/-
  Rows in the order of a key, up to a limit.

  `Limited key limit rows page` says that `page` can be the answer to
  `ORDER BY key LIMIT limit` over `rows`: which of several rows with one key come
  first is open.
-/
import Mathlib.Data.List.Perm.Subperm
import Mathlib.Order.Lattice

namespace Lib

universe u v
variable {α : Type u} {β : Type v} [LinearOrder β]

structure Limited (key : α → β) (limit : ℕ) (rows page : List α) : Prop where
  nodup : page.Nodup
  length : page.length ≤ limit
  mem : ∀ x ∈ page, x ∈ rows
  sorted : page.Pairwise fun x y => key x ≤ key y
  first : ∀ y ∈ rows, y ∈ page ∨ page.length = limit ∧ ∀ x ∈ page, key x ≤ key y

namespace Limited
variable {key : α → β} {limit : ℕ} {rows page : List α}

instance decidable [DecidableEq α] : Decidable (Limited key limit rows page) :=
  decidable_of_iff (page.Nodup ∧ page.length ≤ limit ∧ (∀ x ∈ page, x ∈ rows) ∧
      page.Pairwise (fun x y => key x ≤ key y) ∧
      ∀ y ∈ rows, y ∈ page ∨ page.length = limit ∧ ∀ x ∈ page, key x ≤ key y)
    ⟨fun ⟨h₁, h₂, h₃, h₄, h₅⟩ => ⟨h₁, h₂, h₃, h₄, h₅⟩,
      fun h => ⟨h.nodup, h.length, h.mem, h.sorted, h.first⟩⟩

theorem eq_nil (h : Limited key limit rows []) (hlimit : 0 < limit) : rows = [] := by
  refine List.eq_nil_iff_forall_not_mem.2 fun y hy => ?_
  rcases h.first y hy with hmem | ⟨hfull, -⟩
  · cases hmem
  · exact absurd hfull (Nat.ne_of_lt hlimit)

theorem mem_of_few (h : Limited key limit rows page) {y : α} (hy : y ∈ rows)
    (hfew : (rows.filter fun x => key x ≤ key y).length ≤ limit) : y ∈ page := by
  by_contra hnot
  obtain ⟨hfull, hle⟩ := (h.first y hy).resolve_left hnot
  have hsub : y :: page ⊆ rows.filter fun x => key x ≤ key y := by
    intro x hx
    rcases List.mem_cons.1 hx with rfl | hx
    · exact List.mem_filter.2 ⟨hy, decide_eq_true le_rfl⟩
    · exact List.mem_filter.2 ⟨h.mem x hx, decide_eq_true (hle x hx)⟩
  have hlen := ((List.nodup_cons.2 ⟨hnot, h.nodup⟩).subperm hsub).length_le
  rw [List.length_cons] at hlen
  omega

theorem lt_of_many (h : Limited key limit rows page) (hrows : rows.Nodup) {k : β}
    (hmany : limit ≤ (rows.filter fun x => key x < k).length) : ∀ x ∈ page, key x < k := by
  intro x hx
  by_contra hnot
  -- with `x`, every row below `k` is in the page
  have hsub : x :: (rows.filter fun z => key z < k) ⊆ page := by
    intro z hz
    rcases List.mem_cons.1 hz with rfl | hz
    · exact hx
    · obtain ⟨hmem, hlt⟩ := List.mem_filter.1 hz
      refine (h.first z hmem).resolve_right fun hcut => ?_
      grind
  have hnew : x ∉ rows.filter fun z => key z < k :=
    fun hmem => hnot (of_decide_eq_true (List.mem_filter.1 hmem).2)
  have hlen := ((List.nodup_cons.2 ⟨hnew, hrows.filter _⟩).subperm hsub).length_le
  rw [List.length_cons] at hlen
  have := h.length
  omega

end Limited

end Lib
