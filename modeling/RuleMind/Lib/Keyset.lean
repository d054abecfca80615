/-
  Keyset pagination: a table read page by page, each page after the last key of
  the page before it.
-/
import Mathlib.Data.List.Sort
import Mathlib.Order.WellFounded

namespace Lib

universe u v
variable {ρ : Type u} {κ : Type v} [LinearOrder κ]

/-- The key `k` comes after the cursor `c`. -/
def Past : Option κ → κ → Prop
  | none, _ => True
  | some l, k => l < k

instance : ∀ (c : Option κ) (k : κ), Decidable (Past c k)
  | none, _ => .isTrue trivial
  | some l, k => inferInstanceAs (Decidable (l < k))

/-- The first `limit` rows past `c`, in the order of their keys. -/
def window (key : ρ → κ) (c : Option κ) (limit : ℕ) (rows : List ρ) : List ρ :=
  ((rows.filter fun r => Past c (key r)).insertionSort fun r r' => key r ≤ key r').take limit

variable {key : ρ → κ} {c : Option κ} {limit : ℕ} {rows : List ρ}

theorem window_eq (key : ρ → κ) (c : Option κ) (limit : ℕ) (rows : List ρ) (past : ρ → Bool)
    (le : ρ → ρ → Prop) [DecidableRel le] (hpast : ∀ r, past r = true ↔ Past c (key r))
    (hle : ∀ r r', le r r' ↔ key r ≤ key r') :
    ((rows.filter past).insertionSort le).take limit = window key c limit rows := by
  obtain rfl : le = fun r r' => key r ≤ key r' := funext₂ fun r r' => propext (hle r r')
  obtain rfl : past = fun r => decide (Past c (key r)) :=
    funext fun r => Bool.eq_iff_iff.2 ((hpast r).trans decide_eq_true_iff.symm)
  rw [window]
  congr

variable {r : ρ}

theorem mem_window (h : r ∈ window key c limit rows) : r ∈ rows ∧ Past c (key r) := by
  have hsorted := List.mem_of_mem_take h
  simp_all

theorem window_covers {last : ρ} (hlast : (window key c limit rows).getLast? = some last)
    (hr : r ∈ rows) (hpast : Past c (key r)) (hle : key r ≤ key last) :
    ∃ r' ∈ window key c limit rows, key r' = key r := by
  have hmem : last ∈ window key c limit rows := List.mem_of_getLast? hlast
  let sorted := (rows.filter fun r => Past c (key r)).insertionSort fun r r' => key r ≤ key r'
  have hrsorted : r ∈ sorted.take limit ++ sorted.drop limit := by
    rw [List.take_append_drop]
    exact (List.mem_insertionSort _).2 (List.mem_filter.2 ⟨hr, decide_eq_true hpast⟩)
  obtain htake | hdrop := List.mem_append.1 hrsorted
  · exact ⟨r, htake, rfl⟩
  · -- what the limit cuts off comes after the last row of the page
    have : Std.Total fun r r' : ρ => key r ≤ key r' := ⟨fun r r' => le_total _ _⟩
    have : IsTrans ρ fun r r' => key r ≤ key r' := ⟨fun _ _ _ => le_trans⟩
    have hpairs : sorted.Pairwise fun r r' => key r ≤ key r' := List.pairwise_insertionSort _ _
    rw [← List.take_append_drop limit sorted, List.pairwise_append] at hpairs
    exact ⟨last, hmem, le_antisymm (hpairs.2.2 last hmem r hdrop) hle⟩

theorem window_eq_nil (hlimit : limit ≠ 0) (h : window key c limit rows = [])
    (hr : r ∈ rows) : ¬ Past c (key r) := by
  intro hpast
  obtain hzero | hnil := List.take_eq_nil_iff.1 h
  · exact hlimit hzero
  · have hfilter : r ∈ rows.filter fun r => Past c (key r) :=
      List.mem_filter.2 ⟨hr, decide_eq_true hpast⟩
    rw [← List.mem_insertionSort fun r r' => key r ≤ key r', hnil] at hfilter
    exact absurd hfilter List.not_mem_nil

theorem mem_window_of_short (h : (window key c limit rows).length < limit) (hr : r ∈ rows)
    (hpast : Past c (key r)) : r ∈ window key c limit rows := by
  rw [window, List.length_take] at h
  grind [window, List.take_of_length_le, List.mem_insertionSort]

theorem window_sorted (hunique : (rows.map key).Nodup) :
    (window key c limit rows).Pairwise fun r r' => key r < key r' := by
  have : Std.Total fun r r' : ρ => key r ≤ key r' := ⟨fun r r' => le_total _ _⟩
  have : IsTrans ρ fun r r' => key r ≤ key r' := ⟨fun _ _ _ => le_trans⟩
  have hle : (window key c limit rows).Pairwise fun r r' => key r ≤ key r' :=
    (List.pairwise_insertionSort _ _).sublist (List.take_sublist _ _)
  have hne : ((rows.filter fun r => Past c (key r)).insertionSort
      fun r r' => key r ≤ key r').Pairwise fun r r' => key r ≠ key r' := by
    refine ((List.perm_insertionSort _ _).pairwise_iff fun h => Ne.symm h).2 ?_
    exact (List.pairwise_map.1 hunique).sublist List.filter_sublist
  exact (hle.and (hne.sublist (List.take_sublist _ _))).imp fun h => lt_of_le_of_ne h.1 h.2

/-! ### All pages -/

/-- All pages past `c`, from the `n`-th table on: the rows, and up to which table. -/
def scan (key : ρ → κ) (limit : ℕ) (tables : ℕ → List ρ) : ℕ → ℕ → Option κ → Option (List ρ × ℕ)
  | 0, _, _ => none
  | fuel + 1, n, c =>
    let page := window key c limit (tables n)
    match page.getLast? with
    | none => some ([], n + 1)
    | some last =>
      if page.length < limit then some (page, n + 1)
      else (scan key limit tables fuel (n + 1) (some (key last))).map
        fun rest => (page ++ rest.1, rest.2)

variable {tables : ℕ → List ρ} {fuel n m : ℕ} {read : List ρ}

theorem scan_cases (h : scan key limit tables (fuel + 1) n c = some (read, m)) :
    (read = window key c limit (tables n) ∧ m = n + 1 ∧ (read.length < limit ∨ read = [])) ∨
    ∃ last rest, (window key c limit (tables n)).getLast? = some last ∧
      scan key limit tables fuel (n + 1) (some (key last)) = some (rest, m) ∧
      read = window key c limit (tables n) ++ rest := by
  rw [scan] at h
  split at h
  · simp_all
  · rename_i last hlast
    split at h
    · simp_all
    · obtain ⟨⟨rest, m'⟩, hrest, heq⟩ := Option.map_eq_some_iff.1 h
      simp_all

theorem scan_ends [WellFoundedGT κ] (key : ρ → κ) (limit : ℕ) (tables : ℕ → List ρ) (n : ℕ)
    (c : Option κ) : ∃ fuel result, scan key limit tables fuel n c = some result := by
  have hpage : ∀ (n : ℕ) (c : Option κ),
      (∀ k, Past c k → ∃ fuel result, scan key limit tables fuel (n + 1) (some k) = some result) →
      ∃ fuel result, scan key limit tables fuel n c = some result := by
    intro n c hnext
    cases hlast : (window key c limit (tables n)).getLast? with
    | none =>
      refine ⟨1, ([], n + 1), ?_⟩
      rw [scan]
      simp only [hlast]
    | some last =>
      obtain ⟨fuel, result, hrest⟩ := hnext (key last) (mem_window (List.mem_of_getLast? hlast)).2
      refine ⟨fuel + 1, ?_⟩
      rw [scan]
      grind
  have hsome : ∀ (k : κ) (n : ℕ),
      ∃ fuel result, scan key limit tables fuel n (some k) = some result := by
    intro k
    induction k using (wellFounded_gt : WellFounded ((· > ·) : κ → κ → Prop)).induction with
    | _ k ih => exact fun n => hpage n (some k) fun k' hlt => ih k' hlt (n + 1)
  exact hpage n c fun k _ => hsome k (n + 1)

theorem Past.trans {k k' : κ} (h : Past c k) (h' : k < k') : Past c k' := by
  cases c with
  | none => trivial
  | some l => exact lt_trans h h'

theorem scan_asks (h : scan key limit tables fuel n c = some (read, m)) : n < m := by
  induction fuel generalizing n c read with
  | zero => cases h
  | succ fuel ih =>
    rcases scan_cases h with ⟨-, rfl, -⟩ | ⟨last, rest, -, hrest, -⟩
    · exact Nat.lt_succ_self n
    · exact Nat.lt_of_succ_lt (ih hrest)

theorem mem_scan (h : scan key limit tables fuel n c = some (read, m)) (hr : r ∈ read) :
    Past c (key r) ∧ ∃ i, n ≤ i ∧ i < m ∧ r ∈ tables i := by
  have hasks := scan_asks h
  induction fuel generalizing n c read with
  | zero => cases h
  | succ fuel ih =>
    rcases scan_cases h with ⟨rfl, -, -⟩ | ⟨last, rest, hlast, hrest, rfl⟩
    · exact ⟨(mem_window hr).2, n, Nat.le_refl n, hasks, (mem_window hr).1⟩
    · rcases List.mem_append.1 hr with hr | hr
      · exact ⟨(mem_window hr).2, n, Nat.le_refl n, hasks, (mem_window hr).1⟩
      · obtain ⟨hpast, i, hi, him, hmem⟩ := ih hrest hr (scan_asks hrest)
        have hafter := (mem_window (List.mem_of_getLast? hlast)).2
        exact ⟨hafter.trans hpast, i, Nat.le_of_succ_le hi, him, hmem⟩

/-- **What is read is in the order of the keys**, and no key is read twice. -/
theorem scan_sorted (hunique : ∀ i, ((tables i).map key).Nodup)
    (h : scan key limit tables fuel n c = some (read, m)) :
    read.Pairwise fun r r' => key r < key r' := by
  induction fuel generalizing n c read with
  | zero => cases h
  | succ fuel ih =>
    rcases scan_cases h with ⟨rfl, -, -⟩ | ⟨last, rest, hlast, hrest, rfl⟩
    · exact window_sorted (hunique n)
    · refine List.pairwise_append.2 ⟨window_sorted (hunique n), ih hrest, fun r hr r' hr' => ?_⟩
      have hpast : key last < key r' := (mem_scan hrest hr').1
      obtain ⟨page, hpage⟩ := List.getLast?_eq_some_iff.1 hlast
      have hsorted : (window key c limit (tables n)).Pairwise fun r r' => key r < key r' :=
        window_sorted (hunique n)
      grind [List.mem_singleton_self]

/-- **What stays in the table is read.** -/
theorem scan_covers (hlimit : limit ≠ 0) (hunique : ∀ i, ((tables i).map key).Nodup)
    (h : scan key limit tables fuel n c = some (read, m))
    (hr : ∀ i, n ≤ i → i < m → r ∈ tables i) (hpast : Past c (key r)) : r ∈ read := by
  have hasks := scan_asks h
  have hmem := hr n (Nat.le_refl n) hasks
  induction fuel generalizing n c read with
  | zero => cases h
  | succ fuel ih =>
    rcases scan_cases h with ⟨rfl, -, hshort | hnil⟩ | ⟨last, rest, hlast, hrest, rfl⟩
    · exact mem_window_of_short hshort hmem hpast
    · exact absurd hpast (window_eq_nil hlimit hnil hmem)
    · by_cases hle : key r ≤ key last
      · obtain ⟨r', hr', heq⟩ := window_covers hlast hmem hpast hle
        rw [← List.inj_on_of_nodup_map (hunique n) (mem_window hr').1 hmem heq]
        exact List.mem_append_left _ hr'
      · have hasks := scan_asks hrest
        refine List.mem_append_right _ (ih hrest (fun i hi him => ?_) (not_le.1 hle) hasks ?_)
        · exact hr i (Nat.le_of_succ_le hi) him
        · exact hr (n + 1) (Nat.le_succ n) hasks

end Lib
