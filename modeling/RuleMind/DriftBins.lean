/-
  The drift of a sample against its baseline: `app/drift.py`.

  The bins are those of the quantiles of the baseline, interpolated and without repetitions; values
  are rational.
-/
import RuleMind.Lib.Offsets
import Mathlib.Analysis.SpecialFunctions.Log.Basic
import Mathlib.Data.List.GetD

namespace RuleMind.Drift

/-! ### The bins -/

def present (values : List (Option ℚ)) : List ℚ := values.filterMap id

def ordered (values : List (Option ℚ)) : List ℚ := (present values).insertionSort (· ≤ ·)

/-- The value at a position between two of the list. -/
def interpolate (ordered : List ℚ) (position : ℚ) : ℚ :=
  let low := ordered.getD ⌊position⌋₊ 0
  let high := ordered.getD ⌈position⌉₊ 0
  low + (high - low) * (position - ⌊position⌋)

/-- `max(2, bins)`. -/
def binCount (bins : ℤ) : ℕ := (max 2 bins).toNat

def position (n k index : ℕ) : ℚ := ((n : ℚ) - 1) * index / k

/-- A quantile is an edge if it is beyond the last one. -/
def addEdge (edges : List ℚ) (edge : ℚ) : List ℚ :=
  match edges.getLast? with
  | none => [edge]
  | some last => if edge > last then edges ++ [edge] else edges

def quantileEdges (values : List (Option ℚ)) (bins : ℤ) : List ℚ :=
  let ordered := ordered values
  if ordered.length < 2 then []
  else ((List.range' 1 (binCount bins - 1)).map fun index =>
    interpolate ordered (position ordered.length (binCount bins) index)).foldl addEdge []

/-- The first edge that the value does not exceed, or the last bin. -/
def placed (edges : List ℚ) (value : ℚ) : ℕ := edges.findIdx (value ≤ ·)

def tally (edges : List ℚ) (counts : List ℕ) : Option ℚ → List ℕ
  | none => counts
  | some value => counts.modify (placed edges value) (· + 1)

def bucket (values : List (Option ℚ)) (edges : List ℚ) : List ℕ :=
  values.foldl (tally edges) (List.replicate (edges.length + 1) 0)

def proportions (counts : List ℕ) : List ℚ :=
  if counts.sum = 0 then List.replicate counts.length 0
  else counts.map fun count : ℕ => (count : ℚ) / (counts.sum : ℚ)

def lower (edges : List ℚ) (index : ℕ) : Option ℚ := if index = 0 then none else edges[index - 1]?

def upper (edges : List ℚ) (index : ℕ) : Option ℚ :=
  if index = edges.length then none else edges[index]?

def EPSILON : ℚ := 1 / 1000000

inductive Classification
  | stable
  | moderate
  | significant
  | insufficientData
  deriving DecidableEq

noncomputable def contribution (expected actual : ℚ) : ℝ :=
  let safeExpected : ℝ := (max expected EPSILON : ℚ)
  let safeActual : ℝ := (max actual EPSILON : ℚ)
  (safeActual - safeExpected) * Real.log (safeActual / safeExpected)

open Classical in
noncomputable def classify (psi : ℝ) : Classification :=
  if psi < 0.10 then .stable else if psi < 0.25 then .moderate else .significant

noncomputable def total (baseline current : List (Option ℚ)) (edges : List ℚ) : ℝ :=
  (List.zipWith contribution (proportions (bucket baseline edges))
    (proportions (bucket current edges))).sum

/-- The classification that `psi` returns. -/
noncomputable def psiClassification (baseline current : List (Option ℚ)) (bins : ℤ) :
    Classification :=
  if (present baseline).length < 2 ∨ present current = [] then .insufficientData
  else classify (total baseline current (quantileEdges baseline bins))

def Within (edges : List ℚ) (index : ℕ) (value : ℚ) : Prop :=
  index ≤ edges.length ∧ (∀ l ∈ lower edges index, l < value) ∧ ∀ u ∈ upper edges index, value ≤ u

instance (edges : List ℚ) (index : ℕ) (value : ℚ) : Decidable (Within edges index value) :=
  inferInstanceAs (Decidable (_ ∧ _ ∧ _))

/-- A sample in one bin only, with half of the baseline at most, is not stable. -/
structure Outermost (baseline current : List (Option ℚ)) (bins : ℤ) (index : ℕ) : Prop where
  only : ∀ i c, (bucket current (quantileEdges baseline bins))[i]? = some c → c ≠ 0 → i = index
  half : ∀ p ∈ (proportions (bucket baseline (quantileEdges baseline bins)))[index]?, p ≤ 1 / 2
  drifts : psiClassification baseline current bins ≠ .stable

structure Sound (baseline current : List (Option ℚ)) (bins : ℤ) : Prop where
  increasing : (quantileEdges baseline bins).Pairwise (· < ·)
  one : ∀ value, ∃! index, Within (quantileEdges baseline bins) index value
  counts : ∀ values, bucket values (quantileEdges baseline bins) =
    (List.range ((quantileEdges baseline bins).length + 1)).map fun index =>
      (present values).countP fun value => Within (quantileEdges baseline bins) index value
  sums : ∀ values, (bucket values (quantileEdges baseline bins)).sum = (present values).length
  above : (∀ v ∈ present current, ∀ b ∈ present baseline, b < v) →
    Outermost baseline current bins (quantileEdges baseline bins).length
  below : (∀ v ∈ present current, ∀ b ∈ present baseline, v < b) → Outermost baseline current bins 0

/-- No more than half of the baseline is at or under its lowest quantile. -/
def Halved (baseline : List (Option ℚ)) (bins : ℤ) : Prop :=
  2 * (present baseline).countP (fun v =>
    v ≤ (ordered baseline).getD (((present baseline).length - 1) / binCount bins) 0) ≤
    (present baseline).length

instance (baseline : List (Option ℚ)) (bins : ℤ) : Decidable (Halved baseline bins) :=
  inferInstanceAs (Decidable (_ ≤ _))

/-! ### One bin for each value -/

section Bins
variable {edges : List ℚ} {value : ℚ} {i j : ℕ}

theorem placed_le (edges : List ℚ) (value : ℚ) : placed edges value ≤ edges.length :=
  List.findIdx_le_length

theorem lower_succ (i : ℕ) : lower edges (i + 1) = edges[i]? := rfl

theorem upper_of_lt (hi : i < edges.length) : upper edges i = some edges[i] := by
  rw [upper, if_neg (Nat.ne_of_lt hi), List.getElem?_eq_getElem hi]

theorem within_placed (edges : List ℚ) (value : ℚ) : Within edges (placed edges value) value := by
  refine ⟨placed_le edges value, fun l hl => ?_, fun u hu => ?_⟩
  · cases hplaced : placed edges value with
    | zero =>
      rw [hplaced] at hl
      cases hl
    | succ i =>
      rw [hplaced, lower_succ] at hl
      obtain ⟨hi, rfl⟩ := List.getElem?_eq_some_iff.1 hl
      have hlt : i < edges.findIdx (value ≤ ·) := by
        rw [← placed, hplaced]
        exact Nat.lt_succ_self i
      simp_all
  · rw [upper] at hu
    split at hu
    · cases hu
    · obtain ⟨hi, rfl⟩ := List.getElem?_eq_some_iff.1 hu
      have hfound := @List.findIdx_getElem _ (value ≤ ·) edges hi
      exact of_decide_eq_true hfound

theorem within_unique (h : edges.Pairwise (· < ·)) (hi : Within edges i value)
    (hj : Within edges j value) : i = j := by
  have hnot : ∀ {i j}, Within edges i value → Within edges j value → ¬ i < j := by
    intro i j hi hj hij
    obtain ⟨j, rfl⟩ : ∃ n, j = n + 1 := ⟨j - 1, by omega⟩
    have hlen : j < edges.length := hj.1
    have hupper := hi.2.2 edges[i] (upper_of_lt (by omega))
    have hlower := hj.2.1 edges[j] (by rw [lower_succ]; exact List.getElem?_eq_getElem hlen)
    have hle : edges[i] ≤ edges[j] := by
      rcases Nat.lt_or_eq_of_le (Nat.le_of_lt_succ hij) with hlt | rfl
      · exact (List.pairwise_iff_getElem.1 h i j (by omega) hlen hlt).le
      · exact le_refl _
    exact absurd (hupper.trans hle) (not_le.2 hlower)
  grind

theorem placed_eq_iff (h : edges.Pairwise (· < ·)) : placed edges value = i ↔
    Within edges i value := by
  constructor
  · rintro rfl
    exact within_placed edges value
  · exact fun hi => within_unique h (within_placed edges value) hi

theorem modify_range (f : ℕ → ℕ) (m p : ℕ) : ((List.range m).map f).modify p (· + 1) =
    (List.range m).map fun i => (if p = i then 1 else 0) + f i := by
  refine List.ext_getElem? fun i => ?_
  rw [List.getElem?_modify, List.getElem?_map, List.getElem?_map]
  grind

theorem bucket_eq (values : List (Option ℚ)) (edges : List ℚ) :
    bucket values edges = (List.range (edges.length + 1)).map fun index =>
      (present values).countP fun value => placed edges value = index := by
  have hfold : ∀ f : ℕ → ℕ, values.foldl (tally edges) ((List.range (edges.length + 1)).map f) =
      (List.range (edges.length + 1)).map fun index =>
        (present values).countP (fun value => placed edges value = index) + f index := by
    induction values with
    | nil =>
      intro f
      simp only [List.foldl_nil, present, List.filterMap_nil, List.countP_nil, Nat.zero_add]
    | cons value values ih =>
      intro f
      cases value with
      | none => exact ih f
      | some value =>
        rw [List.foldl_cons, tally, modify_range, ih]
        refine List.map_congr_left fun index _ => ?_
        have hpresent : present (some value :: values) = value :: present values := rfl
        rw [hpresent, List.countP_cons, Nat.add_assoc]
        simp only [decide_eq_true_iff]
  grind [List.map_const', List.length_range, bucket]

theorem bucket_sum (values : List (Option ℚ)) (edges : List ℚ) :
    (bucket values edges).sum = (present values).length := by
  have hfinset : ∀ (f : ℕ → ℕ) (m : ℕ), ((List.range m).map f).sum = ∑ i ∈ Finset.range m, f i :=
    fun f m => rfl
  rw [bucket_eq, hfinset]
  induction present values with
  | nil => exact Finset.sum_const_zero
  | cons value rest ih =>
    have hone : ∑ i ∈ Finset.range (edges.length + 1), (if placed edges value = i then 1 else 0) =
        1 := by
      rw [Finset.sum_ite_eq, if_pos]
      exact Finset.mem_range.2 (Nat.lt_succ_of_le (placed_le edges value))
    simp only [List.countP_cons, Finset.sum_add_distrib, ih, decide_eq_true_iff, hone,
      List.length_cons]

end Bins

/-! ### The edges -/

section Edges
variable {edges quantiles : List ℚ} {edge : ℚ}

theorem addEdge_increasing (h : edges.Pairwise (· < ·)) (edge : ℚ) :
    (addEdge edges edge).Pairwise (· < ·) := by
  rw [addEdge]
  split
  · exact List.pairwise_singleton _ _
  · rename_i last hlast
    split
    · rename_i hlt
      refine List.pairwise_append.2 ⟨h, List.pairwise_singleton _ _, fun e he e' he' => ?_⟩
      rw [List.mem_singleton.1 he']
      obtain ⟨init, rfl⟩ := List.getLast?_eq_some_iff.1 hlast
      rcases List.mem_append.1 he with he | he
      · exact ((List.pairwise_append.1 h).2.2 e he last (List.mem_singleton_self last)).trans hlt
      · rw [List.mem_singleton.1 he]
        exact hlt
    · exact h

theorem mem_addEdge {e : ℚ} (h : e ∈ addEdge edges edge) : e ∈ edges ∨ e = edge := by
  grind [addEdge]

theorem addEdge_last (edges : List ℚ) (edge : ℚ) : ∃ last ∈ (addEdge edges edge).getLast?,
    edge ≤ last ∧ ∀ l ∈ edges.getLast?, l ≤ last := by
  rw [addEdge]
  split
  · simp_all
  · rename_i last hlast
    have hl : ∀ l ∈ edges.getLast?, l = last := fun l hl => by
      rw [hlast] at hl
      exact (Option.some.inj hl).symm
    split
    · rename_i hlt
      exact ⟨edge, List.getLast?_concat, le_refl _, fun l hmem => by rw [hl l hmem]; exact hlt.le⟩
    simp_all

theorem addEdge_head {first : ℚ} (h : edges.head? = some first) (edge : ℚ) :
    (addEdge edges edge).head? = some first := by
  obtain ⟨rest, rfl⟩ := List.head?_eq_some_iff.1 h
  rw [addEdge]
  grind

/-- The edges are increasing, some of the quantiles, the first of them, and up to the greatest. -/
structure EdgesOf (quantiles edges : List ℚ) : Prop where
  increasing : edges.Pairwise (· < ·)
  mem : ∀ e ∈ edges, e ∈ quantiles
  first : edges.head? = quantiles.head?
  last : ∀ q ∈ quantiles, ∃ last ∈ edges.getLast?, q ≤ last

theorem edgesOf_addEdge (h : EdgesOf quantiles edges) (edge : ℚ) :
    EdgesOf (quantiles ++ [edge]) (addEdge edges edge) := by
  obtain ⟨last, hlast, hedge, hgreatest⟩ := addEdge_last edges edge
  refine ⟨addEdge_increasing h.increasing edge, fun e he => ?_, ?_, fun q hq => ?_⟩
  · rcases mem_addEdge he with he | rfl
    · exact List.mem_append_left _ (h.mem e he)
    simp
  · have hfirst := h.first
    cases quantiles with
    | nil =>
      obtain rfl := List.head?_eq_none_iff.1 hfirst
      rfl
    | cons q quantiles => exact addEdge_head hfirst edge
  · rcases List.mem_append.1 hq with hq | hq
    · obtain ⟨l, hl, hle⟩ := h.last q hq
      exact ⟨last, hlast, hle.trans (hgreatest l hl)⟩
    simp_all

theorem edgesOf_foldl (quantiles : List ℚ) : EdgesOf quantiles (quantiles.foldl addEdge []) := by
  induction quantiles using List.reverseRecOn with
  | nil => exact ⟨.nil, fun _ h => h, rfl, fun q hq => by cases hq⟩
  | append_singleton quantiles edge ih =>
    rw [List.foldl_concat]
    exact edgesOf_addEdge ih edge

end Edges

/-! ### Quantiles -/

section Quantiles
variable {o : List ℚ} {p v : ℚ}

theorem getD_le (hsorted : o.Pairwise (· ≤ ·)) {i j : ℕ} (hij : i ≤ j) (hj : j < o.length) :
    o.getD i 0 ≤ o.getD j 0 := by
  rw [List.getD_eq_getElem _ _ hj, List.getD_eq_getElem _ _ (Nat.lt_of_le_of_lt hij hj)]
  rcases Nat.lt_or_eq_of_le hij with hlt | rfl
  · exact List.pairwise_iff_getElem.1 hsorted i j _ hj hlt
  · exact le_refl _

theorem interpolate_eq (o : List ℚ) (p : ℚ) : interpolate o p =
    o.getD ⌊p⌋₊ 0 + (o.getD ⌈p⌉₊ 0 - o.getD ⌊p⌋₊ 0) * Int.fract p := rfl

theorem interpolate_bounds (hsorted : o.Pairwise (· ≤ ·)) (hp : ⌈p⌉₊ < o.length) :
    o.getD ⌊p⌋₊ 0 ≤ interpolate o p ∧ interpolate o p ≤ o.getD ⌈p⌉₊ 0 := by
  have hle := getD_le hsorted (Nat.floor_le_ceil p) hp
  have hnonneg := Int.fract_nonneg p
  have hlt := Int.fract_lt_one p
  rw [interpolate_eq]
  constructor
  · nlinarith
  · nlinarith

theorem le_interpolate_iff (hsorted : o.Pairwise (· ≤ ·)) (hp : ⌈p⌉₊ < o.length) (hv : v ∈ o) :
    v ≤ interpolate o p ↔ v ≤ o.getD ⌊p⌋₊ 0 := by
  obtain ⟨hlow, -⟩ := interpolate_bounds hsorted hp
  refine ⟨fun h => ?_, fun h => h.trans hlow⟩
  by_contra hlt
  obtain ⟨j, hj, rfl⟩ := List.getElem_of_mem hv
  have hfloor : ⌊p⌋₊ < j := by
    by_contra hle
    have := getD_le hsorted (not_lt.1 hle) (Nat.lt_of_le_of_lt (Nat.floor_le_ceil p) hp)
    rw [List.getD_eq_getElem _ _ hj] at this
    exact hlt this
  have hhigh : o.getD ⌈p⌉₊ 0 ≤ o[j] := by
    have hceil : ⌈p⌉₊ ≤ j := (Nat.ceil_le_floor_add_one p).trans hfloor
    rw [← List.getD_eq_getElem _ 0 hj]
    exact getD_le hsorted hceil hj
  have hfract := Int.fract_lt_one p
  have hnonneg := Int.fract_nonneg p
  have hle := getD_le hsorted (Nat.floor_le_ceil p) hp
  rw [interpolate_eq] at h
  rw [not_le] at hlt
  rcases hle.lt_or_eq with hstrict | heq
  · nlinarith
  grind

theorem position_bounds {n k index : ℕ} (hn : 1 ≤ n) (hindex : index ≤ k) (hk : 0 < k) :
    ⌊position n k index⌋₊ = (n - 1) * index / k ∧ ⌈position n k index⌉₊ < n := by
  have hcast : position n k index = (((n - 1) * index : ℕ) : ℚ) / (k : ℕ) := by
    rw [position]
    push_cast [Nat.cast_sub hn]
    rfl
  rw [hcast]
  refine ⟨Rat.natFloor_natCast_div_natCast _ _, ?_⟩
  have hle : ⌈(((n - 1) * index : ℕ) : ℚ) / (k : ℕ)⌉₊ ≤ n - 1 := by
    have hkpos : (0 : ℚ) < (k : ℕ) := by exact_mod_cast hk
    rw [Nat.ceil_le, div_le_iff₀ hkpos]
    exact_mod_cast Nat.mul_le_mul_left (n - 1) hindex
  omega

theorem countP_gt (hsorted : o.Pairwise (· ≤ ·)) {m : ℕ} (hm : m < o.length) :
    o.countP (fun v => o.getD m 0 < v) + (m + 1) ≤ o.length := by
  have hlt := (Lib.lt_countP_iff (q := fun v => v ≤ o.getD m 0) (hsorted.imp fun hle => ?_)
    (List.getElem?_eq_getElem hm)).2 ?_
  · have hsum := o.length_eq_countP_add_countP fun v => decide (v ≤ o.getD m 0)
    grind
  · grind
  · rw [decide_eq_true_iff, List.getD_eq_getElem _ _ hm]

end Quantiles

/-! ### The bins of a baseline -/

section Baseline
variable {baseline current : List (Option ℚ)} {bins : ℤ}

theorem ordered_perm (baseline : List (Option ℚ)) : (ordered baseline).Perm (present baseline) :=
  List.perm_insertionSort _ _

theorem ordered_sorted (baseline : List (Option ℚ)) : (ordered baseline).Pairwise (· ≤ ·) :=
  List.pairwise_insertionSort _ _

theorem two_le_binCount (bins : ℤ) : 2 ≤ binCount bins := by
  rw [binCount]
  omega

def quantile (baseline : List (Option ℚ)) (bins : ℤ) (index : ℕ) : ℚ :=
  interpolate (ordered baseline) (position (present baseline).length (binCount bins) index)

theorem quantileEdges_of (h : 2 ≤ (present baseline).length) :
    EdgesOf ((List.range' 1 (binCount bins - 1)).map (quantile baseline bins))
      (quantileEdges baseline bins) := by
  have hlen := (ordered_perm baseline).length_eq
  rw [quantileEdges, if_neg (by omega), hlen]
  exact edgesOf_foldl _

theorem increasing (baseline : List (Option ℚ)) (bins : ℤ) :
    (quantileEdges baseline bins).Pairwise (· < ·) := by
  rw [quantileEdges]
  split
  · exact .nil
  · exact (edgesOf_foldl _).increasing

theorem quantile_index {index : ℕ} (h : 2 ≤ (present baseline).length)
    (hindex : index ≤ binCount bins) :
    ⌊position (present baseline).length (binCount bins) index⌋₊ =
        ((present baseline).length - 1) * index / binCount bins ∧
      ⌈position (present baseline).length (binCount bins) index⌉₊ < (ordered baseline).length := by
  have hbins := two_le_binCount bins
  rw [(ordered_perm baseline).length_eq]
  exact position_bounds (by omega) hindex (by omega)

theorem quantile_between {index : ℕ} (h : 2 ≤ (present baseline).length)
    (hindex : index ≤ binCount bins) : ∃ low ∈ present baseline, ∃ high ∈ present baseline,
      low ≤ quantile baseline bins index ∧ quantile baseline bins index ≤ high := by
  obtain ⟨-, hceil⟩ := quantile_index h hindex
  obtain ⟨hlow, hhigh⟩ := interpolate_bounds (ordered_sorted baseline) hceil
  have hmem : ∀ i < (ordered baseline).length, (ordered baseline).getD i 0 ∈ present baseline := by
    intro i hi
    rw [List.getD_eq_getElem _ _ hi]
    exact (ordered_perm baseline).mem_iff.1 (List.getElem_mem hi)
  exact ⟨_, hmem _ (Nat.lt_of_le_of_lt (Nat.floor_le_ceil _) hceil), _, hmem _ hceil, hlow, hhigh⟩

theorem mem_edges (h : 2 ≤ (present baseline).length) {e : ℚ}
    (he : e ∈ quantileEdges baseline bins) : ∃ low ∈ present baseline,
      ∃ high ∈ present baseline, low ≤ e ∧ e ≤ high := by
  obtain ⟨index, hindex, rfl⟩ := List.mem_map.1 ((quantileEdges_of h).mem e he)
  rw [List.mem_range'_1] at hindex
  exact quantile_between h (by omega)

theorem edges_ends (h : 2 ≤ (present baseline).length) :
    (quantileEdges baseline bins).head? = some (quantile baseline bins 1) ∧
      ∃ last ∈ (quantileEdges baseline bins).getLast?,
        quantile baseline bins (binCount bins - 1) ≤ last := by
  have hbins := two_le_binCount bins
  have hof := @quantileEdges_of baseline bins h
  obtain ⟨m, hm⟩ : ∃ m, binCount bins - 1 = m + 1 := ⟨binCount bins - 2, by omega⟩
  refine ⟨?_, hof.last _ (List.mem_map.2 ⟨binCount bins - 1, ?_, rfl⟩)⟩
  · rw [hof.first, hm, List.range'_succ]
    rfl
  · rw [List.mem_range'_1]
    omega

theorem placed_above (h : 2 ≤ (present baseline).length) {v : ℚ}
    (hv : ∀ b ∈ present baseline, b < v) :
    placed (quantileEdges baseline bins) v = (quantileEdges baseline bins).length := by
  grind [placed, mem_edges]

theorem placed_below (h : 2 ≤ (present baseline).length) {v : ℚ}
    (hv : ∀ b ∈ present baseline, v < b) : placed (quantileEdges baseline bins) v = 0 := by
  have hbins := two_le_binCount bins
  obtain ⟨rest, hedges⟩ := List.head?_eq_some_iff.1 (@edges_ends baseline bins h).1
  obtain ⟨low, hlow, -, -, hle, -⟩ := @quantile_between baseline bins 1 h (by omega)
  grind [placed]

/-- **The last bin has half of the baseline** at most. -/
theorem last_half (h : 2 ≤ (present baseline).length) :
    2 * (present baseline).countP (fun v =>
      placed (quantileEdges baseline bins) v = (quantileEdges baseline bins).length) ≤
      (present baseline).length := by
  have hbins := two_le_binCount bins
  obtain ⟨-, last, hlast, hle⟩ := @edges_ends baseline bins h
  obtain ⟨hfloor, hceil⟩ := @quantile_index baseline bins (binCount bins - 1) h (by omega)
  obtain ⟨hlow, -⟩ := interpolate_bounds (ordered_sorted baseline) hceil
  have hinside := Nat.lt_of_le_of_lt (Nat.floor_le_ceil _) hceil
  rw [hfloor] at hlow hinside
  have hlen := (ordered_perm baseline).length_eq
  have hbeyond : (present baseline).countP (fun v =>
      placed (quantileEdges baseline bins) v = (quantileEdges baseline bins).length) ≤
      (ordered baseline).countP fun v => (ordered baseline).getD
        (((present baseline).length - 1) * (binCount bins - 1) / binCount bins) 0 < v := by
    rw [← (ordered_perm baseline).countP_eq]
    refine List.countP_mono_left fun v _ hplaced => ?_
    rw [decide_eq_true_iff] at hplaced ⊢
    have hlt := (List.findIdx_eq_length.1 hplaced) last (List.mem_of_getLast? hlast)
    exact hlow.trans_lt (hle.trans_lt (not_le.1 (of_decide_eq_false hlt)))
  have hindex : ((present baseline).length - 1) / 2 ≤
      ((present baseline).length - 1) * (binCount bins - 1) / binCount bins := by
    rw [Nat.le_div_iff_mul_le (by omega)]
    obtain ⟨k, hk⟩ : ∃ k, binCount bins = k + 2 := ⟨binCount bins - 2, by omega⟩
    have htwice := Nat.div_mul_le_self ((present baseline).length - 1) 2
    have hpred : binCount bins - 1 = k + 1 := by omega
    rw [hpred, hk]
    nlinarith
  have hcount := countP_gt (ordered_sorted baseline) hinside
  omega

/-- **The first bin** is of the values up to the one of the lowest quantile. -/
theorem first_count (h : 2 ≤ (present baseline).length) :
    (present baseline).countP (fun v => placed (quantileEdges baseline bins) v = 0) =
      (present baseline).countP fun v =>
        v ≤ (ordered baseline).getD (((present baseline).length - 1) / binCount bins) 0 := by
  have hbins := two_le_binCount bins
  obtain ⟨rest, hedges⟩ := List.head?_eq_some_iff.1 (@edges_ends baseline bins h).1
  obtain ⟨hfloor, hceil⟩ := @quantile_index baseline bins 1 h (by omega)
  rw [Nat.mul_one] at hfloor
  refine List.countP_congr fun v hv => ?_
  have hmem : v ∈ ordered baseline := (ordered_perm baseline).mem_iff.2 hv
  have hiff := le_interpolate_iff (ordered_sorted baseline) hceil hmem
  rw [hfloor] at hiff
  rw [decide_eq_true_iff, decide_eq_true_iff, ← hiff, placed, hedges, List.findIdx_cons]
  show (bif decide (v ≤ quantile baseline bins 1) then 0 else _) = 0 ↔ v ≤ quantile baseline bins 1
  grind

theorem proportions_eq {values : List (Option ℚ)} (h : present values ≠ []) (edges : List ℚ) :
    proportions (bucket values edges) = (List.range (edges.length + 1)).map fun index =>
      ((present values).countP (fun v => placed edges v = index) : ℚ) /
        (present values).length := by
  rw [proportions, bucket_sum, if_neg (mt List.length_eq_zero_iff.1 h), bucket_eq, List.map_map]
  rfl

end Baseline

/-! ### The index -/

section Index

theorem epsilon_pos : 0 < EPSILON := by
  rw [EPSILON]
  norm_num

theorem contribution_nonneg (expected actual : ℚ) : 0 ≤ contribution expected actual := by
  have hpos : ∀ q : ℚ, (0 : ℝ) < ((max q EPSILON : ℚ) : ℝ) := by
    intro q
    exact_mod_cast epsilon_pos.trans_le (le_max_right q EPSILON)
  have hexpected := hpos expected
  have hactual := hpos actual
  rw [contribution]
  rcases le_total ((max expected EPSILON : ℚ) : ℝ) ((max actual EPSILON : ℚ) : ℝ) with hle | hle
  · refine mul_nonneg (sub_nonneg.2 hle) (Real.log_nonneg ?_)
    rwa [one_le_div hexpected]
  · refine mul_nonneg_of_nonpos_of_nonpos (sub_nonpos.2 hle) (Real.log_nonpos ?_ ?_)
    · exact (div_pos hactual hexpected).le
    · rwa [div_le_one hexpected]

theorem contribution_self (expected : ℚ) : contribution expected expected = 0 := by
  rw [contribution, sub_self, zero_mul]

theorem contribution_all {expected : ℚ} (h : expected ≤ 1 / 2) :
    1 / 4 ≤ contribution expected 1 := by
  have hsafe : max expected EPSILON ≤ 1 / 2 := max_le h (by rw [EPSILON]; norm_num)
  have hone : max (1 : ℚ) EPSILON = 1 := max_eq_left (by rw [EPSILON]; norm_num)
  have hpos : (0 : ℝ) < ((max expected EPSILON : ℚ) : ℝ) := by
    exact_mod_cast epsilon_pos.trans_le (le_max_right expected EPSILON)
  have hhalf : ((max expected EPSILON : ℚ) : ℝ) ≤ 1 / 2 := by
    have hcast : ((max expected EPSILON : ℚ) : ℝ) ≤ ((1 / 2 : ℚ) : ℝ) := Rat.cast_le.2 hsafe
    rwa [Rat.cast_div, Rat.cast_one, Rat.cast_ofNat] at hcast
  rw [contribution, hone, Rat.cast_one]
  have hlog := Real.one_sub_inv_le_log_of_pos (div_pos one_pos hpos)
  rw [inv_div, div_one] at hlog
  nlinarith

variable {baseline current : List (Option ℚ)} {bins : ℤ} {index : ℕ}

theorem drifts_of (hcurrent : present current ≠ []) (hbaseline : present baseline ≠ [])
    (hall : ∀ v ∈ present current, placed (quantileEdges baseline bins) v = index)
    (hhalf : 2 * (present baseline).countP (fun v =>
      placed (quantileEdges baseline bins) v = index) ≤ (present baseline).length) :
    Outermost baseline current bins index := by
  have hpos : (0 : ℚ) < (present baseline).length := by
    exact_mod_cast List.length_pos_iff.2 hbaseline
  have hshare : ((present baseline).countP (fun v =>
      placed (quantileEdges baseline bins) v = index) : ℚ) / (present baseline).length ≤ 1 / 2 := by
    rw [div_le_iff₀ hpos]
    have hcast : (2 : ℚ) * (present baseline).countP (fun v =>
      placed (quantileEdges baseline bins) v = index) ≤ (present baseline).length := by
      exact_mod_cast hhalf
    linarith
  refine ⟨fun i c hc hne => ?_, fun p hp => ?_, ?_⟩
  · rw [bucket_eq, List.getElem?_map, Option.map_eq_some_iff] at hc
    grind
  · rw [proportions_eq hbaseline, List.getElem?_map] at hp
    obtain ⟨j, hj, rfl⟩ := Option.map_eq_some_iff.1 hp
    obtain ⟨hi, hij⟩ := List.getElem?_eq_some_iff.1 hj
    rw [List.getElem_range] at hij
    rw [← hij]
    exact hshare
  · rw [psiClassification]
    split
    · exact fun h => by cases h
    · have htotal : 1 / 4 ≤ total baseline current (quantileEdges baseline bins) := by
        obtain ⟨v, hv⟩ := List.exists_mem_of_ne_nil _ hcurrent
        have hindex : index < (quantileEdges baseline bins).length + 1 := by
          rw [← hall v hv]
          exact Nat.lt_succ_of_le (placed_le _ v)
        have hcount : (present current).countP (fun v =>
            placed (quantileEdges baseline bins) v = index) = (present current).length :=
          List.countP_eq_length.2 fun v hv => decide_eq_true (hall v hv)
        have hnonzero : ((present current).length : ℚ) ≠ 0 := by
          exact_mod_cast mt List.length_eq_zero_iff.1 hcurrent
        rw [total, proportions_eq hbaseline, proportions_eq hcurrent, List.zipWith_map,
          List.zipWith_self]
        refine le_trans ?_ (List.single_le_sum (fun x hx => ?_) _
          (List.mem_map.2 ⟨index, List.mem_range.2 hindex, rfl⟩))
        · rw [hcount, div_self hnonzero]
          exact contribution_all hshare
        · obtain ⟨i, -, rfl⟩ := List.mem_map.1 hx
          exact contribution_nonneg _ _
      rw [classify, if_neg (by norm_num; linarith)]
      grind

end Index

/-- **The bins are sound** if and only if the sample is not below the baseline, or no more than half
    of the baseline is at or under its lowest quantile. -/
theorem bins_sound_iff (baseline current : List (Option ℚ)) (bins : ℤ)
    (hbaseline : 2 ≤ (present baseline).length) (hcurrent : present current ≠ []) :
    Sound baseline current bins ↔
      (¬ ∀ v ∈ present current, ∀ b ∈ present baseline, v < b) ∨ Halved baseline bins := by
  have hne : present baseline ≠ [] := by
    rintro hnil
    rw [hnil] at hbaseline
    cases hbaseline
  constructor
  · intro h
    by_cases hbelow : ∀ v ∈ present current, ∀ b ∈ present baseline, v < b
    · refine .inr ?_
      have hhalf := (h.below hbelow).half
      rw [proportions_eq hne, List.getElem?_map, List.getElem?_range (Nat.succ_pos _)] at hhalf
      have hshare : ((present baseline).countP (fun v =>
          placed (quantileEdges baseline bins) v = 0) : ℚ) / (present baseline).length ≤ 1 / 2 :=
        hhalf _ rfl
      have hpos : (0 : ℚ) < (present baseline).length := by exact_mod_cast List.length_pos_iff.2 hne
      rw [first_count hbaseline, div_le_iff₀ hpos] at hshare
      have hcast : (2 : ℚ) * (present baseline).countP (fun v =>
          v ≤ (ordered baseline).getD (((present baseline).length - 1) / binCount bins) 0) ≤
          (present baseline).length := by
        linarith
      exact_mod_cast hcast
    · exact .inl hbelow
  · intro h
    have hincreasing := increasing baseline bins
    refine ⟨hincreasing, fun value => ?_, fun values => ?_, fun values => bucket_sum values _,
      fun habove => ?_, fun hbelow => ?_⟩
    · refine ⟨_, within_placed _ value, fun index hindex => ?_⟩
      exact within_unique hincreasing hindex (within_placed _ value)
    · rw [bucket_eq]
      refine List.map_congr_left fun index _ => List.countP_congr fun value _ => ?_
      simp_all [placed_eq_iff]
    · exact drifts_of hcurrent hne (fun v hv => placed_above hbaseline (habove v hv))
        (last_half hbaseline)
    · refine drifts_of hcurrent hne (fun v hv => placed_below hbaseline (hbelow v hv)) ?_
      rw [first_count hbaseline]
      exact h.resolve_left (not_not.2 hbelow)

/-- A sample above four different values is not stable. -/
theorem above_four : 2 ≤ (present [some 1, some 2, none, some 3, some 4]).length ∧
    present [some 9, none] ≠ [] ∧ Halved [some 1, some 2, none, some 3, some 4] 10 ∧
    Sound [some 1, some 2, none, some 3, some 4] [some 9, none] 10 := by
  have hbaseline : 2 ≤ (present [some 1, some 2, none, some 3, some 4]).length := by decide
  have hcurrent : present [some 9, none] ≠ [] := by decide
  have hhalved : Halved [some 1, some 2, none, some 3, some 4] 10 := by decide +kernel
  exact ⟨hbaseline, hcurrent, hhalved, (bins_sound_iff _ _ _ hbaseline hcurrent).2 (.inr hhalved)⟩

/-- Of a constant baseline, a sample below it is in the bin that has all of it: stable. -/
theorem constant_stable : quantileEdges [some 5, some 5] 10 = [5] ∧
    bucket [some 5, some 5] [5] = [2, 0] ∧ bucket [some 1] [5] = [1, 0] ∧
    psiClassification [some 5, some 5] [some 1] 10 = .stable ∧
    ¬ Sound [some 5, some 5] [some 1] 10 := by
  have hedges : quantileEdges [some 5, some 5] 10 = [5] := by decide +kernel
  have hbaseline : proportions (bucket [some 5, some 5] [5]) = [1, 0] := by decide +kernel
  have hcurrent : proportions (bucket [some 1] [5]) = [1, 0] := by decide +kernel
  have htotal : total [some 5, some 5] [some 1] [5] = 0 := by
    rw [total, hbaseline, hcurrent, List.zipWith_self]
    simp only [contribution_self, List.map_const', List.sum_replicate, smul_zero]
  have hstable : psiClassification [some 5, some 5] [some 1] 10 = .stable := by
    rw [psiClassification, if_neg (by decide), hedges, htotal, classify, if_pos (by norm_num)]
  refine ⟨hedges, by decide, by decide, hstable, fun h => ?_⟩
  exact (h.below (by decide)).drifts hstable

/-! ### The order of the values -/

section Orders
variable {baseline baseline' current current' : List (Option ℚ)}

theorem present_perm (h : current.Perm current') : (present current).Perm (present current') :=
  h.filterMap id

theorem bucket_perm (h : current.Perm current') (edges : List ℚ) :
    bucket current' edges = bucket current edges := by
  rw [bucket_eq, bucket_eq]
  exact List.map_congr_left fun _ _ => ((present_perm h).countP_eq _).symm

theorem quantileEdges_perm (h : baseline.Perm baseline') (bins : ℤ) :
    quantileEdges baseline' bins = quantileEdges baseline bins := by
  have hsame : ordered baseline' = ordered baseline :=
    List.Perm.eq_of_pairwise (fun _ _ _ _ => le_antisymm) (ordered_sorted _) (ordered_sorted _)
      ((ordered_perm _).trans ((present_perm h).symm.trans (ordered_perm _).symm))
  rw [quantileEdges, quantileEdges, hsame]

theorem contribution_comm (expected actual : ℚ) :
    contribution actual expected = contribution expected actual := by
  rw [contribution, contribution, ← inv_div, Real.log_inv]
  ring

/-- **The index compares two distributions**: the order of the values does not count, and it is the
    same both ways, not negative, and zero where both are one. -/
theorem index_of_distributions (hbaseline : baseline.Perm baseline')
    (hcurrent : current.Perm current') (bins : ℤ) (edges : List ℚ) :
    psiClassification baseline' current' bins = psiClassification baseline current bins ∧
    total current' baseline' edges = total baseline current edges ∧
    0 ≤ total baseline current edges ∧ total baseline baseline' edges = 0 := by
  have htotal : ∀ edges, total baseline' current' edges = total baseline current edges := by
    intro edges
    rw [total, total, bucket_perm hbaseline, bucket_perm hcurrent]
  refine ⟨?_, ?_, List.sum_nonneg fun x hx => ?_, ?_⟩
  · have hempty : present current' = [] ↔ present current = [] := by
      rw [← List.length_eq_zero_iff, ← List.length_eq_zero_iff, (present_perm hcurrent).length_eq]
    simp only [psiClassification, quantileEdges_perm hbaseline, htotal, hempty,
      (present_perm hbaseline).length_eq]
  · rw [← htotal, total, total, List.zipWith_comm]
    simp only [contribution_comm]
  · obtain ⟨i, hi, rfl⟩ := List.getElem_of_mem hx
    rw [List.getElem_zipWith]
    exact contribution_nonneg _ _
  · rw [total, bucket_perm hbaseline, List.zipWith_self]
    simp [contribution_self]

theorem turned_same : total [some 7] [some 2, some 1] [3] = total [some 1, some 2] [some 7] [3] :=
  (index_of_distributions (.swap _ _ _) (.refl _) 10 [3]).2.1

end Orders

end RuleMind.Drift
