/-
  The discrimination metrics of `app/model_evaluation.py`, in exact arithmetic.
-/
import Mathlib.Algebra.Order.BigOperators.Group.List
import Mathlib.Data.List.Sort
import Mathlib.Data.List.ProdSigma
import Mathlib.Data.List.TakeWhile
import Mathlib.Tactic.Linarith
import Mathlib.Tactic.FieldSimp
import Mathlib.Tactic.Ring

namespace RuleMind.Metrics

/-- A row of an evaluation: its label and its score. -/
abbrev Row := Bool × ℚ

/-- A label as the arrays hold it. -/
def number (label : Bool) : ℚ := if label then 1 else 0

def total (ys : List Bool) : ℚ := (ys.map number).sum

def bothClasses (ys : List Bool) : Bool :=
  decide (0 < ys.length ∧ 0 < total ys ∧ total ys < ys.length)

/-- The loop of `_rankdata_avg` from the place `j` on: a run of equal scores up to the place
    `k` has its ranks averaged. -/
def averageRanks (j : ℕ) : List ℚ → List ℚ
  | [] => []
  | x :: xs =>
    let k := j + (xs.takeWhile (· == x)).length
    List.replicate (k + 1 - j)
        (if j < k then (((j + 1 : ℕ) : ℚ) + (k + 1 : ℕ)) / 2 else (j + 1 : ℕ)) ++
      averageRanks (k + 1) (xs.dropWhile (· == x))
termination_by xs => xs.length
decreasing_by exact Nat.lt_succ_of_le (List.dropWhile_suffix _).length_le

def rankdataAvg (a : List ℚ) : List ℚ :=
  let sorted := a.zipIdx.insertionSort fun p q => p.1 ≤ q.1
  let ranks := averageRanks 0 (sorted.map Prod.fst)
  (List.range a.length).map fun i => ranks.getD ((sorted.map Prod.snd).idxOf i) 0

def rocAuc (rows : List Row) : Option ℚ :=
  let y := rows.map Prod.fst
  if bothClasses y then
    let ranks := rankdataAvg (rows.map Prod.snd)
    let nPos := total y
    let nNeg := y.length - nPos
    let sumRanksPos := (((y.zip ranks).filter (·.1)).map Prod.snd).sum
    some ((sumRanksPos - nPos * (nPos + 1) / 2) / (nPos * nNeg))
  else none

/-- `np.cumsum`, on from a sum. -/
def cumsum (c : ℚ) : List ℚ → List ℚ
  | [] => []
  | x :: xs => (c + x) :: cumsum (c + x) xs

def ksStatistic (rows : List Row) : Option ℚ :=
  if bothClasses (rows.map Prod.fst) then
    let y := (rows.insertionSort fun p q => p.2 ≤ q.2).map Prod.fst
    let posTotal := total y
    let negTotal := y.length - posTotal
    let cumPos := (cumsum 0 (y.map number)).map (· / posTotal)
    let cumNeg := (cumsum 0 (y.map fun b => 1 - number b)).map (· / negTotal)
    (List.zipWith (fun p n => |p - n|) cumPos cumNeg).max?
  else none

/-- The sum of `pr_auc` over the labels in order, on from the counts of both kinds. -/
def precisionArea (positives tp fp : ℚ) (y : List Bool) : ℚ :=
  let tps := cumsum tp (y.map number)
  let fps := cumsum fp (y.map fun b => 1 - number b)
  let precision := List.zipWith (fun t f => t / max (t + f) (1 / 10 ^ 12)) tps fps
  let recalls := tps.map (· / positives)
  let previous := tp / positives :: recalls.dropLast
  (List.zipWith (· * ·) (List.zipWith (· - ·) recalls previous) precision).sum

def prAuc (rows : List Row) : Option ℚ :=
  if total (rows.map Prod.fst) = 0 then none
  else
    let y := (rows.insertionSort fun p q => -p.2 ≤ -q.2).map Prod.fst
    some (precisionArea (total y) 0 0 y)

/-! ### Ranks -/

/-- What a score adds to the rank of another one. -/
def below (x y : ℚ) : ℚ := if x < y then 1 else if x = y then 1 / 2 else 0

theorem below_add (x y : ℚ) : below x y + below y x = 1 := by
  unfold below
  rcases lt_trichotomy x y with h | rfl | h
  · simp [h, h.not_gt, h.ne']
  · norm_num
  · simp [h, h.not_gt, h.ne']

/-- The averaged rank of a score in a list. -/
def rankIn (a : List ℚ) (x : ℚ) : ℚ := (a.map (below · x)).sum + 1 / 2

theorem rankIn_perm {a b : List ℚ} (h : a.Perm b) : rankIn a = rankIn b := by
  funext x
  simp only [rankIn, (h.map (below · x)).sum_eq]

theorem sum_below {a : List ℚ} {x c : ℚ} (h : ∀ y ∈ a, below y x = c) :
    (a.map (below · x)).sum = a.length * c := by
  simp [List.map_congr_left h]

/-- The loop of `_rankdata_avg` on the rest of a list in order. -/
theorem averageRanks_eq {l : List ℚ} : ∀ {done : List ℚ}, l.Pairwise (· ≤ ·) →
    (∀ y ∈ done, ∀ x ∈ l, y < x) →
    averageRanks done.length l = l.map (rankIn (done ++ l)) := by
  induction hn : l.length using Nat.strong_induction_on generalizing l with
  | _ n ih =>
    intro done hl hdone
    cases l with
    | nil => simp [averageRanks]
    | cons x xs =>
      obtain ⟨hx, hxs⟩ := List.pairwise_cons.1 hl
      set run := xs.takeWhile (· == x) with hrun
      set rest := xs.dropWhile (· == x) with hrest
      have hsplit : run ++ rest = xs := List.takeWhile_append_dropWhile
      have heq : ∀ y ∈ run, y = x := fun y hy => by simpa using List.mem_takeWhile_imp hy
      have hreplicate : x :: run = List.replicate (run.length + 1) x :=
        List.eq_replicate_iff.2 ⟨rfl, by simpa using heq⟩
      have hsorted : (run ++ rest).Pairwise (· ≤ ·) := hsplit ▸ hxs
      have hgt : ∀ y ∈ rest, x < y := by
        intro y hy
        cases hr : rest with
        | nil => simp [hr] at hy
        | cons z zs =>
          have hz : z ≠ x := by
            have := List.head?_dropWhile_not (· == x) xs
            rw [← hrest, hr] at this
            simpa using this
          have hxz := hx z (hsplit ▸ List.mem_append_right _ (by simp [hr]))
          have hzy : z ≤ y := by
            rw [hr] at hy hsorted
            rcases List.mem_cons.1 hy with rfl | hy
            · exact le_rfl
            · exact List.rel_of_pairwise_cons (List.pairwise_append.1 hsorted).2.1 hy
          exact (lt_of_le_of_ne hxz hz.symm).trans_le hzy
      have hlist : done ++ x :: xs = (done ++ x :: run) ++ rest := by simp [hsplit]
      have hrank : rankIn (done ++ x :: xs) x = done.length + (run.length + 1) / 2 + 1 / 2 := by
        have hbefore : ∀ y ∈ done, below y x = 1 := fun y hy => if_pos (hdone y hy x (by simp))
        have hsame : ∀ y ∈ x :: run, below y x = 1 / 2 := fun y hy => by
          rw [hreplicate] at hy
          simp [below, List.eq_of_mem_replicate hy]
        have hafter : ∀ y ∈ rest, below y x = 0 := fun y hy => by
          simp [below, (hgt y hy).not_gt, (hgt y hy).ne']
        rw [hlist, rankIn, List.map_append, List.map_append, List.sum_append, List.sum_append,
          sum_below hbefore, sum_below hsame, sum_below hafter, List.length_cons]
        push_cast
        ring
      have hlen : (done ++ x :: run).length = done.length + run.length + 1 := by simp; omega
      have hnext := ih rest.length (by rw [← hn, ← hsplit, List.length_cons, List.length_append]; omega) rfl
        (List.pairwise_append.1 hsorted).2.1 (fun y hy z hz => by
          rcases List.mem_append.1 hy with hy | hy
          · exact hdone y hy z (by simp [← hsplit, hz])
          · rw [hreplicate] at hy
            exact List.eq_of_mem_replicate hy ▸ hgt z hz : ∀ y ∈ done ++ x :: run, ∀ z ∈ rest, y < z)
      rw [hlen, ← hlist] at hnext
      have hmap : (x :: xs).map (rankIn (done ++ x :: xs)) = List.replicate (run.length + 1)
          (rankIn (done ++ x :: xs) x) ++ rest.map (rankIn (done ++ x :: xs)) := by
        rw [← List.map_replicate, ← hreplicate, ← List.map_append, List.cons_append, hsplit]
      rw [averageRanks, ← hrun, ← hrest, hnext, hmap, hrank,
        show done.length + run.length + 1 - done.length = run.length + 1 by omega]
      congr 2
      split_ifs with hlt
      · push_cast
        ring
      · have : run.length = 0 := by omega
        simp [this]
        ring

theorem rankdataAvg_eq (a : List ℚ) : rankdataAvg a = a.map (rankIn a) := by
  set sorted := a.zipIdx.insertionSort fun p q => p.1 ≤ q.1 with hsorted
  have hperm : sorted.Perm a.zipIdx := List.perm_insertionSort _ _
  have hscores : (sorted.map Prod.fst).Perm a := by simpa using hperm.map Prod.fst
  have : Std.Total fun p q : ℚ × ℕ => p.1 ≤ q.1 := ⟨fun p q => le_total p.1 q.1⟩
  have : IsTrans (ℚ × ℕ) fun p q => p.1 ≤ q.1 := ⟨fun _ _ _ => le_trans⟩
  have hranks : averageRanks 0 (sorted.map Prod.fst) = (sorted.map Prod.fst).map (rankIn a) := by
    have := @averageRanks_eq (sorted.map Prod.fst) []
      (List.pairwise_map.2 (List.pairwise_insertionSort _ _)) (by simp)
    rwa [List.nil_append, rankIn_perm hscores] at this
  refine List.ext_getElem? fun i => ?_
  by_cases hi : i < a.length
  · have hmem : i ∈ sorted.map Prod.snd := by
      rw [(hperm.map Prod.snd).mem_iff]
      simpa using hi
    obtain ⟨p, hp, rfl⟩ := Option.map_eq_some_iff.1
      (List.getElem?_map.symm.trans (List.getElem?_idxOf hmem))
    obtain ⟨_, hat⟩ := List.getElem?_eq_some_iff.1
      (List.mem_zipIdx_iff_getElem?.1 (hperm.mem_iff.1 (List.mem_of_getElem? hp)))
    simp [rankdataAvg, ← hsorted, hranks, hi, hp, hat]
  · simp [rankdataAvg, hi]

/-! ### Pairs -/

def scores (label : Bool) (rows : List Row) : List ℚ := (rows.filter (·.1 == label)).map Prod.snd

/-- Of the pairs of a positive and a negative row those in which the positive one scores higher,
    and half of those that tie. -/
def concordance (rows : List Row) : ℚ :=
  let pairs := scores true rows ×ˢ scores false rows
  (pairs.countP (fun p => p.2 < p.1) + pairs.countP (fun p => p.1 = p.2) / 2) / pairs.length

variable {rows rows' : List Row}

theorem scores_perm (h : rows.Perm rows') (label : Bool) :
    (scores label rows).Perm (scores label rows') := (h.filter _).map _

theorem concordance_perm (h : rows.Perm rows') : concordance rows = concordance rows' := by
  have : (scores true rows ×ˢ scores false rows).Perm (scores true rows' ×ˢ scores false rows') :=
    (scores_perm h true).product (scores_perm h false)
  simp only [concordance, this.countP_eq, this.length_eq]

theorem total_eq (rows : List Row) : total (rows.map Prod.fst) = (scores true rows).length := by
  induction rows with
  | nil => rfl
  | cons row rows ih =>
    obtain ⟨label, x⟩ := row
    cases label <;> simp_all [total, scores, number, add_comm]

theorem length_eq (rows : List Row) :
    rows.length = (scores true rows).length + (scores false rows).length := by
  induction rows with
  | nil => rfl
  | cons row rows ih =>
    obtain ⟨label, x⟩ := row
    cases label <;> simp_all [scores] <;> omega

theorem perm_scores (rows : List Row) :
    (rows.map Prod.snd).Perm (scores true rows ++ scores false rows) := by
  have := List.filter_append_perm (fun row : Row => row.1) rows
  simpa [scores] using (this.map Prod.snd).symm

theorem sum_positives (rows : List Row) (f : ℚ → ℚ) :
    ((((rows.map Prod.fst).zip ((rows.map Prod.snd).map f)).filter (·.1)).map Prod.snd).sum =
      ((scores true rows).map f).sum := by
  induction rows with
  | nil => rfl
  | cons row rows ih =>
    obtain ⟨label, x⟩ := row
    cases label <;> simp_all [scores]

theorem sum_below_self (a : List ℚ) :
    (a.map fun x => (a.map (below · x)).sum).sum = (a.length : ℚ) ^ 2 / 2 := by
  induction a with
  | nil => simp
  | cons x a ih =>
    have hpair : (a.map fun y => below x y).sum + (a.map fun y => below y x).sum = a.length := by
      rw [← List.sum_map_add]
      simp [below_add]
    have hself : below x x = 1 / 2 := by simp [below]
    simp only [List.map_cons, List.sum_cons, List.sum_map_add, ih, hself, List.length_cons]
    push_cast
    linarith

theorem sum_below_pairs (a b : List ℚ) :
    (a.map fun x => (b.map (below · x)).sum).sum =
      (a ×ˢ b).countP (fun p => p.2 < p.1) + ((a ×ˢ b).countP (fun p => p.1 = p.2) : ℚ) / 2 := by
  have hpairs : ∀ pairs : List (ℚ × ℚ), (pairs.map fun p => below p.2 p.1).sum =
      pairs.countP (fun p => p.2 < p.1) + (pairs.countP (fun p => p.1 = p.2) : ℚ) / 2 := by
    intro pairs
    induction pairs with
    | nil => simp
    | cons p pairs ih =>
      rw [List.map_cons, List.sum_cons, ih, List.countP_cons, List.countP_cons, below]
      rcases lt_trichotomy p.2 p.1 with h | h | h
      · simp [h, h.ne']; ring
      · simp [h]; ring
      · simp [h.not_gt, h.ne, h.ne']
  rw [← hpairs]
  simp [SProd.sprod, List.product, List.flatMap_def, List.sum_flatten, Function.comp_def]

theorem rocAuc_eq (h : bothClasses (rows.map Prod.fst) = true) :
    rocAuc rows = some (concordance rows) := by
  have hsum : ((scores true rows).map (rankIn (rows.map Prod.snd))).sum =
      (scores true rows).length * ((scores true rows).length + 1) / 2 +
        ((scores true rows).map fun x => ((scores false rows).map (below · x)).sum).sum := by
    rw [rankIn_perm (perm_scores rows)]
    change ((scores true rows).map fun x =>
      ((scores true rows ++ scores false rows).map (below · x)).sum + 1 / 2).sum = _
    simp only [List.map_append, List.sum_append, List.sum_map_add, sum_below_self]
    simp
    ring
  rw [rocAuc, if_pos h]
  dsimp only
  rw [rankdataAvg_eq, sum_positives, hsum, sum_below_pairs, total_eq]
  simp [concordance, length_eq rows, List.length_product]

/-! ### Rows in order -/

/-- No two rows of both kinds have one score. -/
def Unmixed (rows : List Row) : Prop := ∀ p ∈ rows, ∀ q ∈ rows, p.2 = q.2 → p.1 = q.1

theorem Unmixed.sort_perm (hrows : Unmixed rows) (h : rows.Perm rows')
    {g : ℚ → ℚ} (hg : Function.Injective g) :
    (rows.insertionSort fun p q => g p.2 ≤ g q.2) =
      rows'.insertionSort fun p q => g p.2 ≤ g q.2 := by
  have : Std.Total fun p q : Row => g p.2 ≤ g q.2 := ⟨fun p q => le_total (g p.2) (g q.2)⟩
  have : IsTrans Row fun p q => g p.2 ≤ g q.2 := ⟨fun _ _ _ => le_trans⟩
  refine List.Perm.eq_of_pairwise (fun p q hp hq hpq hqp => ?_)
    (List.pairwise_insertionSort _ rows) (List.pairwise_insertionSort _ rows')
    ((List.perm_insertionSort _ _).trans (h.trans (List.perm_insertionSort _ _).symm))
  have hscore := hg (le_antisymm hpq hqp)
  exact Prod.ext (hrows p (by simpa using hp) q (by simpa [h.mem_iff] using hq) hscore) hscore

theorem bothClasses_perm (h : rows.Perm rows') :
    bothClasses (rows.map Prod.fst) = bothClasses (rows'.map Prod.fst) := by
  simp [bothClasses, total_eq, (scores_perm h true).length_eq, h.length_eq]

theorem Unmixed.ksStatistic_perm (hrows : Unmixed rows)
    (h : rows.Perm rows') : ksStatistic rows' = ksStatistic rows := by
  rw [ksStatistic, ksStatistic, bothClasses_perm h,
    hrows.sort_perm h (g := fun x => x) Function.injective_id]

theorem Unmixed.prAuc_perm (hrows : Unmixed rows)
    (h : rows.Perm rows') : prAuc rows' = prAuc rows := by
  rw [prAuc, prAuc, total_eq, total_eq, (scores_perm h true).length_eq,
    hrows.sort_perm h (g := fun x => -x) neg_injective]

theorem precisionArea_cons (positives tp fp : ℚ) (b : Bool) (y : List Bool) :
    precisionArea positives tp fp (b :: y) =
      ((tp + number b) / positives - tp / positives) *
        ((tp + number b) / max (tp + number b + (fp + (1 - number b))) (1 / 10 ^ 12)) +
      precisionArea positives (tp + number b) (fp + (1 - number b)) y := by
  cases y <;> simp [precisionArea, cumsum]

/-- Of a positive and a negative label that follow each other it counts which comes first. -/
theorem precisionArea_swap {positives : ℚ} (hpos : 0 < positives) (later : List Bool) :
    ∀ (before : List Bool) {tp fp : ℚ}, 0 ≤ tp → 0 ≤ fp →
    precisionArea positives tp fp (before ++ true :: false :: later) ≠
      precisionArea positives tp fp (before ++ false :: true :: later)
  | [], tp, fp, htp, hfp => by
    have hmax : ∀ x : ℚ, 1 ≤ x → max x (1 / 10 ^ 12) = x := fun x hx =>
      max_eq_left (le_trans (by norm_num) hx)
    simp only [List.nil_append, precisionArea_cons, number, if_true, Bool.false_eq_true, if_false,
      add_zero, sub_self, zero_mul, zero_add, sub_zero]
    rw [hmax _ (by linarith), hmax _ (by linarith)]
    have hlt : (tp + 1) / (tp + 1 + (fp + 1)) < (tp + 1) / (tp + 1 + fp) :=
      div_lt_div_of_pos_left (by linarith) (by linarith) (by linarith)
    have hgain : 0 < (tp + 1) / positives - tp / positives := by
      rw [← sub_div]
      exact div_pos (by linarith) hpos
    exact fun h => (mul_lt_mul_of_pos_left hlt hgain).ne' (add_right_cancel h)
  | b :: before, tp, fp, htp, hfp => by
    rw [List.cons_append, List.cons_append, precisionArea_cons, precisionArea_cons]
    have hb : 0 ≤ number b ∧ number b ≤ 1 := by cases b <;> simp [number]
    exact fun h => precisionArea_swap hpos later before (add_nonneg htp hb.1)
      (by linarith [hb.2]) (add_left_cancel h)

theorem sort_tied (x y : Row) (h : x.2 = y.2) (rows : List Row) :
    ∃ before later, ((x :: y :: rows).insertionSort fun p q => -p.2 ≤ -q.2) =
        before ++ x :: y :: later ∧
      ((y :: x :: rows).insertionSort fun p q => -p.2 ≤ -q.2) = before ++ y :: x :: later := by
  obtain ⟨a, s⟩ := x
  obtain ⟨b, t⟩ := y
  obtain rfl : s = t := h
  refine ⟨(rows.insertionSort fun p q => -p.2 ≤ -q.2).takeWhile fun p => ¬-s ≤ -p.2,
    (rows.insertionSort fun p q => -p.2 ≤ -q.2).dropWhile fun p => ¬-s ≤ -p.2, ?_, ?_⟩
  all_goals
    rw [List.insertionSort_cons, List.insertionSort_cons, List.orderedInsert_eq_take_drop,
      List.orderedInsert_eq_take_drop, List.takeWhile_append_of_pos, List.dropWhile_append_of_pos]
    · simp
    · exact fun _ => List.mem_takeWhile_imp
    · exact fun _ => List.mem_takeWhile_imp

theorem unmixed_of_prAuc
    (h : ∀ rows', rows.Perm rows' → prAuc rows' = prAuc rows) : Unmixed rows := by
  have hmixed : ∀ p ∈ rows, ∀ q ∈ rows, p.1 = true → q.1 = false → p.2 ≠ q.2 := by
    intro p hp q hq hpos hneg hscore
    have hne : q ≠ p := fun he => by simp [he, hpos] at hneg
    have hperm := (List.perm_cons_erase hp).trans
      ((List.perm_cons_erase ((List.mem_erase_of_ne hne).2 hq)).cons p)
    have hsame := (h _ hperm).trans (h _ (hperm.trans (.swap _ _ _))).symm
    obtain ⟨before, later, hsort, hsort'⟩ := sort_tied p q hscore ((rows.erase p).erase q)
    have htotal : ∀ z : List Bool, total (true :: false :: z) = 1 + total z ∧
        total (false :: true :: z) = 1 + total z := fun z => by simp [total, number]
    have happend : ∀ z w : List Bool, total (z ++ w) = total z + total w := fun z w => by
      simp [total]
    have hnonneg : ∀ z : List Bool, 0 ≤ total z := fun z =>
      List.sum_nonneg (by simp only [List.mem_map]; rintro _ ⟨b, -, rfl⟩; cases b <;> simp [number])
    rw [prAuc, prAuc, hsort, hsort'] at hsame
    simp only [List.map_cons, List.map_append, hpos, hneg, htotal, happend] at hsame
    have hpositive : ∀ z : List Bool, 0 < 1 + total z := fun z => by linarith [hnonneg z]
    rw [if_neg (hpositive _).ne', if_neg (hpositive _).ne'] at hsame
    exact precisionArea_swap (by linarith [hnonneg (before.map Prod.fst), hnonneg (later.map Prod.fst)])
      _ _ le_rfl le_rfl (Option.some.inj hsame)
  intro p hp q hq hscore
  cases hpl : p.1 <;> cases hql : q.1
  · rfl
  · exact (hmixed q hq p hp hql hpl hscore.symm).elim
  · exact (hmixed p hp q hq hpl hql hscore).elim
  · rfl

/-- **The metrics do not depend on the order of the rows**, and `roc_auc` counts pairs, if and
    only if no two rows of both kinds have one score. -/
theorem metrics_sound_iff (hpos : ∃ p ∈ rows, p.1 = true) (hneg : ∃ p ∈ rows, p.1 = false) :
    ((∀ rows', rows.Perm rows' → rocAuc rows' = rocAuc rows ∧
        ksStatistic rows' = ksStatistic rows ∧ prAuc rows' = prAuc rows) ∧
      rocAuc rows = some (concordance rows)) ↔ Unmixed rows := by
  have hboth : bothClasses (rows.map Prod.fst) = true := by
    have hlen : ∀ b, (∃ p ∈ rows, p.1 = b) → 0 < (scores b rows).length := by
      rintro b ⟨p, hp, rfl⟩
      exact List.length_pos_of_mem (List.mem_map_of_mem (List.mem_filter.2 ⟨hp, by simp⟩))
    have := hlen true hpos
    have := hlen false hneg
    simp [bothClasses, total_eq, length_eq rows]
    omega
  constructor
  · exact fun h => unmixed_of_prAuc fun rows' hperm => (h.1 rows' hperm).2.2
  · refine fun h => ⟨fun rows' hperm => ⟨?_, h.ksStatistic_perm hperm, h.prAuc_perm hperm⟩,
      rocAuc_eq hboth⟩
    rw [rocAuc_eq hboth, rocAuc_eq (bothClasses_perm hperm ▸ hboth), concordance_perm hperm]

theorem metrics_sound_apart :
    ((∀ rows', [(true, (2 : ℚ)), (false, 1), (true, 2)].Perm rows' →
        rocAuc rows' = rocAuc [(true, 2), (false, 1), (true, 2)] ∧
        ksStatistic rows' = ksStatistic [(true, 2), (false, 1), (true, 2)] ∧
        prAuc rows' = prAuc [(true, 2), (false, 1), (true, 2)]) ∧
      rocAuc [(true, 2), (false, 1), (true, 2)] =
        some (concordance [(true, 2), (false, 1), (true, 2)])) ↔
      Unmixed [(true, 2), (false, 1), (true, 2)] :=
  metrics_sound_iff ⟨(true, 2), by simp⟩ ⟨(false, 1), by simp⟩

/-- Of two rows with one score the order decides `ks_statistic` and `pr_auc`. -/
theorem tied_order_counts :
    [(true, (1 : ℚ)), (false, 1), (true, 0)].Perm [(false, 1), (true, 1), (true, 0)] ∧
      prAuc [(true, 1), (false, 1), (true, 0)] ≠ prAuc [(false, 1), (true, 1), (true, 0)] ∧
      ksStatistic [(true, 1), (false, 1), (true, 0)] ≠
        ksStatistic [(false, 1), (true, 1), (true, 0)] :=
  ⟨.swap _ _ _, by decide +kernel, by decide +kernel⟩

end RuleMind.Metrics
