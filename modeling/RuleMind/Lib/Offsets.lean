/-
  Pages by offset: each a slice of a new answer to a query that orders its rows by
  keys which need not differ.
-/
import Mathlib.Data.List.Perm.Subperm
import Mathlib.Data.List.Sort

namespace Lib

universe u v
variable {ρ : Type u} {κ : Type v}

theorem lt_countP_iff {q : ρ → Bool} {l : List ρ} {p : ℕ} {r : ρ}
    (hdown : l.Pairwise fun a b => q b = true → q a = true) (hp : l[p]? = some r) :
    p < l.countP q ↔ q r = true := by
  induction l generalizing p with
  | nil => cases hp
  | cons a l ih =>
    obtain ⟨ha, hdown⟩ := List.pairwise_cons.1 hdown
    have hnone : q a = false → l.countP q = 0 := by
      intro hqa
      rw [List.countP_eq_zero]
      intro b hb hqb
      rw [ha b hb hqb] at hqa
      cases hqa
    cases p with
    | zero => grind -ring -linarith
    | succ p => grind -ring -linarith

variable [LinearOrder κ]

/-- The rows in the order of their keys, rows of one key in any order. -/
structure Answers (key : ρ → κ) (rows answer : List ρ) : Prop where
  perm : answer.Perm rows
  sorted : answer.Pairwise fun r r' => key r ≤ key r'

/-- How many rows come before those of key `k`. -/
def below (key : ρ → κ) (rows : List ρ) (k : κ) : ℕ := rows.countP fun r => key r < k

def upTo (key : ρ → κ) (rows : List ρ) (k : κ) : ℕ := rows.countP fun r => key r ≤ k

variable {key : ρ → κ} {rows answer : List ρ} {p : ℕ} {r : ρ} {k : κ}

theorem Answers.lt_below_iff (h : Answers key rows answer) (hp : answer[p]? = some r) :
    p < below key rows k ↔ key r < k := by
  rw [below, ← h.perm.countP_eq, lt_countP_iff (h.sorted.imp fun hle => ?_) hp, decide_eq_true_iff]
  grind

theorem Answers.lt_upTo_iff (h : Answers key rows answer) (hp : answer[p]? = some r) :
    p < upTo key rows k ↔ key r ≤ k := by
  rw [upTo, ← h.perm.countP_eq, lt_countP_iff (h.sorted.imp fun hle => ?_) hp, decide_eq_true_iff]
  grind

theorem answers_insertionSort (key : ρ → κ) (rows : List ρ) :
    Answers key rows (rows.insertionSort fun r r' => key r ≤ key r') := by
  have : Std.Total fun r r' : ρ => key r ≤ key r' := ⟨fun r r' => le_total _ _⟩
  have : IsTrans ρ fun r r' => key r ≤ key r' := ⟨fun _ _ _ => le_trans⟩
  exact ⟨List.perm_insertionSort _ _, List.pairwise_insertionSort _ _⟩

theorem Answers.swap (h : Answers key rows answer) {q : ℕ} {r' : ρ} (hp : answer[p]? = some r')
    (hq : answer[q]? = some r) (hkey : key r = key r') :
    ∃ answer', Answers key rows answer' ∧ answer'[p]? = some r := by
  obtain ⟨hplt, rfl⟩ := List.getElem?_eq_some_iff.1 hp
  obtain ⟨hqlt, rfl⟩ := List.getElem?_eq_some_iff.1 hq
  refine ⟨(answer.set q answer[p]).set p answer[q], ⟨?_, ?_⟩, ?_⟩
  · exact (List.set_set_perm hqlt hplt).trans h.perm
  · have hsame : ∀ (i j : ℕ) (hi : i < answer.length) (hj : j < answer.length),
        key answer[i] = key answer[j] →
          (answer.map key).set i (key answer[j]) = answer.map key := by
      intro i j hi hj heq
      have hlen : i < (answer.map key).length := by rw [List.length_map]; exact hi
      have hkey : (answer.map key)[i] = key answer[j] := by rw [List.getElem_map, heq]
      rw [← hkey]
      exact List.set_getElem_self hlen
    have hkeys : ((answer.set q answer[p]).set p answer[q]).map key = answer.map key := by
      rw [List.map_set, List.map_set, hsame q p hqlt hplt hkey, hsame p q hplt hqlt hkey.symm]
    rw [← List.pairwise_map, hkeys, List.pairwise_map]
    exact h.sorted
  simp_all

/-- **Each place between the bounds** is the row's in some answer. -/
theorem exists_answer (hr : r ∈ rows) (hlo : below key rows (key r) ≤ p)
    (hhi : p < upTo key rows (key r)) :
    ∃ answer, Answers key rows answer ∧ answer[p]? = some r := by
  have hsort := answers_insertionSort key rows
  obtain ⟨q, hq⟩ := List.mem_iff_getElem?.1 (hsort.perm.mem_iff.2 hr)
  have hlen : upTo key rows (key r) ≤ (rows.insertionSort fun r r' => key r ≤ key r').length := by
    rw [List.length_insertionSort]
    exact List.countP_le_length
  obtain ⟨r', hp⟩ : ∃ r', (rows.insertionSort fun r r' => key r ≤ key r')[p]? = some r' :=
    ⟨_, List.getElem?_eq_getElem (Nat.lt_of_lt_of_le hhi hlen)⟩
  have hle : key r' ≤ key r := (hsort.lt_upTo_iff hp).1 hhi
  have hge : ¬ key r' < key r := fun hlt => by
    have := (hsort.lt_below_iff hp).2 hlt
    omega
  exact hsort.swap hp hq (le_antisymm (not_lt.1 hge) hle)

/-! ### Pages -/

/-- The `i`-th page of an answer. -/
def pageAt (size : ℕ) (answer : List ρ) (i : ℕ) : List ρ := (answer.drop (i * size)).take size

structure MayStand (key : ρ → κ) (rows : List ρ) (size i : ℕ) (r : ρ) : Prop where
  mem : r ∈ rows
  starts : below key rows (key r) < (i + 1) * size
  ends : i * size < upTo key rows (key r)

variable {size i : ℕ}

theorem mem_pageAt : r ∈ pageAt size answer i ↔
    ∃ p, i * size ≤ p ∧ p < (i + 1) * size ∧ answer[p]? = some r := by
  rw [pageAt, List.mem_iff_getElem?, Nat.succ_mul]
  constructor
  · grind
  · rintro ⟨p, hlo, hhi, hp⟩
    refine ⟨p - i * size, ?_⟩
    grind

theorem mayStand_iff : MayStand key rows size i r ↔
    ∃ answer, Answers key rows answer ∧ r ∈ pageAt size answer i := by
  constructor
  · rintro ⟨hmem, hstarts, hends⟩
    have hsome : below key rows (key r) < upTo key rows (key r) := by
      have hsort := answers_insertionSort key rows
      obtain ⟨q, hq⟩ := List.mem_iff_getElem?.1 (hsort.perm.mem_iff.2 hmem)
      have hlo : ¬ q < below key rows (key r) := fun hlt =>
        lt_irrefl _ ((hsort.lt_below_iff hq).1 hlt)
      have hhi := (hsort.lt_upTo_iff hq).2 (le_refl (key r))
      omega
    have hsize : i * size < (i + 1) * size := by
      have hpos : 0 < size := by
        refine Nat.pos_of_ne_zero ?_
        rintro rfl
        rw [Nat.mul_zero] at hstarts
        exact absurd hstarts (Nat.not_lt_zero _)
      rw [Nat.succ_mul]
      omega
    obtain ⟨answer, hanswer, hp⟩ := exists_answer hmem (le_max_left _ (i * size))
      (max_lt hsome hends)
    grind [mem_pageAt]
  · rintro ⟨answer, hanswer, hr⟩
    obtain ⟨p, hlo, hhi, hp⟩ := mem_pageAt.1 hr
    have hstarts : ¬ p < below key rows (key r) := fun hlt =>
      lt_irrefl _ ((hanswer.lt_below_iff hp).1 hlt)
    have hends := (hanswer.lt_upTo_iff hp).2 (le_refl (key r))
    exact ⟨hanswer.perm.mem_iff.1 (List.mem_of_getElem? hp), by omega, by omega⟩

/-- The pages up to the `k`-th, each of its own answer. -/
def pages (size : ℕ) (answers : ℕ → List ρ) (k : ℕ) : List ρ :=
  (List.range (k + 1)).flatMap fun i => pageAt size (answers i) i

variable {table answers : ℕ → List ρ}

theorem pages_nodup {k : ℕ} (hanswers : ∀ i, Answers key (table i) (answers i))
    (hnodup : ∀ i, (table i).Nodup)
    (honce : ∀ i j, i < j → j ≤ k → ∀ r, MayStand key (table i) size i r →
      ¬ MayStand key (table j) size j r) : (pages size answers k).Nodup := by
  rw [pages, List.nodup_flatMap]
  refine ⟨fun i _ => ?_, ?_⟩
  · have hanswer : (answers i).Nodup := (hanswers i).perm.nodup_iff.2 (hnodup i)
    exact (hanswer.sublist (List.drop_sublist _ _)).sublist (List.take_sublist _ _)
  · refine List.pairwise_lt_range.imp_of_mem fun {i j} _ hj hij => ?_
    rw [List.mem_range] at hj
    intro r hri hrj
    exact honce i j hij (by omega) r (mayStand_iff.2 ⟨_, hanswers i, hri⟩)
      (mayStand_iff.2 ⟨_, hanswers j, hrj⟩)

theorem table_subset (hgrows : ∀ i, table i ⊆ table (i + 1)) {i k : ℕ} (hik : i ≤ k) :
    table i ⊆ table k := by
  induction hik with
  | refl => exact List.Subset.refl _
  | step _ ih => exact List.Subset.trans ih (hgrows _)

theorem length_pages {k : ℕ} (hfull : ∀ i < k, (i + 1) * size ≤ (answers i).length) :
    ((List.range k).flatMap fun i => pageAt size (answers i) i).length = k * size := by
  induction k with
  | zero => simp
  | succ k ih =>
    rw [List.range_succ, List.flatMap_append, List.length_append,
      ih fun i hi => hfull i (Nat.lt_succ_of_lt hi), List.flatMap_singleton, pageAt,
      List.length_take, List.length_drop, Nat.succ_mul]
    grind

/-- **The pages are the rows of the last query**, where none is read twice. -/
theorem pages_perm {k : ℕ} (hanswers : ∀ i, Answers key (table i) (answers i))
    (hunique : ∀ i, (table i).Nodup) (hgrows : ∀ i, table i ⊆ table (i + 1))
    (hfull : ∀ i < k, (i + 1) * size ≤ (table i).length)
    (hends : (table k).length ≤ (k + 1) * size) (hnodup : (pages size answers k).Nodup) :
    (pages size answers k).Perm (table k) := by
  have hlen : ∀ i, (answers i).length = (table i).length := fun i => (hanswers i).perm.length_eq
  have hsub : pages size answers k ⊆ table k := by
    intro r hr
    obtain ⟨i, hi, hri⟩ := List.mem_flatMap.1 hr
    have hik : i ≤ k := Nat.le_of_lt_succ (List.mem_range.1 hi)
    exact table_subset hgrows hik (mayStand_iff.2 ⟨_, hanswers i, hri⟩).mem
  have hreach : k * size ≤ (table k).length := by
    cases k with
    | zero => omega
    | succ k =>
      have hle := (List.Nodup.subperm (hunique k) (hgrows k)).length_le
      exact (hfull k (Nat.lt_succ_self k)).trans hle
  refine (List.Nodup.subperm hnodup hsub).perm_of_length_le ?_
  rw [pages, List.range_succ, List.flatMap_append, List.length_append,
    length_pages fun i hi => by rw [hlen]; exact hfull i hi, List.flatMap_singleton, pageAt,
    List.length_take, List.length_drop, hlen]
  rw [Nat.succ_mul] at hends
  omega

/-- **A row that may stand on two pages** is read twice in some answers. -/
theorem pages_twice {i j k : ℕ} (hij : i < j) (hjk : j ≤ k)
    (hi : MayStand key (table i) size i r) (hj : MayStand key (table j) size j r) :
    ∃ answers, (∀ i, Answers key (table i) (answers i)) ∧ ¬ (pages size answers k).Nodup := by
  obtain ⟨first, hfirst, hri⟩ := mayStand_iff.1 hi
  obtain ⟨second, hsecond, hrj⟩ := mayStand_iff.1 hj
  let rest := fun m => (table m).insertionSort fun r r' => key r ≤ key r'
  refine ⟨Function.update (Function.update rest i first) j second, fun m => ?_, fun h => ?_⟩
  · grind [answers_insertionSort]
  · have hdisjoint := List.pairwise_iff_getElem.1 (List.nodup_flatMap.1 h).2 i j
      (by rw [List.length_range]; omega) (by rw [List.length_range]; omega) hij
    rw [List.getElem_range, List.getElem_range] at hdisjoint
    refine @hdisjoint r ?_ ?_
    · grind
    · simp_all

end Lib
