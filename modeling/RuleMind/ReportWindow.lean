/-
  The decisions of a report: `iter_decisions_window` and `decision_facts` of `app/storage.py`.

  The pages are slices of queries that order by `created_at` alone, each of the table as it is by
  then: decisions of one moment come in any order, and newer ones may have been inserted.
-/
import RuleMind.Lib.Offsets
import RuleMind.DecisionStream

namespace RuleMind.ReportWindow

open Lib DecisionStream

/-! ### The loop -/

/-- The table at each query; decisions are inserted only. -/
structure Growing where
  table : ℕ → Decisions
  grows : ∀ i, (table i).rows ⊆ (table (i + 1)).rows

def inWindow (tenantId : String) (since : Option ℕ) (table : Decisions) : List Decision :=
  table.rows.filter fun d => d.tenantId = tenantId ∧ since.all (· ≤ d.createdAt) = true

/-- `ORDER BY created_at DESC`. -/
def newest (d : Decision) : ℕᵒᵈ := OrderDual.toDual d.createdAt

section Loop
variable (maxRows pageSize : ℕ) (answers : ℕ → List Decision)

/-- The rows of a page, up to `max_rows`, and whether that was hit. -/
def collect : List Decision → List Decision → List Decision × Bool
  | collected, [] => (collected, false)
  | collected, row :: rows =>
    if (collected ++ [row]).length ≥ maxRows then (collected ++ [row], true)
    else collect (collected ++ [row]) rows

/-- The loop from the `n`-th query on. -/
def fetch : ℕ → ℕ → ℕ → List Decision → Bool → Option (List Decision × Bool)
  | 0, _, _, _, _ => none
  | fuel + 1, n, offset, collected, truncated =>
    if collected.length < maxRows then
      let rows := ((answers n).drop offset).take pageSize
      if rows = [] then some (collected, truncated)
      else
        let (collected, hit) := collect maxRows collected rows
        if rows.length < pageSize then some (collected, truncated || hit)
        else fetch fuel (n + 1) (offset + pageSize) collected (truncated || hit)
    else some (collected, truncated)

/-- There are fewer queries than rows that may be collected. -/
def iterDecisionsWindow : Option (List Decision × Bool) :=
  fetch maxRows pageSize answers (maxRows + 1) 0 0 [] false

structure Fact where
  createdAt : ℕ
  outcome : String
  source : String
  latencyMs : ℤ
  policyId : Option String
  experimentVariant : Option String
  deriving DecidableEq

def Fact.of (d : Decision) : Fact :=
  ⟨d.createdAt, d.outcome, d.source, d.latencyMs, d.policyId, d.experimentVariant⟩

def decisionFacts : Option (List Fact) :=
  (iterDecisionsWindow maxRows pageSize answers).map fun result => result.1.map Fact.of

end Loop

/-! ### What is promised -/

section Promise
variable (tables : Growing) (tenantId : String) (since : Option ℕ) (maxRows pageSize : ℕ)

/-- The rows of the `i`-th query. -/
def rowsAt (i : ℕ) : List Decision := inWindow tenantId since (tables.table i)

/-- Each query is answered newest first, decisions of one moment in any order. -/
def Answering (answers : ℕ → List Decision) : Prop :=
  ∀ i, Answers newest (rowsAt tables tenantId since i) (answers i)

/-- What was there from the start is listed once, and nothing twice. -/
structure Complete (listed : List Decision) : Prop where
  once : ∀ d ∈ rowsAt tables tenantId since 0, listed.count d = 1
  nodup : listed.Nodup

def WindowComplete : Prop :=
  ∀ answers, Answering tables tenantId since answers → ∃ listed truncated,
    iterDecisionsWindow maxRows pageSize answers = some (listed, truncated) ∧
    (truncated = false → Complete tables tenantId since listed)

/-- The same of the decisions whose columns are listed. -/
def FactsComplete : Prop :=
  ∀ answers, Answering tables tenantId since answers → ∃ listed truncated,
    iterDecisionsWindow maxRows pageSize answers = some (listed, truncated) ∧
    decisionFacts maxRows pageSize answers = some (listed.map Fact.of) ∧
    (listed.length < maxRows → Complete tables tenantId since listed)

/-- The query that reaches the end, before `max_rows` is hit. -/
structure LastQuery (k : ℕ) : Prop where
  full : ∀ i < k, (i + 1) * pageSize ≤ (rowsAt tables tenantId since i).length
  short : (rowsAt tables tenantId since k).length < (k + 1) * pageSize
  fits : (rowsAt tables tenantId since k).length < maxRows

/-- No decision may stand on two of the pages, wherever it stands among those of its moment. -/
def Settled : Prop :=
  ∀ k, LastQuery tables tenantId since maxRows pageSize k → ∀ i j, i < j → j ≤ k → ∀ d,
    MayStand newest (rowsAt tables tenantId since i) pageSize i d →
      ¬ MayStand newest (rowsAt tables tenantId since j) pageSize j d

/-- Where nothing is fetched there is nothing to be fetched. -/
def Condition : Prop :=
  if 0 < pageSize ∧ 0 < maxRows then Settled tables tenantId since maxRows pageSize
  else rowsAt tables tenantId since 0 = []

end Promise

/-! ### The pages -/

section Pages
variable {maxRows pageSize : ℕ} {answers : ℕ → List Decision}

theorem collect_eq (collected rows : List Decision) (hroom : collected.length < maxRows) :
    collect maxRows collected rows = (collected ++ rows.take (maxRows - collected.length),
      decide (maxRows ≤ collected.length + rows.length)) := by
  induction rows generalizing collected with
  | nil => rw [collect, List.take_nil, List.append_nil, List.length_nil, decide_eq_false (by omega)]
  | cons row rows ih =>
    obtain ⟨room, hroom⟩ : ∃ room, maxRows - collected.length = room + 1 :=
      ⟨maxRows - collected.length - 1, by omega⟩
    have hlen : (collected ++ [row]).length = collected.length + 1 := by
      rw [List.length_append, List.length_singleton]
    rw [collect, hlen, hroom, List.take_succ_cons]
    split
    · have hzero : room = 0 := by omega
      rw [hzero, List.take_zero, List.length_cons, decide_eq_true (by omega)]
    · rw [ih (collected ++ [row]) (by omega), hlen, List.length_cons, List.append_assoc]
      grind

variable {tables : Growing} {tenantId : String} {since : Option ℕ}

theorem rows_unique (i : ℕ) : (rowsAt tables tenantId since i).Nodup := by
  have hids : ((rowsAt tables tenantId since i).map (·.id)).Nodup :=
    (tables.table i).unique.sublist (List.filter_sublist.map _)
  exact hids.of_map _

theorem rows_grow (i : ℕ) :
    rowsAt tables tenantId since i ⊆ rowsAt tables tenantId since (i + 1) := by
  intro d hd
  obtain ⟨hmem, hwindow⟩ := List.mem_filter.1 hd
  exact List.mem_filter.2 ⟨tables.grows i hmem, hwindow⟩

theorem length_rows {i k : ℕ} (hik : i ≤ k) :
    (rowsAt tables tenantId since i).length ≤ (rowsAt tables tenantId since k).length :=
  (List.Nodup.subperm (rows_unique i) (table_subset rows_grow hik)).length_le

/-- The pages before the `n`-th. -/
def listedBefore (pageSize : ℕ) (answers : ℕ → List Decision) (n : ℕ) : List Decision :=
  (List.range n).flatMap fun i => pageAt pageSize (answers i) i

theorem listedBefore_succ (n : ℕ) : listedBefore pageSize answers (n + 1) =
    listedBefore pageSize answers n ++ pageAt pageSize (answers n) n := by
  rw [listedBefore, List.range_succ, List.flatMap_append, List.flatMap_singleton]
  rfl

/-- **The loop lists the pages** up to the one that reaches the end, or hits `max_rows`. -/
theorem fetch_pages (hanswers : Answering tables tenantId since answers) (hpage : 0 < pageSize)
    (fuel n : ℕ) (hroom : n * pageSize < maxRows) (hfuel : maxRows - n * pageSize < fuel)
    (hfull : ∀ i < n, (i + 1) * pageSize ≤ (rowsAt tables tenantId since i).length) :
    ∃ listed truncated, fetch maxRows pageSize answers fuel n (n * pageSize)
        (listedBefore pageSize answers n) false = some (listed, truncated) ∧
      truncated = decide (maxRows ≤ listed.length) ∧
      if truncated = true then ∀ k, ¬ LastQuery tables tenantId since maxRows pageSize k
      else ∃ k, LastQuery tables tenantId since maxRows pageSize k ∧
        listed = pages pageSize answers k := by
  have hlen : ∀ i, (answers i).length = (rowsAt tables tenantId since i).length :=
    fun i => (hanswers i).perm.length_eq
  have hbefore : ∀ n, (∀ i < n, (i + 1) * pageSize ≤ (rowsAt tables tenantId since i).length) →
      (listedBefore pageSize answers n).length = n * pageSize :=
    fun n hfull => length_pages fun i hi => (hlen i).symm ▸ hfull i hi
  induction fuel generalizing n with
  | zero => omega
  | succ fuel ih =>
    have hpageLen : (pageAt pageSize (answers n) n).length =
        min pageSize ((rowsAt tables tenantId since n).length - n * pageSize) := by
      rw [pageAt, List.length_take, List.length_drop, hlen]
    have hreach : n * pageSize ≤ (rowsAt tables tenantId since n).length := by
      cases n with
      | zero => omega
      | succ n => exact (hfull n (Nat.lt_succ_self n)).trans (length_rows (Nat.le_succ n))
    have hsucc : (n + 1) * pageSize = n * pageSize + pageSize := Nat.succ_mul n pageSize
    rw [fetch, if_pos (by rw [hbefore n hfull]; exact hroom)]
    show ∃ listed truncated, (if pageAt pageSize (answers n) n = [] then _ else _) = _ ∧ _
    by_cases hnil : pageAt pageSize (answers n) n = []
    · rw [if_pos hnil]
      rw [hnil, List.length_nil] at hpageLen
      refine ⟨_, false, rfl, ?_, ?_⟩
      · rw [hbefore n hfull, decide_eq_false (by omega)]
      rw [if_neg Bool.false_ne_true]
      refine ⟨n, ⟨hfull, by omega, by omega⟩, ?_⟩
      rw [pages, ← listedBefore, listedBefore_succ, hnil, List.append_nil]
    · have hpos := List.length_pos_iff.2 hnil
      have hcollect := @collect_eq maxRows (listedBefore pageSize answers n)
        (pageAt pageSize (answers n) n) (by rw [hbefore n hfull]; exact hroom)
      rw [hbefore n hfull] at hcollect
      have hdrop : ((answers n).drop (n * pageSize)).take pageSize =
          pageAt pageSize (answers n) n := rfl
      rw [if_neg hnil]
      simp only [hdrop, hcollect, Bool.false_or]
      by_cases hhit : maxRows ≤ n * pageSize + (pageAt pageSize (answers n) n).length
      · have hlisted : (listedBefore pageSize answers n ++
            (pageAt pageSize (answers n) n).take (maxRows - n * pageSize)).length = maxRows := by
          rw [List.length_append, List.length_take, hbefore n hfull]
          omega
        rw [decide_eq_true hhit]
        have hnone : ∀ k, ¬ LastQuery tables tenantId since maxRows pageSize k := by
          intro k hk
          have hfits := hk.fits
          have hshort := hk.short
          by_cases hkn : k < n
          · have hle := hfull k hkn
            omega
          · have hle : (rowsAt tables tenantId since n).length ≤
                (rowsAt tables tenantId since k).length := length_rows (not_lt.1 hkn)
            omega
        have htruncated : true = decide (maxRows ≤ (listedBefore pageSize answers n ++
            (pageAt pageSize (answers n) n).take (maxRows - n * pageSize)).length) := by
          rw [hlisted, decide_eq_true (Nat.le_refl maxRows)]
        split
        · grind
        · obtain ⟨fuel, rfl⟩ : ∃ f, fuel = f + 1 := ⟨fuel - 1, by omega⟩
          rw [fetch, if_neg (by omega)]
          grind
      · rw [decide_eq_false hhit, List.take_of_length_le (by omega), ← listedBefore_succ]
        split
        · rename_i hshort
          refine ⟨_, false, rfl, ?_, ?_⟩
          · rw [listedBefore_succ, List.length_append, hbefore n hfull, decide_eq_false hhit]
          rw [if_neg Bool.false_ne_true]
          exact ⟨n, ⟨hfull, by omega, by omega⟩, rfl⟩
        · rename_i hlong
          rw [← hsucc]
          refine ih (n + 1) (by omega) (by omega) fun i hi => ?_
          grind

theorem iterDecisionsWindow_pages (hanswers : Answering tables tenantId since answers)
    (hpage : 0 < pageSize) (hmax : 0 < maxRows) :
    ∃ listed truncated, iterDecisionsWindow maxRows pageSize answers = some (listed, truncated) ∧
      truncated = decide (maxRows ≤ listed.length) ∧
      if truncated = true then ∀ k, ¬ LastQuery tables tenantId since maxRows pageSize k
      else ∃ k, LastQuery tables tenantId since maxRows pageSize k ∧
        listed = pages pageSize answers k := by
  have h := fetch_pages hanswers hpage (maxRows + 1) 0 (by rw [Nat.zero_mul]; exact hmax)
    (by rw [Nat.zero_mul]; exact Nat.lt_succ_self maxRows) fun i hi => absurd hi (Nat.not_lt_zero i)
  rw [Nat.zero_mul] at h
  exact h

theorem iterDecisionsWindow_nothing (h : ¬ (0 < pageSize ∧ 0 < maxRows)) :
    iterDecisionsWindow maxRows pageSize answers = some ([], false) := by
  grind [iterDecisionsWindow, fetch]

theorem complete_nil : Complete tables tenantId since [] ↔ rowsAt tables tenantId since 0 = [] := by
  constructor
  · intro h
    refine List.eq_nil_iff_forall_not_mem.2 fun d hd => ?_
    have hcount := h.once d hd
    rw [List.count_nil] at hcount
    cases hcount
  · intro h
    refine ⟨fun d hd => ?_, List.nodup_nil⟩
    rw [h] at hd
    cases hd

theorem complete_pages {k : ℕ} (hanswers : Answering tables tenantId since answers)
    (hk : LastQuery tables tenantId since maxRows pageSize k)
    (hnodup : (pages pageSize answers k).Nodup) :
    Complete tables tenantId since (pages pageSize answers k) := by
  have hperm := pages_perm hanswers rows_unique rows_grow hk.full hk.short.le hnodup
  refine ⟨fun d hd => List.count_eq_one_of_mem hnodup (hperm.mem_iff.2 ?_), hnodup⟩
  exact table_subset rows_grow (Nat.zero_le k) hd

theorem LastQuery.le {k k' : ℕ} (h : LastQuery tables tenantId since maxRows pageSize k)
    (h' : LastQuery tables tenantId since maxRows pageSize k') : k' ≤ k := by
  by_contra hlt
  have hfull := h'.full k (not_le.1 hlt)
  have hshort := h.short
  omega

/-- **A window is complete in every order** if and only if no decision may stand on two pages. -/
theorem settled_iff (hpage : 0 < pageSize) (hmax : 0 < maxRows) :
    Settled tables tenantId since maxRows pageSize ↔
      WindowComplete tables tenantId since maxRows pageSize := by
  constructor
  · intro hsettled answers hanswers
    obtain ⟨listed, truncated, hresult, -, hlisted⟩ := iterDecisionsWindow_pages hanswers hpage hmax
    refine ⟨listed, truncated, hresult, ?_⟩
    rintro rfl
    rw [if_neg Bool.false_ne_true] at hlisted
    obtain ⟨k, hk, rfl⟩ := hlisted
    exact complete_pages hanswers hk (pages_nodup hanswers rows_unique (hsettled k hk))
  · intro hcomplete k hk i j hij hjk d hi hj
    obtain ⟨answers, hanswers, htwice⟩ := pages_twice hij hjk hi hj
    obtain ⟨listed, truncated, hresult, hlisted⟩ := hcomplete answers hanswers
    obtain ⟨listed', truncated', hresult', -, hlisted'⟩ :=
      iterDecisionsWindow_pages hanswers hpage hmax
    rw [hresult] at hresult'
    cases hresult'
    split at hlisted'
    · exact hlisted' k hk
    · rename_i hfalse
      obtain ⟨k', hk', rfl⟩ := hlisted'
      obtain rfl : k = k' := Nat.le_antisymm (hk'.le hk) (hk.le hk')
      exact htwice (hlisted (Bool.eq_false_iff.2 hfalse)).nodup

theorem condition_iff : WindowComplete tables tenantId since maxRows pageSize ↔
    Condition tables tenantId since maxRows pageSize := by
  rw [Condition]
  split
  · rename_i hpos
    exact (settled_iff hpos.1 hpos.2).symm
  · rename_i hzero
    rw [← complete_nil]
    constructor
    · intro h
      obtain ⟨listed, truncated, hresult, hcomplete⟩ := h
        (fun i => (rowsAt tables tenantId since i).insertionSort fun d e => newest d ≤ newest e)
        fun i => answers_insertionSort newest _
      rw [iterDecisionsWindow_nothing hzero] at hresult
      cases hresult
      exact hcomplete rfl
    · exact fun h answers _ => ⟨[], false, iterDecisionsWindow_nothing hzero, fun _ => h⟩

theorem truncated_iff (hanswers : Answering tables tenantId since answers) (hmax : 0 < maxRows)
    {listed : List Decision} {truncated : Bool}
    (h : iterDecisionsWindow maxRows pageSize answers = some (listed, truncated)) :
    truncated = false ↔ listed.length < maxRows := by
  by_cases hpage : 0 < pageSize
  · obtain ⟨listed', truncated', hresult, htruncated, -⟩ :=
      iterDecisionsWindow_pages hanswers hpage hmax
    rw [h] at hresult
    cases hresult
    rw [htruncated, decide_eq_false_iff_not, not_le]
  · rw [iterDecisionsWindow_nothing fun hpos => hpage hpos.1] at h
    cases h
    exact ⟨fun _ => hmax, fun _ => rfl⟩

theorem facts_iff : FactsComplete tables tenantId since maxRows pageSize ↔
    (0 < maxRows → WindowComplete tables tenantId since maxRows pageSize) := by
  constructor
  · intro h hmax answers hanswers
    obtain ⟨listed, truncated, hresult, -, hcomplete⟩ := h answers hanswers
    grind -ring -linarith [truncated_iff]
  · intro h answers hanswers
    by_cases hmax : 0 < maxRows
    · obtain ⟨listed, truncated, hresult, hcomplete⟩ := h hmax answers hanswers
      grind -ring -linarith [decisionFacts, truncated_iff]
    · have hresult : iterDecisionsWindow maxRows pageSize answers = some ([], false) :=
        iterDecisionsWindow_nothing fun hpos => hmax hpos.2
      simp_all [decisionFacts]

end Pages

/-- **A list that is not truncated is complete**, in every order in which decisions of one moment
    may come, if and only if no decision may stand on two of the pages. -/
theorem window_complete_iff (tables : Growing) (tenantId : String) (since : Option ℕ)
    (maxRows pageSize : ℕ) :
    (WindowComplete tables tenantId since maxRows pageSize ↔
      Condition tables tenantId since maxRows pageSize) ∧
    (FactsComplete tables tenantId since maxRows pageSize ↔
      (0 < maxRows → Condition tables tenantId since maxRows pageSize)) := by
  refine ⟨condition_iff, ?_⟩
  rw [facts_iff, condition_iff]

/-- The decisions `a` and `b`, both created at 5. -/
def sameMoment : Decisions := changing 0

/-- **Of two decisions of one moment**, one is listed twice and one is not, when the second query
    has them in the other order. -/
theorem same_moment_twice :
    ¬ WindowComplete ⟨fun _ => sameMoment, fun _ => List.Subset.refl _⟩ "tenant" none 100000 1 := by
  intro h
  let answers := fun i => if i = 1 then sameMoment.rows.reverse else sameMoment.rows
  have hanswers : Answering ⟨fun _ => sameMoment, fun _ => List.Subset.refl _⟩ "tenant" none
      answers := by
    intro i
    show Answers newest sameMoment.rows (if i = 1 then _ else _)
    split
    · exact ⟨List.reverse_perm _, by decide⟩
    · exact ⟨List.Perm.refl _, by decide⟩
  have hlisted : iterDecisionsWindow 100000 1 answers =
      some ([decisionAt "a" (by decide) 5, decisionAt "a" (by decide) 5], false) := rfl
  obtain ⟨listed, truncated, hresult, hcomplete⟩ := h answers hanswers
  rw [hlisted] at hresult
  cases hresult
  have hnodup := (hcomplete rfl).nodup
  revert hnodup
  decide

end RuleMind.ReportWindow
