/-
  `CompiledBundle` of the Rust core: the step loop of `CompiledBundle::steps`, and
  when it decides as `decide` of the Python core does.

  A step's vote is fixed, or left to the tree of a rule, which both engines are taken to evaluate
  alike (`SharedTrees`).
-/
import RuleMind.RuleTree
import RuleMind.DecisionCore

namespace RuleMind

open RuleTree (EvalError)

/-! ### The Rust loop -/

/-- The rule a step names: `ref` is read only where there is no `ref_id` at all. -/
def bundleRef (step : Value) : String :=
  (((step.field "ref_id").or (step.field "ref")).bind Value.asStr).getD ""

def bundleOutcome (step : Value) : String :=
  (((step.field "ref_id").bind Value.asStr).or ((step.field "label").bind Value.asStr)).getD
    "review"

section Bundle
variable (evaluateTree : Value → Except EvalError String) (rules : List (String × Value))

/-- One step of `CompiledBundle::steps`. -/
def bundleStep (outcome : String) (step : Value) : Except EvalError String :=
  match stepKind step with
  | .rule =>
    match (rules.lookup (bundleRef step)).bind (Value.field "tree") with
    | some tree => do
      let o ← evaluateTree tree
      .ok (mergeOutcome outcome o)
    | none => .ok outcome
  | .outcome => .ok (mergeOutcome outcome (bundleOutcome step))
  | _ => .ok outcome

/-- `CompiledBundle::decide`. -/
def bundleDecide (steps : List Value) : Except EvalError String :=
  (steps.foldlM (bundleStep evaluateTree rules) "pending").map settle

end Bundle

/-! ### What a step reads as -/

inductive Vote
  | fixed (o : String)
  | tree (t : Value)
  deriving DecidableEq

section Readings
variable (py : PyText) (rules : List (String × Value))

def coreRead (step : Value) : Except PyError (Option Vote) :=
  match stepKind step with
  | .rule => do
    match ← pyGetTruthy rules (refId step) with
    | none => .ok none
    | some rule => do
      let tree ← definitionTree py rule
      .ok (some (.tree tree))
  | .outcome => do
    let candidate ← coreCandidate step
    .ok (some (.fixed (py.str candidate)))
  | _ => .ok none

def coreReads : List Value → Except PyError (List Vote)
  | [] => .ok []
  | step :: steps => do
    let v ← coreRead py rules step
    let vs ← coreReads steps
    .ok (v.toList ++ vs)

/-- A tree that is no object, or empty, passes as a group of nothing. -/
def bundleRead (step : Value) : Option Vote :=
  match stepKind step with
  | .rule => ((rules.lookup (bundleRef step)).bind (Value.field "tree")).map fun tree =>
      if usableTree tree then .tree tree else .fixed "approve"
  | .outcome => some (.fixed (bundleOutcome step))
  | _ => none

def bundleReads (steps : List Value) : List Vote := steps.filterMap (bundleRead rules)

end Readings

def Flat (py : PyText) (tree : Value) : Prop := ∃ nodes, nodesToTree py nodes = .ok tree

/-- One evaluation of the trees, on which the engines agree: `none` where the depth
    is exceeded.  A group of nothing passes, and flat nodes nest no deeper. -/
structure SharedTrees (py : PyText) where
  eval : Value → Option String
  bare : eval bareGroup = some "approve"
  flat : ∀ tree, Flat py tree → (eval tree).isSome = true

namespace SharedTrees
variable {py : PyText} (T : SharedTrees py)

/-- `evaluate_rule_tree`, as far as its outcome. -/
def python (tree : Value) : Except PyError Value :=
  match T.eval tree with
  | some o => .ok (.dict [("outcome", .str o)])
  | none => .error .depthExceeded

/-- `evaluate_tree`; what is no object, or empty, is a group of nothing. -/
def rust (tree : Value) : Except EvalError String :=
  if usableTree tree then
    match T.eval tree with
    | some o => .ok o
    | none => .error .depthExceeded
  else .ok "approve"

def cast : Vote → Option String
  | .fixed o => some o
  | .tree t => T.eval t

def castAll (votes : List Vote) : Option (List String) := votes.mapM T.cast

end SharedTrees

/-! ### The loops decide by their votes -/

/-- What a loop leaves of the votes: nothing where one could not be cast. -/
def tally {ε : Type} (depth : ε) (votes : Option (List String)) (a : String) : Except ε String :=
  match votes with
  | none => .error depth
  | some os => .ok (mergeAll os a)

theorem castAll_cons {py : PyText} (T : SharedTrees py) (v : Vote) (vs : List Vote) :
    T.castAll (v :: vs) = (T.cast v).bind fun o => (T.castAll vs).map (o :: ·) := by
  simp only [SharedTrees.castAll, List.mapM_cons, bind, pure, Option.map_eq_bind]
  rfl

theorem coreCandidate_truthy {step candidate : Value} (h : coreCandidate step = .ok candidate) :
    candidate.truthy = true := by
  have horElse : ∀ (a : Option Value) (b : Value), b.truthy = true →
      (Value.orElse a b).truthy = true := by
    intro a b hb
    unfold Value.orElse
    split
    · split_ifs with hv
      · exact hv
      · exact hb
    · exact hb
  unfold coreCandidate at h
  split_ifs at h with ht
  · cases h
    exact ht
  · split at h
    · cases h
    · cases h
      exact horElse _ _ (horElse _ _ (by decide))

def Served (step : Value) : Prop := stepKind step ∈ [StepKind.rule, .outcome, .connector]

theorem Served.asDict {step : Value} (h : Served step) : ∃ kvs, step.asDict = some kvs := by
  match step with
  | .dict kvs => exact ⟨kvs, rfl⟩
  | .null | .bool _ | .int _ | .float _ | .inf _ | .str _ | .list _ =>
    simp [Served, stepKind, Value.field] at h

section Loops
variable {py : PyText} (T : SharedTrees py) (rules scorecards tables : List (String × Value))
variable (evaluateScorecard evaluateTable : Value → Except PyError Value)

variable {a : String}

theorem merge_vote (ha : Named a) (o : String) :
    pyMergeOutcome py a (.str o) = mergeOutcome a o := by
  rw [pyMergeOutcome_eq py ha]
  by_cases ho : o = ""
  · simp_all [rank, Value.truthy, mergeOutcome_eq]
  · have : Value.truthy (.str o) = true := by simp [Value.truthy, ho]
    rw [if_pos this]
    rfl

/-- The evaluators of a decision whose trees are the shared ones. -/
def SharedTrees.evaluators : Evaluators := ⟨T.python, evaluateScorecard, evaluateTable⟩

theorem coreStep_read (ha : Named a) {step : Value} (hs : Served step) :
    coreStep py (T.evaluators evaluateScorecard evaluateTable) ⟨rules, scorecards, tables⟩ a step =
      (coreRead py rules step).bind fun v => tally .depthExceeded (T.castAll v.toList) a := by
  obtain ⟨kvs, hd⟩ := hs.asDict
  unfold coreStep coreRead
  simp only [hd]
  simp only [Served, List.mem_cons, List.not_mem_nil, or_false] at hs
  rcases hs with hk | hk | hk
  · simp only [hk]
    cases hr : pyGetTruthy rules (refId step) with
    | error e => rfl
    | ok found =>
      cases found with
      | none => rfl
      | some rule =>
        simp only [bind, Except.bind, evaluateRuleDefinition]
        cases ht : definitionTree py rule with
        | error e => rfl
        | ok tree =>
          simp only [SharedTrees.evaluators, SharedTrees.python, Option.toList, castAll_cons,
            SharedTrees.cast]
          cases T.eval tree with
          | none => rfl
          | some o => exact congrArg Except.ok (merge_vote ha o)
  · simp only [hk]
    cases hc : coreCandidate step with
    | error e => rfl
    | ok candidate =>
      have ht := coreCandidate_truthy hc
      simp only [bind, Except.bind, pyMergeOutcome_eq py ha, ht, if_true]
      rfl
  · simp only [hk]
    rfl

theorem castAll_append (vs ws : List Vote) :
    T.castAll (vs ++ ws) = (T.castAll vs).bind fun os => (T.castAll ws).map (os ++ ·) := by
  induction vs with
  | nil =>
    show T.castAll ws = (T.castAll ws).map id
    rw [Option.map_id_fun, id]
  | cons v vs ih =>
    rw [List.cons_append, castAll_cons, castAll_cons, ih]
    cases T.cast v with
    | none => rfl
    | some o =>
      cases T.castAll vs with
      | none => rfl
      | some os =>
        cases T.castAll ws with
        | none => rfl
        | some os' => rfl

variable {ε : Type} {steps : List Value}

theorem tally_append (depth : ε) (vs ws : List Vote) (a : String) :
    tally depth (T.castAll (vs ++ ws)) a =
      (tally depth (T.castAll vs) a).bind fun b => tally depth (T.castAll ws) b := by
  rw [castAll_append]
  cases T.castAll vs with
  | none => rfl
  | some os =>
    cases T.castAll ws with
    | none => rfl
    | some os' =>
      show Except.ok (mergeAll (os ++ os') a) = Except.ok (mergeAll os' (mergeAll os a))
      unfold mergeAll
      rw [List.foldl_append]

theorem tally_named {depth : ε} {votes : Option (List String)} {b : String}
    (ha : Named a) (h : tally depth votes a = .ok b) : Named b := by
  cases votes with
  | none => cases h
  | some os =>
    cases h
    exact mergeAll_named ha

theorem decide_votes (hs : ∀ step ∈ steps, Served step) {votes : List Vote}
    (hr : coreReads py rules steps = .ok votes) (ha : Named a) :
    steps.foldlM (coreStep py (T.evaluators evaluateScorecard evaluateTable)
      ⟨rules, scorecards, tables⟩) a = tally .depthExceeded (T.castAll votes) a := by
  induction steps generalizing votes a with
  | nil =>
    cases hr
    rfl
  | cons step steps ih =>
    unfold coreReads at hr
    cases hv : coreRead py rules step with
    | error e => rw [hv] at hr; cases hr
    | ok v =>
      cases hvs : coreReads py rules steps with
      | error e => rw [hv, hvs] at hr; cases hr
      | ok vs =>
        rw [hv, hvs] at hr
        cases hr
        rw [List.foldlM_cons, coreStep_read T rules scorecards tables _ _ ha
          (hs step (List.mem_cons_self ..)), hv, tally_append]
        show (tally _ (T.castAll v.toList) a).bind _ = _
        cases ht : tally PyError.depthExceeded (T.castAll v.toList) a with
        | error e => rfl
        | ok b => exact ih (fun s h => hs s (List.mem_cons_of_mem _ h)) hvs (tally_named ha ht)

theorem decide_raises (htotal : ∀ t, (T.eval t).isSome = true)
    (hs : ∀ step ∈ steps, Served step) {e : PyError}
    (hr : coreReads py rules steps = .error e) (ha : Named a) :
    steps.foldlM (coreStep py (T.evaluators evaluateScorecard evaluateTable)
      ⟨rules, scorecards, tables⟩) a = .error e := by
  have hcast : ∀ vs, ∃ os, T.castAll vs = some os := by
    intro vs
    induction vs with
    | nil => exact ⟨[], rfl⟩
    | cons v vs ih =>
      obtain ⟨os, hos⟩ := ih
      rw [castAll_cons, hos]
      cases v with
      | fixed o => exact ⟨o :: os, rfl⟩
      | tree t => grind [Option.isSome_iff_exists, SharedTrees.cast]
  induction steps generalizing a with
  | nil => cases hr
  | cons step steps ih =>
    unfold coreReads at hr
    rw [List.foldlM_cons, coreStep_read T rules scorecards tables _ _ ha
      (hs step (List.mem_cons_self ..))]
    cases hv : coreRead py rules step with
    | error e' =>
      rw [hv] at hr
      cases hr
      rfl
    | ok v =>
      cases hvs : coreReads py rules steps with
      | ok vs => rw [hv, hvs] at hr; cases hr
      | error e' =>
        rw [hv, hvs] at hr
        cases hr
        obtain ⟨os, hos⟩ := hcast v.toList
        show (tally _ (T.castAll v.toList) a).bind _ = _
        rw [hos]
        exact ih (fun s h => hs s (List.mem_cons_of_mem _ h)) hvs (mergeAll_named ha)

theorem bundleStep_read (a : String) (step : Value) :
    bundleStep T.rust rules a step =
      tally .depthExceeded (T.castAll (bundleRead rules step).toList) a := by
  unfold bundleStep bundleRead
  cases hk : stepKind step with
  | rule =>
    cases hf : (rules.lookup (bundleRef step)).bind (Value.field "tree") with
    | none => rfl
    | some tree =>
      simp only [SharedTrees.rust, Option.map_some, Option.toList, castAll_cons]
      cases usableTree tree with
      | false => rfl
      | true =>
        simp only [if_true, SharedTrees.cast]
        cases T.eval tree with
        | none => rfl
        | some o => rfl
  | outcome => rfl
  | _ => rfl

theorem bundle_votes (steps : List Value) (a : String) :
    steps.foldlM (bundleStep T.rust rules) a =
      tally .depthExceeded (T.castAll (bundleReads rules steps)) a := by
  induction steps generalizing a with
  | nil => rfl
  | cons step steps ih =>
    have hcons : bundleReads rules (step :: steps) =
        (bundleRead rules step).toList ++ bundleReads rules steps := by
      unfold bundleReads
      rw [List.filterMap_cons]
      cases bundleRead rules step with
      | none => rfl
      | some v => rfl
    rw [List.foldlM_cons, bundleStep_read, hcons, tally_append]
    cases tally EvalError.depthExceeded (T.castAll (bundleRead rules step).toList) a with
    | error e => rfl
    | ok b => exact ih b

end Loops

/-! ### Votes that settle alike -/

/-- The vote a reading fixes: its own, or that of a group of nothing. -/
def Vote.outcome : Vote → Option String
  | .fixed o => some o
  | .tree t => if t = bareGroup then some "approve" else none

def Vote.waitsFor : Vote → Option Value
  | .fixed _ => none
  | .tree t => if t = bareGroup then none else some t

def openTrees (votes : List Vote) : List Value := votes.filterMap Vote.waitsFor

def fixedRank (votes : List Vote) : ℕ := strongest (votes.filterMap Vote.outcome)

/-- Readings that settle alike, whatever the trees say: the same trees and equally
    strong fixed votes; no trees, and a lone review against nothing; or a fixed
    reject on both sides, and no other trees than flat ones on one side only. -/
def Alike (py : PyText) (vs ws : List Vote) : Prop :=
  ((∀ t, t ∈ openTrees vs ↔ t ∈ openTrees ws) ∧
    (fixedRank vs = fixedRank ws ∨
      (openTrees vs = [] ∧ ((fixedRank vs = 0 ∧ fixedRank ws = 3) ∨
        (fixedRank vs = 3 ∧ fixedRank ws = 0))))) ∨
  (fixedRank vs = 4 ∧ fixedRank ws = 4 ∧ ∀ t, ¬ (t ∈ openTrees vs ↔ t ∈ openTrees ws) → Flat py t)

/-- Both engines fail at the depth, or return the same outcome. -/
def SameOutcome (x : Except PyError String) (y : Except EvalError String) : Prop :=
  (x = .error .depthExceeded ∧ y = .error .depthExceeded) ∨ ∃ o, x = .ok o ∧ y = .ok o

section Votes
variable {py : PyText}

def SharedTrees.treeRank (T : SharedTrees py) (ts : List Value) : ℕ :=
  (ts.map fun t => rank ((T.eval t).getD "pending")).foldr max 0

theorem treeRank_cons (T : SharedTrees py) (t : Value) (ts : List Value) :
    T.treeRank (t :: ts) = max (rank ((T.eval t).getD "pending")) (T.treeRank ts) := rfl

theorem treeRank_le_iff (T : SharedTrees py) (ts : List Value) (n : ℕ) :
    T.treeRank ts ≤ n ↔ ∀ t ∈ ts, rank ((T.eval t).getD "pending") ≤ n := by
  induction ts with
  | nil => simp [SharedTrees.treeRank]
  | cons t ts ih => rw [treeRank_cons, max_le_iff, ih, List.forall_mem_cons]

theorem treeRank_mono (T : SharedTrees py) {ts us : List Value} (h : ∀ t ∈ ts, t ∈ us) :
    T.treeRank ts ≤ T.treeRank us :=
  (treeRank_le_iff T ts _).mpr fun t ht => (treeRank_le_iff T us _).mp le_rfl t (h t ht)

theorem strongest_cons (o : String) (os : List String) :
    strongest (o :: os) = max (rank o) (strongest os) := rfl

theorem castAll_spec (T : SharedTrees py) (votes : List Vote) :
    (∃ t ∈ openTrees votes, T.eval t = none) ∧ T.castAll votes = none ∨
    (∀ t ∈ openTrees votes, T.eval t ≠ none) ∧ ∃ os, T.castAll votes = some os ∧
      strongest os = max (fixedRank votes) (T.treeRank (openTrees votes)) := by
  induction votes with
  | nil => exact Or.inr ⟨by simp [openTrees], [], rfl, rfl⟩
  | cons v votes ih =>
    have hopen : openTrees (v :: votes) = v.waitsFor.toList ++ openTrees votes := by
      unfold openTrees
      rw [List.filterMap_cons]
      cases v.waitsFor <;> rfl
    have hfixed : fixedRank (v :: votes) = max (strongest v.outcome.toList) (fixedRank votes) := by
      unfold fixedRank
      rw [List.filterMap_cons]
      cases v.outcome with
      | none => simp [strongest]
      | some o => simp [strongest]
    rw [castAll_cons, hopen, hfixed]
    -- the vote itself: cast at once, or as its tree says
    have hv : (∃ t, v.waitsFor = some t ∧ v.outcome = none ∧ T.cast v = T.eval t) ∨
        ∃ o, v.waitsFor = none ∧ v.outcome = some o ∧ T.cast v = some o := by
      cases v with
      | fixed o => exact Or.inr ⟨o, rfl, rfl, rfl⟩
      | tree t =>
        by_cases ht : t = bareGroup
        · subst ht
          exact Or.inr ⟨"approve", by simp [Vote.waitsFor], by simp [Vote.outcome], T.bare⟩
        · exact Or.inl ⟨t, by simp [Vote.waitsFor, ht], by simp [Vote.outcome, ht], rfl⟩
    rcases hv with ⟨t, hw, ho, hc⟩ | ⟨o, hw, ho, hc⟩
    · rw [hw, ho, hc]
      cases he : T.eval t with
      | none => exact Or.inl ⟨⟨t, by simp, he⟩, rfl⟩
      | some o =>
        rcases ih with ⟨⟨u, hu, hn⟩, hnone⟩ | ⟨hall, os, hos, hrank⟩
        · grind
        · refine Or.inr ⟨?_, o :: os, by rw [hos]; rfl, ?_⟩
          · simp_all
          · show strongest (o :: os) = max (max (strongest []) _) (T.treeRank (t :: openTrees votes))
            rw [strongest_cons, treeRank_cons, hrank, he]
            simp only [strongest, Option.getD_some, List.map_nil, List.foldr_nil]
            omega
    · rw [hw, ho, hc]
      rcases ih with ⟨⟨u, hu, hn⟩, hnone⟩ | ⟨hall, os, hos, hrank⟩
      · grind
      · refine Or.inr ⟨by simpa using hall, o :: os, by rw [hos]; rfl, ?_⟩
        show strongest (o :: os) = max (max (strongest [o]) _) (T.treeRank (openTrees votes))
        rw [strongest_cons, strongest_cons, hrank]
        simp only [strongest, List.map_nil, List.foldr_nil]
        omega

def SameRank (m n : ℕ) : Prop := m = n ∨ (m = 0 ∧ n = 3) ∨ (m = 3 ∧ n = 0)

def SharedTrees.Fails (T : SharedTrees py) (votes : List Vote) : Prop :=
  ∃ t ∈ openTrees votes, T.eval t = none

def SharedTrees.voteRank (T : SharedTrees py) (votes : List Vote) : ℕ :=
  max (fixedRank votes) (T.treeRank (openTrees votes))

theorem sameOutcome_iff (T : SharedTrees py) (vs ws : List Vote) :
    SameOutcome ((tally .depthExceeded (T.castAll vs) "pending").map settle)
        ((tally .depthExceeded (T.castAll ws) "pending").map settle) ↔
      (T.Fails vs ∧ T.Fails ws) ∨
        (¬ T.Fails vs ∧ ¬ T.Fails ws ∧ SameRank (T.voteRank vs) (T.voteRank ws)) := by
  have hpending : Named "pending" := Or.inl rfl
  have hrank : ∀ os, rank (mergeAll os "pending") = strongest os := by
    intro os
    rw [rank_mergeAll, show rank "pending" = 0 by decide, Nat.zero_max]
  have hnot : ∀ votes, (∀ t ∈ openTrees votes, T.eval t ≠ none) → ¬ T.Fails votes := by
    rintro votes h ⟨t, ht, hn⟩
    exact h t ht hn
  rcases castAll_spec T vs with ⟨hv, hvn⟩ | ⟨hv, os, hos, hrv⟩
  · rcases castAll_spec T ws with ⟨hw, hwn⟩ | ⟨hw, os', hos', hrw⟩
    · rw [hvn, hwn]
      exact ⟨fun _ => Or.inl ⟨hv, hw⟩, fun _ => Or.inl ⟨rfl, rfl⟩⟩
    · rw [hvn, hos']
      constructor
      · rintro (⟨-, h⟩ | ⟨o, h, -⟩) <;> cases h
      · rintro (⟨-, h⟩ | ⟨h, -⟩)
        · exact absurd h (hnot ws hw)
        · exact absurd hv h
  · rcases castAll_spec T ws with ⟨hw, hwn⟩ | ⟨hw, os', hos', hrw⟩
    · rw [hos, hwn]
      constructor
      · rintro (⟨h, -⟩ | ⟨o, -, h⟩) <;> cases h
      · rintro (⟨h, -⟩ | ⟨-, h, -⟩)
        · exact absurd h (hnot vs hv)
        · exact absurd hw h
    · rw [hos, hos']
      have hsettle := settle_eq_iff (@mergeAll_named os _ hpending) (@mergeAll_named os' _ hpending)
      rw [hrank, hrank, hrv, hrw] at hsettle
      constructor
      · rintro (⟨h, -⟩ | ⟨o, h, h'⟩)
        · cases h
        · refine Or.inr ⟨hnot vs hv, hnot ws hw, hsettle.mp ?_⟩
          exact (Except.ok.inj h).trans (Except.ok.inj h').symm
      · rintro (⟨h, -⟩ | ⟨-, -, h⟩)
        · exact absurd h (hnot vs hv)
        · exact Or.inr ⟨_, rfl, congrArg Except.ok (hsettle.mpr h).symm⟩

variable {vs ws votes : List Vote}

theorem alike_same (h : Alike py vs ws) (T : SharedTrees py) :
    (T.Fails vs ∧ T.Fails ws) ∨
      (¬ T.Fails vs ∧ ¬ T.Fails ws ∧ SameRank (T.voteRank vs) (T.voteRank ws)) := by
  have htree : ∀ votes, T.treeRank (openTrees votes) ≤ 4 := fun votes =>
    (treeRank_le_iff T _ _).mpr fun _ _ => rank_le_four _
  -- in each case the two sides fail together
  have hfails : T.Fails vs ↔ T.Fails ws := by
    rcases h with ⟨hsame, -⟩ | ⟨-, -, hflat⟩
    · exact ⟨fun ⟨t, ht, hn⟩ => ⟨t, (hsame t).mp ht, hn⟩,
        fun ⟨t, ht, hn⟩ => ⟨t, (hsame t).mpr ht, hn⟩⟩
    · have hboth : ∀ t, T.eval t = none → (t ∈ openTrees vs ↔ t ∈ openTrees ws) := by
        intro t hn
        by_contra hne
        have := T.flat t (hflat t hne)
        rw [hn] at this
        cases this
      exact ⟨fun ⟨t, ht, hn⟩ => ⟨t, (hboth t hn).mp ht, hn⟩,
        fun ⟨t, ht, hn⟩ => ⟨t, (hboth t hn).mpr ht, hn⟩⟩
  by_cases hv : T.Fails vs
  · exact Or.inl ⟨hv, hfails.mp hv⟩
  · refine Or.inr ⟨hv, fun hw => hv (hfails.mpr hw), ?_⟩
    unfold SameRank SharedTrees.voteRank
    rcases h with ⟨hsame, hfixed | ⟨hnil, hfixed⟩⟩ | ⟨h4, h4', -⟩
    · have h1 := treeRank_mono T fun t ht => (hsame t).mp ht
      have h2 := treeRank_mono T fun t ht => (hsame t).mpr ht
      omega
    · have hnil' : openTrees ws = [] :=
        List.eq_nil_iff_forall_not_mem.mpr fun t ht => by
          have := (hsame t).mpr ht
          rw [hnil] at this
          cases this
      rw [hnil, hnil']
      simp only [SharedTrees.treeRank, List.map_nil, List.foldr_nil]
      omega
    simp_all

def uniformTrees (o : String) : SharedTrees py where
  eval t := if t = bareGroup then some "approve" else some o
  bare := by simp
  flat t _ := by split_ifs <;> rfl

/-- One tree says `r`, the others nothing of weight. -/
def singleTree (t₀ : Value) (r : Option String) (h : Flat py t₀ → r.isSome = true) :
    SharedTrees py where
  eval t := if t = bareGroup then some "approve" else if t = t₀ then r else some "pending"
  bare := by simp
  flat t ht := by grind

theorem openTrees_ne_bare {t : Value} (h : t ∈ openTrees votes) : t ≠ bareGroup := by
  obtain ⟨v, -, hv⟩ := List.mem_filterMap.mp h
  cases v with
  | fixed o => cases hv
  | tree u => grind [Vote.waitsFor]

theorem uniform_not_fails (o : String) (votes : List Vote) :
    ¬ (uniformTrees o : SharedTrees py).Fails votes := by
  rintro ⟨t, -, hn⟩
  simp only [uniformTrees] at hn
  split_ifs at hn

theorem uniform_treeRank (o : String) (votes : List Vote) :
    (uniformTrees o : SharedTrees py).treeRank (openTrees votes) =
      if openTrees votes = [] then 0 else rank o := by
  have hall : ∀ t ∈ openTrees votes,
      rank (((uniformTrees o : SharedTrees py).eval t).getD "pending") = rank o := by
    intro t ht
    simp [uniformTrees, openTrees_ne_bare ht]
  split_ifs with hnil
  · rw [hnil]
    rfl
  · obtain ⟨t, ht⟩ := List.exists_mem_of_ne_nil _ hnil
    apply le_antisymm
    · exact (treeRank_le_iff _ _ _).mpr fun t ht => (hall t ht).le
    · rw [← hall t ht]
      exact (treeRank_le_iff _ _ _).mp le_rfl t ht

theorem single_treeRank {t₀ : Value} {o : String} {h : Flat py t₀ → (some o).isSome = true}
    :
    (singleTree t₀ (some o) h).treeRank (openTrees votes) =
      if t₀ ∈ openTrees votes then rank o else 0 := by
  have hother : ∀ t ∈ openTrees votes, t ≠ t₀ →
      rank (((singleTree t₀ (some o) h).eval t).getD "pending") = 0 := by
    intro t ht hne
    simp only [singleTree, openTrees_ne_bare ht, hne, if_false, Option.getD_some]
    decide
  split_ifs with hmem
  · have h₀ : rank (((singleTree t₀ (some o) h).eval t₀).getD "pending") = rank o := by
      simp [singleTree, openTrees_ne_bare hmem]
    apply le_antisymm
    · refine (treeRank_le_iff _ _ _).mpr fun t ht => ?_
      by_cases hne : t = t₀
      · rw [hne, h₀]
      · rw [hother t ht hne]
        exact Nat.zero_le _
    · rw [← h₀]
      exact (treeRank_le_iff _ _ _).mp le_rfl t₀ hmem
  · refine Nat.le_zero.mp ((treeRank_le_iff _ _ _).mpr fun t ht => ?_)
    rw [hother t ht (fun he => hmem (he ▸ ht))]

theorem same_alike (h : ∀ T : SharedTrees py, (T.Fails vs ∧ T.Fails ws) ∨
      (¬ T.Fails vs ∧ ¬ T.Fails ws ∧ SameRank (T.voteRank vs) (T.voteRank ws))) :
    Alike py vs ws := by
  have huniform : ∀ o, SameRank
      (max (fixedRank vs) (if openTrees vs = [] then 0 else rank o))
      (max (fixedRank ws) (if openTrees ws = [] then 0 else rank o)) := by
    intro o
    rcases h (uniformTrees o) with ⟨hf, -⟩ | ⟨-, -, hr⟩
    · exact absurd hf (uniform_not_fails o vs)
    · simp_all [SharedTrees.voteRank, uniform_treeRank]
  have hpending := huniform "pending"
  have happrove := huniform "approve"
  have hreject := huniform "reject"
  rw [show rank "pending" = 0 by decide] at hpending
  rw [show rank "approve" = 2 by decide] at happrove
  rw [show rank "reject" = 4 by decide] at hreject
  simp only [ite_self, Nat.max_zero] at hpending
  by_cases hsame : ∀ t, t ∈ openTrees vs ↔ t ∈ openTrees ws
  · refine Or.inl ⟨hsame, ?_⟩
    rcases hpending with heq | hne
    · exact Or.inl heq
    · refine Or.inr ⟨?_, hne⟩
      -- a tree that approves would tell a lone review from nothing
      by_contra hvs
      have hws : openTrees ws ≠ [] := by
        obtain ⟨t, ht⟩ := List.exists_mem_of_ne_nil _ hvs
        exact List.ne_nil_of_mem ((hsame t).mp ht)
      rw [if_neg hvs, if_neg hws] at happrove
      unfold SameRank at happrove
      omega
  · -- a tree on one side only: it may reject there, and fail unless it is flat
    obtain ⟨t₀, h₀⟩ := not_forall.mp hsame
    have hreject₀ : ∀ t, ¬ (t ∈ openTrees vs ↔ t ∈ openTrees ws) → Flat py t ∧
        fixedRank vs = 4 ∧ fixedRank ws = 4 := by
      intro t hne
      have hflat : Flat py t := by
        by_contra hnf
        have hfails : ∀ votes, (singleTree t none fun hf => absurd hf hnf).Fails votes ↔
            t ∈ openTrees votes := by
          intro votes
          constructor
          · rintro ⟨u, hu, hn⟩
            simp only [singleTree, openTrees_ne_bare hu, if_false] at hn
            split_ifs at hn with heq
            exact heq ▸ hu
          · intro ht
            exact ⟨t, ht, by simp [singleTree, openTrees_ne_bare ht]⟩
        have := h (singleTree t none fun hf => absurd hf hnf)
        rw [hfails, hfails] at this
        apply hne
        tauto
      have hnot : ∀ votes, ¬ (singleTree t (some "reject") fun _ => rfl : SharedTrees py).Fails
          votes := by
        rintro votes ⟨u, hu, hn⟩
        simp only [singleTree] at hn
        split_ifs at hn
      rcases h (singleTree t (some "reject") fun _ => rfl) with ⟨hf, -⟩ | ⟨-, -, hr⟩
      · exact absurd hf (hnot vs)
      · unfold SharedTrees.voteRank at hr
        rw [single_treeRank, single_treeRank, show rank "reject" = 4 by decide] at hr
        have h4 : ∀ votes, fixedRank votes ≤ 4 := by
          intro votes
          unfold fixedRank strongest
          induction votes.filterMap Vote.outcome with
          | nil => simp
          | cons o os ih =>
            rw [List.map_cons, List.foldr_cons]
            exact max_le (rank_le_four o) ih
        have hv4 := h4 vs
        have hw4 := h4 ws
        unfold SameRank at hr hpending
        refine ⟨hflat, ?_⟩
        by_cases hv : t ∈ openTrees vs
        · grind
        · have hw : t ∈ openTrees ws := by
            by_contra hw
            exact hne ⟨fun h => absurd h hv, fun h => absurd h hw⟩
          rw [if_neg hv, if_pos hw] at hr
          omega
    exact Or.inr ⟨(hreject₀ t₀ h₀).2.1, (hreject₀ t₀ h₀).2.2, fun t ht => (hreject₀ t ht).1⟩

end Votes

/-! ### Agreement -/

/-- The engines read the policy alike: Python can read every step, and the votes
    both read are alike. -/
def ReadAlike (py : PyText) (rules : List (String × Value)) (steps : List Value) : Prop :=
  ∃ votes, coreReads py rules steps = .ok votes ∧ Alike py votes (bundleReads rules steps)

/-- On a policy of rule, outcome and connector steps the bundle decides as the core
    does, for every evaluation of the trees they share, iff both read it alike. -/
theorem bundle_agrees_iff (py : PyText) (rules scorecards tables : List (String × Value))
    (evaluateScorecard evaluateTable : Value → Except PyError Value) (steps : List Value)
    (hs : ∀ step ∈ steps, Served step) :
    (∀ T : SharedTrees py,
      SameOutcome
        (coreDecide py (T.evaluators evaluateScorecard evaluateTable)
          ⟨rules, scorecards, tables⟩ steps)
        (bundleDecide T.rust rules steps)) ↔
      ReadAlike py rules steps := by
  have hpending : Named "pending" := Or.inl rfl
  unfold coreDecide bundleDecide ReadAlike
  cases hr : coreReads py rules steps with
  | error e =>
    constructor
    · intro h
      have h := h (uniformTrees "pending")
      rw [bundle_votes, decide_raises _ rules scorecards tables _ _ (fun t => ?_) hs hr hpending]
        at h
      · rcases h with ⟨-, h⟩ | ⟨o, h, -⟩
        · rcases castAll_spec (uniformTrees "pending" : SharedTrees py) (bundleReads rules steps)
            with ⟨hf, -⟩ | ⟨-, os, hos, -⟩
          · exact absurd hf (uniform_not_fails _ _)
          · rw [hos] at h
            cases h
        · cases h
      · simp only [uniformTrees]
        split_ifs <;> rfl
    · rintro ⟨votes, h, -⟩
      cases h
  | ok votes =>
    have hdec : ∀ T : SharedTrees py, steps.foldlM (coreStep py
        (T.evaluators evaluateScorecard evaluateTable) ⟨rules, scorecards, tables⟩) "pending" =
        tally .depthExceeded (T.castAll votes) "pending" := fun T =>
      decide_votes T rules scorecards tables _ _ hs hr hpending
    simp only [hdec, bundle_votes, sameOutcome_iff]
    constructor
    · intro h
      exact ⟨votes, rfl, same_alike h⟩
    simp_all [alike_same]

section Evaluators
variable (py : PyText) (leaf : Value → Bool)

end Evaluators

/-! ### A policy read alike, and one that is not -/

/-- A rule with a tree, a source and a fixed approval. -/
def plainRules : List (String × Value) :=
  [("income", .dict [("tree", .dict [("type", .str "condition"), ("variable", .str "income")])])]

def plainSteps : List Value :=
  [.dict [("type", .str "connector"), ("ref_id", .str "bureau")],
    .dict [("type", .str "rule"), ("ref", .str "income")],
    .dict [("type", .str "outcome"), ("ref_id", .str "approve")]]

/-- Every tree says `o`, in an interpreter that prints ASCII. -/
def asciiTrees (o : String) : SharedTrees asciiText := uniformTrees o

theorem plainSteps_agree :
    SameOutcome
      (coreDecide asciiText
        ((asciiTrees "reject").evaluators (fun _ => .ok .null) fun _ => .ok .null)
        ⟨plainRules, [], []⟩ plainSteps)
      (bundleDecide (asciiTrees "reject").rust plainRules plainSteps) := by
  refine (bundle_agrees_iff asciiText plainRules [] [] _ _ plainSteps ?_).mpr ?_ _
  · intro step hstep
    simp only [plainSteps, List.mem_cons, List.not_mem_nil, or_false] at hstep
    rcases hstep with rfl | rfl | rfl
    · exact List.mem_of_elem_eq_true rfl
    · exact List.mem_of_elem_eq_true rfl
    · exact List.mem_of_elem_eq_true rfl
  · exact ⟨_, rfl, Or.inl ⟨fun t => Iff.rfl, Or.inl rfl⟩⟩

/-- An outcome under `ref`: Python rejects, Rust reads the default. -/
def outcomeByRef : List Value := [.dict [("type", .str "outcome"), ("ref", .str "reject")]]

theorem outcomeByRef_disagrees :
    ¬ SameOutcome
      (coreDecide asciiText
        ((asciiTrees "pending").evaluators (fun _ => .ok .null) fun _ => .ok .null)
        ⟨[], [], []⟩ outcomeByRef)
      (bundleDecide (asciiTrees "pending").rust [] outcomeByRef) := by
  rintro (⟨h, -⟩ | ⟨o, h, h'⟩)
  · cases h
  · cases h
    exact absurd (Except.ok.inj h') (by decide)

end RuleMind
