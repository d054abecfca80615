/-
  The two modes of a loop: `_execute_loop` and `_run_loop_parallel` of `app/executor.py`.
-/
import RuleMind.StepGains
import Mathlib.Data.List.Sort

namespace RuleMind

open Exec

section Loops
variable {W : Type} (host : Host W) (rules : Dict)

def iterationGain (cfg : LoopConfig) (outer : Dict) (steps : List Value) (r : Run W) (item : Value)
    (index : ℕ) : Gain × Bool :=
  bodyGain host rules (r.atItem (iterationScope cfg outer item index)) steps

/-- What the iterations add, up to a condition that raises; and whether one does. -/
def loopGain (cfg : LoopConfig) (outer : Dict) (steps : List Value) (r : Run W) :
    List Value → ℕ → Gain × Bool
  | [], _ => (.nothing, false)
  | item :: items, index =>
    if (iterationGain host rules cfg outer steps r item index).2 then
      iterationGain host rules cfg outer steps r item index
    else ((iterationGain host rules cfg outer steps r item index).1.and
        (loopGain cfg outer steps r items (index + 1)).1,
      (loopGain cfg outer steps r items (index + 1)).2)

/-! ### The iterations in sequence -/

/-- The outcomes an entry of the loop's result records. -/
def beforeAfter (entry : Value) : Option Value × Option Value :=
  (entry.field "outcome_before", entry.field "outcome_after")

/-- The outcomes before and after each of a list of gains. -/
def stages : String → List Gain → List (Option Value × Option Value)
  | _, [] => []
  | a, g :: gs =>
    (some (.str a), some (.str (mergeAll g.votes a))) :: stages (mergeAll g.votes a) gs

section Loop
variable {host rules} {cfg : LoopConfig} {outer : Dict} {steps : List Value} {frames depth : ℕ}
  {r₀ r : Run W}

variable (host rules cfg outer steps r₀) in
def gains : List Value → ℕ → List Gain
  | [], _ => []
  | item :: items, index =>
    (iterationGain host rules cfg outer steps r₀ item index).1 :: gains items (index + 1)

theorem nestedSteps_gained (rules : Dict) (frames depth : ℕ)
    (hplain : ∀ step ∈ steps, PlainGate host step) (hr : Underway host r)
    (h : SameInputs r₀ r) : ∃ x r',
    nestedSteps host rules (frames + 1) depth steps r = (x, r') ∧
      Gained (bodyGain host rules r₀ steps).1 r r' ∧ r'.ctx.loopScope = r.ctx.loopScope ∧
      ((bodyGain host rules r₀ steps).2 = false → x = .ok ()) ∧
      ((bodyGain host rules r₀ steps).2 = true → ∃ e, x = .error (.error e)) :=
  runFrom_gained hplain hr h _ depth (depth + 1) 0

section Iteration
variable {sub : List Value → Exec W Unit} {item : Value} {items : List Value} {index : ℕ}
  {r' : Run W}

theorem loopSequential_item (hsteps : stepList cfg.steps = .ok steps) :
    ∃ finish : Exec W (List Value),
    loopSequential sub cfg outer (item :: items) index r =
        (sub steps >>= fun _ => finish) (r.atItem (iterationScope cfg outer item index)) ∧
      (r'.ctx.status = .running → ∃ entry,
        beforeAfter entry = (some (.str r.ctx.outcome), some (.str r'.ctx.outcome)) ∧
          finish r' =
            (loopSequential sub cfg outer items (index + 1) >>= fun entries =>
              pure (entry :: entries)) r') := by
  refine ⟨do
    let after ← ctx (·.outcome)
    let trace ← ctx (·.stepTrace.drop r.ctx.stepTrace.length)
    let status ← ctx (·.status)
    let entry := iterationEntry index item r.ctx.outcome after trace (status = .paused)
      (status = .failed)
    if status = .paused ∨ status = .failed then return [entry]
    else do
      let entries ← loopSequential sub cfg outer items (index + 1)
      return entry :: entries, ?_, ?_⟩
  · have hstart : loopSequential sub cfg outer (item :: items) index r =
        (ofPy (stepList cfg.steps) >>= _ : Exec W (List Value))
          (r.atItem (iterationScope cfg outer item index)) := rfl
    rw [hstart, hsteps]
    rfl
  · intro hrun
    refine ⟨iterationEntry index item r.ctx.outcome r'.ctx.outcome
      (r'.ctx.stepTrace.drop r.ctx.stepTrace.length) (r'.ctx.status = .paused)
      (r'.ctx.status = .failed), rfl, ?_⟩
    have hgo : ¬ (r'.ctx.status = .paused ∨ r'.ctx.status = .failed) := by
      rw [hrun]
      decide
    show (ite (r'.ctx.status = .paused ∨ r'.ctx.status = .failed) _ _ : Exec W (List Value)) r' = _
    rw [if_neg hgo]

end Iteration

theorem loopSequential_gained (rules outer : Dict) (frames depth : ℕ)
    (hsteps : stepList cfg.steps = .ok steps)
    (hplain : ∀ step ∈ steps, PlainGate host step) (hr : Underway host r)
    (hpayload : r₀.ctx.payload = r.ctx.payload) (hvars : r₀.ctx.vars = r.ctx.vars)
    (items : List Value) (index : ℕ) : ∃ x r',
    loopSequential (nestedSteps host rules (frames + 1) depth) cfg outer items index r = (x, r') ∧
      Gained (loopGain host rules cfg outer steps r₀ items index).1 r r' ∧
      ((loopGain host rules cfg outer steps r₀ items index).2 = false → ∃ entries,
        x = .ok entries ∧ entries.map beforeAfter =
          stages r.ctx.outcome (gains host rules cfg outer steps r₀ items index)) ∧
      ((loopGain host rules cfg outer steps r₀ items index).2 = true →
        ∃ e, x = .error (.error e)) := by
  induction items generalizing r index with
  | nil => exact ⟨_, _, rfl, .refl r, fun _ => ⟨[], rfl, rfl⟩, fun h => Bool.noConfusion h⟩
  | cons item items ih =>
    have hat : Underway host (r.atItem (iterationScope cfg outer item index)) :=
      ⟨hr.running, hr.outcome, hr.inTime⟩
    have hsame : SameInputs (r₀.atItem (iterationScope cfg outer item index))
        (r.atItem (iterationScope cfg outer item index)) := ⟨hpayload, hvars, rfl⟩
    obtain ⟨x, r₁, hrun, hgained, -, hok, hraise⟩ :=
      nestedSteps_gained rules frames depth hplain hat hsame
    have hgained : Gained (iterationGain host rules cfg outer steps r₀ item index).1 r r₁ :=
      hgained.congr_left rfl rfl rfl rfl rfl rfl
    obtain ⟨finish, hitem, hfinish⟩ := @loopSequential_item _ cfg outer steps r
      (nestedSteps host rules (frames + 1) depth) item items index r₁ hsteps
    rw [hitem]
    unfold loopGain
    split
    · rename_i hcut
      obtain ⟨e, rfl⟩ := hraise hcut
      rw [Prog.bind_error hrun]
      grind -ring -linarith
    · rename_i hcut
      obtain rfl := hok (Bool.eq_false_iff.2 hcut)
      have hr₁ := hgained.underway hr
      obtain ⟨entry, hentry, hrest⟩ := hfinish hr₁.running
      obtain ⟨x, r', hmore, hgained', hok', hraise'⟩ := ih hr₁
        (hpayload.trans hgained.payload.symm) (hvars.trans hgained.vars.symm) (index + 1)
      rw [Prog.bind_ok hrun, hrest]
      cases hmoreCut : (loopGain host rules cfg outer steps r₀ items (index + 1)).2 with
      | false =>
        obtain ⟨entries, rfl, hentries⟩ := hok' hmoreCut
        rw [Prog.bind_ok hmore]
        refine ⟨_, _, rfl, hgained.trans hgained', fun _ => ⟨_, rfl, ?_⟩,
          fun h => Bool.noConfusion h⟩
        rw [List.map_cons, hentry, hentries, gains, stages, hgained.outcome]
      | true =>
        obtain ⟨e, rfl⟩ := hraise' hmoreCut
        rw [Prog.bind_error hmore]
        exact ⟨_, _, rfl, hgained.trans hgained', fun h => Bool.noConfusion h, fun _ => ⟨e, rfl⟩⟩

/-! ### The iterations in parallel -/

def Gain.total (gs : List Gain) : Gain := gs.foldr Gain.and .nothing

theorem gains_zipIdx (items : List Value) (index : ℕ) :
    gains host rules cfg outer steps r₀ items index = (items.zipIdx index).map fun p =>
      (iterationGain host rules cfg outer steps r₀ p.1 p.2).1 := by
  induction items generalizing index with
  | nil => rfl
  | cons item items ih => rw [gains, ih, List.zipIdx_cons, List.map_cons]

variable {items : List Value} {entry : String} {children : List (ℕ × Value × ChildEffects)} {ps :
  List (Value × ℕ)}

theorem loopGain_total {index : ℕ} (h : ∀ p ∈ items.zipIdx index,
      (iterationGain host rules cfg outer steps r₀ p.1 p.2).2 = false) :
    loopGain host rules cfg outer steps r₀ items index =
      (Gain.total (gains host rules cfg outer steps r₀ items index), false) := by
  induction items generalizing index with
  | nil => rfl
  | cons item items ih =>
    rw [List.zipIdx_cons] at h
    have hitem := h (item, index) List.mem_cons_self
    have hrest := ih fun p hp => h p (List.mem_cons_of_mem _ hp)
    unfold loopGain
    rw [if_neg (by rw [hitem]; decide), hrest]
    rfl

theorem loopGain_cut {index : ℕ} (h : ∃ p ∈ items.zipIdx index,
      (iterationGain host rules cfg outer steps r₀ p.1 p.2).2 = true) :
    (loopGain host rules cfg outer steps r₀ items index).2 = true := by
  induction items generalizing index with
  | nil =>
    obtain ⟨p, hp, -⟩ := h
    cases hp
  | cons item items ih =>
    unfold loopGain
    split
    · assumption
    · grind

variable (host) in
/-- The children of a parallel loop in the order in which they complete. -/
def gatherChildren (sub : List Value → Exec W Unit) (cfg : LoopConfig) (outer : Dict) :
    List (Value × ℕ) → Exec W (List (ℕ × Value × ChildEffects))
  | [] => return []
  | (item, index) :: order => do
    let child ← isolated
      (fun c => cloneForIteration c
        (setKey (setKey outer cfg.asName item) cfg.indexName (.int index)))
      (fun before after => { before with payload := after.payload })
      (do
        let steps ← ofPy (stepList cfg.steps)
        sub steps
        ctx childEffects)
    let children ← gatherChildren sub cfg outer order
    return (index, item, child) :: children

variable (host) in
/-- `_run_loop_parallel`, with the order in which the iterations complete:
    `results.sort(key=lambda entry: entry[0])` puts the children in the order of the items. -/
def loopParallelIn (sub : List Value → Exec W Unit) (cfg : LoopConfig) (outer : Dict)
    (order : List (Value × ℕ)) : Exec W (List Value) := do
  let _ ← ofPy (loopConcurrency host.py cfg.concurrency)
  let results ← gatherChildren sub cfg outer order
  let children := results.insertionSort (fun a b => a.1 ≤ b.1)
  if children.any (fun child => child.2.2.status = .paused) then fail .valueError
  else do
    let entries ← mergeChildren host children
    update fun c => { c with
      loopScope := outer
      status := if children.any (fun child => child.2.2.status = .failed) then .failed
        else c.status }
    return entries

variable (host) in
/-- The iterations of a loop in a mode; one over no items is sequential in both. -/
def loopIterationsIn (sub : List Value → Exec W Unit) (parallel : Bool) (cfg : LoopConfig)
    (outer : Dict) (items : List Value) (order : List (Value × ℕ)) : Exec W (List Value) :=
  if parallel = true ∧ items ≠ [] then loopParallelIn host sub cfg outer order
  else loopInOrder sub cfg outer items

theorem zipIdx_sorted (items : List Value) (index : ℕ) :
    (items.zipIdx index).Pairwise (fun p q => p.2 < q.2) := by
  induction items generalizing index with
  | nil => exact List.Pairwise.nil
  | cons item items ih =>
    rw [List.zipIdx_cons]
    refine List.Pairwise.cons (fun p hp => ?_) (ih (index + 1))
    exact List.le_snd_of_mem_zipIdx hp

/-- A child as it stands when its iteration has come to its end. -/
structure ChildOf (gain : Gain) (entry : String) (item : Value) (index : ℕ)
    (child : ℕ × Value × ChildEffects) : Prop where
  index : child.1 = index
  outcome : child.2.2.outcome = mergeAll gain.votes entry
  results : child.2.2.ruleResults = gain.results
  running : child.2.2.status = .running

variable (host rules cfg outer steps r₀) in
/-- The child of an item, on a run whose outcome is given. -/
def Completes (entry : String) (p : Value × ℕ) (child : ℕ × Value × ChildEffects) : Prop :=
  ChildOf (iterationGain host rules cfg outer steps r₀ p.1 p.2).1 entry p.1 p.2 child

theorem runChild_gained (rules outer : Dict) (frames depth : ℕ)
    (hsteps : stepList cfg.steps = .ok steps)
    (hplain : ∀ step ∈ steps, PlainGate host step) (hr : Underway host r)
    (hpayload : r₀.ctx.payload = r.ctx.payload) (hvars : r₀.ctx.vars = r.ctx.vars)
    (item : Value) (index : ℕ) : ∃ x r',
    runChild (nestedSteps host rules (frames + 1) depth) cfg (iterationScope cfg outer item index)
        r = (x, r') ∧ r'.ctx = r.ctx ∧
      ((iterationGain host rules cfg outer steps r₀ item index).2 = false → ∃ child, x = .ok child ∧
        Completes host rules cfg outer steps r₀ r.ctx.outcome (item, index) (index, item, child)) ∧
      ((iterationGain host rules cfg outer steps r₀ item index).2 = true →
        ∃ e, x = .error (.error e)) := by
  have hat : Underway host (r.forked (iterationScope cfg outer item index)) :=
    ⟨rfl, hr.outcome, hr.inTime⟩
  have hsame : SameInputs (r₀.atItem (iterationScope cfg outer item index))
      (r.forked (iterationScope cfg outer item index)) := ⟨hpayload, hvars, rfl⟩
  obtain ⟨x, t, hrun, hgained, -, hok, hraise⟩ :=
    nestedSteps_gained rules frames depth hplain hat hsame
  have hjoin : (r.joined t).ctx = r.ctx := by
    show { r.ctx with payload := t.ctx.payload } = r.ctx
    rw [hgained.payload]
    rfl
  have hchild : childRun (nestedSteps host rules (frames + 1) depth) cfg
      (r.forked (iterationScope cfg outer item index)) =
        (nestedSteps host rules (frames + 1) depth steps >>= fun _ => ctx childEffects)
          (r.forked (iterationScope cfg outer item index)) := by
    unfold childRun
    rw [hsteps]
    rfl
  unfold runChild
  rw [hchild, Prog.bind_apply, hrun]
  cases hcut : (iterationGain host rules cfg outer steps r₀ item index).2 with
  | false =>
    obtain rfl := hok hcut
    exact ⟨_, _, rfl, hjoin, fun _ => ⟨childEffects t.ctx, rfl, rfl, hgained.outcome,
      hgained.results, hgained.status⟩, fun h => Bool.noConfusion h⟩
  | true =>
    obtain ⟨e, rfl⟩ := hraise hcut
    exact ⟨_, _, rfl, hjoin, fun h => Bool.noConfusion h, fun _ => ⟨e, rfl⟩⟩

theorem Underway.of_ctx {r r' : Run W} (hr : Underway host r) (h : r'.ctx = r.ctx) :
    Underway host r' :=
  ⟨by rw [h]; exact hr.running, by rw [h]; exact hr.outcome, by rw [h]; exact hr.inTime⟩

theorem gatherChildren_gained (rules outer : Dict) (frames depth : ℕ)
    (hsteps : stepList cfg.steps = .ok steps)
    (hplain : ∀ step ∈ steps, PlainGate host step) (hr : Underway host r)
    (hpayload : r₀.ctx.payload = r.ctx.payload) (hvars : r₀.ctx.vars = r.ctx.vars)
    (order : List (Value × ℕ)) : ∃ x r',
    gatherChildren (nestedSteps host rules (frames + 1) depth) cfg outer order r = (x, r') ∧
      r'.ctx = r.ctx ∧
      ((∀ p ∈ order, (iterationGain host rules cfg outer steps r₀ p.1 p.2).2 = false) →
        ∃ children, x = .ok children ∧
          List.Forall₂ (Completes host rules cfg outer steps r₀ r.ctx.outcome) order children) ∧
      ((∃ p ∈ order, (iterationGain host rules cfg outer steps r₀ p.1 p.2).2 = true) →
        ∃ e, x = .error (.error e)) := by
  induction order generalizing r with
  | nil =>
    refine ⟨_, _, rfl, rfl, fun _ => ⟨[], rfl, .nil⟩, fun h => ?_⟩
    obtain ⟨p, hp, -⟩ := h
    cases hp
  | cons p order ih =>
    obtain ⟨item, index⟩ := p
    obtain ⟨x, r₁, hchild, hctx, hok, hraise⟩ :=
      runChild_gained rules outer frames depth hsteps hplain hr hpayload hvars item index
    have hgather : gatherChildren (nestedSteps host rules (frames + 1) depth) cfg outer
        ((item, index) :: order) = (do
          let child ← runChild (nestedSteps host rules (frames + 1) depth) cfg
            (iterationScope cfg outer item index)
          let children ← gatherChildren (nestedSteps host rules (frames + 1) depth) cfg outer order
          return (index, item, child) :: children) := rfl
    rw [hgather]
    cases hcut : (iterationGain host rules cfg outer steps r₀ item index).2 with
    | true =>
      obtain ⟨e, rfl⟩ := hraise hcut
      rw [Prog.bind_error hchild]
      refine ⟨_, _, rfl, hctx, fun h => ?_, fun _ => ⟨e, rfl⟩⟩
      exact absurd (h (item, index) List.mem_cons_self) (by rw [hcut]; decide)
    | false =>
      obtain ⟨child, rfl, hcompletes⟩ := hok hcut
      obtain ⟨y, r', hrest, hctx', hok', hraise'⟩ := ih (hr.of_ctx hctx)
        (by rw [hctx]; exact hpayload) (by rw [hctx]; exact hvars)
      rw [Prog.bind_ok hchild]
      by_cases hmore : ∀ p ∈ order, (iterationGain host rules cfg outer steps r₀ p.1 p.2).2 = false
      · obtain ⟨children, rfl, hchildren⟩ := hok' hmore
        rw [Prog.bind_ok hrest]
        refine ⟨_, _, rfl, hctx'.trans hctx, fun _ => ⟨_, rfl, .cons hcompletes ?_⟩, fun h => ?_⟩
        · rw [hctx] at hchildren
          exact hchildren
        · grind -ring -linarith
      · obtain ⟨p, hp⟩ := not_forall.1 hmore
        obtain ⟨hp, hraised⟩ := Classical.not_imp.1 hp
        obtain ⟨e, rfl⟩ := hraise' ⟨p, hp, Bool.eq_true_of_not_eq_false hraised⟩
        rw [Prog.bind_error hrest]
        refine ⟨_, _, rfl, hctx'.trans hctx, fun h => ?_, fun _ => ⟨e, rfl⟩⟩
        exact absurd (h p (List.mem_cons_of_mem _ hp)) hraised

theorem completes_indices

    (h : List.Forall₂ (Completes host rules cfg outer steps r₀ entry) ps children) :
    children.map Prod.fst = ps.map Prod.snd := by
  induction h with
  | nil => rfl
  | cons hchild _ ih => rw [List.map_cons, List.map_cons, ih, hchild.index]

theorem completes_running

    (h : List.Forall₂ (Completes host rules cfg outer steps r₀ entry) ps children) :
    ∀ child ∈ children, child.2.2.status = .running := by
  induction h with
  | nil => exact fun _ hchild => nomatch hchild
  | cons hchild _ ih =>
    intro c hc
    rcases List.mem_cons.1 hc with rfl | hc
    · exact hchild.running
    · exact ih c hc

theorem sorted_children {order : List (Value × ℕ)} (horder : order.Perm (items.zipIdx 0))
    (h : List.Forall₂ (Completes host rules cfg outer steps r₀ entry) order children) :
    List.Forall₂ (Completes host rules cfg outer steps r₀ entry) (items.zipIdx 0)
      (children.insertionSort fun a b => a.1 ≤ b.1) := by
  obtain ⟨inOrder, hforall, hperm⟩ := List.perm_comp_forall₂ horder.symm h
  have hindices := completes_indices hforall
  have hsorted : inOrder.Pairwise (fun a b => a.1 < b.1) := by
    have hmap : (inOrder.map Prod.fst).Pairwise (· < ·) := by
      rw [hindices, List.pairwise_map]
      exact zipIdx_sorted items 0
    exact List.pairwise_map.1 hmap
  have hsort : (children.insertionSort fun a b => a.1 ≤ b.1) = inOrder := by
    have hperm' : (children.insertionSort fun a b => a.1 ≤ b.1).Perm inOrder :=
      (List.perm_insertionSort _ _).trans hperm.symm
    have : IsTrans (ℕ × Value × ChildEffects) fun a b => a.1 ≤ b.1 := ⟨fun _ _ _ => le_trans⟩
    have : Std.Total fun a b : ℕ × Value × ChildEffects => a.1 ≤ b.1 :=
      ⟨fun a b => le_total a.1 b.1⟩
    refine List.Perm.eq_of_pairwise ?_ (List.pairwise_insertionSort _ _)
      (hsorted.imp le_of_lt) hperm'
    intro a b ha hb hle hge
    have hnodup : (inOrder.map Prod.fst).Nodup := (List.pairwise_map.2 hsorted).imp ne_of_lt
    exact List.inj_on_of_nodup_map hnodup (hperm'.subset ha) hb (le_antisymm hle hge)
  rw [hsort]
  exact hforall

theorem mergeChildren_gained (hentry : entry ≠ "")
    (hr : rank entry ≤ rank r.ctx.outcome) (hne : r.ctx.outcome ≠ "")
    (h : List.Forall₂ (Completes host rules cfg outer steps r₀ entry) ps children) :
    ∃ entries r', mergeChildren host children r = (.ok entries, r') ∧
      Gained (Gain.total (ps.map fun p => (iterationGain host rules cfg outer steps r₀ p.1 p.2).1))
        r r' ∧
      entries.map beforeAfter = stages r.ctx.outcome
        (ps.map fun p => (iterationGain host rules cfg outer steps r₀ p.1 p.2).1) := by
  induction h generalizing r with
  | nil => exact ⟨[], r, rfl, .refl r, rfl⟩
  | @cons p child ps children hchild _ ih =>
    obtain ⟨index, item, child⟩ := child
    have hmerge : pyMergeOutcome host.py r.ctx.outcome (.str child.outcome) =
        mergeAll (iterationGain host rules cfg outer steps r₀ p.1 p.2).1.votes r.ctx.outcome := by
      have hout : child.outcome ≠ "" := by
        rw [hchild.outcome]
        exact mergeAll_ne_empty hentry
      unfold pyMergeOutcome
      dsimp only
      rw [if_neg hne, if_pos (by simpa [Value.truthy] using hout), ← merge_fork hr,
        ← hchild.outcome]
      rfl
    obtain ⟨r₁, hr₁⟩ : ∃ r₁ : Run W, r₁ = { r with ctx := { r.ctx with
        ruleResults := r.ctx.ruleResults ++ child.ruleResults
        actionResults := r.ctx.actionResults ++ child.actionResults
        scorecardResults := updateKeys r.ctx.scorecardResults child.scorecardResults
        decisionTableResults := updateKeys r.ctx.decisionTableResults child.decisionTableResults
        transformOutputs := updateKeys r.ctx.transformOutputs child.transformOutputs
        stepTrace := r.ctx.stepTrace ++ child.stepTrace
        outcome := pyMergeOutcome host.py r.ctx.outcome (.str child.outcome) } } := ⟨_, rfl⟩
    have hgained : Gained (iterationGain host rules cfg outer steps r₀ p.1 p.2).1 r r₁ := by
      subst hr₁
      exact ⟨hmerge, congrArg (r.ctx.ruleResults ++ ·) hchild.results, rfl, rfl, rfl, rfl⟩
    have hrank : rank entry ≤ rank r₁.ctx.outcome := by
      rw [hgained.outcome, rank_mergeAll]
      omega
    have hne₁ : r₁.ctx.outcome ≠ "" := by
      rw [hgained.outcome]
      exact mergeAll_ne_empty hne
    obtain ⟨entries, r', hmore, hgained', hstages⟩ := ih hrank hne₁
    have hcons : mergeChildren host ((index, item, child) :: children) r =
        (mergeChildren host children >>= fun entries =>
          pure (iterationEntry index item r.ctx.outcome r₁.ctx.outcome child.stepTrace false
            (child.status = .failed) :: entries)) r₁ := by
      rw [hr₁]
      rfl
    rw [hcons, Prog.bind_ok hmore]
    refine ⟨_, _, rfl, hgained.trans hgained', ?_⟩
    rw [List.map_cons, hstages, List.map_cons, stages, ← hgained.outcome]
    rfl

/-! ### The two modes -/

/-- The outcomes before and after the iterations; a loop that raises records none. -/
def recorded : Except Raised (List Value) → List (Option Value × Option Value)
  | .ok entries => entries.map beforeAfter
  | .error _ => []

structure SameLoop (x y : Except Raised (List Value) × Run W) : Prop where
  outcome : x.2.ctx.outcome = y.2.ctx.outcome
  ruleResults : x.2.ctx.ruleResults = y.2.ctx.ruleResults
  iterations : recorded x.1 = recorded y.1

variable (host rules cfg outer steps r₀) in
def RaisesOn (p : Value × ℕ) : Prop :=
  (iterationGain host rules cfg outer steps r₀ p.1 p.2).2 = true

theorem loopInOrder_gained (rules outer : Dict) (frames depth : ℕ)
    (hsteps : stepList cfg.steps = .ok steps)
    (hplain : ∀ step ∈ steps, PlainGate host step) (hr : Underway host r) (items : List Value) :
    ∃ x r', loopInOrder (nestedSteps host rules (frames + 1) depth) cfg outer items r = (x, r') ∧
      Gained (loopGain host rules cfg outer steps r items 0).1 r r' ∧
      ((loopGain host rules cfg outer steps r items 0).2 = false →
        recorded x = stages r.ctx.outcome (gains host rules cfg outer steps r items 0)) ∧
      ((loopGain host rules cfg outer steps r items 0).2 = true → recorded x = []) := by
  obtain ⟨x, r', hrun, hgained, hok, hraise⟩ :=
    loopSequential_gained rules outer frames depth hsteps hplain hr rfl rfl items 0
  unfold loopInOrder
  cases hcut : (loopGain host rules cfg outer steps r items 0).2 with
  | false =>
    obtain ⟨entries, rfl, hentries⟩ := hok hcut
    rw [Prog.bind_ok hrun]
    exact ⟨_, _, rfl, ⟨hgained.outcome, hgained.results, hgained.payload, hgained.vars,
      hgained.status, hgained.deadline⟩, fun _ => hentries, fun h => Bool.noConfusion h⟩
  | true =>
    obtain ⟨e, rfl⟩ := hraise hcut
    rw [Prog.bind_error hrun]
    exact ⟨_, _, rfl, hgained, fun h => Bool.noConfusion h, fun _ => rfl⟩

section Parallel
variable {items : List Value} {order : List (Value × ℕ)}

theorem loopParallelIn_gained (frames depth : ℕ) (hsteps : stepList cfg.steps = .ok steps)
    (hplain : ∀ step ∈ steps, PlainGate host step) (hr : Underway host r)
    (horder : order.Perm (items.zipIdx 0)) {n : ℕ}
    (hconcurrency : loopConcurrency host.py cfg.concurrency = .ok n)
    (hnone : ∀ p ∈ items.zipIdx 0, ¬ RaisesOn host rules cfg outer steps r p) : ∃ x r',
    loopParallelIn host (nestedSteps host rules (frames + 1) depth) cfg outer order r = (x, r') ∧
      r'.ctx.outcome =
        mergeAll (Gain.total (gains host rules cfg outer steps r items 0)).votes r.ctx.outcome ∧
      r'.ctx.ruleResults =
        r.ctx.ruleResults ++ (Gain.total (gains host rules cfg outer steps r items 0)).results ∧
      recorded x = stages r.ctx.outcome (gains host rules cfg outer steps r items 0) := by
  obtain ⟨x, r₁, hgather, hctx, hok, -⟩ :=
    gatherChildren_gained rules outer frames depth hsteps hplain hr rfl rfl order
  obtain ⟨children, rfl, hchildren⟩ := hok fun p hp =>
    Bool.eq_false_iff.2 (hnone p (horder.subset hp))
  have hsorted := sorted_children horder hchildren
  have hr₁ : Underway host r₁ := hr.of_ctx hctx
  obtain ⟨entries, r₂, hmerge, hgained, hstages⟩ := mergeChildren_gained hr.outcome
    (by rw [hctx]) hr₁.outcome hsorted
  have hpaused : ¬ ((children.insertionSort fun a b => a.1 ≤ b.1).any
      fun child => child.2.2.status = .paused) = true := by
    intro hany
    obtain ⟨child, hchild, hstatus⟩ := List.any_eq_true.1 hany
    rw [completes_running hsorted child hchild] at hstatus
    cases of_decide_eq_true hstatus
  unfold loopParallelIn
  rw [hconcurrency, Prog.bind_ok (show (ofPy (.ok n) : Exec W ℕ) r = (.ok n, r) from rfl),
    Prog.bind_ok hgather]
  rw [if_neg hpaused, Prog.bind_ok hmerge, gains_zipIdx]
  rw [hctx] at hstages
  exact ⟨_, _, rfl, hgained.outcome.trans (by rw [hctx]), hgained.results.trans (by rw [hctx]),
    hstages⟩

theorem loopParallelIn_cut (rules outer : Dict) (frames depth : ℕ)
    (hsteps : stepList cfg.steps = .ok steps)
    (hplain : ∀ step ∈ steps, PlainGate host step) (hr : Underway host r)
    (horder : order.Perm (items.zipIdx 0))
    (hsome : (∀ n, loopConcurrency host.py cfg.concurrency ≠ .ok n) ∨
      ∃ p ∈ items.zipIdx 0, RaisesOn host rules cfg outer steps r p) : ∃ e r',
    loopParallelIn host (nestedSteps host rules (frames + 1) depth) cfg outer order r =
      (.error (.error e), r') ∧ r'.ctx = r.ctx := by
  unfold loopParallelIn
  cases hconcurrency : loopConcurrency host.py cfg.concurrency with
  | error e => exact ⟨e, r, rfl, rfl⟩
  | ok n =>
    rcases hsome with hnone | ⟨p, hp, hraises⟩
    · exact absurd hconcurrency (hnone n)
    · obtain ⟨x, r₁, hgather, hctx, -, hraise⟩ :=
        gatherChildren_gained rules outer frames depth hsteps hplain hr rfl rfl order
      obtain ⟨e, rfl⟩ := hraise ⟨p, horder.symm.subset hp, hraises⟩
      rw [Prog.bind_ok (show (ofPy (.ok n) : Exec W ℕ) r = (.ok n, r) from rfl),
        Prog.bind_error hgather]
      exact ⟨e, r₁, rfl, hctx⟩

end Parallel

end Loop

variable {host rules} in
/-- **Parallel loops equal sequential loops** where the concurrency of the loop can be read and
    no condition of the body raises on an item; or where one raises and the iterations in order
    have added nothing until then. -/
theorem loop_modes_agree_iff {cfg : LoopConfig} {outer : Dict} {steps items : List Value}
    {order : List (Value × ℕ)} {frames depth : ℕ} {r : Run W}
    (hsteps : stepList cfg.steps = .ok steps) (hplain : ∀ step ∈ steps, PlainGate host step)
    (hr : Underway host r) (horder : order.Perm (items.zipIdx 0)) :
    SameLoop
        (loopIterationsIn host (nestedSteps host rules (frames + 1) depth) true cfg outer items
          order r)
        (loopIterationsIn host (nestedSteps host rules (frames + 1) depth) false cfg outer items
          order r) ↔
      ((items ≠ [] → ∃ n, loopConcurrency host.py cfg.concurrency = .ok n) ∧
        ∀ p ∈ items.zipIdx 0, ¬ RaisesOn host rules cfg outer steps r p) ∨
      ((∃ p ∈ items.zipIdx 0, RaisesOn host rules cfg outer steps r p) ∧
        (loopGain host rules cfg outer steps r items 0).1.results = [] ∧
        strongest (loopGain host rules cfg outer steps r items 0).1.votes ≤
          rank r.ctx.outcome) := by
  by_cases hitems : items = []
  · subst hitems
    have hsame : ∀ x : Except Raised (List Value) × Run W, SameLoop x x := fun _ => ⟨rfl, rfl, rfl⟩
    refine iff_of_true (hsame _) (Or.inl ⟨fun h => absurd rfl h, fun p hp => ?_⟩)
    cases hp
  obtain ⟨y, s, hseq, hgained, hnone, hsome⟩ :=
    loopInOrder_gained rules outer frames depth hsteps hplain hr items
  have hseq' : loopIterationsIn host (nestedSteps host rules (frames + 1) depth) false cfg outer
      items order r = (y, s) := by
    unfold loopIterationsIn
    rw [if_neg (fun h => Bool.noConfusion h.1)]
    exact hseq
  have hpar : loopIterationsIn host (nestedSteps host rules (frames + 1) depth) true cfg outer
      items order r =
        loopParallelIn host (nestedSteps host rules (frames + 1) depth) cfg outer order r := by
    unfold loopIterationsIn
    rw [if_pos ⟨rfl, hitems⟩]
  rw [hseq', hpar]
  by_cases hraises : ∃ p ∈ items.zipIdx 0, RaisesOn host rules cfg outer steps r p
  · -- nothing is merged: what the sequence has added by then makes the difference
    obtain ⟨e, t, hcut, hctx⟩ :=
      loopParallelIn_cut rules outer frames depth hsteps hplain hr horder (Or.inr hraises)
    have hleft : ¬ ∀ p ∈ items.zipIdx 0, ¬ RaisesOn host rules cfg outer steps r p := by
      push Not
      exact hraises
    rw [hcut]
    constructor
    · intro h
      refine Or.inr ⟨hraises, ?_, ?_⟩
      · have hresults := h.ruleResults
        rw [hctx, hgained.results] at hresults
        exact List.self_eq_append_right.1 hresults
      · have houtcome := h.outcome
        rw [hctx, hgained.outcome] at houtcome
        exact mergeAll_eq_self.1 houtcome.symm
    · rintro (⟨-, hall⟩ | ⟨-, hresults, hvotes⟩)
      · exact absurd hall hleft
      · refine ⟨?_, ?_, (hsome (loopGain_cut hraises)).symm⟩
        · rw [hctx, hgained.outcome, mergeAll_weak hvotes]
        · rw [hctx, hgained.results, hresults, List.append_nil]
  · have hall : ∀ p ∈ items.zipIdx 0, ¬ RaisesOn host rules cfg outer steps r p :=
      fun p hp h => hraises ⟨p, hp, h⟩
    have htotal := loopGain_total fun p hp => Bool.eq_false_iff.2 (hall p hp)
    rw [htotal] at hgained hnone
    by_cases hread : ∃ n, loopConcurrency host.py cfg.concurrency = .ok n
    · obtain ⟨n, hn⟩ := hread
      obtain ⟨x, t, hrun, houtcome, hresults, hrecorded⟩ := loopParallelIn_gained
        frames depth hsteps hplain hr horder hn hall
      refine iff_of_true ?_ (Or.inl ⟨fun _ => ⟨n, hn⟩, hall⟩)
      rw [hrun]
      exact ⟨houtcome.trans hgained.outcome.symm, hresults.trans hgained.results.symm,
        hrecorded.trans (hnone rfl).symm⟩
    · obtain ⟨e, t, hcut, -⟩ := loopParallelIn_cut rules outer frames depth hsteps hplain hr horder
        (Or.inl fun n hn => hread ⟨n, hn⟩)
      refine iff_of_false (fun h => ?_) ?_
      · rw [hcut] at h
        have hempty := h.iterations.trans (hnone rfl)
        obtain ⟨item, rest, rfl⟩ := List.exists_cons_of_ne_nil hitems
        cases hempty
      grind -ring -linarith

end Loops

/-! ### Amounts -/

/-- `item.amount > 100`; an amount that is missing does not compare. -/
def largeAmount (view : Value) : Except PyError Bool :=
  match (view.field "item").bind (Value.field "amount") with
  | some (.int n) => .ok (100 < n)
  | _ => .error .typeError

def amountHost : Host Unit := { quietHost with evaluateCondition := fun _ => largeAmount }

def rejectLarge : Value :=
  .dict [("type", .str "outcome"), ("ref_id", .str "reject"),
    ("config", .dict [("condition", .str "item.amount > 100")])]

def amountLoop : LoopConfig := ⟨"item", "index", some (.list [rejectLarge]), .int 8⟩

theorem rejectLarge_plain : PlainGate amountHost rejectLarge where
  kind := by decide
  goesOn := by decide
  reads r r' hpayload hvars hscope := by
    have hitem := @view_reads _ amountHost _ _ hpayload hvars hscope "item" (by decide)
    show largeAmount (contextView amountHost r.ctx) = largeAmount (contextView amountHost r'.ctx)
    unfold largeAmount
    rw [hitem]

def anAmount (n : ℤ) : Value := .dict [("amount", .int n)]

theorem freshRun_underway : Underway amountHost (freshRun []) := ⟨rfl, by decide, fun _ => rfl⟩

/-- Two amounts, the second of which completes first. -/
theorem amounts_in_both_modes : SameLoop
    (loopIterationsIn amountHost (nestedSteps amountHost [] 1 0) true amountLoop []
      [anAmount 500, anAmount 5] [(anAmount 5, 1), (anAmount 500, 0)] (freshRun []))
    (loopIterationsIn amountHost (nestedSteps amountHost [] 1 0) false amountLoop []
      [anAmount 500, anAmount 5] [(anAmount 5, 1), (anAmount 500, 0)] (freshRun [])) := by
  have hsteps : stepList amountLoop.steps = .ok [rejectLarge] := rfl
  refine (loop_modes_agree_iff hsteps ?_ freshRun_underway (List.Perm.swap _ _ _)).2
    (Or.inl ⟨fun _ => ⟨8, rfl⟩, ?_⟩)
  · simp [rejectLarge_plain]
  · intro p hp
    simp only [List.zipIdx_cons, List.zipIdx_nil, List.mem_cons, List.not_mem_nil, or_false] at hp
    rcases hp with rfl | rfl
    · exact Bool.eq_false_iff.1 (by decide +kernel)
    · exact Bool.eq_false_iff.1 (by decide +kernel)

/-- A large amount and an item without one: in sequence the rejection stands, in parallel nothing
    is merged. -/
theorem missing_amount_differs :
    (loopIterationsIn amountHost (nestedSteps amountHost [] 1 0) false amountLoop []
      [anAmount 500, .dict []] [(anAmount 500, 0), (.dict [], 1)]
        (freshRun [])).2.ctx.outcome = "reject" ∧
    (loopIterationsIn amountHost (nestedSteps amountHost [] 1 0) true amountLoop []
      [anAmount 500, .dict []] [(anAmount 500, 0), (.dict [], 1)]
        (freshRun [])).2.ctx.outcome = "pending" := by
  decide +kernel

end RuleMind
