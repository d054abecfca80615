/-
  Executions that wait for a person or a provider: the review gate of `app/executor.py`,
  `submit_review_decision` of `app/reviews.py`, `check_review_timeouts` of `app/scheduler.py`,
  and the routes that take a callback, resume an execution or escalate a review.

  Each of them reads a status, acts and writes it back in transactions of their own, which
  interleave with those of the others; an exception ends it after any of them.  Of a context
  there is what says where the execution stands.  What the steps of a policy come to (its end,
  or its next pause) is chosen by the run; the synchronisation of an execution that ran on a
  device is left out.
-/
import RuleMind.Lib.Run

namespace RuleMind.ReviewGate

open Lib

/-! ### Executions and tasks -/

inductive Status
  | paused
  | completed
  | failed
  deriving DecidableEq, Repr

structure Context where
  status : Status
  /-- `current_step_index`. -/
  index : ℕ
  /-- `paused_at_step`. -/
  pausedAt : ℕ
  /-- It paused at a review gate, or else at an asynchronous action. -/
  atGate : Bool
  reviewTask : Option ℕ
  /-- Which pause it is or was last in. -/
  pause : ℕ
  deriving DecidableEq, Repr

inductive TaskStatus
  | pending
  | approved
  | rejected
  | timedOut
  | escalated
  deriving DecidableEq, Repr

structure Task where
  execution : ℕ
  status : TaskStatus
  timeoutAt : ℕ
  deriving DecidableEq, Repr

inductive Result
  | ends (status : Status) (last : ℕ)
  | pauses (at' : ℕ) (gate : Bool) (timeout : ℕ)
  deriving DecidableEq, Repr

/-- Where an entry point stands.  It has found a task pending (`checked`, `expired`), decided
    it (`decided`), read the execution (`readExpired`, `loaded`, the latter with the step to go
    on from), run its steps, or saved its end.  `held` is the task it has decided, `passed` the
    pause it has gone past. -/
inductive Phase
  | idle
  | checked (t : ℕ) (approve : Bool)
  | decided (t : ℕ)
  | expired (t : ℕ)
  | readExpired (t e : ℕ) (ctx : Context)
  | loaded (e : ℕ) (ctx : Context) (start : ℕ) (held : Option ℕ)
  | ran (e : ℕ) (ctx : Context) (passed held : Option ℕ)
  | saved (e : ℕ)
  deriving DecidableEq, Repr

structure State where
  now : ℕ
  executions : ℕ → Option Context
  tasks : ℕ → Option Task
  /-- Whether the policy of an execution is still there. -/
  policy : ℕ → Bool
  nextExecution : ℕ
  nextTask : ℕ
  pauses : ℕ
  process : ℕ → Phase
  /-- The pauses that were gone past, each with its execution. -/
  continued : List (ℕ × ℕ)
  /-- The executions a decision was written for. -/
  decisions : List ℕ

def State.init : State :=
  ⟨0, fun _ => none, fun _ => none, fun _ => true, 0, 0, 0, fun _ => .idle, [], []⟩

def State.go (s : State) (c : ℕ) (ph : Phase) : State :=
  { s with process := Function.update s.process c ph }

def State.setTask (s : State) (t : ℕ) (task : Task) : State :=
  { s with tasks := Function.update s.tasks t (some task) }

/-! ### Steps -/

/-- The pause that a run comes to: at a gate a task is created. -/
def State.pauseAt (s : State) (e at' : ℕ) (gate : Bool) (timeout : ℕ) (before : Option ℕ) :
    State × Context :=
  if gate then
    ({ s.setTask s.nextTask ⟨e, .pending, s.now + timeout⟩ with
        nextTask := s.nextTask + 1, pauses := s.pauses + 1 },
      ⟨.paused, at', at', true, some s.nextTask, s.pauses⟩)
  else ({ s with pauses := s.pauses + 1 }, ⟨.paused, at', at', false, before, s.pauses⟩)

def goesPast (ctx : Context) (start : ℕ) : Result → Bool
  | .ends _ _ => true
  | .pauses at' _ _ => decide (ctx.pausedAt < start) || decide (ctx.pausedAt < at')

/-- `execute` from a saved context, up to the writing of it. -/
def State.runSteps (s : State) (c e : ℕ) (ctx : Context) (start : ℕ) (held : Option ℕ)
    (result : Result) : State :=
  let passed := if goesPast ctx start result then some ctx.pause else none
  let s := { s with continued := (passed.map fun p => (e, p)).toList ++ s.continued }
  match result with
  | .ends status last => s.go c (.ran e { ctx with status, index := last } passed held)
  | .pauses at' gate timeout =>
    let (s, ctx) := s.pauseAt e at' gate timeout ctx.reviewTask
    s.go c (.ran e ctx passed held)

inductive Act
  | wait (duration : ℕ)
  | deletePolicy (e : ℕ)
  /-- A run of a policy that comes to its first pause. -/
  | start (c at' : ℕ) (gate : Bool) (timeout : ℕ)
  /-- `submit_review_decision`: the task is pending; it is decided; the execution is read. -/
  | check (c t : ℕ) (approve : Bool)
  | decide (c : ℕ)
  | read (c : ℕ)
  /-- `check_review_timeouts`: the task is pending and late; the execution is read; the task
      is decided. -/
  | expire (c t : ℕ)
  | readExpired (c : ℕ)
  | skip (c : ℕ)
  | timeOut (c : ℕ)
  | callback (c e : ℕ)
  | resume (c e : ℕ)
  | runSteps (c : ℕ) (result : Result)
  | save (c : ℕ)
  | log (c : ℕ)
  | raise (c : ℕ)
  | escalate (t : ℕ)

/-- A result that steps from an index on can come to. -/
def Result.Possible (start : ℕ) : Result → Prop
  | .ends status last => status ≠ .paused ∧ start ≤ last
  | .pauses at' _ _ => start ≤ at'

instance (start : ℕ) (r : Result) : Decidable (r.Possible start) := by
  cases r <;> dsimp only [Result.Possible] <;> infer_instance

def State.found (s : State) (e : ℕ) : Option Context := (s.executions e).filter fun _ => s.policy e

def step (s : State) (a : Act) : Option State :=
  match a with
  | .wait duration => some { s with now := s.now + duration }
  | .deletePolicy e => some { s with policy := Function.update s.policy e false }
  | .start c at' gate timeout =>
    match s.process c with
    | .idle =>
      let (t, ctx) := s.pauseAt s.nextExecution at' gate timeout none
      some ({ t with nextExecution := s.nextExecution + 1 }.go c
        (.ran s.nextExecution ctx none none))
    | _ => none
  | .check c t approve =>
    match s.process c, s.tasks t with
    | .idle, some task =>
      if task.status = .pending then some (s.go c (.checked t approve)) else none
    | _, _ => none
  -- whatever the status has become by now
  | .decide c =>
    match s.process c with
    | .checked t approve => (s.tasks t).map fun task =>
        (s.setTask t { task with status := if approve then .approved else .rejected }).go c
          (.decided t)
    | _ => none
  | .read c =>
    match s.process c with
    | .decided t => (s.tasks t).bind fun task => (s.found task.execution).map fun ctx =>
        s.go c (.loaded task.execution ctx (ctx.pausedAt + 1) (some t))
    | _ => none
  | .expire c t =>
    match s.process c, s.tasks t with
    | .idle, some task =>
      if task.status = .pending ∧ task.timeoutAt < s.now then some (s.go c (.expired t)) else none
    | _, _ => none
  | .readExpired c =>
    match s.process c with
    | .expired t => (s.tasks t).bind fun task => (s.found task.execution).map fun ctx =>
        s.go c (.readExpired t task.execution ctx)
    | _ => none
  | .skip c =>
    match s.process c with
    | .expired t => (s.tasks t).bind fun task =>
        if (s.found task.execution).isNone then some (s.go c .idle) else none
    | _ => none
  | .timeOut c =>
    match s.process c with
    | .readExpired t e ctx => (s.tasks t).map fun task =>
        (s.setTask t { task with status := .timedOut }).go c
          (.loaded e ctx (ctx.pausedAt + 1) (some t))
    | _ => none
  | .callback c e =>
    match s.process c, s.found e with
    | .idle, some ctx =>
      if ctx.status = .paused then some (s.go c (.loaded e ctx ctx.pausedAt none)) else none
    | _, _ => none
  -- no route that resumes an execution looks at its status
  | .resume c e =>
    match s.process c, s.found e with
    | .idle, some ctx => some (s.go c (.loaded e ctx ctx.index none))
    | _, _ => none
  | .runSteps c result =>
    match s.process c with
    | .loaded e ctx start held =>
      if result.Possible start then some (s.runSteps c e ctx start held result) else none
    | _ => none
  -- `_persist_execution`
  | .save c =>
    match s.process c with
    | .ran e ctx _ _ =>
      some ({ s with executions := Function.update s.executions e (some ctx) }.go c
        (if ctx.status = Status.paused then .idle else .saved e))
    | _ => none
  -- `_log_decision`
  | .log c =>
    match s.process c with
    | .saved e => some ({ s with decisions := e :: s.decisions }.go c .idle)
    | _ => none
  | .raise c => some (s.go c .idle)
  | .escalate t => (s.tasks t).map fun task => s.setTask t { task with status := .escalated }

/-! ### What is promised -/

/-- No pause is gone past twice, and no execution is decided twice. -/
def Once (s : State) : Prop := s.continued.Nodup ∧ s.decisions.Nodup

def Phase.inHand (tasks : ℕ → Option Task) : Phase → Option ℕ
  | .idle => none
  | .checked t _ | .decided t | .expired t => (tasks t).map (·.execution)
  | .readExpired _ e _ | .loaded e _ _ _ | .ran e _ _ _ | .saved e => some e

def State.inHand (s : State) (c : ℕ) : Option ℕ := (s.process c).inHand s.tasks

/-- A task that `submit_review_decision` accepts. -/
def State.Accepts (s : State) (e : ℕ) : Prop :=
  ∃ t task, s.tasks t = some task ∧ task.execution = e ∧ task.status = .pending

/-- An execution that is paused at a gate, with nobody at work on it, has a task that can be
    decided. -/
def NoneStranded (s : State) : Prop :=
  ∀ e ctx, s.executions e = some ctx → ctx.status = .paused → ctx.atGate = true →
    (∀ c, s.inHand c ≠ some e) → s.Accepts e

/-- The execution is paused, and nobody has it in hand. -/
def State.Free (s : State) (e : ℕ) : Prop :=
  (∃ ctx, s.executions e = some ctx ∧ ctx.status = .paused) ∧ ∀ c, s.inHand c ≠ some e

/-- An execution is taken up while it is paused and nobody has it in hand, and no exception
    ends a run that has gone past a pause and is not saved. -/
def Exclusive (s : State) : Act → Prop
  | .check _ t _ | .expire _ t => ∃ task, s.tasks t = some task ∧ s.Free task.execution
  | .callback _ e | .resume _ e => s.Free e
  | .raise c => ∀ e ctx p held, s.process c ≠ .ran e ctx (some p) held
  | _ => True

/-- The task an entry point has decided and not yet saved the outcome of. -/
def Phase.held : Phase → Option ℕ
  | .decided t => some t
  | .loaded _ _ _ held | .ran _ _ _ held => held
  | _ => none

/-- No pending task is escalated, no exception follows the decision of a task before its
    outcome is saved, and a pause is saved while its task is pending. -/
def Kept (s : State) : Act → Prop
  | .escalate t => ∀ task, s.tasks t = some task → task.status ≠ .pending
  | .raise c => (s.process c).held = none
  | .save c => ∀ e ctx passed held, s.process c = .ran e ctx passed held →
      ctx.status = .paused → ctx.atGate = true → ∃ t task, ctx.reviewTask = some t ∧
        s.tasks t = some task ∧ task.execution = e ∧ task.status = .pending
  | _ => True

/-! ### Steps of one entry point -/

section Lemmas
variable {s s' : State}

@[simp] theorem go_process (s : State) (c : ℕ) (ph : Phase) (d : ℕ) :
    (s.go c ph).process d = if d = c then ph else s.process d := by
  simp [State.go, Function.update_apply]

@[simp] theorem setTask_tasks (s : State) (t : ℕ) (task : Task) (u : ℕ) :
    (s.setTask t task).tasks u = if u = t then some task else s.tasks u := by
  simp [State.setTask, Function.update_apply]

def TasksKept (s s' : State) : Prop :=
  ∀ t task, s.tasks t = some task → ∃ task', s'.tasks t = some task' ∧
    task'.execution = task.execution

theorem found_eq {e : ℕ} {ctx : Context} (h : s.found e = some ctx) :
    s.executions e = some ctx := (Option.filter_eq_some_iff.1 h).1

theorem pauseAt_process (e at' : ℕ) (gate : Bool) (timeout : ℕ) (before : Option ℕ) :
    (s.pauseAt e at' gate timeout before).1.process = s.process ∧
      (s.pauseAt e at' gate timeout before).1.executions = s.executions := by
  cases gate <;> exact ⟨rfl, rfl⟩

theorem pauseAt_pause (e at' : ℕ) (gate : Bool) (timeout : ℕ) (before : Option ℕ) :
    (s.pauseAt e at' gate timeout before).2.pause = s.pauses ∧
      (s.pauseAt e at' gate timeout before).1.pauses = s.pauses + 1 := by
  cases gate <;> exact ⟨rfl, rfl⟩

theorem pauseAt_log (e at' : ℕ) (gate : Bool) (timeout : ℕ) (before : Option ℕ) :
    (s.pauseAt e at' gate timeout before).1.continued = s.continued ∧
      (s.pauseAt e at' gate timeout before).1.decisions = s.decisions := by
  cases gate <;> exact ⟨rfl, rfl⟩

theorem pauseAt_kept (hfresh : ∀ t task, s.tasks t = some task → t < s.nextTask)
    (e at' : ℕ) (gate : Bool) (timeout : ℕ) (before : Option ℕ) :
    ∀ t task, s.tasks t = some task →
      (s.pauseAt e at' gate timeout before).1.tasks t = some task := by
  intro t task ht
  cases gate with
  | false => exact ht
  | true =>
    have hne : t ≠ s.nextTask := Nat.ne_of_lt (hfresh t task ht)
    show (s.setTask _ _).tasks t = _
    rw [setTask_tasks, if_neg hne]
    exact ht

theorem pauseAt_new (e at' : ℕ) (gate : Bool) (timeout : ℕ) (before : Option ℕ) {t : ℕ}
    {task : Task} (ht : (s.pauseAt e at' gate timeout before).1.tasks t = some task) :
    s.nextTask ≤ (s.pauseAt e at' gate timeout before).1.nextTask ∧
      (s.tasks t = some task ∨
        task.execution = e ∧ t < (s.pauseAt e at' gate timeout before).1.nextTask) := by
  cases gate with
  | false => exact ⟨Nat.le_refl _, Or.inl ht⟩
  | true =>
    refine ⟨Nat.le_succ _, ?_⟩
    have ht : (s.setTask s.nextTask ⟨e, .pending, s.now + timeout⟩).tasks t = some task := ht
    rw [setTask_tasks] at ht
    split at ht
    · rename_i htn
      cases ht
      exact Or.inr ⟨rfl, htn ▸ Nat.lt_succ_self _⟩
    · exact Or.inl ht

end Lemmas

/-! ### Nobody is stranded -/

section Stranded
variable {s s' : State}

/-- An entry point has decided a task of the execution, and is to save what comes of it. -/
def State.Handles (s : State) (c e : ℕ) : Prop :=
  ∃ t task, (s.process c).held = some t ∧ s.tasks t = some task ∧ task.execution = e

/-- The task in hand is one of the execution in hand. -/
def Phase.Bound (tasks : ℕ → Option Task) : Phase → Prop
  | .readExpired t e _ | .loaded e _ _ (some t) | .ran e _ _ (some t) =>
    ∃ task, tasks t = some task ∧ task.execution = e
  | .idle | .checked _ _ | .decided _ | .expired _ | .saved _ | .loaded _ _ _ none
    | .ran _ _ _ none => True

/-- Where an execution is paused at a gate, a task waits or somebody has decided one. -/
structure Watched (s : State) : Prop where
  fresh : ∀ t task, s.tasks t = some task → t < s.nextTask
  bound : ∀ c, (s.process c).Bound s.tasks
  watched : ∀ e ctx, s.executions e = some ctx → ctx.status = .paused → ctx.atGate = true →
    s.Accepts e ∨ ∃ c, s.Handles c e

theorem watched_init : Watched State.init where
  fresh t task h := by cases h
  bound c := trivial
  watched e ctx h := by cases h

variable {ph : Phase} {c : ℕ}

theorem Phase.Bound.kept (h : ph.Bound s.tasks) (ht : TasksKept s s') : ph.Bound s'.tasks := by
  have hkept : ∀ t e, (∃ task, s.tasks t = some task ∧ task.execution = e) →
      ∃ task, s'.tasks t = some task ∧ task.execution = e := by
    rintro t e ⟨task, htask, rfl⟩
    obtain ⟨task', htask', he⟩ := ht t task htask
    exact ⟨task', htask', he⟩
  cases ph with
  | readExpired t e ctx => exact hkept t e h
  | loaded e _ _ held | ran e _ _ held =>
    cases held with
    | none => trivial
    | some t => exact hkept t e h
  | idle | checked _ _ | decided _ | expired _ | saved _ => trivial

theorem Watched.go (h : Watched s) {t : State}
    (hexec : t.executions = s.executions) (hproc : t.process = s.process)
    (htasks : TasksKept s t) (hfresh : ∀ u task, t.tasks u = some task → u < t.nextTask)
    (hacc : ∀ e, s.Accepts e →
      t.Accepts e ∨ ∃ u task, ph.held = some u ∧ t.tasks u = some task ∧ task.execution = e)
    (hheld : ∀ u, (s.process c).held = some u → ph.held = some u) (hbound : ph.Bound t.tasks) :
    Watched (t.go c ph) where
  fresh := hfresh
  bound d := by
    rw [go_process]
    split
    · exact hbound
    · rw [hproc]
      exact (h.bound d).kept htasks
  watched e ctx hctx hpaused hgate := by
    have hself : ∀ u task, ph.held = some u → t.tasks u = some task → task.execution = e →
        ∃ d, (t.go c ph).Handles d e := fun u task hu htask he =>
      ⟨c, u, task, by rw [go_process, if_pos rfl]; exact hu, htask, he⟩
    rcases h.watched e ctx (hexec ▸ hctx) hpaused hgate with hs | ⟨d, u, task, hu, htask, he⟩
    · rcases hacc e hs with hs | ⟨u, task, hu, htask, he⟩
      · exact Or.inl hs
      · exact Or.inr (hself u task hu htask he)
    · obtain ⟨task', htask', he'⟩ := htasks u task htask
      refine Or.inr ?_
      by_cases hdc : d = c
      · simp_all
      · refine ⟨d, u, task', ?_, htask', he'.trans he⟩
        rw [go_process, if_neg hdc, hproc]
        exact hu

theorem Watched.goOnly (h : Watched s)
    (hheld : ∀ u, (s.process c).held = some u → ph.held = some u) (hbound : ph.Bound s.tasks) :
    Watched (s.go c ph) :=
  h.go rfl rfl (fun _ task ht => ⟨task, ht, rfl⟩) h.fresh (fun _ hs => Or.inl hs) hheld hbound

theorem Watched.pauseAt (h : Watched s) (e at' : ℕ) (gate : Bool) (timeout : ℕ)
    (before : Option ℕ) :
    TasksKept s (s.pauseAt e at' gate timeout before).1 ∧
      (∀ u task, (s.pauseAt e at' gate timeout before).1.tasks u = some task →
        u < (s.pauseAt e at' gate timeout before).1.nextTask) ∧
      ∀ e', s.Accepts e' → (s.pauseAt e at' gate timeout before).1.Accepts e' := by
  have hold := pauseAt_kept h.fresh e at' gate timeout before
  refine ⟨fun t task ht => ⟨task, hold t task ht, rfl⟩, fun u task hu => ?_, ?_⟩
  · obtain ⟨hle, hu | ⟨-, hu⟩⟩ := pauseAt_new e at' gate timeout before hu
    · exact Nat.lt_of_lt_of_le (h.fresh u task hu) hle
    · exact hu
  · rintro e' ⟨t, task, ht, he, hp⟩
    exact ⟨t, task, hold t task ht, he, hp⟩

theorem Watched.decide (h : Watched s) {t : ℕ} {task task' : Task}
    (ht : s.tasks t = some task) (he : task'.execution = task.execution)
    (hnone : (s.process c).held = none) (hph : ph.held = some t)
    (hbound : ph.Bound (s.setTask t task').tasks) : Watched ((s.setTask t task').go c ph) := by
  refine h.go rfl rfl ?_ ?_ ?_ ?_ hbound
  · intro u task₀ hu
    rw [setTask_tasks]
    split
    · simp_all
    · exact ⟨task₀, hu, rfl⟩
  · intro u task₀ hu
    rw [setTask_tasks] at hu
    split at hu
    · rename_i hut
      exact hut ▸ h.fresh t task ht
    · exact h.fresh u task₀ hu
  · rintro e ⟨u, task₀, hu, he₀, hp⟩
    by_cases hut : u = t
    · simp_all
    · exact Or.inl ⟨u, task₀, by rw [setTask_tasks, if_neg hut]; exact hu, he₀, hp⟩
  · intro u hu
    rw [hnone] at hu
    cases hu

theorem Watched.runSteps (h : Watched s) {e start : ℕ} {ctx : Context} {held : Option ℕ}
    (hc : s.process c = .loaded e ctx start held) (result : Result) :
    Watched (s.runSteps c e ctx start held result) := by
  have hb := h.bound c
  rw [hc] at hb
  have hheld : ∀ u, (s.process c).held = some u → held = some u := by
    rw [hc]
    exact fun u hu => hu
  cases result with
  | ends status last =>
    refine h.go rfl rfl (fun t task ht => ⟨task, ht, rfl⟩) h.fresh (fun _ hs => Or.inl hs) hheld ?_
    cases held with
    | none => trivial
    | some t => exact hb
  | pauses at' gate timeout =>
    obtain ⟨hkept, hfresh, hacc⟩ := h.pauseAt e at' gate timeout ctx.reviewTask
    have hbound : (Phase.ran e (s.pauseAt e at' gate timeout ctx.reviewTask).2
        (if goesPast ctx start (.pauses at' gate timeout) then some ctx.pause else none)
        held).Bound (s.pauseAt e at' gate timeout ctx.reviewTask).1.tasks := by
      cases held with
      | none => trivial
      | some t =>
        have hb : (Phase.loaded e ctx start (some t)).Bound s.tasks := hb
        exact hb.kept hkept
    have hlast : Watched ((s.pauseAt e at' gate timeout ctx.reviewTask).1.go c
        (.ran e (s.pauseAt e at' gate timeout ctx.reviewTask).2
          (if goesPast ctx start (.pauses at' gate timeout) then some ctx.pause else none)
          held)) :=
      h.go (pauseAt_process e at' gate timeout ctx.reviewTask).2
        (pauseAt_process e at' gate timeout ctx.reviewTask).1 hkept hfresh
        (fun e' hs => Or.inl (hacc e' hs)) hheld hbound
    cases gate with
    | false => exact ⟨hlast.fresh, hlast.bound, hlast.watched⟩
    | true => exact ⟨hlast.fresh, hlast.bound, hlast.watched⟩

theorem Watched.save (h : Watched s) {e : ℕ} {ctx : Context} {passed held : Option ℕ}
    (hc : s.process c = .ran e ctx passed held) (hok : Kept s (.save c)) (ph : Phase)
    (hnone : ph.Bound s.tasks) :
    Watched ({ s with executions := Function.update s.executions e (some ctx) }.go c ph) where
  fresh := h.fresh
  bound d := by
    rw [go_process]
    split
    · exact hnone
    · exact h.bound d
  watched e' ctx' hctx hpaused hgate := by
    have hctx : Function.update s.executions e (some ctx) e' = some ctx' := hctx
    by_cases hee : e' = e
    · subst hee
      rw [Function.update_self] at hctx
      cases hctx
      obtain ⟨t, task, -, ht, he, hp⟩ := hok e' ctx passed held hc hpaused hgate
      exact Or.inl ⟨t, task, ht, he, hp⟩
    · rw [Function.update_of_ne hee] at hctx
      rcases h.watched e' ctx' hctx hpaused hgate with hs | ⟨d, t, task, ht, htask, he⟩
      · exact Or.inl hs
      · refine Or.inr ⟨d, t, task, ?_, htask, he⟩
        have hdc : d ≠ c := by
          rintro rfl
          have hb := h.bound d
          rw [hc] at hb ht
          cases held with
          | none => cases ht
          | some u =>
            cases ht
            obtain ⟨task', htask', he'⟩ := hb
            simp_all
        rw [go_process, if_neg hdc]
        exact ht

theorem Watched.step (h : Watched s) {a : Act} (hok : Kept s a) (hs : step s a = some s') :
    Watched s' := by
  cases a with
  | wait duration | deletePolicy e =>
    cases hs
    exact ⟨h.fresh, h.bound, h.watched⟩
  | start c at' gate timeout =>
    simp only [ReviewGate.step] at hs
    split at hs
    · rename_i hidle
      cases hs
      obtain ⟨hkept, hfresh, hacc⟩ := h.pauseAt s.nextExecution at' gate timeout none
      refine h.go (t := { (s.pauseAt s.nextExecution at' gate timeout none).1 with
          nextExecution := s.nextExecution + 1 })
        (pauseAt_process s.nextExecution at' gate timeout none).2
        (pauseAt_process s.nextExecution at' gate timeout none).1 hkept hfresh
        (fun e hs => Or.inl (hacc e hs)) ?_ trivial
      intro u hu
      rw [hidle] at hu
      cases hu
    · cases hs
  | check c t approve | expire c t =>
    simp only [ReviewGate.step] at hs
    split at hs
    · rename_i hidle _
      split at hs
      · cases hs
        exact h.goOnly (by simp [hidle, Phase.held]) trivial
      · cases hs
    · cases hs
  | decide c =>
    simp only [ReviewGate.step] at hs
    split at hs
    · rename_i t approve hc
      obtain ⟨task, ht, rfl⟩ := Option.map_eq_some_iff.1 hs
      exact h.decide ht rfl (by rw [hc]; rfl) rfl trivial
    · cases hs
  | read c | readExpired c =>
    simp only [ReviewGate.step] at hs
    split at hs
    · rename_i t hc
      obtain ⟨task, ht, hs⟩ := Option.bind_eq_some_iff.1 hs
      obtain ⟨ctx, hctx, rfl⟩ := Option.map_eq_some_iff.1 hs
      exact h.goOnly (by simp [hc, Phase.held]) ⟨task, ht, rfl⟩
    · cases hs
  | skip c =>
    simp only [ReviewGate.step] at hs
    split at hs
    · rename_i t hc
      obtain ⟨task, ht, hs⟩ := Option.bind_eq_some_iff.1 hs
      split at hs
      · cases hs
        exact h.goOnly (by simp [hc, Phase.held]) trivial
      · cases hs
    · cases hs
  | timeOut c =>
    simp only [ReviewGate.step] at hs
    split at hs
    · rename_i t e ctx hc
      obtain ⟨task, ht, rfl⟩ := Option.map_eq_some_iff.1 hs
      have hb := h.bound c
      rw [hc] at hb
      obtain ⟨task', ht', he⟩ := hb
      rw [ht] at ht'
      cases ht'
      exact h.decide ht rfl (by rw [hc]; rfl) rfl
        ⟨{ task with status := .timedOut }, by rw [setTask_tasks, if_pos rfl], he⟩
    · cases hs
  | callback c e | resume c e =>
    simp only [ReviewGate.step] at hs
    split at hs
    · rename_i hidle _
      try split at hs
      all_goals first
        | cases hs; done
        | cases hs
          exact h.goOnly (by simp [hidle, Phase.held]) trivial
    · cases hs
  | runSteps c result =>
    simp only [ReviewGate.step] at hs
    split at hs
    · rename_i hc
      split at hs
      · cases hs
        exact h.runSteps hc result
      · cases hs
    · cases hs
  | save c =>
    simp only [ReviewGate.step] at hs
    split at hs
    · rename_i hc
      cases hs
      exact h.save hc hok _ (by split <;> trivial)
    · cases hs
  | log c =>
    simp only [ReviewGate.step] at hs
    split at hs
    · rename_i hc
      cases hs
      exact h.go (t := { s with decisions := _ :: s.decisions }) rfl rfl
        (fun t task ht => ⟨task, ht, rfl⟩) h.fresh (fun _ hs => Or.inl hs)
        (by simp [hc, Phase.held]) trivial
    · cases hs
  | raise c =>
    cases hs
    refine h.goOnly ?_ trivial
    intro u hu
    rw [show (s.process c).held = none from hok] at hu
    cases hu
  | escalate t =>
    obtain ⟨task, ht, rfl⟩ := Option.map_eq_some_iff.1 hs
    have hkept : TasksKept s (s.setTask t { task with status := .escalated }) := by
      intro u task₀ hu
      rw [setTask_tasks]
      split
      · simp_all
      · exact ⟨task₀, hu, rfl⟩
    refine ⟨fun u task₀ hu => ?_, fun c => (h.bound c).kept hkept, fun e ctx hctx hp hg => ?_⟩
    · rw [setTask_tasks] at hu
      split at hu
      · rename_i hut
        exact hut ▸ h.fresh t task ht
      · exact h.fresh u task₀ hu
    · rcases h.watched e ctx hctx hp hg with
        ⟨u, task₀, hu, he, hpending⟩ | ⟨c, u, task₀, hu, htask, he⟩
      · have hut : u ≠ t := fun hut => hok task₀ (hut ▸ hu) hpending
        exact Or.inl ⟨u, task₀, by rw [setTask_tasks, if_neg hut]; exact hu, he, hpending⟩
      · obtain ⟨task', htask', he'⟩ := hkept u task₀ htask
        exact Or.inr ⟨c, u, task', hu, htask', he'.trans he⟩

theorem none_stranded (h : Reach step Kept State.init s) : NoneStranded s := by
  have hw : Watched s := h.invariant watched_init fun _ _ _ hi hok hs => hi.step hok hs
  intro e ctx hctx hpaused hgate hidle
  rcases hw.watched e ctx hctx hpaused hgate with hs | ⟨c, t, task, ht, htask, he⟩
  · exact hs
  · refine absurd ?_ (hidle c)
    have hb := hw.bound c
    unfold State.inHand Phase.inHand
    cases hc : s.process c with
    | decided u =>
      rw [hc] at ht
      cases ht
      simp [htask, he]
    | loaded e' _ _ held | ran e' _ _ held =>
      rw [hc] at ht hb
      obtain rfl : held = some t := ht
      obtain ⟨task', htask', he'⟩ := hb
      simp_all
    | idle | checked _ _ | expired _ | readExpired _ _ _ | saved _ =>
      rw [hc] at ht
      cases ht

def gateRun : List Act := [.start 0 3 true 60, .save 0]

theorem task_waits : ∃ s, Reach step Kept State.init s ∧
    (∃ ctx, s.executions 0 = some ctx ∧ ctx.status = .paused ∧ ctx.atGate = true) ∧
    s.Accepts 0 := by
  have hreach : Reach step Kept State.init _ :=
    reach_exec (show exec step State.init gateRun = some _ from rfl) ⟨trivial, by
      refine ⟨fun e ctx passed held hc _ _ => ?_, trivial⟩
      cases hc
      exact ⟨0, _, rfl, rfl, rfl, rfl⟩⟩
  exact ⟨_, hreach, ⟨_, rfl, rfl, rfl⟩, none_stranded hreach 0 _ rfl rfl rfl fun c => by
    cases c <;> exact nofun⟩

/-- The policy is deleted, and the task approved all the same. -/
def deletedRun : List Act :=
  gateRun ++ ([.deletePolicy 0, .check 0 0 true, .decide 0, .raise 0] : List Act)

theorem stranded_by_deletion : ∃ s, Reachable step State.init s ∧ ¬ NoneStranded s := by
  refine ⟨_, reachable_exec (show exec step State.init deletedRun = some _ from rfl), fun h => ?_⟩
  obtain ⟨t, task, ht, -, hp⟩ := h 0 _ rfl rfl rfl fun c => by cases c <;> exact nofun
  cases t with
  | zero =>
    cases ht
    cases hp
  | succ t => cases ht

end Stranded

/-! ### One continuation, one decision -/

section Finished
variable {s s' t : State}

/-- The stored execution is paused, and its pause is not gone past. -/
def State.Waiting (s : State) (e : ℕ) (ctx : Context) : Prop :=
  s.executions e = some ctx ∧ ctx.status = .paused ∧ (e, ctx.pause) ∉ s.continued

/-- The stored execution waits, if it is paused at all. -/
def State.NotPast (s : State) (e : ℕ) : Prop :=
  ∀ ctx, s.executions e = some ctx → ctx.status = .paused → (e, ctx.pause) ∉ s.continued

/-- What an entry point has found still holds, and what it has done is not done twice. -/
def State.PhaseOk (s : State) : Phase → Prop
  | .idle => True
  | .checked t _ | .decided t | .expired t =>
    ∃ task ctx, s.tasks t = some task ∧ s.Waiting task.execution ctx
  | .readExpired _ e ctx | .loaded e ctx _ _ => s.Waiting e ctx
  | .ran e ctx passed _ => e < s.nextExecution ∧ e ∉ s.decisions ∧ ctx.pause < s.pauses ∧
      (ctx.status = .paused → (e, ctx.pause) ∉ s.continued) ∧ (passed = none → s.NotPast e)
  | .saved e => e < s.nextExecution ∧ e ∉ s.decisions ∧
      ∀ ctx, s.executions e = some ctx → ctx.status ≠ .paused

structure RowOk (s : State) (e : ℕ) : Prop where
  fresh : s.nextExecution ≤ e → s.executions e = none ∧ e ∉ s.decisions ∧ ∀ p, (e, p) ∉ s.continued
  past : ∀ p, (e, p) ∈ s.continued → p < s.pauses
  pause : ∀ ctx, s.executions e = some ctx → ctx.pause < s.pauses
  undecided : ∀ ctx, s.executions e = some ctx → ctx.status = .paused → e ∉ s.decisions
  waits : (∀ c, s.inHand c ≠ some e) → s.NotPast e

structure Inv (s : State) : Prop where
  tasks : ∀ t task, s.tasks t = some task → t < s.nextTask ∧ task.execution < s.nextExecution
  alone : ∀ c d e, s.inHand c = some e → s.inHand d = some e → c = d
  phase : ∀ c, s.PhaseOk (s.process c)
  row : ∀ e, RowOk s e
  once : Once s

theorem inv_init : Inv State.init where
  tasks t task h := by cases h
  alone c d e h := by cases h
  phase c := trivial
  row e := ⟨fun _ => ⟨rfl, List.not_mem_nil, fun _ => List.not_mem_nil⟩,
    fun _ h => (by cases h), fun _ h => (by cases h), fun _ h => (by cases h),
    fun _ _ h => (by cases h)⟩
  once := ⟨List.nodup_nil, List.nodup_nil⟩

def Agree (s t : State) (e : ℕ) : Prop :=
  t.executions e = s.executions e ∧ (e ∈ t.decisions ↔ e ∈ s.decisions) ∧
    ∀ p, (e, p) ∈ t.continued ↔ (e, p) ∈ s.continued

structure Grown (s t : State) : Prop where
  process : t.process = s.process
  tasks : TasksKept s t
  next : s.nextExecution ≤ t.nextExecution
  pauses : s.pauses ≤ t.pauses

variable {e c : ℕ} {ctx : Context} {ph : Phase} {held : Option ℕ}

theorem Agree.notPast (h : Agree s t e) (hs : s.NotPast e) : t.NotPast e := by
  intro ctx hctx hp hmem
  exact hs ctx (h.1 ▸ hctx) hp ((h.2.2 _).1 hmem)

theorem Agree.waiting (h : Agree s t e) (hs : s.Waiting e ctx) : t.Waiting e ctx :=
  ⟨h.1.trans hs.1, hs.2.1, fun hmem => hs.2.2 ((h.2.2 _).1 hmem)⟩

theorem State.PhaseOk.kept (h : s.PhaseOk ph) (hg : Grown s t)
    (ha : ∀ e, ph.inHand s.tasks = some e → Agree s t e) :
    t.PhaseOk ph ∧ ph.inHand t.tasks = ph.inHand s.tasks := by
  have htask : ∀ u, (∃ task ctx, s.tasks u = some task ∧ s.Waiting task.execution ctx) →
      (∀ e, (s.tasks u).map (·.execution) = some e → Agree s t e) →
      (∃ task ctx, t.tasks u = some task ∧ t.Waiting task.execution ctx) ∧
        (t.tasks u).map (·.execution) = (s.tasks u).map (·.execution) := by
    rintro u ⟨task, ctx, hu, hw⟩ ha
    obtain ⟨task', hu', he⟩ := hg.tasks u task hu
    have hagree := ha task.execution (by rw [hu]; rfl)
    exact ⟨⟨task', ctx, hu', he ▸ hagree.waiting hw⟩, by rw [hu, hu']; exact congrArg some he⟩
  cases ph with
  | idle => exact ⟨trivial, rfl⟩
  | checked u _ | decided u | expired u => exact htask u h ha
  | readExpired u e ctx => exact ⟨(ha e rfl).waiting h, rfl⟩
  | loaded e ctx start held => exact ⟨(ha e rfl).waiting h, rfl⟩
  | ran e ctx passed held =>
    obtain ⟨hlt, hdec, hpause, hpaused, hpast⟩ := h
    have hagree := ha e rfl
    refine ⟨⟨Nat.lt_of_lt_of_le hlt hg.next, fun hmem => hdec (hagree.2.1.1 hmem),
      Nat.lt_of_lt_of_le hpause hg.pauses, fun hp hmem => hpaused hp ((hagree.2.2 _).1 hmem),
      fun hn => hagree.notPast (hpast hn)⟩, rfl⟩
  | saved e =>
    obtain ⟨hlt, hdec, hrow⟩ := h
    have hagree := ha e rfl
    exact ⟨⟨Nat.lt_of_lt_of_le hlt hg.next, fun hmem => hdec (hagree.2.1.1 hmem),
      fun ctx hctx => hrow ctx (hagree.1 ▸ hctx)⟩, rfl⟩

theorem Inv.waiting_lt (h : Inv s) (hw : s.Waiting e ctx) : e < s.nextExecution := by
  by_contra hle
  have hnone := ((h.row e).fresh (Nat.le_of_not_lt hle)).1
  rw [hw.1] at hnone
  cases hnone

theorem Inv.inHand_lt (h : Inv s) (hc : s.inHand c = some e) : e < s.nextExecution := by
  have hp := h.phase c
  unfold State.inHand at hc
  cases hph : s.process c with
  | idle =>
    rw [hph] at hc
    cases hc
  | checked u _ | decided u | expired u =>
    rw [hph] at hc hp
    obtain ⟨task, ctx, hu, -⟩ := hp
    obtain ⟨task', hu', rfl⟩ := Option.map_eq_some_iff.1 hc
    exact (h.tasks u task' hu').2
  | readExpired _ _ _ | loaded _ _ _ _ =>
    rw [hph] at hc hp
    cases hc
    exact h.waiting_lt hp
  | ran _ _ _ _ | saved _ =>
    rw [hph] at hc hp
    cases hc
    exact hp.1

/-- **A step of one entry point on one execution.**  The rest stays as it is. -/
theorem Inv.act (h : Inv s) (hg : Grown s t)
    (htasks : ∀ u task, t.tasks u = some task → u < t.nextTask ∧ task.execution < t.nextExecution)
    (ha : ∀ e', e' ≠ e → Agree s t e') (hothers : ∀ d, d ≠ c → s.inHand d ≠ some e)
    (hc : ∀ e', s.inHand c = some e' → e' = e) (hph : ∀ e', ph.inHand t.tasks = some e' → e' = e)
    (hphase : t.PhaseOk ph) (hrow : RowOk (t.go c ph) e) (honce : Once t) :
    Inv (t.go c ph) := by
  have hkept : ∀ d, d ≠ c → t.PhaseOk (s.process d) ∧
      (s.process d).inHand t.tasks = s.inHand d := by
    intro d hd
    exact (h.phase d).kept hg fun e' he' => ha e' fun hee => hothers d hd (hee ▸ he')
  have hhand : ∀ d, d ≠ c → (t.go c ph).inHand d = s.inHand d := by
    intro d hd
    have hproc : (t.go c ph).process d = s.process d := by rw [go_process, if_neg hd, hg.process]
    unfold State.inHand
    rw [hproc]
    exact (hkept d hd).2
  have hself : (t.go c ph).inHand c = ph.inHand t.tasks := by
    unfold State.inHand
    rw [go_process, if_pos rfl]
    rfl
  refine ⟨htasks, fun d d' e' hd hd' => ?_, fun d => ?_, fun e' => ?_, honce⟩
  · by_cases hdc : d = c
    · grind
    · rw [hhand d hdc] at hd
      by_cases hdc' : d' = c
      · grind
      · exact h.alone d d' e' hd (by rw [← hhand d' hdc']; exact hd')
  · rw [go_process]
    split
    · exact hphase
    · rename_i hd
      rw [hg.process]
      exact (hkept d hd).1
  · by_cases hee : e' = e
    · exact hee ▸ hrow
    · have hagree : Agree s (t.go c ph) e' := ha e' hee
      have hr := h.row e'
      refine ⟨fun hle => ?_, fun p hmem => ?_, fun ctx hctx => ?_, fun ctx hctx hp hmem => ?_,
        fun hidle => hagree.notPast (hr.waits fun d hd => ?_)⟩
      · obtain ⟨hnone, hdec, hpast⟩ := hr.fresh (Nat.le_trans hg.next hle)
        exact ⟨hagree.1.trans hnone, fun hmem => hdec (hagree.2.1.1 hmem),
          fun p hmem => hpast p ((hagree.2.2 p).1 hmem)⟩
      · exact Nat.lt_of_lt_of_le (hr.past p ((hagree.2.2 p).1 hmem)) hg.pauses
      · exact Nat.lt_of_lt_of_le (hr.pause ctx (hagree.1 ▸ hctx)) hg.pauses
      · exact hr.undecided ctx (hagree.1 ▸ hctx) hp (hagree.2.1.1 hmem)
      · grind

theorem Grown.refl (s : State) : Grown s s :=
  ⟨rfl, fun _ task ht => ⟨task, ht, rfl⟩, Nat.le_refl _, Nat.le_refl _⟩

theorem Agree.refl (s : State) (e : ℕ) : Agree s s e := ⟨rfl, Iff.rfl, fun _ => Iff.rfl⟩

theorem Inv.move (h : Inv s)
    (hothers : ∀ d, d ≠ c → s.inHand d ≠ some e) (hc : ∀ e', s.inHand c = some e' → e' = e)
    (hph : ∀ e', ph.inHand s.tasks = some e' → e' = e) (hphase : s.PhaseOk ph)
    (hrow : s.NotPast e) : Inv (s.go c ph) := by
  have hr := h.row e
  exact h.act (Grown.refl s) h.tasks (fun _ _ => Agree.refl s _) hothers hc hph hphase
    ⟨hr.fresh, hr.past, hr.pause, hr.undecided, fun _ => hrow⟩ h.once

theorem Inv.setTask (h : Inv s) {u : ℕ} {task task' : Task} (hu : s.tasks u = some task)
    (he : task'.execution = task.execution) : Inv (s.setTask u task') := by
  have hg : Grown s (s.setTask u task') := by
    refine ⟨rfl, fun v task₀ hv => ?_, Nat.le_refl _, Nat.le_refl _⟩
    rw [setTask_tasks]
    split
    · simp_all
    · exact ⟨task₀, hv, rfl⟩
  have hkept : ∀ c, (s.setTask u task').PhaseOk (s.process c) ∧
      (s.setTask u task').inHand c = s.inHand c :=
    fun c => (h.phase c).kept hg fun e _ => Agree.refl s e
  refine ⟨fun v task₀ hv => ?_, fun c d e hc hd => ?_, fun c => (hkept c).1, fun e => ?_, h.once⟩
  · rw [setTask_tasks] at hv
    split at hv
    · rename_i hvu
      cases hv
      subst hvu
      exact ⟨(h.tasks v task hu).1, he ▸ (h.tasks v task hu).2⟩
    · exact h.tasks v task₀ hv
  · exact h.alone c d e ((hkept c).2.symm.trans hc) ((hkept d).2.symm.trans hd)
  · have hr := h.row e
    exact ⟨hr.fresh, hr.past, hr.pause, hr.undecided,
      fun hidle => hr.waits fun c hc => hidle c ((hkept c).2.trans hc)⟩

theorem Inv.others (h : Inv s) (hc : s.inHand c = some e) :
    ∀ d, d ≠ c → s.inHand d ≠ some e := fun d hd hde => hd (h.alone d c e hde hc)

theorem Inv.goOn (h : Inv s) (hc : s.inHand c = some e)
    (hph : ∀ e', ph.inHand s.tasks = some e' → e' = e) (hphase : s.PhaseOk ph)
    (hrow : s.NotPast e) : Inv (s.go c ph) :=
  h.move (h.others hc) (fun _ hc' => Option.some.inj (hc'.symm.trans hc)) hph hphase hrow

theorem Inv.takeUp (h : Inv s) (hidle : s.process c = .idle)
    (hfree : s.Free e) (hph : ∀ e', ph.inHand s.tasks = some e' → e' = e)
    (hphase : ∀ ctx, s.Waiting e ctx → s.PhaseOk ph) : Inv (s.go c ph) := by
  obtain ⟨⟨ctx, hctx, hp⟩, hnone⟩ := hfree
  have hrow := (h.row e).waits hnone
  refine h.move (fun d _ => hnone d) (fun e' hc => absurd hc ?_) hph
    (hphase ctx ⟨hctx, hp, hrow ctx hctx hp⟩) hrow
  unfold State.inHand
  rw [hidle]
  exact nofun

theorem State.Waiting.notPast (h : s.Waiting e ctx) : s.NotPast e := by
  intro ctx' hctx _
  rw [h.1] at hctx
  cases hctx
  exact h.2.2

theorem Inv.start (h : Inv s) (hidle : s.process c = .idle) (at' : ℕ) (gate : Bool) (timeout : ℕ) :
    Inv ({ (s.pauseAt s.nextExecution at' gate timeout none).1 with
        nextExecution := s.nextExecution + 1 }.go c
      (.ran s.nextExecution (s.pauseAt s.nextExecution at' gate timeout none).2 none none)) := by
  obtain ⟨hnone, hdec, hpast⟩ := (h.row s.nextExecution).fresh (Nat.le_refl _)
  have hold := pauseAt_kept (fun u task hu => (h.tasks u task hu).1) s.nextExecution at' gate
    timeout none
  have hproc := pauseAt_process (s := s) s.nextExecution at' gate timeout none
  have hpause := pauseAt_pause (s := s) s.nextExecution at' gate timeout none
  have hlog := pauseAt_log (s := s) s.nextExecution at' gate timeout none
  refine h.act (e := s.nextExecution)
    ⟨hproc.1, fun u task hu => ⟨task, hold u task hu, rfl⟩, Nat.le_succ _, ?_⟩
    (fun u task hu => ?_) (fun e' _ => ?_) (fun d _ hd => ?_) (fun e' hc => ?_)
    (fun e' he => (Option.some.inj he).symm) ?_ ?_ ?_
  · exact hpause.2 ▸ Nat.le_succ _
  · obtain ⟨hle, hu | ⟨he, hu⟩⟩ := pauseAt_new s.nextExecution at' gate timeout none hu
    · exact ⟨Nat.lt_of_lt_of_le (h.tasks u task hu).1 hle, Nat.lt_succ_of_lt (h.tasks u task hu).2⟩
    · exact ⟨hu, he ▸ Nat.lt_succ_self _⟩
  · exact ⟨congrFun hproc.2 e', by rw [← hlog.2], fun p => by rw [← hlog.1]⟩
  · exact Nat.lt_irrefl _ (h.inHand_lt hd)
  · unfold State.inHand at hc
    rw [hidle] at hc
    cases hc
  · refine ⟨Nat.lt_succ_self _, fun hmem => hdec (hlog.2 ▸ hmem), ?_, fun _ hmem => ?_, ?_⟩
    · simp_all
    · exact hpast _ (hlog.1 ▸ hmem)
    · intro _ ctx hctx
      simp_all
  · have hrow : ∀ ctx, (s.pauseAt s.nextExecution at' gate timeout none).1.executions
        s.nextExecution ≠ some ctx := by
      rw [hproc.2, hnone]
      exact fun _ => nofun
    exact ⟨fun hle => absurd hle (Nat.not_succ_le_self _),
      fun p hmem => absurd (hlog.1 ▸ hmem) (hpast p), fun ctx hctx => absurd hctx (hrow ctx),
      fun ctx hctx => absurd hctx (hrow ctx), fun _ ctx hctx => absurd hctx (hrow ctx)⟩
  · exact ⟨hlog.1.symm ▸ h.once.1, hlog.2.symm ▸ h.once.2⟩

theorem inHand_of (hc : s.process c = ph) : s.inHand c = ph.inHand s.tasks := by
  unfold State.inHand
  rw [hc]

variable {start : ℕ} {passed : Option ℕ}

theorem Inv.ran (h : Inv s) {ctx' : Context}
    (hc : s.process c = .loaded e ctx start held) (hg : Grown s t)
    (hpassed : passed = none ∨ passed = some ctx.pause)
    (htasks : ∀ u task, t.tasks u = some task → u < t.nextTask ∧ task.execution < t.nextExecution)
    (hexec : t.executions = s.executions) (hdec : t.decisions = s.decisions)
    (hcont : t.continued = (passed.map fun p => (e, p)).toList ++ s.continued)
    (hnext : t.nextExecution = s.nextExecution) (hpause : ctx'.pause < t.pauses)
    (hnew : ctx'.status = .paused → ctx'.pause = s.pauses) :
    Inv (t.go c (.ran e ctx' passed held)) := by
  have hw : s.Waiting e ctx := by
    have hp := h.phase c
    rw [hc] at hp
    exact hp
  have hr := h.row e
  have hundecided := hr.undecided ctx hw.1 hw.2.1
  have hin : s.inHand c = some e := inHand_of hc
  have hmem : ∀ e' p, (e', p) ∈ t.continued → e' = e ∧ passed = some p ∨ (e', p) ∈ s.continued := by
    intro e' p hp
    rw [hcont] at hp
    rcases List.mem_append.1 hp with hp | hp
    · simp_all
    · exact Or.inr hp
  have hlt : ∀ p, (e, p) ∈ t.continued → p < s.pauses := by
    intro p hp
    rcases hmem e p hp with ⟨-, hp⟩ | hp
    · rcases hpassed with hn | hs
      · rw [hn] at hp
        cases hp
      · rw [hs] at hp
        cases hp
        exact hr.pause ctx hw.1
    · exact hr.past p hp
  refine h.act hg htasks (fun e' hne => ?_) (h.others hin)
    (fun e' hc' => Option.some.inj (hc'.symm.trans hin)) (fun e' he => (Option.some.inj he).symm)
    ⟨hnext ▸ h.waiting_lt hw, hdec ▸ hundecided, hpause, fun hp hm => ?_, fun hn => ?_⟩
    ⟨fun hle => ?_, fun p hp => ?_, fun row hrow => ?_, fun row _ _ => hdec ▸ hundecided,
      fun hidle => ?_⟩ ⟨?_, hdec ▸ h.once.2⟩
  · refine ⟨congrFun hexec e', by rw [hdec], fun p => ⟨fun hp => ?_, fun hp => ?_⟩⟩
    · exact (hmem e' p hp).resolve_left fun hq => hne hq.1
    · exact hcont ▸ List.mem_append_right _ hp
  -- a new pause is not gone past yet
  · exact Nat.lt_irrefl _ (hnew hp ▸ hlt _ hm)
  · subst hn
    exact Agree.notPast ⟨congrFun hexec e, by rw [hdec], fun p => by rw [hcont]; rfl⟩ hw.notPast
  · exact absurd (h.waiting_lt hw) (Nat.not_lt_of_le (hnext ▸ hle))
  · exact Nat.lt_of_lt_of_le (hlt p hp) hg.pauses
  · exact Nat.lt_of_lt_of_le (hr.pause row (hexec ▸ hrow)) hg.pauses
  · refine absurd ?_ (hidle c)
    unfold State.inHand
    rw [go_process, if_pos rfl]
    rfl
  · rw [hcont]
    rcases hpassed with rfl | rfl
    · exact h.once.1
    · exact List.nodup_cons.2 ⟨hw.2.2, h.once.1⟩

theorem Inv.runSteps (h : Inv s) (hc : s.process c = .loaded e ctx start held) {result : Result}
    (hpossible : result.Possible start) : Inv (s.runSteps c e ctx start held result) := by
  have hpassed : (if goesPast ctx start result then some ctx.pause else none) = none ∨
      (if goesPast ctx start result then some ctx.pause else none) = some ctx.pause := by
    split
    · exact Or.inr rfl
    · exact Or.inl rfl
  have hw : s.Waiting e ctx := by
    have hp := h.phase c
    rw [hc] at hp
    exact hp
  cases result with
  | ends status last =>
    exact h.ran hc ⟨rfl, fun _ task ht => ⟨task, ht, rfl⟩, Nat.le_refl _, Nat.le_refl _⟩ hpassed
      h.tasks rfl rfl rfl rfl ((h.row e).pause ctx hw.1) fun hp => absurd hp hpossible.1
  | pauses at' gate timeout =>
    have hold := pauseAt_kept (fun u task hu => (h.tasks u task hu).1) e at' gate timeout
      ctx.reviewTask
    have htasks : ∀ u task, (s.pauseAt e at' gate timeout ctx.reviewTask).1.tasks u = some task →
        u < (s.pauseAt e at' gate timeout ctx.reviewTask).1.nextTask ∧
          task.execution < s.nextExecution := by
      intro u task hu
      obtain ⟨hle, hu | ⟨he, hu⟩⟩ := pauseAt_new e at' gate timeout ctx.reviewTask hu
      · exact ⟨Nat.lt_of_lt_of_le (h.tasks u task hu).1 hle, (h.tasks u task hu).2⟩
      · exact ⟨hu, he ▸ h.waiting_lt hw⟩
    have hkept : TasksKept s (s.pauseAt e at' gate timeout ctx.reviewTask).1 :=
      fun u task ht => ⟨task, hold u task ht, rfl⟩
    cases gate with
    | false | true =>
      exact h.ran hc ⟨rfl, hkept, Nat.le_refl _, Nat.le_succ _⟩ hpassed htasks rfl rfl rfl rfl
        (Nat.lt_succ_self _) fun _ => rfl

theorem Inv.save (h : Inv s) (hc : s.process c = .ran e ctx passed held) :
    Inv ({ s with executions := Function.update s.executions e (some ctx) }.go c
      (if ctx.status = Status.paused then .idle else .saved e)) := by
  obtain ⟨hlt, hdec, hpause, hpaused, -⟩ : s.PhaseOk (.ran e ctx passed held) := hc ▸ h.phase c
  have hin : s.inHand c = some e := inHand_of hc
  have hself : Function.update s.executions e (some ctx) e = some ctx := Function.update_self ..
  refine h.act ⟨rfl, fun _ task ht => ⟨task, ht, rfl⟩, Nat.le_refl _, Nat.le_refl _⟩ h.tasks
    (fun e' hne => ⟨Function.update_of_ne hne _ _, Iff.rfl, fun _ => Iff.rfl⟩) (h.others hin)
    (fun e' hc' => Option.some.inj (hc'.symm.trans hin)) (fun e' he => ?_) ?_
    ⟨fun hle => absurd hlt (Nat.not_lt_of_le hle), (h.row e).past, fun row hrow => ?_,
      fun _ _ _ => hdec, fun _ row hrow hp => ?_⟩ h.once
  · split at he
    · cases he
    · exact (Option.some.inj he).symm
  · split
    · trivial
    · rename_i hne
      refine ⟨hlt, hdec, fun row hrow => ?_⟩
      cases hself.symm.trans hrow
      exact hne
  · cases hself.symm.trans hrow
    exact hpause
  · cases hself.symm.trans hrow
    exact hpaused hp

theorem Inv.log (h : Inv s) (hc : s.process c = .saved e) :
    Inv ({ s with decisions := e :: s.decisions }.go c .idle) := by
  obtain ⟨hlt, hdec, hrow⟩ : s.PhaseOk (.saved e) := hc ▸ h.phase c
  have hin : s.inHand c = some e := inHand_of hc
  refine h.act ⟨rfl, fun _ task ht => ⟨task, ht, rfl⟩, Nat.le_refl _, Nat.le_refl _⟩ h.tasks
    (fun e' hne => ⟨rfl, ?_, fun _ => Iff.rfl⟩) (h.others hin)
    (fun e' hc' => Option.some.inj (hc'.symm.trans hin)) (fun e' => nofun) trivial
    ⟨fun hle => absurd hlt (Nat.not_lt_of_le hle), (h.row e).past, (h.row e).pause,
      fun row hctx hp => absurd hp (hrow row hctx), fun _ row hctx hp => absurd hp (hrow row hctx)⟩
    ⟨h.once.1, List.nodup_cons.2 ⟨hdec, h.once.2⟩⟩
  simp_all

theorem Inv.raise (h : Inv s) (hok : Exclusive s (.raise c)) : Inv (s.go c .idle) := by
  have hp := h.phase c
  cases hc : s.process c with
  | idle =>
    have hnone : ∀ d, s.inHand d ≠ some s.nextExecution :=
      fun d hd => Nat.lt_irrefl _ (h.inHand_lt hd)
    refine h.move (e := s.nextExecution) (fun d _ => hnone d) (fun e' he => ?_) (fun e' => nofun)
      trivial ((h.row _).waits hnone)
    rw [inHand_of hc] at he
    cases he
  | checked u _ | decided u | expired u =>
    rw [hc] at hp
    obtain ⟨task, ctx, hu, hw⟩ := hp
    refine h.goOn (e := task.execution) ?_ (fun e' => nofun) trivial hw.notPast
    rw [inHand_of hc]
    exact congrArg (Option.map (·.execution)) hu
  | readExpired _ e ctx =>
    rw [hc] at hp
    exact h.goOn (inHand_of hc) (fun e' => nofun) trivial hp.notPast
  | loaded e ctx _ _ =>
    rw [hc] at hp
    exact h.goOn (inHand_of hc) (fun e' => nofun) trivial hp.notPast
  | ran e ctx passed held =>
    rw [hc] at hp
    refine h.goOn (inHand_of hc) (fun e' => nofun) trivial (hp.2.2.2.2 ?_)
    cases passed with
    | none => rfl
    | some p => exact absurd hc (hok e ctx p held)
  | saved e =>
    rw [hc] at hp
    exact h.goOn (inHand_of hc) (fun e' => nofun) trivial fun ctx hctx hpaused =>
      absurd hpaused (hp.2.2 ctx hctx)

theorem Inv.step (h : Inv s) {a : Act} (hok : Exclusive s a) (hs : step s a = some s') :
    Inv s' := by
  cases a with
  | wait duration | deletePolicy e =>
    cases hs
    exact ⟨h.tasks, h.alone, h.phase, fun e' => ⟨(h.row e').fresh, (h.row e').past,
      (h.row e').pause, (h.row e').undecided, (h.row e').waits⟩, h.once⟩
  | start c at' gate timeout =>
    simp only [ReviewGate.step] at hs
    split at hs
    · rename_i hidle
      cases hs
      exact h.start hidle at' gate timeout
    · cases hs
  | check c u approve | expire c u =>
    obtain ⟨task, hu, hfree⟩ := hok
    simp only [ReviewGate.step, hu] at hs
    split at hs
    · rename_i hidle htask
      cases htask
      split at hs
      · cases hs
        exact h.takeUp hidle hfree (fun e' he => by simpa [Phase.inHand, hu] using he.symm)
          fun ctx hw => ⟨task, ctx, hu, hw⟩
      · cases hs
    · cases hs
  | callback c e =>
    simp only [ReviewGate.step] at hs
    split at hs
    · rename_i ctx hidle hfound
      split at hs
      · cases hs
        exact h.takeUp hidle hok (fun e' he => (Option.some.inj he).symm) fun ctx' hw => by
          cases (found_eq hfound).symm.trans hw.1
          exact hw
      · cases hs
    · cases hs
  | resume c e =>
    simp only [ReviewGate.step] at hs
    split at hs
    · rename_i ctx hidle hfound
      cases hs
      exact h.takeUp hidle hok (fun e' he => (Option.some.inj he).symm) fun ctx' hw => by
        cases (found_eq hfound).symm.trans hw.1
        exact hw
    · cases hs
  | decide c =>
    simp only [ReviewGate.step] at hs
    split at hs
    · rename_i u approve hc
      obtain ⟨task, hu, rfl⟩ := Option.map_eq_some_iff.1 hs
      have h₁ : Inv (s.setTask u
          { task with status := if approve then .approved else .rejected }) := h.setTask hu rfl
      obtain ⟨task₀, ctx, hu₀, hw⟩ : s.PhaseOk (.checked u approve) := hc ▸ h.phase c
      cases hu.symm.trans hu₀
      refine h₁.goOn (e := task.execution) ?_ (fun e' he => ?_)
        ⟨_, ctx, (setTask_tasks s u _ u).trans (if_pos rfl), hw⟩ (State.Waiting.notPast hw)
      · rw [inHand_of (s := s.setTask u _) hc]
        simp [Phase.inHand]
      · simpa [Phase.inHand] using he.symm
    · cases hs
  | read c | readExpired c =>
    simp only [ReviewGate.step] at hs
    split at hs
    · rename_i u hc
      obtain ⟨task, hu, hs⟩ := Option.bind_eq_some_iff.1 hs
      obtain ⟨ctx, hctx, rfl⟩ := Option.map_eq_some_iff.1 hs
      have hp := h.phase c
      rw [hc] at hp
      obtain ⟨task₀, ctx₀, hu₀, hw⟩ := hp
      cases hu.symm.trans hu₀
      cases (found_eq hctx).symm.trans hw.1
      exact h.goOn ((inHand_of hc).trans (by rw [Phase.inHand, hu]; rfl))
        (fun e' he => (Option.some.inj he).symm) hw hw.notPast
    · cases hs
  | skip c =>
    simp only [ReviewGate.step] at hs
    split at hs
    · rename_i u hc
      obtain ⟨task, hu, hs⟩ := Option.bind_eq_some_iff.1 hs
      split at hs
      · cases hs
        exact h.raise fun e ctx p held hr => by rw [hc] at hr; cases hr
      · cases hs
    · cases hs
  | timeOut c =>
    simp only [ReviewGate.step] at hs
    split at hs
    · rename_i u e ctx hc
      obtain ⟨task, hu, rfl⟩ := Option.map_eq_some_iff.1 hs
      have h₁ : Inv (s.setTask u { task with status := .timedOut }) := h.setTask hu rfl
      have hw : s.Waiting e ctx := by
        have hp := h.phase c
        rw [hc] at hp
        exact hp
      exact h₁.goOn ((inHand_of (s := s.setTask u _) hc).trans rfl)
        (fun e' he => (Option.some.inj he).symm) hw (State.Waiting.notPast hw)
    · cases hs
  | runSteps c result =>
    simp only [ReviewGate.step] at hs
    split at hs
    · rename_i hc
      split at hs
      · rename_i hpossible
        cases hs
        exact h.runSteps hc hpossible
      · cases hs
    · cases hs
  | save c =>
    simp only [ReviewGate.step] at hs
    split at hs
    · rename_i hc
      cases hs
      exact h.save hc
    · cases hs
  | log c =>
    simp only [ReviewGate.step] at hs
    split at hs
    · rename_i hc
      cases hs
      exact h.log hc
    · cases hs
  | raise c =>
    cases hs
    exact h.raise hok
  | escalate u =>
    obtain ⟨task, hu, rfl⟩ := Option.map_eq_some_iff.1 hs
    exact h.setTask hu rfl

theorem finished_once (h : Reach step Exclusive State.init s) : Once s :=
  (h.invariant inv_init fun _ _ _ hi hok hs => hi.step hok hs : Inv s).once

/-- The task of the gate is approved, and the execution goes on to its end. -/
def approvedRun : List Act :=
  gateRun ++ ([.check 0 0 true, .decide 0, .read 0, .runSteps 0 (.ends .completed 5), .save 0,
    .log 0] : List Act)

theorem approved_once : ∃ s, Reach step Exclusive State.init s ∧ s.decisions = [0] ∧ Once s := by
  have hfree : ∀ s, exec step State.init gateRun = some s → s.Free 0 := by
    intro s hs
    cases hs
    exact ⟨⟨_, rfl, rfl⟩, fun c => by cases c <;> exact nofun⟩
  have hreach : Reach step Exclusive State.init _ :=
    reach_exec (show exec step State.init approvedRun = some _ from rfl)
      ⟨trivial, trivial, ⟨_, rfl, hfree _ rfl⟩, trivial, trivial, trivial, trivial, trivial,
        trivial⟩
  exact ⟨_, hreach, rfl, finished_once hreach⟩

def decidedRun : List Act :=
  gateRun ++ ([.check 0 0 true, .check 1 0 true, .decide 0, .read 0, .decide 1, .read 1,
    .runSteps 0 (.ends .completed 5), .runSteps 1 (.ends .completed 5), .save 0, .log 0,
    .save 1, .log 1] : List Act)

theorem decided_twice : ∃ s, Reachable step State.init s ∧ ¬ Once s := by
  refine ⟨_, reachable_exec (show exec step State.init decidedRun = some _ from rfl), fun h => ?_⟩
  exact absurd h.2 (show ¬ [0, 0].Nodup by decide)

end Finished

end RuleMind.ReviewGate
