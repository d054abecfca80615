/-
  A scheduled batch: `execute_cron_policy` of `app/scheduler.py`, whose items run on one
  `PolicyExecutor` (`app/executor.py`) and take turns at its awaits.

  A run is the tree of what it does to the executor they share; what its steps compute from its own
  context is in the tree.  The memoized catalog and the clock are left out.
-/
import RuleMind.Lib.Run
import Mathlib.Data.List.Count

namespace RuleMind.Cron

open Lib

/-! ### Runs -/

/-- What a run does to the executor, up to its outcome. -/
inductive Task (F α : Type)
  | done (outcome : α)
  | await (k : Task F α)
  /-- A field that `execute` has set. -/
  | read (k : F → Task F α)
  /-- `self._visited_workflows = {id}`. -/
  | reset (id : String) (k : Task F α)
  /-- `ref in self._visited_workflows`. -/
  | check (ref : String) (cycle next : Task F α)
  /-- `self._visited_workflows.add(ref)`. -/
  | visit (ref : String) (k : Task F α)

structure Shared (F : Type) where
  visited : List String
  fields : F

inductive Stop (F α : Type)
  | finished (outcome : α)
  | suspended (k : Task F α)

section Runs
variable {F α : Type}

namespace Task

def run : Task F α → Shared F → Stop F α × Shared F
  | .done a, s => (.finished a, s)
  | .await k, s => (.suspended k, s)
  | .read k, s => (k s.fields).run s
  | .reset id k, s => k.run { s with visited := [id] }
  | .check ref cycle next, s => if ref ∈ s.visited then cycle.run s else next.run s
  | .visit ref k, s => k.run { s with visited := ref :: s.visited }

def alone : Task F α → Shared F → α
  | .done a, _ => a
  | .await k, s => k.alone s
  | .read k, s => (k s.fields).alone s
  | .reset id k, s => k.alone { s with visited := [id] }
  | .check ref cycle next, s => if ref ∈ s.visited then cycle.alone s else next.alone s
  | .visit ref k, s => k.alone { s with visited := ref :: s.visited }

/-- The awaits of `_fetch_sources`. -/
def awaits : ℕ → Task F α → Task F α
  | 0, k => k
  | n + 1, k => .await (awaits n k)

end Task

/-- `_execute_subworkflow`, once the id is resolved: the steps of the policy and what follows them,
    or what follows an error. -/
def executeSubworkflow (ref : String) (subPolicy : Option (Task F α)) (failed : Task F α) :
    Task F α :=
  .check ref failed (match subPolicy with
    | some body => .visit ref body
    | none => failed)

/-! ### Batches -/

structure Item (F α : Type) where
  fetches : ℕ
  steps : Task F α

structure Batch (F α : Type) where
  policyId : String
  /-- What `execute` sets, from the policy and the storage. -/
  fields : F
  concurrency : ℕ
  /-- `items[:batch_size]`. -/
  items : List (Item F α)

/-- `PolicyExecutor.execute`, after it has set the fields. -/
def Batch.execute (b : Batch F α) (item : Item F α) : Task F α :=
  .awaits item.fetches (.reset b.policyId item.steps)

def Batch.fresh (b : Batch F α) : Shared F := ⟨[], b.fields⟩

/-- The outcome of an item on an executor of its own. -/
def Batch.alone (b : Batch F α) (item : Item F α) : α := (b.execute item).alone b.fresh

/-- A running item has what is left of it, and the fields as they would be alone. -/
inductive Phase (F α : Type)
  | waiting
  | running (task : Task F α) (own : Shared F)
  | finished (outcome : α)

def Phase.isRunning : Phase F α → Bool
  | .running _ _ => true
  | _ => false

structure State (F α : Type) where
  shared : Shared F
  phase : ℕ → Phase F α

/-- `PolicyExecutor(storage)`. -/
def State.init (fields : F) : State F α := ⟨⟨[], fields⟩, fun _ => .waiting⟩

inductive Act
  | start (i : ℕ)
  | resume (i : ℕ)

def State.active (s : State F α) (b : Batch F α) : ℕ :=
  (List.range b.items.length).countP fun i => (s.phase i).isRunning

/-- Item `i` runs on the shared executor, and beside it as it would alone. -/
def State.advance (s : State F α) (i : ℕ) (task : Task F α) (own : Shared F) : State F α where
  shared := (task.run s.shared).2
  phase := Function.update s.phase i
    (match (task.run s.shared).1 with
      | .finished a => .finished a
      | .suspended k => .running k (task.run own).2)

def step (b : Batch F α) (s : State F α) (a : Act) : Option (State F α) :=
  match a with
  | .start i =>
    match b.items[i]?, s.phase i with
    | some item, .waiting =>
      if s.active b < b.concurrency then
        some ({ s with shared := { s.shared with fields := b.fields } }.advance i
          (b.execute item) b.fresh)
      else none
    | _, _ => none
  | .resume i =>
    match s.phase i with
    | .running task own => some (s.advance i task own)
    | _ => none

/-- Every item that has ended has ended as it does alone. -/
def Independent (b : Batch F α) (s : State F α) : Prop :=
  ∀ i item a, b.items[i]? = some item → s.phase i = .finished a → a = b.alone item

/-- Up to the next await: what is asked of the set is answered by the one as by the other. -/
def Task.Alike (fields : F) : Task F α → List String → List String → Prop
  | .done _, _, _ => True
  | .await _, _, _ => True
  | .read k, v, o => (k fields).Alike fields v o
  | .reset id k, _, _ => k.Alike fields [id] [id]
  | .check ref cycle next, v, o =>
    (ref ∈ v ↔ ref ∈ o) ∧ if ref ∈ o then cycle.Alike fields v o else next.Alike fields v o
  | .visit ref k, v, o => k.Alike fields (ref :: v) (ref :: o)

/-- An item that goes on finds in the set, where it asks, what it would find there alone. -/
def Apart (b : Batch F α) (s : State F α) : Act → Prop
  | .start i => ∀ item, b.items[i]? = some item →
      (b.execute item).Alike b.fields s.shared.visited []
  | .resume i => ∀ task own, s.phase i = .running task own →
      task.Alike b.fields s.shared.visited own.visited

/-! ### A run up to its next await -/

variable {b : Batch F α} {s s' : State F α}

namespace Task

theorem run_fields (t : Task F α) : ∀ s : Shared F, (t.run s).2.fields = s.fields := by
  induction t with
  | done a => exact fun s => rfl
  | await k ih => exact fun s => rfl
  | read k ih => exact fun s => ih s.fields s
  | reset id k ih => exact fun s => ih { s with visited := [id] }
  | check ref cycle next ihc ihn =>
    intro s
    rw [run]
    split
    · exact ihc s
    · exact ihn s
  | visit ref k ih => exact fun s => ih { s with visited := ref :: s.visited }

theorem run_alike {fields : F} (t : Task F α) : ∀ v o, t.Alike fields v o →
    (t.run ⟨v, fields⟩).1 = (t.run ⟨o, fields⟩).1 := by
  induction t with
  | done a => exact fun v o _ => rfl
  | await k ih => exact fun v o _ => rfl
  | read k ih => exact fun v o h => ih fields v o h
  | reset id k ih => exact fun v o h => ih [id] [id] h
  | check ref cycle next ihc ihn =>
    rintro v o ⟨hiff, h⟩
    grind [run]
  | visit ref k ih => exact fun v o h => ih (ref :: v) (ref :: o) h

theorem alike_self (fields : F) (t : Task F α) : ∀ v, t.Alike fields v v := by
  induction t with
  | done a => exact fun v => trivial
  | await k ih => exact fun v => trivial
  | read k ih => exact fun v => ih fields v
  | reset id k ih => exact fun v => ih [id]
  | check ref cycle next ihc ihn =>
    intro v
    refine ⟨Iff.rfl, ?_⟩
    split
    · exact ihc v
    · exact ihn v
  | visit ref k ih => exact fun v => ih (ref :: v)

end Task

def Stop.alone : Stop F α → Shared F → α
  | .finished a, _ => a
  | .suspended k, s => k.alone s

theorem alone_run (t : Task F α) : ∀ s : Shared F, t.alone s = (t.run s).1.alone (t.run s).2 := by
  induction t with
  | done a => exact fun s => rfl
  | await k ih => exact fun s => rfl
  | read k ih => exact fun s => ih s.fields s
  | reset id k ih => exact fun s => ih { s with visited := [id] }
  | check ref cycle next ihc ihn => grind [Task.alone, Task.run]
  | visit ref k ih => exact fun s => ih { s with visited := ref :: s.visited }

/-! ### Every run -/

/-- A running item ends alone as it would have from its start. -/
def PhaseOk (b : Batch F α) (s : State F α) (item : Item F α) : Phase F α → Prop
  | .waiting => True
  | .running task own => own.fields = b.fields ∧ s.shared.fields = b.fields ∧
      task.alone own = b.alone item
  | .finished a => a = b.alone item

def Inv (b : Batch F α) (s : State F α) : Prop :=
  ∀ (i : ℕ) item, b.items[i]? = some item → PhaseOk b s item (s.phase i)

theorem inv_init (fields : F) : Inv b (State.init fields) := fun _ _ _ => trivial

theorem Inv.advance (hi : Inv b s) {i : ℕ} {item : Item F α} {task : Task F α} {own : Shared F}
    (hitem : b.items[i]? = some item) (hown : own.fields = b.fields)
    (hshared : s.shared.fields = b.fields) (halone : task.alone own = b.alone item)
    (halike : task.Alike b.fields s.shared.visited own.visited) :
    Inv b (s.advance i task own) := by
  have hstop : (task.run s.shared).1 = (task.run own).1 := by
    have hrun := task.run_alike _ _ halike
    rw [show (⟨own.visited, b.fields⟩ : Shared F) = own from hown ▸ rfl, ← hshared] at hrun
    exact hrun
  have hfields : (s.advance i task own).shared.fields = b.fields :=
    (task.run_fields s.shared).trans hshared
  intro j other hother
  by_cases hj : j = i
  · subst hj
    rw [hitem] at hother
    cases hother
    rw [alone_run, ← hstop] at halone
    show PhaseOk b _ item (Function.update s.phase j _ j)
    rw [Function.update_self]
    cases hrun : (task.run s.shared).1 with
    | finished a =>
      rw [hrun] at halone
      exact halone
    | suspended k =>
      rw [hrun] at halone
      exact ⟨(task.run_fields own).trans hown, hfields, halone⟩
  · have hold := hi j other hother
    show PhaseOk b _ other (Function.update s.phase i _ j)
    rw [Function.update_of_ne hj]
    cases hph : s.phase j with
    | waiting => trivial
    | running t o =>
      rw [hph] at hold
      exact ⟨hold.1, hfields, hold.2.2⟩
    | finished a =>
      rw [hph] at hold
      exact hold

theorem Inv.setFields (hi : Inv b s) :
    Inv b { s with shared := { s.shared with fields := b.fields } } := by
  intro i item hitem
  have hold := hi i item hitem
  cases hph : s.phase i with
  | waiting => exact trivial
  | running t o =>
    rw [hph] at hold
    exact ⟨hold.1, rfl, hold.2.2⟩
  | finished a =>
    rw [hph] at hold
    exact hold

theorem step_cases {a : Act} (hs : step b s a = some s') :
    (∃ i item, a = .start i ∧ b.items[i]? = some item ∧ s.phase i = .waiting ∧
      s.active b < b.concurrency ∧
      s' = { s with shared := { s.shared with fields := b.fields } }.advance i (b.execute item)
        b.fresh) ∨
    (∃ i task own, a = .resume i ∧ s.phase i = .running task own ∧ s' = s.advance i task own) := by
  cases a with
  | start i => grind [step]
  | resume i => grind [step]

theorem running_mem {f : F} {ok : State F α → Act → Prop} (h : Reach (step b) ok (State.init f) s) :
    ∀ i task own, s.phase i = .running task own → ∃ item, b.items[i]? = some item := by
  refine h.invariant (I := fun s : State F α => ∀ i task own, s.phase i = .running task own →
    ∃ item, b.items[i]? = some item) (fun _ _ _ h => by cases h) ?_
  intro s a s' hall _ hs j task own hj
  obtain ⟨i, item, -, hitem, -, -, rfl⟩ | ⟨i, t, o, -, hph, rfl⟩ := step_cases hs
  · by_cases hji : j = i
    · exact ⟨item, hji ▸ hitem⟩
    · change Function.update s.phase i _ j = _ at hj
      grind
  · by_cases hji : j = i
    · exact hall j t o (hji ▸ hph)
    · change Function.update s.phase i _ j = _ at hj
      grind

theorem inv_reach {f : F} (h : Reach (step b) (Apart b) (State.init f) s) :
    Inv b s ∧ ∀ i task own, s.phase i = .running task own → ∃ item, b.items[i]? = some item := by
  refine ⟨?_, running_mem h⟩
  induction h with
  | start => exact inv_init f
  | next hreach hok hs ih =>
    obtain ⟨i, item, rfl, hitem, -, -, rfl⟩ | ⟨i, task, own, rfl, hph, rfl⟩ := step_cases hs
    · exact ih.setFields.advance hitem rfl rfl rfl (hok item hitem)
    · obtain ⟨item, hitem⟩ := running_mem hreach i task own hph
      have hold := ih i item hitem
      rw [hph] at hold
      exact ih.advance hitem hold.1 hold.2.1 hold.2.2 (hok task own hph)

end Runs

/-- **Items apart.**  In every run of a batch in which each item that goes on finds in the set of
    visited policies, where it asks, what it would find there alone, each item that has ended has
    the outcome that it has alone. -/
theorem outcomes_alone {F α : Type} (b : Batch F α) (f : F) {s : State F α}
    (h : Reach (step b) (Apart b) (State.init f) s) : Independent b s := by
  intro i item a hitem hph
  have hold := (inv_reach h).1 i item hitem
  rwa [hph] at hold

section Alone
variable {F α : Type} {b : Batch F α} {s s' : State F α}

theorem alike_awaits (fields : F) (id : String) (k : Task F α) (n : ℕ) (v o : List String) :
    (Task.awaits n (.reset id k)).Alike fields v o := by
  cases n with
  | zero => exact k.alike_self fields [id]
  | succ n => trivial

end Alone

/-! ### Two items in one sub-workflow -/

/-- A request, a sub-workflow, and an outcome; a step that fails closed sends it to review. -/
def requested : Task Unit String :=
  .await (executeSubworkflow "kyc" (some (.done "approve")) (.done "review"))

def twoItems (concurrency : ℕ) : Batch Unit String :=
  ⟨"loan", (), concurrency, [⟨0, requested⟩, ⟨0, requested⟩]⟩

/-- **One item sends another to review.**  Both are at their request when the first goes on and
    enters the sub-workflow; the second then takes it for a cycle. -/
theorem second_item_reviewed : ∃ s, Reachable (step (twoItems 5)) (State.init ()) s ∧
    s.phase 0 = .finished "approve" ∧ s.phase 1 = .finished "review" ∧
    (twoItems 5).alone ⟨0, requested⟩ = "approve" ∧ ¬ Independent (twoItems 5) s := by
  obtain ⟨s, hs, hfirst, hsecond⟩ : ∃ s, exec (step (twoItems 5)) (State.init ())
      [.start 0, .start 1, .resume 0, .resume 1] = some s ∧
        s.phase 0 = .finished "approve" ∧ s.phase 1 = .finished "review" := ⟨_, rfl, rfl, rfl⟩
  have halone : (twoItems 5).alone ⟨0, requested⟩ = "approve" := rfl
  refine ⟨s, reachable_exec hs, hfirst, hsecond, halone, fun h => ?_⟩
  have heq := h 1 ⟨0, requested⟩ "review" rfl hsecond
  rw [halone] at heq
  exact absurd heq (by decide)

/-- The first item has ended before the second starts. -/
theorem apart_items_alone : ∃ s, exec (step (twoItems 5)) (State.init ())
    [.start 0, .resume 0, .start 1, .resume 1] = some s ∧ s.phase 1 = .finished "approve" ∧
      Independent (twoItems 5) s := by
  have halong : Along (step (twoItems 5)) (Apart (twoItems 5)) (State.init ())
      [.start 0, .resume 0, .start 1, .resume 1] := by
    refine .cons ?_ rfl (.cons ?_ rfl (.cons ?_ rfl (.cons ?_ rfl trivial)))
    · intro item _
      exact alike_awaits _ _ _ _ _ _
    · intro task own h
      cases h
      exact Task.alike_self _ _ _
    · intro item _
      exact alike_awaits _ _ _ _ _ _
    · intro task own h
      cases h
      exact Task.alike_self _ _ _
  obtain ⟨s, hs, hsecond⟩ : ∃ s, exec (step (twoItems 5)) (State.init ())
      [.start 0, .resume 0, .start 1, .resume 1] = some s ∧
        s.phase 1 = .finished "approve" := ⟨_, rfl, rfl⟩
  exact ⟨s, hs, hsecond, outcomes_alone (twoItems 5) () (reach_exec hs halong)⟩

end RuleMind.Cron
