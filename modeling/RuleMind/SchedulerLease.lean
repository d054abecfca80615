/-
  Leader election of the scheduler: `_renew_leadership` and the leader-only wrappers of
  `app/scheduler.py`, over the lease of `app/storage.py`.

  Any number of replicas take turns at their steps, and time passes between any two of them.  A
  renewal reads the clock, then the lease, and assigns the flag last; a job reads the flag and
  starts later.  An UPDATE holds the row until its commit, so that the two are one step.
-/
import RuleMind.Lib.Run
import Mathlib.Data.Int.Basic

namespace RuleMind.Scheduler

open Lib

/-! ### The lease and the replicas -/

/-- The row `singleton`. -/
structure Lease where
  owner : String
  leaseUntil : ℤ
  deriving DecidableEq

/-- Where a call of `_renew_leadership` stands. -/
inductive Renewal
  | idle
  /-- The clock is read. -/
  | read (now : ℤ)
  /-- The update has hit no row. -/
  | missed (now : ℤ)
  /-- `session.get` has found no row. -/
  | absent (now : ℤ)
  | answered (held : Bool)
  deriving DecidableEq

inductive Shutdown
  | running
  /-- The flag was set. -/
  | leading
  | read (now : ℤ)
  | done
  deriving DecidableEq

structure Start where
  replica : String
  job : String
  time : ℤ
  lease : Option Lease
  deriving DecidableEq

structure State where
  now : ℤ
  lease : Option Lease
  renewal : String → Renewal
  isLeader : String → Bool
  shutdown : String → Shutdown
  /-- A job of a replica is past its check of the flag. -/
  checked : String → String → Bool
  starts : List Start
  /-- The end of the lease as a replica has itself written it last. -/
  written : String → Option ℤ

inductive Action
  | wait (seconds : ℕ)
  | renew (r : String)
  /-- A statement of the renewal raises. -/
  | fail (r : String)
  | fire (r job : String)
  | start (r job : String)
  | shutdown (r : String)
  deriving DecidableEq

/-- The replica writes its name and an end into the lease. -/
def State.write (s : State) (r : String) (leaseUntil : ℤ) : State :=
  { s with
    lease := some ⟨r, leaseUntil⟩
    written := Function.update s.written r (some leaseUntil) }

def State.setRenewal (s : State) (r : String) (p : Renewal) : State :=
  { s with renewal := Function.update s.renewal r p }

def State.setShutdown (s : State) (r : String) (p : Shutdown) : State :=
  { s with shutdown := Function.update s.shutdown r p }

def State.setLeader (s : State) (r : String) (held : Bool) : State :=
  { s with isLeader := Function.update s.isLeader r held }.setRenewal r .idle

/-- `WHERE owner = :owner OR lease_until < :now`. -/
def Lease.takes (l : Lease) (r : String) (now : ℤ) : Bool := l.owner = r || l.leaseUntil < now

/-- The next step of `_renew_leadership`. -/
def renewStep (ttl : ℤ) (s : State) (r : String) : State :=
  match s.renewal r with
  | .idle => s.setRenewal r (.read s.now)
  | .read now =>
    if s.lease.any (·.takes r now) then (s.write r (now + ttl)).setRenewal r (.answered true)
    else s.setRenewal r (.missed now)
  | .missed now =>
    if s.lease.isNone then s.setRenewal r (.absent now) else s.setRenewal r (.answered false)
  | .absent now =>
    -- a row inserted meanwhile raises the `IntegrityError`
    if s.lease.isNone then (s.write r (now + ttl)).setRenewal r (.answered true)
    else s.setRenewal r (.answered false)
  | .answered held => s.setLeader r held

/-- The next step of the shutdown, with `release_scheduler_lease`. -/
def shutdownStep (s : State) (r : String) : Option State :=
  match s.shutdown r with
  | .running => some (s.setShutdown r (if s.isLeader r then .leading else .done))
  | .leading => some (s.setShutdown r (.read s.now))
  | .read now => some ((if s.lease.any (·.owner = r) then s.write r now else s).setShutdown r .done)
  | .done => none

def step (ttl : ℤ) (s : State) : Action → Option State
  | .wait seconds => some { s with now := s.now + seconds }
  | .renew r => some (renewStep ttl s r)
  | .fail r => if s.renewal r = .idle then none else some (s.setLeader r false)
  | .fire r job =>
    if s.isLeader r then
      some { s with
        checked := Function.update s.checked r (Function.update (s.checked r) job true) }
    else some s
  | .start r job =>
    if s.checked r job then
      some { s with
        checked := Function.update s.checked r (Function.update (s.checked r) job false)
        starts := s.starts ++ [⟨r, job, s.now, s.lease⟩] }
    else none
  | .shutdown r => shutdownStep s r

def State.init (now : ℤ) : State where
  now := now
  lease := none
  renewal _ := .idle
  isLeader _ := false
  shutdown _ := .running
  checked _ _ := false
  starts := []
  written _ := none

/-- The lease names the replica and has not run out. -/
def Start.Held (x : Start) : Prop := ∃ u, x.lease = some ⟨x.replica, u⟩ ∧ x.time ≤ u

/-- Two starts of a job under one holder are by one replica. -/
def OneReplica (starts : List Start) : Prop :=
  ∀ x ∈ starts, ∀ y ∈ starts, x.job = y.job →
    x.lease.map Lease.owner = y.lease.map Lease.owner → x.replica = y.replica

theorem oneReplica_of_held {starts : List Start} (h : ∀ x ∈ starts, x.Held) :
    OneReplica starts := by
  intro x hx y hy _ howner
  obtain ⟨u, hu, -⟩ := h x hx
  obtain ⟨v, hv, -⟩ := h y hy
  rw [hu, hv] at howner
  exact Option.some.inj howner

/-- A job starts no later than the end its replica has itself written last. -/
def Timely (s : State) : Action → Prop
  | .start r _ => ∃ u, s.written r = some u ∧ s.now ≤ u
  | _ => True

/-! ### The lease of every run -/

def Renewal.reading : Renewal → Option ℤ
  | .read now | .missed now | .absent now => some now
  | _ => none

/-- The lease and what the replicas have written into it agree. -/
structure Agree (s : State) : Prop where
  own : ∀ r u, s.lease = some ⟨r, u⟩ → s.written r = some u
  held : ∀ r u, s.written r = some u → s.now ≤ u → s.lease = some ⟨r, u⟩
  past : ∀ r t, (s.renewal r).reading = some t → t ≤ s.now

variable {ttl : ℤ} {s s' : State} {r : String}

theorem agree_init (now : ℤ) : Agree (State.init now) where
  own _ _ h := by cases h
  held _ _ h := by cases h
  past _ _ h := by cases h

theorem Agree.wait (h : Agree s) (seconds : ℕ) : Agree { s with now := s.now + seconds } where
  own := h.own
  held r u hu hle := h.held r u hu (by simp only at hle; omega)
  past r t ht := by
    have hle := h.past r t ht
    simp only
    omega

theorem Agree.write (h : Agree s)
    (hfree : ∀ l, s.lease = some l → l.owner = r ∨ l.leaseUntil < s.now) (u : ℤ) :
    Agree (s.write r u) where
  past := h.past
  own r' u' hl := by
    cases hl
    exact Function.update_self ..
  held r' u' hw hle := by
    have hw : Function.update s.written r (some u) r' = some u' := hw
    by_cases hr : r' = r
    · subst hr
      rw [Function.update_self] at hw
      cases hw
      rfl
    · rw [Function.update_of_ne hr] at hw
      -- the other replica still holds the lease, so that nobody else can take it
      rcases hfree _ (h.held r' u' hw hle) with howner | hlt
      · exact absurd howner hr
      · have hle : s.now ≤ u' := hle
        have hlt : u' < s.now := hlt
        omega

theorem Agree.setRenewal (h : Agree s) {p : Renewal}
    (hp : ∀ t, p.reading = some t → t ≤ s.now) : Agree (s.setRenewal r p) where
  own := h.own
  held := h.held
  past r' t ht := by
    by_cases hr : r' = r
    · subst hr
      have hself : (s.setRenewal r' p).renewal r' = p := Function.update_self ..
      rw [hself] at ht
      exact hp t ht
    · have hother : (s.setRenewal r p).renewal r' = s.renewal r' := Function.update_of_ne hr ..
      rw [hother] at ht
      exact h.past r' t ht

theorem Agree.congr (h : Agree s) (hnow : s'.now = s.now) (hlease : s'.lease = s.lease)
    (hrenewal : s'.renewal = s.renewal) (hwritten : s'.written = s.written) : Agree s' where
  own r u := by rw [hlease, hwritten]; exact h.own r u
  held r u := by rw [hlease, hwritten, hnow]; exact h.held r u
  past r t := by rw [hrenewal, hnow]; exact h.past r t

theorem Agree.setLeader (h : Agree s) (held : Bool) : Agree (s.setLeader r held) :=
  have hstate : Agree { s with isLeader := Function.update s.isLeader r held } :=
    h.congr rfl rfl rfl rfl
  hstate.setRenewal fun _ ht => by cases ht

theorem Agree.renewStep (h : Agree s) (r : String) : Agree (renewStep ttl s r) := by
  have hpast := h.past r
  rw [Scheduler.renewStep]
  cases hp : s.renewal r with
  | idle =>
    refine h.setRenewal fun t ht => ?_
    cases ht
    exact Int.le_refl _
  | read now =>
    rw [hp] at hpast
    have hle : now ≤ s.now := hpast now rfl
    simp only
    split
    · rename_i htakes
      refine (h.write ?_ _).setRenewal fun _ ht => by cases ht
      grind [Lease.takes]
    · exact h.setRenewal fun t ht => by cases ht; exact hle
  | missed now =>
    rw [hp] at hpast
    simp only
    split
    · exact h.setRenewal fun t ht => by cases ht; exact hpast _ rfl
    · exact h.setRenewal fun _ ht => by cases ht
  | absent now =>
    simp only
    split
    · rename_i hnone
      refine (h.write ?_ _).setRenewal fun _ ht => by cases ht
      intro l hl
      rw [hl] at hnone
      cases hnone
    · exact h.setRenewal fun _ ht => by cases ht
  | answered held => exact h.setLeader held

theorem Agree.shutdownStep (h : Agree s) (hs : shutdownStep s r = some s') : Agree s' := by
  rw [Scheduler.shutdownStep] at hs
  cases hp : s.shutdown r with
  | running =>
    rw [hp] at hs
    cases hs
    exact h.congr rfl rfl rfl rfl
  | leading =>
    rw [hp] at hs
    cases hs
    exact h.congr rfl rfl rfl rfl
  | read now =>
    rw [hp] at hs
    cases hs
    by_cases howner : s.lease.any (·.owner = r) = true
    · rw [if_pos howner]
      refine (h.write (fun l hl => Or.inl ?_) now).congr rfl rfl rfl rfl
      rw [hl] at howner
      simpa using howner
    · rw [if_neg howner]
      exact h.congr rfl rfl rfl rfl
  | done =>
    rw [hp] at hs
    cases hs

/-- **Every step keeps the lease and the replicas' own writes in agreement.** -/
theorem Agree.step {a : Action} (h : Agree s) (hs : step ttl s a = some s') : Agree s' := by
  cases a with
  | wait seconds =>
    cases hs
    exact h.wait seconds
  | renew r =>
    cases hs
    exact h.renewStep r
  | fail r =>
    rw [Scheduler.step] at hs
    split at hs
    · cases hs
    · cases hs
      exact h.setLeader false
  | fire r job =>
    rw [Scheduler.step] at hs
    split at hs
    · cases hs
      exact h.congr rfl rfl rfl rfl
    · cases hs
      exact h
  | start r job =>
    rw [Scheduler.step] at hs
    split at hs
    · cases hs
      exact h.congr rfl rfl rfl rfl
    · cases hs
  | shutdown r => exact h.shutdownStep hs

/-! ### The starts of a run -/

theorem agree_reachable {now : ℤ} (h : Reachable (step ttl) (State.init now) s) : Agree s :=
  h.invariant (agree_init now) fun _ _ _ hi _ hs => hi.step hs

theorem start_held_iff {now : ℤ} (h : Reachable (step ttl) (State.init now) s) (r job : String) :
    Start.Held ⟨r, job, s.now, s.lease⟩ ↔ Timely s (.start r job) := by
  have hi := agree_reachable h
  constructor
  · rintro ⟨u, hu, hle⟩
    exact ⟨u, hi.own r u hu, hle⟩
  · rintro ⟨u, hu, hle⟩
    exact ⟨u, hi.held r u hu hle, hle⟩

theorem renewStep_starts : (renewStep ttl s r).starts = s.starts := by
  rw [renewStep]
  cases s.renewal r with
  | idle => rfl
  | read now => simp only; split <;> rfl
  | missed now => simp only; split <;> rfl
  | absent now => simp only; split <;> rfl
  | answered held => rfl

theorem shutdownStep_starts (hs : shutdownStep s r = some s') : s'.starts = s.starts := by
  rw [shutdownStep] at hs
  cases hp : s.shutdown r with
  | running => rw [hp] at hs; cases hs; rfl
  | leading => rw [hp] at hs; cases hs; rfl
  | read now =>
    rw [hp] at hs
    cases hs
    show (if _ then _ else _ : State).starts = _
    split <;> rfl
  | done => rw [hp] at hs; cases hs

theorem starts_step {a : Action} (hs : step ttl s a = some s') :
    s'.starts = s.starts ∨
      ∃ r job, a = .start r job ∧ s'.starts = s.starts ++ [⟨r, job, s.now, s.lease⟩] := by
  cases a with
  | wait seconds =>
    cases hs
    exact .inl rfl
  | renew r =>
    cases hs
    exact .inl renewStep_starts
  | fail r =>
    rw [step] at hs
    split at hs
    · cases hs
    · cases hs
      exact .inl rfl
  | fire r job => grind [step]
  | start r job => grind [step]
  | shutdown r => exact .inl (shutdownStep_starts hs)

/-- **Jobs start on the holder.**  In a run whose starts are all in time, each start is by the
    replica that the unexpired lease names, and under one holder a job starts on one replica. -/
theorem starts_held {now : ℤ} (h : Reach (step ttl) Timely (State.init now) s) :
    (∀ x ∈ s.starts, x.Held) ∧ OneReplica s.starts := by
  have hall : ∀ x ∈ s.starts, x.Held := by
    induction h with
    | start =>
      intro x hx
      cases hx
    | @next s a s' hreach hok hs ih =>
      rcases starts_step hs with hsame | ⟨r, job, rfl, hnew⟩
      · rw [hsame]
        exact ih
      · rw [hnew]
        intro x hx
        rcases List.mem_append.1 hx with hx | hx
        · exact ih x hx
        · rw [List.mem_singleton.1 hx]
          exact (start_held_iff (hreach.mono fun _ _ _ => trivial) r job).2 hok
  exact ⟨hall, oneReplica_of_held hall⟩

def bootAndRun (r job : String) : List Action :=
  [.renew r, .renew r, .renew r, .renew r, .renew r, .fire r job, .start r job]

theorem boot_starts_held :
    ∃ s, exec (step 30) (State.init 0) (bootAndRun "a" "report") = some s ∧
    s.starts = [⟨"a", "report", 0, some ⟨"a", 30⟩⟩] ∧
    (∀ x ∈ s.starts, x.Held) ∧ OneReplica s.starts := by
  refine ⟨_, rfl, rfl, ?_⟩
  have hok : Along (step 30) Timely (State.init 0) (bootAndRun "a" "report") :=
    ⟨trivial, trivial, trivial, trivial, trivial, trivial, ⟨30, rfl, by decide⟩, trivial⟩
  exact starts_held (reach_exec rfl hok)

/-- A leader paused past the end of its lease, between the flag and the start. -/
theorem paused_leader_starts :
    ∃ s, exec (step 30) (State.init 0)
      (([.renew "a", .renew "a", .renew "a", .renew "a", .renew "a", .fire "a" "report",
          .wait 31] : List Action) ++
        ([.renew "b", .renew "b", .renew "b", .fire "b" "report", .start "b" "report",
          .start "a" "report"] : List Action)) = some s ∧
      s.starts = [⟨"b", "report", 31, some ⟨"b", 61⟩⟩, ⟨"a", "report", 31, some ⟨"b", 61⟩⟩] ∧
      (¬ ∀ x ∈ s.starts, x.Held) ∧ ¬ OneReplica s.starts := by
  refine ⟨_, rfl, rfl, fun hall => ?_, fun hone => ?_⟩
  · obtain ⟨u, hu, -⟩ := hall ⟨"a", "report", 31, some ⟨"b", 61⟩⟩ (.tail _ (.head _))
    simp_all
  · have hsame := hone ⟨"b", "report", 31, some ⟨"b", 61⟩⟩ (.head _)
      ⟨"a", "report", 31, some ⟨"b", 61⟩⟩ (.tail _ (.head _)) rfl rfl
    exact absurd hsame (by decide)

end RuleMind.Scheduler
