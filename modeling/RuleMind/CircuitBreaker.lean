/-
  The circuit breaker of `app/circuit_breaker.py` and the calls that pass its gate:
  `_fire_action_request` (`app/executor.py`) and `fetch_source`
  (`app/connector_fetch.py`).

  A call takes a slot at `allow` where the breaker is half-open, and gives it back with
  the result it records.  Between the two it waits for name resolution and for answers,
  and other calls run; an action of the system is the gate of one call, or its end on
  any of its exit paths.  Clocks are read where the code reads them, in any order.
-/
import RuleMind.Lib.Run
import Mathlib.Data.List.Count
import Mathlib.Tactic.Linarith

namespace RuleMind.CircuitBreaker

/-! ### The breaker -/

structure Config where
  failureThreshold : ℕ
  recoverySeconds : ℚ
  halfOpenMaxCalls : ℕ
  half_open_pos : 0 < halfOpenMaxCalls

inductive Phase
  | closed
  | opened
  | halfOpen
  deriving DecidableEq, Repr

/-- `period` counts how often the breaker has turned half-open; the code does not keep it. -/
structure Breaker where
  phase : Phase
  consecutiveFailures : ℕ
  openedAt : ℚ
  halfOpenCalls : ℕ
  trips : ℕ
  shortCircuits : ℕ
  period : ℕ
  deriving DecidableEq, Repr

/-- `CircuitOpenError`. -/
structure CircuitOpen where
  retryAfter : ℚ
  deriving DecidableEq, Repr

namespace Breaker
variable (cfg : Config)

def init : Breaker := ⟨.closed, 0, 0, 0, 0, 0, 0⟩

/-- `_observed_state`: an open breaker turns half-open once it is looked at late enough. -/
def observedState (b : Breaker) (now : ℚ) : Breaker :=
  if b.phase = .opened ∧ now - b.openedAt ≥ cfg.recoverySeconds then
    { b with phase := .halfOpen, halfOpenCalls := 0, period := b.period + 1 }
  else b

def shortCircuit (b : Breaker) (retryAfter : ℚ) : Except CircuitOpen Unit × Breaker :=
  (.error ⟨retryAfter⟩, { b with shortCircuits := b.shortCircuits + 1 })

def allow (b : Breaker) (now : ℚ) : Except CircuitOpen Unit × Breaker :=
  let b := b.observedState cfg now
  match b.phase with
  | .opened => b.shortCircuit (cfg.recoverySeconds - (now - b.openedAt))
  | .halfOpen =>
    if b.halfOpenCalls ≥ cfg.halfOpenMaxCalls then b.shortCircuit cfg.recoverySeconds
    else (.ok (), { b with halfOpenCalls := b.halfOpenCalls + 1 })
  | .closed => (.ok (), b)

def recordSuccess (b : Breaker) : Breaker :=
  { b with phase := .closed, consecutiveFailures := 0, halfOpenCalls := 0 }

def trip (b : Breaker) (now : ℚ) : Breaker :=
  { b with phase := .opened, openedAt := now, trips := b.trips + 1 }

def recordFailure (b : Breaker) (now : ℚ) : Breaker :=
  let b := b.observedState cfg now
  if b.phase = .halfOpen then b.trip now
  else
    let b := { b with consecutiveFailures := b.consecutiveFailures + 1 }
    if b.consecutiveFailures ≥ cfg.failureThreshold then b.trip now else b

end Breaker

/-! ### How a call ends -/

inductive Record
  | success
  | failure
  deriving DecidableEq, Repr

inductive Resolution
  | pinned
  | timedOut
  | blocked
  | raised
  deriving DecidableEq, Repr

/-- One turn of the loop over the attempts.  A connection error is caught; what is raised
    between two attempts, or before the first, escapes. -/
inductive Attempt
  | answered (status : ℕ)
  | failed
  | escaped
  deriving DecidableEq, Repr

/-- The attempts of `_fire_action_request`, as many as the loop makes. -/
def recordOfAttempts : List Attempt → Option Record
  | [] => some .failure
  | .answered status :: attempts =>
    if 200 ≤ status ∧ status < 300 then some .success else recordOfAttempts attempts
  | .failed :: attempts => recordOfAttempts attempts
  | .escaped :: _ => none

/-- What `_fire_action_request` records after the gate. -/
def fireActionRequest (resolution : Resolution) (attempts : List Attempt) : Option Record :=
  match resolution with
  | .pinned => recordOfAttempts attempts
  | .timedOut => none
  | .blocked => some .failure
  | .raised => none

/-- `_TransportFailed`, without the status code. -/
structure TransportFailed where
  outcome : String
  reason : String
  blocked : Bool
  deriving DecidableEq, Repr

inductive Mapping
  | payload
  | misconfigured
  | raised
  deriving DecidableEq, Repr

/-- What `_send` comes to, and the mapping of the answer. -/
inductive Sent
  | answered (mapping : Mapping)
  | failed (f : TransportFailed)
  | raised
  deriving DecidableEq, Repr

/-- `needle in text`. -/
def textIn (needle text : String) : Bool :=
  text.toList.tails.any fun rest => needle.toList.isPrefixOf rest

/-- The failure is the downstream's, not that of our clock. -/
def chargeToDownstream (f : TransportFailed) : Bool :=
  f.outcome != "timeout" || !textIn "budget" f.reason

/-- What `fetch_source` records after the gate. -/
def fetchSource : Sent → Option Record
  | .failed f => if chargeToDownstream f && !f.blocked then some .failure else none
  | .answered .payload => some .success
  | .answered .misconfigured => some .success
  | .answered .raised => none
  | .raised => none

inductive Exit
  | action (resolution : Resolution) (attempts : List Attempt)
  | fetch (sent : Sent)
  deriving DecidableEq, Repr

def Exit.record : Exit → Option Record
  | .action resolution attempts => fireActionRequest resolution attempts
  | .fetch sent => fetchSource sent

/-! ### The calls of one breaker -/

/-- The breaker, and the calls in flight: for each the half-open period that admitted it
    as a probe, if one did. -/
structure State where
  breaker : Breaker
  inFlight : List (Option ℕ)
  deriving DecidableEq, Repr

inductive Action
  /-- a call reaches the gate -/
  | arrive (now : ℚ)
  /-- a call in flight ends -/
  | leave (call : Option ℕ) (now : ℚ) (exit : Exit)
  /-- `state`, or a snapshot -/
  | observe (now : ℚ)
  deriving DecidableEq, Repr

namespace State

def init : State := ⟨.init, []⟩

/-- The probes of the period that has not ended yet. -/
def probes (s : State) : ℕ := s.inFlight.count (some s.breaker.period)

end State

section
variable (cfg : Config)

def settle (b : Breaker) (now : ℚ) : Option Record → Breaker
  | some .success => b.recordSuccess
  | some .failure => b.recordFailure cfg now
  | none => b

def slot (b : Breaker) : Option ℕ := if b.phase = .halfOpen then some b.period else none

def step (s : State) : Action → Option State
  | .arrive now =>
    match s.breaker.allow cfg now with
    | (.ok (), b) => some ⟨b, slot b :: s.inFlight⟩
    | (.error _, b) => some ⟨b, s.inFlight⟩
  | .leave call now exit =>
    if call ∈ s.inFlight then some ⟨settle cfg s.breaker now exit.record, s.inFlight.erase call⟩
    else none
  | .observe now => some ⟨s.breaker.observedState cfg now, s.inFlight⟩

/-- No probe of a half-open breaker ends without recording a result. -/
def Recorded (s : State) : Action → Prop
  | .leave call _ exit =>
    s.breaker.phase = .halfOpen ∧ call = some s.breaker.period → exit.record ≠ none
  | _ => True

instance (s : State) (a : Action) : Decidable (Recorded s a) := by
  cases a <;> unfold Recorded <;> infer_instance

/-- The slots in use are the probes in flight, and with no call in flight a half-open
    breaker admits the next. -/
structure Paired (s : State) : Prop where
  slots : s.breaker.phase = .halfOpen → s.breaker.halfOpenCalls = s.probes
  admits : ∀ now, s.inFlight = [] → (s.breaker.observedState cfg now).phase = .halfOpen →
    (s.breaker.allow cfg now).1 = .ok ()

end

/-! ### The pairing -/

section Pairing
variable {cfg : Config}

/-- No probe comes from a period that is still to come. -/
structure Inv (s : State) : Prop where
  past : ∀ p, some p ∈ s.inFlight → p ≤ s.breaker.period
  slots : s.breaker.phase = .halfOpen → s.breaker.halfOpenCalls = s.probes

theorem observedState_cases (cfg : Config) (b : Breaker) (now : ℚ) :
    b.observedState cfg now = b ∨
      b.phase = .opened ∧ b.observedState cfg now =
        { b with phase := .halfOpen, halfOpenCalls := 0, period := b.period + 1 } := by
  unfold Breaker.observedState
  grind

theorem allow_cases {b seen : Breaker} {now : ℚ} (hseen : b.observedState cfg now = seen) :
    (∃ r, b.allow cfg now = seen.shortCircuit r ∧
      (seen.phase = .halfOpen → cfg.halfOpenMaxCalls ≤ seen.halfOpenCalls)) ∨
    (seen.phase = .closed ∧ b.allow cfg now = (.ok (), seen)) ∨
    (seen.phase = .halfOpen ∧
      b.allow cfg now = (.ok (), { seen with halfOpenCalls := seen.halfOpenCalls + 1 })) := by
  unfold Breaker.allow
  grind

theorem recordFailure_phase (cfg : Config) (b : Breaker) (now : ℚ) :
    (b.recordFailure cfg now).phase ≠ .halfOpen ∧ b.period ≤ (b.recordFailure cfg now).period := by
  have hperiod : b.period ≤ (b.observedState cfg now).period := by
    rcases observedState_cases cfg b now with h | ⟨-, h⟩
    · rw [h]
    · rw [h]
      exact Nat.le_succ _
  grind [Breaker.recordFailure, Breaker.trip]

theorem inv_init : Inv State.init := ⟨(fun _ h => nomatch h), (fun h => nomatch h)⟩

theorem Inv.observe {s : State} (hi : Inv s) (cfg : Config) (now : ℚ) :
    Inv ⟨s.breaker.observedState cfg now, s.inFlight⟩ := by
  rcases observedState_cases cfg s.breaker now with h | ⟨-, h⟩
  · rw [h]
    exact hi
  · rw [h]
    refine ⟨fun p hp => (hi.past p hp).trans (Nat.le_succ _), fun _ => ?_⟩
    -- the period is new: no call in flight was admitted in it
    symm
    refine List.count_eq_zero.2 fun hmem => ?_
    exact absurd (hi.past _ hmem) (by simp)

theorem Inv.record {s : State} {call : Option ℕ} {exit : Exit} {now : ℚ} (hi : Inv s)
    (hok : s.breaker.phase = .halfOpen ∧ call = some s.breaker.period → exit.record ≠ none) :
    Inv ⟨settle cfg s.breaker now exit.record, s.inFlight.erase call⟩ := by
  have hpast : ∀ {p}, some p ∈ s.inFlight.erase call → p ≤ s.breaker.period := fun h =>
    hi.past _ (List.mem_of_mem_erase h)
  cases hr : exit.record with
  | none =>
    refine ⟨fun p hp => hpast hp, fun hphase => ?_⟩
    have hne : call ≠ some s.breaker.period := fun h => hok ⟨hphase, h⟩ hr
    exact (hi.slots hphase).trans (List.count_erase_of_ne hne.symm).symm
  | some r =>
    cases r with
    | success => exact ⟨fun p hp => hpast hp, fun h => nomatch h⟩
    | failure =>
      obtain ⟨hphase, hperiod⟩ := recordFailure_phase cfg s.breaker now
      exact ⟨fun p hp => (hpast hp).trans hperiod, fun h => absurd h hphase⟩

theorem step_inv {s s' : State} {a : Action} (hi : Inv s) (hok : Recorded s a)
    (h : step cfg s a = some s') : Inv s' := by
  cases a with
  | observe now =>
    cases h
    exact hi.observe cfg now
  | leave call now exit =>
    simp only [step] at h
    split at h
    · cases h
      exact hi.record hok
    · cases h
  | arrive now =>
    have hseen : Inv ⟨s.breaker.observedState cfg now, s.inFlight⟩ := hi.observe cfg now
    simp only [step] at h
    rcases allow_cases (rfl : s.breaker.observedState cfg now = _) with
      ⟨r, hallow, -⟩ | ⟨hphase, hallow⟩ | ⟨hphase, hallow⟩
    · rw [hallow] at h
      cases h
      exact ⟨hseen.past, hseen.slots⟩
    · rw [hallow] at h
      cases h
      have hslot : slot (s.breaker.observedState cfg now) = none := by simp [slot, hphase]
      rw [hslot]
      refine ⟨fun p hp => hseen.past p ?_, fun h => ?_⟩
      · simpa using hp
      · rw [hphase] at h
        cases h
    · rw [hallow] at h
      cases h
      simp only [slot, hphase, if_true]
      refine ⟨fun p hp => ?_, fun _ => ?_⟩
      · rcases List.mem_cons.1 hp with hp | hp
        · cases hp
          exact le_rfl
        · exact hseen.past p hp
      · show _ + 1 = List.count _ (_ :: _)
        rw [List.count_cons_self, hseen.slots hphase]
        rfl

/-- If every probe records a result, the slots in use are the probes in flight, and a
    half-open breaker with no call in flight admits the next. -/
theorem probes_paired {s : State} (h : Lib.Reach (step cfg) Recorded State.init s) :
    Paired cfg s := by
  have hi : Inv s := Lib.Reach.invariant inv_init (fun _ _ _ hi hok hs => step_inv hi hok hs) h
  refine ⟨hi.slots, fun now hnone hphase => ?_⟩
  have hfree : (s.breaker.observedState cfg now).halfOpenCalls = 0 := by
    rw [(hi.observe cfg now).slots hphase]
    show List.count _ s.inFlight = 0
    rw [hnone]
    rfl
  rcases allow_cases (rfl : s.breaker.observedState cfg now = _) with
    ⟨r, -, hfull⟩ | ⟨-, hok⟩ | ⟨-, hok⟩
  · have := hfull hphase
    have := cfg.half_open_pos
    omega
  · rw [hok]
  · rw [hok]

theorem full_refuses {b : Breaker} (hphase : b.phase = .halfOpen)
    (hfull : cfg.halfOpenMaxCalls ≤ b.halfOpenCalls) (now : ℚ) :
    (b.allow cfg now).1 ≠ .ok () := by
  have hseen : b.observedState cfg now = b := by
    rcases observedState_cases cfg b now with h | ⟨h, -⟩
    · exact h
    · rw [hphase] at h
      cases h
  rcases allow_cases hseen with ⟨r, h, -⟩ | ⟨h, -⟩ | ⟨-, h⟩
  · rw [h]
    exact fun hok => nomatch hok
  · rw [hphase] at h
    cases h
  · unfold Breaker.allow at h
    simp only [hseen, hphase, if_pos hfull] at h
    cases h

end Pairing

/-! ### A probe that times out -/

def defaultConfig : Config := ⟨5, 30, 1, by decide⟩

/-- Five failed requests, and a probe after the cooldown that ends with the given exit. -/
def probeRun (exit : Exit) : List Action :=
  (List.replicate 5 [Action.arrive 0, .leave none 0 (.action .pinned [.failed])]).flatten ++
    [Action.arrive 30, .leave (some 1) 35 exit]

/-- The probe is answered: the breaker is closed, and admits. -/
theorem answered_probe_heals : ∃ s,
    Lib.Reach (step defaultConfig) Recorded State.init s ∧ s.breaker.phase = .closed ∧
      Paired defaultConfig s := by
  have hrun : (Lib.exec (step defaultConfig) State.init
      (probeRun (.action .pinned [.failed, .answered 200]))).any
        (·.breaker.phase = .closed) = true := by
    decide +kernel
  obtain ⟨s, hs, hphase⟩ := Option.any_eq_true .. |>.1 hrun
  have hreach := Lib.reach_exec hs (show Lib.Along _ Recorded _ _ by decide +kernel)
  exact ⟨s, hreach, of_decide_eq_true hphase, probes_paired hreach⟩

/-- The ends of the probe that record nothing: an action whose name is not resolved in
    time, a fetch that is refused or has no budget left. -/
def unrecorded : List Exit :=
  [.action .timedOut [],
    .fetch (.failed ⟨"blocked_by_egress_policy", "host resolves to a non-public address", true⟩),
    .fetch (.failed ⟨"timeout", "evaluation budget exhausted before the fetch could run", false⟩)]

theorem strands_of_unrecorded {exit : Exit} (hexit : exit ∈ unrecorded) : ∃ s,
    Lib.Reachable (step defaultConfig) State.init s ∧ s.inFlight = [] ∧
      s.breaker.phase = .halfOpen ∧ ¬ Paired defaultConfig s ∧
      ∀ now, (s.breaker.allow defaultConfig now).1 ≠ .ok () := by
  have hrun : ∀ exit ∈ unrecorded, (Lib.exec (step defaultConfig) State.init
      (probeRun exit)).any (fun s => s.inFlight = [] ∧ s.breaker.phase = .halfOpen ∧
        s.breaker.halfOpenCalls = 1) = true := by
    decide +kernel
  obtain ⟨s, hs, h⟩ := Option.any_eq_true .. |>.1 (hrun exit hexit)
  obtain ⟨hnone, hphase, hcalls⟩ := of_decide_eq_true h
  refine ⟨s, Lib.reachable_exec hs, hnone, hphase, fun hpaired => ?_, fun now => ?_⟩
  · have hslots := hpaired.slots hphase
    rw [hcalls, State.probes, hnone] at hslots
    cases hslots
  · exact full_refuses hphase (by rw [hcalls]; exact le_rfl) now

/-- The name of the probe's action is not resolved in time. -/
theorem unrecorded_probe_strands : ∃ s,
    Lib.Reachable (step defaultConfig) State.init s ∧ s.inFlight = [] ∧
      s.breaker.phase = .halfOpen ∧ ¬ Paired defaultConfig s ∧
      ∀ now, (s.breaker.allow defaultConfig now).1 ≠ .ok () :=
  strands_of_unrecorded List.mem_cons_self

/-! ### The cooldown -/

inductive Call
  | allow (now : ℚ)
  | recordSuccess (now : ℚ)
  | recordFailure (now : ℚ)
  deriving DecidableEq, Repr

def Call.now : Call → ℚ
  | .allow now | .recordSuccess now | .recordFailure now => now

/-- The breaker, the time of the last call, and when failures have opened it; the code does not
    keep the last two. -/
structure Timed where
  breaker : Breaker
  clock : ℚ
  opened : List ℚ
  deriving DecidableEq, Repr

def Timed.init : Timed := ⟨.init, 0, []⟩

section Cooldown
variable (cfg : Config)

def Timed.after (s : Timed) : Call → Timed
  | .allow now => ⟨(s.breaker.allow cfg now).2, now, s.opened⟩
  | .recordSuccess now => ⟨s.breaker.recordSuccess, now, s.opened⟩
  | .recordFailure now =>
    let b := s.breaker.recordFailure cfg now
    ⟨b, now, if s.breaker.trips < b.trips then now :: s.opened else s.opened⟩

def timedStep (s : Timed) (c : Call) : Option Timed :=
  if s.clock ≤ c.now then some (s.after cfg c) else none

/-- No success is recorded while the breaker is open and cools down. -/
def NoLateSuccess (s : Timed) : Call → Prop
  | .recordSuccess now => s.breaker.phase = .opened → s.breaker.openedAt + cfg.recoverySeconds ≤ now
  | _ => True

instance (s : Timed) (c : Call) : Decidable (NoLateSuccess cfg s c) := by
  cases c <;> unfold NoLateSuccess <;> infer_instance

/-- Once it has been opened, no call is let through before the cooldown is over. -/
def Cools (s : Timed) : Prop :=
  ∀ t ∈ s.opened, ∀ now, s.clock ≤ now → (s.breaker.allow cfg now).1 = .ok () →
    t + cfg.recoverySeconds ≤ now

variable {cfg}

/-- Each time of opening is past, and its cooldown goes on in an open breaker or is over. -/
def Cooling (cfg : Config) (s : Timed) : Prop :=
  ∀ t ∈ s.opened, t ≤ s.clock ∧
    ((s.breaker.phase = .opened ∧ t ≤ s.breaker.openedAt) ∨ t + cfg.recoverySeconds ≤ s.clock)

theorem observedState_time (cfg : Config) (b : Breaker) (now : ℚ) : b.observedState cfg now = b ∨
    b.openedAt + cfg.recoverySeconds ≤ now := by
  unfold Breaker.observedState
  grind

theorem allow_ok {b : Breaker} {now : ℚ} (h : (b.allow cfg now).1 = .ok ())
    (hphase : b.phase = .opened) : b.openedAt + cfg.recoverySeconds ≤ now := by
  grind [observedState_time, Breaker.allow, Breaker.shortCircuit]

theorem allow_phase (cfg : Config) {b : Breaker} (now : ℚ) (hphase : b.phase = .opened) :
    ((b.allow cfg now).2.phase = .opened ∧ (b.allow cfg now).2.openedAt = b.openedAt) ∨
      b.openedAt + cfg.recoverySeconds ≤ now := by
  grind [observedState_time, Breaker.allow, Breaker.shortCircuit]

theorem recordFailure_cases (cfg : Config) (b : Breaker) (now : ℚ) :
    (b.trips < (b.recordFailure cfg now).trips ∧ (b.recordFailure cfg now).phase = .opened ∧
      (b.recordFailure cfg now).openedAt = now) ∨
    ((b.recordFailure cfg now).trips = b.trips ∧
      (b.recordFailure cfg now).phase = (b.observedState cfg now).phase ∧
      (b.recordFailure cfg now).openedAt = b.openedAt) := by
  have hkeep : (b.observedState cfg now).trips = b.trips ∧
      (b.observedState cfg now).openedAt = b.openedAt := by
    rcases observedState_cases cfg b now with h | ⟨-, h⟩ <;> rw [h] <;> exact ⟨rfl, rfl⟩
  unfold Breaker.recordFailure
  generalize b.observedState cfg now = seen at hkeep ⊢
  obtain ⟨htrips, hopened⟩ := hkeep
  dsimp only
  split
  · exact Or.inl ⟨by simp [Breaker.trip, htrips], rfl, rfl⟩
  · split
    · exact Or.inl ⟨by simp [Breaker.trip, htrips], rfl, rfl⟩
    · exact Or.inr ⟨htrips, rfl, hopened⟩

theorem Cooling.step {s s' : Timed} {c : Call} (hi : Cooling cfg s) (hok : NoLateSuccess cfg s c)
    (h : timedStep cfg s c = some s') : Cooling cfg s' := by
  unfold timedStep at h
  split at h
  · rename_i hclock
    cases h
    cases c with
    | allow now =>
      intro t ht
      obtain ⟨hpast, hcool⟩ := hi t ht
      refine ⟨hpast.trans hclock, ?_⟩
      rcases hcool with ⟨hphase, hle⟩ | hover
      · rcases allow_phase cfg now hphase with ⟨h1, h2⟩ | hover
        · exact Or.inl ⟨h1, h2 ▸ hle⟩
        · exact Or.inr ((by linarith : t + cfg.recoverySeconds ≤ _).trans hover)
      · exact Or.inr (hover.trans hclock)
    | recordSuccess now =>
      intro t ht
      obtain ⟨hpast, hcool⟩ := hi t ht
      refine ⟨hpast.trans hclock, Or.inr ?_⟩
      rcases hcool with ⟨hphase, hle⟩ | hover
      · exact (by linarith : t + cfg.recoverySeconds ≤ _).trans (hok hphase)
      · exact hover.trans hclock
    | recordFailure now =>
      intro t ht
      change t ∈ (if _ then _ else _) at ht
      rcases recordFailure_cases cfg s.breaker now with
        ⟨htrips, hphase, hopened⟩ | ⟨htrips, hphase, hopened⟩
      · rw [if_pos htrips] at ht
        have hle : t ≤ now := by
          rcases List.mem_cons.1 ht with rfl | ht
          · exact le_refl t
          · exact (hi t ht).1.trans hclock
        exact ⟨hle, Or.inl ⟨hphase, hle.trans_eq hopened.symm⟩⟩
      · rw [if_neg (by rw [htrips]; exact lt_irrefl _)] at ht
        obtain ⟨hpast, hcool⟩ := hi t ht
        refine ⟨hpast.trans hclock, ?_⟩
        rcases hcool with ⟨hop, hle⟩ | hover
        · rcases observedState_time cfg s.breaker now with hseen | hover
          · rw [hseen] at hphase
            exact Or.inl ⟨hphase.trans hop, hle.trans_eq hopened.symm⟩
          · exact Or.inr ((by linarith : t + cfg.recoverySeconds ≤ _).trans hover)
        · exact Or.inr (hover.trans hclock)
  · cases h

theorem Cooling.cools {s : Timed} (hi : Cooling cfg s) : Cools cfg s := by
  intro t ht now hnow hok
  rcases (hi t ht).2 with ⟨hphase, hle⟩ | hover
  · exact (by linarith : t + cfg.recoverySeconds ≤ _).trans (allow_ok hok hphase)
  · exact hover.trans hnow

/-- **A tripped breaker stays tripped for its cooldown**, in every run in which no success is
    recorded within it. -/
theorem stays_open {s : Timed} (h : Lib.Reach (timedStep cfg) (NoLateSuccess cfg) Timed.init s) :
    Cools cfg s := by
  have hi : Cooling cfg s := Lib.Reach.invariant (I := Cooling cfg)
    (fun _ ht => absurd ht List.not_mem_nil)
    (fun _ _ _ hi hok hs => hi.step hok hs) h
  exact hi.cools

theorem late_success_closes (cfg : Config) (b : Breaker) (now : ℚ) :
    (b.recordSuccess.allow cfg now).1 = .ok () := by
  unfold Breaker.allow
  simp [Breaker.observedState, Breaker.recordSuccess]

end Cooldown

/-- Six calls are let through at once, and five of them fail. -/
def failedCalls : List Call := List.replicate 6 (Call.allow 0) ++ List.replicate 5 (Call.recordFailure 1)

/-- The default breaker has been opened at second 1 and refuses calls up to second 31. -/
theorem failed_calls_cool : ∃ s, 1 ∈ s.opened ∧ Cools defaultConfig s := by
  have hrun : (Lib.exec (timedStep defaultConfig) Timed.init failedCalls).any (1 ∈ ·.opened) =
      true := by
    decide +kernel
  obtain ⟨s, hs, hopened⟩ := Option.any_eq_true .. |>.1 hrun
  exact ⟨s, of_decide_eq_true hopened,
    stays_open (Lib.reach_exec hs (show Lib.Along _ (NoLateSuccess _) _ _ by decide +kernel))⟩

/-- The sixth call returns with a success at second 2, and a call at second 3 is let through. -/
theorem late_success_reopens : ∃ s, Lib.Reachable (timedStep defaultConfig) Timed.init s ∧
    ¬ Cools defaultConfig s := by
  have hrun : (Lib.exec (timedStep defaultConfig) Timed.init
      (failedCalls ++ [Call.recordSuccess 2])).any (fun s => 1 ∈ s.opened ∧ s.clock = 2 ∧
        s.breaker = s.breaker.recordSuccess) = true := by
    decide +kernel
  obtain ⟨s, hs, h⟩ := Option.any_eq_true .. |>.1 hrun
  obtain ⟨hopened, hclock, hclosed⟩ := of_decide_eq_true h
  refine ⟨s, Lib.reachable_exec hs, fun hcools => ?_⟩
  have hlet := late_success_closes defaultConfig s.breaker 3
  rw [← hclosed] at hlet
  have hover := hcools 1 hopened 3 (by rw [hclock]; norm_num) hlet
  norm_num [defaultConfig] at hover

end RuleMind.CircuitBreaker
