/-
  The lockout of a login: `login_guard_status` and `record_login_failure` of `app/middleware.py`
  for one identity, and `bump_login_attempts` of `app/storage.py`.

  A failure is counted in Redis, else in the table of attempts, else in the process.  Redis counts
  and sets the expiry of a counter by two commands; the table is read and written back.
-/
import RuleMind.Lib.Run
import Mathlib.Algebra.Order.Group.Int

namespace RuleMind.Lockout

open Lib

/-! ### Counters -/

inductive Tier
  | redis
  | database
  | process (p : ℕ)
  deriving DecidableEq

structure Counter where
  failures : ℕ
  expires : Option ℕ
  deriving DecidableEq

def live (now : ℕ) (c : Option Counter) : Option Counter :=
  c.filter fun c => c.expires.all (now < ·)

/-- One more failure, the first of a window if there is none. -/
def bump (c : Option Counter) (expires : Option ℕ) : Counter :=
  match c with
  | some c => { c with failures := c.failures + 1 }
  | none => ⟨1, expires⟩

/-! ### Steps -/

/-- Where a call of `record_login_failure` stands: next is the count in Redis, the expiry, the time
    to live, the clock of `bump_login_attempts`, its query, its write, the count in the process. -/
inductive Phase
  | idle
  | starting
  | expiring
  | asking
  | durable
  | reading (began attempt : ℕ)
  | writing (began attempt : ℕ) (seen : Option Counter)
  | fallback
  deriving DecidableEq

structure State where
  now : ℕ
  counter : Tier → Option Counter
  phase : ℕ → Phase
  /-- The failures that were counted since the first of the window, in any place; in no store. -/
  window : Option Counter
  /-- When a call last did something; in no store. -/
  last : ℕ

def State.init : State := ⟨0, fun _ => none, fun _ => .idle, none, 0⟩

def State.go (s : State) (p : ℕ) (ph : Phase) : State :=
  { s with phase := Function.update s.phase p ph }

def State.put (s : State) (tier : Tier) (c : Option Counter) : State :=
  { s with counter := Function.update s.counter tier c }

/-- A failure is counted, in a window that is open. -/
def State.count (s : State) (tier : Tier) (c : Counter) : State :=
  { s.put tier (some c) with
    window :=
      if (live s.now (some c)).isSome then some (bump (live s.now s.window) c.expires)
      else s.window }

/-- `expire`: a counter that is there closes after a while. -/
def State.expire (s : State) (at' : ℕ) : State :=
  let close (c : Counter) : Counter := { c with expires := some at' }
  { s.put .redis ((live s.now (s.counter .redis)).map close) with
    window := (live s.now s.window).map close }

inductive Act
  | wait (duration : ℕ)
  | start (p : ℕ)
  /-- The next operation of a call; a store that is not available raises. -/
  | call (p : ℕ) (available : Bool)
  | stop (p : ℕ)
  /-- A call of `login_guard_status`, which drops a counter that has expired. -/
  | ask (p : ℕ) (redis database : Bool)

/-- Which counter `login_guard_status` reads. -/
def guardTier (p : ℕ) (redis database : Bool) : Tier :=
  if redis then .redis else if database then .database else .process p

section Steps
variable (ttl : ℕ)

/-- The write of `bump_login_attempts`. -/
def State.write (s : State) (p began attempt : ℕ) (seen : Option Counter) : State :=
  match live began seen, s.counter .database with
  | some c, some row => (s.count .database { row with failures := c.failures + 1 }).go p .idle
  -- no row to update
  | some _, none => s.go p .fallback
  | none, none => (s.count .database ⟨1, some (began + ttl)⟩).go p .idle
  | none, some _ =>
    -- the row that was read has expired, and is deleted first
    if seen.isSome then (s.count .database ⟨1, some (began + ttl)⟩).go p .idle
    -- the primary key race
    else if attempt ≥ 4 then s.go p .fallback
    else s.go p (.reading began (attempt + 1))

/-- The next operation of `record_login_failure`. -/
def State.proceed (s : State) (p : ℕ) (available : Bool) : Option State :=
  match s.phase p with
  | .idle => none
  | .starting =>
    if available then
      let c := bump (live s.now (s.counter .redis)) none
      some ((s.count .redis c).go p (if c.failures = 1 then .expiring else .asking))
    else some (s.go p .durable)
  | .expiring =>
    if available then some ((s.expire (s.now + ttl)).go p .asking) else some (s.go p .durable)
  | .asking => some (s.go p (if available then .idle else .durable))
  | .durable => some (s.go p (if available then .reading s.now 0 else .fallback))
  | .reading began attempt =>
    some (s.go p (if available then .writing began attempt (s.counter .database) else .fallback))
  | .writing began attempt seen =>
    some (if available then s.write ttl p began attempt seen else s.go p .fallback)
  | .fallback =>
    let c := bump (live s.now (s.counter (.process p))) (some (s.now + ttl))
    some ((s.count (.process p) c).go p .idle)

def step (s : State) (a : Act) : Option State :=
  match a with
  | .wait duration => some { s with now := s.now + duration }
  | .start p =>
    match s.phase p with
    | .idle => some ({ s with last := s.now }.go p .starting)
    | _ => none
  | .call p available => { s with last := s.now }.proceed ttl p available
  | .stop p => some ((s.put (.process p) none).go p .idle)
  | .ask p redis database =>
    let tier := guardTier p redis database
    some (s.put tier (live s.now (s.counter tier)))

end Steps

def loginMaxAttempts (configured : ℤ) : ℕ := (max 1 configured).toNat

def loginLockoutSeconds (configured : ℤ) : ℕ := (max 1 configured).toNat

structure LoginGuard where
  locked : Bool
  failures : ℕ
  deriving DecidableEq

def loginGuardStatus (maximum : ℕ) (s : State) (p : ℕ) (redis database : Bool) : LoginGuard :=
  let failures := ((live s.now (s.counter (guardTier p redis database))).map (·.failures)).getD 0
  ⟨decide (failures ≥ maximum), failures⟩

/-- The failures of a window lock the login while it is open, and nothing does so when the lockout
    has passed since the last of them, and no call is under way. -/
structure LocksOut (maximum ttl : ℕ) (asked : ℕ → Bool → Bool → Prop) (s : State) : Prop where
  counts : ∀ p redis database, asked p redis database →
    ∀ w, live s.now s.window = some w → maximum ≤ w.failures →
      (loginGuardStatus maximum s p redis database).locked = true
  passes : (∀ p, s.phase p = .idle) → s.last + ttl ≤ s.now → ∀ p redis database,
    (loginGuardStatus maximum s p redis database).locked = false

def Alone (s : State) (tier : Tier) : Prop :=
  ∀ other, other ≠ tier → live s.now (s.counter other) = none

/-- The row that is updated is the one that was read, and none is replaced that is open. -/
def Unlost (s : State) (began : ℕ) (seen : Option Counter) : Prop :=
  if (live began seen).isSome then s.counter .database = seen
  else seen.isSome → live s.now (s.counter .database) = none

/-- Failures are counted where the window is, none is overwritten, a process that opened a window in
    Redis sets its expiry, and one that counts itself does not stop. -/
def Sound (s : State) : Act → Prop
  | .call p available =>
    match s.phase p with
    | .starting => available = true → Alone s .redis
    | .expiring => available = true
    | .writing began _ seen => available = true →
      (seen = none ∧ s.counter .database ≠ none) ∨ (Alone s .database ∧ Unlost s began seen)
    | .fallback => Alone s (.process p)
    | _ => True
  | .stop p => s.phase p ≠ .expiring ∧ live s.now (s.counter (.process p)) = none
  | _ => True

/-- The status is read where the window is, if that has enough failures to lock. -/
def AskedThere (maximum : ℕ) (s : State) (p : ℕ) (redis database : Bool) : Prop :=
  ∀ other, other ≠ guardTier p redis database →
    ∀ c, live s.now (s.counter other) = some c → c.failures < maximum

/-! ### The invariant -/

section Invariant
variable {ttl : ℕ} {s : State}

variable {c : Option Counter} {p : ℕ} {tier : Tier}

theorem live_eq_some {now : ℕ} {w : Counter} :
    live now c = some w ↔ c = some w ∧ ∀ e, w.expires = some e → now < e := by
  rw [live, Option.filter_eq_some_iff]
  refine and_congr_right fun _ => ?_
  cases w.expires with
  | none => simp
  | some e => simp

theorem live_later {now d : ℕ} {c' : Option Counter} (h : live now c = live now c') :
    live (now + d) c = live (now + d) c' := by
  have hboth : ∀ c, live (now + d) c = live (now + d) (live now c) := by
    intro c
    ext w
    rw [live_eq_some, live_eq_some, live_eq_some]
    constructor
    · grind
    · rintro ⟨⟨hc, -⟩, hw⟩
      exact ⟨hc, hw⟩
  rw [hboth c, h, ← hboth c']

theorem live_live (now : ℕ) (c : Option Counter) : live now (live now c) = live now c := by
  rw [live, live, Option.filter_filter]
  simp

/-- Only a window that waits for its expiry has none. -/
structure Inv (ttl : ℕ) (s : State) : Prop where
  one : ∃ tier, live s.now (s.counter tier) = live s.now s.window ∧ Alone s tier
  unset : ∀ tier c, s.counter tier = some c → c.expires = none →
    tier = .redis ∧ ∃ p, s.phase p = .expiring
  pending : ∀ p, s.phase p = .expiring → ∃ c, s.counter .redis = some c ∧ c.expires = none
  single : ∀ p q, s.phase p = .expiring → s.phase q = .expiring → p = q
  bounded : ∀ tier c e, s.counter tier = some c → c.expires = some e → e ≤ s.last + ttl
  counted : ∀ tier c, s.counter tier = some c → 1 ≤ c.failures
  begun : ∀ p began, (∃ attempt, s.phase p = .reading began attempt) ∨
    (∃ attempt seen, s.phase p = .writing began attempt seen) → began ≤ s.last
  past : s.last ≤ s.now

theorem inv_init : Inv ttl State.init where
  one := ⟨.redis, rfl, fun _ _ => rfl⟩
  unset _ _ h := by cases h
  pending _ h := by cases h
  single _ _ h := by cases h
  bounded _ _ _ h := by cases h
  counted _ _ h := by cases h
  begun _ _ h := by
    obtain ⟨_, h⟩ | ⟨_, _, h⟩ := h
    · cases h
    · cases h
  past := Nat.le_refl _

@[simp] theorem go_phase (s : State) (p : ℕ) (ph : Phase) (q : ℕ) :
    (s.go p ph).phase q = if q = p then ph else s.phase q := by
  simp [State.go, Function.update_apply]

@[simp] theorem put_counter (s : State) (tier : Tier) (c : Option Counter) (other : Tier) :
    (s.put tier c).counter other = if other = tier then c else s.counter other := by
  simp [State.put, Function.update_apply]

@[simp] theorem count_counter (s : State) (tier : Tier) (c : Counter) (other : Tier) :
    (s.count tier c).counter other = if other = tier then some c else s.counter other :=
  put_counter s tier (some c) other

/-- The clock of a call that asks for its first query or later. -/
def Phase.began : Phase → Option ℕ
  | .reading began _ | .writing began _ _ => some began
  | _ => none

theorem Inv.wait (h : Inv ttl s) (d : ℕ) : Inv ttl { s with now := s.now + d } := by
  obtain ⟨tier, hone, halone⟩ := h.one
  refine { h with
    one := ⟨tier, live_later hone, fun other hne => ?_⟩
    past := Nat.le_trans h.past (Nat.le_add_right _ _) }
  have hdead : live s.now (s.counter other) = live s.now none := halone other hne
  exact live_later hdead

theorem Inv.touch (h : Inv ttl s) : Inv ttl { s with last := s.now } := by
  refine { h with
    bounded := fun tier c e hc he => ?_
    begun := fun p began hp => (h.begun p began hp).trans h.past
    past := Nat.le_refl _ }
  have hle := h.bounded tier c e hc he
  have hpast := h.past
  show e ≤ s.now + ttl
  omega

theorem Inv.go (h : Inv ttl s) {ph : Phase} (hp : s.phase p ≠ .expiring)
    (hph : ph ≠ .expiring) (hbegan : ∀ began, ph.began = some began → began ≤ s.last) :
    Inv ttl (s.go p ph) := by
  have hexpiring : ∀ q, (s.go p ph).phase q = .expiring ↔ s.phase q = .expiring := by
    intro q
    rw [go_phase]
    split
    · simp_all
    · rfl
  refine { h with
    unset := fun tier c hc he => ?_
    pending := fun q hq => h.pending q ((hexpiring q).1 hq)
    single := fun q r hq hr => h.single q r ((hexpiring q).1 hq) ((hexpiring r).1 hr)
    begun := fun q began hq => ?_ }
  · obtain ⟨htier, q, hq⟩ := h.unset tier c hc he
    exact ⟨htier, q, (hexpiring q).2 hq⟩
  · rw [go_phase] at hq
    split at hq
    · refine hbegan began ?_
      rcases hq with ⟨attempt, rfl⟩ | ⟨attempt, seen, rfl⟩
      · rfl
      · rfl
    · exact h.begun q began hq

theorem Inv.window_eq (h : Inv ttl s) (halone : Alone s tier) :
    live s.now (s.counter tier) = live s.now s.window := by
  obtain ⟨tier', hone, halone'⟩ := h.one
  by_cases heq : tier = tier'
  · rw [heq, hone]
  · rw [halone' tier heq, ← hone, halone tier' (Ne.symm heq)]

theorem Inv.one_count (h : Inv ttl s) {c : Counter} (halone : Alone s tier)
    (hopen : (live s.now (some c)).isSome → c = bump (live s.now (s.counter tier)) c.expires)
    (hdead : live s.now (some c) = none → live s.now (s.counter tier) = none) :
    ∃ tier', live s.now ((s.count tier c).counter tier') = live s.now (s.count tier c).window ∧
      Alone (s.count tier c) tier' := by
  refine ⟨tier, ?_, fun other hne => ?_⟩
  · rw [count_counter, if_pos rfl, State.count]
    have hwindow := h.window_eq halone
    by_cases hlive : (live s.now (some c)).isSome
    · rw [if_pos hlive, ← hwindow, ← hopen hlive]
    · simp_all
  · show live s.now ((s.count tier c).counter other) = none
    rw [count_counter, if_neg hne]
    exact halone other hne

theorem Inv.count (h : Inv ttl s) {c : Counter} (halone : Alone s tier)
    (hopen : (live s.now (some c)).isSome → c = bump (live s.now (s.counter tier)) c.expires)
    (hdead : live s.now (some c) = none → live s.now (s.counter tier) = none)
    (hbound : ∀ e, c.expires = some e → e ≤ s.last + ttl) (hcounted : 1 ≤ c.failures)
    (hunset : c.expires = none ↔ ∃ c', s.counter tier = some c' ∧ c'.expires = none) :
    Inv ttl (s.count tier c) := by
  refine { h with
    one := h.one_count halone hopen hdead
    unset := fun other c' hc' he => ?_
    pending := fun p hp => ?_
    bounded := fun other c' e hc' he => ?_
    counted := fun other c' hc' => ?_ }
  · rw [count_counter] at hc'
    split at hc'
    · rename_i heq
      cases hc'
      obtain ⟨c₀, hc₀, he₀⟩ := hunset.1 he
      rw [heq]
      exact h.unset tier c₀ hc₀ he₀
    · exact h.unset other c' hc' he
  · rw [count_counter]
    obtain ⟨c₀, hc₀, he₀⟩ := h.pending p hp
    grind -ring -linarith
  · rw [count_counter] at hc'
    split at hc'
    · cases hc'
      exact hbound e he
    · exact h.bounded other c' e hc' he
  · rw [count_counter] at hc'
    split at hc'
    · cases hc'
      exact hcounted
    · exact h.counted other c' hc'

theorem Inv.drop (h : Inv ttl s) (hsame : live s.now c = live s.now (s.counter tier))
    (hsub : ∀ w, c = some w → s.counter tier = some w) : Inv ttl (s.put tier c) := by
  have hput : ∀ other w, (s.put tier c).counter other = some w → s.counter other = some w := by
    intro other w hw
    rw [put_counter] at hw
    split at hw
    · rename_i heq
      rw [heq]
      exact hsub w hw
    · exact hw
  have hlive : ∀ other,
      live s.now ((s.put tier c).counter other) = live s.now (s.counter other) := by
    intro other
    rw [put_counter]
    split
    · rename_i heq
      rw [heq, hsame]
    · rfl
  refine { h with
    one := ?_
    unset := fun other w hw => h.unset other w (hput other w hw)
    pending := fun p hp => ?_
    bounded := fun other w e hw => h.bounded other w e (hput other w hw)
    counted := fun other w hw => h.counted other w (hput other w hw) }
  · obtain ⟨tier', hone, halone⟩ := h.one
    exact ⟨tier', (hlive tier').trans hone, fun other hne => (hlive other).trans (halone other hne)⟩
  · obtain ⟨w, hw, he⟩ := h.pending p hp
    grind [live_eq_some]

theorem Inv.waiting (h : Inv ttl s) (hp : s.phase p = .expiring) :
    ∃ c, live s.now (s.counter .redis) = some c ∧ c.expires = none := by
  obtain ⟨c, hc, he⟩ := h.pending p hp
  simp_all [live_eq_some]

theorem Inv.first (h : Inv ttl s) (halone : Alone s .redis)
    (hdead : live s.now (s.counter .redis) = none) :
    Inv ttl ((s.count .redis ⟨1, none⟩).go p .expiring) := by
  have hidle : ∀ q, s.phase q ≠ .expiring := by
    intro q hq
    obtain ⟨c, hc, -⟩ := h.waiting hq
    rw [hdead] at hc
    cases hc
  have hexpiring : ∀ q,
      ((s.count .redis ⟨1, none⟩).go p .expiring).phase q = .expiring → q = p := by
    intro q hq
    rw [go_phase] at hq
    split at hq
    · assumption
    · exact absurd hq (hidle q)
  have hcounter : ∀ tier c, (s.count .redis ⟨1, none⟩).counter tier = some c →
      tier = .redis ∧ c = ⟨1, none⟩ ∨ s.counter tier = some c := by
    intro tier c hc
    rw [count_counter] at hc
    split at hc
    · exact .inl ⟨by assumption, (Option.some.inj hc).symm⟩
    · exact .inr hc
  refine
    { one := h.one_count halone (fun _ => by rw [hdead]; rfl) fun _ => hdead
      unset := fun tier c hc he => ?_
      pending := fun q hq => ⟨⟨1, none⟩, by rw [State.go, count_counter, if_pos rfl], rfl⟩
      single := fun q r hq hr => by rw [hexpiring q hq, hexpiring r hr]
      bounded := fun tier c e hc he => ?_
      counted := fun tier c hc => ?_
      begun := fun q began hq => ?_
      past := h.past }
  · rcases hcounter tier c hc with ⟨htier, -⟩ | hc
    · exact ⟨htier, p, by rw [go_phase, if_pos rfl]⟩
    · obtain ⟨-, q, hq⟩ := h.unset tier c hc he
      exact absurd hq (hidle q)
  · rcases hcounter tier c hc with ⟨-, rfl⟩ | hc
    · cases he
    · exact h.bounded tier c e hc he
  · rcases hcounter tier c hc with ⟨-, rfl⟩ | hc
    · exact Nat.le_refl 1
    · exact h.counted tier c hc
  · rw [go_phase] at hq
    split at hq
    · grind
    · exact h.begun q began hq

theorem Inv.expire (h : Inv ttl s) (hp : s.phase p = .expiring) (hnow : s.last = s.now) :
    Inv ttl ((s.expire (s.now + ttl)).go p .asking) := by
  obtain ⟨c, hc, he⟩ := h.waiting hp
  obtain ⟨tier, hone, halone⟩ := h.one
  obtain rfl : tier = .redis := by
    by_contra hne
    rw [halone .redis (Ne.symm hne)] at hc
    cases hc
  have hwindow : live s.now s.window = some c := by rw [← hone, hc]
  have hphase : ∀ q ph, ((s.expire (s.now + ttl)).go p .asking).phase q = ph → ph ≠ .asking →
      q ≠ p ∧ s.phase q = ph := by
    intro q ph hq hph
    rw [go_phase] at hq
    split at hq
    · exact absurd hq.symm hph
    · exact ⟨by assumption, hq⟩
  have hcounter : ∀ other w, ((s.expire (s.now + ttl)).go p .asking).counter other = some w →
      w = { c with expires := some (s.now + ttl) } ∨ other ≠ .redis ∧ s.counter other = some w := by
    intro other w hw
    rw [State.go, State.expire, hc] at hw
    simp only [put_counter] at hw
    split at hw
    · exact .inl (Option.some.inj hw).symm
    · exact .inr ⟨by assumption, hw⟩
  refine
    { one := ⟨.redis, ?_, fun other hne => ?_⟩
      unset := fun other w hw hnone => ?_
      pending := fun q hq => ?_
      single := fun q r hq hr =>
        h.single q r (hphase q _ hq (by simp)).2 (hphase r _ hr (by simp)).2
      bounded := fun other w e hw hsome => ?_
      counted := fun other w hw => ?_
      begun := fun q began hq => ?_
      past := h.past }
  · rw [State.go, State.expire, hc, hwindow]
    simp only [put_counter, if_pos]
  · rw [State.go, State.expire]
    simp only [put_counter, if_neg hne]
    exact halone other hne
  · rcases hcounter other w hw with rfl | ⟨hne, hw⟩
    · cases hnone
    · exact absurd (h.unset other w hw hnone).1 hne
  · obtain ⟨hne, hq⟩ := hphase q _ hq (by simp)
    exact absurd (h.single q p hq hp) hne
  · rcases hcounter other w hw with rfl | ⟨-, hw⟩
    · cases hsome
      show s.now + ttl ≤ s.last + ttl
      omega
    · exact h.bounded other w e hw hsome
  · rcases hcounter other w hw with rfl | ⟨-, hw⟩
    · exact h.counted .redis c (live_eq_some.1 hc).1
    · exact h.counted other w hw
  · refine h.begun q began ?_
    grind

theorem Inv.bump (h : Inv ttl s) {c : Counter} (halone : Alone s tier)
    (hc : s.counter tier = some c) :
    Inv ttl (s.count tier { c with failures := c.failures + 1 }) := by
  refine h.count halone (fun hopen => ?_) (fun hdead => ?_) (fun e he => h.bounded tier c e hc he)
    (Nat.le_add_left 1 _) ⟨fun he => ⟨c, hc, he⟩, ?_⟩
  · obtain ⟨w, hw⟩ := Option.isSome_iff_exists.1 hopen
    obtain ⟨hsome, he⟩ := live_eq_some.1 hw
    cases hsome
    have hlive : live s.now (some c) = some c := live_eq_some.2 ⟨rfl, he⟩
    rw [hc, hlive]
    rfl
  · rw [hc, Option.eq_none_iff_forall_ne_some]
    intro w hw
    obtain ⟨hsome, he⟩ := live_eq_some.1 hw
    cases hsome
    have hlive : live s.now (some { c with failures := c.failures + 1 }) = some _ :=
      live_eq_some.2 ⟨rfl, he⟩
    rw [hdead] at hlive
    cases hlive
  simp_all

theorem Inv.fresh (h : Inv ttl s) {e : ℕ} (halone : Alone s tier)
    (hdead : live s.now (s.counter tier) = none) (he : e ≤ s.last + ttl) :
    Inv ttl (s.count tier ⟨1, some e⟩) := by
  refine h.count halone (fun _ => by rw [hdead]; rfl) (fun _ => hdead)
    (fun e' he' => by cases he'; exact he) (Nat.le_refl 1) ⟨fun hsome => (by cases hsome), ?_⟩
  grind [live_eq_some]

theorem Inv.write (h : Inv ttl s) {began attempt : ℕ} {seen : Option Counter}
    (hp : s.phase p = .writing began attempt seen)
    (hsound : (seen = none ∧ s.counter .database ≠ none) ∨
      (Alone s .database ∧ Unlost s began seen)) :
    Inv ttl (s.write ttl p began attempt seen) := by
  have hbegan : began ≤ s.last := h.begun p began (.inr ⟨attempt, seen, hp⟩)
  have hgo : ∀ ph, ph ≠ .expiring → (∀ began', ph.began = some began' → began' = began) →
      Inv ttl (s.go p ph) := fun ph hph hsame =>
    h.go (by rw [hp]; simp) hph fun began' he => (hsame began' he).symm ▸ hbegan
  have hcounted : ∀ c, Inv ttl (s.count .database c) →
      Inv ttl ((s.count .database c).go p .idle) := fun c hinv =>
    hinv.go (by show s.phase p ≠ _; rw [hp]; simp) (by simp) fun _ he => by cases he
  rw [State.write]
  split
  · rename_i c row hseen hrow
    rcases hsound with ⟨rfl, -⟩ | ⟨halone, hunlost⟩
    · cases hseen
    · obtain ⟨rfl, -⟩ := live_eq_some.1 hseen
      rw [Unlost, hseen, if_pos (Option.isSome_some), hrow] at hunlost
      cases hunlost
      exact hcounted _ (h.bump halone hrow)
  · exact hgo .fallback (by simp) fun _ he => by cases he
  · rename_i hseen hrow
    rcases hsound with ⟨-, hne⟩ | ⟨halone, -⟩
    · exact absurd hrow hne
    · exact hcounted _ (h.fresh halone (by rw [hrow]; rfl) (Nat.add_le_add_right hbegan ttl))
  · rename_i row hseen hrow
    split
    · rename_i hsome
      rcases hsound with ⟨rfl, -⟩ | ⟨halone, hunlost⟩
      · cases hsome
      · rw [Unlost, hseen, if_neg (by simp)] at hunlost
        exact hcounted _ (h.fresh halone (hunlost hsome) (Nat.add_le_add_right hbegan ttl))
    · split
      · exact hgo .fallback (by simp) fun _ he => by cases he
      · exact hgo (.reading began (attempt + 1)) (by simp) fun _ he => by cases he; rfl

theorem Inv.proceed (h : Inv ttl s) {available : Bool} {t : State} (hnow : s.last = s.now)
    (hsound : Sound s (.call p available)) (hstep : s.proceed ttl p available = some t) :
    Inv ttl t := by
  rw [Sound] at hsound
  rw [State.proceed] at hstep
  have hgo : ∀ ph, s.phase p ≠ .expiring → ph ≠ .expiring →
      (∀ began, ph.began = some began → began ≤ s.last) → Inv ttl (s.go p ph) :=
    fun ph hp hph hbegan => h.go hp hph hbegan
  cases hp : s.phase p with
  | idle =>
    rw [hp] at hstep
    cases hstep
  | starting =>
    rw [hp] at hstep hsound
    cases available with
    | false =>
      cases hstep
      exact hgo _ (by rw [hp]; simp) (by simp) fun _ he => by cases he
    | true =>
      have halone := hsound rfl
      cases hlive : live s.now (s.counter .redis) with
      | none =>
        simp only [hlive, Lockout.bump, if_pos] at hstep
        cases hstep
        exact h.first halone hlive
      | some c =>
        have hc := (live_eq_some.1 hlive).1
        have hne : c.failures + 1 ≠ 1 := by
          have hpos := h.counted .redis c hc
          omega
        simp only [hlive, Lockout.bump, if_pos, if_neg hne] at hstep
        cases hstep
        refine (h.bump halone hc).go ?_ (by simp) fun _ he => by cases he
        show s.phase p ≠ _
        rw [hp]
        simp
  | expiring =>
    rw [hp] at hstep hsound
    obtain rfl : available = true := hsound
    cases hstep
    exact h.expire hp hnow
  | asking =>
    rw [hp] at hstep
    cases hstep
    cases available with
    | true => exact hgo _ (by rw [hp]; simp) (by simp) fun _ he => by cases he
    | false => exact hgo _ (by rw [hp]; simp) (by simp) fun _ he => by cases he
  | durable =>
    rw [hp] at hstep
    cases hstep
    cases available with
    | true =>
      refine hgo _ (by rw [hp]; simp) (by simp) fun _ he => ?_
      cases he
      exact Nat.le_of_eq hnow.symm
    | false => exact hgo _ (by rw [hp]; simp) (by simp) fun _ he => by cases he
  | reading began attempt =>
    rw [hp] at hstep
    cases hstep
    cases available with
    | true =>
      refine hgo _ (by rw [hp]; simp) (by simp) fun _ he => ?_
      cases he
      exact h.begun p began (.inl ⟨attempt, hp⟩)
    | false => exact hgo _ (by rw [hp]; simp) (by simp) fun _ he => by cases he
  | writing began attempt seen =>
    rw [hp] at hstep hsound
    cases hstep
    cases available with
    | true => exact h.write hp (hsound rfl)
    | false => exact hgo _ (by rw [hp]; simp) (by simp) fun _ he => by cases he
  | fallback =>
    rw [hp] at hstep hsound
    have halone : Alone s (.process p) := hsound
    cases hstep
    have hinv : Inv ttl (s.count (.process p)
        (Lockout.bump (live s.now (s.counter (.process p))) (some (s.now + ttl)))) := by
      cases hlive : live s.now (s.counter (.process p)) with
      | none => exact h.fresh halone hlive (by omega)
      | some c => exact h.bump halone (live_eq_some.1 hlive).1
    refine hinv.go ?_ (by simp) fun _ he => by cases he
    show s.phase p ≠ _
    rw [hp]
    simp

theorem Inv.step (h : Inv ttl s) {a : Act} {t : State} (hsound : Sound s a)
    (hstep : Lockout.step ttl s a = some t) : Inv ttl t := by
  cases a with
  | wait duration =>
    cases hstep
    exact h.wait duration
  | start p =>
    rw [Lockout.step] at hstep
    split at hstep
    · rename_i hidle
      cases hstep
      refine h.touch.go ?_ (by simp) fun _ he => by cases he
      show s.phase p ≠ _
      rw [hidle]
      simp
    · cases hstep
  | call p available => exact h.touch.proceed rfl hsound hstep
  | stop p =>
    cases hstep
    obtain ⟨hp, hdead⟩ := hsound
    refine (h.drop (by rw [hdead]; rfl) fun w hw => by cases hw).go hp (by simp) fun _ he => ?_
    cases he
  | ask p redis database =>
    cases hstep
    exact h.drop (live_live _ _) fun w hw => (live_eq_some.1 hw).1

theorem Inv.locksOut (h : Inv ttl s) {maximum : ℕ} (hmax : 1 ≤ maximum) :
    LocksOut maximum ttl (AskedThere maximum s) s where
  counts p redis database hasked w hw hmany := by
    obtain ⟨tier, hone, -⟩ := h.one
    have hc : live s.now (s.counter tier) = some w := hone.trans hw
    by_cases htier : tier = guardTier p redis database
    · rw [loginGuardStatus, ← htier, hc]
      exact decide_eq_true hmany
    · have hlt := hasked tier htier w hc
      omega
  passes hidle hlast p redis database := by
    have hdead : live s.now (s.counter (guardTier p redis database)) = none := by
      rw [Option.eq_none_iff_forall_ne_some]
      intro c hlive
      obtain ⟨hc, hopen⟩ := live_eq_some.1 hlive
      cases he : c.expires with
      | none =>
        obtain ⟨-, q, hq⟩ := h.unset _ c hc he
        rw [hidle q] at hq
        cases hq
      | some e =>
        have hlt := hopen e he
        have hle := h.bounded _ c e hc he
        omega
    rw [loginGuardStatus, hdead]
    exact decide_eq_false (by simp; omega)

end Invariant

/-- **Failures lock a login**, until their window closes and no longer than the lockout after the
    last, in every run in which each window is counted in one place. -/
theorem failures_lock (attempts seconds : ℤ) {s : State}
    (h : Reach (step (loginLockoutSeconds seconds)) Sound State.init s) :
    LocksOut (loginMaxAttempts attempts) (loginLockoutSeconds seconds)
      (AskedThere (loginMaxAttempts attempts) s) s := by
  have hinv : Inv (loginLockoutSeconds seconds) s :=
    h.invariant inv_init fun s a t hinv hsound hstep => hinv.step hsound hstep
  refine hinv.locksOut ?_
  rw [loginMaxAttempts]
  omega

/-- The calls of two failures that are counted in Redis. -/
def twoFailures : List Act :=
  [.start 0, .call 0 true, .call 0 true, .call 0 true, .start 1, .call 1 true, .call 1 true]

theorem failures_lock_twice : ∃ s,
    Reach (step (loginLockoutSeconds 900)) Sound State.init s ∧
    LocksOut (loginMaxAttempts 2) (loginLockoutSeconds 900) (AskedThere (loginMaxAttempts 2) s) s ∧
    loginGuardStatus (loginMaxAttempts 2) s 1 true true = ⟨true, 2⟩ := by
  have hexpired : ∀ other : Tier, other ≠ .redis → live 0 (Function.update (Function.update
      (fun _ => none) .redis (some ⟨1, none⟩)) .redis (some ⟨1, some 900⟩) other) = none := by
    intro other hne
    rw [Function.update_of_ne hne, Function.update_of_ne hne]
    rfl
  have hrun : Reach (step (loginLockoutSeconds 900)) Sound State.init _ :=
    @reach_exec _ _ _ _ twoFailures _ _ rfl
      ⟨trivial, fun _ _ _ => rfl, rfl, trivial, trivial, fun _ => hexpired, trivial, trivial⟩
  exact ⟨_, hrun, failures_lock 2 900 hrun, rfl⟩

/-- A process that stops before it sets the expiry of a window in Redis. -/
def stoppedBeforeExpire : List Act := [.start 0, .call 0 true, .stop 0, .wait 901]

/-- One failure in Redis without an expiry locks a login that allows one, for good. -/
theorem stopped_before_expire : ∃ s,
    Reachable (step (loginLockoutSeconds 900)) State.init s ∧
    ¬ LocksOut (loginMaxAttempts 1) (loginLockoutSeconds 900) (fun _ _ _ => True) s := by
  have hidle : ∀ (s : State), (∀ p, p ≠ 0 → s.phase p = .idle) →
      ∀ p, (s.go 0 .idle).phase p = .idle := by
    intro s hs p
    rw [go_phase]
    split
    · rfl
    · exact hs p (by assumption)
  refine ⟨_, @reachable_exec _ _ _ stoppedBeforeExpire _ _ rfl, fun h => ?_⟩
  have hfree := h.passes (hidle _ fun p hp => ?_) (by decide) 0 true true
  · cases hfree
  · show (((State.init.go 0 .starting).count .redis ⟨1, none⟩).go 0 .expiring).phase p = .idle
    rw [go_phase, if_neg hp]
    show (State.init.go 0 .starting).phase p = .idle
    rw [go_phase, if_neg hp]
    rfl

end RuleMind.Lockout
