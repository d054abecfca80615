/-
  The decision outbox (`app/decision_outbox.py`) and the order it keeps.

  `relay_once` takes the oldest unsent rows, produces all of them, waits for the
  delivery reports and stamps the rows that were acknowledged.  The database
  chooses among rows of one `created_at`, the broker answers as it likes, and the
  pass may die before its transaction commits; all three are part of the action,
  so a run ranges over every behaviour of both.
-/
import RuleMind.Lib.Run
import Mathlib.Data.List.Nodup
import Mathlib.Data.List.Pairwise

namespace RuleMind.Outbox

/-! ### Rows and the topic -/

/-- The columns of a row that never change; times are ticks of the clock. -/
structure Event where
  id : String
  tenantId : String
  decisionId : String
  partitionKey : String
  topic : String
  payload : String
  createdAt : ℕ
  deriving DecidableEq, Repr

structure Row where
  event : Event
  sentAt : Option ℕ
  attempts : ℕ
  lastError : Option String
  deriving DecidableEq, Repr

/-- What the delivery callback said, `none` where it never fired. -/
inductive Report
  | ok
  | error (err : String)
  | none
  deriving DecidableEq, Repr

/-- The broker's part in one produce: whether the message is in the topic, and
    what was reported.  An accepted message may go unreported. -/
structure Delivery where
  accepted : Bool
  report : Report
  ok_accepted : report = .ok → accepted = true
  deriving DecidableEq, Repr

/-- `KAFKA_BOOTSTRAP_SERVERS` is set, and `topic()`. -/
structure Config where
  enabled : Bool
  topic : String
  deriving DecidableEq, Repr

/-- `row.topic or topic()`. -/
def Event.destination (cfg : Config) (e : Event) : String :=
  if e.topic = "" then cfg.topic else e.topic

/-- Two events whose order is promised: one tenant, one topic. -/
def SameStream (cfg : Config) (a b : Event) : Prop :=
  a.tenantId = b.tenantId ∧ a.destination cfg = b.destination cfg

instance (cfg : Config) (a b : Event) : Decidable (SameStream cfg a b) :=
  inferInstanceAs (Decidable (_ ∧ _))

/-- `log` holds the copies the broker has accepted, in its order; `acked` the rows
    it has acknowledged. -/
structure State where
  rows : List Row
  log : List Event
  acked : List String
  deriving DecidableEq, Repr

def State.init : State := ⟨[], [], []⟩

def eventIds (es : List Event) : List String := es.map Event.id

def firstCopies : List Event → List Event
  | [] => []
  | e :: es => e :: (firstCopies es).filter fun f => f.id ≠ e.id

/-- The row `enqueue` adds; the partition key is the tenant. -/
def newEvent (cfg : Config) (id tenantId decisionId payload : String) (now : ℕ) : Event :=
  ⟨id, tenantId, decisionId, tenantId, cfg.topic, payload, now⟩

/-- `id` is the primary key. -/
def enqueue (s : State) (e : Event) : Option State :=
  if e.id ∈ s.rows.map (·.event.id) then none
  else some { s with rows := s.rows ++ [⟨e, none, 0, none⟩] }

/-! ### The relay -/

/-- An answer to the query of `pending`: the oldest unsent rows, oldest first.
    Rows of one `created_at` come in any order. -/
structure IsPending (s : State) (limit : ℕ) (rows : List Row) : Prop where
  nodup : rows.Nodup
  unsent : ∀ r ∈ rows, r ∈ s.rows ∧ r.sentAt = none
  sorted : rows.Pairwise fun a b => a.event.createdAt ≤ b.event.createdAt
  length : rows.length = min limit (s.rows.filter fun r => r.sentAt = none).length
  oldest : ∀ r ∈ s.rows, r.sentAt = none → r ∉ rows →
    ∀ q ∈ rows, q.event.createdAt ≤ r.event.createdAt

instance (s : State) (limit : ℕ) (rows : List Row) : Decidable (IsPending s limit rows) :=
  decidable_of_iff
    (rows.Nodup ∧ (∀ r ∈ rows, r ∈ s.rows ∧ r.sentAt = none) ∧
      (rows.Pairwise fun a b => a.event.createdAt ≤ b.event.createdAt) ∧
      rows.length = min limit (s.rows.filter fun r => r.sentAt = none).length ∧
      ∀ r ∈ s.rows, r.sentAt = none → r ∉ rows → ∀ q ∈ rows, q.event.createdAt ≤ r.event.createdAt)
    ⟨fun ⟨h₁, h₂, h₃, h₄, h₅⟩ => ⟨h₁, h₂, h₃, h₄, h₅⟩,
      fun ⟨h₁, h₂, h₃, h₄, h₅⟩ => ⟨h₁, h₂, h₃, h₄, h₅⟩⟩

def markSent (now : ℕ) (row : Row) : Row := { row with sentAt := some now }

def markFailed (row : Row) (err : String) : Row :=
  { row with attempts := row.attempts + 1, lastError := some (err.take 2000).toString }

/-- The second loop of `relay_once`, at one row. -/
def settle (now : ℕ) (row : Row) : Report → Row
  | .ok => markSent now row
  | .error err => markFailed row err
  | .none => markFailed row "no delivery report"

/-- The rows of the pass with the broker's part in each. -/
abbrev Pass := List (Row × Delivery)

def Pass.accepted (pass : Pass) : List Event := (pass.filter fun x => x.2.accepted).map (·.1.event)

def Pass.acked (pass : Pass) : List String :=
  (pass.filter fun x => x.2.report = .ok).map (·.1.event.id)

def Pass.apply (pass : Pass) (now : ℕ) (row : Row) : Row :=
  match pass.find? fun x => x.1.event.id = row.event.id with
  | some x => settle now row x.2.report
  | none => row

/-- The counters `relay_once` returns. -/
structure Result where
  sent : ℕ
  failed : ℕ
  pending : ℕ
  deriving DecidableEq, Repr

def Pass.result (pass : Pass) : Result :=
  ⟨pass.acked.length, pass.length - pass.acked.length, pass.length⟩

/-- One pass.  What the broker accepted stays accepted when the process dies
    before the stamps are committed; it returns nothing then. -/
def relayOnce (cfg : Config) (s : State) (limit now : ℕ) (pass : Pass) (dies : Bool) :
    Option (State × Option Result) :=
  if !cfg.enabled then some (s, some ⟨0, 0, 0⟩)
  else if IsPending s limit (pass.map (·.1)) then
    let s' := { s with log := s.log ++ pass.accepted, acked := s.acked ++ pass.acked }
    if dies then some (s', none)
    else some ({ s' with rows := s.rows.map (pass.apply now) }, some pass.result)
  else none

inductive Act
  | enqueue (id tenantId decisionId payload : String) (now : ℕ)
  | relay (limit now : ℕ) (pass : Pass) (dies : Bool)

def step (cfg : Config) (s : State) : Act → Option State
  | .enqueue id tenantId decisionId payload now =>
    Outbox.enqueue s (newEvent cfg id tenantId decisionId payload now)
  | .relay limit now pass dies => (relayOnce cfg s limit now pass dies).map (·.1)

/-- In this pass `y` enters the topic for the first time, and the older row `x` of
    its stream is still not there. -/
def Overtakes (cfg : Config) (s : State) (y x : Row × Delivery) : Prop :=
  SameStream cfg x.1.event y.1.event ∧ x.1.event.createdAt < y.1.event.createdAt ∧
    (y.2.accepted = true ∧ y.1.event.id ∉ eventIds s.log) ∧
    (x.2.accepted = false ∧ x.1.event.id ∉ eventIds s.log)

instance (cfg : Config) (s : State) (y x : Row × Delivery) : Decidable (Overtakes cfg s y x) :=
  inferInstanceAs (Decidable (_ ∧ _ ∧ (_ ∧ ¬ _) ∧ (_ ∧ ¬ _)))

/-- No row overtakes an older one of its stream, in a pass or by being committed
    behind a younger one that is in the topic already. -/
def Orderly (cfg : Config) (s : State) : Act → Prop
  | .enqueue id tenantId decisionId payload now =>
    ∀ a ∈ s.log, ¬ (SameStream cfg a (newEvent cfg id tenantId decisionId payload now) ∧
      now < a.createdAt)
  | .relay _ _ pass _ => ∀ y ∈ pass, ∀ x ∈ pass, ¬ Overtakes cfg s y x

instance (cfg : Config) (s : State) (a : Act) : Decidable (Orderly cfg s a) := by
  cases a <;> dsimp only [Orderly] <;> infer_instance

def InOrder (cfg : Config) (s : State) : Prop :=
  (firstCopies s.log).Pairwise fun a b => SameStream cfg a b → a.createdAt ≤ b.createdAt

/-- Every stamped row was acknowledged by the broker. -/
def Stamped (s : State) : Prop := ∀ r ∈ s.rows, r.sentAt ≠ none → r.event.id ∈ s.acked

theorem mem_eventIds {es : List Event} {i : String} : i ∈ eventIds es ↔ ∃ e ∈ es, e.id = i :=
  List.mem_map

theorem firstCopies_subset (es : List Event) : firstCopies es ⊆ es := by
  induction es with
  | nil => exact List.Subset.refl _
  | cons e es ih => refine List.cons_subset_cons e fun f hf => ih (List.mem_filter.1 hf).1

theorem firstCopies_append (es fs : List Event) :
    firstCopies (es ++ fs) =
      firstCopies es ++ (firstCopies fs).filter fun f => f.id ∉ eventIds es := by
  induction es with
  | nil => simp [firstCopies, eventIds]
  | cons e es ih =>
    simp only [List.cons_append, firstCopies, ih, List.filter_append, List.filter_filter]
    simp [eventIds, not_or]

theorem firstCopies_sublist (es : List Event) : (firstCopies es).Sublist es := by
  induction es with
  | nil => exact List.Sublist.refl _
  | cons e es ih => exact (List.filter_sublist.trans ih).cons_cons e

/-! ### The invariant -/

structure Inv (cfg : Config) (s : State) : Prop where
  keys : (s.rows.map (·.event.id)).Nodup
  logged : ∀ a ∈ s.log, ∃ r ∈ s.rows, r.event = a
  acked : ∀ i ∈ s.acked, i ∈ eventIds s.log
  /-- An event still missing from the topic is not older than those of its stream. -/
  ahead : ∀ a ∈ s.log, ∀ r ∈ s.rows, r.event.id ∉ eventIds s.log →
    SameStream cfg a r.event → a.createdAt ≤ r.event.createdAt
  order : InOrder cfg s

theorem inv_init (cfg : Config) : Inv cfg State.init where
  keys := List.nodup_nil
  logged := by simp [State.init]
  acked := by simp [State.init]
  ahead := by simp [State.init]
  order := List.Pairwise.nil

section Steps
variable {cfg : Config} {s s' : State}

variable {e : Event} {r : Row} {limit : ℕ} {dies : Bool} {a : Act}

theorem enqueue_inv (h : Inv cfg s)
    (hok : ∀ a ∈ s.log, SameStream cfg a e → a.createdAt ≤ e.createdAt)
    (hs : enqueue s e = some s') : Inv cfg s' := by
  unfold enqueue at hs
  split at hs
  · cases hs
  · next hnew =>
    cases hs
    exact
      { keys := by
          rw [List.map_append, List.nodup_append]
          refine ⟨h.keys, List.nodup_singleton _, ?_⟩
          simp_all
        logged := fun a ha => by
          obtain ⟨r, hr, hra⟩ := h.logged a ha
          exact ⟨r, List.mem_append_left _ hr, hra⟩
        acked := h.acked
        ahead := fun a ha r hr hlog hst => by
          rcases List.mem_append.1 hr with hr | hr
          · exact h.ahead a ha r hr hlog hst
          simp_all
        order := h.order }

/-! ### The relay keeps it -/

@[simp] theorem settle_event (now : ℕ) (row : Row) (rep : Report) :
    (settle now row rep).event = row.event := by
  cases rep <;> rfl

@[simp] theorem apply_event (pass : Pass) (now : ℕ) (row : Row) :
    (pass.apply now row).event = row.event := by
  unfold Pass.apply
  split
  · exact settle_event _ _ _
  · rfl

variable {pass : Pass} {now : ℕ}

theorem apply_sentAt {row : Row} (h : (pass.apply now row).sentAt ≠ none) :
    row.sentAt ≠ none ∨ row.event.id ∈ pass.acked := by
  unfold Pass.apply at h
  split at h
  · next x hx =>
    cases hrep : x.2.report with
    | ok =>
      have hid : x.1.event.id = row.event.id := by simpa using List.find?_some hx
      refine .inr (List.mem_map.2 ⟨x, List.mem_filter.2 ⟨List.mem_of_find?_eq_some hx, ?_⟩, hid⟩)
      simpa using hrep
    | error err => rw [hrep] at h; exact .inl h
    | none => rw [hrep] at h; exact .inl h
  · exact .inl h

theorem mem_accepted : e ∈ pass.accepted ↔ ∃ x ∈ pass, x.2.accepted = true ∧ x.1.event = e := by
  simp [Pass.accepted, and_assoc]

theorem acked_subset_accepted (pass : Pass) : ∀ i ∈ pass.acked, i ∈ eventIds pass.accepted := by
  intro i hi
  obtain ⟨x, hx, rfl⟩ := List.mem_map.1 hi
  obtain ⟨hx, hrep⟩ := List.mem_filter.1 hx
  exact mem_eventIds.2
    ⟨x.1.event, mem_accepted.2 ⟨x, hx, x.2.ok_accepted (by simpa using hrep), rfl⟩, rfl⟩

theorem Inv.row_eq (h : Inv cfg s) {q : Row} (hr : r ∈ s.rows) (hq : q ∈ s.rows)
    (hid : r.event.id = q.event.id) : r = q :=
  List.inj_on_of_nodup_map h.keys hr hq hid

theorem Inv.mem_log (h : Inv cfg s) (hr : r ∈ s.rows)
    (hid : r.event.id ∈ eventIds s.log) : r.event ∈ s.log := by
  obtain ⟨a, ha, hai⟩ := mem_eventIds.1 hid
  obtain ⟨q, hq, rfl⟩ := h.logged a ha
  rwa [← h.row_eq hq hr hai]

theorem produce_inv (h : Inv cfg s)
    (hstamped : Stamped s) (hp : IsPending s limit (pass.map (·.1))) (hok : Orderly cfg s (.relay limit now pass dies)) :
    Inv cfg { s with log := s.log ++ pass.accepted, acked := s.acked ++ pass.acked } := by
  have hrow : ∀ x ∈ pass, x.1 ∈ s.rows ∧ x.1.sentAt = none := fun x hx =>
    hp.unsent x.1 (List.mem_map_of_mem hx)
  have hids : eventIds (s.log ++ pass.accepted) = eventIds s.log ++ eventIds pass.accepted :=
    List.map_append
  exact
    { keys := h.keys
      logged := fun a ha => by
        rcases List.mem_append.1 ha with ha | ha
        · exact h.logged a ha
        · obtain ⟨x, hx, -, rfl⟩ := mem_accepted.1 ha
          exact ⟨x.1, (hrow x hx).1, rfl⟩
      acked := fun i hi => by
        rw [hids]
        rcases List.mem_append.1 hi with hi | hi
        · exact List.mem_append_left _ (h.acked i hi)
        · exact List.mem_append_right _ (acked_subset_accepted pass i hi)
      ahead := fun a ha r hr hlog hst => by
        rw [hids, List.mem_append, not_or] at hlog
        by_cases hlogged : a ∈ s.log
        · exact h.ahead a hlogged r hr hlog.1 hst
        · obtain ⟨y, hy, hacc, rfl⟩ := mem_accepted.1 ((List.mem_append.1 ha).resolve_left hlogged)
          -- `r` has not been stamped, or it would be in the topic
          have hunsent : r.sentAt = none := by
            by_contra hsent
            exact hlog.1 (h.acked _ (hstamped r hr hsent))
          by_cases hin : r ∈ pass.map (·.1)
          · obtain ⟨x, hx, rfl⟩ := List.mem_map.1 hin
            by_contra hlt
            refine hok y hy x hx ⟨⟨hst.1.symm, hst.2.symm⟩, Nat.lt_of_not_le hlt, ⟨hacc, ?_⟩, ?_,
              hlog.1⟩
            · exact fun hid => hlogged (h.mem_log (hrow y hy).1 hid)
            · rw [← Bool.not_eq_true]
              exact fun hxa => hlog.2 (mem_eventIds.2 ⟨_, mem_accepted.2 ⟨x, hx, hxa, rfl⟩, rfl⟩)
          · exact hp.oldest r hr hunsent hin y.1 (List.mem_map_of_mem hy)
      order := by
        unfold InOrder
        rw [firstCopies_append, List.pairwise_append]
        refine ⟨h.order, ?_, ?_⟩
        · -- among the new ones the order is that of the query
          have hsorted : pass.accepted.Pairwise fun a b => a.createdAt ≤ b.createdAt := by
            unfold Pass.accepted
            refine List.Pairwise.map _ (fun _ _ hab => hab) (List.Pairwise.filter _ ?_)
            simpa [List.pairwise_map] using hp.sorted
          have hnew := (hsorted.sublist (firstCopies_sublist _)).sublist
            (List.filter_sublist (p := fun f => decide (f.id ∉ eventIds s.log)))
          exact hnew.imp (S := fun a b => SameStream cfg a b → a.createdAt ≤ b.createdAt)
            fun hab _ => hab
        · intro a ha b hb hst
          obtain ⟨hb, hnew⟩ := List.mem_filter.1 hb
          obtain ⟨y, hy, -, rfl⟩ := mem_accepted.1 (firstCopies_subset _ hb)
          exact h.ahead a (firstCopies_subset _ ha) y.1 (hrow y hy).1 (by simpa using hnew) hst }

theorem stamp_inv (h : Inv cfg s) : Inv cfg { s with rows := s.rows.map (pass.apply now) } := by
  have hmap : (s.rows.map (pass.apply now)).map (·.event.id) = s.rows.map (·.event.id) := by
    simp [List.map_map, Function.comp_def]
  exact
    { keys := by rw [hmap]; exact h.keys
      logged := fun a ha => by
        obtain ⟨r, hr, rfl⟩ := h.logged a ha
        exact ⟨_, List.mem_map_of_mem hr, apply_event _ _ _⟩
      acked := h.acked
      ahead := fun a ha r hr hlog hst => by
        obtain ⟨q, hq, rfl⟩ := List.mem_map.1 hr
        rw [apply_event] at hlog hst ⊢
        exact h.ahead a ha q hq hlog hst
      order := h.order }

theorem relayOnce_inv {res : Option Result}
    (h : Inv cfg s) (hstamped : Stamped s) (hok : Orderly cfg s (.relay limit now pass dies))
    (hs : relayOnce cfg s limit now pass dies = some (s', res)) : Inv cfg s' := by
  unfold relayOnce at hs
  split at hs
  · cases hs; exact h
  · split at hs
    · next hp =>
      have hprod := produce_inv h hstamped hp hok
      dsimp only at hs
      split at hs
      · cases hs; exact hprod
      · cases hs
        exact stamp_inv hprod
    · cases hs

theorem step_inv (h : Inv cfg s) (hstamped : Stamped s) (hok : Orderly cfg s a)
    (hs : step cfg s a = some s') : Inv cfg s' := by
  cases a with
  | enqueue id tenantId decisionId payload now =>
    exact enqueue_inv h (fun a ha hst => Nat.le_of_not_lt fun hlt => hok a ha ⟨hst, hlt⟩) hs
  | relay limit now pass dies =>
    obtain ⟨⟨t, res⟩, ht, rfl⟩ := Option.map_eq_some_iff.1 hs
    exact relayOnce_inv h hstamped hok ht

theorem step_stamped (h : Stamped s) (hs : step cfg s a = some s') : Stamped s' := by
  cases a with
  | enqueue id tenantId decisionId payload now =>
    simp only [step, enqueue] at hs
    split at hs
    · cases hs
    · cases hs
      intro r hr hsent
      rcases List.mem_append.1 hr with hr | hr
      · exact h r hr hsent
      simp_all
  | relay limit now pass dies =>
    obtain ⟨⟨t, res⟩, ht, rfl⟩ := Option.map_eq_some_iff.1 hs
    unfold relayOnce at ht
    split at ht
    · cases ht; exact h
    · split at ht
      · dsimp only at ht
        split at ht
        · cases ht
          exact fun r hr hsent => List.mem_append_left _ (h r hr hsent)
        · cases ht
          intro r hr hsent
          obtain ⟨q, hq, rfl⟩ := List.mem_map.1 hr
          rw [apply_event]
          rcases apply_sentAt hsent with hsent | hmem
          · exact List.mem_append_left _ (h q hq hsent)
          · exact List.mem_append_right _ hmem
      · cases ht

end Steps

/-! ### Runs -/

theorem stamped_acked (cfg : Config) {s : State}
    (h : Lib.Reachable (step cfg) State.init s) : Stamped s :=
  Lib.Reach.invariant (by simp [Stamped, State.init]) (fun _ _ _ hi _ hs => step_stamped hi hs) h

/-- **Per-tenant order.**  However the broker answers and whenever a pass dies, a
    stamped row was acknowledged; and while no row overtakes an older one of its
    stream, the first copies of a tenant's events stand in the topic in
    `created_at` order. -/
theorem first_copies_in_order (cfg : Config) :
    (∀ s, Lib.Reach (step cfg) (Orderly cfg) State.init s → InOrder cfg s) ∧
      ∀ s, Lib.Reachable (step cfg) State.init s → Stamped s := by
  refine ⟨fun s h => ?_, fun s h => stamped_acked cfg h⟩
  have hinv := Lib.Reach.invariant (I := fun s => Inv cfg s ∧ Stamped s)
    ⟨inv_init cfg, by simp [Stamped, State.init]⟩
    (fun _ _ _ hi hok hs => ⟨step_inv hi.1 hi.2 hok hs, step_stamped hi.2 hs⟩) h
  exact hinv.1.order

/-- A broker that is configured, and two rows of tenant `t`, one tick apart. -/
def broker : Config := ⟨true, "rulemind.decisions"⟩

def rowAt (id : String) (now attempts : ℕ) (err : Option String) : Row :=
  ⟨newEvent broker id "t" id "" now, none, attempts, err⟩

def acks : Delivery := ⟨true, .ok, fun _ => rfl⟩

def rejects : Delivery := ⟨false, .error "rejected", by decide⟩

/-- Both rows are refused, then both are acknowledged. -/
def orderlyRun : List Act :=
  [.enqueue "e1" "t" "e1" "" 1, .enqueue "e2" "t" "e2" "" 2,
    .relay 100 3 [(rowAt "e1" 1 0 none, rejects), (rowAt "e2" 2 0 none, rejects)] false,
    .relay 100 4 [(rowAt "e1" 1 1 (some "rejected"), acks),
      (rowAt "e2" 2 1 (some "rejected"), acks)] false]

theorem orderlyRun_enabled :
    (Lib.exec (step broker) State.init orderlyRun).isSome = true := by decide

theorem orderlyRun_in_order : ∃ s, Lib.Reach (step broker) (Orderly broker) State.init s ∧
    eventIds s.log = ["e1", "e2"] ∧ InOrder broker s ∧ Stamped s := by
  have hget := (Option.some_get orderlyRun_enabled).symm
  have hreach := Lib.reach_exec hget (show Lib.Along _ (Orderly broker) _ _ by decide)
  exact ⟨_, hreach, by decide, (first_copies_in_order broker).1 _ hreach,
    (first_copies_in_order broker).2 _ (Lib.reachable_exec hget)⟩

/-- The older row is refused in the pass that accepts the younger one. -/
def overtakingRun : List Act :=
  [.enqueue "e1" "t" "e1" "" 1, .enqueue "e2" "t" "e2" "" 2,
    .relay 100 3 [(rowAt "e1" 1 0 none, rejects), (rowAt "e2" 2 0 none, acks)] false,
    .relay 100 4 [(rowAt "e1" 1 1 (some "rejected"), acks)] false]

theorem overtakingRun_enabled :
    (Lib.exec (step broker) State.init overtakingRun).isSome = true := by decide

theorem rejected_row_is_overtaken : ∃ s, Lib.Reachable (step broker) State.init s ∧
    eventIds s.log = ["e2", "e1"] ∧ ¬ InOrder broker s := by
  refine ⟨_, Lib.reachable_exec (Option.some_get overtakingRun_enabled).symm, by decide, ?_⟩
  unfold InOrder
  decide

end RuleMind.Outbox
