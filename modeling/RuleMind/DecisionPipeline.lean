/-
  From the outbox to the handlers: the backlog that `relay_once` drains, and the events of
  `serialize` in the hands of the consumers of `app/decision_consumer.py`.
-/
import RuleMind.DecisionOutbox
import RuleMind.DecisionConsumer

namespace RuleMind.Outbox

/-! ### The backlog -/

def unsentCount (s : State) : ℕ := (s.rows.filter fun r => r.sentAt = none).length

/-- A pass that the broker acknowledges and that commits. -/
def Flushes (limit : ℕ) : Act → Prop
  | .relay limit' _ pass dies => limit' = limit ∧ dies = false ∧ ∀ x ∈ pass, x.2.report = .ok
  | .enqueue .. => False

variable {cfg : Config} {s s' : State} {limit : ℕ} {pass : Pass}

/-- The ids of the rows differ, what is in the topic is of a row, and what was acknowledged is in
    the topic. -/
structure Logged (s : State) : Prop where
  keys : (s.rows.map (·.event.id)).Nodup
  rows : ∀ e ∈ s.log, ∃ r ∈ s.rows, r.event = e
  acked : ∀ i ∈ s.acked, i ∈ eventIds s.log

theorem Logged.produce (h : Logged s) (hp : IsPending s limit (pass.map (·.1))) :
    Logged { s with log := s.log ++ pass.accepted, acked := s.acked ++ pass.acked } where
  keys := h.keys
  rows := by
    intro e he
    rcases List.mem_append.1 he with he | he
    · exact h.rows e he
    · obtain ⟨x, hx, -, rfl⟩ := mem_accepted.1 he
      exact ⟨x.1, (hp.unsent x.1 (List.mem_map_of_mem hx)).1, rfl⟩
  acked := by
    intro i hi
    rw [eventIds, List.map_append, List.mem_append]
    exact (List.mem_append.1 hi).imp (h.acked i) (acked_subset_accepted pass i)

theorem Logged.stamp (h : Logged s) (now : ℕ) :
    Logged { s with rows := s.rows.map (pass.apply now) } where
  keys := by simpa [Function.comp_def] using h.keys
  rows := by simpa using h.rows
  acked := h.acked

theorem logged_of_reachable (h : Lib.Reachable (step cfg) State.init s) : Logged s := by
  refine Lib.Reach.invariant (I := Logged)
    (by constructor <;> simp [State.init]) (fun s a s' hi _ hs => ?_) h
  cases a with
  | enqueue id tenantId decisionId payload now =>
    simp only [step, enqueue] at hs
    split at hs
    · cases hs
    · next hnew =>
      cases hs
      refine ⟨by simpa [List.nodup_append, hi.keys] using hnew, fun e he => ?_, hi.acked⟩
      obtain ⟨r, hr, hre⟩ := hi.rows e he
      exact ⟨r, List.mem_append_left _ hr, hre⟩
  | relay limit now pass dies =>
    obtain ⟨⟨t, res⟩, ht, rfl⟩ := Option.map_eq_some_iff.1 hs
    unfold relayOnce at ht
    split_ifs at ht with _ hp <;> cases ht
    · exact hi
    · exact hi.produce hp
    · exact (hi.produce hp).stamp now

theorem apply_unsent (h : Logged s) (hp : IsPending s limit (pass.map (·.1)))
    (hok : ∀ x ∈ pass, x.2.report = .ok) (now : ℕ) {r : Row} (hr : r ∈ s.rows) :
    (pass.apply now r).sentAt = none ↔ r.sentAt = none ∧ r ∉ pass.map (·.1) := by
  unfold Pass.apply
  split
  · next x hx =>
    have hmem := List.mem_of_find?_eq_some hx
    have hrow : x.1 = r := List.inj_on_of_nodup_map h.keys
      (hp.unsent _ (List.mem_map_of_mem hmem)).1 hr (by simpa using List.find?_some hx)
    simp only [hok x hmem, settle, markSent, reduceCtorEq, false_iff, not_and, not_not]
    exact fun _ => hrow ▸ List.mem_map_of_mem hmem
  · next hx =>
    refine ⟨fun hsent => ⟨hsent, fun hmem => ?_⟩, And.left⟩
    obtain ⟨x, hx', rfl⟩ := List.mem_map.1 hmem
    exact List.find?_eq_none.1 hx x hx' (by simp)

/-- One pass leaves as many rows fewer as it may take. -/
theorem flush_count (h : Logged s) (hp : IsPending s limit (pass.map (·.1)))
    (hok : ∀ x ∈ pass, x.2.report = .ok) (now : ℕ) :
    ((s.rows.map (pass.apply now)).filter fun r => r.sentAt = none).length =
      unsentCount s - limit := by
  have htaken : ((s.rows.filter fun r => r.sentAt = none).filter (· ∈ pass.map (·.1))).Perm
      (pass.map (·.1)) := by
    refine (List.perm_ext_iff_of_nodup ((h.keys.of_map.filter _).filter _) hp.nodup).2 fun r => ?_
    simp only [List.mem_filter, decide_eq_true_eq]
    exact ⟨And.right, fun hr => ⟨hp.unsent r hr, hr⟩⟩
  have hlength := List.length_eq_length_filter_add (l := s.rows.filter fun r => r.sentAt = none)
    (· ∈ pass.map (·.1))
  rw [htaken.length_eq, hp.length] at hlength
  have hleft : (s.rows.map (pass.apply now)).filter (fun r => r.sentAt = none) =
      ((s.rows.filter fun r => r.sentAt = none).filter fun r => !decide (r ∈ pass.map (·.1))).map
        (pass.apply now) := by
    rw [List.filter_map, List.filter_filter]
    refine congrArg _ (List.filter_congr fun r hr => ?_)
    rw [← decide_not, ← Bool.decide_and]
    exact decide_eq_decide.2 ((apply_unsent h hp hok now hr).trans and_comm)
  rw [hleft, List.length_map, unsentCount]
  omega

/-- **The backlog drains.**  Whatever went before, a broker that acknowledges what it is given
    leaves so many rows fewer with each pass, and in the end it has acknowledged all of them. -/
theorem backlog_drains (henabled : cfg.enabled = true) {acts : List Act}
    (h : Lib.Reachable (step cfg) State.init s) (hall : ∀ a ∈ acts, Flushes limit a)
    (hrun : Lib.exec (step cfg) s acts = some s') :
    unsentCount s' = unsentCount s - acts.length * limit ∧
      (unsentCount s ≤ acts.length * limit → ∀ r ∈ s.rows, r.event.id ∈ s'.acked) := by
  have hcount : unsentCount s' = unsentCount s - acts.length * limit ∧
      s'.rows.map (·.event.id) = s.rows.map (·.event.id) := by
    induction acts generalizing s with
    | nil =>
      cases hrun
      simp
    | cons a acts ih =>
      obtain ⟨t, ht, hrest⟩ := Option.bind_eq_some_iff.1 hrun
      obtain ⟨ha, hacts⟩ := List.forall_mem_cons.1 hall
      obtain ⟨hcount, hrows⟩ := ih (h.next trivial ht) hacts hrest
      cases a with
      | enqueue id tenantId decisionId payload now => exact ha.elim
      | relay limit' now pass dies =>
        obtain ⟨rfl, rfl, hok⟩ := ha
        obtain ⟨⟨u, res⟩, hu, rfl⟩ := Option.map_eq_some_iff.1 ht
        simp only [relayOnce, henabled, Bool.not_true, Bool.false_eq_true, if_false] at hu
        split at hu
        · next hp =>
          cases hu
          refine ⟨?_, by simpa [Function.comp_def] using hrows⟩
          rw [hcount, List.length_cons, Nat.add_mul, Nat.one_mul]
          simp only [unsentCount, flush_count (logged_of_reachable h) hp hok]
          omega
        · cases hu
  refine ⟨hcount.1, fun hle r hr => ?_⟩
  obtain ⟨r', hr', hid⟩ := List.mem_map.1 (hcount.2 ▸ List.mem_map_of_mem hr)
  have hnone : unsentCount s' = 0 := by omega
  rw [← hid]
  refine stamped_acked cfg (h.trans (Lib.reachable_exec hrun)) r' hr' fun hsent => ?_
  have hunsent : r' ∈ s'.rows.filter fun r => r.sentAt = none := by simp [hr', hsent]
  exact List.ne_nil_of_mem hunsent (List.length_eq_zero_iff.1 hnone)

/-- Both rows were refused once. -/
theorem refused_rows_drain : ∃ s s', unsentCount s = 2 ∧ unsentCount s' = unsentCount s - 1 * 100 ∧
    (unsentCount s ≤ 1 * 100 → ∀ r ∈ s.rows, r.event.id ∈ s'.acked) := by
  have hget : (Lib.exec (step broker) State.init (orderlyRun.take 3)).isSome = true := by decide
  have hthen : (Lib.exec (step broker) (Option.get _ hget) (orderlyRun.drop 3)).isSome = true := by
    decide +revert
  have hflush : ∀ a ∈ orderlyRun.drop 3, Flushes 100 a :=
    List.forall_mem_singleton.2 ⟨rfl, rfl, by decide⟩
  exact ⟨_, _, by decide +revert, backlog_drains rfl
    (Lib.reachable_exec (Option.some_get hget).symm) hflush (Option.some_get hthen).symm⟩

/-! ### The topic -/

/-- `serialize`, as far as the consumer reads it. -/
def Event.message (e : Event) : Consumer.Message := .envelope (some e.id) (some e.tenantId)

/-- What the consumers find at each offset. -/
def topicOf (log : List Event) (o : ℕ) : Consumer.Message :=
  (log[o]?).elim .unparseable Event.message

def Event.key (e : Event) : Consumer.Key := ⟨e.tenantId, e.id⟩

theorem topicOf_key {log : List Event} {o : ℕ} {k : Consumer.Key}
    (h : (topicOf log o).key = some k) : ∃ e ∈ log, e.key = k := by
  unfold topicOf at h
  cases he : log[o]? with
  | none => simp [he, Consumer.Message.key] at h
  | some e =>
    refine ⟨e, List.mem_of_getElem? he, ?_⟩
    simp only [he, Option.elim_some, Event.message, Consumer.Message.key] at h
    split at h
    · cases h
    · exact Option.some.inj h

theorem claimed_from {topic : ℕ → Consumer.Message} {t : Consumer.State}
    (h : Lib.Reachable (Consumer.step topic) Consumer.State.init t) :
    ∀ k ∈ t.claims, ∃ o, (topic o).key = some k := by
  refine Lib.Reach.invariant (I := fun t => ∀ k ∈ t.claims, ∃ o, (topic o).key = some k)
    (by simp [Consumer.State.init]) (fun t a t' hi _ hs => ?_) h
  cases a <;> simp only [Consumer.step, Consumer.poll, Consumer.handleMessage,
    Consumer.handlerReturns, Consumer.handlerRaises, Consumer.toDeadLetter, Consumer.commit] at hs
  case handleMessage c =>
    split at hs
    · next o _ =>
      split at hs
      · next k hk =>
        split at hs <;> cases hs
        · exact hi
        · exact List.forall_mem_cons.2 ⟨⟨o, hk⟩, hi⟩
      · split at hs <;> cases hs <;> exact hi
    · cases hs
  case crash c =>
    cases hs
    exact hi
  all_goals split at hs <;> cases hs <;> exact hi

/-- **Effectively once, from the outbox to the handlers.**  No handler completes twice for an event,
    and only for those of rows; and once careful consumers have committed the topic, each row that
    was sent has had its effect or is in hand. -/
theorem sent_once {s : State} (hs : Lib.Reachable (step cfg) State.init s) {t : Consumer.State}
    (ht : Lib.Reachable (Consumer.step (topicOf s.log)) Consumer.State.init t) :
    t.completed.Nodup ∧ (∀ k ∈ t.completed, ∃ r ∈ s.rows, r.event.key = k) ∧
    (Lib.Reach (Consumer.step (topicOf s.log)) (Consumer.Careful (topicOf s.log))
      Consumer.State.init t → (∀ o < s.log.length, o ∈ t.committed) →
      ∀ r ∈ s.rows, r.sentAt ≠ none → r.event.id ≠ "" → r.event.tenantId ≠ "" →
        t.Effective r.event.key ∨
          ∃ c, (t.consumer c).inHand (topicOf s.log) = some r.event.key) := by
  have hlogged := logged_of_reachable hs
  have hinv := Lib.Reach.invariant (I := Consumer.Inv (topicOf s.log)) Consumer.inv_init
    (fun _ _ _ hi _ h => Consumer.step_inv hi h) ht
  refine ⟨hinv.nodup, fun k hk => ?_, fun hcareful hcommitted r hr hsent hid htenant => ?_⟩
  · obtain ⟨o, ho⟩ := claimed_from ht k (hinv.completed hk)
    obtain ⟨e, he, rfl⟩ := topicOf_key ho
    obtain ⟨r, hr, rfl⟩ := hlogged.rows e he
    exact ⟨r, hr, rfl⟩
  · have hkept := (Lib.Reach.invariant
      (I := fun t => Consumer.Inv (topicOf s.log) t ∧ Consumer.Kept (topicOf s.log) t)
      ⟨Consumer.inv_init, by simp [Consumer.Kept, Consumer.State.init]⟩
      (fun _ _ _ hi hok h => ⟨Consumer.step_inv hi.1 h, Consumer.step_kept hi.1 hi.2 hok h⟩)
      hcareful).2
    obtain ⟨e, he, hei⟩ := mem_eventIds.1 (hlogged.acked _ (stamped_acked cfg hs r hr hsent))
    obtain ⟨q, hq, rfl⟩ := hlogged.rows e he
    obtain rfl := List.inj_on_of_nodup_map hlogged.keys hq hr hei
    obtain ⟨o, ho, hlog⟩ := List.getElem_of_mem he
    refine hkept _ (hinv.committed o (hcommitted o ho) _ ?_)
    simp [topicOf, List.getElem?_eq_getElem ho, hlog, Event.message, Event.key,
      Consumer.Message.key, hid, htenant]

/-- One consumer handles both events of the orderly run. -/
def handledRun : List Consumer.Act :=
  [.poll 0 0, .handleMessage 0, .handlerReturns 0, .commit 0,
    .poll 0 1, .handleMessage 0, .handlerReturns 0, .commit 0]

theorem handledRun_enabled :
    (Lib.exec (Consumer.step (topicOf (Option.get _ orderlyRun_enabled).log)) .init
      handledRun).isSome = true := by decide

theorem orderlyRun_sent_once : ∃ (s : State) (t : Consumer.State), s.rows.length = 2 ∧
    t.completed.Nodup ∧ ∀ r ∈ s.rows, t.Effective r.event.key ∨
      ∃ c, (t.consumer c).inHand (topicOf s.log) = some r.event.key := by
  have ht := (Option.some_get handledRun_enabled).symm
  have hall := sent_once (Lib.reachable_exec (Option.some_get orderlyRun_enabled).symm)
    (Lib.reachable_exec ht)
  exact ⟨_, _, by decide, hall.1, fun r hr => hall.2.2 (Lib.reach_exec ht (by decide)) (by decide) r
    hr (by decide +revert) (by decide +revert) (by decide +revert)⟩

end RuleMind.Outbox
