/-
  The decision event consumer (`app/decision_consumer.py`).

  Three durable actions make up the handling of a message: the claim of its event
  (`idempotency_records`), the handler, and the commit of its offset.  Any message
  may be delivered to any consumer at any time and any number of times, and a
  consumer may die between any two steps.  An exception that leaves
  `consume_once` has the same effect as a kill: nothing more is committed.
-/
import RuleMind.Lib.Run
import Mathlib.Data.List.Nodup

namespace RuleMind.Consumer

/-! ### Messages -/

/-- What `handle_message` finds in the body: no JSON, JSON that is not an object,
    or an envelope with the two fields it reads. -/
inductive Message
  | unparseable
  | notObject
  | envelope (eventId tenantId : Option String)
  deriving DecidableEq, Repr

structure Key where
  tenantId : String
  eventId : String
  deriving DecidableEq, Repr

/-- The event of a well-formed message: both fields are there and not empty. -/
def Message.key : Message → Option Key
  | .envelope (some e) (some t) => if e = "" ∨ t = "" then none else some ⟨t, e⟩
  | _ => none

inductive Outcome
  | processed
  | duplicate
  | deadLetter
  deriving DecidableEq, Repr

/-! ### Consumers -/

/-- Where a consumer stands with the message at offset `o`: polled, claimed with
    the handler to run, through with `handle_message`, or parked in the dead-letter
    topic. -/
inductive Phase
  | idle
  | polled (o : ℕ)
  | claimed (o : ℕ) (k : Key)
  | handled (o : ℕ) (out : Outcome)
  | parked (o : ℕ)
  deriving DecidableEq, Repr

/-- `completed` lists the events whose handler has returned, `dlq` what is in the
    dead-letter topic, `committed` the offsets whose commit has returned. -/
structure State where
  claims : List Key
  completed : List Key
  dlq : List Message
  committed : List ℕ
  consumer : ℕ → Phase

def State.init : State := ⟨[], [], [], [], fun _ => .idle⟩

def State.go (s : State) (c : ℕ) (ph : Phase) : State :=
  { s with consumer := Function.update s.consumer c ph }

section Step
variable (topic : ℕ → Message)

def poll (s : State) (c o : ℕ) : Option State :=
  match s.consumer c with
  | .idle => some (s.go c (.polled o))
  | _ => none

/-- `handle_message` up to the handler.  The unique constraint decides the claim;
    `.get` of something that is not an object raises. -/
def handleMessage (s : State) (c : ℕ) : Option State :=
  match s.consumer c with
  | .polled o =>
    match (topic o).key with
    | some k =>
      if k ∈ s.claims then some (s.go c (.handled o .duplicate))
      else some ({ s with claims := k :: s.claims }.go c (.claimed o k))
    | none =>
      if topic o = .notObject then some (s.go c .idle)
      else some (s.go c (.handled o .deadLetter))
  | _ => none

/-- A consumer without a handler is one whose handler does nothing. -/
def handlerReturns (s : State) (c : ℕ) : Option State :=
  match s.consumer c with
  | .claimed o k => some ({ s with completed := k :: s.completed }.go c (.handled o .processed))
  | _ => none

def handlerRaises (s : State) (c : ℕ) : Option State :=
  match s.consumer c with
  | .claimed o _ => some (s.go c (.handled o .deadLetter))
  | _ => none

/-- `_to_dead_letter`: best effort, the caller goes on either way. -/
def toDeadLetter (s : State) (c : ℕ) (written : Bool) : Option State :=
  match s.consumer c with
  | .handled o .deadLetter =>
    some ({ s with dlq := if written then topic o :: s.dlq else s.dlq }.go c (.parked o))
  | _ => none

def commit (s : State) (c : ℕ) : Option State :=
  match s.consumer c with
  | .handled o .processed | .handled o .duplicate | .parked o =>
    some ({ s with committed := o :: s.committed }.go c .idle)
  | _ => none

/-- A kill, or an exception out of `consume_once`; the offset is not committed. -/
def crash (s : State) (c : ℕ) : Option State := some (s.go c .idle)

inductive Act
  | poll (c o : ℕ)
  | handleMessage (c : ℕ)
  | handlerReturns (c : ℕ)
  | handlerRaises (c : ℕ)
  | toDeadLetter (c : ℕ) (written : Bool)
  | commit (c : ℕ)
  | crash (c : ℕ)

def step (s : State) : Act → Option State
  | .poll c o => Consumer.poll s c o
  | .handleMessage c => Consumer.handleMessage topic s c
  | .handlerReturns c => Consumer.handlerReturns s c
  | .handlerRaises c => Consumer.handlerRaises s c
  | .toDeadLetter c written => Consumer.toDeadLetter topic s c written
  | .commit c => Consumer.commit s c
  | .crash c => Consumer.crash s c

/-- The event a consumer has claimed and not yet finished with. -/
def Phase.inHand : Phase → Option Key
  | .claimed _ k => some k
  | .handled o .deadLetter => (topic o).key
  | _ => none

/-- The event was handled, or a message of it is in the dead-letter topic. -/
def State.Effective (s : State) (k : Key) : Prop := k ∈ s.completed ∨ ∃ m ∈ s.dlq, m.key = some k

/-- A committed, well-formed event that no consumer has in hand has had its effect. -/
def AtLeastOnce (s : State) : Prop :=
  ∀ o ∈ s.committed, ∀ k, (topic o).key = some k →
    (∀ c, (s.consumer c).inHand topic ≠ some k) → s.Effective k

/-- No consumer dies with an event in hand, and no such event fails to be parked. -/
def Careful (s : State) : Act → Prop
  | .crash c | .toDeadLetter c false => (s.consumer c).inHand topic = none
  | _ => True

instance (s : State) (a : Act) : Decidable (Careful topic s a) := by
  rcases a with _ | _ | _ | _ | ⟨c, _ | _⟩ | _ | _ <;> dsimp only [Careful] <;> infer_instance

end Step

/-! ### The claim admits one consumer -/

section Invariant
variable {topic : ℕ → Message} {s s' : State} {a : Act}

/-- An event is claimed before anything else happens to it, by one consumer. -/
structure Inv (topic : ℕ → Message) (s : State) : Prop where
  completed : s.completed ⊆ s.claims
  nodup : s.completed.Nodup
  /-- The claimed message is the one that was polled. -/
  source : ∀ c o k, s.consumer c = .claimed o k → (topic o).key = some k
  inHand : ∀ c k, (s.consumer c).inHand topic = some k → k ∈ s.claims ∧ k ∉ s.completed
  excl : ∀ c d k, (s.consumer c).inHand topic = some k → (s.consumer d).inHand topic = some k →
    c = d
  handled : ∀ c o out k, s.consumer c = .handled o out → (topic o).key = some k → k ∈ s.claims
  parked : ∀ c o k, s.consumer c = .parked o → (topic o).key = some k → k ∈ s.claims
  committed : ∀ o ∈ s.committed, ∀ k, (topic o).key = some k → k ∈ s.claims

theorem inv_init : Inv topic State.init where
  completed := List.Subset.refl _
  nodup := List.nodup_nil
  source := by simp [State.init]
  inHand := by simp [State.init, Phase.inHand]
  excl := by simp [State.init, Phase.inHand]
  handled := by simp [State.init]
  parked := by simp [State.init]
  committed := by simp [State.init]

variable {ph : Phase} {claims : List Key} {dlq : List Message} {committed : List ℕ} {o : ℕ}

/-- A consumer moves to `ph`, taking nothing in hand that it did not have, while
    claims and commits may grow. -/
theorem Inv.go (h : Inv topic s) (c : ℕ) (hcl : s.claims ⊆ claims)
    (hco : ∀ o ∈ committed, ∀ k, (topic o).key = some k → k ∈ claims)
    (hsrc : ∀ o k, ph = .claimed o k → (topic o).key = some k)
    (hhand : ∀ k, ph.inHand topic = some k → (s.consumer c).inHand topic = some k)
    (hhd : ∀ o out k, ph = .handled o out → (topic o).key = some k → k ∈ claims)
    (hpk : ∀ o k, ph = .parked o → (topic o).key = some k → k ∈ claims) :
    Inv topic (State.go ⟨claims, s.completed, dlq, committed, s.consumer⟩ c ph) := by
  have hold : ∀ d k, (Function.update s.consumer c ph d).inHand topic = some k →
      (s.consumer d).inHand topic = some k := by
    intro d k hd
    by_cases hdc : d = c
    · simp_all
    · rwa [Function.update_of_ne hdc] at hd
  exact
    { completed := List.Subset.trans h.completed hcl
      nodup := h.nodup
      source := fun d o k hd => by
        by_cases hdc : d = c
        · subst hdc; exact hsrc o k (by simpa [State.go] using hd)
        · exact h.source d o k (by simpa [State.go, hdc] using hd)
      inHand := fun d k hd => (h.inHand d k (hold d k hd)).imp_left fun hk => hcl hk
      excl := fun d e k hd he => h.excl d e k (hold d k hd) (hold e k he)
      handled := fun d o out k hd hk => by
        by_cases hdc : d = c
        · subst hdc; exact hhd o out k (by simpa [State.go] using hd) hk
        · exact hcl (h.handled d o out k (by simpa [State.go, hdc] using hd) hk)
      parked := fun d o k hd hk => by
        by_cases hdc : d = c
        · subst hdc; exact hpk o k (by simpa [State.go] using hd) hk
        · exact hcl (h.parked d o k (by simpa [State.go, hdc] using hd) hk)
      committed := hco }

variable {c : ℕ}

theorem poll_inv (h : Inv topic s) (hs : poll s c o = some s') : Inv topic s' := by
  unfold poll at hs
  split at hs
  · cases hs
    exact h.go c (List.Subset.refl _) h.committed (by simp) (by simp [Phase.inHand]) (by simp)
      (by simp)
  · cases hs

theorem claim_inv {k : Key} (h : Inv topic s) (hkey : (topic o).key = some k) (hk : k ∉ s.claims) :
    Inv topic (State.go { s with claims := k :: s.claims } c (.claimed o k)) := by
  have hother : ∀ d j, d ≠ c → (Function.update s.consumer c (.claimed o k) d).inHand topic = some j →
      (s.consumer d).inHand topic = some j ∧ j ≠ k := by
    intro d j hd hj
    rw [Function.update_of_ne hd] at hj
    exact ⟨hj, fun he => hk (he ▸ (h.inHand d j hj).1)⟩
  have hself : (Function.update s.consumer c (.claimed o k) c).inHand topic = some k := by
    rw [Function.update_self]; rfl
  exact
    { completed := List.Subset.trans h.completed (List.subset_cons_self _ _)
      nodup := h.nodup
      source := fun d p j hd => by
        by_cases hdc : d = c
        · simp_all [State.go]
        · exact h.source d p j (by simpa [State.go, hdc] using hd)
      inHand := fun d j hd => by
        by_cases hdc : d = c
        · subst hdc
          cases hself.symm.trans hd
          exact ⟨List.mem_cons_self, fun hc => hk (h.completed hc)⟩
        · exact (h.inHand d j (hother d j hdc hd).1).imp_left (List.mem_cons_of_mem _)
      excl := fun d e j hd he => by
        by_cases hdc : d = c <;> by_cases hec : e = c
        · exact hdc.trans hec.symm
        · subst hdc
          exact absurd (Option.some.inj (hd.symm.trans hself)) (hother e j hec he).2
        · subst hec
          exact absurd (Option.some.inj (he.symm.trans hself)) (hother d j hdc hd).2
        · exact h.excl d e j (hother d j hdc hd).1 (hother e j hec he).1
      handled := fun d p out j hd hj => by
        by_cases hdc : d = c
        · subst hdc; simp [State.go] at hd
        · exact List.mem_cons_of_mem _ (h.handled d p out j (by simpa [State.go, hdc] using hd) hj)
      parked := fun d p j hd hj => by
        by_cases hdc : d = c
        · subst hdc; simp [State.go] at hd
        · exact List.mem_cons_of_mem _ (h.parked d p j (by simpa [State.go, hdc] using hd) hj)
      committed := fun p hp j hj => List.mem_cons_of_mem _ (h.committed p hp j hj) }

theorem handleMessage_inv (h : Inv topic s) (hs : handleMessage topic s c = some s') :
    Inv topic s' := by
  unfold handleMessage at hs
  split at hs
  · next o hph =>
    split at hs
    · next k hkey =>
      split at hs
      · next hk =>
        cases hs
        refine h.go c (List.Subset.refl _) h.committed (by simp) (by simp [Phase.inHand]) ?_
          (by simp)
        intro p out j hp hj
        cases hp
        rw [hkey] at hj
        exact Option.some.inj hj ▸ hk
      grind [claim_inv]
    · next hkey =>
      split at hs
      · cases hs
        exact h.go c (List.Subset.refl _) h.committed (by simp) (by simp [Phase.inHand]) (by simp)
          (by simp)
      · cases hs
        refine h.go c (List.Subset.refl _) h.committed (by simp) ?_ ?_ (by simp)
        · simp [Phase.inHand, hkey]
        grind
  · cases hs

theorem handlerReturns_inv (h : Inv topic s) (hs : handlerReturns s c = some s') :
    Inv topic s' := by
  unfold handlerReturns at hs
  split at hs
  · next o k hph =>
    cases hs
    have hkey := h.source c o k hph
    have hc : (s.consumer c).inHand topic = some k := by rw [hph]; rfl
    obtain ⟨hcl, hnew⟩ := h.inHand c k hc
    have hgo : Inv topic (s.go c (.handled o .processed)) := by
      refine h.go c (List.Subset.refl _) h.committed (by simp) (by simp [Phase.inHand]) ?_ (by simp)
      intro p out j hp hj
      cases hp
      rw [hkey] at hj
      exact Option.some.inj hj ▸ hcl
    -- the event leaves this hand, and it was in no other
    have hout : ∀ d, ((s.go c (.handled o .processed)).consumer d).inHand topic ≠ some k := by
      intro d hd
      by_cases hdc : d = c
      · subst hdc; simp [State.go, Phase.inHand] at hd
      · refine hdc (h.excl d c k ?_ hc)
        simpa [State.go, hdc] using hd
    exact
      { hgo with
        completed := List.cons_subset.2 ⟨hcl, h.completed⟩
        nodup := List.nodup_cons.2 ⟨hnew, h.nodup⟩
        inHand := fun d j hd => by
          refine ⟨(hgo.inHand d j hd).1, fun hj => ?_⟩
          rcases List.mem_cons.1 hj with rfl | hj
          · exact hout d hd
          · exact (hgo.inHand d j hd).2 hj }
  · cases hs

theorem handlerRaises_inv (h : Inv topic s) (hs : handlerRaises s c = some s') : Inv topic s' := by
  unfold handlerRaises at hs
  split at hs
  · next o k hph =>
    cases hs
    have hkey := h.source c o k hph
    refine h.go c (List.Subset.refl _) h.committed (by simp) ?_ ?_ (by simp)
    · intro j hj
      rw [hph]
      exact hkey.symm.trans hj
    · intro p out j hp hj
      cases hp
      rw [hkey] at hj
      exact Option.some.inj hj ▸ (h.inHand c k (by rw [hph]; rfl)).1
  · cases hs

theorem toDeadLetter_inv {written : Bool} (h : Inv topic s)
    (hs : toDeadLetter topic s c written = some s') : Inv topic s' := by
  unfold toDeadLetter at hs
  split at hs
  · next o hph =>
    cases hs
    refine h.go c (List.Subset.refl _) h.committed (by simp) (by simp [Phase.inHand]) (by simp) ?_
    intro p j hp hj
    cases hp
    exact h.handled c o _ j hph hj
  · cases hs

theorem commit_inv (h : Inv topic s) (hs : commit s c = some s') : Inv topic s' := by
  have hgo : ∀ o, (∀ k, (topic o).key = some k → k ∈ s.claims) →
      Inv topic (State.go { s with committed := o :: s.committed } c .idle) := by
    intro o ho
    refine h.go c (List.Subset.refl _) ?_ (by simp) (by simp [Phase.inHand]) (by simp) (by simp)
    intro p hp k hk
    rcases List.mem_cons.1 hp with rfl | hp
    · exact ho k hk
    · exact h.committed p hp k hk
  unfold commit at hs
  split at hs
  · next o hph => cases hs; exact hgo o fun k => h.handled c o _ k hph
  · next o hph => cases hs; exact hgo o fun k => h.handled c o _ k hph
  · next o hph => cases hs; exact hgo o fun k => h.parked c o k hph
  · cases hs

theorem crash_inv (h : Inv topic s) (hs : crash s c = some s') : Inv topic s' := by
  cases hs
  exact h.go c (List.Subset.refl _) h.committed (by simp) (by simp [Phase.inHand]) (by simp)
    (by simp)

theorem step_inv (h : Inv topic s) (hs : step topic s a = some s') : Inv topic s' := by
  cases a with
  | poll c o => exact poll_inv h hs
  | handleMessage c => exact handleMessage_inv h hs
  | handlerReturns c => exact handlerReturns_inv h hs
  | handlerRaises c => exact handlerRaises_inv h hs
  | toDeadLetter c written => exact toDeadLetter_inv h hs
  | commit c => exact commit_inv h hs
  | crash c => exact crash_inv h hs

/-! ### What is claimed is finished -/

/-- A claimed event has had its effect, or some consumer still has it in hand. -/
def Kept (topic : ℕ → Message) (s : State) : Prop :=
  ∀ k ∈ s.claims, s.Effective k ∨ ∃ c, (s.consumer c).inHand topic = some k

theorem Kept.go (h : Kept topic s) (c : ℕ) {completed : List Key}
    (hco : s.completed ⊆ completed) (hdl : s.dlq ⊆ dlq)
    (hcl : ∀ k ∈ claims, k ∈ s.claims ∨ ph.inHand topic = some k)
    (hhand : ∀ k, (s.consumer c).inHand topic = some k → ph.inHand topic = some k ∨
      k ∈ completed ∨ ∃ m ∈ dlq, m.key = some k) :
    Kept topic (State.go ⟨claims, completed, dlq, committed, s.consumer⟩ c ph) := by
  have hself : ∀ k, ph.inHand topic = some k →
      ∃ d, (Function.update s.consumer c ph d).inHand topic = some k := fun k hk =>
    ⟨c, by rwa [Function.update_self]⟩
  intro k hk
  rcases hcl k hk with hk | hk
  · rcases h k hk with (hdone | ⟨m, hm, hmk⟩) | ⟨d, hd⟩
    · exact .inl (.inl (hco hdone))
    · exact .inl (.inr ⟨m, hdl hm, hmk⟩)
    · by_cases hdc : d = c
      · subst hdc
        rcases hhand k hd with hph | heff
        · exact .inr (hself k hph)
        · exact .inl heff
      · exact .inr ⟨d, by simpa [State.go, hdc] using hd⟩
  · exact .inr (hself k hk)

theorem step_kept (hi : Inv topic s) (h : Kept topic s) (hok : Careful topic s a)
    (hs : step topic s a = some s') : Kept topic s' := by
  cases a with
  | poll c o =>
    simp only [step, poll] at hs
    split at hs
    · next hph =>
      cases hs
      exact h.go c (List.Subset.refl _) (List.Subset.refl _) (fun k hk => .inl hk)
        (by simp [hph, Phase.inHand])
    · cases hs
  | handleMessage c =>
    simp only [step, handleMessage] at hs
    split at hs
    · next o hph =>
      have hfree : ∀ k, (s.consumer c).inHand topic ≠ some k := by simp [hph, Phase.inHand]
      split at hs
      · next k hkey =>
        split at hs
        · cases hs
          exact h.go c (List.Subset.refl _) (List.Subset.refl _) (fun j hj => .inl hj)
            fun j hj => (hfree j hj).elim
        · cases hs
          refine h.go c (List.Subset.refl _) (List.Subset.refl _) (fun j hj => ?_)
            fun j hj => (hfree j hj).elim
          rcases List.mem_cons.1 hj with rfl | hj
          · exact .inr rfl
          · exact .inl hj
      · split at hs
        · cases hs
          exact h.go c (List.Subset.refl _) (List.Subset.refl _) (fun j hj => .inl hj)
            fun j hj => (hfree j hj).elim
        · cases hs
          exact h.go c (List.Subset.refl _) (List.Subset.refl _) (fun j hj => .inl hj)
            fun j hj => (hfree j hj).elim
    · cases hs
  | handlerReturns c =>
    simp only [step, handlerReturns] at hs
    split at hs
    · next o k hph =>
      cases hs
      refine h.go c (List.subset_cons_self _ _) (List.Subset.refl _) (fun j hj => .inl hj)
        fun j hj => ?_
      rw [hph] at hj
      exact .inr (.inl (Option.some.inj hj ▸ List.mem_cons_self))
    · cases hs
  | handlerRaises c =>
    simp only [step, handlerRaises] at hs
    split at hs
    · next o k hph =>
      cases hs
      refine h.go c (List.Subset.refl _) (List.Subset.refl _) (fun j hj => .inl hj)
        fun j hj => .inl ?_
      rw [hph] at hj
      exact (hi.source c o k hph).trans hj
    · cases hs
  | toDeadLetter c written =>
    simp only [step, toDeadLetter] at hs
    split at hs
    · next o hph =>
      cases hs
      cases written with
      | false =>
        refine h.go c (List.Subset.refl _) (List.Subset.refl _) (fun j hj => .inl hj) fun j hj => ?_
        rw [show (s.consumer c).inHand topic = none from hok] at hj
        cases hj
      | true =>
        refine h.go c (List.Subset.refl _) (List.subset_cons_self _ _) (fun j hj => .inl hj)
          fun j hj => ?_
        rw [hph] at hj
        exact .inr (.inr ⟨topic o, List.mem_cons_self, hj⟩)
    · cases hs
  | commit c =>
    simp only [step, commit] at hs
    split at hs
    · next hph =>
      cases hs
      exact h.go c (List.Subset.refl _) (List.Subset.refl _) (fun k hk => .inl hk)
        (by simp [hph, Phase.inHand])
    · next hph =>
      cases hs
      exact h.go c (List.Subset.refl _) (List.Subset.refl _) (fun k hk => .inl hk)
        (by simp [hph, Phase.inHand])
    · next hph =>
      cases hs
      exact h.go c (List.Subset.refl _) (List.Subset.refl _) (fun k hk => .inl hk)
        (by simp [hph, Phase.inHand])
    · cases hs
  | crash c =>
    cases hs
    refine h.go c (List.Subset.refl _) (List.Subset.refl _) (fun k hk => .inl hk) fun j hj => ?_
    rw [show (s.consumer c).inHand topic = none from hok] at hj
    cases hj

end Invariant

/-! ### Runs -/

section Runs
variable (topic : ℕ → Message)

theorem completes_at_most_once {s : State} (h : Lib.Reachable (step topic) State.init s) :
    s.completed.Nodup :=
  (Lib.Reach.invariant inv_init (fun _ _ _ hi _ hs => step_inv hi hs) h).nodup

/-- **Effectively once.**  For any topic, any number of consumers, any deliveries
    and any kills: no event's handler completes twice; and while no consumer dies
    and no dead-letter write fails with an event in hand, each well-formed event
    whose offset is committed has been handled or dead-lettered once nobody is
    handling it any more. -/
theorem committed_effective :
    (∀ s, Lib.Reachable (step topic) State.init s → s.completed.Nodup) ∧
      ∀ s, Lib.Reach (step topic) (Careful topic) State.init s → AtLeastOnce topic s := by
  refine ⟨fun s h => completes_at_most_once topic h, fun s h => ?_⟩
  obtain ⟨hinv, hkept⟩ := Lib.Reach.invariant (I := fun s => Inv topic s ∧ Kept topic s)
    ⟨inv_init, by simp [Kept, State.init]⟩
    (fun _ _ _ hi hok hs => ⟨step_inv hi.1 hs, step_kept hi.1 hi.2 hok hs⟩) h
  intro o ho k hk hfree
  rcases hkept k (hinv.committed o ho k hk) with heff | ⟨c, hc⟩
  · exact heff
  · exact absurd hc (hfree c)

end Runs

/-- Every offset holds event `e` of tenant `t`. -/
def oneEvent : ℕ → Message := fun _ => .envelope (some "e") (some "t")

/-- The event is redelivered while its handler runs; the second consumer commits
    it as a duplicate, the first one parks it. -/
def redeliveredRun : List Act :=
  [.poll 0 0, .handleMessage 0, .poll 1 0, .handleMessage 1, .commit 1, .handlerRaises 0,
    .toDeadLetter 0 true, .crash 0]

theorem redeliveredRun_enabled :
    (Lib.exec (step oneEvent) State.init redeliveredRun).isSome = true := by decide

theorem redeliveredRun_effective : ∃ s,
    Lib.Reach (step oneEvent) (Careful oneEvent) State.init s ∧ s.committed = [0] ∧
      s.completed.Nodup ∧ AtLeastOnce oneEvent s := by
  have hget := (Option.some_get redeliveredRun_enabled).symm
  have hreach := Lib.reach_exec hget (show Lib.Along _ (Careful oneEvent) _ _ by decide)
  exact ⟨_, hreach, by decide, (committed_effective oneEvent).1 _ (Lib.reachable_exec hget),
    (committed_effective oneEvent).2 _ hreach⟩

/-- The consumer that won the claim dies before its handler. -/
def skippedRun : List Act :=
  [.poll 0 0, .handleMessage 0, .crash 0, .poll 1 0, .handleMessage 1, .commit 1]

theorem skippedRun_enabled :
    (Lib.exec (step oneEvent) State.init skippedRun).isSome = true := by decide

/-- The redelivered event is a duplicate of a claim nobody honours: its offset is
    committed, all consumers are idle, and it was neither handled nor parked. -/
theorem claimed_event_is_skipped : ∃ s, Lib.Reachable (step oneEvent) State.init s ∧
    0 ∈ s.committed ∧ (oneEvent 0).key = some ⟨"t", "e"⟩ ∧ (∀ c, s.consumer c = .idle) ∧
      ¬ s.Effective ⟨"t", "e"⟩ ∧ ¬ AtLeastOnce oneEvent s := by
  have hidle : ∀ c, ((Lib.exec (step oneEvent) State.init skippedRun).get
      skippedRun_enabled).consumer c = .idle
    | 0 | 1 => rfl
    | _ + 2 => rfl
  have heff : ¬ ((Lib.exec (step oneEvent) State.init skippedRun).get
      skippedRun_enabled).Effective ⟨"t", "e"⟩ := by
    rintro (h | ⟨m, hm, -⟩)
    · exact absurd h (by decide)
    · cases hm
  refine ⟨_, Lib.reachable_exec (Option.some_get skippedRun_enabled).symm, by decide, by decide,
    hidle, heff, fun h => heff (h 0 (by decide) _ (by decide) fun c => ?_)⟩
  rw [hidle c]
  exact Option.some_ne_none _ |>.symm

end RuleMind.Consumer
