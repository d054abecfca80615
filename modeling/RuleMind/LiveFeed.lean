/-
  The live feed of decisions: `decisions_after` of `app/storage.py`, and `stream_decisions` of
  `app/routers/runtime.py` where there is no Redis.

  The stream reads pages of decisions created after its cursor, the first one as its backlog;
  it emits them one by one and moves the cursor to the time of each.  Decisions are committed in
  between, one or several at a time, with any times of creation; a read sees what is committed.
  The text of an event, the heartbeats and the end of the stream are left out.
-/
import RuleMind.Lib.Limited
import RuleMind.DeviceIngest

namespace RuleMind.LiveFeed

open Lib
open Ingest (Decision)

/-! ### Pages -/

/-- `max(1, min(limit, 1000))`. -/
def pageLimit (limit : ℤ) : ℕ := (max 1 (min limit 1000)).toNat

def POLL_LIMIT : ℤ := 200

def eligible (rows : List Decision) (tenant : String) (after : Option ℤ) : List Decision :=
  rows.filter fun d => d.tenantId = tenant ∧ ∀ t ∈ after, t < d.createdAt

/-- What `decisions_after` may return: the oldest rows after a time, or else the newest of all,
    in either case the oldest first. -/
def DecisionsAfter (rows : List Decision) (tenant : String) (after : Option ℤ) (limit : ℤ)
    (page : List Decision) : Prop :=
  match after with
  | some _ => Limited Decision.createdAt (pageLimit limit) (eligible rows tenant after) page
  | none =>
    Limited (fun d : Decision => -d.createdAt) (pageLimit limit) (eligible rows tenant after)
      page.reverse

instance (rows : List Decision) (tenant : String) (after : Option ℤ) (limit : ℤ)
    (page : List Decision) : Decidable (DecisionsAfter rows tenant after limit page) :=
  match after with
  | some _ => inferInstanceAs (Decidable (Limited _ _ _ page))
  | none => inferInstanceAs (Decidable (Limited _ _ _ page.reverse))

/-! ### The stream -/

structure Feed where
  cursor : Option ℤ
  /-- The backlog has been read. -/
  begun : Bool
  /-- What is left of the page. -/
  pending : List Decision
  emitted : List Decision

structure State where
  /-- The rows committed. -/
  rows : List Decision
  feed : Option Feed
  /-- The rows committed since the stream was opened. -/
  since : List Decision

def State.init (rows : List Decision) : State := ⟨rows, none, []⟩

inductive Act
  | commit (decisions : List Decision)
  | connect (after : Option ℤ)
  | backlog (size : ℤ) (page : List Decision)
  | poll (page : List Decision)
  | emit

def Feed.read (f : Feed) (page : List Decision) : Feed := { f with begun := true, pending := page }

/-- `_emit`, and the cursor after it. -/
def Feed.emit (f : Feed) (d : Decision) (rest : List Decision) : Feed :=
  { f with cursor := some d.createdAt, pending := rest, emitted := f.emitted ++ [d] }

section Steps
variable (tenant : String)

def step (s : State) (a : Act) : Option State :=
  match a with
  | .commit decisions =>
    if (decisions.map Decision.id).Nodup ∧ ∀ d ∈ decisions, ∀ e ∈ s.rows, e.id ≠ d.id then
      some { s with
        rows := s.rows ++ decisions
        since := if s.feed.isSome then s.since ++ decisions else s.since }
    else none
  | .connect after =>
    match s.feed with
    | none => some { s with feed := some ⟨after, false, [], []⟩ }
    | some _ => none
  | .backlog size page =>
    match s.feed with
    | some f =>
      if f.begun = false ∧ DecisionsAfter s.rows tenant f.cursor size page then
        some { s with feed := some (f.read page) }
      else none
    | none => none
  | .poll page =>
    match s.feed with
    | some f =>
      if f.begun = true ∧ f.pending = [] ∧
          DecisionsAfter s.rows tenant f.cursor POLL_LIMIT page then
        some { s with feed := some (f.read page) }
      else none
    | none => none
  | .emit =>
    match s.feed with
    | some f =>
      match f.pending with
      | d :: rest => some { s with feed := some (f.emit d rest) }
      | [] => none
    | none => none

/-- No decision is emitted twice, and where a poll returns nothing, every decision committed
    since the stream was opened is emitted. -/
structure Delivers (s : State) : Prop where
  once : ∀ f, s.feed = some f → (f.emitted.map Decision.id).Nodup
  caughtUp : ∀ f, s.feed = some f → f.begun = true → f.pending = [] →
    DecisionsAfter s.rows tenant f.cursor POLL_LIMIT [] →
    ∀ d ∈ s.since, d.tenantId = tenant → d ∈ f.emitted

def Feed.Before (f : Feed) (time : ℤ) : Prop :=
  (∀ t ∈ f.cursor, t < time) ∧ ∀ e ∈ f.pending, e.createdAt < time

/-- No page cuts off a decision committed since the stream was opened: with a cursor, it is among
    the first of the rows, as many as there are up to its time, or all of a page are from before;
    without one it is among the newest. -/
def Uncut (s : State) (cursor : Option ℤ) (limit : ℤ) : Prop :=
  ∀ d ∈ s.since, d.tenantId = tenant →
    let rows := eligible s.rows tenant cursor
    match cursor with
    | some _ =>
      (rows.filter fun e => e.createdAt ≤ d.createdAt).length ≤ pageLimit limit ∨
        pageLimit limit ≤ (rows.filter fun e => e.createdAt < d.createdAt).length
    | none => (rows.filter fun e => -e.createdAt ≤ -d.createdAt).length ≤ pageLimit limit

/-- Decisions are committed before the stream has reached their time, and no page is cut between
    those of one time. -/
def Followed (s : State) : Act → Prop
  | .commit decisions => ∀ f, s.feed = some f → ∀ d ∈ decisions, d.tenantId = tenant →
      f.Before d.createdAt
  | .backlog size _ => ∀ f, s.feed = some f → Uncut tenant s f.cursor size
  | .poll _ => ∀ f, s.feed = some f → Uncut tenant s f.cursor POLL_LIMIT
  | _ => True

end Steps

/-! ### No decision is emitted twice -/

section Once
variable {tenant : String} {rows page : List Decision} {after : Option ℤ} {limit : ℤ}
  {s s' : State} {f : Feed}

theorem mem_eligible {d : Decision} : d ∈ eligible rows tenant after ↔
    d ∈ rows ∧ d.tenantId = tenant ∧ ∀ t ∈ after, t < d.createdAt := by
  rw [eligible, List.mem_filter, decide_eq_true_iff]

theorem pageLimit_pos (limit : ℤ) : 0 < pageLimit limit := by
  unfold pageLimit
  omega

/-- A page holds eligible rows, each once, the oldest first. -/
structure PageOk (rows : List Decision) (tenant : String) (after : Option ℤ)
    (page : List Decision) : Prop where
  nodup : page.Nodup
  mem : ∀ d ∈ page, d ∈ eligible rows tenant after
  sorted : page.Pairwise fun d e => d.createdAt ≤ e.createdAt

theorem DecisionsAfter.pageOk (h : DecisionsAfter rows tenant after limit page) :
    PageOk rows tenant after page := by
  cases after with
  | some t => exact ⟨h.nodup, h.mem, h.sorted⟩
  | none =>
    have hl : Limited _ _ _ page.reverse := h
    refine ⟨List.nodup_reverse.1 hl.nodup, fun d hd => hl.mem d (List.mem_reverse.2 hd), ?_⟩
    refine (List.pairwise_reverse.1 hl.sorted).imp fun hle => ?_
    omega

/-- What the stream has emitted is behind its cursor, what it is to emit is not. -/
structure FeedOk (rows : List Decision) (f : Feed) : Prop where
  known : ∀ d ∈ f.emitted ++ f.pending, d ∈ rows
  distinct : (f.emitted ++ f.pending).Nodup
  behind : ∀ d ∈ f.emitted, ∃ t, f.cursor = some t ∧ d.createdAt ≤ t
  ahead : ∀ d ∈ f.pending, ∀ t ∈ f.cursor, t ≤ d.createdAt
  sorted : f.pending.Pairwise fun d e => d.createdAt ≤ e.createdAt
  begins : f.begun = false → f.pending = []

theorem FeedOk.append (h : FeedOk rows f) (more : List Decision) : FeedOk (rows ++ more) f :=
  { h with known := fun d hd => List.mem_append_left _ (h.known d hd) }

theorem FeedOk.read (h : FeedOk rows f) (hp : f.pending = [])
    (hpage : PageOk rows tenant f.cursor page) : FeedOk rows (f.read page) where
  known d hd := by
    rcases List.mem_append.1 hd with hd | hd
    · exact h.known d (List.mem_append_left _ hd)
    · exact (mem_eligible.1 (hpage.mem d hd)).1
  distinct := by
    have hemitted := h.distinct
    rw [hp, List.append_nil] at hemitted
    refine List.nodup_append.2 ⟨hemitted, hpage.nodup, fun d hd e he heq => ?_⟩
    -- what was emitted is not after the cursor
    obtain ⟨t, ht, hle⟩ := h.behind d hd
    have hlt := (mem_eligible.1 (hpage.mem e he)).2.2 t ht
    rw [heq] at hle
    omega
  behind := h.behind
  ahead d hd t ht := ((mem_eligible.1 (hpage.mem d hd)).2.2 t ht).le
  sorted := hpage.sorted
  begins hb := by cases hb

theorem FeedOk.emit (h : FeedOk rows f) {d : Decision} {rest : List Decision}
    (hp : f.pending = d :: rest) : FeedOk rows (f.emit d rest) := by
  have hsorted := h.sorted
  rw [hp] at hsorted
  have hlist : (f.emitted ++ [d]) ++ rest = f.emitted ++ f.pending := by
    rw [hp, List.append_assoc, List.singleton_append]
  refine ⟨fun e he => h.known e ?_, ?_, fun e he => ⟨d.createdAt, rfl, ?_⟩, fun e he t ht => ?_,
    (List.pairwise_cons.1 hsorted).2, fun hb => ?_⟩
  · rw [← hlist]
    exact he
  · show ((f.emitted ++ [d]) ++ rest).Nodup
    rw [hlist]
    exact h.distinct
  · rcases List.mem_append.1 he with he | he
    · obtain ⟨t, ht, hle⟩ := h.behind e he
      exact hle.trans (h.ahead d (by rw [hp]; exact List.mem_cons_self) t ht)
    · rw [List.mem_singleton.1 he]
  · cases ht
    exact (List.pairwise_cons.1 hsorted).1 e he
  · have hnil := h.begins hb
    rw [hp] at hnil
    cases hnil

structure Inv (s : State) : Prop where
  distinct : (s.rows.map Decision.id).Nodup
  since : ∀ d ∈ s.since, d ∈ s.rows
  feed : ∀ f, s.feed = some f → FeedOk s.rows f

theorem inv_init (hrows : (rows.map Decision.id).Nodup) : Inv (State.init rows) where
  distinct := hrows
  since _ h := by cases h
  feed _ h := by cases h

theorem Inv.setFeed (hi : Inv s) (hf : FeedOk s.rows f) : Inv { s with feed := some f } where
  distinct := hi.distinct
  since := hi.since
  feed g hg := by
    cases hg
    exact hf

theorem Inv.commit (hi : Inv s) {decisions : List Decision}
    (hids : (decisions.map Decision.id).Nodup)
    (hnew : ∀ d ∈ decisions, ∀ e ∈ s.rows, e.id ≠ d.id) : Inv { s with
      rows := s.rows ++ decisions
      since := if s.feed.isSome then s.since ++ decisions else s.since } where
  distinct := by
    rw [List.map_append]
    refine List.nodup_append.2 ⟨hi.distinct, hids, fun i hin j hj heq => ?_⟩
    grind
  since d hd := by
    split at hd
    · rcases List.mem_append.1 hd with hd | hd
      · exact List.mem_append_left _ (hi.since d hd)
      · exact List.mem_append_right _ hd
    · exact List.mem_append_left _ (hi.since d hd)
  feed f hf := (hi.feed f hf).append decisions

theorem Inv.step (hi : Inv s) {a : Act} (hs : step tenant s a = some s') : Inv s' := by
  cases a with
  | commit decisions =>
    simp only [LiveFeed.step] at hs
    split at hs
    · next h =>
      cases hs
      exact hi.commit h.1 h.2
    · cases hs
  | connect after =>
    simp only [LiveFeed.step] at hs
    split at hs
    · cases hs
      exact hi.setFeed ⟨nofun, List.nodup_nil, nofun, nofun, List.Pairwise.nil, fun _ => rfl⟩
    · cases hs
  | backlog size page =>
    simp only [LiveFeed.step] at hs
    split at hs
    · next f hf =>
      split at hs
      · next h =>
        cases hs
        have hok := hi.feed f hf
        exact hi.setFeed (hok.read (hok.begins h.1) h.2.pageOk)
      · cases hs
    · cases hs
  | poll page =>
    simp only [LiveFeed.step] at hs
    split at hs
    · next f hf =>
      split at hs
      · next h =>
        cases hs
        exact hi.setFeed ((hi.feed f hf).read h.2.1 h.2.2.pageOk)
      · cases hs
    · cases hs
  | emit =>
    simp only [LiveFeed.step] at hs
    split at hs
    · next f hf =>
      split at hs
      · next d rest hp =>
        cases hs
        exact hi.setFeed ((hi.feed f hf).emit hp)
      · cases hs
    · cases hs

theorem inv_reach {ok : State → Act → Prop} (hrows : (rows.map Decision.id).Nodup)
    (h : Reach (step tenant) ok (State.init rows) s) : Inv s :=
  h.invariant (inv_init hrows) fun _ _ _ hi _ hs => hi.step hs

theorem Inv.once (hi : Inv s) (hf : s.feed = some f) : (f.emitted.map Decision.id).Nodup := by
  have hok := hi.feed f hf
  refine (List.nodup_map_iff_inj_on hok.distinct.of_append_left).2 fun d hd e he heq => ?_
  exact List.inj_on_of_nodup_map hi.distinct (hok.known d (List.mem_append_left _ hd))
    (hok.known e (List.mem_append_left _ he)) heq

end Once

/-! ### No decision is dropped -/

section Delivered
variable {tenant : String} {rows page : List Decision} {limit : ℤ} {s s' : State} {f : Feed}

/-- A decision is emitted or on the page, or the stream is before its time. -/
def Feed.Covers (f : Feed) (d : Decision) : Prop :=
  d ∈ f.emitted ++ f.pending ∨ f.Before d.createdAt

def Covered (tenant : String) (s : State) : Prop :=
  ∀ f, s.feed = some f → ∀ d ∈ s.since, d.tenantId = tenant → f.Covers d

variable {d : Decision}

theorem page_uncut (hi : Inv s) (hcut : Uncut tenant s f.cursor limit)
    (hpage : DecisionsAfter s.rows tenant f.cursor limit page) (hd : d ∈ s.since)
    (ht : d.tenantId = tenant) (hbefore : f.Before d.createdAt) : (f.read page).Covers d := by
  have hel : d ∈ eligible s.rows tenant f.cursor := mem_eligible.2 ⟨hi.since d hd, ht, hbefore.1⟩
  have hcut := hcut d hd ht
  cases hc : f.cursor with
  | none =>
    rw [hc] at hcut hpage hel
    have hl : Limited (fun d : Decision => -d.createdAt) _ _ page.reverse := hpage
    exact .inl (List.mem_append_right _ (List.mem_reverse.1 (hl.mem_of_few hel hcut)))
  | some t =>
    rw [hc] at hcut hpage hel
    have hl : Limited Decision.createdAt _ _ page := hpage
    rcases hcut with hfew | hmany
    · exact .inl (List.mem_append_right _ (hl.mem_of_few hel hfew))
    · have hrows : (eligible s.rows tenant (some t)).Nodup :=
        (List.Nodup.of_map _ hi.distinct).filter _
      exact .inr ⟨hbefore.1, hl.lt_of_many hrows hmany⟩

theorem Covered.read (hi : Inv s) (hcov : Covered tenant s) (hf : s.feed = some f)
    (hp : f.pending = []) (hcut : Uncut tenant s f.cursor limit)
    (hpage : DecisionsAfter s.rows tenant f.cursor limit page) :
    Covered tenant { s with feed := some (f.read page) } := by
  intro g hg d hd ht
  cases hg
  rcases hcov f hf d hd ht with hmem | hbefore
  · rw [hp, List.append_nil] at hmem
    exact .inl (List.mem_append_left _ hmem)
  · exact page_uncut hi hcut hpage hd ht hbefore

theorem Covered.emit (hcov : Covered tenant s) (hf : s.feed = some f)
    {rest : List Decision} (hp : f.pending = d :: rest) :
    Covered tenant { s with feed := some (f.emit d rest) } := by
  intro g hg e he ht
  cases hg
  rcases hcov f hf e he ht with hmem | hbefore
  · left
    show e ∈ (f.emitted ++ [d]) ++ rest
    rwa [List.append_assoc, List.singleton_append, ← hp]
  · refine .inr ⟨fun t hcur => ?_, fun x hx => hbefore.2 x ?_⟩
    · cases hcur
      exact hbefore.2 d (by rw [hp]; exact List.mem_cons_self)
    · rw [hp]
      exact List.mem_cons_of_mem _ hx

theorem Covered.commit (hcov : Covered tenant s) {decisions : List Decision}
    (hok : Followed tenant s (.commit decisions)) : Covered tenant { s with
      rows := s.rows ++ decisions
      since := if s.feed.isSome then s.since ++ decisions else s.since } := by
  intro f hf d hd ht
  have hfeed : s.feed = some f := hf
  rw [if_pos (by rw [hfeed]; rfl)] at hd
  rcases List.mem_append.1 hd with hd | hd
  · exact hcov f hf d hd ht
  · exact .inr (hok f hf d hd ht)

theorem Covered.step (hi : Inv s) (hcov : Covered tenant s) (hopen : s.feed = none → s.since = [])
    {a : Act} (hok : Followed tenant s a) (hs : step tenant s a = some s') :
    Covered tenant s' := by
  cases a with
  | commit decisions =>
    simp only [LiveFeed.step] at hs
    split at hs
    · cases hs
      exact hcov.commit hok
    · cases hs
  | connect after =>
    simp only [LiveFeed.step] at hs
    split at hs
    · next hnone =>
      cases hs
      intro f _ d hd
      simp_all
    · cases hs
  | backlog size page =>
    simp only [LiveFeed.step] at hs
    split at hs
    · next f hf =>
      split at hs
      · next h =>
        cases hs
        exact hcov.read hi hf ((hi.feed f hf).begins h.1) (hok f hf) h.2
      · cases hs
    · cases hs
  | poll page =>
    simp only [LiveFeed.step] at hs
    split at hs
    · next f hf =>
      split at hs
      · next h =>
        cases hs
        exact hcov.read hi hf h.2.1 (hok f hf) h.2.2
      · cases hs
    · cases hs
  | emit =>
    simp only [LiveFeed.step] at hs
    split at hs
    · next f hf =>
      split at hs
      · next d rest hp =>
        cases hs
        exact hcov.emit hf hp
      · cases hs
    · cases hs

theorem since_step (hopen : s.feed = none → s.since = []) {a : Act}
    (hs : step tenant s a = some s') : s'.feed = none → s'.since = [] := by
  cases a with
  | commit decisions => grind [LiveFeed.step]
  | connect _ | backlog _ _ | poll _ | emit => grind [LiveFeed.step]

theorem covered_reach (hrows : (rows.map Decision.id).Nodup)
    (h : Reach (step tenant) (Followed tenant) (State.init rows) s) : Covered tenant s := by
  have hall := h.invariant
    (I := fun s => Inv s ∧ Covered tenant s ∧ (s.feed = none → s.since = []))
    ⟨inv_init hrows, nofun, fun _ => rfl⟩ (by
      rintro s a s' ⟨hi, hcov, hopen⟩ hok hs
      exact ⟨hi.step hs, hcov.step hi hopen hok hs, since_step hopen hs⟩)
  exact hall.2.1

theorem Covered.caughtUp (hi : Inv s) (hcov : Covered tenant s) (hf : s.feed = some f)
    (hp : f.pending = []) (hpage : DecisionsAfter s.rows tenant f.cursor limit [])
    (hd : d ∈ s.since) (ht : d.tenantId = tenant) : d ∈ f.emitted := by
  rcases hcov f hf d hd ht with hmem | hbefore
  · rwa [hp, List.append_nil] at hmem
  · have hnone : eligible s.rows tenant f.cursor = [] := by
      cases hc : f.cursor with
      | none =>
        rw [hc] at hpage
        have hl : Limited _ _ _ ([] : List Decision).reverse := hpage
        exact hl.eq_nil (pageLimit_pos limit)
      | some t =>
        rw [hc] at hpage
        have hl : Limited _ _ _ ([] : List Decision) := hpage
        exact hl.eq_nil (pageLimit_pos limit)
    have hel := mem_eligible.2 ⟨hi.since d hd, ht, hbefore.1⟩
    rw [hnone] at hel
    cases hel

end Delivered

/-- **Neither drops nor repeats.**  In every run in which each decision is committed before the
    stream has reached its time, and no page is cut between decisions of one time, no decision is
    emitted twice, and a poll that returns nothing finds every decision emitted that was committed
    since the stream was opened. -/
theorem feed_delivers {tenant : String} (rows : List Decision) {s : State}
    (hrows : (rows.map Decision.id).Nodup)
    (h : Reach (step tenant) (Followed tenant) (State.init rows) s) : Delivers tenant s where
  once _ hf := (inv_reach hrows h).once hf
  caughtUp _ hf _ hp hpage _ hd ht :=
    (covered_reach hrows h).caughtUp (inv_reach hrows h) hf hp hpage hd ht

theorem uncut_of_length {tenant : String} {s : State} {cursor : Option ℤ} {limit : ℤ}
    (h : (eligible s.rows tenant cursor).length ≤ pageLimit limit) :
    Uncut tenant s cursor limit := by
  intro d _ _
  grind

/-! ### A decision of a device -/

def decision (id source : String) (createdAt receivedAt : ℤ) : Decision where
  id := id
  tenantId := "t"
  clientId := none
  userId := .null
  policyId := .str "p"
  payloadHash := "h"
  payloadPreview := .dict []
  computedVariables := .dict []
  ruleResults := .list []
  scorecardResult := .null
  trace := .list []
  outcome := .str "approve"
  latencyMs := 0
  source := .str source
  sdkVersion := .null
  experimentId := .null
  experimentVariant := .null
  deviceId := .null
  bundleHash := .null
  createdAt := createdAt
  receivedAt := receivedAt

def online : Decision := decision "d1" "api" 3000 3000

/-- Made on a device before `online`, and received after it. -/
def offline : Decision := decision "d2" "on_device" 1000 4000

/-- **A decision dropped.**  The stream has emitted a decision when an older one of a device is
    committed; the next poll returns nothing, and so do all others. -/
theorem late_commit_dropped : ∃ s f, Reachable (step "t") (State.init []) s ∧ s.feed = some f ∧
    f.begun = true ∧ f.pending = [] ∧ DecisionsAfter s.rows "t" f.cursor POLL_LIMIT [] ∧
    offline ∈ s.since ∧ offline.tenantId = "t" ∧ offline ∉ f.emitted ∧ ¬ Delivers "t" s := by
  obtain ⟨s, hs, hrows, hfeed, hsince⟩ : ∃ s, exec (step "t") (State.init [])
      [.connect none, .backlog 25 [], .commit [online], .poll [online], .emit,
        .commit [offline]] = some s ∧ s.rows = [online, offline] ∧
      s.feed = some ⟨some 3000, true, [], [online]⟩ ∧ s.since = [online, offline] :=
    ⟨_, rfl, rfl, rfl, rfl⟩
  have hpage : DecisionsAfter s.rows "t" (some 3000) POLL_LIMIT [] := by
    rw [hrows]
    decide
  have hmem : offline ∈ s.since := by
    rw [hsince]
    exact List.mem_cons_of_mem _ List.mem_cons_self
  have hnot : offline ∉ [online] := by decide
  refine ⟨s, _, reachable_exec hs, hfeed, rfl, rfl, hpage, hmem, rfl, hnot, fun h => ?_⟩
  exact hnot (h.caughtUp _ hfeed rfl rfl hpage offline hmem rfl)

/-- Two decisions of one time, a later one while they are emitted, and a poll that returns
    nothing. -/
def followed : List Act :=
  [.connect none, .backlog 25 [], .commit [online, decision "d3" "api" 3000 3000],
    .poll [online, decision "d3" "api" 3000 3000], .emit,
    .commit [decision "d4" "api" 5000 5000], .emit, .poll [decision "d4" "api" 5000 5000], .emit,
    .poll []]

theorem followed_delivers : ∃ s, exec (step "t") (State.init []) followed = some s ∧
    s.since.length = 3 ∧ Delivers "t" s := by
  have halong : Along (step "t") (Followed "t") (State.init []) followed := by
    refine .cons trivial rfl (.cons ?_ rfl (.cons ?_ rfl (.cons ?_ rfl (.cons trivial rfl
      (.cons ?_ rfl (.cons trivial rfl (.cons ?_ rfl (.cons trivial rfl (.cons ?_ rfl
        trivial)))))))))
    · intro f hf
      exact uncut_of_length (Nat.zero_le _)
    · intro f hf
      cases hf
      exact fun d _ _ => ⟨nofun, nofun⟩
    · intro f hf
      cases hf
      exact uncut_of_length (by decide)
    · intro f hf
      cases hf
      intro d hd _
      rw [List.mem_singleton.1 hd]
      constructor
      · rintro t ⟨⟩
        decide
      · intro e he
        rw [List.mem_singleton.1 he]
        decide
    · intro f hf
      cases hf
      exact uncut_of_length (by decide)
    · intro f hf
      cases hf
      exact uncut_of_length (by decide)
  obtain ⟨s, hs, hlength⟩ : ∃ s, exec (step "t") (State.init []) followed = some s ∧
      s.since.length = 3 := ⟨_, rfl, rfl⟩
  exact ⟨s, hs, hlength, feed_delivers [] List.nodup_nil (reach_exec hs halong)⟩

end RuleMind.LiveFeed
