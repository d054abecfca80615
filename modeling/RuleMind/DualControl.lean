/-
  Two-person control over the runs of one workspace: who brought what into prod, and who
  had promoted it to uat.

  A run goes request by request, each by an authenticated actor, with dual control on.
-/
import RuleMind.AssetStore
import RuleMind.Lib.Run

namespace RuleMind.Assets

/-! ### Runs with their history -/

/-- An asset came into prod: by whose request, whether that promoted it, and who had
    promoted it to uat last. -/
structure Arrival where
  key : Key
  actor : String
  promoted : Bool
  maker : Option String
  deriving DecidableEq

structure History where
  workspace : Workspace
  makers : List (Key × String)
  arrivals : List Arrival
  deriving DecidableEq

/-- The keys that are in a stage now and were not before. -/
def arrived (ws ws' : Workspace) (status : String) : List Key :=
  (ws'.assets.map Asset.key).filter fun key =>
    ws'.statusOf key = some status ∧ ws.statusOf key ≠ some status

def makerOf (makers : List (Key × String)) (key : Key) : Option String :=
  (makers.find? fun x => x.1 = key).map (·.2)

/-- A run starts with what the ledger says about the promotions before it. -/
def History.start (ws : Workspace) : History :=
  ⟨ws, (ws.promotions.filter fun p => p.toStatus = "uat").map fun p => (p.key, p.promotedBy), []⟩

section
variable (svc : Services)

def History.step (s : History) (x : String × Request) : Option History :=
  let ws' := (handle svc x.1 x.2 s.workspace).2
  some {
    workspace := ws'
    makers := ((arrived s.workspace ws' "uat").filter x.2.promotes).map (fun key => (key, x.1)) ++
      s.makers
    arrivals := (arrived s.workspace ws' "prod").map (fun key =>
      ⟨key, x.1, x.2.promotes key, makerOf s.makers key⟩) ++ s.arrivals }

/-- An authenticated request, with dual control on. -/
structure Governed (s : History) (x : String × Request) : Prop where
  authenticated : x.1 ≠ "system"
  dualControl : s.workspace.dualControl = true

instance (s : History) (x : String × Request) : Decidable (Governed s x) :=
  decidable_of_iff (x.1 ≠ "system" ∧ s.workspace.dualControl = true)
    ⟨fun h => ⟨h.1, h.2⟩, fun h => ⟨h.authenticated, h.dualControl⟩⟩

/-- Only promotions bring assets into prod; a policy that is promoted can be captured; and
    of an asset that is promoted from uat the ledger says who promoted it to uat. -/
structure Staged (s : History) (x : String × Request) : Prop where
  written : ∀ key, x.2.Writes svc s.workspace key "prod" → s.workspace.statusOf key = some "prod"
  capturable : ∀ a, x.2.promotes a.key = true → s.workspace.get a.key = some a →
    ∀ ws, captured svc a ws = .ok ()
  known : ∀ key, x.2.promotes key = true → s.workspace.statusOf key = some "uat" →
    (s.workspace.lastPromotionActor key "uat").isSome

end

/-- Everything that came into prod was promoted there, by another actor than the one who
    had promoted it to uat. -/
def TwoPerson (s : History) : Prop :=
  ∀ x ∈ s.arrivals, x.promoted = true ∧ ∃ maker, x.maker = some maker ∧ maker ≠ x.actor

instance (s : History) : Decidable (TwoPerson s) :=
  decidable_of_iff (∀ x ∈ s.arrivals, x.promoted = true ∧
      x.maker.any (fun maker => maker ≠ x.actor) = true) <| by
    refine forall₂_congr fun x _ => and_congr_right fun _ => ?_
    cases x.maker with
    | none => simp
    | some maker => simp

/-! ### What a request adds to the history -/

section Preservation
variable {svc : Services} {ws ws' : Workspace} {s s' : History} {x : String × Request}

variable {key : Key}

variable {status actor target : String} {keys : List Key}

theorem mem_arrived :
    key ∈ arrived ws ws' status ↔
      ws'.statusOf key = some status ∧ ws.statusOf key ≠ some status := by
  simp only [arrived, List.mem_filter, decide_eq_true_eq]
  constructor
  · rintro ⟨-, h⟩
    exact h
  · intro h
    obtain ⟨a, ha, -⟩ := Option.map_eq_some_iff.1 h.1
    refine ⟨?_, h⟩
    rw [← Workspace.key_of_get ha]
    exact List.mem_map_of_mem (Workspace.mem_of_get ha)

theorem makerOf_append_of_mem (h : key ∈ keys) (actor : String) (makers : List (Key × String)) :
    makerOf (keys.map (fun key => (key, actor)) ++ makers) key = some actor := by
  induction keys with
  | nil => cases h
  | cons k keys ih =>
    by_cases hk : k = key
    · simp [makerOf, hk]
    · have hmem : key ∈ keys := (List.mem_cons.1 h).resolve_left (Ne.symm hk)
      rw [← ih hmem]
      simp [makerOf, hk]

theorem makerOf_append_of_not_mem (h : key ∉ keys) (actor : String) (makers : List (Key × String)) :
    makerOf (keys.map (fun key => (key, actor)) ++ makers) key = makerOf makers key := by
  have hnone : (keys.map fun key => (key, actor)).find? (fun x => x.1 = key) = none := by
    rw [List.find?_eq_none]
    intro x hx
    obtain ⟨k, hk, rfl⟩ := List.mem_map.1 hx
    simp only [decide_eq_true_eq]
    rintro rfl
    exact h hk
  rw [makerOf, List.find?_append, hnone, Option.none_or]
  rfl

/-- The ledger names the actor who really promoted an asset to uat. -/
def Signed (s : History) : Prop :=
  ∀ key maker, s.workspace.lastPromotionActor key "uat" = some maker →
    makerOf s.makers key = some maker

theorem signed_start (ws : Workspace) : Signed (History.start ws) := by
  intro key maker h
  rw [← h]
  simp only [makerOf, History.start, Workspace.lastPromotionActor, List.find?_map,
    List.find?_filter, Option.map_map]
  congr 1
  congr 1
  funext p
  simp [and_comm]

theorem promotionTarget_flow {a : Asset} (h : promotionTarget ws actor a = .ok target) :
    promotionReady a = true ∧ promotionFlow a.status = some target ∧
      (target = "prod" → ws.dualControl = true → ws.lastPromotionActor a.key "uat" ≠ some actor) := by
  unfold promotionTarget at h
  split at h
  · cases h
  · rename_i hready
    obtain ⟨t, ht, h⟩ := bind_eq_ok.1 h
    split at h
    · cases h
    · rename_i hcontrol
      cases h
      refine ⟨by simpa using hready, ?_, fun hprod hdual hmaker => hcontrol ⟨hprod, hdual, hmaker⟩⟩
      unfold nextStatus at ht
      split at ht
      · rename_i hflow
        cases ht
        exact hflow
      · cases ht

theorem promotionFlow_from (h : promotionFlow status = some target) :
    (target = "prod" → status = "uat") ∧ (target = "uat" → status ≠ "uat") := by
  unfold promotionFlow at h
  grind

/-- What a request writes about a key in the ledger and in its stage: nothing of the kind
    the history records, or one promotion. -/
theorem handle_key (svc : Services) (x : String × Request) (ws : Workspace) (key : Key) :
    (x.2.promotes key = false ∧
      ((∀ status, (handle svc x.1 x.2 ws).2.lastPromotionActor key status = none) ∨
        ∀ status, (handle svc x.1 x.2 ws).2.lastPromotionActor key status =
          ws.lastPromotionActor key status)) ∨
    (x.2.promotes key = true ∧ PromotedOrNot svc x.1 ws (handle svc x.1 x.2 ws).2 key) := by
  by_cases hp : x.2.promotes key = true
  · exact Or.inr ⟨hp, promotes_effect svc x.1 ws hp⟩
  · have hp : x.2.promotes key = false := by simpa using hp
    refine Or.inl ⟨hp, ?_⟩
    obtain ⟨actor, req⟩ := x
    cases req with
    | create kind body => exact Or.inr ((create_apply svc kind body ws).1.lastPromotionActor key)
    | update kind id body =>
      exact Or.inr ((update_apply svc kind id body ws).1.lastPromotionActor key)
    | delete kind id => exact Or.inr ((delete_apply kind id ws).1.lastPromotionActor key)
    | test kind id payload =>
      exact Or.inr ((test_apply svc kind id payload ws).1.lastPromotionActor key)
    | promote kind id promotedBy reason skipMece =>
      have hne : key ≠ (kind, id) := by simpa [Request.promotes] using hp
      exact Or.inr (promote_other hne).ledger
    | deployPromote items =>
      have hnot : ∀ item ∈ items, ¬ item.Names key := by simpa [Request.promotes] using hp
      exact Or.inr (deployPromote_other hnot).ledger
    | importConfig body =>
      have happly := import_apply svc body ws
      cases hvalid : svc.validateImport ws body with
      | error e =>
        rw [hvalid] at happly
        exact Or.inr fun status => congrArg (Workspace.lastPromotionActor · key status) happly
      | ok u =>
        rw [hvalid] at happly
        refine Or.inl fun status => ?_
        show ((importConfig svc body ws).2.promotions.find? _).map _ = none
        rw [happly.1]
        rfl

theorem signed_step (hi : Signed s) (hg : Governed s x) (hs : Staged svc s x)
    (h : s.step svc x = some s') : Signed s' := by
  cases h
  intro key maker hledger
  simp only at hledger ⊢
  have hold : ∀ {maker}, s.workspace.lastPromotionActor key "uat" = some maker →
      key ∉ ((arrived s.workspace (handle svc x.1 x.2 s.workspace).2 "uat").filter x.2.promotes) →
      makerOf (((arrived s.workspace (handle svc x.1 x.2 s.workspace).2 "uat").filter
        x.2.promotes).map (fun key => (key, x.1)) ++ s.makers) key = some maker :=
    fun hmaker hnew => (makerOf_append_of_not_mem hnew x.1 s.makers).trans (hi key _ hmaker)
  rcases handle_key svc x s.workspace key with ⟨hno, hnone | hsame⟩ | ⟨hp, heffect⟩
  · rw [hnone] at hledger
    cases hledger
  · simp_all
  rcases heffect with huntouched | ⟨a, target, rfl, hpromoted⟩
  · rw [huntouched.ledger] at hledger
    refine hold hledger fun hmem => ?_
    obtain ⟨hnow, hbefore⟩ := mem_arrived.1 (List.mem_filter.1 hmem).1
    exact hbefore ((congrArg (Option.map Asset.status) huntouched.get).symm.trans hnow)
  obtain ⟨promotedBy, hsigned⟩ := hpromoted.signed (hs.capturable a hp hpromoted.found)
  obtain ⟨-, hflow, -⟩ := promotionTarget_flow hpromoted.decided
  have hbefore : s.workspace.statusOf a.key = some a.status :=
    congrArg (Option.map Asset.status) hpromoted.found
  have hnow : (handle svc x.1 x.2 s.workspace).2.statusOf a.key = some target :=
    congrArg (Option.map Asset.status) hpromoted.moved
  rw [hsigned] at hledger
  by_cases huat : "uat" = target
  · subst huat
    have hactor : maker = x.1 := by simpa [ledgerActor, hg.authenticated, eq_comm] using hledger
    subst hactor
    refine makerOf_append_of_mem (List.mem_filter.2 ⟨mem_arrived.2 ⟨hnow, ?_⟩, hp⟩) x.1 s.makers
    rw [hbefore]
    exact fun h => (promotionFlow_from hflow).2 rfl (Option.some.inj h)
  · rw [if_neg huat] at hledger
    refine hold hledger fun hmem => huat ?_
    exact Option.some.inj ((mem_arrived.1 (List.mem_filter.1 hmem).1).1.symm.trans hnow)

/-- While requests are staged, an asset comes into prod by a promotion, and the actor is not
    the one who promoted it to uat. -/
theorem arrived_prod (hi : Signed s) (hg : Governed s x) (hs : Staged svc s x)
    (h : key ∈ arrived s.workspace (handle svc x.1 x.2 s.workspace).2 "prod") :
    x.2.promotes key = true ∧ ∃ maker, makerOf s.makers key = some maker ∧ maker ≠ x.1 := by
  obtain ⟨hnow, hbefore⟩ := mem_arrived.1 h
  have hp : x.2.promotes key = true := by
    by_contra hno
    rcases statusOf_handle (by simpa using hno) hnow with hold | hwrites
    · exact hbefore hold
    · exact hbefore (hs.written key hwrites)
  refine ⟨hp, ?_⟩
  rcases promotes_effect svc x.1 s.workspace hp with huntouched | ⟨a, target, rfl, hpromoted⟩
  · exact absurd ((congrArg (Option.map Asset.status) huntouched.get).symm.trans hnow) hbefore
  obtain ⟨-, hflow, hcontrol⟩ := promotionTarget_flow hpromoted.decided
  have htarget : target = "prod" :=
    Option.some.inj ((congrArg (Option.map Asset.status) hpromoted.moved).symm.trans hnow)
  have huat : s.workspace.statusOf a.key = some "uat" :=
    (congrArg (Option.map Asset.status) hpromoted.found).trans
      (congrArg some ((promotionFlow_from hflow).1 htarget))
  obtain ⟨maker, hmaker⟩ := Option.isSome_iff_exists.1 (hs.known a.key hp huat)
  refine ⟨maker, hi _ _ hmaker, ?_⟩
  rintro rfl
  exact hcontrol htarget hg.dualControl hmaker

theorem makers_step (hi : ∀ m ∈ s.makers, m.2 = actor) (hx : x.1 = actor)
    (h : s.step svc x = some s') : ∀ m ∈ s'.makers, m.2 = actor := by
  cases h
  grind

end Preservation

section
variable {svc : Services} {s : History} {actor : String}

variable {kind : Kind} {id : String}

theorem staged_create {body : Value} (h : bodyStatus body ≠ .ok "prod") :
    Staged svc s (actor, .create kind body) := by
  refine ⟨fun key hwrites => ?_, (fun _ hp => nomatch hp), (fun _ hp => nomatch hp)⟩
  obtain ⟨a, ha, -, -, hprod⟩ := hwrites
  obtain ⟨status, hstatus, ha⟩ := bind_eq_ok.1 ha
  obtain ⟨fields, -, ha⟩ := bind_eq_ok.1 ha
  obtain ⟨id, -, ha⟩ := bind_eq_ok.1 ha
  cases ha
  exact absurd (hprod ▸ hstatus) h

theorem staged_test {payload : Value} : Staged svc s (actor, .test kind id payload) :=
  ⟨(fun _ h => h.elim), (fun _ hp => nomatch hp), (fun _ hp => nomatch hp)⟩

theorem staged_promote {promotedBy reason : String} {skipMece : Bool}
    (hkind : kind ≠ .policy) (h : s.workspace.statusOf (kind, id) = some "uat" →
      (s.workspace.lastPromotionActor (kind, id) "uat").isSome) :
    Staged svc s (actor, .promote kind id promotedBy reason skipMece) := by
  have hkey : ∀ {key}, (Request.promote kind id promotedBy reason skipMece).promotes key = true →
      key = (kind, id) := fun hp => by simpa [Request.promotes] using hp
  refine ⟨(fun _ h => h.elim), fun a hp _ ws => ?_, fun key hp => ?_⟩
  · obtain rfl : a.kind = kind := congrArg Prod.fst (hkey hp)
    rw [captured, if_neg hkind]
  · obtain rfl := hkey hp
    exact h

end

/-! ### The result -/

/-- Parts that take every body, and pass every test. -/
def lenient : Services where
  slugify := id
  createColumns := fun _ _ body => .ok [("name", (body.field "name").getD .null)]
  updateColumns := fun _ _ body => .ok [("name", (body.field "name").getD .null)]
  test := fun _ _ _ => .ok ⟨[("passed", .bool true)], none⟩
  snapshot := fun _ a => .ok (.dict a.fields)
  meceGate := fun _ _ => .ok ()
  validateImport := fun _ _ => .ok ()
  importColumns := fun _ item => .ok ([("name", (item.field "name").getD .null)], 1)
  storeConnectors := fun _ => .ok ()

def emptyWorkspace : Workspace := ⟨[], [], true, List.nodup_nil⟩

def namedBody (name status : String) : Value := .dict [("name", .str name), ("status", .str status)]

/-- A rule goes through its stages; the last promotion is by `checker`. -/
def relayedRun (checker : String) : List (String × Request) :=
  [("member:1", .create .rule (namedBody "adult" "dev")),
    ("member:1", .test .rule "adult" .null),
    ("member:1", .promote .rule "adult" "" "" false),
    (checker, .promote .rule "adult" "" "" false)]

end RuleMind.Assets
