/-
  Promoting a batch: `deploy_promote` of `app/routers/runtime.py`, with the policies captured
  as `policy_snapshot` of `app/policy_diff.py` captures them.
-/
import RuleMind.DualControl
import RuleMind.PolicyDiff

namespace RuleMind.Assets

open PolicyDiff

/-! ### Capturing a policy -/

def Asset.row (a : Asset) : Value :=
  .dict (a.fields ++ [("id", .str a.id), ("status", .str a.status),
    ("last_test_result", a.lastTestResult), ("version", .int a.version)])

def Workspace.rows (ws : Workspace) (kind : Kind) : List (String × Value) :=
  (ws.assets.filter fun a => a.kind = kind).map fun a => (a.id, a.row)

/-- What a policy may refer to; the decision tables are stored apart. -/
def catalogOf (tables : List (String × Dict)) (ws : Workspace) : Catalog where
  rules := ws.rows .rule
  scorecards := ws.rows .scorecard
  decisionTables := tables.map fun t => (t.1, .dict t.2)

def snapshotValue (s : Snapshot) : Value :=
  .dict [("policy", .dict [("name", s.name), ("defaultOutcome", s.defaultOutcome)]),
    ("steps", .list (s.steps.map fun r =>
      .dict [("type", r.type), ("ref_id", r.refId), ("id", r.id)])),
    ("rules", .dict s.rules), ("scorecards", .dict s.scorecards),
    ("decisionTables", .dict s.decisionTables)]

/-- `policy_snapshot` over a workspace; nobody catches what it raises. -/
def capture (tables : List (String × Dict)) (ws : Workspace) (a : Asset) : Except Failure Value :=
  match policySnapshot ⟨a.row, catalogOf tables ws⟩ with
  | .ok s => .ok (snapshotValue s)
  | .error _ => .error .raised

/-- The services of a program that captures its policies. -/
def Services.capturing (svc : Services) (tables : List (String × Dict)) : Services :=
  { svc with snapshot := capture tables }

/-- `policy.get("steps", []) or []`, gone through. -/
def Asset.steps (a : Asset) : Except PyError (List Value) :=
  RuleTree.iterate (some (Value.orElse (a.row.field "steps") (.list [])))

/-- The types of the steps whose references are looked up. -/
def referringTypes : List String := ["rule", "scorecard", "decision_table"]

/-- A step that can be captured is an object; if it refers to something it does so by neither a
    list nor an object. -/
def CapturableStep (step : Value) : Prop :=
  step.asDict.isSome = true ∧ ∀ type ∈ referringTypes, step.field "type" = some (.str type) →
    (refId step).truthy = true → isContainer (refId step) = false

/-- A policy that can be captured has a list of such steps, or nothing for it. -/
def Capturable (a : Asset) : Prop :=
  ∃ steps, a.steps = .ok steps ∧ ∀ step ∈ steps, CapturableStep step

section Capture

variable {ref : Value} {tables : List (String × Dict)} {ws : Workspace} {a : Asset}

theorem addDefinition_returns {collection kept : Dict} {keys : List String}
    (hrows : ∀ x ∈ collection, x.2.asDict.isSome = true) :
    (∃ d, addDefinition collection keys kept ref = .ok d) ↔ isContainer ref = false := by
  constructor
  · rintro ⟨d, h⟩
    obtain ⟨found, hfound, -⟩ := bind_eq_ok.1 h
    cases ref with
    | list _ | dict _ => cases hfound
    | _ => rfl
  · intro href
    cases ref with
    | list _ | dict _ => cases href
    | str id =>
      cases hfound : (collection.lookup id).filter Value.truthy with
      | none =>
        refine ⟨kept, bind_eq_ok.2 ⟨none, ?_, rfl⟩⟩
        show Except.ok ((collection.lookup id).filter Value.truthy) = _
        rw [hfound]
      | some entity =>
        obtain ⟨hlookup, -⟩ := Option.filter_eq_some_iff.1 hfound
        obtain ⟨l, r, hsplit, -⟩ := List.lookup_eq_some_iff.1 hlookup
        have hdict := hrows (id, entity) (by rw [hsplit]; simp)
        obtain ⟨kvs, hkvs⟩ := Option.isSome_iff_exists.1 hdict
        have hproject : project keys entity =
            .ok (.dict (keys.map fun key => (key, (kvs.lookup key).getD .null))) := by
          rw [project, hkvs]
        refine ⟨_, bind_eq_ok.2 ⟨some entity, ?_, map_eq_ok.2 ⟨_, hproject, rfl⟩⟩⟩
        show Except.ok ((collection.lookup id).filter Value.truthy) = _
        rw [hfound]
    | _ => exact ⟨kept, rfl⟩

theorem definitions_returns {collection : Dict} {keys : List String} {refs : List Value}
    (hrows : ∀ x ∈ collection, x.2.asDict.isSome = true) :
    (∃ d, definitions collection keys refs = .ok d) ↔ ∀ ref ∈ refs, isContainer ref = false := by
  have hfold : ∀ kept : Dict, (∃ d, refs.foldlM (addDefinition collection keys) kept = .ok d) ↔
      ∀ ref ∈ refs, isContainer ref = false := by
    induction refs with
    | nil => exact fun kept => ⟨fun _ => List.forall_mem_nil _, fun _ => ⟨kept, rfl⟩⟩
    | cons ref refs ih =>
      intro kept
      rw [List.foldlM_cons, List.forall_mem_cons]
      constructor
      · rintro ⟨d, h⟩
        obtain ⟨kept', hadd, h⟩ := bind_eq_ok.1 h
        exact ⟨(addDefinition_returns hrows).1 ⟨kept', hadd⟩, (ih kept').1 ⟨d, h⟩⟩
      · rintro ⟨href, hrefs⟩
        obtain ⟨kept', hadd⟩ := (addDefinition_returns hrows).2 href
        obtain ⟨d, h⟩ := (ih kept').2 hrefs
        exact ⟨d, bind_eq_ok.2 ⟨kept', hadd, h⟩⟩
  exact hfold []

theorem stepRef_returns {step : Value} {r : StepRef} :
    PolicyDiff.stepRef step = .ok r ↔ step.asDict.isSome = true ∧
      r = ⟨(step.field "type").getD .null, refId step, (step.field "id").getD .null⟩ := by
  rw [PolicyDiff.stepRef]
  grind

theorem mem_referenced {type : String} {steps : List Value} {refs : List StepRef}
    (hrefs : steps.mapM PolicyDiff.stepRef = .ok refs) :
    ref ∈ referenced type refs ↔ ∃ step ∈ steps, step.field "type" = some (.str type) ∧
      (refId step).truthy = true ∧ refId step = ref := by
  have htype : ∀ {step : Value}, (step.field "type").getD .null = .str type ↔
      step.field "type" = some (.str type) := by
    intro step
    cases step.field "type" <;> simp
  obtain ⟨hread, hread'⟩ := mapM_mem hrefs
  rw [referenced]
  constructor
  · intro h
    obtain ⟨r, hr, rfl⟩ := List.mem_map.1 h
    obtain ⟨hr, hkept⟩ := List.mem_filter.1 hr
    obtain ⟨step, hstep, hval⟩ := hread' r hr
    obtain ⟨-, rfl⟩ := stepRef_returns.1 hval
    grind
  · rintro ⟨step, hstep, hkind, htruthy, rfl⟩
    obtain ⟨r, hr, hval⟩ := hread step hstep
    obtain ⟨-, rfl⟩ := stepRef_returns.1 hval
    exact List.mem_map.2 ⟨_, List.mem_filter.2 ⟨hr, by simp [htype.2 hkind, htruthy]⟩, rfl⟩

theorem Workspace.rows_dicts (ws : Workspace) (kind : Kind) :
    ∀ x ∈ ws.rows kind, x.2.asDict.isSome = true := by
  intro x hx
  obtain ⟨a, -, rfl⟩ := List.mem_map.1 hx
  rfl

theorem capture_ok_iff : (∃ v, capture tables ws a = .ok v) ↔ Capturable a := by
  have htables : ∀ x ∈ (catalogOf tables ws).decisionTables, x.2.asDict.isSome = true := by
    intro x hx
    obtain ⟨t, -, rfl⟩ := List.mem_map.1 hx
    rfl
  have hrules := ws.rows_dicts .rule
  have hcards := ws.rows_dicts .scorecard
  have hcaptured : (∃ v, capture tables ws a = .ok v) ↔
      ∃ s, policySnapshot ⟨a.row, catalogOf tables ws⟩ = .ok s := by
    rw [capture]
    cases policySnapshot ⟨a.row, catalogOf tables ws⟩ with
    | error e => simp
    | ok s => simp
  rw [hcaptured]
  constructor
  · rintro ⟨s, h⟩
    obtain ⟨steps, hsteps, h⟩ := bind_eq_ok.1 h
    obtain ⟨refs, hrefs, h⟩ := bind_eq_ok.1 h
    obtain ⟨rules, hr, h⟩ := bind_eq_ok.1 h
    obtain ⟨cards, hc, h⟩ := bind_eq_ok.1 h
    obtain ⟨tables, ht, -⟩ := bind_eq_ok.1 h
    refine ⟨steps, hsteps, fun step hstep => ⟨?_, fun type htype hkind htruthy => ?_⟩⟩
    · grind [mapM_mem, stepRef_returns]
    · have hmem : refId step ∈ referenced type refs :=
        (mem_referenced hrefs).2 ⟨step, hstep, hkind, htruthy, rfl⟩
      simp only [referringTypes, List.mem_cons, List.not_mem_nil, or_false] at htype
      rcases htype with rfl | rfl | rfl
      · exact (definitions_returns hrules).1 ⟨rules, hr⟩ _ hmem
      · exact (definitions_returns hcards).1 ⟨cards, hc⟩ _ hmem
      · exact (definitions_returns htables).1 ⟨tables, ht⟩ _ hmem
  · rintro ⟨steps, hsteps, hgood⟩
    have hrefs : steps.mapM PolicyDiff.stepRef = .ok (steps.map fun step =>
        ⟨(step.field "type").getD .null, refId step, (step.field "id").getD .null⟩) := by
      rw [mapM_eq_ok, List.forall₂_map_right_iff, List.forall₂_same]
      exact fun step hstep => stepRef_returns.2 ⟨(hgood step hstep).1, rfl⟩
    have hplain : ∀ type ∈ referringTypes, ∀ ref ∈ referenced type (steps.map fun step =>
        ⟨(step.field "type").getD .null, refId step, (step.field "id").getD .null⟩),
          isContainer ref = false := by
      intro type htype ref href
      obtain ⟨step, hstep, hkind, htruthy, rfl⟩ := (mem_referenced hrefs).1 href
      exact (hgood step hstep).2 type htype hkind htruthy
    obtain ⟨rules, hr⟩ := (@definitions_returns _ ruleKeys _ hrules).2 (hplain "rule" (by decide))
    obtain ⟨cards, hc⟩ := (@definitions_returns _ scorecardKeys _ hcards).2
      (hplain "scorecard" (by decide))
    obtain ⟨tables, ht⟩ := (@definitions_returns _ tableKeys _ htables).2
      (hplain "decision_table" (by decide))
    exact ⟨_, bind_eq_ok.2 ⟨steps, hsteps, bind_eq_ok.2 ⟨_, hrefs, bind_eq_ok.2 ⟨rules, hr,
      bind_eq_ok.2 ⟨cards, hc, bind_eq_ok.2 ⟨tables, ht, rfl⟩⟩⟩⟩⟩⟩

theorem captured_ok_iff {svc : Services}
    : captured (svc.capturing tables) a ws = .ok () ↔ (a.kind = .policy → Capturable a) := by
  rw [captured]
  by_cases hkind : a.kind = .policy
  · rw [if_pos hkind]
    constructor
    · rintro h -
      obtain ⟨v, hv, -⟩ := map_eq_ok.1 h
      exact capture_ok_iff.1 ⟨v, hv⟩
    · intro h
      obtain ⟨v, hv⟩ := capture_ok_iff.2 (h hkind)
      exact map_eq_ok.2 ⟨v, hv, rfl⟩
  simp_all

end Capture

/-! ### Batches -/

section Batch

/-- An item's asset went one stage on, and the ledger has a row of it. -/
def Advances (actor : String) (ws ws' : Workspace) (item : DeployItem) (row : Promotion) : Prop :=
  ∃ a target, item.Names a.key ∧ ws.get a.key = some a ∧ promotionFlow a.status = some target ∧
    ws'.get a.key = some { a with status := target } ∧
    row = ⟨a.key, a.status, target, ledgerActor actor item.promotedBy, item.reason⟩

/-- Every listed asset went one stage on, no other one changed, and the ledger has one new row an
    item. -/
structure Applied (actor : String) (items : List DeployItem) (ws ws' : Workspace) : Prop where
  advanced : ∃ rows, List.Forall₂ (Advances actor ws ws') items rows ∧
    ws'.promotions = rows.reverse ++ ws.promotions
  others : ∀ key, (∀ item ∈ items, ¬ item.Names key) → ws'.get key = ws.get key

def Unapplied (ws ws' : Workspace) : Prop :=
  (∀ key, ws'.statusOf key = ws.statusOf key) ∧ ws'.promotions = ws.promotions

/-- A batch raises and changes nothing, or is promoted as a whole. -/
def AllOrNothing (svc : Services) (actor : String) (items : List DeployItem) (ws : Workspace) :
    Prop :=
  ((∃ e, (deployPromote svc actor items ws).1 = .error e) ∧
    Unapplied ws (deployPromote svc actor items ws).2) ∨
  ((deployPromote svc actor items ws).1 = .ok () ∧
    Applied actor items ws (deployPromote svc actor items ws).2)

def PoliciesCapturable (items : List DeployItem) (ws : Workspace) : Prop :=
  ∀ item ∈ items, ∀ a, item.Names a.key → ws.get a.key = some a → a.kind = .policy → Capturable a

variable {svc : Services} {actor : String} {ws : Workspace}

variable {target : String} {a : Asset} {ws' : Workspace} {item : DeployItem}

theorem Untouched.promotable {entityType id : String} (h : Untouched ws ws' a.key)
    (hp : Assets.promotable actor entityType id ws = .ok (a, target)) :
    Assets.promotable actor entityType id ws' = .ok (a, target) := by
  obtain ⟨hname, hid, hget, htarget⟩ := promotable_ok.1 hp
  exact promotable_ok.2 ⟨hname, hid, h.get.trans hget, h.promotionTarget.trans htarget⟩

theorem names_of_promotable
    (h : promotable actor item.entityType item.entityId ws = .ok (a, target)) :
    item.Names a.key := by simp_all [promotable_ok, DeployItem.Names, DeployItem.pair, Asset.key]

theorem key_of_names {key key' : Key} (h : item.Names key) (h' : item.Names key') : key = key' := by
  obtain ⟨hname, hid⟩ := Prod.mk.inj (h.symm.trans h')
  have hkind : Kind.ofName key.1.name = Kind.ofName key'.1.name := congrArg Kind.ofName hname
  grind [Kind.ofName_name]

theorem flow_of_promotionTarget
    (h : promotionTarget ws actor a = .ok target) : promotionFlow a.status = some target := by
  rw [promotionTarget] at h
  split at h
  · cases h
  · obtain ⟨next, hnext, h⟩ := bind_eq_ok.1 h
    rw [nextStatus] at hnext
    split at h
    · cases h
    · cases h
      cases hflow : promotionFlow a.status with
      | none =>
        rw [hflow] at hnext
        cases hnext
      | some next =>
        rw [hflow] at hnext
        cases hnext
        rfl

theorem promotionFlow_ne {status : String} (h : promotionFlow status = some target) :
    target ≠ status := by
  rintro rfl
  unfold promotionFlow at h
  grind

theorem preflight_promotable : ∀ {items : List DeployItem} {seen : List (String × String)},
    preflight actor ws seen items = .ok () → ∀ item ∈ items, ∃ a target,
      promotable actor item.entityType item.entityId ws = .ok (a, target)
  | [], _, _ => List.forall_mem_nil _
  | item :: items, seen, h => by
    rw [preflight] at h
    split at h
    · cases h
    · obtain ⟨⟨a, target⟩, hhead, h⟩ := bind_eq_ok.1 h
      exact List.forall_mem_cons.2 ⟨⟨a, target, hhead⟩, preflight_promotable h⟩

theorem promoteEntity_returns {item : DeployItem} {a : Asset} {target : String}
    (hp : promotable actor item.entityType item.entityId ws = .ok (a, target))
    (hc : ∀ ws', captured svc a ws' = .ok ()) :
    promoteEntity svc actor item.entityType item.entityId item.promotedBy item.reason ws =
      (.ok (), (ws.patch a.key ⟨[], some target, none⟩ false).record
        ⟨a.key, a.status, target, ledgerActor actor item.promotedBy, item.reason⟩) := by
  rw [promoteEntity, decideThen_ok _ hp]
  show decideThen (captured svc a) _ (ws.patch a.key ⟨[], some target, none⟩ false) = _
  rw [decideThen_ok _ (hc _)]
  rfl

theorem promoteEntity_raises {e : Failure}
    (hp : promotable actor item.entityType item.entityId ws = .ok (a, target))
    (hc : captured svc a (ws.patch a.key ⟨[], some target, none⟩ false) = .error e) :
    promoteEntity svc actor item.entityType item.entityId item.promotedBy item.reason ws =
      (.error e, ws.patch a.key ⟨[], some target, none⟩ false) := by
  rw [promoteEntity, decideThen_ok _ hp]
  show decideThen (captured svc a) _ (ws.patch a.key ⟨[], some target, none⟩ false) = _
  rw [decideThen_error _ hc]

def Ready (actor : String) (ws : Workspace) (item : DeployItem) : Prop :=
  ∃ a target, promotable actor item.entityType item.entityId ws = .ok (a, target) ∧
    (a.kind = .policy → Capturable a)

theorem Untouched.symm {key : Key} (h : Untouched ws ws' key) : Untouched ws' ws key :=
  ⟨h.get.symm, fun status => (h.ledger status).symm, h.dualControl.symm⟩

theorem Ready.of_untouched (h : Ready actor ws item)
    (huntouched : ∀ key, item.Names key → Untouched ws ws' key) : Ready actor ws' item := by
  obtain ⟨a, target, hp, hcapturable⟩ := h
  exact ⟨a, target, (huntouched a.key (names_of_promotable hp)).promotable hp, hcapturable⟩

theorem promoteAll_applied (svc : Services) (tables : List (String × Dict)) :
    ∀ {items : List DeployItem} {ws : Workspace}, (items.map DeployItem.pair).Nodup →
      (∀ item ∈ items, Ready actor ws item) →
      ∃ ws', promoteAll (svc.capturing tables) actor items ws = (.ok (), ws') ∧
        Applied actor items ws ws'
  | [], ws, _, _ => ⟨ws, rfl, ⟨[], .nil, rfl⟩, fun _ _ => rfl⟩
  | item :: items, ws, hnodup, hready => by
    obtain ⟨hfresh, hnodup⟩ := List.nodup_cons.1 hnodup
    obtain ⟨hhead, htail⟩ := List.forall_mem_cons.1 hready
    obtain ⟨a, target, hp, hcapturable⟩ := hhead
    have hnames := names_of_promotable hp
    obtain ⟨-, -, hget, htarget⟩ := promotable_ok.1 hp
    have hfirst := @promoteEntity_returns (svc.capturing tables) _ _ _ _ _ hp
      fun ws' => captured_ok_iff.2 hcapturable
    generalize hws₁ : (ws.patch a.key ⟨[], some target, none⟩ false).record _ = ws₁ at hfirst
    have hmoved : ws₁.get a.key = some { a with status := target } := by
      rw [← hws₁, Workspace.get_record, Workspace.get_patch, if_pos rfl, hget, Option.map_some,
        Asset.patched_status]
    have hnot : ∀ x ∈ items, ∀ key, x.Names key → ¬ item.Names key := by
      intro x hx key hkey hitem
      refine hfresh ?_
      rw [hitem.trans hkey.symm]
      exact List.mem_map_of_mem hx
    have huntouched : ∀ key, ¬ item.Names key → Untouched ws ws₁ key := by
      intro key hkey
      have hother := @promoteEntity_other (svc.capturing tables) actor ws _ _ hkey
      rw [hfirst] at hother
      exact hother
    obtain ⟨ws', hrest, ⟨rows, hrows, hledger⟩, hothers⟩ := promoteAll_applied svc tables hnodup
      fun x hx => (htail x hx).of_untouched fun key hkey => huntouched key (hnot x hx key hkey)
    refine ⟨ws', (Prog.bind_ok hfirst).trans hrest, ⟨⟨⟨a.key, a.status, target,
      ledgerActor actor item.promotedBy, item.reason⟩ :: rows, .cons ?_ ?_, ?_⟩, ?_⟩⟩
    · exact ⟨a, target, hnames, hget, flow_of_promotionTarget htarget,
        (hothers a.key fun x hx hkey => hnot x hx _ hkey hnames).trans hmoved, rfl⟩
    · refine (List.forall₂_iff_get.1 hrows).elim fun hlen hat => List.forall₂_iff_get.2 ⟨hlen, ?_⟩
      intro i hi hi'
      obtain ⟨b, next, hnamed, hfound, hflow, hnow, hrow⟩ := hat i hi hi'
      have hkept := (huntouched b.key (hnot _ (List.get_mem _ _) _ hnamed)).get
      exact ⟨b, next, hnamed, hkept.symm.trans hfound, hflow, hnow, hrow⟩
    · rw [hledger, ← hws₁, List.reverse_cons, List.append_assoc]
      rfl
    · intro key hkey
      obtain ⟨hkey, hrest⟩ := List.forall_mem_cons.1 hkey
      exact (hothers key hrest).trans (huntouched key hkey).get

theorem promoteAll_first (svc : Services) {items : List DeployItem}
    (hnodup : ((item :: items).map DeployItem.pair).Nodup)
    (hp : promotable actor item.entityType item.entityId ws = .ok (a, target)) :
    ¬ Unapplied ws (promoteAll svc actor (item :: items) ws).2 := by
  rintro ⟨hstatus, -⟩
  obtain ⟨hfresh, -⟩ := List.nodup_cons.1 hnodup
  obtain ⟨-, -, hget, htarget⟩ := promotable_ok.1 hp
  have heffect := promoteEntity_effect svc actor item.entityType item.entityId item.promotedBy
    item.reason ws
  rw [hp] at heffect
  have hmoved := heffect.1.moved
  have hlast : (promoteAll svc actor (item :: items) ws).2.get a.key =
      some { a with status := target } := by
    rw [promoteAll, Prog.bind_apply]
    cases hfirst : promoteEntity svc actor item.entityType item.entityId item.promotedBy
        item.reason ws with
    | mk r ws₁ =>
      rw [hfirst] at hmoved
      cases r with
      | error e => exact hmoved
      | ok u =>
        have hother : Untouched ws₁ (promoteAll svc actor items ws₁).2 a.key := by
          refine promoteAll_other fun x hx hkey => hfresh ?_
          rw [(names_of_promotable hp).trans hkey.symm]
          exact List.mem_map_of_mem hx
        exact hother.get.trans hmoved
  have hsame := hstatus a.key
  rw [Workspace.statusOf, Workspace.statusOf, hlast, hget] at hsame
  exact promotionFlow_ne (flow_of_promotionTarget htarget) (Option.some.inj hsame)

theorem ready_of_promoteAll (svc : Services) (tables : List (String × Dict)) :
    ∀ {items : List DeployItem} {ws : Workspace}, (items.map DeployItem.pair).Nodup →
      (promoteAll (svc.capturing tables) actor items ws).1 = .ok () →
      ∀ item ∈ items, Ready actor ws item
  | [], _, _, _ => List.forall_mem_nil _
  | item :: items, ws, hnodup, h => by
    obtain ⟨hfresh, hnodup⟩ := List.nodup_cons.1 hnodup
    rw [promoteAll, Prog.bind_apply] at h
    cases hp : promotable actor item.entityType item.entityId ws with
    | error e =>
      rw [promoteEntity, decideThen_error _ hp] at h
      cases h
    | ok x =>
      obtain ⟨a, target⟩ := x
      cases hc : captured (svc.capturing tables) a
          (ws.patch a.key ⟨[], some target, none⟩ false) with
      | error e =>
        rw [promoteEntity_raises hp hc] at h
        cases h
      | ok u =>
        have hcapturable := captured_ok_iff.1 hc
        have hfirst := @promoteEntity_returns (svc.capturing tables) _ _ _ _ _ hp
          fun ws' => captured_ok_iff.2 hcapturable
        rw [hfirst] at h
        refine List.forall_mem_cons.2 ⟨⟨a, target, hp, hcapturable⟩, fun x hx => ?_⟩
        refine (ready_of_promoteAll svc tables hnodup h x hx).of_untouched fun key hkey => ?_
        have hother := @promoteEntity_other (svc.capturing tables) actor ws key item
          fun hitem => hfresh (by
            rw [hitem.trans hkey.symm]
            exact List.mem_map_of_mem hx)
        rw [hfirst] at hother
        exact hother.symm

/-- **Deploying a batch.**  It is promoted as a whole or not at all exactly if it is refused at
    first, or each of its policies can be captured. -/
theorem deployPromote_all_or_nothing_iff (svc : Services) (tables : List (String × Dict))
    (actor : String) (items : List DeployItem) (ws : Workspace) :
    AllOrNothing (svc.capturing tables) actor items ws ↔
      (∃ e, preflight actor ws [] items = .error e) ∨ PoliciesCapturable items ws := by
  cases hd : preflight actor ws [] items with
  | error e =>
    refine ⟨fun _ => .inl ⟨e, rfl⟩, fun _ => .inl ?_⟩
    rw [deployPromote, decideThen_error _ hd]
    exact ⟨⟨e, rfl⟩, fun _ => rfl, rfl⟩
  | ok u =>
    have hnodup := (preflight_nodup hd).1
    have hready := preflight_promotable hd
    have hrun : deployPromote (svc.capturing tables) actor items ws =
        promoteAll (svc.capturing tables) actor items ws := by
      rw [deployPromote, decideThen_ok _ hd]
    rw [AllOrNothing, hrun]
    constructor
    · rintro (⟨⟨e, he⟩, hunapplied⟩ | ⟨hok, -⟩)
      · cases items with
        | nil => cases he
        | cons item items => grind [List.mem_cons_self, promoteAll_first]
      · refine .inr fun item hitem a hnames hget hkind => ?_
        obtain ⟨b, target, hp, hcapturable⟩ := ready_of_promoteAll svc tables hnodup hok item hitem
        have hkey := key_of_names hnames (names_of_promotable hp)
        simp_all [promotable_ok]
    · rintro (⟨e, he⟩ | hcapturable)
      · cases he
      · obtain ⟨ws', hok, happlied⟩ := promoteAll_applied svc tables hnodup fun item hitem => by
          obtain ⟨a, target, hp⟩ := hready item hitem
          obtain ⟨-, -, hget, -⟩ := promotable_ok.1 hp
          exact ⟨a, target, hp, hcapturable item hitem a (names_of_promotable hp) hget⟩
        rw [hok]
        exact .inr ⟨rfl, happlied⟩

end Batch

def passedRun : Value := .dict [("passed", .bool true)]

/-- A rule, and a policy whose step refers to decision tables by a list. -/
def listedTables : Workspace where
  assets := [⟨.rule, "adult", [("name", .str "adult")], "dev", passedRun, 1⟩,
    ⟨.policy, "loan", [("name", .str "loan"), ("steps", .list [.dict [
      ("type", .str "decision_table"), ("ref_id", .list [.str "rates"])]])], "dev", passedRun, 1⟩]
  promotions := []
  dualControl := true
  unique := by decide

def release : List DeployItem :=
  [⟨"rule", "adult", "system", "Batch promotion"⟩, ⟨"policy", "loan", "system", "Batch promotion"⟩]

/-- The request fails, with both assets in UAT and one row in the ledger. -/
theorem uncapturable_half_applied :
    ¬ AllOrNothing (lenient.capturing []) "member:1" release listedTables := by
  have hstatus : (deployPromote (lenient.capturing []) "member:1" release listedTables).2.statusOf
      (.policy, "loan") = some "uat" := by decide +kernel
  have hfailed : (deployPromote (lenient.capturing []) "member:1" release listedTables).1 =
      .error .raised := by decide +kernel
  rintro (⟨-, hsame, -⟩ | ⟨hok, -⟩)
  · have hstayed := (hsame (.policy, "loan")).symm.trans hstatus
    exact absurd hstayed (by decide +kernel)
  · rw [hfailed] at hok
    cases hok

end RuleMind.Assets
