/-
  The test gate of promotions (`promotion_ready`, `ensure_promotable` of `app/main.py`)
  over the runs of one workspace.
-/
import RuleMind.DualControl

namespace RuleMind.Assets

/-! ### Runs with their test runs -/

/-- The columns that decide something; the expression is a text made from them. -/
def Asset.definition (a : Asset) : Dict := a.fields.filter fun kv => kv.1 ≠ "expression"

structure Tested where
  key : Key
  definition : Dict
  passed : Bool
  deriving DecidableEq

/-- A promotion that was accepted, and the latest test run of the asset at that time. -/
structure Acceptance where
  key : Key
  definition : Dict
  latest : Option Tested
  deriving DecidableEq

structure TestLog where
  workspace : Workspace
  tests : List Tested
  accepted : List Acceptance
  deriving DecidableEq

def latestTest (tests : List Tested) (key : Key) : Option Tested := tests.find? fun t => t.key = key

/-- A run starts with the passing results on record, as tests of what is stored. -/
def TestLog.start (ws : Workspace) : TestLog :=
  ⟨ws, (ws.assets.filter promotionReady).map fun a => ⟨a.key, a.definition, true⟩, []⟩

section
variable (svc : Services)

/-- The test run a request makes; one that raises does not pass. -/
def testOf (ws : Workspace) : Request → Option Tested
  | .test kind id payload => (ws.get (kind, id)).map fun a =>
    ⟨a.key, a.definition, match svc.test ws a payload with
      | .ok run => resultPassed (.dict run.result)
      | .error _ => false⟩
  | _ => none

/-- The assets a request promotes to another status. -/
def acceptedBy (ws ws' : Workspace) (req : Request) : List Asset :=
  ws.assets.filter fun a => req.promotes a.key ∧ ws'.statusOf a.key ≠ some a.status

def TestLog.step (s : TestLog) (x : String × Request) : Option TestLog :=
  let ws' := (handle svc x.1 x.2 s.workspace).2
  some {
    workspace := ws'
    tests := (testOf svc s.workspace x.2).toList ++ s.tests
    accepted := (acceptedBy s.workspace ws' x.2).map (fun a =>
      ⟨a.key, a.definition, latestTest s.tests a.key⟩) ++ s.accepted }

/-- Of an asset with a passing result on record no update changes the definition and no test
    run raises, and no import brings a passing result. -/
def Fresh (ws : Workspace) : Request → Prop
  | .update kind id body => ∀ a p, ws.get (kind, id) = some a → promotionReady a = true →
      updatePatch svc kind id body ws = .ok p → (a.patched p true).definition = a.definition
  | .test kind id payload => ∀ a, ws.get (kind, id) = some a → promotionReady a = true →
      ∃ run, svc.test ws a payload = .ok run
  | .importConfig body => ∀ x ∈ importItems body, ∀ a, importedAsset svc x.1 x.2 = .ok a →
      promotionReady a = false
  | _ => True

end

/-- The latest test run of everything promoted had passed, on the definition promoted. -/
def GateHeld (s : TestLog) : Prop :=
  ∀ x ∈ s.accepted, ∃ t, x.latest = some t ∧ t.passed = true ∧ t.definition = x.definition

instance (s : TestLog) : Decidable (GateHeld s) :=
  decidable_of_iff (∀ x ∈ s.accepted,
      x.latest.any (fun t => t.passed = true ∧ t.definition = x.definition) = true) <| by
    refine forall₂_congr fun x _ => ?_
    cases x.latest with
    | none => simp
    | some t => simp

/-! ### Results on record -/

section Preservation
variable {svc : Services} {ws : Workspace} {s s' : TestLog} {x : String × Request}

/-- A passing result on record is that of the latest test run, on what is stored. -/
def OnRecord (tests : List Tested) (ws : Workspace) : Prop :=
  ∀ key a, ws.get key = some a → promotionReady a = true →
    ∃ t, latestTest tests key = some t ∧ t.passed = true ∧ t.definition = a.definition

theorem onRecord_start (ws : Workspace) :
    OnRecord (TestLog.start ws).tests (TestLog.start ws).workspace := by
  intro key a hget hready
  have hmem : a ∈ ws.assets.filter promotionReady :=
    List.mem_filter.2 ⟨Workspace.mem_of_get hget, hready⟩
  have hkey := Workspace.key_of_get hget
  cases hfind : latestTest (TestLog.start ws).tests key with
  | none =>
    have hnot := List.find?_eq_none.1 hfind ⟨a.key, a.definition, true⟩ (List.mem_map_of_mem hmem)
    simp [hkey] at hnot
  | some t =>
    obtain ⟨b, hb, rfl⟩ := List.mem_map.1 (List.mem_of_find?_eq_some hfind)
    have hbkey : b.key = key := by simpa using List.find?_some hfind
    have hsame : ws.get b.key = some b := Workspace.get_of_mem (List.mem_filter.1 hb).1
    rw [hbkey, show ws.get key = some a from hget] at hsame
    cases hsame
    exact ⟨_, rfl, rfl, rfl⟩

variable {tests : List Tested} {ws' : Workspace} {actor : String}

theorem OnRecord.restaged (h : OnRecord tests ws)
    (hsame : ∀ key a, ws'.get key = some a → ∃ b, ws.get key = some b ∧
      b.definition = a.definition ∧ b.lastTestResult = a.lastTestResult) :
    OnRecord tests ws' := by
  intro key a hget hready
  obtain ⟨b, hb, hdef, hresult⟩ := hsame key a hget
  have hbready : promotionReady b = true := by
    rw [promotionReady, hresult]
    exact hready
  obtain ⟨t, ht, hpassed, htdef⟩ := h key b hb hbready
  exact ⟨t, ht, hpassed, htdef.trans hdef⟩

theorem OnRecord.of_get (h : OnRecord tests ws)
    (hget : ∀ key, ws'.get key = ws.get key) : OnRecord tests ws' :=
  h.restaged fun key a ha => ⟨a, (hget key).symm.trans ha, rfl, rfl⟩

theorem TestRun.lookup_columns (run : TestRun) {key : String} (h : key ≠ "expression") :
    run.columns.lookup key = none := by grind [TestRun.columns]

theorem definition_patched {a : Asset} {p : Patch} (bump : Bool)
    (h : ∀ key, key ≠ "expression" → p.fields.lookup key = none) :
    (a.patched p bump).definition = a.definition := by
  show (a.fields.map _).filter _ = a.fields.filter _
  induction a.fields with
  | nil => rfl
  | cons kv fields ih => grind

theorem onRecord_promotion
    (hi : OnRecord tests ws) (h : ∀ key, PromotedOrNot svc actor ws ws' key) :
    OnRecord tests ws' := by
  refine hi.restaged fun key a ha => ?_
  rcases h key with huntouched | ⟨b, target, rfl, hpromoted⟩
  · exact ⟨a, huntouched.get.symm.trans ha, rfl, rfl⟩
  · rw [hpromoted.moved] at ha
    cases ha
    exact ⟨b, hpromoted.found, rfl, rfl⟩

theorem onRecord_test {kind : Kind} {id : String}
    {payload : Value} (hi : OnRecord tests ws) (hf : Fresh svc ws (.test kind id payload)) :
    OnRecord ((testOf svc ws (.test kind id payload)).toList ++ tests)
      (handle svc actor (.test kind id payload) ws).2 := by
  have hget := (test_apply svc kind id payload ws).2
  show OnRecord _ (test svc kind id payload ws).2
  cases hstored : ws.get (kind, id) with
  | none =>
    -- nothing is tested
    have hpatch : ∃ e, testPatch svc kind id payload ws = .error e :=
      ⟨notFound (kind, id), by simp [testPatch, ensureExists, hstored, bind, Except.bind]⟩
    obtain ⟨e, he⟩ := hpatch
    rw [he] at hget
    simp only [testOf, hstored, Option.map_none, Option.toList_none, List.nil_append]
    exact hi.of_get hget
  | some a =>
    have hakey := Workspace.key_of_get hstored
    intro key b hb hready
    simp only [testOf, hstored, Option.map_some, Option.toList_some, latestTest, List.cons_append,
      List.nil_append, List.find?_cons]
    by_cases hkey : a.key = key
    · simp only [hkey, decide_true]
      refine ⟨_, rfl, ?_⟩
      cases hrun : svc.test ws a payload with
      | error e =>
        have hpatch : testPatch svc kind id payload ws = .error e := by
          simp [testPatch, ensureExists, hstored, bind, Except.bind, hrun]
        rw [hpatch] at hget
        rw [hget, ← hkey, hakey, hstored] at hb
        cases hb
        obtain ⟨run, hok⟩ := hf a hstored hready
        rw [hrun] at hok
        cases hok
      | ok run =>
        have hpatch : testPatch svc kind id payload ws =
            .ok ⟨run.columns, none, some (.dict run.result)⟩ := by
          simp [testPatch, ensureExists, hstored, bind, Except.bind, hrun, pure, Except.pure]
        rw [hpatch] at hget
        simp only [hget, ← hkey, hakey, if_true, hstored, Option.map_some] at hb
        cases hb
        refine ⟨hready, (definition_patched false fun key h => ?_).symm⟩
        exact run.lookup_columns h
    · simp only [hkey, decide_false]
      refine hi key b ?_ hready
      grind

theorem onRecord_step (hi : OnRecord s.tests s.workspace) (hf : Fresh svc s.workspace x.2)
    (h : s.step svc x = some s') : OnRecord s'.tests s'.workspace := by
  cases h
  obtain ⟨actor, req⟩ := x
  cases req with
  | test kind id payload => exact onRecord_test hi hf
  | create kind body =>
    show OnRecord s.tests (create svc kind body s.workspace).2
    have hget := (create_apply svc kind body s.workspace).2
    intro key b hb hready
    rw [hget] at hb
    split at hb
    · rename_i a ha
      split at hb
      · -- a new asset has no result
        cases hb
        obtain ⟨status, -, ha⟩ := bind_eq_ok.1 ha
        obtain ⟨fields, -, ha⟩ := bind_eq_ok.1 ha
        obtain ⟨id, -, ha⟩ := bind_eq_ok.1 ha
        cases ha
        cases hready
      · exact hi key b hb hready
    · exact hi key b hb hready
  | update kind id body =>
    show OnRecord s.tests (update svc kind id body s.workspace).2
    have hget := (update_apply svc kind id body s.workspace).2
    intro key b hb hready
    rw [hget] at hb
    split at hb
    · rename_i p hp
      split at hb
      · rename_i hkey
        obtain ⟨a, ha, rfl⟩ := Option.map_eq_some_iff.1 hb
        have hresult : (a.patched p true).lastTestResult = a.lastTestResult := by
          obtain ⟨status, -, hp⟩ := bind_eq_ok.1 hp
          obtain ⟨fields, -, hp⟩ := bind_eq_ok.1 hp
          obtain ⟨_, -, hp⟩ := bind_eq_ok.1 hp
          cases hp
          rfl
        rw [promotionReady, hresult] at hready
        obtain ⟨t, ht, hpassed, hdef⟩ := hi key a (hkey ▸ ha) hready
        exact ⟨t, ht, hpassed, hdef.trans (hf a p ha hready hp).symm⟩
      · exact hi key b hb hready
    · exact hi key b hb hready
  | delete kind id =>
    show OnRecord s.tests (delete kind id s.workspace).2
    have hget := (delete_apply kind id s.workspace).2
    refine hi.restaged fun key b hb => ⟨b, ?_, rfl, rfl⟩
    grind
  | promote kind id promotedBy reason skipMece =>
    have heffect : ∀ key, PromotedOrNot svc actor s.workspace
        (promote svc actor kind id promotedBy reason skipMece s.workspace).2 key := by
      intro key
      by_cases hkey : key = (kind, id)
      · exact promotes_effect svc actor s.workspace
          (show (Request.promote kind id promotedBy reason skipMece).promotes key = true by
            simp [Request.promotes, hkey])
      · exact Or.inl (promote_other hkey)
    exact onRecord_promotion hi heffect
  | deployPromote items =>
    have heffect : ∀ key, PromotedOrNot svc actor s.workspace
        (deployPromote svc actor items s.workspace).2 key := by
      intro key
      by_cases hkey : ∃ item ∈ items, item.Names key
      · exact promotes_effect svc actor s.workspace
          (show (Request.deployPromote items).promotes key = true by
            simpa [Request.promotes] using hkey)
      · exact Or.inl (deployPromote_other fun item hitem hnames => hkey ⟨item, hitem, hnames⟩)
    exact onRecord_promotion hi heffect
  | importConfig body =>
    show OnRecord s.tests (importConfig svc body s.workspace).2
    have happly := import_apply svc body s.workspace
    cases hvalid : svc.validateImport s.workspace body with
    | error e => simp_all
    | ok u =>
      rw [hvalid] at happly
      intro key b hb hready
      have hmem := Workspace.mem_of_get hb
      rw [happly.2] at hmem
      split at hmem
      · cases hmem
      · obtain ⟨y, hy, hby⟩ := mem_importable hmem
        rw [hf y hy b hby] at hready
        cases hready

theorem acceptedBy_ready {req : Request} {a : Asset}
    (h : a ∈ acceptedBy ws (handle svc actor req ws).2 req) :
    ws.get a.key = some a ∧ promotionReady a = true := by
  obtain ⟨hmem, h⟩ := List.mem_filter.1 h
  obtain ⟨hp, hmoved⟩ : req.promotes a.key = true ∧ _ := by simpa using h
  have hget := Workspace.get_of_mem hmem
  refine ⟨hget, ?_⟩
  rcases promotes_effect svc actor ws hp with huntouched | ⟨b, target, hkey, hpromoted⟩
  · refine absurd ?_ hmoved
    exact (congrArg (Option.map Asset.status) huntouched.get).trans
      (congrArg (Option.map Asset.status) hget)
  · have hfound := hpromoted.found
    rw [hkey, hget] at hfound
    cases hfound
    exact (promotionTarget_flow hpromoted.decided).1

end Preservation

/-- While nothing leaves an outdated result on record, the latest test run of every asset
    promoted had passed, and was run on the definition promoted. -/
theorem accepted_as_tested (svc : Services) (ws₀ : Workspace) {s : TestLog}
    (h : Lib.Reach (TestLog.step svc) (fun s x => Fresh svc s.workspace x.2)
      (TestLog.start ws₀) s) : GateHeld s := by
  refine (Lib.Reach.invariant (I := fun s => OnRecord s.tests s.workspace ∧ GateHeld s) ?_ ?_ h).2
  · exact ⟨onRecord_start ws₀, List.forall_mem_nil _⟩
  · intro s x s' hi hok hstep
    refine ⟨onRecord_step hi.1 hok hstep, ?_⟩
    cases hstep
    intro y hy
    rcases List.mem_append.1 hy with hy | hy
    · obtain ⟨a, ha, rfl⟩ := List.mem_map.1 hy
      obtain ⟨hget, hready⟩ := acceptedBy_ready ha
      exact hi.1 a.key a hget hready
    · exact hi.2 y hy

/-- A rule is tested, and promoted as it was tested. -/
theorem tested_before_promotion : ∃ s : TestLog, s.accepted ≠ [] ∧ GateHeld s := by
  have hrun : (Lib.exec (TestLog.step lenient) (TestLog.start emptyWorkspace)
      [("member:1", .create .rule (namedBody "adult" "dev")),
        ("member:1", .test .rule "adult" .null),
        ("member:1", .promote .rule "adult" "" "" false)]).any
      (fun s => s.accepted ≠ []) = true := by decide +kernel
  obtain ⟨s, hs, haccepted⟩ := Option.any_eq_true .. |>.1 hrun
  have hreach := Lib.reach_exec hs (show Lib.Along _
    (fun s x => Fresh lenient s.workspace x.2) _ _ from
    ⟨trivial, fun a _ _ => ⟨_, rfl⟩, trivial, trivial⟩)
  exact ⟨s, by simpa using haccepted, accepted_as_tested lenient emptyWorkspace hreach⟩

/-- A rule is edited after its test, and promoted. -/
theorem edited_after_test : ∃ s, Lib.Reachable (TestLog.step lenient)
    (TestLog.start emptyWorkspace) s ∧ ¬ GateHeld s := by
  have hrun : (Lib.exec (TestLog.step lenient) (TestLog.start emptyWorkspace)
      [("member:1", .create .rule (namedBody "adult" "dev")),
        ("member:1", .test .rule "adult" .null),
        ("member:1", .update .rule "adult" (namedBody "minor" "dev")),
        ("member:1", .promote .rule "adult" "" "" false)]).any
      (fun s => ¬ GateHeld s) = true := by decide +kernel
  grind [Option.any_eq_true, Lib.reachable_exec]

end RuleMind.Assets
