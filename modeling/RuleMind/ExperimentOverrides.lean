/-
  The overrides of an experiment: `apply_experiment_overrides` of `app/experiments.py`, on the
  objects of the rules.
-/
import Mathlib.Data.List.Sort
import RuleMind.ConditionPaths

namespace RuleMind.Overrides

open RuleTree SavedRule

/-! ### Overrides -/

/-- `rule.conditions.index.field`, with its value. -/
structure Override where
  rule : String
  index : ℤ
  field : String
  value : Value
  deriving DecidableEq

/-- What an entry of `overrides` sets; one with another path sets nothing. -/
def readOverride (py : PyText) (entry : String × Value) : Option Override :=
  match (entry.1.toList.splitOn '.').map String.ofList with
  | [rule, collection, indexRaw, field] =>
    if collection = "conditions" then
      (py.int indexRaw).map fun index => ⟨rule, index, field, entry.2⟩
    else none
  | _ => none

section Apply
variable (py : PyText) (frames : ℕ)

def setTreeCondition (o : Override) (tree : Value) : Except PyError Value :=
  match tree.asDict with
  | none => .ok tree
  | some _ => (setTreeWalk o.index o.field o.value frames (-1) tree).map Prod.fst

def setNodesCondition (o : Override) (nodes : Value) : Except PyError Value :=
  match nodes with
  | .list ns => (setNodesWalk o.index o.field o.value (-1) ns).map .list
  | v => .ok v

/-- The rule after an override, also where it fails half way. -/
def overrideRule (o : Override) (rule : Value) : Value × Except PyError Unit :=
  match rule.asDict with
  | none => (rule, .error .attributeError)
  | some _ =>
    match setTreeCondition frames o ((rule.field "tree").getD .null) with
    | .error e => (rule, .error e)
    | .ok tree =>
      let rule := putField rule "tree" tree
      match setNodesCondition o ((rule.field "nodes").getD .null) with
      | .error e => (rule, .error e)
      | .ok nodes => (putField rule "nodes" nodes, .ok ())

/-! ### The objects of the rules -/

abbrev Heap := List Value

/-- The rules by their ids, each with the address of its object. -/
abbrev References := List (String × ℕ)

/-- `copy.deepcopy` of every rule. -/
def copyRules : Heap → References → Heap × References
  | heap, [] => (heap, [])
  | heap, (id, address) :: rules =>
    let (heap', copies) := copyRules (heap ++ [heap[address]?.getD .null]) rules
    (heap', (id, heap.length) :: copies)

/-- The loop of `apply_experiment_overrides`. -/
def overrideAll (patched : References) : Heap → Dict → Heap × Except PyError Unit
  | heap, [] => (heap, .ok ())
  | heap, entry :: entries =>
    match readOverride py entry with
    | none => overrideAll patched heap entries
    | some o =>
      match patched.lookup o.rule with
      | none => overrideAll patched heap entries
      | some address =>
        match overrideRule frames o (heap[address]?.getD .null) with
        | (rule, .ok ()) => overrideAll patched (heap.set address rule) entries
        | (rule, .error e) => (heap.set address rule, .error e)

def applyExperimentOverrides (heap : Heap) (rules : References) (assignment : Option Dict) :
    Heap × Except PyError References :=
  match assignment.filter (!·.isEmpty) with
  | none => (heap, .ok rules)
  | some assigned =>
    match (Value.orElse (assigned.lookup "variant") (.dict [])).asDict with
    | none => (heap, .error .attributeError)
    | some variant =>
      let overrides := Value.orElse (variant.lookup "overrides") (.dict [])
      if overrides.truthy then
        let (heap, patched) := copyRules heap rules
        match overrides.asDict with
        | none => (heap, .error .attributeError)
        | some entries =>
          match overrideAll py frames patched heap entries with
          | (heap, .ok ()) => (heap, .ok patched)
          | (heap, .error e) => (heap, .error e)
      else (heap, .ok rules)

def overridesOf (assignment : Option Dict) : Dict :=
  (((assignment.bind (·.lookup "variant")).bind (·.field "overrides")).bind Value.asDict).getD []

def ownOverrides (id : String) (entries : Dict) : List Override :=
  (entries.filterMap (readOverride py)).filter (·.rule = id)

def overridden (rule : Value) (o : Override) : Except PyError Value :=
  match overrideRule frames o rule with
  | (rule, .ok ()) => .ok rule
  | (_, .error e) => .error e

def contents (heap : Heap) (rules : References) (id : String) : Option Value :=
  (rules.lookup id).bind (heap[·]?)

/-- The objects there were are left, a rule that no override names is unchanged, and one that some
    name has these, one after the other. -/
structure Touches (heap : Heap) (rules : References) (assignment : Option Dict) : Prop where
  untouched : ∀ address < heap.length,
    (applyExperimentOverrides py frames heap rules assignment).1[address]? = heap[address]?
  unnamed : ∀ patched,
    (applyExperimentOverrides py frames heap rules assignment).2 = .ok patched →
      ∀ id rule, contents heap rules id = some rule →
        ownOverrides py id (overridesOf assignment) = [] →
          contents (applyExperimentOverrides py frames heap rules assignment).1 patched id =
            some rule
  named : ∀ patched,
    (applyExperimentOverrides py frames heap rules assignment).2 = .ok patched →
      ∀ id rule, contents heap rules id = some rule →
        ∃ rule', (ownOverrides py id (overridesOf assignment)).foldlM (overridden frames) rule =
            .ok rule' ∧
          contents (applyExperimentOverrides py frames heap rules assignment).1 patched id =
            some rule'

end Apply

/-! ### Copies -/

section Copies
variable {heap : Heap} {rules : References}

/-- Copies, behind the objects there were and apart from each other. -/
structure Copied (heap : Heap) (rules : References) (heap' : Heap) (patched : References) :
    Prop where
  kept : ∀ address < heap.length, heap'[address]? = heap[address]?
  fresh : ∀ r ∈ patched, heap.length ≤ r.2
  apart : (patched.map Prod.snd).Nodup
  same : ∀ id rule, contents heap rules id = some rule → contents heap' patched id = some rule

theorem contents_append {id : String} {rule : Value} (more : List Value)
    (h : contents heap rules id = some rule) : contents (heap ++ more) rules id = some rule := by
  obtain ⟨address, hlookup, hrule⟩ := Option.bind_eq_some_iff.1 h
  rw [contents, hlookup, Option.bind_some,
    List.getElem?_append_left (List.getElem?_eq_some_iff.1 hrule).1, hrule]

theorem copyRules_copied : Copied heap rules (copyRules heap rules).1 (copyRules heap rules).2 := by
  induction rules generalizing heap with
  | nil =>
    exact ⟨fun _ _ => rfl, List.forall_mem_nil _, List.nodup_nil, fun id rule h => by cases h⟩
  | cons r rules ih =>
    obtain ⟨id₀, address₀⟩ := r
    obtain ⟨hkept, hfresh, hapart, hsame⟩ := @ih (heap ++ [heap[address₀]?.getD .null])
    rw [copyRules]
    have hlen : (heap ++ [heap[address₀]?.getD .null]).length = heap.length + 1 := by simp
    rw [hlen] at hkept hfresh
    refine ⟨fun address hlt => ?_, ?_, ?_, fun id rule h => ?_⟩
    · grind
    · grind
    · refine List.nodup_cons.2 ⟨fun hmem => ?_, hapart⟩
      grind
    · by_cases hid : id = id₀
      · subst hid
        have hrule : heap[address₀]? = some rule := by
          rw [contents, List.lookup_cons, beq_self_eq_true] at h
          exact h
        rw [contents, List.lookup_cons, beq_self_eq_true]
        show (copyRules _ rules).1[heap.length]? = some rule
        rw [hkept heap.length (by omega), hrule]
        simp
      · have hbeq : (id == id₀) = false := beq_false_of_ne hid
        rw [contents, List.lookup_cons, hbeq] at h ⊢
        exact hsame id rule (contents_append _ h)

end Copies

/-! ### The loop -/

section Loop
variable {py : PyText} {frames : ℕ} {heap : Heap} {patched : References}

theorem address_ne {id id' : String} {a b : ℕ} (h : (patched.map Prod.snd).Nodup)
    (ha : patched.lookup id = some a) (hb : patched.lookup id' = some b) (hne : id ≠ id') :
    a ≠ b := by
  rintro rfl
  have hmem : ∀ {id}, patched.lookup id = some a → (id, a) ∈ patched := by
    intro id hid
    obtain ⟨before, behind, rfl, -⟩ := List.lookup_eq_some_iff.1 hid
    exact List.mem_append_right _ List.mem_cons_self
  exact hne (congrArg Prod.fst (List.inj_on_of_nodup_map h (hmem ha) (hmem hb) rfl))

theorem ownOverrides_cons (id : String) (entry : String × Value) (entries : Dict) :
    ownOverrides py id (entry :: entries) =
      ((readOverride py entry).toList.filter (·.rule = id)) ++ ownOverrides py id entries := by
  grind [ownOverrides]

theorem overrideAll_kept {entries : Dict} {address : ℕ} (h : ∀ r ∈ patched, r.2 ≠ address) :
    (overrideAll py frames patched heap entries).1[address]? = heap[address]? := by
  induction entries generalizing heap with
  | nil => rfl
  | cons entry entries ih =>
    rw [overrideAll]
    split
    · exact ih
    · rename_i o _
      split
      · exact ih
      · rename_i a ha
        have hne : a ≠ address := by
          obtain ⟨before, behind, rfl, -⟩ := List.lookup_eq_some_iff.1 ha
          exact h _ (List.mem_append_right _ List.mem_cons_self)
        split
        · rw [ih, List.getElem?_set_ne hne]
        · rw [List.getElem?_set_ne hne]

theorem overrideAll_named {entries : Dict} (hapart : (patched.map Prod.snd).Nodup)
    (h : (overrideAll py frames patched heap entries).2 = .ok ()) {id : String} {rule : Value}
    (hrule : contents heap patched id = some rule) :
    ∃ rule', (ownOverrides py id entries).foldlM (overridden frames) rule = .ok rule' ∧
      contents (overrideAll py frames patched heap entries).1 patched id = some rule' := by
  induction entries generalizing heap rule with
  | nil => exact ⟨rule, rfl, hrule⟩
  | cons entry entries ih =>
    rw [ownOverrides_cons]
    rw [overrideAll] at h ⊢
    cases hread : readOverride py entry with
    | none =>
      rw [hread] at h
      exact ih h hrule
    | some o =>
      rw [hread] at h
      dsimp only at h ⊢
      rw [Option.toList_some]
      cases hcopy : patched.lookup o.rule with
      | none =>
        rw [hcopy] at h
        have hne : o.rule ≠ id := by
          rintro rfl
          rw [contents, hcopy] at hrule
          cases hrule
        simp_all
      | some a =>
        rw [hcopy] at h
        dsimp only at h ⊢
        obtain ⟨b, hb, hheap⟩ := Option.bind_eq_some_iff.1 hrule
        cases hover : overrideRule frames o (heap[a]?.getD .null) with
        | mk after result =>
          rw [hover] at h
          cases result with
          | error e => cases h
          | ok _ =>
            by_cases hid : o.rule = id
            · subst hid
              obtain rfl := Option.some.inj (hcopy.symm.trans hb)
              rw [hheap, Option.getD_some] at hover
              have hset : contents (heap.set a after) patched o.rule = some after := by
                rw [contents, hcopy, Option.bind_some,
                  List.getElem?_set_self (List.getElem?_eq_some_iff.1 hheap).1]
              obtain ⟨rule', hrun, hcontents⟩ := ih h hset
              refine ⟨rule', ?_, hcontents⟩
              rw [List.filter_cons_of_pos (by simp), List.filter_nil, List.singleton_append,
                List.foldlM_cons, overridden, hover]
              exact hrun
            · have hset : contents (heap.set a after) patched id = some rule := by
                rw [contents, hb, Option.bind_some,
                  List.getElem?_set_ne (address_ne hapart hcopy hb hid), hheap]
              simp_all

variable {rules : References} {assignment : Option Dict}

theorem entries_false {v : Value} (h : ¬ v.truthy = true) : v.asDict.getD [] = [] := by
  cases v with
  | dict kvs =>
    cases kvs with
    | nil => rfl
    | cons kv kvs => exact absurd rfl h
  | _ => rfl

theorem entries_orElse (v : Option Value) :
    ((Value.orElse v (.dict [])).asDict).getD [] = (v.bind Value.asDict).getD [] := by
  cases v with
  | none => rfl
  | some v =>
    rw [Value.orElse]
    split
    · rfl
    · exact (entries_false ‹_›).symm

theorem lookup_entries (v : Option Value) (key : String) :
    ((v.bind Value.asDict).getD []).lookup key = v.bind (·.field key) := by
  cases v with
  | none => rfl
  | some v =>
    cases v with
    | dict kvs => rfl
    | _ => rfl

inductive Ends (py : PyText) (frames : ℕ) (heap : Heap) (rules : References)
    (assignment : Option Dict) : Heap × Except PyError References → Prop
  | none (h : overridesOf assignment = []) : Ends py frames heap rules assignment (heap, .ok rules)
  | refused (e : PyError) : Ends py frames heap rules assignment (heap, .error e)
  | noObject (e : PyError) :
    Ends py frames heap rules assignment ((copyRules heap rules).1, .error e)
  | applied (result : Except PyError Unit)
    (h : (overrideAll py frames (copyRules heap rules).2 (copyRules heap rules).1
      (overridesOf assignment)).2 = result) :
    Ends py frames heap rules assignment ((overrideAll py frames (copyRules heap rules).2
      (copyRules heap rules).1 (overridesOf assignment)).1,
      result.map fun _ => (copyRules heap rules).2)

theorem applyExperimentOverrides_ends :
    Ends py frames heap rules assignment
      (applyExperimentOverrides py frames heap rules assignment) := by
  rw [applyExperimentOverrides]
  cases hassigned : assignment.filter (!·.isEmpty) with
  | none =>
    refine .none ?_
    cases assignment with
    | none => rfl
    | some kvs =>
      cases kvs with
      | nil => rfl
      | cons kv kvs => cases hassigned
  | some assigned =>
    obtain ⟨rfl, -⟩ := Option.filter_eq_some_iff.1 hassigned
    dsimp only
    cases hvariant : (Value.orElse (assigned.lookup "variant") (.dict [])).asDict with
    | none => exact .refused _
    | some variant =>
      have hoverrides : overridesOf (some assigned) =
          ((Value.orElse (variant.lookup "overrides") (.dict [])).asDict).getD [] := by
        have hentries := entries_orElse (assigned.lookup "variant")
        rw [hvariant] at hentries
        rw [entries_orElse, ← Option.getD_some (a := variant) (b := []), hentries, lookup_entries]
        rfl
      dsimp only
      split
      · cases hdict : (Value.orElse (variant.lookup "overrides") (.dict [])).asDict with
        | none => exact .noObject _
        | some entries =>
          rw [hdict, Option.getD_some] at hoverrides
          have happlied := @Ends.applied py frames heap rules (some assigned) _ rfl
          rw [hoverrides] at happlied
          dsimp only
          cases hall : overrideAll py frames (copyRules heap rules).2 (copyRules heap rules).1
              entries with
          | mk after result =>
            rw [hall] at happlied
            cases result with
            | ok _ => exact happlied
            | error e => exact happlied
      · exact .none (hoverrides.trans (entries_false ‹_›))

/-- **A call touches the copies of the rules its overrides name.** -/
theorem applyExperimentOverrides_touches : Touches py frames heap rules assignment := by
  obtain ⟨hkept, hfresh, hapart, hsame⟩ := @copyRules_copied heap rules
  have hends := @applyExperimentOverrides_ends py frames heap rules assignment
  have hloop : ∀ address < heap.length, (overrideAll py frames (copyRules heap rules).2
      (copyRules heap rules).1 (overridesOf assignment)).1[address]? = heap[address]? := by
    intro address hlt
    rw [overrideAll_kept fun r hr => ?_, hkept address hlt]
    have hle := hfresh r hr
    omega
  have hnamed : ∀ patched, (applyExperimentOverrides py frames heap rules assignment).2 =
      .ok patched → ∀ id rule, contents heap rules id = some rule →
        ∃ rule', (ownOverrides py id (overridesOf assignment)).foldlM (overridden frames) rule =
            .ok rule' ∧
          contents (applyExperimentOverrides py frames heap rules assignment).1 patched id =
            some rule' := by
    intro patched hok id rule hrule
    generalize applyExperimentOverrides py frames heap rules assignment = call at hends hok ⊢
    cases hends with
    | none hnone =>
      cases hok
      rw [hnone]
      exact ⟨rule, rfl, hrule⟩
    | refused e => cases hok
    | noObject e => cases hok
    | applied result hresult =>
      obtain ⟨⟨⟩, rfl, rfl⟩ := map_eq_ok.1 hok
      exact overrideAll_named hapart hresult (hsame id rule hrule)
  refine ⟨fun address hlt => ?_, fun patched hok id rule hrule hown => ?_, hnamed⟩
  · generalize applyExperimentOverrides py frames heap rules assignment = call at hends ⊢
    cases hends with
    | none hnone => rfl
    | refused e => rfl
    | noObject e => exact hkept address hlt
    | applied result hresult => exact hloop address hlt
  · obtain ⟨rule', hrun, hcontents⟩ := hnamed patched hok id rule hrule
    rw [hown] at hrun
    cases hrun
    exact hcontents

end Loop

/-! ### Which condition -/

section Exact
variable (frames : ℕ)

/-- The condition of the stored tree a node was written for: of the flattened nodes every other
    is written for one. -/
def origin (ps : List Path) (m : ℕ) : Option Path := if m % 2 = 0 then ps[m / 2]? else none

/-- The tree with the field of the condition of the index, and nothing else, changed. -/
def treeAfter (o : Override) (tree : Value) (ps : List Path) : Value :=
  updateSome (putField · o.field o.value) (kth ps o.index) tree

/-- The nodes with the field of the condition of the index, and nothing else, changed. -/
def nodesAfter (o : Override) (nodes : List Value) : List Value :=
  modifySome (putField · o.field o.value) 0 (kth (conditionPlaces 0 nodes) o.index) nodes

def ruleAfter (o : Override) (rule tree : Value) (nodes : List Value) (ps : List Path) : Value :=
  putField (putField rule "tree" (treeAfter o tree ps)) "nodes" (.list (nodesAfter o nodes))

/-- An override changes its field of the `k`-th condition of the tree and of the `k`-th condition
    among the nodes, nothing else, and these are the same condition. -/
structure Exact (stored : List Path) (o : Override) (before after tree : Value)
    (nodes : List Value) (ps : List Path) : Prop where
  treeBefore : before.field "tree" = some tree
  nodesBefore : before.field "nodes" = some (.list nodes)
  conditions : conditionPaths frames tree = .ok ps
  changes : after = ruleAfter o before tree nodes ps
  same : (kth (conditionPlaces 0 nodes) o.index).map (origin stored) = (kth ps o.index).map some

def ExactRun (stored : List Path) : Value → List Override → Prop
  | _, [] => True
  | rule, o :: os => ∃ after tree nodes ps, overridden frames rule o = .ok after ∧
      Exact frames stored o rule after tree nodes ps ∧ ExactRun stored after os

/-- An override of the type of a condition leaves no conditions below it. -/
def Harmless (rule : Value) (o : Override) : Prop :=
  o.field = "type" → o.value ≠ .str "condition" →
    ∀ tree ps p c, rule.field "tree" = some tree → conditionPaths frames tree = .ok ps →
      kth ps o.index = some p → nodeAt p tree = some c →
        conditionPaths (frames - p.length) (putField c "type" o.value) = .ok []

def HarmlessRun : Value → List Override → Prop
  | _, [] => True
  | rule, o :: os => Harmless frames rule o ∧
      ∀ after, overridden frames rule o = .ok after → HarmlessRun after os

/-- No node between two conditions is of the type of a condition. -/
def JoinsApart (nodes : List Dict) : Prop :=
  ∀ m node, m % 2 = 1 → nodes[m]? = some node → kind (.dict node) ≠ .condition

/-- Both forms of a rule, and the conditions of its tree. -/
structure Shown (rule tree : Value) (nodes : List Value) (ps : List Path) : Prop where
  object : rule.asDict.isSome = true
  treeField : rule.field "tree" = some tree
  nodesField : rule.field "nodes" = some (.list nodes)
  objects : ∀ node ∈ nodes, node.asDict.isSome = true
  conditions : conditionPaths frames tree = .ok ps

/-- The conditions of both forms are the same ones, in one order. -/
structure Aligned (stored : List Path) (rule tree : Value) (nodes : List Value) (ps : List Path) :
    Prop extends Shown frames rule tree nodes ps where
  origins : List.Forall₂ (fun m p => origin stored m = some p) (conditionPlaces 0 nodes) ps

end Exact

section Runs
variable {frames : ℕ} {stored ps : List Path} {rule tree : Value} {nodes : List Value}

variable {α : Type} {m : ℕ} {ps' : List Path}

theorem kth_forall₂ {β : Type} {R : α → β → Prop} {as : List α} {bs : List β} (k : ℤ)
    (h : List.Forall₂ R as bs) :
    (kth as k = none ∧ kth bs k = none) ∨
      ∃ as₁ a as₂ bs₁ b bs₂, as = as₁ ++ a :: as₂ ∧ bs = bs₁ ++ b :: bs₂ ∧ kth as k = some a ∧
        kth bs k = some b ∧ R a b ∧ List.Forall₂ R as₁ bs₁ ∧ List.Forall₂ R as₂ bs₂ := by
  induction h generalizing k with
  | nil => exact .inl ⟨kth_nil k, kth_nil k⟩
  | @cons a b as bs hab htail ih =>
    rw [kth_cons, kth_cons]
    by_cases hk : k = 0
    · rw [if_pos hk, if_pos hk]
      exact .inr ⟨[], a, as, [], b, bs, rfl, rfl, rfl, rfl, hab, .nil, htail⟩
    · rw [if_neg hk, if_neg hk]
      rcases ih (k - 1) with hnone | ⟨as₁, a', as₂, bs₁, b', bs₂, rfl, rfl, ha, hb, hr, h₁, h₂⟩
      · exact .inl hnone
      · exact .inr ⟨a :: as₁, a', as₂, b :: bs₁, b', bs₂, rfl, rfl, ha, hb, hr, .cons hab h₁, h₂⟩

variable {o : Override}

theorem setTreeCondition_spec (h : conditionPaths frames tree = .ok ps) :
    setTreeCondition frames o tree = .ok (treeAfter o tree ps) := by
  cases hdict : tree.asDict with
  | none =>
    have hother : kind tree = .other := by
      by_contra hne
      obtain ⟨kvs, rfl, -⟩ := kind_asDict hne
      cases hdict
    have hnone : ps = [] := by
      cases frames with
      | zero => cases h
      | succ frames =>
        rw [conditionPaths, hother] at h
        exact (Except.ok.inj h).symm
    rw [setTreeCondition, hdict, hnone, treeAfter, kth_nil]
    rfl
  | some kvs =>
    rw [setTreeCondition, hdict, setTreeWalk_spec h, show o.index - -1 - 1 = o.index by ring]
    rfl

theorem setNodesCondition_spec (h : ∀ node ∈ nodes, node.asDict.isSome = true) :
    setNodesCondition o (.list nodes) = .ok (.list (nodesAfter o nodes)) := by
  rw [setNodesCondition, setNodesWalk_spec h, show o.index - -1 - 1 = o.index by ring]
  rfl

theorem Shown.overridden (h : Shown frames rule tree nodes ps) :
    overridden frames rule o = .ok (ruleAfter o rule tree nodes ps) := by
  obtain ⟨kvs, hkvs⟩ := Option.isSome_iff_exists.1 h.object
  have hfield : (putField rule "tree" (treeAfter o tree ps)).field "nodes" =
      some (.list nodes) := by
    rw [putField_field, if_neg (by simp), h.nodesField]
  rw [Overrides.overridden, overrideRule, hkvs]
  dsimp only
  rw [h.treeField, Option.getD_some, setTreeCondition_spec h.conditions]
  dsimp only
  rw [hfield, Option.getD_some, setNodesCondition_spec h.objects]
  rfl

theorem modify_objects {field : String} {value : Value}
    (h : ∀ node ∈ nodes, node.asDict.isSome = true) :
    ∀ node ∈ nodes.modify m (putField · field value), node.asDict.isSome = true := by
  intro node hnode
  obtain ⟨j, hj⟩ := List.mem_iff_getElem?.1 hnode
  rw [List.getElem?_modify] at hj
  obtain ⟨given, hgiven, rfl⟩ := Option.map_eq_some_iff.1 hj
  grind -ring -linarith [putField_object]

theorem Shown.after (h : Shown frames rule tree nodes ps)
    (hpaths : conditionPaths frames (treeAfter o tree ps) = .ok ps') :
    Shown frames (ruleAfter o rule tree nodes ps) (treeAfter o tree ps) (nodesAfter o nodes)
      ps' := by
  have hobject := putField_object "tree" (treeAfter o tree ps) h.object
  refine ⟨putField_object _ _ hobject, ?_, ?_, ?_, hpaths⟩
  · rw [ruleAfter, putField_field, if_neg (by simp), putField_field, if_pos ⟨h.object, rfl⟩]
  · rw [ruleAfter, putField_field, if_pos ⟨hobject, rfl⟩]
  · rw [nodesAfter]
    cases kth (conditionPlaces 0 nodes) o.index with
    | none => exact h.objects
    | some m => exact modify_objects h.objects

theorem Shown.unique (h : Shown frames rule tree nodes ps) {after tree' : Value}
    {nodes' : List Value}
    (hexact : Exact frames stored o rule after tree' nodes' ps') :
    Exact frames stored o rule (ruleAfter o rule tree nodes ps) tree nodes ps := by
  obtain rfl : tree' = tree := Option.some.inj (hexact.treeBefore.symm.trans h.treeField)
  obtain rfl : nodes' = nodes :=
    Value.list.inj (Option.some.inj (hexact.nodesBefore.symm.trans h.nodesField))
  obtain rfl : ps' = ps := Except.ok.inj (hexact.conditions.symm.trans h.conditions)
  obtain rfl := hexact.changes
  exact hexact

variable {c : Value} {p : Path} {os : List Override}

theorem kind_overridden (h : kind c = .condition) (o : Override) :
    kind (putField c o.field o.value) = .condition ↔
      (o.field = "type" → o.value = .str "condition") := by
  by_cases hfield : o.field = "type"
  · obtain ⟨kvs, rfl, -⟩ := kind_asDict (by rw [h]; simp : kind c ≠ .other)
    have htype : nodeType (putField (.dict kvs) "type" o.value) = o.value.asStr := by
      rw [nodeType, putField_field, if_pos ⟨rfl, rfl⟩]
      rfl
    rw [hfield, kind_condition_iff, htype]
    cases o.value with
    | str s => simp [Value.asStr]
    | _ => simp [Value.asStr]
  · rw [kind_putField hfield, h]
    simp [hfield]

/-- The conditions of the tree after an override: those before the one it changed, those that one
    has now, and those behind. -/
theorem treeAfter_paths {before behind : List Path}
    (h : conditionPaths frames tree = .ok (before ++ p :: behind))
    (hp : kth (before ++ p :: behind) o.index = some p) :
    ∃ c, nodeAt p tree = some c ∧ kind c = .condition ∧ p.length < frames ∧
      conditionPaths frames (treeAfter o tree (before ++ p :: behind)) =
        (conditionPaths (frames - p.length) (putField c o.field o.value)).map
          (fun qs => before ++ qs.map (p ++ ·) ++ behind) := by
  obtain ⟨c, hc, hcond, hlen, hupdate⟩ := conditionPaths_updateAt h
  have hobject : (putField c o.field o.value).asDict.isSome = true :=
    putField_object _ _ (object_of_kind (by rw [hcond]; simp))
  obtain ⟨-, hpaths⟩ := hupdate (putField · o.field o.value) hobject
  refine ⟨c, hc, hcond, hlen, ?_⟩
  rw [treeAfter, hp]
  exact hpaths

theorem nodesAfter_places {before behind : List ℕ}
    (h : conditionPlaces 0 nodes = before ++ m :: behind)
    (hm : kth (conditionPlaces 0 nodes) o.index = some m) :
    conditionPlaces 0 (nodesAfter o nodes) = before ++
      (if o.field = "type" → o.value = .str "condition" then [m] else []) ++ behind := by
  obtain ⟨node, -, hkind, hmodify⟩ := conditionPlaces_modify h
  rw [nodesAfter, hm]
  show conditionPlaces 0 (nodes.modify (m - 0) _) = _
  rw [hmodify]
  simp only [kind_overridden hkind o]

theorem conditionPaths_condition (hcond : kind c = .condition)
    (hlen : p.length < frames) : conditionPaths (frames - p.length) c = .ok [[]] := by
  obtain ⟨n, hn⟩ : ∃ n, frames - p.length = n + 1 := ⟨frames - p.length - 1, by omega⟩
  rw [hn, conditionPaths, hcond]

theorem conditionPaths_overridden (hcond : kind c = .condition)
    (hlen : p.length < frames) (hharmless : Harmless frames rule o)
    (htree : rule.field "tree" = some tree) (hpaths : conditionPaths frames tree = .ok ps)
    (hp : kth ps o.index = some p) (hc : nodeAt p tree = some c) :
    conditionPaths (frames - p.length) (putField c o.field o.value) =
      .ok (if o.field = "type" → o.value = .str "condition" then [[]] else []) := by
  by_cases hstill : o.field = "type" → o.value = .str "condition"
  · rw [if_pos hstill, conditionPaths_condition ((kind_overridden hcond o).2 hstill) hlen]
  · obtain ⟨hfield, hvalue⟩ := Classical.not_imp.1 hstill
    rw [if_neg hstill, hfield]
    exact hharmless hfield hvalue tree ps p c htree hpaths hp hc

/-! ### Runs that are exact -/

theorem Aligned.exact (h : Aligned frames stored rule tree nodes ps) :
    Exact frames stored o rule (ruleAfter o rule tree nodes ps) tree nodes ps := by
  refine ⟨h.treeField, h.nodesField, h.conditions, rfl, ?_⟩
  rcases kth_forall₂ o.index h.origins with ⟨hplace, hpath⟩ |
    ⟨-, m, -, -, p, -, -, -, hplace, hpath, horigin, -, -⟩
  · rw [hplace, hpath]
    rfl
  · rw [hplace, hpath, Option.map_some, horigin]
    rfl

/-- **After a harmless override** they are the same ones. -/
theorem Aligned.step (h : Aligned frames stored rule tree nodes ps)
    (hharmless : Harmless frames rule o) :
    ∃ ps', Aligned frames stored (ruleAfter o rule tree nodes ps) (treeAfter o tree ps)
      (nodesAfter o nodes) ps' := by
  rcases kth_forall₂ o.index h.origins with ⟨hplace, hpath⟩ |
    ⟨ms₁, m, ms₂, ps₁, p, ps₂, hms, rfl, hplace, hpath, horigin, h₁, h₂⟩
  · have htree : treeAfter o tree ps = tree := by rw [treeAfter, hpath, updateSome]
    have hnodes : nodesAfter o nodes = nodes := by rw [nodesAfter, hplace, modifySome]
    refine ⟨ps, h.toShown.after (by rw [htree, h.conditions]), ?_⟩
    rw [hnodes]
    exact h.origins
  · obtain ⟨c, hc, hcond, hlen, hpaths⟩ := treeAfter_paths h.conditions hpath
    rw [conditionPaths_overridden hcond hlen hharmless h.treeField h.conditions hpath hc] at hpaths
    refine ⟨_, h.toShown.after hpaths, ?_⟩
    rw [nodesAfter_places hms hplace]
    refine List.rel_append (List.rel_append h₁ ?_) h₂
    split
    · simpa using horigin
    · exact .nil

theorem Aligned.run (h : Aligned frames stored rule tree nodes ps)
    (hharmless : HarmlessRun frames rule os) : ExactRun frames stored rule (os ++ [o]) := by
  induction os generalizing rule tree nodes ps with
  | nil => exact ⟨_, tree, nodes, ps, h.overridden, h.exact, trivial⟩
  | cons o₁ os ih =>
    obtain ⟨hfirst, hrest⟩ := hharmless
    obtain ⟨ps', haligned⟩ := h.step hfirst
    exact ⟨_, tree, nodes, ps, h.overridden, h.exact, ih haligned (hrest _ h.overridden)⟩

theorem Shown.exactRun_cons (h : Shown frames rule tree nodes ps)
    (hrun : ExactRun frames stored rule (o :: os)) :
    Exact frames stored o rule (ruleAfter o rule tree nodes ps) tree nodes ps ∧
      ExactRun frames stored (ruleAfter o rule tree nodes ps) os := by
  obtain ⟨after, tree', nodes', ps', hafter, hexact, hrest⟩ := hrun
  obtain rfl := Except.ok.inj (h.overridden.symm.trans hafter)
  exact ⟨h.unique hexact, hrest⟩

theorem Shown.conditions_after (h : Shown frames rule tree nodes ps) {o' : Override}
    (hrun : ExactRun frames stored (ruleAfter o rule tree nodes ps) (os ++ [o'])) :
    ∃ ps', conditionPaths frames (treeAfter o tree ps) = .ok ps' := by
  obtain ⟨o₁, os₁, hos⟩ := List.exists_cons_of_ne_nil
    (List.append_ne_nil_of_right_ne_nil os (List.cons_ne_nil o' []))
  rw [hos] at hrun
  obtain ⟨after, tree', nodes', ps', -, hexact, -⟩ := hrun
  have hfield : (ruleAfter o rule tree nodes ps).field "tree" = some (treeAfter o tree ps) := by
    rw [ruleAfter, putField_field, if_neg (by simp), putField_field, if_pos ⟨h.object, rfl⟩]
  obtain rfl := Option.some.inj (hfield.symm.trans hexact.treeBefore)
  exact ⟨ps', hexact.conditions⟩

theorem kth_same (h : (kth (conditionPlaces 0 nodes) o.index).map (origin stored) =
    (kth ps o.index).map some) :
    (kth (conditionPlaces 0 nodes) o.index = none ∧ kth ps o.index = none) ∨
      ∃ m p, kth (conditionPlaces 0 nodes) o.index = some m ∧ kth ps o.index = some p ∧
        origin stored m = some p := by
  cases hm : kth (conditionPlaces 0 nodes) o.index with
  | none => simp_all
  | some m =>
    cases hp : kth ps o.index with
    | none =>
      rw [hm, hp] at h
      cases h
    | some p => simp_all

theorem exists_kth {as : List α} {k : ℕ} (h : k < as.length) : kth as k = some as[k] := by
  rw [kth, if_pos (by omega), Int.toNat_natCast, List.getElem?_eq_getElem h]

/-- **Where any override may follow and is exact**, every condition among the nodes was written for
    one of the tree, and the tree has no more. -/
theorem Shown.counted (h : Shown frames rule tree nodes ps)
    (hexact : ∀ o, ExactRun frames stored rule (os ++ [o])) :
    (∀ m ∈ conditionPlaces 0 nodes, origin stored m ≠ none) ∧
      ps.length ≤ (conditionPlaces 0 nodes).length := by
  induction os generalizing rule tree nodes ps with
  | nil =>
    have hsame : ∀ k : ℕ, (kth (conditionPlaces 0 nodes) k).map (origin stored) =
        (kth ps k).map some := fun k =>
      (h.exactRun_cons (hexact ⟨"", k, "value", .null⟩)).1.same
    refine ⟨fun m hm hnone => ?_, ?_⟩
    · obtain ⟨k, hk, rfl⟩ := List.getElem_of_mem hm
      have hk := exists_kth hk
      rcases @kth_same _ _ _ ⟨"", k, "value", .null⟩ (hsame k) with
        ⟨hplace, -⟩ | ⟨m, p, hplace, -, ho⟩
      · rw [hplace] at hk
        cases hk
      · simp_all
    · by_contra hlt
      have hk := exists_kth (Nat.lt_of_not_le hlt)
      rcases @kth_same _ _ _ ⟨"", (conditionPlaces 0 nodes).length, "value", .null⟩
        (hsame _) with ⟨-, hpath⟩ | ⟨m, p, hplace, -, -⟩
      · rw [hpath] at hk
        cases hk
      · obtain ⟨before, behind, hsplit, hlen⟩ := kth_eq_some hplace
        grind
  | cons o os ih =>
    have hstep := fun o' => h.exactRun_cons (hexact o')
    obtain ⟨ps', hpaths⟩ := h.conditions_after (hstep o).2
    obtain ⟨horigins, hlen⟩ := ih (h.after hpaths) fun o' => (hstep o').2
    rcases kth_same (hstep o).1.same with ⟨hplace, hpath⟩ | ⟨m, p, hplace, hpath, ho⟩
    · have htree : treeAfter o tree ps = tree := by rw [treeAfter, hpath, updateSome]
      have hnodes : nodesAfter o nodes = nodes := by rw [nodesAfter, hplace, modifySome]
      rw [htree] at hpaths
      obtain rfl := Except.ok.inj (h.conditions.symm.trans hpaths)
      grind
    · obtain ⟨ms₁, ms₂, hms, hk⟩ := kth_eq_some hplace
      obtain ⟨ps₁, ps₂, rfl, hk'⟩ := kth_eq_some hpath
      rw [nodesAfter_places hms hplace] at horigins hlen
      refine ⟨fun m' hm' => ?_, ?_⟩
      · grind
      · obtain ⟨c, -, hcond, hlt, hbelow⟩ := treeAfter_paths h.conditions hpath
        obtain ⟨qs, hqs, hps'⟩ := map_eq_ok.1 (hbelow.symm.trans hpaths)
        rw [hms]
        by_cases hstill : o.field = "type" → o.value = .str "condition"
        · rw [conditionPaths_condition ((kind_overridden hcond o).2 hstill) hlt] at hqs
          grind
        · grind

/-- **Where any override may follow and is exact**, none before it left conditions below. -/
theorem Aligned.harmless (h : Aligned frames stored rule tree nodes ps)
    (hexact : ∀ o, ExactRun frames stored rule (os ++ [o])) : HarmlessRun frames rule os := by
  induction os generalizing rule tree nodes ps with
  | nil => trivial
  | cons o os ih =>
    have hstep := fun o' => h.exactRun_cons (hexact o')
    obtain ⟨ps', hpaths⟩ := h.conditions_after (hstep o).2
    obtain ⟨-, hlen⟩ := (h.toShown.after hpaths).counted fun o' => (hstep o').2
    have hfirst : Harmless frames rule o := by
      intro hfield hvalue tree' ps₀ p c htree hps₀ hp hc
      obtain rfl := Option.some.inj (h.treeField.symm.trans htree)
      obtain rfl := Except.ok.inj (h.conditions.symm.trans hps₀)
      rcases kth_forall₂ o.index h.origins with ⟨-, hpath⟩ |
        ⟨ms₁, m, ms₂, ps₁, p', ps₂, hms, rfl, hplace, hpath, -, h₁, h₂⟩
      · rw [hp] at hpath
        cases hpath
      · obtain rfl := Option.some.inj (hp.symm.trans hpath)
        obtain ⟨c', hc', -, -, hbelow⟩ := treeAfter_paths h.conditions hpath
        obtain rfl := Option.some.inj (hc.symm.trans hc')
        obtain ⟨qs, hqs, hps'⟩ := map_eq_ok.1 (hbelow.symm.trans hpaths)
        have hgone : ¬ (o.field = "type" → o.value = .str "condition") := fun himp =>
          hvalue (himp hfield)
        rw [← hps', nodesAfter_places hms hplace, if_neg hgone] at hlen
        have hnone : qs = [] := by
          have h₁ := h₁.length_eq
          have h₂ := h₂.length_eq
          simp only [List.length_append, List.length_map, List.length_nil] at hlen
          exact List.length_eq_zero_iff.1 (by omega)
        rw [hfield, hnone] at hqs
        exact hqs
    obtain ⟨ps₁, haligned⟩ := h.step hfirst
    refine ⟨hfirst, fun after hafter => ?_⟩
    obtain rfl := Except.ok.inj (h.overridden.symm.trans hafter)
    exact ih haligned fun o' => (hstep o').2

end Runs

/-! ### Rules with flattened nodes -/

section Flattened
variable {py : PyText} {frames : ℕ} {ps : List Path} {rule tree : Value} {nodes : List Dict}
  {ws : List Dict}

theorem Writes.kind {c : Value} {w : Dict} (h : Writes py c w) :
    RuleTree.kind (.dict w) = .condition := by
  obtain ⟨id, rfl | ⟨kvs, -, rfl⟩⟩ := h
  · rfl
  · rfl

theorem conditionPlaces_written (h : Written py tree nodes ps ws) (hjoins : JoinsApart nodes) :
    conditionPlaces 0 (nodes.map .dict) = (List.range ps.length).map (2 * ·) := by
  have hsorted : ((List.range ps.length).map (2 * ·)).Pairwise (· < ·) := by
    rw [List.pairwise_map]
    exact List.pairwise_lt_range.imp fun hlt => by omega
  refine List.Pairwise.eq_of_mem_iff conditionPlaces_sorted hsorted fun m => ?_
  rw [mem_conditionPlaces, List.mem_map]
  constructor
  · rintro ⟨node, -, hnode, hkind⟩
    rw [Nat.sub_zero, List.getElem?_map] at hnode
    obtain ⟨w, hw, rfl⟩ := Option.map_eq_some_iff.1 hnode
    rcases Nat.mod_two_eq_zero_or_one m with heven | hodd
    · have hlt : m / 2 < ps.length := by
        by_contra hlarge
        exact h.others m w heven (Nat.le_of_not_lt hlarge) hw hkind
      exact ⟨m / 2, List.mem_range.2 hlt, by omega⟩
    · exact absurd hkind (hjoins m w hodd hw)
  · rintro ⟨j, hj, rfl⟩
    have hlt : j < ws.length := by
      rw [← h.writes.length_eq]
      exact List.mem_range.1 hj
    have hplace := h.places j ws[j] (List.getElem?_eq_getElem hlt)
    obtain ⟨p, -, c, -, hwrites⟩ := mem_left_of_forall₂ (List.Forall₂.flip h.writes)
      (List.getElem_mem hlt)
    refine ⟨.dict ws[j], Nat.zero_le _, ?_, hwrites.kind⟩
    rw [Nat.sub_zero, List.getElem?_map, hplace]
    rfl

theorem shown_written (htree : rule.field "tree" = some tree)
    (hnodes : rule.field "nodes" = some (.list (nodes.map .dict)))
    (hpaths : conditionPaths frames tree = .ok ps) :
    Shown frames rule tree (nodes.map .dict) ps := by
  obtain ⟨kvs, rfl, -⟩ := Value.field_eq_some htree
  refine ⟨rfl, htree, hnodes, fun node hnode => ?_, hpaths⟩
  obtain ⟨w, -, rfl⟩ := List.mem_map.1 hnode
  rfl

theorem aligned_written (htree : rule.field "tree" = some tree)
    (hnodes : rule.field "nodes" = some (.list (nodes.map .dict)))
    (hpaths : conditionPaths frames tree = .ok ps) (h : Written py tree nodes ps ws)
    (hjoins : JoinsApart nodes) :
    Aligned frames ps rule tree (nodes.map .dict) ps := by
  refine ⟨shown_written htree hnodes hpaths, ?_⟩
  rw [conditionPlaces_written h hjoins, List.forall₂_map_left_iff, List.forall₂_iff_get]
  refine ⟨List.length_range, fun j hj hj' => ?_⟩
  rw [List.get_eq_getElem, List.get_eq_getElem, List.getElem_range, origin,
    if_pos (by omega), Nat.mul_div_cancel_left j (by decide)]
  exact List.getElem?_eq_getElem hj'

/-- **Overrides touch the condition they name**: the rules they do not name are left, and a run on
    a rule with the nodes of its tree is exact, whatever follows, exactly if no node between two
    conditions is of their type and each override was harmless. -/
theorem overrides_exact_iff {f : ℕ} (hpos : 0 < frames) (hle : f ≤ frames)
    (htree : rule.field "tree" = some tree)
    (hnodes : rule.field "nodes" = some (.list (nodes.map .dict)))
    (hflat : flattenTreeToNodes py f tree = .ok nodes) :
    (∀ heap rules assignment, Touches py frames heap rules assignment) ∧
      ∃ stored ws, conditionPaths frames tree = .ok stored ∧ Written py tree nodes stored ws ∧
        ∀ os, (∀ o, ExactRun frames stored rule (os ++ [o])) ↔
          JoinsApart nodes ∧ HarmlessRun frames rule os := by
  refine ⟨fun heap rules assignment => applyExperimentOverrides_touches, ?_⟩
  obtain ⟨stored, ws, hpaths, hwritten⟩ := flattenTree_written hflat hle hpos
  have haligned := aligned_written htree hnodes hpaths hwritten
  refine ⟨stored, ws, hpaths, hwritten, fun os => ⟨fun hexact => ?_, fun h o => ?_⟩⟩
  · have hjoins : JoinsApart nodes := by
      intro m w hodd hw hkind
      have hmem : m ∈ conditionPlaces 0 (nodes.map .dict) :=
        mem_conditionPlaces.2 ⟨.dict w, Nat.zero_le m, by simp [hw], hkind⟩
      exact ((shown_written htree hnodes hpaths).counted hexact).1 m hmem (if_neg (by omega))
    exact ⟨hjoins, (haligned hjoins).harmless hexact⟩
  · exact (haligned h.1).run h.2

/-- Two conditions joined by AND, and their nodes. -/
def pairTree : Dict :=
  savedGroup "AND" [savedCondition "score" ">=" (.int 700), savedCondition "income" ">" (.int 1000)]

def pairNodes : List Dict :=
  [conditionNode asciiText (.str "condition_1") (savedCondition "score" ">=" (.int 700)),
    logicNode "logic_2" "AND",
    conditionNode asciiText (.str "condition_3") (savedCondition "income" ">" (.int 1000)),
    [("id", .str "outcome_4"), ("type", .str "approve"), ("label", .str "Approve")]]

def pairRule : Value := ruleRow "pair" "Pair" ⟨pairNodes, .dict pairTree, "v2"⟩

theorem pair_joinsApart : JoinsApart pairNodes := by
  intro m node hodd hnode
  rcases m with - | - | - | - | m
  · cases hodd
  · cases hnode
    decide
  · cases hodd
  · cases hnode
    decide
  · cases hnode

theorem pair_exact : ExactRun 1000 [[0], [1]] pairRule
    ([⟨"pair", 1, "value", .int 9⟩] ++ [⟨"pair", 0, "operator", .str ">"⟩]) := by
  obtain ⟨-, stored, ws, hpaths, -, hiff⟩ := @overrides_exact_iff asciiText 1000 pairRule
    (.dict pairTree) pairNodes 4 (by decide) (by decide) rfl rfl (by decide +kernel)
  obtain rfl : [[0], [1]] = stored := Except.ok.inj hpaths
  exact (hiff [⟨"pair", 1, "value", .int 9⟩]).2
    ⟨pair_joinsApart, fun htype => absurd htype (by decide), fun _ _ => trivial⟩ _

/-- A NOT whose logic is no logic, over two conditions. -/
def mislabelledRequest : RuleUpsertRequest :=
  ⟨"Mislabelled", [], some [("type", .str "not"), ("logic", .str "condition"),
    ("child", .dict [("type", .str "group"), ("children", .list
      [savedCondition "score" ">=" (.int 700), savedCondition "income" ">" (.int 1000)]),
      ("onPass", .str "approve"), ("onFail", .str "reject")])]⟩

def loweredIncome : Dict := [("variant", .dict [("overrides", .dict
  [("mislabelled.conditions.1.value", .int 9)])])]

theorem separator_takes_override : ∃ rule,
    normalizeRulePayload asciiText ["score", "income"] mislabelledRequest = .ok rule ∧
      ownOverrides asciiText "mislabelled" (overridesOf (some loweredIncome)) =
        [⟨"mislabelled", 1, "value", .int 9⟩] ∧
      ¬ ∃ stored, conditionPaths 1000 rule.tree = .ok stored ∧
        ExactRun 1000 stored (ruleRow "mislabelled" "Mislabelled" rule)
          [⟨"mislabelled", 1, "value", .int 9⟩] := by
  refine ⟨_, rfl, by decide +kernel, ?_⟩
  rintro ⟨stored, hpaths, after, tree, nodes, ps, -, hexact, -⟩
  obtain rfl := Except.ok.inj hpaths
  obtain rfl := Option.some.inj hexact.treeBefore
  obtain rfl := Value.list.inj (Option.some.inj hexact.nodesBefore)
  obtain rfl := Except.ok.inj hexact.conditions
  have hsame := hexact.same
  revert hsame
  decide +kernel

end Flattened

end RuleMind.Overrides
