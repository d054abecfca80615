/-
  Dark launches: `run_shadow` of `app/shadow.py`, which `fast_decide` calls on the payload that it
  has resolved, and `_compute_variables` of `app/fast_decide.py`, which resolves it once more.

  A request's payload holds a source's fields under the source's id, or flat; the resolved one
  holds every source's, and what was flat under `custom`.

  Both policies are served from the rows as they are; budgets and timeouts are left out.
-/
import RuleMind.Backtest
import RuleMind.PiiRedaction

namespace RuleMind.Shadow

open Compiler

/-! ### Resolving a payload -/

structure Connector where
  id : String
  sample : Dict
  schemaPaths : List String

/-- The connectors of a workspace, each under an id of its own. -/
structure Connectors where
  list : List Connector
  ids : (list.map (·.id)).Nodup

structure Payload where
  fields : Dict
  keys : (fields.map Prod.fst).Nodup

section Resolve
variable (cs : Connectors)

/-- `key in connectors and isinstance(value, dict)`. -/
def Connectors.nests (kv : String × Value) : Bool :=
  decide (kv.1 ∈ cs.list.map (·.id)) && kv.2.asDict.isSome

/-- One field of the payload: a source's fields, or a flat one. -/
def splitField (acc : Dict × Dict) (kv : String × Value) : Dict × Dict :=
  if cs.nests kv then (setKey acc.1 kv.1 kv.2, acc.2) else (acc.1, setKey acc.2 kv.1 kv.2)

def overrideFields (flat target : Dict) (fields : List String) : Dict :=
  fields.foldl (fun target field =>
    match flat.lookup field with
    | some v => setKey target field v
    | none => target) target

def overrideSource (flat payloads : Dict) (k : Connector) : Dict :=
  match (payloads.lookup k.id).bind Value.asDict with
  | some target => setKey payloads k.id (.dict (overrideFields flat target k.schemaPaths))
  | none => payloads

def Connector.seed (k : Connector) (seedSamples : Bool) : Dict :=
  if seedSamples then k.sample else []

def resolve (seedSamples : Bool) (payload : Dict) : Dict :=
  let seeded : Dict := cs.list.map fun k => (k.id, .dict (k.seed seedSamples))
  let (payloads, flat) := payload.foldl (splitField cs) (seeded, [])
  let payloads := if flat.isEmpty then payloads else cs.list.foldl (overrideSource flat) payloads
  setKey payloads "custom" (.dict (if flat.isEmpty then payload else flat))

def Connectors.flat (payload : Dict) : Dict := payload.filter fun kv => !cs.nests kv

/-- What the source `custom` gets. -/
def Connectors.custom (payload : Dict) : Dict :=
  if (cs.flat payload).isEmpty then payload else cs.flat payload

def Connectors.get (id : String) : Option Connector := cs.list.find? (·.id = id)

def first (seedSamples : Bool) (payload : Dict) (id : String) : Option Dict :=
  if id = "custom" then some (cs.custom payload)
  else (cs.get id).map fun k =>
    overrideFields (cs.flat payload)
      (((payload.lookup id).bind Value.asDict).getD (k.seed seedSamples)) k.schemaPaths

/-- What a source gets of a payload that has been resolved: `custom` all of it under its own
    name, and the others as before, unless they declare a field of that name. -/
def again (seedSamples : Bool) (payload : Dict) (id : String) : Option Dict :=
  let whole : Value := .dict (cs.custom payload)
  if (cs.get "custom").isSome then
    if id = "custom" then some (resolve cs seedSamples payload) else first cs seedSamples payload id
  else if id = "custom" then some [("custom", whole)]
  else (cs.get id).bind fun k => (first cs seedSamples payload id).map fun d =>
    if "custom" ∈ k.schemaPaths then setKey d "custom" whole else d

end Resolve

variable {cs : Connectors}

theorem lookup_eq_none {d : Dict} {key : String} (h : key ∉ d.map Prod.fst) :
    d.lookup key = none := by grind

theorem foldl_splitField (cs : Connectors) {payload : Dict}
    (h : (payload.map Prod.fst).Nodup) (ps flat : Dict)
    (hflat : ∀ key ∈ payload.map Prod.fst, key ∉ flat.map Prod.fst) :
    (payload.foldl (splitField cs) (ps, flat)).2 = flat ++ cs.flat payload ∧
      ∀ id, (payload.foldl (splitField cs) (ps, flat)).1.lookup id =
        ((payload.lookup id).filter fun v => cs.nests (id, v)).or (ps.lookup id) := by
  induction payload generalizing ps flat with
  | nil => exact ⟨(List.append_nil _).symm, fun _ => rfl⟩
  | cons kv payload ih =>
    obtain ⟨key, v⟩ := kv
    rw [List.map_cons, List.nodup_cons] at h
    obtain ⟨hkey, hnodup⟩ := h
    have hnew : key ∉ flat.map Prod.fst := hflat key List.mem_cons_self
    have hrest : payload.lookup key = none := lookup_eq_none hkey
    rw [List.foldl_cons, splitField]
    by_cases hn : cs.nests (key, v) = true
    · rw [if_pos hn]
      obtain ⟨hsecond, hfirst⟩ := ih hnodup (setKey ps key v) flat
        fun k hk => hflat k (List.mem_cons_of_mem _ hk)
      refine ⟨?_, fun id => ?_⟩
      · rw [hsecond, Connectors.flat, Connectors.flat, List.filter_cons_of_neg (by simp [hn])]
      · rw [hfirst id, lookup_setKey, List.lookup_cons]
        by_cases hid : id = key
        · subst hid
          simp [hrest, Option.filter_some, hn]
        · simp [hid, beq_false_of_ne hid]
    · rw [if_neg hn]
      obtain ⟨hsecond, hfirst⟩ := ih hnodup ps (setKey flat key v) (by
        intro k hk
        rw [setKey_new hnew, List.map_append, List.mem_append, not_or]
        grind)
      refine ⟨?_, fun id => ?_⟩
      · grind [setKey_new, Connectors.flat]
      · rw [hfirst id, List.lookup_cons]
        by_cases hid : id = key
        · subst hid
          simp [hrest, Option.filter_some, hn]
        · simp [beq_false_of_ne hid]

/-- The payloads of the sources, one for each connector. -/
structure Sourced (cs : Connectors) (ps : Dict) : Prop where
  keys : ps.map Prod.fst = cs.list.map (·.id)
  dicts : ∀ kv ∈ ps, kv.2.asDict.isSome = true

variable {id : String} {ps : Dict} {ks : List Connector}

theorem Sourced.set (h : Sourced cs ps)
    (hid : id ∈ cs.list.map (·.id)) {v : Value} (hv : v.asDict.isSome = true) :
    Sourced cs (setKey ps id v) where
  keys := by rw [keys_setKey (by rw [h.keys]; exact hid), h.keys]
  dicts kv hkv := by
    rcases mem_setKey hkv with hkv | rfl
    · exact h.dicts kv hkv
    · exact hv

theorem Sourced.split {ps : Dict} (h : Sourced cs ps) (payload flat : Dict) :
    Sourced cs (payload.foldl (splitField cs) (ps, flat)).1 := by
  induction payload generalizing ps flat with
  | nil => exact h
  | cons kv payload ih =>
    rw [List.foldl_cons, splitField]
    split
    · have hn : cs.nests kv = true := ‹_›
      rw [Connectors.nests, Bool.and_eq_true, decide_eq_true_iff] at hn
      exact ih (h.set hn.1 hn.2) flat
    · exact ih h _

theorem Sourced.override (h : Sourced cs ps) (flat : Dict)
    (hks : ∀ k ∈ ks, k ∈ cs.list) : Sourced cs (ks.foldl (overrideSource flat) ps) := by
  induction ks generalizing ps with
  | nil => exact h
  | cons k ks ih =>
    refine ih ?_ fun k' hk' => hks k' (List.mem_cons_of_mem _ hk')
    rw [overrideSource]
    split
    · exact h.set (List.mem_map.2 ⟨k, hks k List.mem_cons_self, rfl⟩) rfl
    · exact h

theorem sourced_seeded (cs : Connectors) (seedSamples : Bool) :
    Sourced cs (cs.list.map fun k => (k.id, .dict (k.seed seedSamples))) where
  keys := by
    rw [List.map_map]
    rfl
  dicts kv hkv := by
    obtain ⟨k, -, rfl⟩ := List.mem_map.1 hkv
    rfl

theorem lookup_sources (ks : List Connector) (f : Connector → Value) (id : String) :
    (ks.map fun k => (k.id, f k)).lookup id = (ks.find? (·.id = id)).map f := by
  induction ks with
  | nil => rfl
  | cons k ks ih => grind

theorem lookup_overrideSource (hids : (ks.map (·.id)).Nodup)
    (flat ps : Dict) (hps : ∀ k ∈ ks, ((ps.lookup k.id).bind Value.asDict).isSome = true)
    (id : String) :
    (ks.foldl (overrideSource flat) ps).lookup id =
      match ks.find? (·.id = id) with
      | some k => ((ps.lookup id).bind Value.asDict).map fun d =>
          .dict (overrideFields flat d k.schemaPaths)
      | none => ps.lookup id := by
  induction ks generalizing ps with
  | nil => rfl
  | cons k ks ih =>
    rw [List.map_cons, List.nodup_cons] at hids
    obtain ⟨hk, hnodup⟩ := hids
    obtain ⟨d, hd⟩ := Option.isSome_iff_exists.1 (hps k List.mem_cons_self)
    have hstep : overrideSource flat ps k =
        setKey ps k.id (.dict (overrideFields flat d k.schemaPaths)) := by
      rw [overrideSource, hd]
    rw [List.foldl_cons, hstep, ih hnodup]
    · by_cases hid : k.id = id
      · subst hid
        have hnone : ks.find? (fun k' => k'.id = k.id) = none := by
          refine List.find?_eq_none.2 fun k' hk' h => hk ?_
          exact List.mem_map.2 ⟨k', hk', by simpa using h⟩
        rw [hnone, List.find?_cons_of_pos (by simp)]
        simp [lookup_setKey, hd]
      · rw [List.find?_cons_of_neg (by simpa using hid), lookup_setKey, if_neg (Ne.symm hid)]
    · intro k' hk'
      have hne : k'.id ≠ k.id := fun h => hk (h ▸ List.mem_map.2 ⟨k', hk', rfl⟩)
      rw [lookup_setKey, if_neg hne]
      exact hps k' (List.mem_cons_of_mem _ hk')

theorem overrideFields_nil (target : Dict) (fields : List String) :
    overrideFields [] target fields = target := by
  induction fields with
  | nil => rfl
  | cons field fields ih => exact ih

theorem overrideFields_custom (whole : Value) (target : Dict) (fields : List String) :
    overrideFields [("custom", whole)] target fields =
      if "custom" ∈ fields then setKey target "custom" whole else target := by
  induction fields generalizing target with
  | nil => rfl
  | cons field fields ih =>
    show overrideFields _ (match List.lookup field [("custom", whole)] with
      | some v => setKey target field v | none => target) fields = _
    by_cases hf : field = "custom"
    · simp_all [setKey_setKey]
    · grind

theorem foldl_overrideSource_nil (ks : List Connector) (ps : Dict) :
    ks.foldl (overrideSource []) ps = ps := by
  induction ks with
  | nil => rfl
  | cons k ks ih =>
    have hstep : overrideSource [] ps k = ps := by
      rw [overrideSource]
      cases hd : (ps.lookup k.id).bind Value.asDict with
      | none => rfl
      | some d =>
        obtain ⟨v, hv, hdict⟩ := Option.bind_eq_some_iff.1 hd
        cases v with
        | dict kvs =>
          cases hdict
          simp_all [overrideFields_nil, setKey_same]
        | null => cases hdict
        | bool b => cases hdict
        | int n => cases hdict
        | float q => cases hdict
        | inf neg => cases hdict
        | str s => cases hdict
        | list vs => cases hdict
    rw [List.foldl_cons, hstep]
    exact ih

/-- The sources' payloads before `custom` is written. -/
def sources (cs : Connectors) (seedSamples : Bool) (payload : Dict) : Dict :=
  cs.list.foldl (overrideSource (cs.flat payload))
    (payload.foldl (splitField cs) (cs.list.map fun k => (k.id, .dict (k.seed seedSamples)), [])).1

theorem sourced_sources (cs : Connectors) (seedSamples : Bool) (payload : Dict) :
    Sourced cs (sources cs seedSamples payload) :=
  ((sourced_seeded cs seedSamples).split payload []).override _ fun _ hk => hk

theorem mem_ids : id ∈ cs.list.map (·.id) ↔ (cs.get id).isSome = true := by
  simp [Connectors.get, List.find?_isSome, List.mem_map]

theorem nests_asDict (hid : (cs.get id).isSome = true) (o : Option Value) :
    (o.filter fun v => cs.nests (id, v)) = (o.bind Value.asDict).map Value.dict := by
  cases o with
  | none => rfl
  | some v =>
    rw [Option.filter_some, Connectors.nests, decide_eq_true (mem_ids.2 hid), Bool.true_and,
      Option.bind_some]
    cases v with
    | dict kvs => rfl
    | null => rfl
    | bool b => rfl
    | int n => rfl
    | float q => rfl
    | inf neg => rfl
    | str s => rfl
    | list vs => rfl

section Once
variable {payload : Dict} (h : (payload.map Prod.fst).Nodup) (seedSamples : Bool)
include h

theorem resolve_eq : resolve cs seedSamples payload =
    setKey (sources cs seedSamples payload) "custom" (.dict (cs.custom payload)) := by
  have hflat := (foldl_splitField cs h
    (cs.list.map fun k => (k.id, .dict (k.seed seedSamples))) [] (fun _ _ hmem => by cases hmem)).1
  rw [List.nil_append] at hflat
  show setKey (if _ then _ else _) "custom" (.dict (if _ then payload else _)) = _
  rw [hflat, Connectors.custom]
  by_cases hempty : (cs.flat payload).isEmpty = true
  · rw [if_pos hempty, sources, List.isEmpty_iff.1 hempty]
    rw [foldl_overrideSource_nil]
  · rw [if_neg hempty, if_neg hempty]
    rfl

/-- **What a source gets of a payload.** -/
theorem lookup_resolve (id : String) :
    (resolve cs seedSamples payload).lookup id =
      (first cs seedSamples payload id).map Value.dict := by
  rw [resolve_eq h, lookup_setKey, first]
  split
  · rfl
  · have hsplit := (foldl_splitField cs h
      (cs.list.map fun k => (k.id, .dict (k.seed seedSamples))) []
      (fun _ _ hmem => by cases hmem)).2
    have hget : ∀ id k, cs.get id = some k →
        ((payload.foldl (splitField cs)
          (cs.list.map fun k => (k.id, .dict (k.seed seedSamples)), [])).1.lookup id) =
        some (.dict (((payload.lookup id).bind Value.asDict).getD (k.seed seedSamples))) := by
      intro id k hk
      rw [hsplit, nests_asDict (by rw [hk]; rfl), lookup_sources]
      rw [Connectors.get] at hk
      rw [hk]
      cases (payload.lookup id).bind Value.asDict with
      | none => rfl
      | some d => rfl
    rw [sources, lookup_overrideSource cs.ids]
    · show (match cs.get id with | some k => _ | none => _) = _
      cases hk : cs.get id with
      | none =>
        show _ = none
        rw [hsplit, lookup_sources]
        rw [Connectors.get] at hk
        rw [hk]
        have hnot : id ∉ cs.list.map (·.id) := fun hmem => by grind
        cases payload.lookup id with
        | none => rfl
        | some v =>
          rw [Option.filter_some, Connectors.nests, decide_eq_false hnot]
          rfl
      | some k =>
        simp only [hget id k hk, Option.bind_some, Option.map_some]
        rfl
    · intro k hk
      obtain ⟨k', hk'⟩ := Option.isSome_iff_exists.1 (mem_ids.1 (List.mem_map.2 ⟨k, hk, rfl⟩))
      rw [hget k.id k' hk']
      rfl

theorem keys_resolve : ((resolve cs seedSamples payload).map Prod.fst).Nodup := by
  have hs := sourced_sources cs seedSamples payload
  rw [resolve_eq h]
  by_cases hc : "custom" ∈ cs.list.map (·.id)
  · rw [keys_setKey (by rw [hs.keys]; exact hc), hs.keys]
    exact cs.ids
  · rw [setKey_new (by rw [hs.keys]; exact hc), List.map_append, hs.keys]
    refine List.nodup_append.2 ⟨cs.ids, List.nodup_singleton _, ?_⟩
    simp_all

theorem flat_resolve : cs.flat (resolve cs seedSamples payload) =
    if (cs.get "custom").isSome then [] else [("custom", .dict (cs.custom payload))] := by
  have hs := sourced_sources cs seedSamples payload
  have hnests : ∀ ps, Sourced cs ps → cs.flat ps = [] := by
    intro ps hps
    refine List.filter_eq_nil_iff.2 fun kv hkv => ?_
    have hid : kv.1 ∈ cs.list.map (·.id) := by
      rw [← hps.keys]
      exact List.mem_map.2 ⟨kv, hkv, rfl⟩
    simp [Connectors.nests, hps.dicts kv hkv, List.mem_map.1 hid]
  rw [resolve_eq h]
  by_cases hc : "custom" ∈ cs.list.map (·.id)
  · rw [if_pos (mem_ids.1 hc)]
    exact hnests _ (hs.set hc rfl)
  · rw [if_neg (fun hsome => hc (mem_ids.2 hsome)), setKey_new (by rw [hs.keys]; exact hc)]
    grind [Connectors.flat, Connectors.nests]

/-- **What a source gets of a payload that has been resolved.** -/
theorem first_resolve (id : String) :
    first cs false (resolve cs seedSamples payload) id = again cs seedSamples payload id := by
  have hlookup : (resolve cs seedSamples payload).lookup id = _ := lookup_resolve h seedSamples id
  rw [first, again, flat_resolve h]
  by_cases hcustom : id = "custom"
  · grind -ring -linarith [Connectors.custom, flat_resolve]
  · rw [if_neg hcustom, if_neg hcustom, if_neg hcustom, hlookup]
    have hbind : ((first cs seedSamples payload id).map Value.dict).bind Value.asDict =
        first cs seedSamples payload id := by
      cases first cs seedSamples payload id with
      | none => rfl
      | some d => rfl
    have hget : (first cs seedSamples payload id).isSome = (cs.get id).isSome := by
      rw [first, if_neg hcustom, Option.isSome_map]
    rw [hbind]
    cases hk : cs.get id with
    | none => simp_all
    | some k =>
      rw [hk] at hget
      obtain ⟨d, hd⟩ := Option.isSome_iff_exists.1 hget
      rw [hd, Option.map_some, Option.getD_some, Option.bind_some, Option.map_some]
      by_cases hc : (cs.get "custom").isSome = true
      · rw [if_pos hc, if_pos hc, overrideFields_nil]
      · rw [if_neg hc, if_neg hc, overrideFields_custom]

end Once

/-! ### Computing the variables -/

/-- What `execute_variable` gives. -/
structure Execution where
  value : Value
  error : Option String

section Compute
-- the code of a variable on its source's payload, and on the values so far
variable (execute : Row → Dict → Dict → Execution)

structure Computed where
  values : Dict
  errors : List (String × String)

/-- `payloads.get(variable.get("source_id"), {})`. -/
def sourcePayload (lookup : String → Option Dict) (v : Row) : Dict :=
  (((v.value.field "source_id").bind Value.asStr).bind lookup).getD []

def computeStep (source : Row → Dict) (acc : Computed) (v : Row) : Computed :=
  let execution := execute v (source v) acc.values
  { values := setKey acc.values v.id execution.value
    errors := acc.errors ++
      ((execution.error.filter (· ≠ "")).map fun message => (v.id, message)).toList }

/-- The loop of `_compute_variables`. -/
def compute (source : Row → Dict) (vars : List Row) : Computed :=
  vars.foldl (computeStep execute source) ⟨[], []⟩

/-- Each variable, on the values before it, comes to the same on two payloads. -/
def Alike (source source' : Row → Dict) : List Row → Dict → Prop
  | [], _ => True
  | v :: vars, values =>
    (execute v (source' v) values).value = (execute v (source v) values).value ∧
      Alike source source' vars (setKey values v.id (execute v (source v) values).value)

variable {execute}

theorem lookup_compute {vars : List Row} {id : String} (hid : id ∉ vars.map (·.id))
    (source : Row → Dict) (acc : Computed) :
    (vars.foldl (computeStep execute source) acc).values.lookup id = acc.values.lookup id := by
  induction vars generalizing acc with
  | nil => rfl
  | cons v vars ih =>
    rw [List.map_cons, List.mem_cons, not_or] at hid
    rw [List.foldl_cons, ih hid.2]
    show (setKey _ _ _).lookup id = _
    rw [lookup_setKey, if_neg hid.1]

theorem compute_alike {vars : List Row} (hids : (vars.map (·.id)).Nodup)
    (source source' : Row → Dict) {acc acc' : Computed} (hacc : acc'.values = acc.values) :
    (vars.foldl (computeStep execute source') acc').values =
        (vars.foldl (computeStep execute source) acc).values ↔
      Alike execute source source' vars acc.values := by
  induction vars generalizing acc acc' with
  | nil => exact iff_of_true hacc trivial
  | cons v vars ih =>
    rw [List.map_cons, List.nodup_cons] at hids
    rw [List.foldl_cons, List.foldl_cons, Alike]
    have hstep : ∀ (src : Row → Dict) (a : Computed),
        (vars.foldl (computeStep execute src) (computeStep execute src a v)).values.lookup v.id =
          some (execute v (src v) a.values).value := by
      intro src a
      rw [lookup_compute hids.1]
      show (setKey _ _ _).lookup v.id = _
      rw [lookup_setKey, if_pos rfl]
    constructor
    · intro hsame
      have hvalue : (execute v (source' v) acc.values).value =
          (execute v (source v) acc.values).value := by
        have hlookup := congrArg (List.lookup v.id) hsame
        rw [hstep, hstep, hacc] at hlookup
        exact Option.some.inj hlookup
      refine ⟨hvalue, (ih hids.2 ?_).1 hsame⟩
      show setKey acc'.values v.id _ = setKey acc.values v.id _
      rw [hacc, hvalue]
    · rintro ⟨hvalue, hrest⟩
      refine (ih hids.2 ?_).2 hrest
      show setKey acc'.values v.id _ = setKey acc.values v.id _
      rw [hacc, hvalue]

end Compute

/-! ### Serving and shadowing -/

structure StoredPolicy where
  row : Row
  steps : List Value
  hasSteps : row.value.field "steps" = some (.list steps)
  /-- `_policy_to_dict` gives no schema. -/
  noSchema : row.value.field "input_schema" = none

structure Tenant where
  connectors : Connectors
  assets : Assets
  policies : List StoredPolicy
  engineConfig : Dict
  extension : Backtest.Extension
  /-- `needed_variable_ids`; every id where all variables are computed. -/
  needed : List Value → String → Bool
  /-- `_validate_input` raises, for a policy and a payload. -/
  refuses : String → Dict → Bool
  /-- `add_decision` takes the record of a shadow decision. -/
  stores : Dict → Bool

inductive Raised
  | refused
  | serve (e : Backtest.ServeError)

/-- What `fast_decide` comes to. -/
structure Decided where
  outcome : Value
  values : Dict
  errors : List (String × String)
  resolved : Dict

structure Report where
  candidatePolicyId : Value
  shadowOutcome : Value
  liveOutcome : Value
  diverged : Bool

section Serve
variable (py : PyText) (evaluators : Dict → Evaluators)
variable (validateInput : Value → Value → Except PyError (List String))
variable (execute : Row → Dict → Dict → Execution) (t : Tenant)

def Tenant.failOpen : Bool := (t.engineConfig.lookup "fail_open_on_variable_error").any Value.truthy

/-- The variables that are computed for a policy's steps. -/
def Tenant.computed (steps : List Value) : List Row :=
  t.assets.vars.list.filter fun v => t.needed steps v.id

/-- `_compute_variables` on a payload that is resolved. -/
def computeVariables (steps : List Value) (resolved : Dict) : Computed :=
  compute execute (sourcePayload fun id => (resolved.lookup id).bind Value.asDict)
    (t.computed steps)

def fastDecide (policy : StoredPolicy) (seedSamples : Bool) (payload : Dict) :
    Except Raised Decided :=
  if t.refuses policy.row.id payload then .error .refused
  else
    let resolved := resolve t.connectors seedSamples payload
    let c := computeVariables execute t policy.steps resolved
    ((Backtest.fastDecide py evaluators validateInput t.extension t.assets policy.row
      (.dict payload) c.values (!c.errors.isEmpty) t.failOpen).map fun outcome =>
        ⟨outcome, c.values, c.errors, resolved⟩).mapError .serve

def Tenant.getPolicy (id : Value) : Option StoredPolicy :=
  t.policies.find? fun p => id = .str p.row.id

def shadowRecord (livePolicyId : String) (candidateId : Value) (payload : Dict) (d : Decided)
    (liveOutcome : Value) : Dict :=
  [("policy_id", candidateId), ("payload", .dict payload), ("computed_variables", .dict d.values),
    ("outcome", d.outcome), ("source", .str "shadow"),
    ("trace", .list [.dict [("shadow_of", .str livePolicyId), ("live_outcome", liveOutcome),
      ("diverged", .bool (d.outcome ≠ liveOutcome))]])]

def runShadow (livePolicyId : String) (payload : Dict) (liveOutcome : Value) : Option Report := do
  let candidateId := Redaction.shadowTarget t.engineConfig livePolicyId
  let candidate ← if candidateId.truthy then t.getPolicy candidateId else none
  let d ← (fastDecide py evaluators validateInput execute t candidate false payload).toOption
  if t.stores (shadowRecord livePolicyId candidateId payload d liveOutcome) then
    some ⟨candidateId, d.outcome, liveOutcome, d.outcome ≠ liveOutcome⟩
  else none

/-- What the steps of a policy come to on some values. -/
def Tenant.decides (steps : List Value) (values : Dict) : Except Backtest.ServeError String :=
  if t.extension.present && Backtest.rulesOnly steps then
    (bundleDecide (t.extension.evaluateTree values) t.assets.rules.map steps).mapError .extension
  else
    (coreDecide py (evaluators values) (Backtest.servingCatalog t.assets) steps).mapError .raised

/-- A variable's payload of a request, and of what it was resolved to. -/
def Tenant.firstPayload (seedSamples : Bool) (payload : Dict) : Row → Dict :=
  sourcePayload (first t.connectors seedSamples payload)

def Tenant.againPayload (seedSamples : Bool) (payload : Dict) : Row → Dict :=
  sourcePayload (again t.connectors seedSamples payload)

/-- Some variable of a policy fails on its source's payload. -/
def Tenant.fails (steps : List Value) (source : Row → Dict) : Bool :=
  !(compute execute source (t.computed steps)).errors.isEmpty

theorem settle_ne_pending (o : String) : settle o ≠ "pending" := by
  unfold settle
  split
  · decide
  · assumption

theorem decides_ne_pending {steps : List Value} {values : Dict} {o : String}
    (h : t.decides py evaluators steps values = .ok o) : o ≠ "pending" := by
  have hmap : ∀ {ε : Type} {x : Except ε String}, x.map settle = .ok o → o ≠ "pending" := by
    intro ε x hx
    cases x with
    | error e => cases hx
    | ok o' =>
      cases hx
      exact settle_ne_pending o'
  rw [Tenant.decides] at h
  split at h
  · exact hmap (mapError_eq_ok.1 h)
  · exact hmap (mapError_eq_ok.1 h)

theorem engineOutcome_eq (policy : StoredPolicy) (payload : Value) (values : Dict) :
    Backtest.engineOutcome py evaluators validateInput t.extension t.assets policy.row policy.steps
      payload values = t.decides py evaluators policy.steps values := by
  obtain ⟨kvs, hdict⟩ := policy.row.asDict
  have hselect : selectPolicy (Backtest.coreBundle t.assets policy.row) none =
      .ok policy.row.value := by
    have hfilter : ((Backtest.coreBundle t.assets policy.row).lookup "policy").filter
        (fun p => p.asDict.isSome) = some policy.row.value := by
      show (some policy.row.value).filter _ = _
      rw [Option.filter_some, hdict]
      rfl
    unfold selectPolicy
    rw [hfilter]
  have hcore : decideBundle py (evaluators values) validateInput
      (Backtest.coreBundle t.assets policy.row) payload none =
      coreDecide py (evaluators values) (Backtest.servingCatalog t.assets) policy.steps := by
    rw [decideBundle, hselect]
    show (inputErrors validateInput payload (Value.orElse (policy.row.value.field "input_schema")
      .null)).bind (fun _ => (policySteps policy.row.value).bind _) = _
    rw [policy.noSchema, policySteps, policy.hasSteps]
    rfl
  rw [Backtest.engineOutcome, hcore, Tenant.decides]

theorem served_eq (policy : StoredPolicy) (payload : Value) (values : Dict)
    (failed failOpen : Bool) :
    Backtest.fastDecide py evaluators validateInput t.extension t.assets policy.row payload values
        failed failOpen =
      (t.decides py evaluators policy.steps values).map fun o =>
        Backtest.failClosed failed failOpen (.str o) := by
  rw [Backtest.fastDecide, policySteps, policy.hasSteps]
  show (Backtest.engineOutcome py evaluators validateInput t.extension t.assets policy.row
    policy.steps payload values).bind _ = _
  rw [engineOutcome_eq]
  cases h : t.decides py evaluators policy.steps values with
  | error e => rfl
  | ok o =>
    have hne := decides_ne_pending py evaluators t h
    show Except.ok (Backtest.failClosed _ _ (if o ≠ "pending" then Value.str o else _)) = _
    rw [if_pos hne]
    rfl

theorem fastDecide_eq_ok {policy : StoredPolicy} {seedSamples : Bool} {payload : Dict}
    {d : Decided} :
    fastDecide py evaluators validateInput execute t policy seedSamples payload = .ok d ↔
      t.refuses policy.row.id payload = false ∧
      d.resolved = resolve t.connectors seedSamples payload ∧
      d.values = (computeVariables execute t policy.steps d.resolved).values ∧
      d.errors = (computeVariables execute t policy.steps d.resolved).errors ∧
      ∃ o, t.decides py evaluators policy.steps d.values = .ok o ∧
        d.outcome = Backtest.failClosed (!d.errors.isEmpty) t.failOpen (.str o) := by
  rw [fastDecide]
  cases hrefuses : t.refuses policy.row.id payload with
  | true => simp
  | false =>
    rw [if_neg (by simp)]
    dsimp only
    rw [served_eq]
    constructor
    · intro h
      have h := mapError_eq_ok.1 h
      obtain ⟨outcome, houtcome, rfl⟩ := map_eq_ok.1 h
      obtain ⟨o, ho, rfl⟩ := map_eq_ok.1 houtcome
      exact ⟨rfl, rfl, rfl, rfl, o, ho, rfl⟩
    · rintro ⟨-, hresolved, hvalues, herrors, o, ho, houtcome⟩
      obtain ⟨outcome, values, errors, resolved⟩ := d
      simp_all [Except.mapError, Except.map]

section Launched
variable {live candidate : StoredPolicy} {seedSamples : Bool} {payload : Payload} {d : Decided}

theorem sourcePayload_resolved {lookup : String → Option Dict} {resolved : Dict}
    (h : ∀ id, resolved.lookup id = (lookup id).map Value.dict) :
    sourcePayload (fun id => (resolved.lookup id).bind Value.asDict) = sourcePayload lookup := by
  have hlookup : (fun id => (resolved.lookup id).bind Value.asDict) = lookup := by
    funext id
    rw [h id]
    cases lookup id with
    | none => rfl
    | some d => rfl
  rw [hlookup]

theorem computeVariables_first (steps : List Value) (seedSamples : Bool) (payload : Payload) :
    computeVariables execute t steps (resolve t.connectors seedSamples payload.fields) =
      compute execute (t.firstPayload seedSamples payload.fields) (t.computed steps) := by
  rw [computeVariables, sourcePayload_resolved fun id => lookup_resolve payload.keys seedSamples id]
  rfl

theorem computeVariables_again (steps : List Value) (seedSamples : Bool) (payload : Payload) :
    computeVariables execute t steps (resolve t.connectors false
        (resolve t.connectors seedSamples payload.fields)) =
      compute execute (t.againPayload seedSamples payload.fields) (t.computed steps) := by
  have hlookup : ∀ id, (resolve t.connectors false
      (resolve t.connectors seedSamples payload.fields)).lookup id =
      (again t.connectors seedSamples payload.fields id).map Value.dict := by
    intro id
    rw [lookup_resolve (keys_resolve payload.keys seedSamples) false id,
      first_resolve payload.keys seedSamples id]
  rw [computeVariables, sourcePayload_resolved hlookup]
  rfl

theorem failClosed_eq_iff {failed failed' failOpen : Bool} {o : String} :
    Backtest.failClosed failed' failOpen (.str o) = Backtest.failClosed failed failOpen (.str o) ↔
      failed' = failed ∨ failOpen = true ∨ o = "review" := by
  cases failed <;> cases failed' <;> cases failOpen <;> simp [Backtest.failClosed, eq_comm]

theorem runShadow_eq_some {livePolicyId : String} {resolved : Dict} {liveOutcome : Value}
    {r : Report}
    (htarget : Redaction.shadowTarget t.engineConfig livePolicyId = .str candidate.row.id)
    (hcandidate : t.getPolicy (.str candidate.row.id) = some candidate) :
    runShadow py evaluators validateInput execute t livePolicyId resolved liveOutcome = some r ↔
      ∃ d', fastDecide py evaluators validateInput execute t candidate false resolved = .ok d' ∧
        t.stores (shadowRecord livePolicyId (.str candidate.row.id) resolved d' liveOutcome) =
          true ∧
        r = ⟨.str candidate.row.id, d'.outcome, liveOutcome, d'.outcome ≠ liveOutcome⟩ := by
  have htruthy : (Value.str candidate.row.id).truthy = true := by
    show (candidate.row.id != "") = true
    rw [bne_iff_ne]
    exact candidate.row.nonempty
  rw [runShadow, htarget]
  dsimp only
  rw [if_pos htruthy, hcandidate]
  simp only [Option.bind_eq_bind, Option.bind_some]
  cases fastDecide py evaluators validateInput execute t candidate false resolved with
  | error e =>
    show none = some r ↔ _
    simp
  | ok d' =>
    show (if _ then some _ else none) = some r ↔ _
    split
    · grind
    · simp_all

/-- **A policy launched behind one with its steps.**  On a payload that is decided, the report says
    that they agree, with the same values, exactly if the resolved payload is not refused, each
    computed variable comes to the same on what its source gets of it, a variable fails there
    just in case one has failed before (or that does not matter), and the row is stored. -/
theorem shadow_agrees_iff
    (hd : fastDecide py evaluators validateInput execute t live seedSamples payload.fields = .ok d)
    (htarget : Redaction.shadowTarget t.engineConfig live.row.id = .str candidate.row.id)
    (hcandidate : t.getPolicy (.str candidate.row.id) = some candidate)
    (hsteps : candidate.steps = live.steps) :
    ((∃ r, runShadow py evaluators validateInput execute t live.row.id d.resolved d.outcome =
          some r ∧ r.diverged = false) ∧
        (computeVariables execute t candidate.steps
          (resolve t.connectors false d.resolved)).values = d.values) ↔
      t.refuses candidate.row.id d.resolved = false ∧
      Alike execute (t.firstPayload seedSamples payload.fields)
        (t.againPayload seedSamples payload.fields) (t.computed live.steps) [] ∧
      (t.fails execute live.steps (t.againPayload seedSamples payload.fields) =
          t.fails execute live.steps (t.firstPayload seedSamples payload.fields) ∨
        t.failOpen = true ∨ t.decides py evaluators live.steps d.values = .ok "review") ∧
      t.stores (shadowRecord live.row.id (.str candidate.row.id) d.resolved d d.outcome) = true :=
    by
  obtain ⟨-, hresolved, hvalues, herrors, o, ho, houtcome⟩ :=
    (fastDecide_eq_ok py evaluators validateInput execute t).1 hd
  rw [hresolved, computeVariables_first] at hvalues herrors
  have hagain := computeVariables_again execute t live.steps seedSamples payload
  rw [← hresolved] at hagain
  have halike : (computeVariables execute t live.steps
      (resolve t.connectors false d.resolved)).values = d.values ↔
      Alike execute (t.firstPayload seedSamples payload.fields)
        (t.againPayload seedSamples payload.fields) (t.computed live.steps) [] := by
    rw [hagain, hvalues]
    have hids : ((t.computed live.steps).map (·.id)).Nodup :=
      t.assets.vars.ids.sublist (List.filter_sublist.map _)
    exact compute_alike hids _ _ rfl
  have hfails : (!(computeVariables execute t live.steps
      (resolve t.connectors false d.resolved)).errors.isEmpty) =
      t.fails execute live.steps (t.againPayload seedSamples payload.fields) := by
    rw [hagain]
    rfl
  have hfailed : (!d.errors.isEmpty) =
      t.fails execute live.steps (t.firstPayload seedSamples payload.fields) := by
    rw [herrors]
    rfl
  have hreview : t.decides py evaluators live.steps d.values = .ok "review" ↔ o = "review" := by
    rw [ho]
    exact ⟨fun h => Except.ok.inj h, fun h => congrArg _ h⟩
  rw [hsteps, hreview, ← hfails, ← hfailed, ← failClosed_eq_iff, ← houtcome, ← halike]
  constructor
  · rintro ⟨⟨r, hr, hdiverged⟩, hsame⟩
    obtain ⟨d', hd', hstores, rfl⟩ :=
      (runShadow_eq_some py evaluators validateInput execute t htarget hcandidate).1 hr
    obtain ⟨hrefuses, hresolved', hvalues', herrors', o', ho', houtcome'⟩ :=
      (fastDecide_eq_ok py evaluators validateInput execute t).1 hd'
    rw [hsteps, hresolved'] at hvalues' herrors'
    have houtcomes : d'.outcome = d.outcome := by simpa using hdiverged
    rw [hsame] at hvalues'
    rw [hsteps, hvalues', ho] at ho'
    cases ho'
    refine ⟨hrefuses, hsame, ?_, ?_⟩
    · rw [← herrors', ← houtcome', houtcomes]
    · rw [shadowRecord, houtcomes, hvalues'] at hstores
      exact hstores
  · rintro ⟨hrefuses, hsame, houtcomes, hstores⟩
    have hshadow : fastDecide py evaluators validateInput execute t candidate false d.resolved =
        .ok ⟨d.outcome,
          (computeVariables execute t live.steps (resolve t.connectors false d.resolved)).values,
          (computeVariables execute t live.steps (resolve t.connectors false d.resolved)).errors,
          resolve t.connectors false d.resolved⟩ := by
      refine (fastDecide_eq_ok py evaluators validateInput execute t).2
        ⟨hrefuses, rfl, by rw [hsteps], by rw [hsteps], o, ?_, houtcomes.symm⟩
      rw [hsteps, hsame]
      exact ho
    refine ⟨⟨_, (runShadow_eq_some py evaluators validateInput execute t htarget hcandidate).2
      ⟨_, hshadow, ?_, rfl⟩, ?_⟩, hsame⟩
    · rw [shadowRecord, hsame]
      exact hstores
    · simp

end Launched

end Serve

/-- A variable that reads an amount off its source. -/
def amountOf (sourceId : String) : Row where
  id := "amount"
  value := .dict [("id", .str "amount"), ("source_id", .str sourceId),
    ("code", .str "def compute(payload): return payload['amount']")]
  named := rfl
  nonempty := by decide

def readAmount (_ : Row) (payload _ : Dict) : Execution :=
  match payload.lookup "amount" with
  | some v => ⟨v, none⟩
  | none => ⟨.null, some "KeyError: 'amount'"⟩

def approving (id : String) (h : id ≠ "") : StoredPolicy where
  row := {
    id := id
    value := .dict [("id", .str id),
      ("steps", .list [.dict [("type", .str "outcome"), ("ref_id", .str "approve")]])]
    named := rfl
    nonempty := h }
  steps := [.dict [("type", .str "outcome"), ("ref_id", .str "approve")]]
  hasSteps := rfl
  noSchema := rfl

def live : StoredPolicy := approving "live" (by decide)

def candidate : StoredPolicy := approving "candidate" (by decide)

def noRows : Rows := ⟨[], List.nodup_nil⟩

/-- A workspace with a bureau, one variable, and a candidate behind a policy. -/
def launched (sourceId : String) : Tenant where
  connectors := ⟨[⟨"bureau", [], []⟩], List.nodup_singleton _⟩
  assets := ⟨⟨[amountOf sourceId], List.nodup_singleton _⟩, noRows, noRows, noRows, noRows, noRows⟩
  policies := [live, candidate]
  engineConfig := [("shadow_map", .dict [("live", .str "candidate")])]
  extension := ⟨false, fun _ _ => .ok "review"⟩
  needed _ _ := true
  refuses _ _ := false
  stores _ := true

def noEvaluators (_ : Dict) : Evaluators :=
  ⟨fun _ => .error .typeError, fun _ => .error .typeError, fun _ => .error .typeError⟩

def noErrors (_ _ : Value) : Except PyError (List String) := .ok []

def flatAmount : Payload := ⟨[("amount", .int 500)], List.nodup_singleton _⟩

def nestedAmount : Payload := ⟨[("bureau", .dict [("amount", .int 500)])], List.nodup_singleton _⟩

/-- The shadow run does not find the flat amount, and sends the case to review. -/
theorem custom_source_diverges :
    ∃ d, fastDecide asciiText noEvaluators noErrors readAmount (launched "custom") live false
        flatAmount.fields = .ok d ∧
      runShadow asciiText noEvaluators noErrors readAmount (launched "custom") "live" d.resolved
        d.outcome = some ⟨.str "candidate", .str "review", .str "approve", true⟩ :=
  ⟨_, rfl, rfl⟩

/-- On an amount under its source's id the two agree. -/
theorem nested_amount_agrees :
    ∃ d, fastDecide asciiText noEvaluators noErrors readAmount (launched "bureau") live false
        nestedAmount.fields = .ok d ∧
      (∃ r, runShadow asciiText noEvaluators noErrors readAmount (launched "bureau") "live"
          d.resolved d.outcome = some r ∧ r.diverged = false) ∧
        (computeVariables readAmount (launched "bureau") candidate.steps
          (resolve (launched "bureau").connectors false d.resolved)).values = d.values :=
  ⟨_, rfl, (@shadow_agrees_iff asciiText noEvaluators noErrors readAmount (launched "bureau")
    live candidate false nestedAmount _ rfl rfl rfl rfl).2 ⟨rfl, ⟨rfl, trivial⟩, .inl rfl, rfl⟩⟩

end RuleMind.Shadow
