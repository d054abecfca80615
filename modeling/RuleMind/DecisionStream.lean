/-
  The stream of all decisions of a policy: `iter_policy_decisions` of `app/storage.py`.

  Each page is a query of its own, of the table as it is by then, for what comes after the last
  decision of the page before it.
-/
import RuleMind.Lib.Keyset
import Mathlib.Data.Set.Finite.List
import Mathlib.Data.String.Basic
import Mathlib.Order.WellFoundedSet

namespace RuleMind.DecisionStream

open Lib

/-! ### The table -/

/-- `String(36)`. -/
structure DecisionId where
  text : String
  short : text.length ≤ 36
  deriving DecidableEq

/-- A row of `decisions`; times are in microseconds. -/
structure Decision where
  id : DecisionId
  tenantId : String
  policyId : Option String
  createdAt : ℕ
  outcome : String
  source : String
  latencyMs : ℤ
  experimentVariant : Option String
  deriving DecidableEq

structure Decisions where
  rows : List Decision
  unique : (rows.map (·.id)).Nodup

section Query

-- the ids in the order of the database
variable [LinearOrder DecisionId]

/-- `ORDER BY created_at DESC, id DESC`. -/
def NewestFirst (d e : Decision) : Prop :=
  e.createdAt < d.createdAt ∨ d.createdAt = e.createdAt ∧ e.id ≤ d.id

instance : DecidableRel NewestFirst := fun _ _ => inferInstanceAs (Decidable (_ ∨ _))

/-- Strictly after the last decision of the page before, if there is one. -/
def After (last : Option (ℕ × DecisionId)) (d : Decision) : Prop :=
  match last with
  | none => True
  | some (lastCreated, lastId) =>
    d.createdAt < lastCreated ∨ d.createdAt = lastCreated ∧ d.id < lastId

instance : ∀ last d, Decidable (After last d)
  | none, _ => .isTrue trivial
  | some _, _ => inferInstanceAs (Decidable (_ ∨ _))

variable (tenantId policyId : String) (pageSize : ℕ)

def page (last : Option (ℕ × DecisionId)) (table : Decisions) : List Decision :=
  ((table.rows.filter fun d =>
    d.tenantId = tenantId ∧ d.policyId = some policyId ∧ After last d).insertionSort
      NewestFirst).take pageSize

/-- `iter_policy_decisions`, from the `n`-th query on, and how many it makes. -/
def iterPolicyDecisions (tables : ℕ → Decisions) :
    ℕ → ℕ → Option (ℕ × DecisionId) → Option (List Decision × ℕ)
  | 0, _, _ => none
  | fuel + 1, n, last =>
    let rows := page tenantId policyId pageSize last (tables n)
    match rows.getLast? with
    | none => some ([], n + 1)
    | some row =>
      if rows.length < pageSize then some (rows, n + 1)
      else (iterPolicyDecisions tables fuel (n + 1) (some (row.createdAt, row.id))).map
        fun rest => (rows ++ rest.1, rest.2)

/-- A decision of the policy that is there all the time is visited once, and nothing twice or from
    elsewhere. -/
structure VisitsOnce (tables : ℕ → Decisions) (queries : ℕ) (visited : List Decision) : Prop where
  once : ∀ d, d.tenantId = tenantId → d.policyId = some policyId →
    (∀ i < queries, d ∈ (tables i).rows) → visited.count d = 1
  nodup : visited.Nodup
  ordered : visited.Pairwise fun d e =>
    e.createdAt < d.createdAt ∨ d.createdAt = e.createdAt ∧ e.id < d.id
  there : ∀ d ∈ visited, d.tenantId = tenantId ∧ d.policyId = some policyId ∧
    ∃ i < queries, d ∈ (tables i).rows

end Query

/-! ### The order of the keys -/

/-- There are finitely many ids. -/
instance : Finite DecisionId := by
  have : Finite Char := Finite.of_injective (fun c => c.val.toFin) fun c d h =>
    Char.ext (UInt32.toFin_inj.1 h)
  have : Finite {l : List Char | l.length ≤ 36} := List.finite_length_le Char 36
  refine Finite.of_injective (fun id : DecisionId => (⟨id.text.toList, id.short⟩ :
    {l : List Char | l.length ≤ 36})) fun id id' h => ?_
  obtain ⟨text, short⟩ := id
  obtain ⟨text', short'⟩ := id'
  have htext : text.toList = text'.toList := congrArg Subtype.val h
  obtain rfl := String.toList_inj.1 htext
  rfl

def key (d : Decision) : (ℕ ×ₗ DecisionId)ᵒᵈ := OrderDual.toDual (toLex (d.createdAt, d.id))

section Order
variable {tenantId policyId : String} {pageSize : ℕ} {tables : ℕ → Decisions}

def ofPolicy (tenantId policyId : String) (table : Decisions) : List Decision :=
  table.rows.filter fun d => d.tenantId = tenantId ∧ d.policyId = some policyId

theorem mem_ofPolicy {d : Decision} {table : Decisions} : d ∈ ofPolicy tenantId policyId table ↔
    d ∈ table.rows ∧ d.tenantId = tenantId ∧ d.policyId = some policyId := by
  rw [ofPolicy, List.mem_filter, decide_eq_true_iff]

theorem keys_unique (table : Decisions) : ((ofPolicy tenantId policyId table).map key).Nodup := by
  have hids : ((ofPolicy tenantId policyId table).map (·.id)).Nodup :=
    table.unique.sublist (List.filter_sublist.map _)
  refine List.Nodup.of_map (fun k => (ofLex (OrderDual.ofDual k)).2) ?_
  rw [List.map_map]
  exact hids

variable [LinearOrder DecisionId]

theorem newestFirst_iff (d e : Decision) : NewestFirst d e ↔ key d ≤ key e := by
  grind [key, OrderDual.toDual_le_toDual, Prod.Lex.toLex_le_toLex, NewestFirst]

theorem after_iff (last : Option (ℕ × DecisionId)) (d : Decision) :
    After last d ↔ Past (last.map fun l => OrderDual.toDual (toLex l)) (key d) := by
  cases last with
  | none => rfl
  | some l =>
    show _ ↔ OrderDual.toDual (toLex l) < key d
    rw [key, OrderDual.toDual_lt_toDual, Prod.Lex.toLex_lt_toLex]
    rfl

theorem page_eq (last : Option (ℕ × DecisionId)) (table : Decisions) :
    page tenantId policyId pageSize last table =
      window key (last.map fun l => OrderDual.toDual (toLex l)) pageSize
        (ofPolicy tenantId policyId table) := by
  have hfilter : (table.rows.filter fun d =>
      d.tenantId = tenantId ∧ d.policyId = some policyId ∧ After last d) =
      (ofPolicy tenantId policyId table).filter fun d => After last d := by
    rw [ofPolicy, List.filter_filter]
    refine List.filter_congr fun d _ => ?_
    rw [← Bool.decide_and]
    exact decide_eq_decide.2 (by rw [← and_assoc, and_comm])
  rw [page, hfilter]
  exact window_eq key _ pageSize _ _ NewestFirst
    (fun d => decide_eq_true_iff.trans (after_iff last d)) newestFirst_iff

theorem iterPolicyDecisions_eq (fuel n : ℕ) (last : Option (ℕ × DecisionId)) :
    iterPolicyDecisions tenantId policyId pageSize tables fuel n last =
      scan key pageSize (fun i => ofPolicy tenantId policyId (tables i)) fuel n
        (last.map fun l => OrderDual.toDual (toLex l)) := by
  induction fuel generalizing n last with
  | zero => rfl
  | succ fuel ih =>
    rw [iterPolicyDecisions, scan, page_eq]
    grind [key]

/-- **Each decision is visited once**, whatever is inserted and deleted between the queries. -/
theorem visits_once (tenantId policyId : String) (pageSize : ℕ) (hpage : 1 ≤ pageSize)
    (tables : ℕ → Decisions) :
    (∃ fuel result, iterPolicyDecisions tenantId policyId pageSize tables fuel 0 none =
      some result) ∧
    ∀ fuel visited queries, iterPolicyDecisions tenantId policyId pageSize tables fuel 0 none =
      some (visited, queries) → VisitsOnce tenantId policyId tables queries visited := by
  refine ⟨?_, fun fuel visited queries h => ?_⟩
  · obtain ⟨fuel, result, hscan⟩ := scan_ends key pageSize
      (fun i => ofPolicy tenantId policyId (tables i)) 0 none
    exact ⟨fuel, result, (iterPolicyDecisions_eq fuel 0 none).trans hscan⟩
  · rw [iterPolicyDecisions_eq] at h
    have hsorted := scan_sorted (fun i => keys_unique (tables i)) h
    have hnodup : visited.Nodup := hsorted.imp fun hlt heq => by
      rw [heq] at hlt
      exact absurd hlt (lt_irrefl _)
    refine
      { once := fun d htenant hpolicy hthere => ?_
        nodup := hnodup
        ordered := hsorted.imp fun {d e} hlt => ?_
        there := fun d hd => ?_ }
    · refine List.count_eq_one_of_mem hnodup ?_
      exact scan_covers (by omega) (fun i => keys_unique (tables i)) h
        (fun i _ hi => mem_ofPolicy.2 ⟨hthere i hi, htenant, hpolicy⟩) trivial
    · grind [key, OrderDual.toDual_lt_toDual, Prod.Lex.toLex_lt_toLex]
    · obtain ⟨-, i, -, hi, hmem⟩ := mem_scan h hd
      grind [mem_ofPolicy]

end Order

def decisionAt (text : String) (short : text.length ≤ 36) (createdAt : ℕ) : Decision :=
  ⟨⟨text, short⟩, "tenant", some "POL-1", createdAt, "approve", "api", 12, none⟩

/-- Two decisions of one moment, of which the second is deleted and another one inserted. -/
def changing (i : ℕ) : Decisions :=
  if i = 0 then ⟨[decisionAt "a" (by decide) 5, decisionAt "b" (by decide) 5], by decide⟩
  else ⟨[decisionAt "a" (by decide) 5, decisionAt "c" (by decide) 4], by decide⟩

theorem changing_visited : ∃ _ : LinearOrder DecisionId, ∃ fuel visited queries,
    iterPolicyDecisions "tenant" "POL-1" 1 changing fuel 0 none = some (visited, queries) ∧
    visited.count (decisionAt "a" (by decide) 5) = 1 := by
  let order : LinearOrder DecisionId := LinearOrder.lift' DecisionId.text fun id id' h => by
    obtain ⟨text, short⟩ := id
    obtain ⟨text', short'⟩ := id'
    cases h
    rfl
  obtain ⟨⟨fuel, ⟨visited, queries⟩, hresult⟩, hvisits⟩ :=
    visits_once "tenant" "POL-1" 1 (by decide) changing
  refine ⟨order, fuel, visited, queries, hresult, ?_⟩
  refine (hvisits fuel visited queries hresult).once _ rfl rfl fun i _ => ?_
  rw [changing]
  split
  · exact List.mem_cons_self
  · exact List.mem_cons_self

end RuleMind.DecisionStream
