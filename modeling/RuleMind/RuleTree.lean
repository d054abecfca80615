/-
  Rule trees: `evaluate_rule_tree` of `app/logic.py` and `evaluate_tree_traced` of
  the Rust core.

  `leaf` stands for the comparison that both engines make, and are taken to agree on.
-/
import RuleMind.Value

namespace RuleMind.RuleTree

/-! ### Nodes -/

def MAX_RULE_TREE_DEPTH : ℕ := 200

inductive Kind
  | condition
  | not
  | group
  | other
  deriving DecidableEq, Repr

/-- The text under `type`. -/
def nodeType (node : Value) : Option String := (node.field "type").bind Value.asStr

def kind (node : Value) : Kind :=
  if nodeType node = some "condition" then .condition
  else if nodeType node = some "not" then .not
  else if nodeType node = some "group" then .group
  else .other

/-- An entry of `conditions`; the rest of it is read off the node. -/
structure Condition where
  node : Value
  group : String
  passed : Bool

structure GroupResult where
  id : Value
  logic : String
  passed : Bool
  childCount : ℕ

/-- What an evaluation has recorded, in its order. -/
structure Trace where
  conditions : List Condition
  groups : List GroupResult

def Trace.append (s t : Trace) : Trace := ⟨s.conditions ++ t.conditions, s.groups ++ t.groups⟩

def Trace.passedConditions (t : Trace) : ℕ := (t.conditions.filter (·.passed)).length

/-- The children one after the other; the first failure ends the evaluation. -/
def evaluateAll {ε : Type} (eval : Value → Except ε (Bool × Trace)) :
    List Value → Except ε (List Bool × Trace)
  | [] => .ok ([], ⟨[], []⟩)
  | c :: cs => do
    let (b, t) ← eval c
    let (bs, ts) ← evaluateAll eval cs
    .ok (b :: bs, t.append ts)

structure Result where
  conditions : List Condition
  groupResults : List GroupResult
  passed : Bool
  outcome : String
  logic : String

def Result.passedConditions (r : Result) : ℕ := (r.conditions.filter (·.passed)).length

/-! ### Python -/

section Python
variable (py : PyText) (leaf : Value → Bool)

/-- `for child in node.get("children", [])`: a text yields its characters, an
    object its keys, and what is not a container raises. -/
def iterate : Option Value → Except PyError (List Value)
  | none => .ok []
  | some (.list vs) => .ok vs
  | some (.str s) => .ok (s.toList.map fun c => .str (String.ofList [c]))
  | some (.dict kvs) => .ok (kvs.map fun kv => .str kv.1)
  | some _ => .error .typeError

/-- `str(node.get("logic", "AND")).upper()`. -/
def pyLogic (node : Value) : String := upper (py.str ((node.field "logic").getD (.str "AND")))

/-- `evaluate_node`; the first argument is how many levels the bound still allows. -/
def evaluateNode : ℕ → Value → String → Except PyError (Bool × Trace)
  | 0, _, _ => .error .depthExceeded
  | f + 1, node, inherited =>
    match node.asDict with
    | none => .error .attributeError
    | some _ =>
      match kind node with
      | .condition =>
        let passed := leaf node
        .ok (passed, ⟨[⟨node, inherited, passed⟩], []⟩)
      | .not => do
        let child := Value.orElse (node.field "child") (.dict [])
        let (b, t) ← evaluateNode f child "NOT"
        let result := !b
        .ok (result, t.append ⟨[], [⟨(node.field "id").getD (.str "not"), "NOT", result, 1⟩]⟩)
      | .group => do
        let logic := pyLogic py node
        let children ← iterate (node.field "children")
        let (bs, t) ← evaluateAll (fun c => evaluateNode f c logic) children
        let passed := if logic = "AND" then bs.all id else bs.any id
        .ok (passed,
          t.append ⟨[], [⟨(node.field "id").getD (.str "group"), logic, passed, bs.length⟩]⟩)
      | .other => .ok (false, ⟨[], []⟩)

def evaluateRuleTree (tree : Value) : Except PyError Result :=
  match tree.asDict with
  | none => .error .attributeError
  | some _ => do
    let logic := pyLogic py tree
    let (overall, t) ← evaluateNode py leaf (MAX_RULE_TREE_DEPTH + 1) tree logic
    let outcome :=
      if overall then py.str ((tree.field "onPass").getD (.str "approve"))
      else py.str ((tree.field "onFail").getD (.str "reject"))
    .ok ⟨t.conditions, t.groups, overall, outcome, logic⟩

end Python

/-! ### Rust -/

inductive EvalError
  | depthExceeded
  deriving DecidableEq, Repr

section Rust
variable (leaf : Value → Bool)

def rootLogic (tree : Value) : String := upper (((tree.field "logic").bind Value.asStr).getD "AND")

/-- `eval_node`, with the trace. -/
def evalNode : ℕ → Value → String → Except EvalError (Bool × Trace)
  | 0, _, _ => .error .depthExceeded
  | f + 1, node, inherited =>
    match kind node with
    | .condition =>
      let passed := leaf node
      .ok (passed, ⟨[⟨node, inherited, passed⟩], []⟩)
    | .not => do
      let (passed, t) ← match node.field "child" with
        | some child => do
          let (b, t) ← evalNode f child "NOT"
          .ok (!b, t)
        | none => .ok (false, ⟨[], []⟩)
      .ok (passed, t.append
        ⟨[], [⟨.str (((node.field "id").bind Value.asStr).getD "not"), "NOT", passed, 1⟩]⟩)
    | .group | .other => do
      let logic := rootLogic node
      let children := ((node.field "children").bind Value.asList).getD []
      let isOr := logic = "OR"
      let (bs, t) ← evaluateAll (fun c => evalNode f c logic) children
      let passed := bs.foldl (fun p r => if isOr then p || r else p && r) (!isOr)
      .ok (passed, t.append
        ⟨[], [⟨.str (((node.field "id").bind Value.asStr).getD "group"), logic, passed,
          children.length⟩]⟩)

def treeOutcome (tree : Value) (passed : Bool) : String :=
  ((tree.field (if passed then "onPass" else "onFail")).bind Value.asStr).getD
    (if passed then "approve" else "reject")

def evaluateTreeTraced (tree : Value) : Except EvalError Result := do
  let logic := rootLogic tree
  let (passed, t) ← evalNode leaf (MAX_RULE_TREE_DEPTH + 1) tree logic
  .ok ⟨t.conditions, t.groups, passed, treeOutcome tree passed, logic⟩

end Rust

/-! ### Trees both engines read alike -/

/-- The children, where both engines find the same ones. -/
def plainChildren (node : Value) : Option (List Value) :=
  match node.field "children" with
  | none => some []
  | some (.list vs) => some vs
  | some (.str "") => some []
  | some (.dict []) => some []
  | some _ => none

def fits : ℕ → Value → Bool
  | 0, _ => false
  | f + 1, node =>
    match kind node with
    | .condition | .other => true
    | .not => (node.field "child").all (fits f)
    | .group => ((plainChildren node).getD []).all (fits f)

def PlainLogic (node : Value) : Prop :=
  match node.field "logic" with
  | none => True
  | some (.str s) => upper s = "AND" ∨ upper s = "OR"
  | some _ => False

/-- The children are sound up to the first one that exceeds the bound. -/
def SoundAll (sound : Value → Prop) (fits : Value → Bool) : List Value → Prop
  | [] => True
  | c :: cs => sound c ∧ (fits c = true → SoundAll sound fits cs)

/-- A node both engines read alike, with all that is evaluated below it: a
    condition, the negation of a sound child, or a group of sound children whose
    logic is AND or OR (of one child, any logic).  Beyond the bound nothing is
    read. -/
def Sound : ℕ → Value → Prop
  | 0, _ => True
  | f + 1, node =>
    match kind node with
    | .condition => True
    | .not => ∃ child, node.field "child" = some child ∧ Sound f child
    | .group => ∃ cs, plainChildren node = some cs ∧ SoundAll (Sound f) (fits f) cs ∧
        (cs.all (fits f) = true → PlainLogic node ∨ cs.length = 1)
    | .other => False

def PlainOutcomes (tree : Value) : Prop :=
  ∀ key ∈ ["onPass", "onFail"], ∀ v, tree.field key = some v → ∃ s, v = .str s

structure SoundTree (tree : Value) : Prop where
  nodes : Sound (MAX_RULE_TREE_DEPTH + 1) tree
  outcomes : fits (MAX_RULE_TREE_DEPTH + 1) tree = true → PlainOutcomes tree

/-! ### The engines agree on them -/

/-- Both evaluations end the same way, as far as a caller sees. -/
def Agree {α : Type} (same : α → α → Prop) (ok : Bool) (x : Except PyError α)
    (y : Except EvalError α) : Prop :=
  if ok then ∃ a b, x = .ok a ∧ y = .ok b ∧ same a b
  else x = .error .depthExceeded ∧ y = .error .depthExceeded

def SameNode (a b : Bool × Trace) : Prop := a.1 = b.1 ∧ a.2.passedConditions = b.2.passedConditions

def SameNodes (a b : List Bool × Trace) : Prop :=
  a.1 = b.1 ∧ a.2.passedConditions = b.2.passedConditions

theorem passedConditions_append (s t : Trace) :
    (s.append t).passedConditions = s.passedConditions + t.passedConditions := by
  simp [Trace.append, Trace.passedConditions]

theorem passedConditions_groups (gs : List GroupResult) : Trace.passedConditions ⟨[], gs⟩ = 0 := rfl

theorem kind_asDict {node : Value} (h : kind node ≠ .other) :
    ∃ kvs, node = .dict kvs ∧ node.truthy = true := by
  cases ht : node.field "type" with
  | none =>
    exfalso
    apply h
    simp [kind, nodeType, ht]
  | some v => grind [Value.field_eq_some, Value.truthy_of_field]

section Agreement
variable (py : PyText) (leaf : Value → Bool)

theorem evaluateAll_agree {f : ℕ} {i j : String} (ih : ∀ node, Sound f node →
      Agree SameNode (fits f node) (evaluateNode py leaf f node i) (evalNode leaf f node j)) :
    ∀ cs : List Value, SoundAll (Sound f) (fits f) cs →
      Agree SameNodes (cs.all (fits f)) (evaluateAll (fun c => evaluateNode py leaf f c i) cs)
        (evaluateAll (fun c => evalNode leaf f c j) cs)
  | [], _ => ⟨_, _, rfl, rfl, rfl, rfl⟩
  | c :: cs, h => by
    have hc := ih c h.1
    unfold evaluateAll
    cases hfit : fits f c with
    | false =>
      rw [hfit] at hc
      simp only [Agree, Bool.false_eq_true, if_false] at hc
      simp only [Agree, List.all_cons, hfit, Bool.false_and, Bool.false_eq_true, if_false, hc.1,
        hc.2]
      exact ⟨rfl, rfl⟩
    | true =>
      rw [hfit] at hc
      obtain ⟨⟨b, t⟩, ⟨b', t'⟩, hx, hy, hb, ht⟩ := hc
      have hcs := evaluateAll_agree ih cs (h.2 hfit)
      rw [List.all_cons, hfit, Bool.true_and]
      cases hall : cs.all (fits f) with
      | false =>
        rw [hall] at hcs
        simp only [Agree, Bool.false_eq_true, if_false] at hcs ⊢
        simp_all [bind, Except.bind]
      | true =>
        rw [hall] at hcs
        obtain ⟨⟨bs, ts⟩, ⟨bs', ts'⟩, hxs, hys, hbs, hts⟩ := hcs
        rw [hx, hy]
        simp only [bind, Except.bind]
        rw [hxs, hys]
        refine ⟨_, _, rfl, rfl, ?_, ?_⟩
        · simp only at hb hbs ⊢; rw [hb, hbs]
        simp_all [passedConditions_append]

/-- A sound child of a NOT is what `node.get("child") or {}` yields; beyond the
    bound it makes no difference. -/
theorem evaluateNode_orElse {f : ℕ} {child : Value} (h : Sound f child) (i : String) :
    evaluateNode py leaf f (Value.orElse (some child) (.dict [])) i =
      evaluateNode py leaf f child i := by
  cases f with
  | zero => rfl
  | succ f =>
    have hk : kind child ≠ .other := by
      intro hk
      simp only [Sound, hk] at h
    obtain ⟨kvs, -, ht⟩ := kind_asDict hk
    simp only [Value.orElse, ht, if_true]

theorem iterate_plain {node : Value} {cs : List Value} (h : plainChildren node = some cs) :
    iterate (node.field "children") = .ok cs ∧
      ((node.field "children").bind Value.asList).getD [] = cs := by
  unfold plainChildren at h
  split at h
  · rename_i hf
    cases h
    rw [hf]
    exact ⟨rfl, rfl⟩
  · rename_i hf
    cases h
    rw [hf]
    exact ⟨rfl, rfl⟩
  · rename_i hf
    cases h
    rw [hf]
    exact ⟨rfl, rfl⟩
  · rename_i hf
    cases h
    rw [hf]
    exact ⟨rfl, rfl⟩
  · cases h

theorem foldl_and (bs : List Bool) (b : Bool) :
    bs.foldl (fun p r => p && r) b = (b && bs.all id) := by
  induction bs generalizing b with
  | nil => simp
  | cons c cs ih => rw [List.foldl_cons, ih, List.all_cons, id, Bool.and_assoc]

theorem foldl_or (bs : List Bool) (b : Bool) :
    bs.foldl (fun p r => p || r) b = (b || bs.any id) := by
  induction bs generalizing b with
  | nil => simp
  | cons c cs ih => rw [List.foldl_cons, ih, List.any_cons, id, Bool.or_assoc]

theorem combine_plain {node : Value} {bs : List Bool} (h : PlainLogic node ∨ bs.length = 1) :
    (if pyLogic py node = "AND" then bs.all id else bs.any id) =
      bs.foldl (fun p r => if rootLogic node = "OR" then p || r else p && r)
        (!decide (rootLogic node = "OR")) := by
  rcases h with h | h
  · have hl : pyLogic py node = rootLogic node ∧
        (rootLogic node = "AND" ∨ rootLogic node = "OR") := by
      unfold PlainLogic at h
      split at h
      · rename_i hf
        simp only [pyLogic, rootLogic, hf]
        exact ⟨rfl, Or.inl (by decide)⟩
      · rename_i hf
        simp only [pyLogic, rootLogic, hf]
        exact ⟨rfl, h⟩
      · exact h.elim
    rw [hl.1]
    rcases hl.2 with he | he
    · have : ("AND" : String) ≠ "OR" := by decide
      simp only [he, if_true, this, if_false, decide_false, Bool.not_false]
      rw [foldl_and, Bool.true_and]
    · have : ("OR" : String) ≠ "AND" := by decide
      simp only [he, this, if_false, if_true, decide_true, Bool.not_true]
      rw [foldl_or, Bool.false_or]
  · obtain ⟨b, rfl⟩ := List.length_eq_one_iff.mp h
    by_cases hr : rootLogic node = "OR" <;> simp [hr]

theorem evaluateAll_length {ε : Type} {eval : Value → Except ε (Bool × Trace)} :
    ∀ {cs : List Value} {bs : List Bool} {t : Trace}, evaluateAll eval cs = .ok (bs, t) →
      bs.length = cs.length
  | [], bs, t, h => by
    cases h
    rfl
  | c :: cs, bs, t, h => by
    unfold evaluateAll at h
    cases hc : eval c with
    | error e => rw [hc] at h; cases h
    | ok p =>
      cases hcs : evaluateAll eval cs with
      | error e => rw [hc, hcs] at h; cases h
      | ok q =>
        rw [hc, hcs] at h
        cases h
        exact congrArg (· + 1) (evaluateAll_length (t := q.2) hcs)

theorem sound_agree (f : ℕ) (node : Value) (i j : String) (h : Sound f node) :
    Agree SameNode (fits f node) (evaluateNode py leaf f node i) (evalNode leaf f node j) := by
  induction f generalizing node i j with
  | zero => exact ⟨rfl, rfl⟩
  | succ f ih =>
    have hk : kind node ≠ .other := by
      intro hk
      simp only [Sound, hk] at h
    obtain ⟨kvs, hd, -⟩ := kind_asDict hk
    have hd : node.asDict = some kvs := by rw [hd]; rfl
    unfold evaluateNode evalNode fits
    unfold Sound at h
    simp only [hd]
    cases hkind : kind node with
    | condition =>
      refine ⟨_, _, rfl, rfl, rfl, ?_⟩
      simp only [Trace.passedConditions, List.filter_cons, List.filter_nil]
      split <;> rfl
    | other => exact absurd hkind hk
    | not =>
      simp only [hkind] at h
      obtain ⟨child, hchild, hs⟩ := h
      have hc := ih child "NOT" "NOT" hs
      simp only [hchild, Option.all_some]
      rw [evaluateNode_orElse py leaf hs]
      cases hfit : fits f child with
      | false =>
        rw [hfit] at hc
        simp only [Agree, Bool.false_eq_true, if_false] at hc ⊢
        rw [hc.1, hc.2]
        exact ⟨rfl, rfl⟩
      | true =>
        rw [hfit] at hc
        obtain ⟨⟨b, t⟩, ⟨b', t'⟩, hx, hy, hb, ht⟩ := hc
        rw [hx, hy]
        refine ⟨_, _, rfl, rfl, ?_, ?_⟩
        · exact congrArg (!·) hb
        · simp only [passedConditions_append, passedConditions_groups]
          exact congrArg (· + 0) ht
    | group =>
      simp only [hkind] at h
      obtain ⟨cs, hcs, hall, hl⟩ := h
      obtain ⟨hit, hget⟩ := iterate_plain hcs
      have hsub := evaluateAll_agree py leaf
        (fun c hc => ih c (pyLogic py node) (rootLogic node) hc) cs hall
      simp only [hcs, Option.getD_some, hit, hget]
      cases hfit : cs.all (fits f) with
      | false =>
        rw [hfit] at hsub
        simp only [Agree, Bool.false_eq_true, if_false] at hsub ⊢
        simp_all [bind, Except.bind]
      | true =>
        rw [hfit] at hsub
        obtain ⟨⟨bs, t⟩, ⟨bs', t'⟩, hx, hy, hb, ht⟩ := hsub
        have hlen : bs.length = cs.length := evaluateAll_length hx
        simp only [bind, Except.bind]
        rw [hx, hy]
        refine ⟨_, _, rfl, rfl, ?_, ?_⟩
        · simp_all [combine_plain]
        · simp only [passedConditions_append, passedConditions_groups]
          exact congrArg (· + 0) ht

/-- What a caller is promised: both evaluations exceed the depth, or they return
    the same flag, the same outcome and as many passed conditions. -/
def SameResult (x : Except PyError Result) (y : Except EvalError Result) : Prop :=
  (x = .error .depthExceeded ∧ y = .error .depthExceeded) ∨
    ∃ a b, x = .ok a ∧ y = .ok b ∧ a.passed = b.passed ∧ a.outcome = b.outcome ∧
      a.passedConditions = b.passedConditions

theorem outcome_plain {tree : Value} (h : PlainOutcomes tree) (passed : Bool) :
    (if passed then py.str ((tree.field "onPass").getD (.str "approve"))
      else py.str ((tree.field "onFail").getD (.str "reject"))) = treeOutcome tree passed := by
  have key : ∀ k ∈ ["onPass", "onFail"], ∀ d, py.str ((tree.field k).getD (.str d)) =
      ((tree.field k).bind Value.asStr).getD d := by
    intro k hk d
    cases hf : tree.field k with
    | none => rfl
    | some v =>
      obtain ⟨s, rfl⟩ := h k hk v hf
      rfl
  cases passed with
  | false => exact key "onFail" (by simp) "reject"
  | true => exact key "onPass" (by simp) "approve"

/-- The engines return the same result on every sound tree, at every depth. -/
theorem trees_agree (tree : Value) (h : SoundTree tree) :
    SameResult (evaluateRuleTree py leaf tree) (evaluateTreeTraced leaf tree) := by
  have hn := sound_agree py leaf (MAX_RULE_TREE_DEPTH + 1) tree (pyLogic py tree)
    (rootLogic tree) h.nodes
  have hk : kind tree ≠ .other := by
    intro hk
    have := h.nodes
    simp only [Sound, hk] at this
  obtain ⟨kvs, hd, -⟩ := kind_asDict hk
  have hd : tree.asDict = some kvs := by rw [hd]; rfl
  unfold evaluateRuleTree evaluateTreeTraced
  simp only [hd]
  cases hfit : fits (MAX_RULE_TREE_DEPTH + 1) tree with
  | false =>
    rw [hfit] at hn
    simp only [Agree, Bool.false_eq_true, if_false] at hn
    rw [hn.1, hn.2]
    exact Or.inl ⟨rfl, rfl⟩
  | true =>
    rw [hfit] at hn
    obtain ⟨⟨b, t⟩, ⟨b', t'⟩, hx, hy, hb, ht⟩ := hn
    have hb : b = b' := hb
    subst hb
    rw [hx, hy]
    exact Or.inr ⟨_, _, rfl, rfl, rfl, outcome_plain py (h.outcomes hfit) b, ht⟩

end Agreement

section Degenerate
variable (py : PyText) (leaf : Value → Bool) {f : ℕ} {node : Value} (i j : String)

end Degenerate

/-! ### A sound tree, and one that is not -/

/-- A policy of one condition, one negation and an OR of the two, nested. -/
def soundExample : Value :=
  .dict [("type", .str "group"), ("logic", .str "or"), ("onFail", .str "review"),
    ("children", .list [
      .dict [("type", .str "condition"), ("variable", .str "score")],
      .dict [("type", .str "not"), ("child",
        .dict [("type", .str "group"), ("children", .list [])])]])]

theorem soundExample_sound : SoundTree soundExample := by
  refine ⟨⟨_, rfl, ⟨?_, fun _ => ⟨?_, fun _ => trivial⟩⟩, fun _ => Or.inl (Or.inr rfl)⟩, fun _ => ?_⟩
  · exact trivial
  · exact ⟨_, rfl, _, rfl, trivial, fun _ => Or.inl trivial⟩
  · intro k hk v hv
    simp only [List.mem_cons, List.not_mem_nil, or_false] at hk
    rcases hk with rfl | rfl
    · cases hv
    · cases hv
      exact ⟨_, rfl⟩

theorem soundExample_agrees :
    SameResult (evaluateRuleTree asciiText (fun _ => false) soundExample)
      (evaluateTreeTraced (fun _ => false) soundExample) :=
  trees_agree asciiText (fun _ => false) soundExample soundExample_sound

/-- A negation of nothing: true in Python, false in Rust. -/
def notWithoutChild : Value := .dict [("type", .str "not")]

theorem notWithoutChild_disagrees :
    ¬ SameResult (evaluateRuleTree asciiText (fun _ => false) notWithoutChild)
      (evaluateTreeTraced (fun _ => false) notWithoutChild) := by
  rintro (⟨h, -⟩ | ⟨a, b, ha, hb, hp, -⟩)
  · cases h
  · cases ha
    cases hb
    cases hp

end RuleMind.RuleTree
