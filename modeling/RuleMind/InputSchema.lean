/-
  What a source's payload is checked against: `app/input_schema.py`.
-/
import Mathlib.Data.List.Sort
import RuleMind.Value

namespace RuleMind.InputSchema

/-! ### Schemas -/

inductive Kind
  | null
  | boolean
  | number
  | string
  | array
  | object
  deriving DecidableEq

def Kind.text : Kind → String
  | .null => "null"
  | .boolean => "boolean"
  | .number => "number"
  | .string => "string"
  | .array => "array"
  | .object => "object"

def kind : Value → Kind
  | .null => .null
  | .bool _ => .boolean
  | .int _ | .float _ | .inf _ => .number
  | .str _ => .string
  | .list _ => .array
  | .dict _ => .object

structure SchemaNode where
  kinds : List Kind
  children : List (String × SchemaNode)
  item : Option SchemaNode
  required : Bool

/-- `SchemaNode()`. -/
def SchemaNode.fresh : SchemaNode := ⟨[], [], none, false⟩

/-- An entry of a dictionary, replaced or added at its end. -/
def setEntry {α : Type} (name : String) (a : α) : List (String × α) → List (String × α)
  | [] => [(name, a)]
  | (key, b) :: rest => if key = name then (key, a) :: rest else (key, b) :: setEntry name a rest

namespace SchemaNode

/-- `node.kinds.add`. -/
def addKind (k : Kind) (node : SchemaNode) : SchemaNode :=
  { node with kinds := if k ∈ node.kinds then node.kinds else node.kinds ++ [k] }

/-- A child, or the node that `setdefault` would put there. -/
def child (node : SchemaNode) (name : String) : SchemaNode := (node.children.lookup name).getD fresh

/-- A change of `node.children.setdefault(name, SchemaNode())`. -/
def onChild (name : String) (f : SchemaNode → SchemaNode) (node : SchemaNode) : SchemaNode :=
  { node with children := setEntry name (f (node.child name)) node.children }

def itemNode (node : SchemaNode) : SchemaNode := node.item.getD fresh

def onItem (f : SchemaNode → SchemaNode) (node : SchemaNode) : SchemaNode :=
  { node with item := some (f node.itemNode) }

end SchemaNode

open SchemaNode (fresh)

mutual

def absorbSample : Value → SchemaNode → SchemaNode
  | .null, node => node
  | .dict kvs, node => absorbFields kvs (node.addKind .object)
  | .list vs, node => absorbItems vs ((node.addKind .array).onItem id)
  | v, node => node.addKind (kind v)

def absorbFields : List (String × Value) → SchemaNode → SchemaNode
  | [], node => node
  | (key, v) :: kvs, node => absorbFields kvs (node.onChild key (absorbSample v))

def absorbItems : List Value → SchemaNode → SchemaNode
  | [], node => node
  | v :: vs, node => absorbItems vs (node.onItem (absorbSample v))

end

/-- A part of a path: a name, and whether it is marked as an array. -/
structure Segment where
  name : String
  array : Bool

/-- `_SEGMENT_RE`, which a line break at the end does not hinder. -/
def segmentMatches (cs : List Char) : Bool :=
  let line := if cs.getLast? = some '\n' then cs.dropLast else cs
  let name := if ['[', ']'].isSuffixOf line then line.dropLast.dropLast else line
  match name with
  | [] => false
  | c :: rest => (c.isAlpha || c == '_') && rest.all fun c => c.isAlphanum || c == '_' || c == '-'

def segmentOf (cs : List Char) : Segment :=
  if ['[', ']'].isSuffixOf cs then ⟨String.ofList cs.dropLast.dropLast, true⟩
  else ⟨String.ofList cs, false⟩

/-- The segments of a path; nothing where it is no path. -/
def segments (rawPath : String) : Option (List Segment) :=
  let parts := (rawPath.toList.splitOn '.').filter (· ≠ [])
  if parts ≠ [] ∧ parts.all segmentMatches = true then some (parts.map segmentOf) else none

/-- The loop of `_declare_path`. -/
def declare : List Segment → SchemaNode → SchemaNode
  | [], node => node
  | segment :: rest, node =>
    let inner (node : SchemaNode) :=
      declare rest (if rest.isEmpty then node else node.addKind .object)
    node.onChild segment.name fun child =>
      let child := { child with required := true }
      if segment.array then (child.addKind .array).onItem inner else inner child

def declarePath (node : SchemaNode) (rawPath : String) : SchemaNode :=
  match segments rawPath with
  | some segs => declare segs node
  | none => node

structure Connector where
  schemaPaths : List String
  samplePayload : Value

def sampleRoot (sample : Value) (root : SchemaNode) : SchemaNode :=
  match sample with
  | .dict kvs => absorbSample (.dict kvs) root
  | _ => root

def buildSourceSchema (connector : Connector) : Option SchemaNode :=
  let root := sampleRoot connector.samplePayload
    (connector.schemaPaths.foldl declarePath { fresh with kinds := [.object] })
  if root.children.isEmpty then none else some root

def declaredTopLevelFields (connector : Connector) : List String :=
  connector.schemaPaths ++
    match connector.samplePayload with
    | .dict kvs => kvs.map Prod.fst
    | _ => []

/-! ### Issues -/

inductive IssueKind
  | unknownKey
  | wrongType
  | missingRequired
  deriving DecidableEq

def IssueKind.text : IssueKind → String
  | .unknownKey => "unknown_key"
  | .wrongType => "wrong_type"
  | .missingRequired => "missing_required"

structure InputIssue where
  kind : IssueKind
  path : String
  message : String
  sourceId : String
  deriving DecidableEq

inductive Mode
  | off
  | warn
  | enforce
  deriving DecidableEq

inductive UnknownKeys
  | ignore
  | warn
  | reject
  deriving DecidableEq

structure ValidationSettings where
  mode : Mode
  unknownKeys : UnknownKeys

def ValidationSettings.blocks (settings : ValidationSettings) (issue : InputIssue) : Bool :=
  if settings.mode ≠ .enforce then false
  else if issue.kind = .unknownKey then settings.unknownKeys = .reject
  else true

/-- `Expected a or b, got c.` -/
def wrongType (node : SchemaNode) (got : Kind) (path sourceId : String) : InputIssue :=
  ⟨.wrongType, path, "Expected " ++
    String.intercalate " or " ((node.kinds.map Kind.text).insertionSort (· ≤ ·)) ++
    ", got " ++ got.text ++ ".", sourceId⟩

def join (path key : String) : String := if path = "" then key else path ++ "." ++ key

section Validate
variable (sourceId : String) (authoritative : Bool) (unknownKeys : UnknownKeys)

def missingField (path key : String) : InputIssue :=
  ⟨.missingRequired, join path key,
    "Required field is missing; it would resolve to null, and null compares False " ++
      "against every operator.", sourceId⟩

def missing (node : SchemaNode) (kvs : List (String × Value)) (path : String) : List InputIssue :=
  if authoritative then
    (node.children.filter fun child => child.2.required && (kvs.lookup child.1).isNone).map
      fun child => missingField sourceId path child.1
  else []

mutual

def validateNode : Value → SchemaNode → String → List InputIssue
  | .null, node, path =>
    if authoritative && node.required then
      [⟨.missingRequired, path,
        "Required field is present but null; a null input silently changes gate outcomes.",
        sourceId⟩]
    else []
  | .dict kvs, node, path =>
    if node.kinds ≠ [] ∧ .object ∉ node.kinds then [wrongType node .object path sourceId]
    -- `_validate_object`: an object of which nothing is known is not looked into
    else if node.children.isEmpty then []
    else validateFields kvs node path ++ missing sourceId authoritative node kvs path
  | .list vs, node, path =>
    if node.kinds ≠ [] ∧ .array ∉ node.kinds then [wrongType node .array path sourceId]
    else match node.item with
      | none => []
      | some item => validateItems vs item path 0
  | v, node, path =>
    if node.kinds ≠ [] ∧ kind v ∉ node.kinds then [wrongType node (kind v) path sourceId] else []

def validateFields : List (String × Value) → SchemaNode → String → List InputIssue
  | [], _, _ => []
  | (key, v) :: kvs, node, path =>
    (match node.children.lookup key with
      | none =>
        if unknownKeys = .ignore then []
        else [⟨.unknownKey, join path key,
          "Unknown key — no such field in this source's schema (likely a typo).", sourceId⟩]
      | some child => validateNode v child (join path key)) ++ validateFields kvs node path

def validateItems : List Value → SchemaNode → String → ℕ → List InputIssue
  | [], _, _, _ => []
  | v :: vs, item, path, index =>
    validateNode v item (path ++ "[" ++ index.repr ++ "]") ++ validateItems vs item path (index + 1)

end

def validateObject (node : SchemaNode) (kvs : List (String × Value)) (path : String) :
    List InputIssue :=
  if node.children.isEmpty then []
  else validateFields sourceId authoritative unknownKeys kvs node path ++
    missing sourceId authoritative node kvs path

end Validate

/-- A flat field, by the first of its owners that knows its kinds. -/
def validateOwners (schemas : String → Option SchemaNode) (key : String) (v : Value) :
    List String → List InputIssue
  | [] => []
  | owner :: owners =>
    match (schemas owner).bind fun node => node.children.lookup key with
    | none => validateOwners schemas key v owners
    | some child =>
      if child.kinds = [] then validateOwners schemas key v owners
      else if kind v ≠ .null ∧ kind v ∉ child.kinds then [wrongType child (kind v) key owner]
      else []

def validateFlat (flatFields : Dict) (connectors : List (String × Connector))
    (schemas : String → Option SchemaNode) (settings : ValidationSettings) : List InputIssue :=
  flatFields.flatMap fun (key, v) =>
    let owners := ((connectors.filter fun c => key ∈ declaredTopLevelFields c.2).map
      Prod.fst).insertionSort (· ≤ ·)
    if owners = [] then
      if settings.unknownKeys = .ignore then []
      else [⟨.unknownKey, key,
        "Unknown top-level field — no source declares it, so it reaches no variable.", ""⟩]
    else validateOwners schemas key v owners

def isSource (connectors : List (String × Connector)) (entry : String × Value) : Bool :=
  (connectors.lookup entry.1).isSome && kind entry.2 = .object

def issueOrder (a b : InputIssue) : Prop :=
  a.path < b.path ∨ a.path = b.path ∧ a.kind.text ≤ b.kind.text

instance : DecidableRel issueOrder := fun a b =>
  inferInstanceAs (Decidable (a.path < b.path ∨ a.path = b.path ∧ a.kind.text ≤ b.kind.text))

def schemasOf (connectors : List (String × Connector)) (id : String) : Option SchemaNode :=
  (connectors.lookup id).bind buildSourceSchema

def validatePayload (payload : Dict) (connectors : List (String × Connector))
    (settings : ValidationSettings) : List InputIssue :=
  if settings.mode = .off then []
  else
    let schemas := schemasOf connectors
    let issues := (payload.filter (isSource connectors)).flatMap fun entry =>
      match schemas entry.1, entry.2 with
      | some schema, .dict kvs =>
        validateObject entry.1 true settings.unknownKeys schema kvs entry.1
      | _, _ => []
    let flatFields := payload.filter fun entry => !isSource connectors entry
    (issues ++ validateFlat flatFields connectors schemas settings).insertionSort issueOrder

/-! ### Paths as steps -/

/-- Into an object by a name, or into an array, to any of its elements. -/
inductive Step
  | key (name : String)
  | item
  deriving DecidableEq

def Step.container : Step → Kind
  | .key _ => .object
  | .item => .array

def steps : List Segment → List Step
  | [] => []
  | segment :: rest =>
    .key segment.name :: if segment.array then .item :: steps rest else steps rest

/-- The node that steps lead to; one of which nothing is known where there is none. -/
def nodeAt : List Step → SchemaNode → SchemaNode
  | [], node => node
  | .key name :: rest, node => nodeAt rest (node.child name)
  | .item :: rest, node => nodeAt rest node.itemNode

/-- What a value has where steps lead, at any elements. -/
def valuesAt : List Step → Value → List Value
  | [], v => [v]
  | .key name :: rest, .dict kvs =>
    (kvs.filter fun kv => kv.1 = name).flatMap fun kv => valuesAt rest kv.2
  | .item :: rest, .list vs => vs.flatMap (valuesAt rest)
  | _ :: _, _ => []

def Observed (sample : Value) (addr : List Step) (k : Kind) : Prop :=
  ∃ w ∈ valuesAt addr sample, w ≠ .null ∧ kind w = k

/-- A path goes on from there, into a value of this kind. -/
def Declares (path addr : List Step) (k : Kind) : Prop :=
  ∃ (step : Step) (rest : List Step), path = addr ++ step :: rest ∧ k = step.container

section Nodes
variable {node : SchemaNode} {k : Kind} {name : String} {rest addr : List Step}

theorem lookup_setEntry {α : Type} (name : String) (a : α) (entries : List (String × α))
    (key : String) : (setEntry name a entries).lookup key =
      if key = name then some a else entries.lookup key := by
  induction entries with
  | nil => grind [setEntry]
  | cons entry entries ih => grind [setEntry]

@[simp] theorem child_onChild (f : SchemaNode → SchemaNode) (name' : String) :
    (node.onChild name f).child name' =
      if name' = name then f (node.child name) else node.child name' := by
  rw [SchemaNode.child, SchemaNode.onChild, lookup_setEntry]
  by_cases h : name' = name
  · simp [h]
  · simp [h, SchemaNode.child]

@[simp] theorem kinds_onChild (f : SchemaNode → SchemaNode) :
    (node.onChild name f).kinds = node.kinds := rfl

@[simp] theorem itemNode_onChild (f : SchemaNode → SchemaNode) :
    (node.onChild name f).itemNode = node.itemNode := rfl

@[simp] theorem required_onChild (f : SchemaNode → SchemaNode) :
    (node.onChild name f).required = node.required := rfl

@[simp] theorem itemNode_onItem (f : SchemaNode → SchemaNode) :
    (node.onItem f).itemNode = f node.itemNode := rfl

@[simp] theorem child_onItem (f : SchemaNode → SchemaNode) (name : String) :
    (node.onItem f).child name = node.child name := rfl

@[simp] theorem kinds_onItem (f : SchemaNode → SchemaNode) :
    (node.onItem f).kinds = node.kinds := rfl

@[simp] theorem required_onItem (f : SchemaNode → SchemaNode) :
    (node.onItem f).required = node.required := rfl

variable {k' : Kind}

@[simp] theorem mem_addKind : k ∈ (node.addKind k').kinds ↔ k ∈ node.kinds ∨ k = k' := by
  rw [SchemaNode.addKind]
  split
  · constructor
    · exact .inl
    · rintro (h | rfl)
      · exact h
      · assumption
  · rw [List.mem_append, List.mem_singleton]

@[simp] theorem child_addKind (name : String) :
    (node.addKind k').child name = node.child name := rfl

@[simp] theorem itemNode_addKind : (node.addKind k').itemNode = node.itemNode := rfl

@[simp] theorem required_addKind : (node.addKind k').required = node.required := rfl

theorem nodeAt_addKind :
    k ∈ (nodeAt addr (node.addKind k')).kinds ↔
      k ∈ (nodeAt addr node).kinds ∨ addr = [] ∧ k = k' := by
  cases addr with
  | nil => simp [nodeAt]
  | cons step rest => cases step <;> simp [nodeAt]

theorem required_nodeAt_addKind :
    (nodeAt addr (node.addKind k')).required = (nodeAt addr node).required := by
  cases addr with
  | nil => rfl
  | cons step rest => cases step <;> rfl

end Nodes

/-! ### What a path adds -/

section Declare
variable {k : Kind}

/-- The rest of a path, from the node that it is declared at. -/
def declareFrom (rest : List Segment) (node : SchemaNode) : SchemaNode :=
  declare rest (if rest.isEmpty then node else node.addKind .object)

theorem declare_cons (segment : Segment) (rest : List Segment) (node : SchemaNode) :
    declare (segment :: rest) node = node.onChild segment.name fun child =>
      if segment.array then
        (SchemaNode.addKind .array { child with required := true }).onItem (declareFrom rest)
      else declareFrom rest { child with required := true } :=
  rfl

variable {path addr : List Step} {step : Step}

theorem declares_head : Declares (step :: path) [] k ↔ k = step.container := by
  constructor
  · rintro ⟨next, rest, h, hk⟩
    rw [List.nil_append, List.cons.injEq] at h
    rw [hk, h.1]
  · exact fun hk => ⟨step, path, rfl, hk⟩

theorem not_declares_nil : ¬ Declares [] addr k := by
  rintro ⟨step, rest, h, -⟩
  simp_all

theorem declares_nil (rest : List Segment) :
    Declares (steps rest) [] k ↔ rest.isEmpty = false ∧ k = .object := by
  cases rest with
  | nil => simp [steps, not_declares_nil]
  | cons segment rest =>
    rw [steps, declares_head]
    simp [Step.container]

theorem declares_cons {step' : Step} :
    Declares (step :: path) (step' :: addr) k ↔ step = step' ∧ Declares path addr k := by
  grind [Declares]

theorem kinds_nodeAt_required {node : SchemaNode} :
    (nodeAt addr { node with required := true }).kinds = (nodeAt addr node).kinds := by
  cases addr with
  | nil => rfl
  | cons step rest => cases step <;> rfl

theorem kinds_declare (segs : List Segment) : ∀ (node : SchemaNode) (addr : List Step),
    k ∈ (nodeAt addr (declare segs node)).kinds ↔
      k ∈ (nodeAt addr node).kinds ∨ addr ≠ [] ∧ Declares (steps segs) addr k := by
  induction segs with
  | nil =>
    intro node addr
    simp [declare, steps, not_declares_nil]
  | cons segment rest ih =>
    -- from the node that the rest starts at, its own kind is added too
    have hrest : ∀ (node : SchemaNode) (addr : List Step),
        k ∈ (nodeAt addr (declareFrom rest node)).kinds ↔
          k ∈ (nodeAt addr node).kinds ∨ Declares (steps rest) addr k := by
      intro node addr
      rw [declareFrom, ih]
      cases addr with
      | nil =>
        rw [declares_nil]
        cases rest with
        | nil => simp [nodeAt]
        | cons segment rest => simp [nodeAt]
      | cons step addr =>
        have hnode : k ∈ (nodeAt (step :: addr)
            (if rest.isEmpty then node else node.addKind .object)).kinds ↔
              k ∈ (nodeAt (step :: addr) node).kinds := by
          split
          · exact Iff.rfl
          · simp [nodeAt_addKind]
        rw [hnode]
        simp
    intro node addr
    rw [declare_cons]
    cases addr with
    | nil => simp [nodeAt]
    | cons step addr =>
      cases step with
      | item => simp [nodeAt, steps, declares_cons]
      | key name =>
        rw [nodeAt, child_onChild]
        by_cases hname : name = segment.name
        · rw [if_pos hname, hname]
          by_cases harray : segment.array = true
          · rw [if_pos harray, steps, if_pos harray, declares_cons, nodeAt]
            cases addr with
            | nil => simp [nodeAt, declares_head, Step.container]
            | cons step addr =>
              cases step with
              | item =>
                rw [nodeAt, itemNode_onItem, hrest, itemNode_addKind, declares_cons, nodeAt]
                simp [SchemaNode.itemNode]
              | key name =>
                rw [nodeAt, child_onItem, child_addKind, declares_cons, nodeAt]
                simp [SchemaNode.child]
          · simp_all [steps, declares_cons, nodeAt, kinds_nodeAt_required]
        · rw [if_neg hname]
          simp [nodeAt, steps, declares_cons, Ne.symm hname]

/-- A path requires what stands there under a name. -/
def Requires (path addr : List Step) : Prop :=
  ∃ before name rest, addr = before ++ [Step.key name] ∧ path = addr ++ rest

theorem not_requires_nil : ¬ Requires path [] := by
  rintro ⟨before, name, rest, h, -⟩
  simp_all

theorem requires_cons {step' : Step} (h : Requires (step :: path) (step' :: addr)) :
    step = step' ∧ (Requires path addr ∨ addr = []) := by
  obtain ⟨before, name, rest, haddr, hpath⟩ := h
  rw [List.cons_append, List.cons.injEq] at hpath
  refine ⟨hpath.1, ?_⟩
  cases before with
  | nil => simp_all
  | cons first before =>
    rw [List.cons_append, List.cons.injEq] at haddr
    exact .inl ⟨before, name, rest, haddr.2, hpath.2⟩

theorem required_declare (segs : List Segment) : ∀ (node : SchemaNode) (addr : List Step),
    (nodeAt addr node).required = true ∨ Requires (steps segs) addr →
      (nodeAt addr (declare segs node)).required = true := by
  induction segs with
  | nil =>
    rintro node addr (h | h)
    · exact h
    · obtain ⟨before, name, rest, haddr, hpath⟩ := h
      rw [haddr] at hpath
      simp [steps] at hpath
  | cons segment rest ih =>
    have hrest : ∀ (node : SchemaNode) (addr : List Step),
        (nodeAt addr node).required = true ∨ Requires (steps rest) addr →
          (nodeAt addr (declareFrom rest node)).required = true := by
      intro node addr h
      refine ih _ addr (h.imp_left fun h => ?_)
      split
      · exact h
      · rw [required_nodeAt_addKind, h]
    intro node addr h
    rw [declare_cons]
    cases addr with
    | nil => exact h.resolve_right not_requires_nil
    | cons step addr =>
      have hpath : Requires (steps (segment :: rest)) (step :: addr) →
          .key segment.name = step ∧ (Requires (if segment.array then .item :: steps rest
            else steps rest) addr ∨ addr = []) := requires_cons
      cases step with
      | item =>
        rcases h with h | h
        · exact h
        · cases (hpath h).1
      | key name =>
        rw [nodeAt, child_onChild]
        split
        · rename_i hname
          -- the child itself is required from now on
          cases addr with
          | nil =>
            split
            · rfl
            · exact hrest _ [] (.inl rfl)
          | cons step addr =>
            have hbelow : (nodeAt (step :: addr) (node.child segment.name)).required = true ∨
                Requires (if segment.array then .item :: steps rest else steps rest)
                  (step :: addr) := by
              rcases h with h | h
              · rw [nodeAt, hname] at h
                exact .inl h
              · simp_all
            split
            · rename_i harray
              rw [if_pos harray] at hbelow
              cases step with
              | item =>
                rw [nodeAt, itemNode_onItem, itemNode_addKind]
                refine hrest _ addr ?_
                rcases hbelow with h | h
                · exact .inl h
                · rcases (requires_cons h).2 with h | rfl
                  · exact .inr h
                  · obtain ⟨before, name, -, haddr, -⟩ := h
                    cases before <;> simp at haddr
              | key name' =>
                rcases hbelow with h | h
                · exact h
                · cases (requires_cons h).1
            · rename_i harray
              rw [if_neg harray] at hbelow
              refine hrest _ _ (hbelow.imp_left fun h => ?_)
              cases step <;> exact h
        · rename_i hname
          rcases h with h | h
          · exact h
          · simp_all

end Declare

/-! ### What a sample adds -/

section Absorb
variable {k : Kind}

variable {v : Value} {rest : List Step}

theorem observed_nil : Observed v [] k ↔ v ≠ .null ∧ k = kind v := by
  simp [Observed, valuesAt, eq_comm]

theorem observed_key {kvs : List (String × Value)} {name : String} :
    Observed (.dict kvs) (.key name :: rest) k ↔
      ∃ kv ∈ kvs, kv.1 = name ∧ Observed kv.2 rest k := by
  simp only [Observed, valuesAt, List.mem_flatMap, List.mem_filter, decide_eq_true_eq]
  constructor
  · rintro ⟨w, ⟨kv, ⟨hmem, hname⟩, hw⟩, h⟩
    exact ⟨kv, hmem, hname, w, hw, h⟩
  · rintro ⟨kv, hmem, hname, w, hw, h⟩
    exact ⟨w, ⟨kv, ⟨hmem, hname⟩, hw⟩, h⟩

theorem observed_item {vs : List Value} :
    Observed (.list vs) (.item :: rest) k ↔ ∃ v ∈ vs, Observed v rest k := by
  grind [Observed, valuesAt]

theorem not_observed_cons {step : Step}
    (h : kind v ≠ step.container) : ¬ Observed v (step :: rest) k := by
  rintro ⟨w, hw, -⟩
  cases step with
  | key name => cases v <;> first | exact h rfl | cases hw
  | item => cases v <;> first | exact h rfl | cases hw

theorem observed_scalar (hdict : kind v ≠ .object) (hlist : kind v ≠ .array)
    {addr : List Step} : Observed v addr k ↔ v ≠ .null ∧ addr = [] ∧ k = kind v := by
  cases addr with
  | nil => simp [observed_nil]
  | cons step rest =>
    refine iff_of_false (not_observed_cons ?_) (by simp)
    cases step with
    | key name => exact hdict
    | item => exact hlist

mutual

theorem kinds_absorb (v : Value) (node : SchemaNode) (addr : List Step) :
    k ∈ (nodeAt addr (absorbSample v node)).kinds ↔
      k ∈ (nodeAt addr node).kinds ∨ Observed v addr k := by
  match v with
  | .null =>
    rw [observed_scalar (by decide) (by decide)]
    simp [absorbSample]
  | .dict kvs =>
    rw [absorbSample, kinds_absorbFields kvs, nodeAt_addKind]
    cases addr with
    | nil => simp [observed_nil, kind]
    | cons step rest =>
      cases step with
      | key name => simp [observed_key]
      | item => grind [not_observed_cons, kind, Step.container]
  | .list vs =>
    rw [absorbSample, kinds_absorbItems vs]
    cases addr with
    | nil => simp [nodeAt, observed_nil, kind]
    | cons step rest =>
      cases step with
      | item => simp [nodeAt, observed_item]
      | key name =>
        have hno : ¬ Observed (.list vs) (.key name :: rest) k :=
          not_observed_cons (by simp [kind, Step.container])
        simp [nodeAt, hno]
  | .bool _ | .int _ | .float _ | .inf _ | .str _ =>
    rw [observed_scalar (by simp [kind]) (by simp [kind])]
    show k ∈ (nodeAt addr (node.addKind _)).kinds ↔ _
    rw [nodeAt_addKind]
    simp

theorem kinds_absorbFields (kvs : List (String × Value)) (node : SchemaNode) (addr : List Step) :
    k ∈ (nodeAt addr (absorbFields kvs node)).kinds ↔ k ∈ (nodeAt addr node).kinds ∨
      ∃ name rest, addr = .key name :: rest ∧ ∃ kv ∈ kvs, kv.1 = name ∧ Observed kv.2 rest k := by
  match kvs with
  | [] => simp [absorbFields]
  | (key, v) :: kvs =>
    rw [absorbFields, kinds_absorbFields kvs]
    cases addr with
    | nil => simp [nodeAt]
    | cons step rest =>
      cases step with
      | item => simp [nodeAt]
      | key name =>
        by_cases hname : name = key
        · simp [nodeAt, hname, kinds_absorb v, or_assoc]
        · simp [nodeAt, hname]

theorem kinds_absorbItems (vs : List Value) (node : SchemaNode) (addr : List Step) :
    k ∈ (nodeAt addr (absorbItems vs node)).kinds ↔ k ∈ (nodeAt addr node).kinds ∨
      ∃ rest, addr = .item :: rest ∧ ∃ v ∈ vs, Observed v rest k := by
  match vs with
  | [] => simp [absorbItems]
  | v :: vs =>
    rw [absorbItems, kinds_absorbItems vs]
    cases addr with
    | nil => simp [nodeAt]
    | cons step rest =>
      cases step with
      | item => simp [nodeAt, kinds_absorb v, or_assoc]
      | key name => simp [nodeAt]

end

mutual

theorem required_absorb (v : Value) (node : SchemaNode) (addr : List Step) :
    (nodeAt addr (absorbSample v node)).required = (nodeAt addr node).required := by
  match v with
  | .null => rfl
  | .dict kvs => rw [absorbSample, required_absorbFields kvs, required_nodeAt_addKind]
  | .list vs =>
    rw [absorbSample, required_absorbItems vs]
    cases addr with
    | nil => rfl
    | cons step rest => cases step <;> rfl
  | .bool _ | .int _ | .float _ | .inf _ | .str _ => exact required_nodeAt_addKind

theorem required_absorbFields (kvs : List (String × Value)) (node : SchemaNode) (addr : List Step) :
    (nodeAt addr (absorbFields kvs node)).required = (nodeAt addr node).required := by
  match kvs with
  | [] => rfl
  | (key, v) :: kvs =>
    rw [absorbFields, required_absorbFields kvs]
    cases addr with
    | nil => rfl
    | cons step rest =>
      cases step with
      | item => rfl
      | key name =>
        rw [nodeAt, child_onChild, nodeAt]
        split
        · rw [required_absorb v, ‹name = key›]
        · rfl

theorem required_absorbItems (vs : List Value) (node : SchemaNode) (addr : List Step) :
    (nodeAt addr (absorbItems vs node)).required = (nodeAt addr node).required := by
  match vs with
  | [] => rfl
  | v :: vs =>
    rw [absorbItems, required_absorbItems vs]
    cases addr with
    | nil => rfl
    | cons step rest =>
      cases step with
      | key name => rfl
      | item => rw [nodeAt, itemNode_onItem, required_absorb v, nodeAt]

end

end Absorb

/-! ### The schema of a source -/

section Build
variable {connector : Connector} {schema : SchemaNode}

/-- What a connector says of a place: that it goes on from there, or what its sample has there;
    the source itself is an object. -/
inductive Known (connector : Connector) : List Step → Kind → Prop
  | root : Known connector [] .object
  | declared {rawPath : String} {segs : List Segment} {addr : List Step} {k : Kind}
      (hmem : rawPath ∈ connector.schemaPaths) (hsegs : segments rawPath = some segs)
      (h : Declares (steps segs) addr k) : Known connector addr k
  | observed {kvs : List (String × Value)} {addr : List Step} {k : Kind}
      (hsample : connector.samplePayload = .dict kvs) (h : Observed (.dict kvs) addr k) :
      Known connector addr k

variable {addr : List Step} {k : Kind}

theorem kinds_declarePaths (paths : List String) :
    ∀ node : SchemaNode, k ∈ (nodeAt addr (paths.foldl declarePath node)).kinds ↔
      k ∈ (nodeAt addr node).kinds ∨ addr ≠ [] ∧ ∃ rawPath ∈ paths, ∃ segs,
        segments rawPath = some segs ∧ Declares (steps segs) addr k := by
  induction paths with
  | nil => simp
  | cons rawPath paths ih =>
    intro node
    rw [List.foldl_cons, ih, declarePath]
    cases hsegs : segments rawPath with
    | none => simp [hsegs]
    | some segs =>
      simp only [kinds_declare, List.exists_mem_cons_iff, hsegs, Option.some.injEq, exists_eq_left']
      tauto

theorem required_declarePaths (paths : List String) :
    ∀ node : SchemaNode, ((nodeAt addr node).required = true ∨ ∃ rawPath ∈ paths, ∃ segs,
        segments rawPath = some segs ∧ Requires (steps segs) addr) →
      (nodeAt addr (paths.foldl declarePath node)).required = true := by
  induction paths with
  | nil => simp
  | cons rawPath paths ih =>
    intro node h
    rw [List.foldl_cons]
    refine ih _ ?_
    rw [declarePath]
    cases hsegs : segments rawPath with
    | none => simpa [hsegs] using h
    | some segs =>
      rw [List.exists_mem_cons_iff, hsegs] at h
      grind -ring -linarith [required_declare]

theorem kinds_sampleRoot (sample : Value) (root : SchemaNode) :
    k ∈ (nodeAt addr (sampleRoot sample root)).kinds ↔ k ∈ (nodeAt addr root).kinds ∨
      ∃ kvs, sample = .dict kvs ∧ Observed (.dict kvs) addr k := by
  cases sample with
  | dict kvs => simp [sampleRoot, kinds_absorb]
  | _ => simp [sampleRoot]

theorem required_sampleRoot (sample : Value) (root : SchemaNode) :
    (nodeAt addr (sampleRoot sample root)).required = (nodeAt addr root).required := by
  cases sample with
  | dict kvs => exact required_absorb _ _ _
  | _ => rfl

theorem kinds_start :
    k ∈ (nodeAt addr { fresh with kinds := [.object] }).kinds ↔ addr = [] ∧ k = .object := by
  have hfresh : ∀ addr, nodeAt addr fresh = fresh := by
    intro addr
    induction addr with
    | nil => rfl
    | cons step rest ih => cases step <;> exact ih
  cases addr with
  | nil => simp [nodeAt]
  | cons step rest =>
    have hnone : nodeAt (step :: rest) { fresh with kinds := [.object] } = fresh := by
      cases step <;> exact hfresh rest
    rw [hnone]
    simp [SchemaNode.fresh]

theorem buildSourceSchema_eq (h : buildSourceSchema connector = some schema) :
    schema = sampleRoot connector.samplePayload
      (connector.schemaPaths.foldl declarePath { fresh with kinds := [.object] }) := by
  rw [buildSourceSchema] at h
  split at h
  · cases h
  · exact (Option.some.inj h).symm

theorem schema_kinds (h : buildSourceSchema connector = some schema) (addr : List Step)
    (k : Kind) : k ∈ (nodeAt addr schema).kinds ↔ Known connector addr k := by
  rw [buildSourceSchema_eq h, kinds_sampleRoot, kinds_declarePaths, kinds_start]
  constructor
  · rintro ((⟨rfl, rfl⟩ | ⟨-, rawPath, hmem, segs, hsegs, hk⟩) | ⟨kvs, hsample, hk⟩)
    · exact .root
    · exact .declared hmem hsegs hk
    · exact .observed hsample hk
  · intro hk
    cases hk with
    | root => exact .inl (.inl ⟨rfl, rfl⟩)
    | @declared rawPath segs _ _ hmem hsegs hk => grind [declares_nil]
    | observed hsample hk => exact .inr ⟨_, hsample, hk⟩

theorem schema_required (h : buildSourceSchema connector = some schema) {rawPath : String}
    {segs : List Segment} (hmem : rawPath ∈ connector.schemaPaths)
    (hsegs : segments rawPath = some segs) (hpath : Requires (steps segs) addr) :
    (nodeAt addr schema).required = true := by
  rw [buildSourceSchema_eq h, required_sampleRoot]
  grind -ring -linarith [required_declarePaths]

end Build

/-! ### What validation leaves -/

/-- At every value that a path comes to, through all the elements but those left out: each step
    on the way leads to something that is not null, and at the end there is what `P` says. -/
def Resolves (leftOut : Value → Bool) (P : Value → Prop) : List Step → Value → Prop
  | [], v => v ≠ .null ∧ P v
  | .key name :: rest, .dict kvs => ∃ w, kvs.lookup name = some w ∧ Resolves leftOut P rest w
  | .item :: rest, .list vs => ∀ v ∈ vs, leftOut v = false → Resolves leftOut P rest v
  | _ :: _, _ => False

section Clean
variable {sourceId : String} {unknownKeys : UnknownKeys}

/-- No issue blocks under enforcement, whatever is done about unknown keys. -/
def Clean (issues : List InputIssue) : Prop := ∀ issue ∈ issues, issue.kind = .unknownKey

theorem Clean.append {a b : List InputIssue} (h : Clean (a ++ b)) : Clean a ∧ Clean b :=
  ⟨fun issue hmem => h issue (List.mem_append_left _ hmem),
    fun issue hmem => h issue (List.mem_append_right _ hmem)⟩

/-- What is looked at once the kind of a value is right. -/
def validateInner (sourceId : String) (unknownKeys : UnknownKeys) (node : SchemaNode)
    (path : String) : Value → List InputIssue
  | .dict kvs => validateObject sourceId true unknownKeys node kvs path
  | .list vs =>
    match node.item with
    | none => []
    | some item => validateItems sourceId true unknownKeys vs item path 0
  | _ => []

variable {v : Value} {node : SchemaNode} {path name : String}

theorem validateNode_eq (hv : v ≠ .null) (node : SchemaNode) (path : String) :
    validateNode sourceId true unknownKeys v node path =
      if node.kinds ≠ [] ∧ kind v ∉ node.kinds then [wrongType node (kind v) path sourceId]
      else validateInner sourceId unknownKeys node path v := by
  cases v with
  | null => exact absurd rfl hv
  | dict kvs => rfl
  | list vs => rfl
  | bool b => rfl
  | int n => rfl
  | float q => rfl
  | inf neg => rfl
  | str s => rfl

theorem kind_of_clean (hv : v ≠ .null)
    (h : Clean (validateNode sourceId true unknownKeys v node path)) :
    (node.kinds = [] ∨ kind v ∈ node.kinds) ∧
      Clean (validateInner sourceId unknownKeys node path v) := by
  rw [validateNode_eq hv] at h
  split at h
  · cases h _ (List.mem_singleton_self _)
  grind

theorem mem_of_lookup {α : Type} {entries : List (String × α)} {a : α}
    (h : entries.lookup name = some a) : (name, a) ∈ entries := by
  induction entries with
  | nil => cases h
  | cons entry entries ih => grind

variable {kvs : List (String × Value)}

theorem clean_field {child : SchemaNode}
    {w : Value} (hmem : (name, w) ∈ kvs) (hchild : node.children.lookup name = some child)
    (h : Clean (validateFields sourceId true unknownKeys kvs node path)) :
    Clean (validateNode sourceId true unknownKeys w child (join path name)) := by
  induction kvs with
  | nil => cases hmem
  | cons kv kvs ih =>
    obtain ⟨key, v⟩ := kv
    rw [validateFields] at h
    rcases List.mem_cons.1 hmem with heq | hmem
    · rw [Prod.mk.injEq] at heq
      obtain ⟨rfl, rfl⟩ := heq
      rw [hchild] at h
      exact h.append.1
    · exact ih hmem h.append.2

theorem clean_item {vs : List Value} {item : SchemaNode} (hmem : v ∈ vs) {index : ℕ}
    (h : Clean (validateItems sourceId true unknownKeys vs item path index)) :
    ∃ path', Clean (validateNode sourceId true unknownKeys v item path') := by
  induction vs generalizing index with
  | nil => cases hmem
  | cons u vs ih =>
    rw [validateItems] at h
    rcases List.mem_cons.1 hmem with rfl | hmem
    · exact ⟨_, h.append.1⟩
    · exact ih hmem h.append.2

theorem clean_child (hrequired : (node.child name).required = true)
    (h : Clean (validateObject sourceId true unknownKeys node kvs path)) :
    ∃ w path', kvs.lookup name = some w ∧
      Clean (validateNode sourceId true unknownKeys w (node.child name) path') := by
  have hchild : node.children.lookup name = some (node.child name) := by
    cases hlookup : node.children.lookup name with
    | none =>
      rw [SchemaNode.child, hlookup] at hrequired
      cases hrequired
    | some child => rw [SchemaNode.child, hlookup, Option.getD_some]
  have hmem := mem_of_lookup hchild
  rw [validateObject] at h
  split at h
  · simp_all
  · obtain ⟨hfields, hmissing⟩ := h.append
    cases hw : kvs.lookup name with
    | some w => exact ⟨w, _, rfl, clean_field (mem_of_lookup hw) hchild hfields⟩
    | none =>
      have hissue : missingField sourceId path name ∈ missing sourceId true node kvs path := by
        rw [missing, if_pos rfl]
        refine List.mem_map.2 ⟨(name, node.child name), List.mem_filter.2 ⟨hmem, ?_⟩, rfl⟩
        simp [hrequired, hw]
      cases hmissing _ hissue

/-- What a schema is to be like along a path: each name is required, and each place on the way
    is of the kind that the path goes into, and of no other. -/
def Guides (node : SchemaNode) (path : List Step) : Prop :=
  (∀ addr, Requires path addr → (nodeAt addr node).required = true) ∧
    ∀ (addr : List Step) (step : Step) (rest : List Step), path = addr ++ step :: rest →
      ∀ k, k ∈ (nodeAt addr node).kinds ↔ k = step.container

theorem Guides.below {step : Step} {rest : List Step}
    (h : Guides node (step :: rest)) : Guides (nodeAt [step] node) rest := by
  have hnode : ∀ addr, nodeAt addr (nodeAt [step] node) = nodeAt (step :: addr) node := by
    intro addr
    cases step <;> rfl
  refine ⟨fun addr hrequires => ?_, fun addr step' rest' hpath k => ?_⟩
  · rw [hnode]
    obtain ⟨before, name, rest', rfl, hpath⟩ := hrequires
    exact h.1 _ ⟨step :: before, name, rest', rfl, by rw [hpath, List.cons_append]⟩
  · rw [hnode]
    exact h.2 _ step' rest' (by rw [hpath, List.cons_append]) k

theorem guides_fresh {path : List Step} (h : Guides fresh path) : path = [] := by
  cases path with
  | nil => rfl
  | cons step rest =>
    have hkind := (h.2 [] step rest rfl step.container).2 rfl
    cases hkind

/-- **What a clean value has.**  Where a schema guides along a path, a clean value has what the
    path asks for, through all the elements that are not null. -/
theorem clean_resolves {path : List Step} : ∀ {node : SchemaNode} {v : Value} {at' : String},
    Guides node path → v ≠ .null → Clean (validateNode sourceId true unknownKeys v node at') →
      Resolves Value.isNull
        (fun w => (nodeAt path node).kinds = [] ∨ kind w ∈ (nodeAt path node).kinds) path v := by
  induction path with
  | nil =>
    intro node v at' _ hv hclean
    exact ⟨hv, (kind_of_clean hv hclean).1⟩
  | cons step rest ih =>
    intro node v at' hguides hv hclean
    obtain ⟨hkinds, hinner⟩ := kind_of_clean hv hclean
    have hnode : ∀ k, k ∈ node.kinds ↔ k = step.container := hguides.2 [] step rest rfl
    have hkind : kind v = step.container := by
      rcases hkinds with h | h
      · simp_all
      · exact (hnode _).1 h
    have hbelow := hguides.below
    cases step with
    | key name =>
      cases v with
      | dict kvs =>
        have hrequired : (node.child name).required = true :=
          hguides.1 [.key name] ⟨[], name, rest, rfl, rfl⟩
        obtain ⟨w, path', hw, hclean⟩ := clean_child hrequired hinner
        refine ⟨w, hw, ih hbelow ?_ hclean⟩
        rintro rfl
        -- a required field that is null is an issue
        rw [validateNode, hrequired] at hclean
        cases hclean _ (List.mem_singleton_self _)
      | _ => cases hkind
    | item =>
      cases v with
      | list vs =>
        intro u hu hnull
        have hu' : u ≠ .null := by
          rintro rfl
          cases hnull
        rw [validateInner] at hinner
        cases hitem : node.item with
        | none =>
          have hfresh : nodeAt [.item] node = fresh := by
            rw [nodeAt, nodeAt, SchemaNode.itemNode, hitem, Option.getD_none]
          rw [hfresh] at hbelow
          rw [guides_fresh hbelow]
          refine ⟨hu', .inl ?_⟩
          show (nodeAt [.item] node).kinds = []
          rw [hfresh]
          rfl
        | some item => grind [nodeAt, SchemaNode.itemNode, clean_item]
      | _ => cases hkind

end Clean

/-! ### Enforced validation -/

section Enforced
variable {payload : Dict} {connectors : List (String × Connector)}
  {settings : ValidationSettings} {id : String} {connector : Connector}
  {kvs : List (String × Value)} {rawPath : String} {segs : List Segment}

theorem Resolves.imp {leftOut : Value → Bool} {P Q : Value → Prop} (hpq : ∀ w, P w → Q w)
    {path : List Step} : ∀ {v : Value}, Resolves leftOut P path v → Resolves leftOut Q path v := by
  induction path with
  | nil => exact fun h => ⟨h.1, hpq _ h.2⟩
  | cons step rest ih =>
    intro v h
    cases step with
    | key name =>
      cases v with
      | dict kvs =>
        obtain ⟨w, hw, h⟩ := h
        exact ⟨w, hw, ih h⟩
      | _ => exact h
    | item =>
      cases v with
      | list vs => exact fun u hu hleft => ih (h u hu hleft)
      | _ => exact h

theorem exists_schema (hmem : rawPath ∈ connector.schemaPaths)
    (hsegs : segments rawPath = some segs) :
    ∃ schema, buildSourceSchema connector = some schema := by
  rw [buildSourceSchema]
  split
  · -- with no child, the first name of the path would not be required
    rename_i hempty
    rw [List.isEmpty_iff] at hempty
    cases segs with
    | nil => grind [segments, List.map_eq_nil_iff]
    | cons segment rest =>
      have hrequires : Requires (steps (segment :: rest)) [.key segment.name] :=
        ⟨[], segment.name, _, rfl, rfl⟩
      have hrequired := required_declarePaths connector.schemaPaths
        { fresh with kinds := [.object] } (.inr ⟨rawPath, hmem, _, hsegs, hrequires⟩)
      rw [← required_sampleRoot connector.samplePayload, nodeAt, nodeAt, SchemaNode.child,
        hempty] at hrequired
      cases hrequired
  · exact ⟨_, rfl⟩

theorem clean_source (hmode : settings.mode = .enforce)
    (hconnector : connectors.lookup id = some connector) {schema : SchemaNode}
    (hschema : buildSourceSchema connector = some schema) (hsource : (id, .dict kvs) ∈ payload)
    (hclean : ∀ issue ∈ validatePayload payload connectors settings,
      settings.blocks issue = false) :
    Clean (validateObject id true settings.unknownKeys schema kvs id) := by
  intro issue hissue
  have hblocks := hclean issue ?_
  · simp_all [ValidationSettings.blocks]
  · rw [validatePayload, if_neg (by simp [hmode]), List.mem_insertionSort]
    refine List.mem_append_left _ (List.mem_flatMap.2 ⟨(id, .dict kvs), ?_, ?_⟩)
    · exact List.mem_filter.2 ⟨hsource, by simp [isSource, hconnector, kind]⟩
    simp_all [schemasOf]

/-- **Enforced validation.**  Where enforced validation finds nothing to block, a declared path
    comes to something that is not null at every element that is not null itself, of a kind that
    is declared or observed there, if any is; provided that each place on its way is declared and
    observed as what the path goes into only. -/
theorem enforced_paths_resolve (hmode : settings.mode = .enforce)
    (hconnector : connectors.lookup id = some connector) (hsource : (id, .dict kvs) ∈ payload)
    (hclean : ∀ issue ∈ validatePayload payload connectors settings, settings.blocks issue = false)
    (hmem : rawPath ∈ connector.schemaPaths) (hsegs : segments rawPath = some segs)
    (hkinds : ∀ before step after, steps segs = before ++ step :: after →
      ∀ k, Known connector before k → k = step.container) :
    Resolves Value.isNull
      (fun w => (∃ k, Known connector (steps segs) k) → Known connector (steps segs) (kind w))
      (steps segs) (.dict kvs) := by
  obtain ⟨schema, hschema⟩ := exists_schema hmem hsegs
  have hguides : Guides schema (steps segs) := by
    refine ⟨fun addr hrequires => schema_required hschema hmem hsegs hrequires,
      fun addr step rest hpath k => ?_⟩
    rw [schema_kinds hschema]
    constructor
    · exact hkinds addr step rest hpath k
    · rintro rfl
      exact .declared hmem hsegs ⟨step, rest, hpath, rfl⟩
  have hobject : Clean (validateNode id true settings.unknownKeys (.dict kvs) schema id) := by
    rw [validateNode_eq (by simp), if_neg]
    · exact clean_source hmode hconnector hschema hsource hclean
    · rw [not_and_or, not_not, not_not]
      exact .inr ((schema_kinds hschema [] .object).2 .root)
  refine (clean_resolves hguides (by simp) hobject).imp fun w hw => ?_
  rintro ⟨k, hk⟩
  rw [← schema_kinds hschema] at hk ⊢
  grind

end Enforced

def enforced : ValidationSettings := ⟨.enforce, .warn⟩

def bureau (scores : List Value) : Value := .dict [("scores", .list scores)]

def scoreOf (value : Value) : Value := .dict [("value", value)]

def bureauConnector : Connector := ⟨["scores[].value"], bureau [scoreOf (.int 700)]⟩

def bureauSchema : SchemaNode := (buildSourceSchema bureauConnector).getD fresh

theorem bureau_kinds {before : List Step} {k : Kind} (h : Known bureauConnector before k) :
    k ∈ (nodeAt before bureauSchema).kinds :=
  (schema_kinds (show buildSourceSchema bureauConnector = some bureauSchema from rfl) _ _).2 h

theorem bureau_resolves : Resolves Value.isNull
    (fun w => (∃ k, Known bureauConnector [.key "scores", .item, .key "value"] k) →
      Known bureauConnector [.key "scores", .item, .key "value"] (kind w))
    [.key "scores", .item, .key "value"] (bureau [scoreOf (.int 640), .null]) := by
  have hclean : ∀ issue ∈ validatePayload [("bureau", bureau [scoreOf (.int 640), .null])]
      [("bureau", bureauConnector)] enforced, enforced.blocks issue = false := by decide
  have hsegs : segments "scores[].value" = some [⟨"scores", true⟩, ⟨"value", false⟩] := rfl
  refine enforced_paths_resolve rfl rfl List.mem_cons_self hclean List.mem_cons_self hsegs ?_
  intro before step after hpath k hk
  have hmem := bureau_kinds hk
  have hsteps : [Step.key "scores", .item, .key "value"] = before ++ step :: after := hpath
  rcases before with _ | ⟨a, _ | ⟨b, _ | ⟨c, before⟩⟩⟩
  · cases hsteps
    exact List.mem_singleton.1 hmem
  · cases hsteps
    exact List.mem_singleton.1 hmem
  · cases hsteps
    exact List.mem_singleton.1 hmem
  · cases before <;> cases hsteps

/-- Sources that let through what the claim would not: a field that no sample shows, and a field
    of whose place the sample has a number. -/
theorem design_lets_through :
    (validatePayload [("crm", .dict [("score", .str "high")])]
        [("crm", ⟨["score"], .dict [("name", .str "Ann")]⟩)] enforced = [] ∧
      ¬ Resolves (fun _ => false) (fun w => Known ⟨["score"], .dict [("name", .str "Ann")]⟩
        [.key "score"] (kind w)) [.key "score"] (.dict [("score", .str "high")])) ∧
    (validatePayload [("crm", .dict [("summary", .int 7)])]
        [("crm", ⟨["summary.balance"], .dict [("summary", .int 5)]⟩)] enforced = [] ∧
      ¬ Resolves (fun _ => false) (fun w => Known ⟨["summary.balance"],
        .dict [("summary", .int 5)]⟩ [.key "summary", .key "balance"] (kind w))
        [.key "summary", .key "balance"] (.dict [("summary", .int 7)])) := by
  refine ⟨⟨by decide, ?_⟩, by decide, ?_⟩
  · rintro ⟨w, hw, -, hknown⟩
    cases hw
    have hschema : buildSourceSchema ⟨["score"], .dict [("name", .str "Ann")]⟩ = some _ := rfl
    rw [← schema_kinds hschema] at hknown
    revert hknown
    decide
  · rintro ⟨w, hw, hresolves⟩
    cases hw
    exact hresolves

end RuleMind.InputSchema
