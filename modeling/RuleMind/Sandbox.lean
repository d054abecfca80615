/-
  The sandbox of variable code, `app/sandbox.py`: what `validate_source` accepts, what
  `restricted_import` lets in, and what the run of an accepted source can get hold of.

  The validation is a walk over the syntax tree; escape is a matter of the objects behind every
  attribute.  CPython's objects are a `Machine`; a run takes steps that the nodes of the tree
  license, each on objects that earlier steps have yielded.
-/
import RuleMind.Lib.Run
import RuleMind.Lib.Raises

namespace RuleMind.Sandbox

open Lib

/-! ### The tree of a source -/

structure Alias where
  name : String
  asname : Option String
  deriving DecidableEq

/-- A node of the tree, with the fields that the validation or a run reads. -/
inductive Node (Op : Type)
  | importNames (names : List Alias)
  | importFrom (module : Option String) (names : List Alias) (level : ℕ)
  | name (id : String)
  | attribute (attr : String)
  /-- A call, with the name called if it is one. -/
  | call (func : Option String)
  /-- A class pattern: it reads the attributes of its subject. -/
  | matchClass (kwdAttrs : List String)
  /-- A name bound without a `Name`: by `def`, a parameter, `except ... as`, a pattern. -/
  | binder (name : String)
  /-- Any other expression or statement. -/
  | other (op : Op)
  deriving DecidableEq

inductive Tree (Op : Type)
  | node (root : Node Op) (children : List (Tree Op))

def mergeLevels {α : Type} : List (List α) → List (List α) → List (List α)
  | [], rows => rows
  | rows, [] => rows
  | row :: rows, row' :: rows' => (row ++ row') :: mergeLevels rows rows'

mutual

def Tree.levels {Op : Type} : Tree Op → List (List (Node Op))
  | .node root children => [root] :: levelsAll children

def levelsAll {Op : Type} : List (Tree Op) → List (List (Node Op))
  | [] => []
  | tree :: trees => mergeLevels tree.levels (levelsAll trees)

end

/-- `ast.walk`: breadth first. -/
def Tree.walk {Op : Type} (tree : Tree Op) : List (Node Op) := tree.levels.flatten

/-! ### `validate_source` and `restricted_import` -/

def safeImports : List String := ["math", "datetime", "json", "re"]

def blockedNames : List String :=
  ["open", "eval", "exec", "__import__", "os", "sys", "subprocess", "socket", "requests",
    "getattr", "setattr", "delattr", "globals", "locals", "vars", "compile",
    "__build_class__", "breakpoint", "input"]

def blockedAttrs : List String := ["format", "format_map"]

/-- The names of the core entries of `SAFE_BUILTINS`. -/
def safeBuiltins : List String :=
  ["abs", "all", "any", "bool", "dict", "enumerate", "float", "int", "isinstance", "len", "list",
    "max", "min", "range", "round", "set", "sorted", "str", "sum", "tuple", "zip"]

/-- `name.split(".")[0]`. -/
def baseName (name : String) : String := String.ofList (name.toList.takeWhile (· != '.'))

/-- `name.startswith("__")`. -/
def dunder (name : String) : Bool := "__".toList.isPrefixOf name.toList

def checkImports : List Alias → Except String Unit
  | [] => .ok ()
  | name :: names =>
    if baseName name.name ∉ safeImports then
      .error ("Import not allowed: " ++ baseName name.name)
    else checkImports names

/-- The body of the loop of `validate_source`. -/
def checkNode {Op : Type} : Node Op → Except String Unit
  | .importNames names => checkImports names
  | .importFrom _ names _ => checkImports names
  | .name id =>
    if id ∈ blockedNames then .error ("Blocked symbol detected: " ++ id)
    else if dunder id then .error ("Access to dunder name not allowed: " ++ id)
    else .ok ()
  | .attribute attr =>
    if dunder attr then .error ("Access to dunder attribute not allowed: " ++ attr)
    else if attr ∈ blockedAttrs then
      .error ("Method not allowed: " ++ attr ++ " (use an f-string or %-formatting)")
    else .ok ()
  | .call (some func) =>
    if func ∈ ["open", "eval", "exec"] then .error ("Blocked call detected: " ++ func) else .ok ()
  | _ => .ok ()

def checkNodes {Op : Type} : List (Node Op) → Except String Unit
  | [] => .ok ()
  | node :: nodes => checkNode node >>= fun _ => checkNodes nodes

/-- `_BoundedCache`: the oldest entry first. -/
abbrev BoundedCache (α : Type) := List (String × α)

namespace BoundedCache

variable {α : Type}

def get (cache : BoundedCache α) (key : String) : Option α :=
  (cache.find? fun entry => entry.1 == key).map Prod.snd

/-- `__setitem__`: a new key evicts the oldest entry of a full cache. -/
def set (capacity : ℕ) (cache : BoundedCache α) (key : String) (value : α) : BoundedCache α :=
  if (cache.get key).isSome then
    cache.map fun entry => if entry.1 == key then (key, value) else entry
  else (if capacity ≤ cache.length then cache.tail else cache) ++ [(key, value)]

variable {cache : BoundedCache α} {key : String} {value : α}

theorem get_mem (h : cache.get key = some value) : (key, value) ∈ cache := by
  obtain ⟨⟨key', value'⟩, hfind, rfl⟩ := Option.map_eq_some_iff.1 h
  grind

theorem mem_set {capacity : ℕ} {entry : String × α} (h : entry ∈ cache.set capacity key value) :
    entry = (key, value) ∨ entry ∈ cache := by
  grind -ring -linarith [set, List.mem_of_mem_tail]

end BoundedCache

/-- `validate_source`, with the `_validated_code_cache` it leaves.  `parse` is `ast.parse`, and
    `sha256` the digest of `_source_key`. -/
def validateSource {Op : Type} (parse : String → Except String (Tree Op)) (sha256 : String → String)
    (capacity : ℕ) (cache : BoundedCache Bool) (source : String) :
    Except String (BoundedCache Bool) :=
  if (cache.get (sha256 source)).isSome then .ok cache
  else do
    let tree ← parse source
    checkNodes tree.walk
    return cache.set capacity (sha256 source) true

/-- The cache after some validations, whatever their order and their outcomes. -/
inductive Validated {Op : Type} (parse : String → Except String (Tree Op))
    (sha256 : String → String) (capacity : ℕ) : BoundedCache Bool → Prop
  | empty : Validated parse sha256 capacity []
  | next {cache cache' source} : Validated parse sha256 capacity cache →
    validateSource parse sha256 capacity cache source = .ok cache' →
    Validated parse sha256 capacity cache'

theorem checkNodes_ok {Op : Type} {nodes : List (Node Op)} (h : checkNodes nodes = .ok ()) :
    ∀ node ∈ nodes, checkNode node = .ok () := by
  induction nodes with
  | nil => exact fun _ hnode => absurd hnode List.not_mem_nil
  | cons node nodes ih =>
    obtain ⟨_, hnode, hnodes⟩ := bind_eq_ok.1 h
    simp_all

theorem checkImports_ok {names : List Alias} (h : checkImports names = .ok ()) :
    ∀ name ∈ names, baseName name.name ∈ safeImports := by
  induction names with
  | nil => exact fun _ hname => absurd hname List.not_mem_nil
  | cons name names ih => grind [checkImports]

section Accept

variable {Op : Type} {parse : String → Except String (Tree Op)} {sha256 : String → String}
  {capacity : ℕ} {cache cache' : BoundedCache Bool} {source : String}

def Checked (parse : String → Except String (Tree Op)) (source : String) : Prop :=
  ∃ tree, parse source = .ok tree ∧ checkNodes tree.walk = .ok ()

theorem validateSource_ok (h : validateSource parse sha256 capacity cache source = .ok cache') :
    (∃ value, (sha256 source, value) ∈ cache) ∧ cache' = cache ∨
      Checked parse source ∧ cache' = cache.set capacity (sha256 source) true := by
  unfold validateSource at h
  split at h
  · rename_i hhit
    obtain ⟨value, hvalue⟩ := Option.isSome_iff_exists.1 hhit
    cases h
    exact .inl ⟨⟨value, BoundedCache.get_mem hvalue⟩, rfl⟩
  · obtain ⟨tree, htree, h⟩ := bind_eq_ok.1 h
    obtain ⟨_, hcheck, h⟩ := bind_eq_ok.1 h
    cases h
    exact .inr ⟨⟨tree, htree, hcheck⟩, rfl⟩

theorem validated_keys (h : Validated parse sha256 capacity cache) :
    ∀ entry ∈ cache, ∃ source, sha256 source = entry.1 ∧ Checked parse source := by
  induction h with
  | empty => exact fun _ hentry => absurd hentry List.not_mem_nil
  | @next cache cache' source _ hvalidate ih =>
    rcases validateSource_ok hvalidate with ⟨_, rfl⟩ | ⟨hchecked, rfl⟩
    · exact ih
    · intro entry hentry
      rcases BoundedCache.mem_set hentry with rfl | hold
      · exact ⟨source, rfl, hchecked⟩
      · exact ih entry hold

theorem accepted_checked (hsha : ∀ other, sha256 other = sha256 source → other = source)
    (hcache : Validated parse sha256 capacity cache)
    (h : validateSource parse sha256 capacity cache source = .ok cache') :
    Checked parse source := by
  rcases validateSource_ok h with ⟨⟨value, hhit⟩, _⟩ | ⟨hchecked, _⟩
  · grind [validated_keys]
  · exact hchecked

end Accept

/-! ### The objects of the interpreter -/

inductive Kind
  | module (name : String)
  | builtinsNamespace
  | frame
  | globals
  /-- A function of the real `builtins` module. -/
  | builtin (name : String)
  | other
  deriving DecidableEq

/-- Out of the sandbox: a module that `restricted_import` refuses, the real builtins, a frame,
    a globals object. -/
def Kind.outside : Kind → Bool
  | module name => baseName name ∉ safeImports
  | builtinsNamespace | frame | globals => true
  | builtin name => name ∈ blockedNames
  | other => false

/-- CPython, as far as a run of variable code meets it.  An operation yields what it returns and
    what it hands to callbacks. -/
structure Machine (Obj Heap Op : Type) where
  kind : Obj → Kind
  /-- The object under an entry of the namespace's `__builtins__`. -/
  builtin : String → Option Obj
  /-- The names of `EXCEL_FUNCTIONS`. -/
  excelFunctions : List String
  /-- The dict under `__builtins__`, and the decorator `variable`. -/
  builtinsDict : Obj
  variableDecorator : Obj
  json : Obj
  /-- `x.a`. -/
  attr : Heap → Obj → String → Option Obj
  /-- What a name is looked up in, once `__builtins__` is rebound to an object. -/
  entry : Heap → Obj → String → Option Obj
  /-- `__import__` of a dotted name: the top package and the module. -/
  importModule : Heap → String → Option (Obj × Obj × Heap)
  /-- `from module import names`, at a level. -/
  importFrom : Heap → String → ℕ → List String → Option (List Obj × Heap)
  /-- `x.a = y`, or `del x.a`. -/
  setattr : Heap → Obj → String → Option Obj → Option Heap
  call : Heap → Obj → List Obj → Option (List Obj × Heap)
  operate : Op → Heap → List Obj → Option (List Obj × Heap)

structure State (Obj Heap : Type) where
  heap : Heap
  /-- What the names were bound to, in any scope. -/
  bindings : List (String × Obj)
  /-- The objects yielded so far. -/
  held : List Obj
  /-- The arguments of the function that is called when the body has run. -/
  arguments : List Obj

inductive Action (Obj Op : Type)
  | name (id : String) (o : Obj)
  | builtin (id : String)
  /-- A lookup in the object `b` that `__builtins__` is rebound to. -/
  | rebound (b : Obj) (id : String)
  | getattr (x : Obj) (attr : String)
  | matchClass (x : Obj) (attr : String)
  | importName (name : Alias)
  | importFrom (module : Option String) (names : List Alias) (level : ℕ)
  | bind (id : String) (o : Obj)
  | setattr (x : Obj) (attr : String) (value : Option Obj)
  | call (f : Obj) (args : List Obj)
  | operate (op : Op) (args : List Obj)
  | argument (o : Obj)

section Step

variable {Obj Heap Op : Type}

def State.hold (s : State Obj Heap) (os : List Obj) (heap : Heap) : State Obj Heap :=
  { s with held := os ++ s.held, heap }

/-- The namespace of `_execute_in_process`, before the body runs. -/
def Machine.namespaceState (M : Machine Obj Heap Op) (heap : Heap) (arguments : List Obj) :
    State Obj Heap where
  heap
  bindings :=
    [("__builtins__", M.builtinsDict), ("variable", M.variableDecorator), ("json", M.json)]
  held := []
  arguments

/-- `restricted_import`, up to the `__import__` it calls. -/
def restrictedImport (name : String) : Except String Unit :=
  if baseName name ∉ safeImports then .error ("Import not allowed: " ++ baseName name) else .ok ()

/-- An `import` of the tree has this name. -/
def imports (nodes : List (Node Op)) (name : Alias) : Bool :=
  nodes.any fun node => if let .importNames names := node then decide (name ∈ names) else false

/-- An attribute that a class pattern of the tree reads. -/
def patternReads (nodes : List (Node Op)) (attr : String) : Bool :=
  nodes.any fun node => if let .matchClass attrs := node then decide (attr ∈ attrs) else false

def binds (nodes : List (Node Op)) (id : String) : Bool :=
  nodes.any fun node =>
    match node with
    | .name id' | .binder id' => id' == id
    | .importNames names | .importFrom _ names _ =>
      names.any fun name => name.asname.getD (baseName name.name) == id
    | _ => false

/-- One step of a run of the tree with these nodes. -/
def Machine.step [DecidableEq Obj] [DecidableEq Op] (M : Machine Obj Heap Op)
    (nodes : List (Node Op)) (s : State Obj Heap) : Action Obj Op → Option (State Obj Heap)
  | .name id o => if .name id ∈ nodes ∧ (id, o) ∈ s.bindings then some (s.hold [o] s.heap) else none
  | .builtin id =>
    if .name id ∈ nodes ∧ (id ∈ safeBuiltins ∨ id ∈ M.excelFunctions ∨ id = "__import__") then
      (M.builtin id).map fun o => s.hold [o] s.heap
    else none
  | .rebound b id =>
    if .name id ∈ nodes ∧ ("__builtins__", b) ∈ s.bindings ∧ b ∈ s.held then
      (M.entry s.heap b id).map fun o => s.hold [o] s.heap
    else none
  | .getattr x attr =>
    if .attribute attr ∈ nodes ∧ x ∈ s.held then
      (M.attr s.heap x attr).map fun o => s.hold [o] s.heap
    else none
  | .matchClass x attr =>
    if patternReads nodes attr ∧ x ∈ s.held then
      (M.attr s.heap x attr).map fun o => s.hold [o] s.heap
    else none
  | .importName name =>
    if imports nodes name ∧ restrictedImport name.name = .ok () then
      (M.importModule s.heap name.name).map fun r =>
        s.hold [if name.asname.isSome then r.2.1 else r.1] r.2.2
    else none
  | .importFrom module names level =>
    if .importFrom module names level ∈ nodes ∧ restrictedImport (module.getD "") = .ok () then
      (M.importFrom s.heap (module.getD "") level (names.map Alias.name)).map fun r =>
        s.hold r.1 r.2
    else none
  | .bind id o =>
    if binds nodes id ∧ o ∈ s.held then some { s with bindings := (id, o) :: s.bindings } else none
  | .setattr x attr value =>
    if .attribute attr ∈ nodes ∧ x ∈ s.held ∧ value.all (· ∈ s.held) then
      (M.setattr s.heap x attr value).map fun heap => { s with heap }
    else none
  | .call f args =>
    if f ∈ s.held ∧ args.all (· ∈ s.held) then
      (M.call s.heap f args).map fun r => s.hold r.1 r.2
    else none
  | .operate op args =>
    if .other op ∈ nodes ∧ args.all (· ∈ s.held) then
      (M.operate op s.heap args).map fun r => s.hold r.1 r.2
    else none
  | .argument o => if o ∈ s.arguments then some (s.hold [o] s.heap) else none

/-! ### Confinement -/

/-- What the sandbox relies on: the objects `safe` are inside it, and while the heap is `sealed`
    what it does not read through an attribute stays inside. -/
structure Machine.Respects (M : Machine Obj Heap Op) (safe : Obj → Prop) (sealed : Heap → Prop) :
    Prop where
  apart : ∀ o, safe o → (M.kind o).outside = false
  /-- The functions and types of `SAFE_BUILTINS`. -/
  builtin : ∀ id o, id ∈ safeBuiltins ∨ id ∈ M.excelFunctions → M.builtin id = some o → safe o
  variableDecorator : safe M.variableDecorator
  json : safe M.json
  importModule : ∀ heap name r, sealed heap → baseName name ∈ safeImports →
    M.importModule heap name = some r → safe r.1 ∧ safe r.2.1 ∧ sealed r.2.2
  /-- The importable modules export one another. -/
  importFrom : ∀ heap module level names r, sealed heap → baseName module ∈ safeImports →
    (∀ name ∈ names, baseName name ∈ safeImports) →
    M.importFrom heap module level names = some r → (∀ o ∈ r.1, safe o) ∧ sealed r.2
  setattr : ∀ heap x attr value heap', sealed heap → safe x → (∀ o ∈ value, safe o) →
    M.setattr heap x attr value = some heap' → sealed heap'
  call : ∀ heap f args r, sealed heap → safe f → (∀ o ∈ args, safe o) →
    M.call heap f args = some r → (∀ o ∈ r.1, safe o) ∧ sealed r.2
  operate : ∀ op heap args r, sealed heap → (∀ o ∈ args, safe o) →
    M.operate op heap args = some r → (∀ o ∈ r.1, safe o) ∧ sealed r.2

/-- A name that the validation of an `Attribute` lets pass. -/
def passes (attr : String) : Prop := dunder attr = false ∧ attr ∉ blockedAttrs

/-- The step reads no attribute that leads out of the sandbox, be it by a name that passes, by a
    class pattern, or by a name that is looked up in an object bound to `__builtins__`. -/
def Machine.Within (M : Machine Obj Heap Op) (safe : Obj → Prop) (s : State Obj Heap) :
    Action Obj Op → Prop
  | .getattr x attr => passes attr → ∀ o, M.attr s.heap x attr = some o → safe o
  | .matchClass x attr => ∀ o, M.attr s.heap x attr = some o → safe o
  | .rebound b id => ∀ o, M.entry s.heap b id = some o → safe o
  | _ => True

structure Inside (safe : Obj → Prop) (sealed : Heap → Prop) (s : State Obj Heap) : Prop where
  heap : sealed s.heap
  held : ∀ o ∈ s.held, safe o
  bindings : ∀ b ∈ s.bindings, safe b.2 ∨ b.1 = "__builtins__"
  arguments : ∀ o ∈ s.arguments, safe o

variable {M : Machine Obj Heap Op} {safe : Obj → Prop} {sealed : Heap → Prop}
  {s s' : State Obj Heap} {nodes : List (Node Op)}

theorem Inside.hold (h : Inside safe sealed s) {os : List Obj} {heap : Heap}
    (hos : ∀ o ∈ os, safe o) (hheap : sealed heap) : Inside safe sealed (s.hold os heap) where
  heap := hheap
  held := by
    intro o ho
    rcases List.mem_append.1 ho with ho | ho
    · exact hos o ho
    · exact h.held o ho
  bindings := h.bindings
  arguments := h.arguments

theorem Inside.hold_one (h : Inside safe sealed s) {o : Obj} (ho : safe o) :
    Inside safe sealed (s.hold [o] s.heap) := by
  refine h.hold ?_ h.heap
  intro o' ho'
  rwa [List.mem_singleton.1 ho']

theorem Inside.held_all [DecidableEq Obj] (h : Inside safe sealed s) {args : List Obj}
    (hargs : args.all (· ∈ s.held) = true) : ∀ o ∈ args, safe o := by
  intro o ho
  exact h.held o (by simpa using List.all_eq_true.1 hargs o ho)

theorem namespaceState_inside (hM : M.Respects safe sealed) {heap : Heap} {arguments : List Obj}
    (hheap : sealed heap) (hargs : ∀ o ∈ arguments, safe o) :
    Inside safe sealed (M.namespaceState heap arguments) where
  heap := hheap
  held := fun _ ho => absurd ho List.not_mem_nil
  bindings := by
    intro b hb
    simp only [Machine.namespaceState, List.mem_cons, List.not_mem_nil, or_false] at hb
    rcases hb with rfl | rfl | rfl
    · exact .inr rfl
    · exact .inl hM.variableDecorator
    · exact .inl hM.json
  arguments := hargs

/-! The nodes of an accepted tree. -/

theorem name_passes (h : checkNodes nodes = .ok ()) {id : String} (hid : .name id ∈ nodes) :
    id ∉ blockedNames ∧ dunder id = false := by
  have hnode := checkNodes_ok h _ hid
  grind [checkNode]

theorem attribute_passes (h : checkNodes nodes = .ok ()) {attr : String}
    (hattr : .attribute attr ∈ nodes) : passes attr := by
  have hnode := checkNodes_ok h _ hattr
  simp only [checkNode] at hnode
  split at hnode
  · cases hnode
  · rename_i hdunder
    split at hnode
    · cases hnode
    · rename_i hblocked
      exact ⟨by simpa using hdunder, hblocked⟩

theorem importFrom_passes (h : checkNodes nodes = .ok ()) {module : Option String}
    {names : List Alias} {level : ℕ} (hnode : .importFrom module names level ∈ nodes) :
    ∀ name ∈ names.map Alias.name, baseName name ∈ safeImports := by
  intro name hname
  obtain ⟨name', hmem, rfl⟩ := List.mem_map.1 hname
  exact checkImports_ok (checkNodes_ok h _ hnode) name' hmem

theorem restrictedImport_ok {name : String} (h : restrictedImport name = .ok ()) :
    baseName name ∈ safeImports := by simp_all [restrictedImport]

theorem step_inside [DecidableEq Obj] [DecidableEq Op] (hM : M.Respects safe sealed)
    (hcheck : checkNodes nodes = .ok ())
    {a : Action Obj Op} (h : Inside safe sealed s) (hwithin : M.Within safe s a)
    (hstep : M.step nodes s a = some s') : Inside safe sealed s' := by
  cases a with
  | name id o =>
    obtain ⟨⟨hid, hbound⟩, hstep⟩ := Option.ite_none_right_eq_some.1 hstep
    obtain rfl := Option.some.inj hstep
    rcases h.bindings _ hbound with hsafe | hname
    · exact h.hold_one hsafe
    · have hdunder := (name_passes hcheck hid).2
      rw [show id = "__builtins__" from hname] at hdunder
      exact absurd hdunder (by decide)
  | builtin id =>
    obtain ⟨⟨hid, hentry⟩, hstep⟩ := Option.ite_none_right_eq_some.1 hstep
    obtain ⟨o, ho, rfl⟩ := Option.map_eq_some_iff.1 hstep
    rcases hentry with hentry | hentry | rfl
    · exact h.hold_one (hM.builtin id o (.inl hentry) ho)
    · exact h.hold_one (hM.builtin id o (.inr hentry) ho)
    · exact absurd (by decide) (name_passes hcheck hid).1
  | rebound _ _ | matchClass _ _ =>
    obtain ⟨_, hstep⟩ := Option.ite_none_right_eq_some.1 hstep
    obtain ⟨o, ho, rfl⟩ := Option.map_eq_some_iff.1 hstep
    exact h.hold_one (hwithin o ho)
  | getattr x attr =>
    obtain ⟨⟨hattr, _⟩, hstep⟩ := Option.ite_none_right_eq_some.1 hstep
    obtain ⟨o, ho, rfl⟩ := Option.map_eq_some_iff.1 hstep
    exact h.hold_one (hwithin (attribute_passes hcheck hattr) o ho)
  | importName name =>
    obtain ⟨⟨_, hsafe⟩, hstep⟩ := Option.ite_none_right_eq_some.1 hstep
    obtain ⟨r, hr, rfl⟩ := Option.map_eq_some_iff.1 hstep
    obtain ⟨hpackage, hmodule, hheap⟩ :=
      hM.importModule s.heap name.name r h.heap (restrictedImport_ok hsafe) hr
    refine h.hold ?_ hheap
    grind
  | importFrom module names level =>
    obtain ⟨⟨hnode, hsafe⟩, hstep⟩ := Option.ite_none_right_eq_some.1 hstep
    obtain ⟨r, hr, rfl⟩ := Option.map_eq_some_iff.1 hstep
    obtain ⟨hos, hheap⟩ := hM.importFrom s.heap _ level _ r h.heap (restrictedImport_ok hsafe)
      (importFrom_passes hcheck hnode) hr
    exact h.hold hos hheap
  | bind id o =>
    obtain ⟨⟨_, ho⟩, hstep⟩ := Option.ite_none_right_eq_some.1 hstep
    obtain rfl := Option.some.inj hstep
    refine ⟨h.heap, h.held, ?_, h.arguments⟩
    intro b hb
    rcases List.mem_cons.1 hb with rfl | hb
    · exact .inl (h.held o ho)
    · exact h.bindings b hb
  | setattr x attr value =>
    obtain ⟨⟨_, hx, hvalue⟩, hstep⟩ := Option.ite_none_right_eq_some.1 hstep
    obtain ⟨heap, hheap, rfl⟩ := Option.map_eq_some_iff.1 hstep
    refine ⟨hM.setattr s.heap x attr value heap h.heap (h.held x hx) ?_ hheap, h.held, h.bindings,
      h.arguments⟩
    rintro o rfl
    exact h.held o (by simpa using hvalue)
  | call f args =>
    obtain ⟨⟨hf, hargs⟩, hstep⟩ := Option.ite_none_right_eq_some.1 hstep
    obtain ⟨r, hr, rfl⟩ := Option.map_eq_some_iff.1 hstep
    obtain ⟨hos, hheap⟩ := hM.call s.heap f args r h.heap (h.held f hf) (h.held_all hargs) hr
    exact h.hold hos hheap
  | operate op args =>
    obtain ⟨⟨_, hargs⟩, hstep⟩ := Option.ite_none_right_eq_some.1 hstep
    obtain ⟨r, hr, rfl⟩ := Option.map_eq_some_iff.1 hstep
    obtain ⟨hos, hheap⟩ := hM.operate op s.heap args r h.heap (h.held_all hargs) hr
    exact h.hold hos hheap
  | argument o =>
    obtain ⟨ho, hstep⟩ := Option.ite_none_right_eq_some.1 hstep
    obtain rfl := Option.some.inj hstep
    exact h.hold_one (h.arguments o ho)

variable {parse : String → Except String (Tree Op)} {sha256 : String → String} {capacity : ℕ}
  {cache cache' : BoundedCache Bool} {source : String} {tree : Tree Op}

end Step

/-! ### Two variables -/

inductive Thing
  | payload
  | variables
  /-- The function of the source. -/
  | function
  | variableDecorator
  | builtinsDict
  | restrictedImport
  | json
  | dumps
  | text
  | codecs
  | builtins
  | openFunction
  deriving DecidableEq

def Thing.kind : Thing → Kind
  | json => .module "json"
  | codecs => .module "codecs"
  | builtins => .builtinsNamespace
  | openFunction => .builtin "open"
  | _ => .other

/-- `json` imports `codecs` for `detect_encoding`, and `codecs` imports `builtins`. -/
def Thing.attr : Thing → String → Option Thing
  | json, "dumps" => some dumps
  | json, "codecs" => some codecs
  | codecs, "builtins" => some builtins
  | builtins, "open" => some openFunction
  | _, _ => none

def Thing.safe : Thing → Prop
  | builtinsDict | restrictedImport | codecs | builtins | openFunction => False
  | _ => True

/-- The part of CPython that the two variables meet. -/
def cpython : Machine Thing Unit String where
  kind := Thing.kind
  builtin id := if id = "__import__" then some .restrictedImport else none
  excelFunctions := []
  builtinsDict := .builtinsDict
  variableDecorator := .variableDecorator
  json := .json
  attr _ := Thing.attr
  entry _ _ _ := none
  importModule _ name := if name = "json" then some (.json, .json, ()) else none
  importFrom _ _ _ _ := none
  setattr _ _ _ _ := none
  call _ f args := if f = .dumps ∧ args = [.payload] then some ([.text], ()) else none
  operate op _ _ := if op = "FunctionDef" then some ([.function], ()) else none

theorem cpython_respects : cpython.Respects Thing.safe fun _ => True where
  apart o ho := by cases o <;> first | rfl | exact ho.elim
  builtin id o hid ho := by
    obtain ⟨rfl, -⟩ := Option.ite_none_right_eq_some.1 ho
    rcases hid with hid | hid
    · exact absurd hid (by decide)
    · exact absurd hid List.not_mem_nil
  variableDecorator := trivial
  json := trivial
  importModule heap name r _ _ hr := by
    obtain ⟨-, hr⟩ := Option.ite_none_right_eq_some.1 hr
    cases hr
    exact ⟨trivial, trivial, trivial⟩
  importFrom _ _ _ _ _ _ _ _ hr := nomatch hr
  setattr _ _ _ _ _ _ _ _ _ := trivial
  call heap f args r _ _ _ hr := by
    obtain ⟨-, hr⟩ := Option.ite_none_right_eq_some.1 hr
    cases hr
    refine ⟨?_, trivial⟩
    intro o ho
    rw [List.mem_singleton.1 ho]
    trivial
  operate op heap args r _ _ hr := by
    obtain ⟨-, hr⟩ := Option.ite_none_right_eq_some.1 hr
    cases hr
    refine ⟨?_, trivial⟩
    intro o ho
    rw [List.mem_singleton.1 ho]
    trivial

/-- The tree of a variable of two parameters that returns one expression. -/
def returning (expr : Tree String) : Tree String :=
  .node (.other "Module") [.node (.binder "v") [
    .node (.binder "payload") [], .node (.binder "variables") [],
    .node (.other "Return") [expr]]]

def dumpsSource : String := "def v(payload, variables):\n    return json.dumps(payload)\n"

def codecsSource : String := "def v(payload, variables):\n    return json.codecs.builtins.open\n"

def dumpsTree : Tree String :=
  returning (.node (.call none) [
    .node (.attribute "dumps") [.node (.name "json") []], .node (.name "payload") []])

def codecsTree : Tree String :=
  returning (.node (.attribute "open") [.node (.attribute "builtins") [
    .node (.attribute "codecs") [.node (.name "json") []]]])

def parseTwo (source : String) : Except String (Tree String) :=
  if source = dumpsSource then .ok dumpsTree
  else if source = codecsSource then .ok codecsTree
  else .error "invalid syntax"

/-- `json.dumps(payload)`. -/
def dumpsRun : List (Action Thing String) :=
  [.argument .payload, .bind "payload" .payload, .name "json" .json, .getattr .json "dumps",
    .name "payload" .payload, .call .dumps [.payload]]

end RuleMind.Sandbox
