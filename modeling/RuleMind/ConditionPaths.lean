/-
  The conditions of a rule tree, by the way down to each, and of the nodes of a rule, by their
  index: what `_set_tree_condition` and `_set_nodes_condition` of `app/experiments.py` count and
  change, and where `flatten_tree_to_nodes` writes a condition.
-/
import RuleMind.RuleForms

namespace RuleMind.Overrides

open RuleTree SavedRule

/-! ### Ways down a tree -/

abbrev Path := List ℕ

/-- `node[key] = value`. -/
def putField (node : Value) (key : String) (value : Value) : Value :=
  match node with
  | .dict kvs => .dict (setKey kvs key value)
  | v => v

def childAt (i : ℕ) (node : Value) : Option Value :=
  match kind node with
  | .not => node.field "child"
  | .group =>
    match node.field "children" with
    | some (.list children) => children[i]?
    | _ => none
  | _ => none

def putChild (i : ℕ) (child node : Value) : Value :=
  match kind node with
  | .not => putField node "child" child
  | .group =>
    match node.field "children" with
    | some (.list children) => putField node "children" (.list (children.set i child))
    | _ => node
  | _ => node

def nodeAt : Path → Value → Option Value
  | [], node => some node
  | i :: p, node => (childAt i node).bind (nodeAt p)

def updateAt (g : Value → Value) : Path → Value → Value
  | [], node => g node
  | i :: p, node =>
    match childAt i node with
    | some child => putChild i (updateAt g p child) node
    | none => node

def ifObject {α : Type} (v : Value) (x : Except PyError α) (otherwise : α) : Except PyError α :=
  if v.asDict.isSome then x else .ok otherwise

def pathsFrom (paths : Value → Except PyError (List Path)) :
    ℕ → List Value → Except PyError (List Path)
  | _, [] => .ok []
  | i, child :: children => do
    let here ← ifObject child (paths child) []
    let rest ← pathsFrom paths (i + 1) children
    .ok (here.map (i :: ·) ++ rest)

/-- The ways to the conditions, depth first; the first argument is how many frames the interpreter
    still allows. -/
def conditionPaths : ℕ → Value → Except PyError (List Path)
  | 0, _ => .error .recursionError
  | frames + 1, node =>
    match kind node with
    | .condition => .ok [[]]
    | .not =>
      match node.field "child" with
      | some (.dict kvs) => (conditionPaths frames (.dict kvs)).map (List.map (0 :: ·))
      | _ => .ok []
    | .group => do
      let children ← iterate (node.field "children")
      pathsFrom (conditionPaths frames) 0 children
    | .other => .ok []

/-- The indices of the conditions among nodes, from an index on. -/
def conditionPlaces : ℕ → List Value → List ℕ
  | _, [] => []
  | i, node :: nodes =>
    if kind node = .condition then i :: conditionPlaces (i + 1) nodes
    else conditionPlaces (i + 1) nodes

/-! ### The walks -/

section Walks
variable (index : ℤ) (field : String) (value : Value)

def walkAll (walk : ℤ → Value → Except PyError (Value × ℤ)) :
    ℤ → List Value → Except PyError (List Value × ℤ)
  | counter, [] => .ok ([], counter)
  | counter, child :: children => do
    let (child, counter) ← ifObject child (walk counter child) (child, counter)
    let (children, counter) ← walkAll walk counter children
    .ok (child :: children, counter)

/-- The items of a list are changed where they are. -/
def putChildren (children : List Value) (node : Value) : Value :=
  match node.field "children" with
  | some (.list _) => putField node "children" (.list children)
  | _ => node

/-- `walk` of `_set_tree_condition`, on the node and the counter. -/
def setTreeWalk : ℕ → ℤ → Value → Except PyError (Value × ℤ)
  | 0, _, _ => .error .recursionError
  | frames + 1, counter, node =>
    match kind node with
    | .condition =>
      .ok (if counter + 1 = index then putField node field value else node, counter + 1)
    | .not =>
      match node.field "child" with
      | some (.dict kvs) => do
        let (child, counter) ← setTreeWalk frames counter (.dict kvs)
        .ok (putField node "child" child, counter)
      | _ => .ok (node, counter)
    | .group => do
      let children ← iterate (node.field "children")
      let (children, counter) ← walkAll (setTreeWalk frames) counter children
      .ok (putChildren children node, counter)
    | .other => .ok (node, counter)

/-- The loop of `_set_nodes_condition`, from a counter on. -/
def setNodesWalk : ℤ → List Value → Except PyError (List Value)
  | _, [] => .ok []
  | counter, node :: nodes =>
    match node.asDict with
    | none => .error .attributeError
    | some _ =>
      if kind node = .condition then
        if counter + 1 = index then .ok (putField node field value :: nodes)
        else (setNodesWalk (counter + 1) nodes).map (node :: ·)
      else (setNodesWalk counter nodes).map (node :: ·)

end Walks

/-! ### Which is the `k`-th -/

section Kth
variable {α β : Type}

def kth (as : List α) (k : ℤ) : Option α := if 0 ≤ k then as[k.toNat]? else none

theorem kth_nil (k : ℤ) : kth ([] : List α) k = none := by
  unfold kth
  split
  · rfl
  · rfl

theorem kth_neg (as : List α) {k : ℤ} (h : k < 0) : kth as k = none := if_neg (by omega)

theorem kth_append (as bs : List α) (k : ℤ) :
    kth (as ++ bs) k = (kth as k).or (kth bs (k - as.length)) := by
  unfold kth
  by_cases hk : 0 ≤ k
  · rw [if_pos hk, if_pos hk, List.getElem?_append]
    by_cases hlt : k.toNat < as.length
    · rw [if_pos hlt, List.getElem?_eq_getElem hlt]
      rfl
    · have hnone : as[k.toNat]? = none := List.getElem?_eq_none (by omega)
      rw [if_neg hlt, hnone, if_pos (by omega),
        show (k - (as.length : ℤ)).toNat = k.toNat - as.length by omega]
      rfl
  · rw [if_neg hk, if_neg hk, if_neg (by omega)]
    rfl

theorem kth_map (f : α → β) (as : List α) (k : ℤ) : kth (as.map f) k = (kth as k).map f := by
  unfold kth
  split
  · rw [List.getElem?_map]
  · rfl

theorem kth_cons (a : α) (as : List α) (k : ℤ) :
    kth (a :: as) k = if k = 0 then some a else kth as (k - 1) := by
  have h := kth_append [a] as k
  rw [List.singleton_append] at h
  rw [h]
  by_cases hk : k = 0
  · rw [if_pos hk, hk]
    rfl
  · rw [if_neg hk]
    have hnone : kth [a] k = none := by
      unfold kth
      split
      · exact List.getElem?_eq_none (by simp; omega)
      · rfl
    rw [hnone]
    rfl

theorem kth_eq_some {as : List α} {k : ℤ} {a : α} (h : kth as k = some a) :
    ∃ before behind, as = before ++ a :: behind ∧ k = before.length := by
  unfold kth at h
  split at h
  · obtain ⟨hlt, rfl⟩ := List.getElem?_eq_some_iff.1 h
    refine ⟨as.take k.toNat, as.drop (k.toNat + 1), ?_, ?_⟩
    · rw [List.getElem_cons_drop, List.take_append_drop]
    · rw [List.length_take]
      omega
  · cases h

end Kth

/-! ### What the walk of a tree changes -/

section Tree
variable {frames : ℕ} {node : Value} {ps : List Path} {g : Value → Value}

theorem putField_field (node : Value) (key : String) (v : Value) (k : String) :
    (putField node key v).field k =
      if node.asDict.isSome ∧ k = key then some v else node.field k := by
  cases node with
  | dict kvs =>
    show (setKey kvs key v).lookup k = _
    rw [lookup_setKey]
    simp only [Value.asDict, Option.isSome_some, true_and]
    rfl
  | _ => rfl

variable {v : Value} {children : List Value} {paths : Value → Except PyError (List Path)} {i : ℕ}

variable {key : String} {counter : ℤ} {before behind : List Path} {p : Path}

theorem putField_same (h : node.field key = some v) : putField node key v = node := by
  obtain ⟨kvs, rfl, hv⟩ := Value.field_eq_some h
  exact congrArg Value.dict (setKey_same hv)

theorem kind_condition_iff : kind node = .condition ↔ nodeType node = some "condition" := by
  grind [kind]

theorem kind_putField (h : key ≠ "type") (node v : Value) :
    kind (putField node key v) = kind node := by
  have htype : nodeType (putField node key v) = nodeType node := by
    rw [nodeType, putField_field, if_neg (fun hk => h hk.2.symm), nodeType]
  rw [kind, kind, htype]

def updateSome (g : Value → Value) (p : Option Path) (node : Value) : Value :=
  match p with
  | some p => updateAt g p node
  | none => node

/-- One of the children, from an index on, changed below. -/
def updateFrom (g : Value → Value) (i : ℕ) (p : Option Path) (children : List Value) : List Value :=
  match p with
  | some (j :: p) => children.modify (j - i) (updateAt g p)
  | _ => children

theorem pathsFrom_lt
    (h : pathsFrom paths i children = .ok ps) : ∀ p ∈ ps, ∃ j q, p = j :: q ∧ i ≤ j := by
  induction children generalizing i ps with
  | nil =>
    cases h
    exact List.forall_mem_nil _
  | cons child children ih =>
    rw [pathsFrom] at h
    obtain ⟨here, -, h₁⟩ := bind_eq_ok.1 h
    obtain ⟨rest, hrest, h₂⟩ := bind_eq_ok.1 h₁
    grind

theorem mem_of_kth {α : Type} {as : List α} {k : ℤ} {a : α} (h : kth as k = some a) : a ∈ as := by
  obtain ⟨before, behind, rfl, -⟩ := kth_eq_some h
  exact List.mem_append_right _ List.mem_cons_self

variable {index : ℤ} {field : String} {value : Value}

theorem walkAll_spec {walk : ℤ → Value → Except PyError (Value × ℤ)}

    (hwalk : ∀ counter child ps, paths child = .ok ps → walk counter child =
      .ok (updateSome g (kth ps (index - counter - 1)) child, counter + ps.length))
    (h : pathsFrom paths i children = .ok ps) :
    walkAll walk counter children =
      .ok (updateFrom g i (kth ps (index - counter - 1)) children, counter + ps.length) := by
  induction children generalizing i counter ps with
  | nil =>
    cases h
    rw [kth_nil, walkAll]
    simp [updateFrom]
  | cons child children ih =>
    rw [pathsFrom] at h
    obtain ⟨here, hhere, h₁⟩ := bind_eq_ok.1 h
    obtain ⟨rest, hrest, h₂⟩ := bind_eq_ok.1 h₁
    cases h₂
    have hchild : ifObject child (walk counter child) (child, counter) =
        .ok (updateSome g (kth here (index - counter - 1)) child, counter + here.length) := by
      unfold ifObject at hhere ⊢
      split
      · simp_all
      · simp_all [kth_nil, updateSome]
    have htail := @ih rest (i + 1) (counter + here.length) hrest
    have hfrom : updateSome g (kth here (index - counter - 1)) child ::
        updateFrom g (i + 1) (kth rest (index - (counter + here.length) - 1)) children =
          updateFrom g i (kth (here.map (i :: ·) ++ rest) (index - counter - 1))
            (child :: children) := by
      rw [kth_append, kth_map, List.length_map,
        show index - counter - 1 - (here.length : ℤ) = index - (counter + here.length) - 1 by ring]
      cases hkth : kth here (index - counter - 1) with
      | some p =>
        obtain ⟨before, behind, rfl, hlen⟩ := kth_eq_some hkth
        rw [kth_neg rest (by rw [List.length_append, List.length_cons]; omega)]
        simp [updateSome, updateFrom]
      | none =>
        cases hrestk : kth rest (index - (counter + here.length) - 1) with
        | none => rfl
        | some p =>
          obtain ⟨j, q, rfl, hj⟩ := pathsFrom_lt hrest p (mem_of_kth hrestk)
          show child :: children.modify (j - (i + 1)) (updateAt g q) =
            (child :: children).modify (j - i) (updateAt g q)
          rw [show j - i = (j - (i + 1)) + 1 by omega]
          rfl
    rw [walkAll, hchild]
    show (walkAll walk (counter + here.length) children >>= _) = _
    rw [htail, ← hfrom, List.length_append, List.length_map, Nat.cast_add, ← add_assoc]
    rfl

theorem pathsFrom_none (h : ∀ child ∈ children, child.asDict = none) :
    pathsFrom paths i children = .ok [] := by
  induction children generalizing i with
  | nil => rfl
  | cons child children ih =>
    rw [pathsFrom, ifObject, h child List.mem_cons_self,
      ih fun c hc => h c (List.mem_cons_of_mem _ hc)]
    rfl

theorem iterate_none (h : iterate (some v) = .ok children)
    (hlist : ∀ vs, v ≠ .list vs) : ∀ child ∈ children, child.asDict = none := by
  cases v with
  | list vs => exact absurd rfl (hlist vs)
  | str s =>
    cases h
    intro child hchild
    obtain ⟨c, -, rfl⟩ := List.mem_map.1 hchild
    rfl
  | dict kvs =>
    cases h
    intro child hchild
    obtain ⟨kv, -, rfl⟩ := List.mem_map.1 hchild
    rfl
  | _ => cases h

theorem iterate_list {v : Option Value} {child : Value}
    (h : iterate v = .ok children) (hmem : child ∈ children)
    (hobject : child.asDict.isSome = true) :
    v = some (.list children) := by
  cases v with
  | none =>
    cases h
    cases hmem
  | some v =>
    by_cases hlist : ∃ vs, v = .list vs
    · obtain ⟨vs, rfl⟩ := hlist
      rw [Except.ok.inj h]
    grind [iterate_none]

theorem putChildren_updateFrom {p : Option Path} (hkind : kind node = .group)
    (hiter : iterate (node.field "children") = .ok children)
    (hpaths : pathsFrom paths 0 children = .ok ps) (hp : ∀ q, p = some q → q ∈ ps) :
    putChildren (updateFrom g 0 p children) node = updateSome g p node := by
  by_cases hlist : ∃ vs, node.field "children" = some (.list vs)
  · obtain ⟨vs, hfield⟩ := hlist
    rw [hfield] at hiter
    obtain rfl : vs = children := Except.ok.inj hiter
    simp only [putChildren, hfield]
    cases p with
    | none => exact putField_same hfield
    | some q =>
      obtain ⟨j, q, rfl, -⟩ := pathsFrom_lt hpaths q (hp q rfl)
      rw [updateFrom, updateSome, updateAt, childAt, hkind]
      simp only [hfield, Nat.sub_zero]
      grind [putField_same, putChild, List.modify_eq_set_getElem?]
  · have hnone : ps = [] := by
      cases hfield : node.field "children" with
      | none =>
        rw [hfield] at hiter
        cases hiter
        cases hpaths
        rfl
      | some v =>
        rw [hfield] at hiter
        have hobjects := iterate_none hiter fun vs hv => hlist ⟨vs, by rw [hfield, hv]⟩
        rw [pathsFrom_none hobjects] at hpaths
        exact (Except.ok.inj hpaths).symm
    have hp : p = none := by
      cases p with
      | none => rfl
      | some q =>
        rw [hnone] at hp
        cases hp q rfl
    simp_all [putChildren, updateSome]

/-- **The walk of a tree** changes the condition of the index, and nothing else. -/
theorem setTreeWalk_spec (h : conditionPaths frames node = .ok ps) :
    setTreeWalk index field value frames counter node =
      .ok (updateSome (putField · field value) (kth ps (index - counter - 1)) node,
        counter + ps.length) := by
  induction frames generalizing node counter ps with
  | zero => cases h
  | succ frames ih =>
    rw [conditionPaths] at h
    rw [setTreeWalk]
    cases hkind : kind node with
    | condition =>
      rw [hkind] at h
      cases h
      rw [kth_cons, kth_nil]
      by_cases hindex : counter + 1 = index
      · simp only [if_pos hindex]
        rw [if_pos (by omega)]
        rfl
      · simp only [if_neg hindex]
        rw [if_neg (by omega)]
        rfl
    | other => simp_all [kth_nil, updateSome]
    | not =>
      rw [hkind] at h
      dsimp only at h ⊢
      split at h
      · rename_i kvs hchild
        obtain ⟨qs, hqs, rfl⟩ := map_eq_ok.1 h
        rw [ih hqs, kth_map, List.length_map]
        cases kth qs (index - counter - 1) with
        | none => exact congrArg (fun n => Except.ok (n, _)) (putField_same hchild)
        | some q =>
          simp only [Option.map_some, updateSome, updateAt, childAt, putChild, hkind, hchild]
          rfl
      · cases h
        rw [kth_nil]
        simp [updateSome]
    | group =>
      rw [hkind] at h
      obtain ⟨children, hiter, hpaths⟩ := bind_eq_ok.1 h
      have hwalk : walkAll (setTreeWalk index field value frames) counter children =
          .ok (updateFrom (putField · field value) 0 (kth ps (index - counter - 1)) children,
            counter + ps.length) :=
        walkAll_spec (fun counter child ps hps => @ih child ps counter hps) hpaths
      dsimp only
      rw [hiter]
      show (walkAll _ counter children >>= _) = _
      rw [hwalk]
      exact congrArg (fun n => Except.ok (n, _))
        (putChildren_updateFrom hkind hiter hpaths fun q hq => mem_of_kth hq)

theorem pathsFrom_set

    (h : pathsFrom paths i children = .ok (before ++ p :: behind)) :
    ∃ j q child as bs, p = (i + j) :: q ∧ children[j]? = some child ∧
      child.asDict.isSome = true ∧ paths child = .ok (as ++ q :: bs) ∧
      ∀ child' (below : Except PyError (List Path)), child'.asDict.isSome = true →
        paths child' = below.map (fun qs => as ++ qs ++ bs) →
          pathsFrom paths i (children.set j child') =
            below.map (fun qs => before ++ qs.map ((i + j) :: ·) ++ behind) := by
  induction children generalizing i before with
  | nil =>
    have hnil : [] = before ++ p :: behind := Except.ok.inj h
    simp at hnil
  | cons child children ih =>
    rw [pathsFrom] at h
    obtain ⟨here, hhere, h₁⟩ := bind_eq_ok.1 h
    obtain ⟨rest, hrest, h₂⟩ := bind_eq_ok.1 h₁
    have hsplit : here.map (i :: ·) ++ rest = before ++ p :: behind := Except.ok.inj h₂
    -- The way is one of the first child, or one of the others.
    have hcases : (∃ later, here.map (i :: ·) = before ++ p :: later ∧ behind = later ++ rest) ∨
        ∃ more, before = here.map (i :: ·) ++ more ∧ rest = more ++ p :: behind := by
      rcases List.append_eq_append_iff.1 hsplit with ⟨more, hb, hr⟩ | ⟨later, hb, hr⟩
      · exact .inr ⟨more, hb, hr⟩
      · cases later with
        | nil => exact .inr ⟨[], by simpa using hb.symm, hr.symm⟩
        | cons q later => grind
    rcases hcases with ⟨later, hfirst, rfl⟩ | ⟨more, rfl, hothers⟩
    · obtain ⟨as, rest', rfl, rfl, hrest'⟩ := List.map_eq_append_iff.1 hfirst
      obtain ⟨q, bs, rfl, rfl, rfl⟩ := List.map_eq_cons_iff.1 hrest'
      have hobject : child.asDict.isSome = true := by
        by_contra hno
        rw [ifObject, if_neg hno] at hhere
        simp at hhere
      rw [ifObject, if_pos hobject] at hhere
      refine ⟨0, q, child, as, bs, rfl, rfl, hobject, hhere, fun child' below hobject' hpaths => ?_⟩
      rw [List.set_cons_zero, pathsFrom, ifObject, if_pos hobject', hpaths, hrest]
      cases below with
      | error e => rfl
      | ok qs =>
        show Except.ok _ = Except.ok _
        simp
    · rw [hothers] at hrest
      obtain ⟨j, q, child₁, as, bs, rfl, hchild, hobject, hpaths, hset⟩ := ih hrest
      refine ⟨j + 1, q, child₁, as, bs, by rw [show i + 1 + j = i + (j + 1) by omega], hchild,
        hobject, hpaths, fun child' below hobject' hpaths' => ?_⟩
      rw [List.set_cons_succ, pathsFrom, hhere, hset child' below hobject' hpaths',
        show i + 1 + j = i + (j + 1) by omega]
      cases below with
      | error e => rfl
      | ok qs =>
        show Except.ok _ = Except.ok _
        simp

theorem putField_object (key : String) (w : Value) (h : v.asDict.isSome = true) :
    (putField v key w).asDict.isSome = true := by
  cases v with
  | dict kvs => rfl
  | _ => exact h

theorem object_of_kind (h : kind node ≠ .other) : node.asDict.isSome = true := by
  obtain ⟨kvs, rfl, -⟩ := kind_asDict h
  rfl

/-- **The conditions of a tree, one of which was changed**: those before it, those the node now
    has, and those behind. -/
theorem conditionPaths_updateAt (h : conditionPaths frames node = .ok (before ++ p :: behind)) :
    ∃ c, nodeAt p node = some c ∧ kind c = .condition ∧ p.length < frames ∧
      ∀ g, (g c).asDict.isSome = true → (updateAt g p node).asDict.isSome = true ∧
        conditionPaths frames (updateAt g p node) = (conditionPaths (frames - p.length) (g c)).map
          (fun qs => before ++ qs.map (p ++ ·) ++ behind) := by
  induction frames generalizing node before behind p with
  | zero => cases h
  | succ frames ih =>
    rw [conditionPaths] at h
    cases hkind : kind node with
    | other =>
      rw [hkind] at h
      have hnil : [] = before ++ p :: behind := Except.ok.inj h
      simp at hnil
    | condition =>
      rw [hkind] at h
      have hone : [[]] = before ++ p :: behind := Except.ok.inj h
      obtain ⟨rfl, rfl, rfl⟩ : before = [] ∧ p = [] ∧ behind = [] := by
        cases before with
        | nil => grind
        | cons q before => simp at hone
      refine ⟨node, rfl, hkind, Nat.succ_pos _, fun g hobject => ⟨hobject, ?_⟩⟩
      show conditionPaths (frames + 1) (g node) = (conditionPaths (frames + 1) (g node)).map _
      cases conditionPaths (frames + 1) (g node) with
      | error e => rfl
      | ok qs =>
        show Except.ok _ = Except.ok _
        simp
    | not =>
      rw [hkind] at h
      have hnode : node.asDict.isSome = true := object_of_kind (by rw [hkind]; simp)
      cases hfield : node.field "child" with
      | none =>
        rw [hfield] at h
        simp at h
      | some child =>
        rw [hfield] at h
        cases child with
        | dict kvs =>
          obtain ⟨ways, hways, hmap⟩ := map_eq_ok.1 h
          obtain ⟨as, rest, rfl, rfl, hrest⟩ := List.map_eq_append_iff.1 hmap
          obtain ⟨q, bs, rfl, rfl, rfl⟩ := List.map_eq_cons_iff.1 hrest
          obtain ⟨c, hnodeAt, hcond, hlen, hupdate⟩ := ih hways
          have hchildAt : childAt 0 node = some (.dict kvs) := by simp only [childAt, hkind, hfield]
          refine ⟨c, by rw [nodeAt, hchildAt]; exact hnodeAt, hcond, by simpa using hlen,
            fun g hobject => ?_⟩
          rw [List.length_cons, Nat.add_sub_add_right]
          obtain ⟨hobject', hpaths⟩ := hupdate g hobject
          have hput : updateAt g (0 :: q) node =
              putField node "child" (updateAt g q (.dict kvs)) := by
            simp only [updateAt, hchildAt, putChild, hkind]
          have hfield' : (updateAt g (0 :: q) node).field "child" =
              some (updateAt g q (.dict kvs)) := by
            rw [hput, putField_field, if_pos ⟨hnode, rfl⟩]
          have hkind' : kind (updateAt g (0 :: q) node) = .not := by
            rw [hput, kind_putField (by decide), hkind]
          refine ⟨by rw [hput]; exact putField_object _ _ hnode, ?_⟩
          rw [conditionPaths, hkind', hfield']
          obtain ⟨kvs', hkvs'⟩ : ∃ kvs', updateAt g q (.dict kvs) = .dict kvs' := by
            cases hv : updateAt g q (.dict kvs) with
            | dict kvs' => exact ⟨kvs', rfl⟩
            | _ =>
              rw [hv] at hobject'
              cases hobject'
          rw [hkvs'] at hpaths ⊢
          dsimp only
          rw [hpaths]
          cases conditionPaths (frames - q.length) (g c) with
          | error e => rfl
          | ok qs =>
            show Except.ok _ = Except.ok _
            simp
        | _ => simp at h
    | group =>
      rw [hkind] at h
      have hnode : node.asDict.isSome = true := object_of_kind (by rw [hkind]; simp)
      obtain ⟨children, hiter, hpaths⟩ := bind_eq_ok.1 h
      obtain ⟨j, q, child, as, bs, rfl, hchild, hobject, hways, hset⟩ := pathsFrom_set hpaths
      obtain ⟨c, hnodeAt, hcond, hlen, hupdate⟩ := ih hways
      have hfield : node.field "children" = some (.list children) :=
        iterate_list hiter (List.mem_of_getElem? hchild) hobject
      simp only [Nat.zero_add] at hset ⊢
      have hchildAt : childAt j node = some child := by simp only [childAt, hkind, hfield, hchild]
      refine ⟨c, by rw [nodeAt, hchildAt]; exact hnodeAt, hcond, by simpa using hlen,
        fun g hobject => ?_⟩
      rw [List.length_cons, Nat.add_sub_add_right]
      obtain ⟨hobject', hpaths'⟩ := hupdate g hobject
      have hput : updateAt g (j :: q) node =
          putField node "children" (.list (children.set j (updateAt g q child))) := by
        simp only [updateAt, hchildAt, putChild, hkind, hfield]
      have hfield' : (updateAt g (j :: q) node).field "children" =
          some (.list (children.set j (updateAt g q child))) := by
        rw [hput, putField_field, if_pos ⟨hnode, rfl⟩]
      have hkind' : kind (updateAt g (j :: q) node) = .group := by
        rw [hput, kind_putField (by decide), hkind]
      refine ⟨by rw [hput]; exact putField_object _ _ hnode, ?_⟩
      rw [conditionPaths, hkind', hfield']
      show pathsFrom (conditionPaths frames) 0 (children.set j (updateAt g q child)) = _
      have hbelow : conditionPaths frames (updateAt g q child) =
          ((conditionPaths (frames - q.length) (g c)).map (List.map (q ++ ·))).map
            (fun qs => as ++ qs ++ bs) := by
        rw [hpaths']
        cases conditionPaths (frames - q.length) (g c) with
        | error e => rfl
        | ok qs => rfl
      rw [hset _ _ hobject' hbelow]
      cases conditionPaths (frames - q.length) (g c) with
      | error e => rfl
      | ok qs =>
        show Except.ok _ = Except.ok _
        simp

end Tree

/-! ### What the loop on nodes changes -/

section Nodes
variable {i : ℕ} {nodes : List Value} {g : Value → Value}

theorem mem_conditionPlaces {m : ℕ} : m ∈ conditionPlaces i nodes ↔
    ∃ node, i ≤ m ∧ nodes[m - i]? = some node ∧ kind node = .condition := by
  induction nodes generalizing i with
  | nil => simp [conditionPlaces]
  | cons node nodes ih =>
    have htail : m ∈ conditionPlaces (i + 1) nodes ↔
        i < m ∧ ∃ n, (node :: nodes)[m - i]? = some n ∧ kind n = .condition := by
      rw [ih]
      constructor
      · rintro ⟨n, hle, hn, hkind⟩
        refine ⟨hle, n, ?_, hkind⟩
        rw [show m - i = m - (i + 1) + 1 by omega, List.getElem?_cons_succ, hn]
      · rintro ⟨hlt, n, hn, hkind⟩
        rw [show m - i = m - (i + 1) + 1 by omega, List.getElem?_cons_succ] at hn
        exact ⟨n, hlt, hn, hkind⟩
    have hhead : (∃ n, i ≤ m ∧ (node :: nodes)[m - i]? = some n ∧ kind n = .condition) ↔
        (m = i ∧ kind node = .condition) ∨ m ∈ conditionPlaces (i + 1) nodes := by
      rw [htail]
      constructor
      · rintro ⟨n, hle, hn, hkind⟩
        rcases Nat.lt_or_eq_of_le hle with hlt | rfl
        · exact .inr ⟨hlt, n, hn, hkind⟩
        · rw [Nat.sub_self] at hn
          cases hn
          exact .inl ⟨rfl, hkind⟩
      · rintro (⟨rfl, hkind⟩ | ⟨hlt, n, hn, hkind⟩)
        · exact ⟨node, le_rfl, by rw [Nat.sub_self]; rfl, hkind⟩
        · exact ⟨n, hlt.le, hn, hkind⟩
    rw [hhead, conditionPlaces]
    split
    · simp [*]
    · simp [*]

theorem conditionPlaces_sorted : (conditionPlaces i nodes).Pairwise (· < ·) := by
  induction nodes generalizing i with
  | nil => exact .nil
  | cons node nodes ih =>
    rw [conditionPlaces]
    split
    · refine .cons (fun m hm => ?_) ih
      grind [mem_conditionPlaces]
    · exact ih

def modifySome (g : Value → Value) (i : ℕ) (m : Option ℕ) (nodes : List Value) : List Value :=
  match m with
  | some m => nodes.modify (m - i) g
  | none => nodes

theorem modifySome_cons {node : Value} {m : Option ℕ} (h : ∀ k, m = some k → i + 1 ≤ k) :
    modifySome g i m (node :: nodes) = node :: modifySome g (i + 1) m nodes := by
  cases m with
  | none => rfl
  | some k =>
    have hk := h k rfl
    grind [modifySome]

/-- **The loop on nodes** changes the condition of the index, and nothing else. -/
theorem setNodesWalk_spec {index counter : ℤ} {field : String} {value : Value}
    (h : ∀ node ∈ nodes, node.asDict.isSome = true) :
    setNodesWalk index field value counter nodes = .ok (modifySome (putField · field value) i
      (kth (conditionPlaces i nodes) (index - counter - 1)) nodes) := by
  induction nodes generalizing i counter with
  | nil =>
    rw [conditionPlaces, kth_nil]
    rfl
  | cons node nodes ih =>
    obtain ⟨kvs, hkvs⟩ := Option.isSome_iff_exists.1 (h node List.mem_cons_self)
    have hlater : ∀ {k : ℤ} m, kth (conditionPlaces (i + 1) nodes) k = some m → i + 1 ≤ m := by
      intro k m hm
      obtain ⟨-, hle, -⟩ := mem_conditionPlaces.1 (mem_of_kth hm)
      exact hle
    have htail := fun counter => @ih (i + 1) counter fun n hn => h n (List.mem_cons_of_mem _ hn)
    rw [setNodesWalk, hkvs, conditionPlaces]
    dsimp only
    by_cases hkind : kind node = .condition
    · rw [if_pos hkind, if_pos hkind, kth_cons]
      by_cases hindex : counter + 1 = index
      · rw [if_pos hindex, if_pos (by omega)]
        simp [modifySome]
      · rw [if_neg hindex, if_neg (by omega), htail,
          show index - counter - 1 - 1 = index - (counter + 1) - 1 by ring,
          modifySome_cons hlater]
        rfl
    · rw [if_neg hkind, if_neg hkind, htail, modifySome_cons hlater]
      rfl

/-- **The conditions among nodes, one of which was changed**. -/
theorem conditionPlaces_modify {before behind : List ℕ} {m : ℕ}
    (h : conditionPlaces i nodes = before ++ m :: behind) :
    ∃ node, nodes[m - i]? = some node ∧ kind node = .condition ∧
      ∀ g, conditionPlaces i (nodes.modify (m - i) g) =
        before ++ (if kind (g node) = .condition then [m] else []) ++ behind := by
  induction nodes generalizing i before with
  | nil =>
    rw [conditionPlaces] at h
    simp at h
  | cons node nodes ih =>
    rw [conditionPlaces] at h
    have hlater : ∀ {before}, conditionPlaces (i + 1) nodes = before ++ m :: behind →
        (node :: nodes)[m - i]? = nodes[m - (i + 1)]? ∧
          ∀ g, (node :: nodes).modify (m - i) g = node :: nodes.modify (m - (i + 1)) g := by
      intro before hbefore
      have hmem : m ∈ conditionPlaces (i + 1) nodes := by
        rw [hbefore]
        exact List.mem_append_right _ List.mem_cons_self
      obtain ⟨-, hle, -⟩ := mem_conditionPlaces.1 hmem
      rw [show m - i = m - (i + 1) + 1 by omega]
      exact ⟨rfl, fun g => rfl⟩
    by_cases hkind : kind node = .condition
    · rw [if_pos hkind] at h
      cases before with
      | nil =>
        obtain ⟨rfl, rfl⟩ := List.cons.inj h
        rw [Nat.sub_self]
        refine ⟨node, rfl, hkind, fun g => ?_⟩
        grind [conditionPlaces]
      | cons k before =>
        obtain ⟨rfl, htail⟩ := List.cons.inj h
        obtain ⟨n, hn, hcond, hmodify⟩ := ih htail
        obtain ⟨hget, hset⟩ := hlater htail
        refine ⟨n, hget.trans hn, hcond, fun g => ?_⟩
        rw [hset, conditionPlaces, if_pos hkind, hmodify]
        rfl
    · rw [if_neg hkind] at h
      obtain ⟨n, hn, hcond, hmodify⟩ := ih h
      obtain ⟨hget, hset⟩ := hlater h
      refine ⟨n, hget.trans hn, hcond, fun g => ?_⟩
      rw [hset, conditionPlaces, if_neg hkind, hmodify]

end Nodes

/-! ### Where a tree is written -/

section Flatten
variable {py : PyText} {s t : FlatNodes} {ws : List Dict} {node : Value} {logic : String}

/-- A node that is written for a condition of a tree; below a NOT its operator is turned. -/
def Writes (py : PyText) (c : Value) (w : Dict) : Prop :=
  ∃ id, w = conditionNode py id c ∨
    ∃ kvs, c = .dict kvs ∧ w = conditionNode py id (.dict (turned kvs))

/-- Every other of the nodes is written for a condition. -/
def Laid (s : FlatNodes) (ws : List Dict) : Prop :=
  (s.nodes = [] ∧ ws = []) ∨ (s.nodes.length + 1 = 2 * ws.length ∧ EndsInCondition s ∧
    ∀ j w, ws[j]? = some w → s.nodes[2 * j]? = some w)

theorem Laid.add (h : Laid s ws) (node : Value) (logic : String) :
    ∃ id, Laid (addCondition py s node logic) (ws ++ [conditionNode py id node]) := by
  obtain ⟨id, hnodes⟩ := @addCondition_nodes py s node logic
  refine ⟨id, .inr ?_⟩
  rcases h with ⟨hnone, rfl⟩ | ⟨hlen, hends, hplaces⟩
  · rw [joinWith_first hnone, hnone] at hnodes
    rw [hnodes]
    refine ⟨rfl, addCondition_ends s node logic, fun j w hw => ?_⟩
    obtain ⟨rfl, rfl⟩ : j = 0 ∧ w = conditionNode py id node := by grind
    rfl
  · obtain ⟨name, hjoin⟩ := joinWith_next hends logic
    rw [hjoin, List.append_assoc] at hnodes
    rw [hnodes]
    refine ⟨by simp; omega, addCondition_ends s node logic, fun j w hw => ?_⟩
    rcases Nat.lt_or_ge j ws.length with hlt | hge
    · grind
    · rw [List.getElem?_append_right hge] at hw
      obtain ⟨hzero, rfl⟩ : j - ws.length = 0 ∧ w = conditionNode py id node := by grind
      rw [List.getElem?_append_right (by omega), show 2 * j - s.nodes.length = 1 by omega]
      rfl

/-- What is written for the conditions below a node. -/
def WritesAt (py : PyText) (node : Value) (p : Path) (w : Dict) : Prop :=
  ∃ c, nodeAt p node = some c ∧ Writes py c w

theorem foldlM_laid {paths : Value → Except PyError (List Path)}
    {f : FlatNodes → Value → Except PyError FlatNodes} {i : ℕ} {children : List Value}
    (hchild : ∀ child ∈ children, ∀ s ws t, Laid s ws → f s child = .ok t →
      ∃ ps ws', paths child = .ok ps ∧ child.asDict.isSome = true ∧ Laid t (ws ++ ws') ∧
        List.Forall₂ (WritesAt py child) ps ws')
    (hs : Laid s ws) (hf : children.foldlM f s = .ok t) :
    ∃ ps ws', pathsFrom paths i children = .ok ps ∧ Laid t (ws ++ ws') ∧
      List.Forall₂ (fun p w => ∃ j q child, p = (i + j) :: q ∧ children[j]? = some child ∧
        child.asDict.isSome = true ∧ WritesAt py child q w) ps ws' := by
  induction children generalizing i s ws with
  | nil =>
    cases hf
    exact ⟨[], [], rfl, by simpa using hs, .nil⟩
  | cons child children ih =>
    rw [List.foldlM_cons] at hf
    obtain ⟨u, hu, hf⟩ := bind_eq_ok.1 hf
    obtain ⟨here, hws, hhere, hobject, hlaid, hwrites⟩ :=
      hchild child List.mem_cons_self s ws u hs hu
    obtain ⟨rest, rws, hrest, hlaid', hwrites'⟩ := @ih u (ws ++ hws) (i + 1)
      (fun c hc => hchild c (List.mem_cons_of_mem _ hc)) hlaid hf
    refine ⟨here.map (i :: ·) ++ rest, hws ++ rws, ?_, by rwa [← List.append_assoc], ?_⟩
    · rw [pathsFrom, ifObject, if_pos hobject, hhere, hrest]
      rfl
    · refine List.rel_append ?_ ?_
      · rw [List.forall₂_map_left_iff]
        exact hwrites.imp fun q w hw => ⟨0, q, child, rfl, rfl, hobject, hw⟩
      · refine hwrites'.imp ?_
        rintro p w ⟨j, q, c, rfl, hc, hobject', hw⟩
        exact ⟨j + 1, q, c, by rw [show i + 1 + j = i + (j + 1) by omega], hc, hobject', hw⟩

theorem kind_of_type {kvs : Dict} (h : kvs.lookup "type" = some (.str "condition")) :
    kind (.dict kvs) = .condition := by
  rw [kind, nodeType, Value.field, h]
  rfl

theorem negatedChild_ok {child : Value} (h : negatedChild node = .ok child) :
    (child = .dict [] ∧ ∀ kvs, node.field "child" = some (.dict kvs) → kvs = []) ∨
      ∃ kvs, node.field "child" = some (.dict kvs) ∧ (child = .dict kvs ∨
        (kind (.dict kvs) = .condition ∧ child = .dict (turned kvs))) := by
  by_cases hany : (node.field "child").any Value.truthy = true
  · cases hfield : node.field "child" with
    | none =>
      rw [hfield] at hany
      cases hany
    | some v =>
      rw [hfield] at hany
      have hv := Value.orElse_of_any (b := .dict []) hfield hany
      cases v with
      | dict kvs =>
        rw [negatedChild_dict hv] at h
        refine .inr ⟨kvs, rfl, ?_⟩
        split at h
        · exact .inr ⟨kind_of_type ‹_›, (Except.ok.inj h).symm⟩
        · exact .inl (Except.ok.inj h).symm
      | _ =>
        rw [negatedChild, hv] at h
        cases h
  · rw [Bool.not_eq_true] at hany
    rw [negatedChild_dict (Value.orElse_of_not_any _ hany)] at h
    refine .inl ⟨(Except.ok.inj h).symm, fun kvs hkvs => ?_⟩
    rw [hkvs] at hany
    cases kvs with
    | nil => rfl
    | cons kv kvs => cases hany

/-- **A tree is written** condition by condition, depth first. -/
theorem flattenWalk_laid {f frames : ℕ} (hs : Laid s ws)
    (hwalk : flattenWalk py f s node logic = .ok t) (hle : f ≤ frames) :
    ∃ ps ws', conditionPaths frames node = .ok ps ∧ node.asDict.isSome = true ∧
      Laid t (ws ++ ws') ∧ List.Forall₂ (WritesAt py node) ps ws' := by
  induction f generalizing frames node logic s t ws with
  | zero => cases hwalk
  | succ f ih =>
    obtain ⟨frames, rfl⟩ : ∃ n, frames = n + 1 := ⟨frames - 1, by omega⟩
    have hle : f ≤ frames := by omega
    cases hkind : kind node with
    | condition =>
      obtain ⟨kvs, rfl, -⟩ := kind_asDict (by rw [hkind]; simp : kind node ≠ .other)
      rw [flattenWalk_condition hkind] at hwalk
      cases hwalk
      obtain ⟨id, hlaid⟩ := @Laid.add py s ws hs (.dict kvs) logic
      refine ⟨[[]], [conditionNode py id (.dict kvs)], ?_, rfl, hlaid, ?_⟩
      · rw [conditionPaths, hkind]
      · exact .cons ⟨_, rfl, id, .inl rfl⟩ .nil
    | other =>
      rw [flattenWalk, hkind] at hwalk
      cases hdict : node.asDict with
      | none =>
        rw [hdict] at hwalk
        cases hwalk
      | some kvs =>
        rw [hdict] at hwalk
        cases hwalk
        refine ⟨[], [], by rw [conditionPaths, hkind], rfl, by simpa using hs, .nil⟩
    | not =>
      obtain ⟨node', rfl, -⟩ := kind_asDict (by rw [hkind]; simp : kind node ≠ .other)
      rw [flattenWalk, hkind] at hwalk
      obtain ⟨child, hchild, hwalk⟩ := bind_eq_ok.1 hwalk
      cases f with
      | zero => cases hwalk
      | succ f =>
        obtain ⟨frames, rfl⟩ : ∃ n, frames = n + 1 := ⟨frames - 1, by omega⟩
        have hpaths : ∀ {kvs ps}, (Value.dict node').field "child" = some (.dict kvs) →
            conditionPaths (frames + 1) (.dict kvs) = .ok ps →
              conditionPaths (frames + 1 + 1) (.dict node') = .ok (ps.map (0 :: ·)) := by
          intro kvs ps hfield hps
          rw [conditionPaths, hkind, hfield]
          dsimp only
          rw [hps]
          rfl
        have hat : ∀ {kvs}, (Value.dict node').field "child" = some (.dict kvs) →
            ∀ q, nodeAt (0 :: q) (.dict node') = nodeAt q (.dict kvs) := by
          intro kvs hfield q
          rw [nodeAt, childAt, hkind]
          dsimp only
          rw [hfield]
          rfl
        rcases negatedChild_ok hchild with ⟨rfl, hnone⟩ | ⟨kvs, hfield, rfl | ⟨hcond, rfl⟩⟩
        · cases hwalk
          refine ⟨[], [], ?_, rfl, by simpa using hs, .nil⟩
          rw [conditionPaths, hkind]
          dsimp only
          split
          · rename_i kvs hfield
            rw [hnone kvs hfield]
            rfl
          · rfl
        · obtain ⟨ps, ws', hps, -, hlaid, hwrites⟩ := ih hs hwalk hle
          refine ⟨ps.map (0 :: ·), ws', hpaths hfield hps, rfl, hlaid, ?_⟩
          rw [List.forall₂_map_left_iff]
          refine hwrites.imp ?_
          rintro q w ⟨c, hc, hw⟩
          exact ⟨c, (hat hfield q).trans hc, hw⟩
        · have hturned : kind (.dict (turned kvs)) = .condition :=
            condition_setKey (condition_type hcond)
          rw [flattenWalk_condition hturned] at hwalk
          cases hwalk
          obtain ⟨id, hlaid⟩ := @Laid.add py s ws hs (.dict (turned kvs)) logic
          refine ⟨[[0]], [conditionNode py id (.dict (turned kvs))], ?_, rfl, hlaid, ?_⟩
          · exact @hpaths kvs [[]] hfield (by rw [conditionPaths, hcond])
          · exact .cons ⟨.dict kvs, hat hfield [], id, .inr ⟨kvs, rfl, rfl⟩⟩ .nil
    | group =>
      obtain ⟨node', rfl, -⟩ := kind_asDict (by rw [hkind]; simp : kind node ≠ .other)
      rw [flattenWalk, hkind] at hwalk
      obtain ⟨children, hiter, hwalk⟩ := bind_eq_ok.1 hwalk
      obtain ⟨ps, ws', hpaths, hlaid, hwrites⟩ := @foldlM_laid py s t ws (conditionPaths frames) _ 0
        children (fun child _ s ws t hs hwalk => ih hs hwalk hle) hs hwalk
      refine ⟨ps, ws', ?_, rfl, hlaid, ?_⟩
      · rw [conditionPaths, hkind]
        show (iterate _ >>= _) = _
        rw [hiter]
        exact hpaths
      · refine hwrites.imp ?_
        rintro p w ⟨j, q, child, rfl, hchild, hobject, c, hc, hw⟩
        have hfield := iterate_list hiter (List.mem_of_getElem? hchild) hobject
        refine ⟨c, ?_, hw⟩
        rw [Nat.zero_add, nodeAt]
        simp only [childAt, hkind, hfield, hchild]
        exact hc

/-- Where the nodes of a tree have its conditions. -/
structure Written (py : PyText) (tree : Value) (nodes : List Dict) (ps : List Path)
    (ws : List Dict) : Prop where
  writes : List.Forall₂ (WritesAt py tree) ps ws
  places : ∀ j w, ws[j]? = some w → nodes[2 * j]? = some w
  others : ∀ m node, m % 2 = 0 → ps.length ≤ m / 2 → nodes[m]? = some node →
    kind (.dict node) ≠ .condition

theorem addOutcome_nodes (s : FlatNodes) (onPass : String) :
    ∃ more, (addOutcome s onPass).nodes = s.nodes ++ more ∧ more.length ≤ 1 ∧
      ∀ node ∈ more, kind (.dict node) ≠ .condition := by
  rw [addOutcome]
  split
  · rename_i houtcome
    refine ⟨[_], rfl, le_rfl, List.forall_mem_singleton.2 ?_⟩
    have hne : onPass ≠ "condition" := by
      rintro rfl
      cases houtcome
    have htype : ∀ id, nodeType (.dict [("id", id), ("type", .str onPass),
        ("label", .str onPass.capitalize)]) = some onPass := fun _ => rfl
    rw [kind, htype, if_neg (by simpa using hne)]
    split
    · simp
    · split
      · simp
      · simp
  simp

/-- **The nodes of a tree**: every other is written for a condition of it, in their order. -/
theorem flattenTree_written {f frames : ℕ} {tree : Value} {nodes : List Dict}
    (h : flattenTreeToNodes py f tree = .ok nodes) (hle : f ≤ frames) (hpos : 0 < frames) :
    ∃ ps ws, conditionPaths frames tree = .ok ps ∧ Written py tree nodes ps ws := by
  rw [flattenTreeToNodes] at h
  split at h
  · obtain ⟨s, hwalk, hnodes⟩ := bind_eq_ok.1 h
    obtain rfl := Except.ok.inj hnodes
    have hstart : Laid ⟨[], 1⟩ [] := .inl ⟨rfl, rfl⟩
    obtain ⟨ps, ws, hps, -, hlaid, hwrites⟩ := flattenWalk_laid hstart hwalk hle
    obtain ⟨more, hmore, hone, hothers⟩ :=
      addOutcome_nodes s (py.str ((tree.field "onPass").getD (.str "approve")))
    rw [hmore]
    refine ⟨ps, ws, hps, hwrites, fun j w hw => ?_, fun m node heven hlarge hnode => ?_⟩
    · rcases hlaid with ⟨-, hnil⟩ | ⟨-, -, hplaces⟩
      · rw [List.nil_append] at hnil
        rw [hnil] at hw
        cases hw
      · grind
    · rw [hwrites.length_eq] at hlarge
      have hbehind : s.nodes.length ≤ m := by
        rcases hlaid with ⟨hnil, -⟩ | ⟨hlen, -, -⟩
        · rw [hnil]
          exact Nat.zero_le _
        · rw [List.nil_append] at hlen
          omega
      grind
  · cases h
    obtain ⟨frames, rfl⟩ : ∃ n, frames = n + 1 := ⟨frames - 1, by omega⟩
    have hother : kind tree = .other := by
      by_contra hne
      obtain ⟨-, -, htruthy⟩ := kind_asDict hne
      contradiction
    refine ⟨[], [], by rw [conditionPaths, hother], .nil, ?_, ?_⟩
    · intro j w hw
      cases hw
    · intro m node _ _ hnode
      cases hnode

end Flatten

end RuleMind.Overrides
