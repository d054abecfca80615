/-
  What the branches of a rule say about an assignment of values to fields.
-/
import RuleMind.Mece
import Mathlib.Data.List.ReduceOption

namespace RuleMind.Mece

/-! ### The meaning of a rule -/

/-- A condition: what the analysis reads of it, and what it is compared with. -/
structure Condition where
  config : Dict
  value : Value
  value2 : Value
  fieldType : Value

def Condition.ofConfig (config : Dict) : Condition :=
  ⟨config, entry config "value", entry config "value2", entry config "fieldType"⟩

/-- A condition of the shorthand, compared with all its entries. -/
def Condition.shorthand (kvs : Dict) : Condition :=
  ⟨shorthandConfig kvs, entry kvs "value", entry kvs "value2", entry kvs "fieldType"⟩

section Meaning
variable (py : PyText) (search : RegexSearch) (d : Definition) (a : String → Value)

def subject (config : Dict) : Value :=
  match config.lookup "field" with
  | some (.str name) => a name
  | _ => .null

def conditionHolds (c : Condition) : Except PyError Bool :=
  compare py search (subject a c.config) (operatorOf c.config) c.value c.value2 c.fieldType

def anyHolds (below : String → Except PyError Bool) : List String → Except PyError Bool
  | [] => .ok true
  | [nid] => below nid
  | nid :: nids => do
    if ← below nid then
      .ok true
    else
      anyHolds below nids

def allHold (below : String → Except PyError Bool) : List String → Except PyError Bool
  | [] => .ok true
  | nid :: nids => do
    if ← below nid then
      allHold below nids
    else
      .ok false

/-- A node of the graph, combined as its type says; a node below itself says nothing. -/
def holds : ℕ → List String → String → Except PyError Bool
  | 0, _, _ => .ok true
  | f + 1, visiting, nid =>
    if nid ∈ visiting then .ok true
    else match d.node nid with
      | none => .ok true
      | some node =>
        let below := holds f (nid :: visiting)
        let children := d.children nid
        match node.role with
        | .error e => .error e
        | .ok .condition | .ok .score => do
          let config ← node.configOf
          if ← conditionHolds py search a (.ofConfig config) then
            anyHolds below children
          else
            .ok false
        | .ok .and => allHold below children
        | .ok .or | .ok .trigger => anyHolds below children
        | .ok .not =>
          match children with
          | [] => .ok true
          | child :: _ => (below child).map (!·)
        | .ok _ => .ok true

def shorthandHolds (cond : Value) : Except PyError Bool :=
  match cond.asDict with
  | none => .error .attributeError
  | some kvs => conditionHolds py search a (.shorthand kvs)

def allShorthand : List Value → Except PyError Bool
  | [] => .ok true
  | cond :: conds => do
    if ← shorthandHolds py search a cond then
      allShorthand conds
    else
      .ok false

/-- A rule: the shorthand, or one of the roots of its graph. -/
def ruleHolds : Except PyError Bool :=
  if d.conditions.isEmpty then
    anyHolds (holds py search d a (d.nodes.length + 1) []) d.roots
  else allShorthand py search a d.conditions

end Meaning

/-! ### Lists of nodes -/

section Nodes
variable {below : String → Except PyError Bool}

theorem anyHolds_true : ∀ {nids : List String}, anyHolds below nids = .ok true →
    nids = [] ∨ ∃ nid ∈ nids, below nid = .ok true
  | [], _ => Or.inl rfl
  | [nid], h => Or.inr ⟨nid, List.mem_singleton_self _, h⟩
  | nid :: nid' :: nids, h => by
    right
    rw [anyHolds] at h
    · obtain ⟨b, hb, h⟩ := bind_eq_ok.1 h
      cases b with
      | true => exact ⟨nid, List.mem_cons_self, hb⟩
      | false =>
        rcases anyHolds_true h with hnil | ⟨n, hn, hval⟩
        · cases hnil
        · exact ⟨n, List.mem_cons_of_mem _ hn, hval⟩
    · intro hnil
      cases hnil

theorem anyHolds_false : ∀ {nids : List String}, anyHolds below nids = .ok false →
    nids ≠ [] ∧ ∀ nid ∈ nids, below nid = .ok false
  | [], h => by cases h
  | [nid], h => by
    refine ⟨List.cons_ne_nil _ _, fun n hn => ?_⟩
    rw [List.mem_singleton.1 hn]
    exact h
  | nid :: nid' :: nids, h => by
    refine ⟨List.cons_ne_nil _ _, ?_⟩
    rw [anyHolds] at h
    · obtain ⟨b, hb, h⟩ := bind_eq_ok.1 h
      cases b with
      | true => cases h
      | false =>
        intro n hn
        rcases List.mem_cons.1 hn with rfl | hn
        · exact hb
        · exact (anyHolds_false h).2 n hn
    · intro hnil
      cases hnil

theorem allHold_true {nids : List String} (h : allHold below nids = .ok true) :
    ∀ nid ∈ nids, below nid = .ok true := by
  induction nids with
  | nil => exact fun _ hn => nomatch hn
  | cons n nids ih =>
    obtain ⟨b, hb, h⟩ := bind_eq_ok.1 h
    cases b with
    | false => cases h
    | true => simp_all

theorem allHold_false {nids : List String} (h : allHold below nids = .ok false) :
    ∃ nid ∈ nids, below nid = .ok false := by
  induction nids with
  | nil => cases h
  | cons n nids ih =>
    obtain ⟨b, hb, h⟩ := bind_eq_ok.1 h
    grind

end Nodes

section Branches
variable {H : FieldConstraint → Prop}

def BranchHolds (H : FieldConstraint → Prop) (b : Branch) : Prop := ∀ c ∈ b, H c

variable {b b' : Branch} {bs result : List Branch} {parts : List (List Branch)}

theorem mem_orUnconstrained (h : b ∈ bs) : b ∈ orUnconstrained bs := by grind -ring -linarith [orUnconstrained]

theorem of_mem_orUnconstrained (h : b ∈ orUnconstrained bs) : b ∈ bs ∨ (bs = [] ∧ b = []) := by
  unfold orUnconstrained at h
  grind -ring -linarith

theorem orUnconstrained_holds (h : bs = [] ∨ ∃ b ∈ bs, BranchHolds H b) :
    ∃ b ∈ orUnconstrained bs, BranchHolds H b := by
  rcases h with rfl | ⟨b, hb, hh⟩
  · exact ⟨[], List.mem_singleton_self _, fun _ hc => nomatch hc⟩
  · exact ⟨b, mem_orUnconstrained hb, hh⟩

theorem branchHolds_append : BranchHolds H (b ++ b') ↔ BranchHolds H b ∧ BranchHolds H b' := by
  grind [BranchHolds]

/-! #### AND -/

theorem crossCapped_eq {parts : List Branch} (h : result.length * parts.length ≤ BRANCH_CAP) :
    crossCapped result parts = result.flatMap fun branch => parts.map (branch ++ ·) := by
  apply List.take_of_length_le
  rw [List.length_flatMap]
  simpa using h

theorem expandAnd_above
    (hresult : ∃ b ∈ result, BranchHolds H b) (hparts : ∀ part ∈ parts, ∃ b ∈ part, BranchHolds H b)
    (hcap : result.length * (parts.map List.length).prod ≤ BRANCH_CAP) :
    ∃ b ∈ parts.foldl crossCapped result, BranchHolds H b := by
  induction parts generalizing result with
  | nil => exact hresult
  | cons part parts ih =>
    obtain ⟨b, hb, hholds⟩ := hresult
    obtain ⟨c, hc, hcholds⟩ := hparts part List.mem_cons_self
    have hrest : 0 < (parts.map List.length).prod := by
      apply List.prod_pos_iff_forall_pos_nat.2
      intro n hn
      obtain ⟨p, hp, rfl⟩ := List.mem_map.1 hn
      obtain ⟨e, he, -⟩ := hparts p (List.mem_cons_of_mem _ hp)
      exact List.length_pos_of_mem he
    rw [List.map_cons, List.prod_cons, ← mul_assoc] at hcap
    have hlen : result.length * part.length ≤ BRANCH_CAP :=
      le_trans (Nat.le_mul_of_pos_right _ hrest) hcap
    rw [List.foldl_cons, crossCapped_eq hlen]
    refine ih ⟨b ++ c, ?_, branchHolds_append.2 ⟨hholds, hcholds⟩⟩
      (fun p hp => hparts p (List.mem_cons_of_mem _ hp)) ?_
    · grind
    · simpa using hcap

theorem expandAnd_below (hb : b ∈ parts.foldl crossCapped result) (hholds : BranchHolds H b) :
    (∃ c ∈ result, BranchHolds H c) ∧ ∀ part ∈ parts, ∃ c ∈ part, BranchHolds H c := by
  induction parts generalizing result with
  | nil => exact ⟨⟨b, hb, hholds⟩, fun _ hp => nomatch hp⟩
  | cons part parts ih =>
    obtain ⟨⟨c, hc, hcholds⟩, hrest⟩ := ih hb
    obtain ⟨r, hr, hmem⟩ := List.mem_flatMap.1 (List.mem_of_mem_take hc)
    obtain ⟨e, he, rfl⟩ := List.mem_map.1 hmem
    obtain ⟨h1, h2⟩ := branchHolds_append.1 hcholds
    grind

variable {c : FieldConstraint} {walk : String → Except PyError (List Branch)} {children : List
  String} {branches : List Branch}

theorem expandAnd_mem (hb : b ∈ parts.foldl crossCapped result) (hc : c ∈ b) :
    (∃ r ∈ result, c ∈ r) ∨ ∃ part ∈ parts, ∃ b' ∈ part, c ∈ b' := by
  induction parts generalizing result with
  | nil => exact Or.inl ⟨b, hb, hc⟩
  | cons part parts ih =>
    rcases ih hb with ⟨r, hr, hcr⟩ | ⟨p, hp, hmem⟩
    · obtain ⟨r', hr', hmem⟩ := List.mem_flatMap.1 (List.mem_of_mem_take hr)
      grind
    · exact Or.inr ⟨p, List.mem_cons_of_mem _ hp, hmem⟩

theorem expandOr_eq (h : children.mapM walk = .ok parts)
    (hcap : branches.length + (parts.map List.length).sum ≤ BRANCH_CAP) :
    expandOr walk branches children = .ok (branches ++ parts.flatten) := by
  induction children generalizing branches parts with
  | nil =>
    cases h
    rw [expandOr, List.take_of_length_le (by simpa using hcap)]
    simp
  | cons child children ih =>
    rw [List.mapM_cons] at h
    obtain ⟨part, hpart, h⟩ := bind_eq_ok.1 h
    obtain ⟨rest, hrest, h⟩ := bind_eq_ok.1 h
    cases h
    rw [List.map_cons, List.sum_cons] at hcap
    rw [expandOr]
    split
    · -- the cap is reached: what is left has no branches
      have hnil : (part :: rest).flatten = [] := by
        rw [← List.length_eq_zero_iff, List.length_flatten, List.map_cons, List.sum_cons]
        omega
      rw [hnil, List.append_nil, List.take_of_length_le (by omega)]
    · rw [hpart]
      show expandOr walk (branches ++ part) children = _
      grind

theorem expandOr_mem (h : expandOr walk branches children = .ok result) (hb : b ∈ result) :
    b ∈ branches ∨ ∃ child ∈ children, ∃ part, walk child = .ok part ∧ b ∈ part := by
  induction children generalizing branches with
  | nil =>
    cases h
    exact Or.inl (List.mem_of_mem_take hb)
  | cons child children ih => grind [expandOr, bind_eq_ok]

/-! #### NOT -/

/-- What inversion does to the constraints of a shape. -/
structure Inverts (H shaped : FieldConstraint → Prop) : Prop where
  shape : ∀ c, shaped c → ∀ b ∈ invertConstraint c, ∀ c' ∈ b, shaped c'
  complete : ∀ c, shaped c → ¬ H c → ∃ b ∈ invertConstraint c, BranchHolds H b
  sound : ∀ c, shaped c → c.isOpaque = false → ∀ b ∈ invertConstraint c, BranchHolds H b → ¬ H c

theorem mem_invertBranch (h : b' ∈ invertBranch b) :
    ∃ c ∈ b, b' ∈ invertConstraint c ∨ (invertConstraint c = [] ∧ b' = []) := by
  unfold invertBranch at h
  grind [of_mem_orUnconstrained]

theorem invertBranch_mem (hc : c ∈ b) (h : b' ∈ invertConstraint c) : b' ∈ invertBranch b := by
  unfold invertBranch
  grind [mem_orUnconstrained]

variable {shaped : FieldConstraint → Prop}

theorem invertBranches_shape (hi : Inverts H shaped)
    (hs : ∀ b ∈ bs, ∀ c ∈ b, shaped c) : ∀ b ∈ invertBranches bs, ∀ c ∈ b, shaped c := by
  intro b hb c hc
  rcases of_mem_orUnconstrained hb with hb | ⟨-, rfl⟩
  · obtain ⟨b', hb', hmem⟩ := List.mem_flatMap.1 hb
    obtain ⟨e, he, hmem | ⟨-, rfl⟩⟩ := mem_invertBranch hmem
    · exact hi.shape e (hs b' hb' e he) b hmem c hc
    · cases hc
  · cases hc

theorem invertBranches_above (hi : Inverts H shaped)
    (hs : ∀ b ∈ bs, ∀ c ∈ b, shaped c) (hfail : ∀ b ∈ bs, ¬ BranchHolds H b) :
    ∃ b ∈ invertBranches bs, BranchHolds H b := by
  apply orUnconstrained_holds
  cases bs with
  | nil => exact Or.inl rfl
  | cons b bs =>
    right
    obtain ⟨c, hc, hnot⟩ : ∃ c ∈ b, ¬ H c := by
      by_contra hall
      push Not at hall
      exact hfail b List.mem_cons_self hall
    obtain ⟨b', hb', hholds⟩ := hi.complete c (hs b List.mem_cons_self c hc) hnot
    exact ⟨b', List.mem_flatMap.2 ⟨b, List.mem_cons_self, invertBranch_mem hc hb'⟩, hholds⟩

/-- A branch all constraints of which can be inverted. -/
def Invertible (b : Branch) : Prop := b ≠ [] ∧ ∀ c ∈ b, c.isOpaque = false ∧ invertConstraint c ≠ []

theorem invertBranches_below (hi : Inverts H shaped) (hs : ∀ c ∈ b, shaped c)
    (hinv : Invertible b) (hb' : b' ∈ invertBranches [b]) (hholds : BranchHolds H b') :
    ¬ BranchHolds H b := by
  rw [invertBranches, List.flatMap_singleton] at hb'
  have hmem : b' ∈ invertBranch b := by
    rcases of_mem_orUnconstrained hb' with h | ⟨hnil, -⟩
    · exact h
    · obtain ⟨c, hc⟩ := List.exists_mem_of_ne_nil _ hinv.1
      obtain ⟨e, he⟩ := List.exists_mem_of_ne_nil _ (hinv.2 c hc).2
      have := invertBranch_mem hc he
      rw [hnil] at this
      cases this
  obtain ⟨c, hc, h | ⟨hnil, -⟩⟩ := mem_invertBranch hmem
  · exact fun hb => hi.sound c (hs c hc) (hinv.2 c hc).1 b' h hholds (hb c hc)
  · exact absurd hnil (hinv.2 c hc).2

end Branches

/-! ### Nodes that are approximated -/

section Clear
variable (py : PyText) (d : Definition) (fits : Bool → Bool → Condition → Prop)

/-- The children expand to no more branches than the cap allows. -/
def WithinCap (below : String → Except PyError (List Branch)) (children : List String)
    (measure : List ℕ → ℕ) : Prop :=
  ∃ parts, children.mapM below = .ok parts ∧ measure (parts.map List.length) ≤ BRANCH_CAP

/-- The conditions below a node fit, from above or below as the negations over them make it;
    no branch is cut off where it is approximated from above, and a negation approximated
    from below is of a single branch. -/
def Clear : Bool → ℕ → List String → String → Prop
  | _, 0, _, _ => True
  | above, f + 1, visiting, nid =>
    if nid ∈ visiting then True
    else match d.node nid with
      | none => True
      | some node =>
        let children := d.children nid
        let branches := walk py d f (nid :: visiting)
        match node.role with
        | .error _ => True
        | .ok .condition | .ok .score =>
          (∀ config, node.configOf = .ok config →
            fits above (node.type = .score) (.ofConfig config)) ∧
          ∀ child ∈ children, Clear above f (nid :: visiting) child
        | .ok .and =>
          (∀ child ∈ children, Clear above f (nid :: visiting) child) ∧
          (above = true → WithinCap branches children List.prod)
        | .ok .or =>
          (∀ child ∈ children, Clear above f (nid :: visiting) child) ∧
          (above = true → WithinCap branches children List.sum)
        | .ok .trigger => ∀ child ∈ children, Clear above f (nid :: visiting) child
        | .ok .not => ∀ child, children.head? = some child →
          Clear (!above) f (nid :: visiting) child ∧
          (above = false → ∃ b, branches child = .ok [b] ∧ Invertible b)
        | .ok _ => True

end Clear

/-! ### The approximation -/

section Approximation
variable {py : PyText} {search : RegexSearch} {d : Definition} {a : String → Value}
variable {H shaped : FieldConstraint → Prop} {fits : Bool → Bool → Condition → Prop}

/-- What the constraint of a fitting condition says of the assignment. -/
structure Fitting (py : PyText) (search : RegexSearch) (a : String → Value)
    (H shaped : FieldConstraint → Prop) (fits : Bool → Bool → Condition → Prop) : Prop where
  shape : ∀ {above score c k}, fits above score c →
    extractConstraint py score c.config = .ok (some k) → shaped k
  above : ∀ {score c k}, fits true score c → extractConstraint py score c.config = .ok (some k) →
    conditionHolds py search a c = .ok true → H k
  below : ∀ {score c k}, fits false score c → extractConstraint py score c.config = .ok k →
    ∃ k', k = some k' ∧ (conditionHolds py search a c = .ok false → ¬ H k')

/-- Where the value is true a branch holds, or where it is false none does. -/
def Approx (H : FieldConstraint → Prop) (above : Bool) (branches : List Branch) (v : Bool) : Prop :=
  if above then v = true → ∃ b ∈ branches, BranchHolds H b
  else v = false → ∀ b ∈ branches, ¬ BranchHolds H b

/-- Branches of the shape, that approximate what a node evaluates to. -/
structure Approximates (H shaped : FieldConstraint → Prop) (above : Bool) (branches : List Branch)
    (value : Except PyError Bool) : Prop where
  nonempty : branches ≠ []
  shape : ∀ b ∈ branches, ∀ c ∈ b, shaped c
  approx : ∀ v, value = .ok v → Approx H above branches v

theorem orUnconstrained_ne_nil (bs : List Branch) : orUnconstrained bs ≠ [] := by
  unfold orUnconstrained
  grind -ring -linarith

theorem unconstrained_shape : ∀ b ∈ ([[]] : List Branch), ∀ c ∈ b, shaped c := by simp

theorem approximates_unconstrained {value : Except PyError Bool} :
    Approximates H shaped true [[]] value :=
  ⟨List.cons_ne_nil _ _, unconstrained_shape,
    fun _ _ _ => ⟨[], List.mem_singleton_self _, fun _ hc => nomatch hc⟩⟩

variable {above : Bool} {branches : List Branch} {conds : List Value}

theorem approximates_true : Approximates H shaped above [[]] (.ok true) := by
  cases above with
  | true => exact approximates_unconstrained
  | false =>
    refine ⟨List.cons_ne_nil _ _, unconstrained_shape, ?_⟩
    intro v hv hfalse
    cases hv
    cases hfalse

section Nodes
variable {branchesOf : String → Except PyError (List Branch)} {valueOf : String → Except PyError Bool}
variable {above : Bool} {children : List String} {parts : List (List Branch)}

/-- The children one by one are approximated by what they expand to. -/
def Children (H shaped : FieldConstraint → Prop) (above : Bool)
    (branchesOf : String → Except PyError (List Branch))
    (valueOf : String → Except PyError Bool) (children : List String) : Prop :=
  ∀ child ∈ children, ∀ part, branchesOf child = .ok part →
    Approximates H shaped above part (valueOf child)

theorem approximates_any (h : Children H shaped above branchesOf valueOf children)
    (hp : children.mapM branchesOf = .ok parts) :
    Approximates H shaped above (orUnconstrained parts.flatten) (anyHolds valueOf children) := by
  refine ⟨orUnconstrained_ne_nil _, ?_, ?_⟩
  · intro b hb
    rcases of_mem_orUnconstrained hb with hb | ⟨-, rfl⟩
    · obtain ⟨part, hpart, hb⟩ := List.mem_flatten.1 hb
      obtain ⟨child, hchild, hval⟩ := (mapM_mem hp).2 part hpart
      exact (h child hchild part hval).shape b hb
    · exact fun _ hc => nomatch hc
  · intro v hv
    cases above with
    | true =>
      rintro rfl
      apply orUnconstrained_holds
      rcases anyHolds_true hv with rfl | ⟨child, hchild, hval⟩
      · cases hp
        exact Or.inl rfl
      · obtain ⟨part, hpart, hpv⟩ := (mapM_mem hp).1 child hchild
        obtain ⟨b, hb, hholds⟩ := (h child hchild part hpv).approx true hval rfl
        grind [List.mem_flatten]
    | false =>
      rintro rfl b hb
      obtain ⟨hne, hall⟩ := anyHolds_false hv
      rcases of_mem_orUnconstrained hb with hb | ⟨hnil, -⟩
      · obtain ⟨part, hpart, hb⟩ := List.mem_flatten.1 hb
        obtain ⟨child, hchild, hval⟩ := (mapM_mem hp).2 part hpart
        exact (h child hchild part hval).approx false (hall child hchild) rfl b hb
      · -- a child that fails has branches
        obtain ⟨child, hchild⟩ := List.exists_mem_of_ne_nil _ hne
        obtain ⟨part, hpart, hval⟩ := (mapM_mem hp).1 child hchild
        exact absurd (List.flatten_eq_nil_iff.1 hnil part hpart) (h child hchild part hval).nonempty

variable {bs : List Branch}

theorem approximates_condition (hf : Fitting py search a H shaped fits) {score : Bool}
    {c : Condition} {k : FieldConstraint} (hfit : fits above score c)
    (hk : extractConstraint py score c.config = .ok (some k))
    {rest : Except PyError Bool} (h : Approximates H shaped above bs rest) :
    Approximates H shaped above (bs.map (k :: ·)) (do
      if ← conditionHolds py search a c then
        rest
      else
        .ok false) := by
  refine ⟨fun hnil => h.nonempty (List.map_eq_nil_iff.1 hnil), ?_, ?_⟩
  · intro b hb e he
    obtain ⟨b', hb', rfl⟩ := List.mem_map.1 hb
    rcases List.mem_cons.1 he with rfl | he
    · exact hf.shape hfit hk
    · exact h.shape b' hb' e he
  · intro v hv
    obtain ⟨v', hcond, hv⟩ := bind_eq_ok.1 hv
    cases above with
    | true =>
      rintro rfl
      cases v' with
      | false => cases hv
      | true =>
        obtain ⟨b, hb, hholds⟩ := h.approx true hv rfl
        refine ⟨k :: b, List.mem_map_of_mem hb, fun e he => ?_⟩
        rcases List.mem_cons.1 he with rfl | he
        · exact hf.above hfit hk hcond
        · exact hholds e he
    | false =>
      rintro rfl b hb hholds
      obtain ⟨b', hb', rfl⟩ := List.mem_map.1 hb
      cases v' with
      | false =>
        obtain ⟨k', hk', hnot⟩ := hf.below hfit hk
        cases hk'
        exact hnot hcond (hholds k List.mem_cons_self)
      | true => exact h.approx false hv rfl b' hb' fun e he => hholds e (List.mem_cons_of_mem _ he)

theorem crossCapped_ne_nil {result part : List Branch} (hr : result ≠ []) (hp : part ≠ []) :
    crossCapped result part ≠ [] := by
  obtain ⟨b, hb⟩ := List.exists_mem_of_ne_nil _ hr
  obtain ⟨c, hc⟩ := List.exists_mem_of_ne_nil _ hp
  have hmem : b ++ c ∈ result.flatMap fun branch => part.map (branch ++ ·) :=
    List.mem_flatMap.2 ⟨b, hb, List.mem_map_of_mem hc⟩
  intro hnil
  rcases List.take_eq_nil_iff.1 hnil with h | h
  · cases h
  · rw [h] at hmem
    cases hmem

theorem expandAnd_ne_nil {result : List Branch} (hr : result ≠ []) (hp : ∀ part ∈ parts, part ≠ []) :
    parts.foldl crossCapped result ≠ [] := by
  induction parts generalizing result with
  | nil => exact hr
  | cons part parts ih => simp_all [crossCapped_ne_nil]

theorem approximates_all (h : Children H shaped above branchesOf valueOf children)
    (hp : children.mapM branchesOf = .ok parts)
    (hcap : above = true → WithinCap branchesOf children List.prod) :
    Approximates H shaped above (expandAnd parts) (allHold valueOf children) := by
  have hpart : ∀ part ∈ parts, ∃ child ∈ children, branchesOf child = .ok part := (mapM_mem hp).2
  refine ⟨expandAnd_ne_nil (List.cons_ne_nil _ _) ?_, ?_, ?_⟩
  · intro part hmem
    obtain ⟨child, hchild, hval⟩ := hpart part hmem
    exact (h child hchild part hval).nonempty
  · intro b hb c hc
    rcases expandAnd_mem hb hc with ⟨r, hr, hcr⟩ | ⟨part, hmem, b', hb', hcb⟩
    · rw [List.mem_singleton.1 hr] at hcr
      cases hcr
    · obtain ⟨child, hchild, hval⟩ := hpart part hmem
      exact (h child hchild part hval).shape b' hb' c hcb
  · intro v hv
    cases above with
    | true =>
      rintro rfl
      obtain ⟨parts', hp', hle⟩ := hcap rfl
      cases hp.symm.trans hp'
      refine expandAnd_above ⟨[], List.mem_singleton_self _, fun _ hc => nomatch hc⟩ ?_
        (by simpa using hle)
      intro part hmem
      obtain ⟨child, hchild, hval⟩ := hpart part hmem
      exact (h child hchild part hval).approx true (allHold_true hv child hchild) rfl
    | false =>
      rintro rfl b hb hholds
      obtain ⟨child, hchild, hfalse⟩ := allHold_false hv
      obtain ⟨part, hmem, hval⟩ := (mapM_mem hp).1 child hchild
      obtain ⟨c, hc, hcholds⟩ := (expandAnd_below hb hholds).2 part hmem
      exact (h child hchild part hval).approx false hfalse rfl c hc hcholds

theorem expandOr_ne_nil {branches : List Branch} (hbs : expandOr branchesOf branches children = .ok bs)
    (h : branches ≠ [] ∨ children ≠ [])
    (hpart : ∀ child ∈ children, ∀ part, branchesOf child = .ok part → part ≠ []) : bs ≠ [] := by
  have htake : ∀ bs : List Branch, bs ≠ [] → bs.take BRANCH_CAP ≠ [] := by
    intro bs hne hnil
    rcases List.take_eq_nil_iff.1 hnil with h | h
    · cases h
    · exact hne h
  induction children generalizing branches with
  | nil =>
    cases hbs
    exact htake _ (h.resolve_right fun hne => hne rfl)
  | cons child children ih =>
    rw [expandOr] at hbs
    split at hbs
    · rename_i hcap
      cases hbs
      apply htake
      rintro rfl
      cases hcap
    · obtain ⟨part, hval, hbs⟩ := bind_eq_ok.1 hbs
      refine ih hbs (Or.inl ?_) fun c hc => hpart c (List.mem_cons_of_mem _ hc)
      intro hnil
      exact hpart child List.mem_cons_self part hval (List.append_eq_nil_iff.1 hnil).2

theorem approximates_or (h : Children H shaped above branchesOf valueOf children)
    (hbs : expandOr branchesOf [] children = .ok bs)
    (hcap : above = true → WithinCap branchesOf children List.sum) :
    Approximates H shaped above (orUnconstrained bs) (anyHolds valueOf children) := by
  cases above with
  | true =>
    -- nothing is cut off
    obtain ⟨parts', hp, hle⟩ := hcap rfl
    grind [expandOr_eq, approximates_any]
  | false =>
    refine ⟨orUnconstrained_ne_nil _, ?_, ?_⟩
    · intro b hb
      rcases of_mem_orUnconstrained hb with hb | ⟨-, rfl⟩
      · rcases expandOr_mem hbs hb with hb | ⟨child, hchild, part, hval, hb⟩
        · cases hb
        · exact (h child hchild part hval).shape b hb
      · exact fun _ hc => nomatch hc
    · rintro v hv rfl b hb
      obtain ⟨hne, hall⟩ := anyHolds_false hv
      rcases of_mem_orUnconstrained hb with hb | ⟨hnil, -⟩
      · rcases expandOr_mem hbs hb with hb | ⟨child, hchild, part, hval, hb⟩
        · cases hb
        · exact (h child hchild part hval).approx false (hall child hchild) rfl b hb
      · exact absurd hnil (expandOr_ne_nil hbs (Or.inr hne)
          fun child hchild part hval => (h child hchild part hval).nonempty)

theorem approximates_not (hi : Inverts H shaped) {value : Except PyError Bool}
    (h : Approximates H shaped (!above) bs value)
    (hsingle : above = false → ∃ b, bs = [b] ∧ Invertible b) :
    Approximates H shaped above (invertBranches bs) (value.map (!·)) := by
  refine ⟨orUnconstrained_ne_nil _, invertBranches_shape hi h.shape, ?_⟩
  intro v hv
  obtain ⟨w, hw, rfl⟩ := map_eq_ok.1 hv
  cases above with
  | true =>
    intro hfalse
    exact invertBranches_above hi h.shape (h.approx w hw (by simpa using hfalse))
  | false =>
    intro htrue b hb hholds
    obtain ⟨b', rfl, hinv⟩ := hsingle rfl
    obtain ⟨c, hc, hcholds⟩ := h.approx w hw (by simpa using htrue)
    rw [List.mem_singleton.1 hc] at hcholds
    exact invertBranches_below hi (h.shape b' (List.mem_singleton_self _)) hinv hb hholds hcholds

end Nodes

theorem approximates_node (hf : Fitting py search a H shaped fits) {node : Node} {score : Bool}
    {children : List String} {branchesOf : String → Except PyError (List Branch)}
    {valueOf : String → Except PyError Bool}
    (hfit : ∀ config, node.configOf = .ok config → fits above score (.ofConfig config))
    (h : Children H shaped above branchesOf valueOf children)
    (hw : (do
      let config ← node.configOf
      match ← extractConstraint py score config with
      | none => .ok [[]]
      | some c => do
        let parts ← children.mapM branchesOf
        .ok ((orUnconstrained parts.flatten).map (c :: ·)) : Except PyError _) = .ok branches) :
    Approximates H shaped above branches (do
      let config ← node.configOf
      if ← conditionHolds py search a (.ofConfig config) then
        anyHolds valueOf children
      else
        .ok false) := by
  obtain ⟨config, hconfig, hw⟩ := bind_eq_ok.1 hw
  obtain ⟨k, hk, hw⟩ := bind_eq_ok.1 hw
  rw [hconfig]
  cases k with
  | none =>
    cases hw
    -- a condition without a field constrains nothing
    cases above with
    | true => exact approximates_unconstrained
    | false =>
      obtain ⟨k', hk', -⟩ := hf.below (hfit config hconfig) hk
      cases hk'
  | some k =>
    obtain ⟨parts, hparts, hw⟩ := bind_eq_ok.1 hw
    cases hw
    exact approximates_condition hf (hfit config hconfig) hk (approximates_any h hparts)

theorem walk_spec (hi : Inverts H shaped) (hf : Fitting py search a H shaped fits)
    {f : ℕ} {visiting : List String} {nid : String}
    (hclear : Clear py d fits above f visiting nid) (hw : walk py d f visiting nid = .ok branches) :
    Approximates H shaped above branches (holds py search d a f visiting nid) := by
  induction f generalizing visiting nid above branches with
  | zero =>
    cases hw
    exact approximates_true
  | succ f ih =>
    have hchildren : ∀ p, (∀ child ∈ d.children nid, Clear py d fits p f (nid :: visiting) child) →
        Children H shaped p (walk py d f (nid :: visiting))
          (holds py search d a f (nid :: visiting)) (d.children nid) :=
      fun p hc child hchild part hpart => ih (hc child hchild) hpart
    rw [walk] at hw
    rw [Clear] at hclear
    rw [holds]
    split at hw
    · rename_i hvisit
      cases hw
      rw [if_pos hvisit]
      exact approximates_true
    · rename_i hvisit
      rw [if_neg hvisit] at hclear ⊢
      cases hnode : d.node nid with
      | none => grind -ring -linarith [approximates_true]
      | some node =>
        rw [hnode] at hw hclear
        dsimp only at hw hclear ⊢
        cases hrole : node.role with
        | error e =>
          rw [hrole] at hw
          cases hw
        | ok role =>
          rw [hrole] at hw hclear
          cases role with
          | condition | score => exact approximates_node hf hclear.1 (hchildren above hclear.2) hw
          | and =>
            obtain ⟨parts, hparts, hw⟩ := bind_eq_ok.1 hw
            cases hw
            exact approximates_all (hchildren above hclear.1) hparts hclear.2
          | or =>
            obtain ⟨bs, hbs, rfl⟩ := map_eq_ok.1 hw
            exact approximates_or (hchildren above hclear.1) hbs hclear.2
          | not =>
            dsimp only at hw hclear ⊢
            cases hkids : d.children nid with
            | nil => grind -ring -linarith [approximates_true]
            | cons child rest =>
              rw [hkids] at hw hclear
              obtain ⟨bs, hbs, rfl⟩ := map_eq_ok.1 hw
              obtain ⟨hbelow, hsingle⟩ := hclear child rfl
              refine approximates_not hi (ih hbelow hbs) fun habove => ?_
              grind -ring -linarith
          | trigger =>
            obtain ⟨parts, hparts, hw⟩ := bind_eq_ok.1 hw
            cases hw
            exact approximates_any (hchildren above hclear) hparts
          | group | outcome | other =>
            cases hw
            exact approximates_true

/-! #### Rules -/

/-- The conditions of a rule fit, and none of its branches is cut off. -/
def RuleClear (py : PyText) (fits : Bool → Bool → Condition → Prop) (above : Bool)
    (d : Definition) : Prop :=
  if d.conditions.isEmpty then
    (∀ root ∈ d.roots, Clear py d fits above (d.nodes.length + 1) [] root) ∧
    (above = true → WithinCap (walk py d (d.nodes.length + 1) []) d.roots List.sum)
  else ∀ cond ∈ d.conditions, ∀ kvs, cond.asDict = some kvs → fits above false (.shorthand kvs)

variable (search a) in
theorem shorthand_extract {cond : Value} {k : Option FieldConstraint}
    (h : shorthandConstraint py cond = .ok k) :
    ∃ kvs, cond.asDict = some kvs ∧ extractConstraint py false (shorthandConfig kvs) = .ok k ∧
      shorthandHolds py search a cond = conditionHolds py search a (.shorthand kvs) := by
  unfold shorthandConstraint at h
  unfold shorthandHolds
  grind

theorem allShorthand_true (h : allShorthand py search a conds = .ok true) :
    ∀ cond ∈ conds, shorthandHolds py search a cond = .ok true := by
  induction conds with
  | nil => exact fun _ hc => nomatch hc
  | cons cond conds ih =>
    obtain ⟨v, hv, h⟩ := bind_eq_ok.1 h
    cases v with
    | false => cases h
    | true => simp_all

theorem allShorthand_false (h : allShorthand py search a conds = .ok false) :
    ∃ cond ∈ conds, shorthandHolds py search a cond = .ok false := by
  induction conds with
  | nil => cases h
  | cons cond conds ih =>
    obtain ⟨v, hv, h⟩ := bind_eq_ok.1 h
    grind

theorem approximates_shorthand (hf : Fitting py search a H shaped fits)
    {constraints : List (Option FieldConstraint)}
    (hclear : ∀ cond ∈ conds, ∀ kvs, cond.asDict = some kvs → fits above false (.shorthand kvs))
    (hk : conds.mapM (shorthandConstraint py) = .ok constraints) :
    Approximates H shaped above [constraints.reduceOption] (allShorthand py search a conds) := by
  have hcond : ∀ k ∈ constraints, ∃ cond ∈ conds, ∃ kvs, fits above false (.shorthand kvs) ∧
      extractConstraint py false (shorthandConfig kvs) = .ok k ∧
      shorthandHolds py search a cond = conditionHolds py search a (.shorthand kvs) := by
    intro k hmem
    obtain ⟨cond, hc, hval⟩ := (mapM_mem hk).2 k hmem
    obtain ⟨kvs, hd, hextract, hholds⟩ := shorthand_extract search a hval
    exact ⟨cond, hc, kvs, hclear cond hc kvs hd, hextract, hholds⟩
  refine ⟨List.cons_ne_nil _ _, ?_, ?_⟩
  · intro b hb k hmem
    rw [List.mem_singleton.1 hb, List.reduceOption_mem_iff] at hmem
    obtain ⟨cond, hc, kvs, hfit, hextract, -⟩ := hcond (some k) hmem
    exact hf.shape hfit hextract
  · intro v hv
    cases above with
    | true =>
      rintro rfl
      refine ⟨_, List.mem_singleton_self _, fun k hmem => ?_⟩
      obtain ⟨cond, hc, kvs, hfit, hextract, hholds⟩ :=
        hcond (some k) (List.reduceOption_mem_iff.1 hmem)
      exact hf.above hfit hextract (hholds.symm.trans (allShorthand_true hv cond hc))
    | false =>
      rintro rfl b hb hall
      rw [List.mem_singleton.1 hb] at hall
      obtain ⟨cond, hc, hfalse⟩ := allShorthand_false hv
      obtain ⟨k, hmem, hval⟩ := (mapM_mem hk).1 cond hc
      obtain ⟨kvs, hd, hextract, hholds⟩ := shorthand_extract search a hval
      obtain ⟨k', rfl, hnot⟩ := hf.below (hclear cond hc kvs hd) hextract
      exact hnot (hholds.symm.trans hfalse) (hall k' (List.reduceOption_mem_iff.2 hmem))

theorem space_spec (hi : Inverts H shaped) (hf : Fitting py search a H shaped fits)
    (hclear : RuleClear py fits above d)
    (hs : constraintSpace py d = .ok branches) :
    Approximates H shaped above branches (ruleHolds py search d a) := by
  unfold RuleClear at hclear
  unfold constraintSpace at hs
  unfold ruleHolds
  split at hs
  · rename_i hnil
    rw [if_pos hnil] at hclear ⊢
    obtain ⟨parts, hparts, hs⟩ := bind_eq_ok.1 hs
    have hany : Approximates H shaped above (orUnconstrained parts.flatten)
        (anyHolds (holds py search d a (d.nodes.length + 1) []) d.roots) :=
      approximates_any (fun root hroot _ hpart => walk_spec hi hf (hclear.1 root hroot) hpart) hparts
    cases hs
    refine ⟨?_, fun b hb => hany.shape b (List.mem_of_mem_take hb), fun v hv => ?_⟩
    · intro htake
      rcases List.take_eq_nil_iff.1 htake with h | h
      · cases h
      · exact hany.nonempty h
    · cases above with
      | true =>
        obtain ⟨parts', hp, hle⟩ := hclear.2 rfl
        cases hparts.symm.trans hp
        rw [List.take_of_length_le]
        · exact hany.approx v hv
        · rw [← List.length_flatten] at hle
          unfold orUnconstrained
          split
          · decide
          · exact hle
      | false => exact fun hfalse b hb => hany.approx v hv hfalse b (List.mem_of_mem_take hb)
  · rename_i hnil
    rw [if_neg hnil] at hclear ⊢
    grind -ring -linarith [bind_eq_ok, approximates_shorthand]

end Approximation

end RuleMind.Mece
