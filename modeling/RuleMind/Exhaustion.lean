/-
  When a report of collective exhaustion is true.
-/
import RuleMind.MutualExclusion

namespace RuleMind.Mece

/-! ### Intervals without a gap -/

section Cover
variable {name : String} {p : Point}

variable {ivs : List (Interval Bound)}

/-- What lies below the reach of the intervals so far is covered, and each next one starts
    within it. -/
theorem scanGaps_cover {upper : Bound} {inc : Bool}
    {Covered : Prop} (hp : Inner p) (hreach : Interval.Below toPoint upper inc p → Covered)
    (hivs : ∀ iv ∈ ivs, iv.Holds toPoint p → Covered) (h : scanGaps name upper inc ivs = []) :
    Covered := by
  induction ivs generalizing upper inc with
  | nil =>
    rw [scanGaps] at h
    split at h
    · cases h
    · rename_i htop
      rw [not_lt, top_le_iff] at htop
      subst htop
      exact hreach (Or.inl hp.2)
  | cons iv ivs ih =>
    rw [scanGaps] at h
    obtain ⟨hgap, hrest⟩ := List.append_eq_nil_iff.1 h
    have hstart : iv.lower ≤ upper ∧ (upper = iv.lower → inc = true ∨ iv.lowerInc = true) := by
      split at hgap
      · cases hgap
      · rename_i hno
        simp only [Bool.or_eq_true, decide_eq_true_eq, Bool.and_eq_true, Bool.not_eq_true',
          not_or, not_lt, not_and] at hno
        refine ⟨hno.1, fun heq => ?_⟩
        cases hinc : inc with
        | true => exact Or.inl rfl
        | false =>
          right
          simpa using hno.2 ⟨heq, hinc⟩
    -- a point beyond the reach so far is in the next interval if it is below its end
    have hnext : Interval.Below toPoint iv.upper iv.upperInc p → Covered := by
      intro hbelow
      by_cases hold : Interval.Below toPoint upper inc p
      · exact hreach hold
      · refine hivs iv List.mem_cons_self ⟨?_, hbelow⟩
        have habove := Interval.not_below.1 hold
        rcases habove with hlt | ⟨hinc, heq⟩
        · exact Or.inl ((toPoint.le_iff_le.2 hstart.1).trans_lt hlt)
        · rcases hstart.1.lt_or_eq with hlt | heq'
          · exact Or.inl ((toPoint.lt_iff_lt.2 hlt).trans_eq heq)
          · right
            refine ⟨(hstart.2 heq'.symm).resolve_left ?_, by rw [heq', heq]⟩
            intro htrue
            rw [htrue] at hinc
            cases hinc
    grind

theorem intervals_cover (hp : Inner p)
    (h : checkNumericExhaustiveness name ivs = []) : ∃ iv ∈ ivs, iv.Holds toPoint p := by
  unfold checkNumericExhaustiveness at h
  have hsub : ∀ iv ∈ (ivs.filter (!·.isEmpty)).insertionSort (startsBefore · ·), iv ∈ ivs := by
    intro iv hiv
    exact (List.mem_filter.1 ((List.mem_insertionSort _).1 hiv)).1
  split at h
  · cases h
  · rename_i iv rest hsort
    rw [hsort] at hsub
    obtain ⟨hstart, hscan⟩ := List.append_eq_nil_iff.1 h
    have hbot : iv.lower = ⊥ := by
      split at hstart
      · cases hstart
      · rename_i hno
        exact not_bot_lt_iff.1 hno
    refine scanGaps_cover hp (fun hbelow => ⟨iv, hsub iv List.mem_cons_self, ?_, hbelow⟩)
      (fun i hi hholds => ⟨i, hsub i (List.mem_cons_of_mem _ hi), hholds⟩) hscan
    rw [hbot]
    exact Or.inl hp.1

end Cover

/-! ### What a normalized branch says -/

section Normalized
variable {py : PyText} {r : Reading} {a : String → Value} {e c : FieldConstraint}

theorem holds_of_meet (hname : e.fieldName = c.fieldName) (he : OfKind r e) (hc : OfKind r c)
    (hclear : (e.meet c).isOpaque = false) (h : Holds py r a (e.meet c)) :
    Holds py r a e ∧ Holds py r a c := by
  obtain ⟨hoe, hoc⟩ := Bool.or_eq_false_iff.1 hclear
  unfold OfKind at he hc
  rw [← hname] at hc
  by_cases hk : r.kinds e.fieldName = .number
  · rw [if_pos hk] at he hc
    rw [holds_number hk hoe, holds_number (hname ▸ hk) hoc, ← hname]
    rw [holds_number (by exact hk) hclear, meet_intervals he.1 hc.1] at h
    obtain ⟨⟨m, hm, hp⟩, hex⟩ := h
    dsimp only at hm
    split at hm
    · rw [List.mem_singleton.1 hm] at hp
      exact absurd hp emptyInterval_holds
    · obtain ⟨i, hi, hm⟩ := List.mem_flatMap.1 hm
      obtain ⟨j, hj, hinter⟩ := List.mem_filterMap.1 hm
      obtain ⟨hip, hjp⟩ := Interval.holds_of_inter hinter hp
      exact ⟨⟨⟨i, hi, hip⟩, fun p hp => hex p (List.mem_append_left _ hp)⟩,
        ⟨j, hj, hjp⟩, fun p hp => hex p (List.mem_append_right _ hp)⟩
  · rw [if_neg hk] at he hc
    obtain ⟨s, hs⟩ := Option.isSome_iff_exists.1 he.2.1
    obtain ⟨t, ht⟩ := Option.isSome_iff_exists.1 hc.2.1
    simp_all [holds_set, FieldConstraint.meet, ValueSet.inter_holds]

def Known (py : PyText) (r : Reading) (a : String → Value) (c : FieldConstraint) : Prop :=
  c.isOpaque = false ∧ Holds py r a c

theorem known_of_add {es : Branch} (hes : ∀ e ∈ es, OfKind r e) (hc : OfKind r c)
    (h : ∀ e ∈ addConstraint es c, Known py r a e) :
    (∀ e ∈ es, Known py r a e) ∧ Known py r a c := by
  induction es with
  | nil => exact And.intro (fun _ he => nomatch he) (h c List.mem_cons_self)
  | cons e es ih =>
    rw [addConstraint] at h
    split at h
    · rename_i hname
      obtain ⟨hclear, hholds⟩ := h _ List.mem_cons_self
      obtain ⟨hhe, hhc⟩ := holds_of_meet hname (hes e List.mem_cons_self) hc hclear hholds
      obtain ⟨hoe, hoc⟩ := Bool.or_eq_false_iff.1 hclear
      refine ⟨fun x hx => ?_, hoc, hhc⟩
      rcases List.mem_cons.1 hx with rfl | hx
      · exact ⟨hoe, hhe⟩
      · exact h x (List.mem_cons_of_mem _ hx)
    · simp_all

variable {b : Branch} {name : String}

theorem holds_of_normalize (hk : ∀ c ∈ b, OfKind r c)
    (h : ∀ c ∈ normalizeBranch b, Known py r a c) : BranchHolds (Holds py r a) b := by
  have hfold : ∀ (b es : Branch), (∀ e ∈ es, OfKind r e) → (∀ c ∈ b, OfKind r c) →
      (∀ c ∈ b.foldl addConstraint es, Known py r a c) →
      (∀ e ∈ es, Known py r a e) ∧ ∀ c ∈ b, Known py r a c := by
    intro b
    induction b with
    | nil => exact fun es _ _ h => ⟨h, fun _ hc => nomatch hc⟩
    | cons c b ih =>
      intro es hes hb h
      have hadd := addConstraint_forall (fun _ _ => meet_ofKind) hes (hb c List.mem_cons_self)
      obtain ⟨h1, h2⟩ := ih _ hadd (fun x hx => hb x (List.mem_cons_of_mem _ hx)) h
      obtain ⟨h3, h4⟩ := known_of_add hes (hb c List.mem_cons_self) h1
      grind
  exact fun c hc => ((hfold b [] (fun _ he => nomatch he) hk h).2 c hc).2

theorem normalize_single (h : ∀ c ∈ b, c.fieldName = name) :
    ∀ c ∈ normalizeBranch b, ∀ c' ∈ normalizeBranch b, c = c' := by
  have hfold : ∀ (b es : Branch), (∀ e ∈ es, e.fieldName = name) → es.length ≤ 1 →
      (∀ c ∈ b, c.fieldName = name) → (b.foldl addConstraint es).length ≤ 1 := by
    intro b
    induction b with
    | nil => exact fun es _ hlen _ => hlen
    | cons c b ih =>
      intro es hes hlen hb
      rcases es with _ | ⟨e, _ | ⟨e', es⟩⟩
      · refine ih [c] ?_ le_rfl fun x hx => hb x (List.mem_cons_of_mem _ hx)
        intro e he
        rw [List.mem_singleton.1 he]
        exact hb c List.mem_cons_self
      · have hname : e.fieldName = c.fieldName :=
          (hes e List.mem_cons_self).trans (hb c List.mem_cons_self).symm
        rw [List.foldl_cons, addConstraint, if_pos hname]
        refine ih [e.meet c] ?_ le_rfl fun x hx => hb x (List.mem_cons_of_mem _ hx)
        intro x hx
        rw [List.mem_singleton.1 hx]
        exact hes e List.mem_cons_self
      · simp at hlen
  have hlen : (normalizeBranch b).length ≤ 1 := hfold b [] (by simp) (by simp) h
  intro c hc c' hc'
  rcases hn : normalizeBranch b with _ | ⟨x, _ | ⟨x', xs⟩⟩
  · rw [hn] at hc
    cases hc
  · simp_all
  · rw [hn] at hlen
    simp at hlen

theorem addConstraint_names {es : Branch} :
    (∃ e ∈ addConstraint es c, e.fieldName = name) ↔
      (∃ e ∈ es, e.fieldName = name) ∨ c.fieldName = name := by
  induction es with
  | nil => simp [addConstraint]
  | cons e es ih =>
    rw [addConstraint]
    split
    · rename_i hname
      simp only [List.mem_cons, exists_eq_or_imp]
      show e.fieldName = name ∨ _ ↔ _
      rw [← hname]
      exact ⟨Or.inl, fun h => h.elim id Or.inl⟩
    grind

theorem normalize_names :
    (∃ c ∈ normalizeBranch b, c.fieldName = name) ↔ ∃ c ∈ b, c.fieldName = name := by
  have hfold : ∀ (b es : Branch), (∃ c ∈ b.foldl addConstraint es, c.fieldName = name) ↔
      (∃ e ∈ es, e.fieldName = name) ∨ ∃ c ∈ b, c.fieldName = name := by
    intro b
    induction b with
    | nil => simp
    | cons c b ih => simp_all [addConstraint_names, or_assoc]
  rw [normalizeBranch, hfold]
  simp

end Normalized

/-! ### The verdict -/

section Verdict
variable {py : PyText} {search : RegexSearch} {r : Reading} {a : String → Value}

def allConstraints (spaces : List RuleSpace) : Branch :=
  spaces.flatMap fun space => space.branches.flatMap normalizeBranch

variable {spaces : List RuleSpace} {c : FieldConstraint} {name : String}

theorem mem_allConstraints :
    c ∈ allConstraints spaces ↔ ∃ s ∈ spaces, ∃ b ∈ s.branches, c ∈ normalizeBranch b := by
  simp [allConstraints]

theorem no_gap (h : (pairReport spaces).isCollectivelyExhaustive = true)
    : gapOf name ∉ coverageDiagnostics (allConstraints spaces) := by
  intro hmem
  have := List.all_eq_true.1 h (gapOf name) (List.mem_append_right _ hmem)
  simp [gapOf] at this

theorem numeric_no_gap {cs : Branch} (h : gapOf name ∉ coverageDiagnostics cs)
    (hc : c ∈ cs) (hname : c.fieldName = name) (hnum : isNumeric c = true) :
    checkNumericExhaustiveness name (collect (·.intervals) cs name) = [] := by
  rw [List.eq_nil_iff_forall_not_mem]
  intro d hd
  have hfield : name ∈ fieldsWith isNumeric cs :=
    List.mem_eraseDups.2 (List.mem_map.2 ⟨c, List.mem_filter.2 ⟨hc, hnum⟩, hname⟩)
  rw [checkNumeric_mem hd] at hd
  exact h (List.mem_append_left _ (List.mem_append_left _ (List.mem_flatMap.2 ⟨name, hfield, hd⟩)))

theorem boolean_no_gap {cs : Branch} (h : gapOf name ∉ coverageDiagnostics cs)
    (hc : c ∈ cs) (hname : c.fieldName = name) (hbool : isBoolean c = true)
    (b : Bool) : boolName b ∈
      collect (fun c => if isBoolean c then c.valueSet.toList.flatMap booleanValues else [])
        cs name := by
  have hfield : name ∈ fieldsWith isBoolean cs :=
    List.mem_eraseDups.2 (List.mem_map.2 ⟨c, List.mem_filter.2 ⟨hc, hbool⟩, hname⟩)
  by_contra hnot
  refine h (List.mem_append_left _ (List.mem_append_right _ (List.mem_flatMap.2 ⟨name, hfield, ?_⟩)))
  unfold checkBooleanExhaustiveness
  cases b with
  | true =>
    rw [if_neg (by exact hnot)]
    exact List.mem_append_left _ (List.mem_singleton_self _)
  | false =>
    have hright : (if "false" ∈ collect (fun c => if isBoolean c then
        c.valueSet.toList.flatMap booleanValues else []) cs name then ([] : List Diagnostic)
        else [gapOf name]) = [gapOf name] := if_neg (by exact hnot)
    simp_all

/-- A field that shares no branch with another one; its branches exclude no point, and of a
    boolean they name the values. -/
structure Separate (f : String) (branches : List Branch) : Prop where
  alone : ∀ b ∈ branches, (∃ c ∈ b, c.fieldName = f) → ∀ c ∈ b, c.fieldName = f
  included : ∀ b ∈ branches, ∀ c ∈ normalizeBranch b, c.fieldName = f → c.excludedPoints = []
  named : ∀ b ∈ branches, ∀ c ∈ normalizeBranch b, c.fieldName = f → ∀ s, c.valueSet = some s →
    ∃ v vs, s.included = some (v :: vs)

theorem separate_covered {f : String}
    (hk : ∀ s ∈ spaces, ∀ b ∈ s.branches, ∀ c ∈ b, OfKind r c) (htext : r.kinds f ≠ .text)
    (hclear : (pairReport spaces).hasOpaqueConstraints = false)
    (hf : ∃ s ∈ spaces, ∃ b ∈ s.branches, ∃ c ∈ b, c.fieldName = f)
    (hsep : ∀ s ∈ spaces, Separate f s.branches)
    (h : (pairReport spaces).isCollectivelyExhaustive = true) :
    ∃ s ∈ spaces, ∃ b ∈ s.branches, BranchHolds (Holds py r a) b := by
  have hknown : ∀ c ∈ allConstraints spaces, c.isOpaque = false := by
    intro c hc
    have := List.any_eq_false.1 hclear c hc
    simpa using this
  obtain ⟨s₀, hs₀, b₀, hb₀, hc₀⟩ := hf
  obtain ⟨c₀, hc₀, hname₀⟩ := normalize_names.2 hc₀
  have hmem₀ : c₀ ∈ allConstraints spaces := mem_allConstraints.2 ⟨s₀, hs₀, b₀, hb₀, hc₀⟩
  have hkind₀ := normalize_ofKind (hk s₀ hs₀ b₀ hb₀) c₀ hc₀
  -- a normalized constraint of the field that holds is all its branch says
  have hbranch : ∀ s ∈ spaces, ∀ b ∈ s.branches, ∀ c ∈ normalizeBranch b, c.fieldName = f →
      Holds py r a c → BranchHolds (Holds py r a) b := by
    intro s hs b hb c hc hname hholds
    have halone := (hsep s hs).alone b hb (normalize_names.1 ⟨c, hc, hname⟩)
    refine holds_of_normalize (hk s hs b hb) fun c' hc' => ?_
    rw [← normalize_single halone c hc c' hc']
    exact ⟨hknown c (mem_allConstraints.2 ⟨s, hs, b, hb, hc⟩), hholds⟩
  unfold OfKind at hkind₀
  rw [hname₀] at hkind₀
  cases hkind : r.kinds f with
  | number =>
    rw [if_pos hkind] at hkind₀
    have hnum : isNumeric c₀ = true := by simp [isNumeric, hkind₀.1]
    obtain ⟨iv, hiv, hp⟩ := intervals_cover (inner_pointOf py (r.upward f) (a f))
      (numeric_no_gap (no_gap h) hmem₀ hname₀ hnum)
    obtain ⟨c, hc, hivc⟩ := List.mem_flatMap.1 hiv
    obtain ⟨hc, hname⟩ := List.mem_filter.1 hc
    have hname : c.fieldName = f := of_decide_eq_true hname
    obtain ⟨s, hs, b, hb, hcb⟩ := mem_allConstraints.1 hc
    refine ⟨s, hs, b, hb, hbranch s hs b hb c hcb hname ?_⟩
    rw [holds_number (by rw [hname]; exact hkind) (hknown c hc), hname,
      (hsep s hs).included b hb c hcb hname]
    exact ⟨⟨iv, hivc, hp⟩, fun _ he => nomatch he⟩
  | boolean =>
    have hnot : r.kinds f ≠ .number := by
      rw [hkind]
      decide
    rw [if_neg hnot] at hkind₀
    have hbool : isBoolean c₀ = true := by simp [isBoolean, hkind₀.2.1, hkind₀.2.2 hkind]
    have hmem := boolean_no_gap (no_gap h) hmem₀ hname₀ hbool (toBool py (a f))
    obtain ⟨c, hc, hvalues⟩ := List.mem_flatMap.1 hmem
    obtain ⟨hc, hname⟩ := List.mem_filter.1 hc
    have hname : c.fieldName = f := of_decide_eq_true hname
    obtain ⟨s, hs, b, hb, hcb⟩ := mem_allConstraints.1 hc
    refine ⟨s, hs, b, hb, hbranch s hs b hb c hcb hname ?_⟩
    split at hvalues
    · obtain ⟨t, ht, hvalue⟩ := List.mem_flatMap.1 hvalues
      have ht := Option.mem_toList.1 ht
      obtain ⟨v, vs, hincl⟩ := (hsep s hs).named b hb c hcb hname t ht
      simp_all [holds_set, fieldText_boolean, booleanValues, ValueSet.Holds]
    · cases hvalues
  | text => exact absurd hkind htext

theorem mem_analyzedFields {f : String} :
    f ∈ (pairReport spaces).analyzedFields ↔
      ∃ s ∈ spaces, ∃ b ∈ s.branches, ∃ c ∈ b, c.fieldName = f := by
  show f ∈ (fieldsWith (fun _ => true) (allConstraints spaces)).insertionSort (· ≤ ·) ↔ _
  rw [List.mem_insertionSort, fieldsWith, List.mem_eraseDups, List.mem_map]
  constructor
  · rintro ⟨c, hc, hname⟩
    obtain ⟨s, hs, b, hb, hcb⟩ := mem_allConstraints.1 (List.mem_filter.1 hc).1
    exact ⟨s, hs, b, hb, normalize_names.1 ⟨c, hcb, hname⟩⟩
  · rintro ⟨s, hs, b, hb, hc⟩
    obtain ⟨c, hcb, hname⟩ := normalize_names.2 hc
    exact ⟨c, List.mem_filter.2 ⟨mem_allConstraints.2 ⟨s, hs, b, hb, hcb⟩, rfl⟩, hname⟩

/-- Coverage of the fields is coverage of the assignments. -/
def Separable (py : PyText) (rules : List Rule) (fields : List String) : Prop :=
  fields = [] ∨ ∃ f ∈ fields, ∀ rule ∈ rules, ∀ branches,
    constraintSpace py rule.defn = .ok branches → Separate f branches

end Verdict

/-! ### Two rules that are exhaustive -/

theorem tenRules_below : ∀ rule ∈ tenRules,
    RuleClear decimalPy (Fits decimalPy numberReading true) false rule.defn := by
  intro rule hrule
  rcases List.mem_cons.1 hrule with rfl | hrule
  · refine ⟨?_, fun h => nomatch h⟩
    intro root hroot
    obtain rfl : root = "c" := List.mem_singleton.1 hroot
    exact tenRules_leaf _ _ _ (by simp) rfl rfl
  · obtain rfl := List.mem_singleton.1 hrule
    refine ⟨?_, fun h => nomatch h⟩
    intro root hroot
    obtain rfl : root = "n" := List.mem_singleton.1 hroot
    rw [Clear, if_neg (by simp)]
    show ∀ child, some "c" = some child → _
    intro child hc
    cases hc
    refine ⟨tenRules_leaf _ _ _ (by decide) rfl rfl, fun _ => ?_⟩
    refine ⟨[numericConstraint "x" .number ⟨finite 10, ⊤, true, false⟩ []],
      toOption_eq_some.1 ?_, List.cons_ne_nil _ _, ?_⟩
    · decide +kernel
    · decide +kernel

theorem tenRules_separable : Separable decimalPy tenRules (pairReport tenSpaces).analyzedFields := by
  refine Or.inr ⟨"x", by decide +kernel, fun rule hrule branches hb => ?_⟩
  obtain ⟨s, hs, hspace⟩ := (mapM_mem tenRules_spaces).1 rule hrule
  obtain ⟨branches', hb', rfl⟩ := map_eq_ok.1 hspace
  cases hb.symm.trans hb'
  have hall : ∀ s ∈ tenSpaces, ∀ b ∈ s.branches, (∀ c ∈ b, c.fieldName = "x") ∧
      ∀ c ∈ normalizeBranch b, c.excludedPoints = [] ∧ c.valueSet = none := by
    decide +kernel
  refine ⟨fun b hb _ => (hall _ hs b hb).1, fun b hb c hc _ => ((hall _ hs b hb).2 c hc).1, ?_⟩
  intro b hb c hc _ t ht
  rw [((hall _ hs b hb).2 c hc).2] at ht
  cases ht

def shortCondition (field op : String) (n : ℤ) : Value :=
  .dict [("field", .str field), ("operator", .str op), ("value", .int n)]

def quadrantRules : List Rule :=
  [⟨"a", none, [shortCondition "x" ">=" 0, shortCondition "y" ">=" 0]⟩,
    ⟨"b", none, [shortCondition "x" "<" 0, shortCondition "y" "<" 0]⟩]

end RuleMind.Mece
