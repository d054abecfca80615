/-
  When a report of mutual exclusion is true.
-/
import RuleMind.ConditionFit

namespace RuleMind.Mece

section Verdict
variable {py : PyText} {search : RegexSearch}

variable {d : Diagnostic} {name : String}

theorem gap_or_nothing {p : Prop} [Decidable p]
    (h : d ∈ if p then [gapOf name] else []) : d = gapOf name := by
  split at h
  · exact List.mem_singleton.1 h
  · cases h

variable {ivs : List (Interval Bound)}

theorem scanGaps_mem {upper : Bound} {inc : Bool}
    (h : d ∈ scanGaps name upper inc ivs) : d = gapOf name := by
  induction ivs generalizing upper inc with
  | nil => exact gap_or_nothing h
  | cons iv ivs ih => grind [scanGaps]

theorem checkNumeric_mem (h : d ∈ checkNumericExhaustiveness name ivs) : d = gapOf name := by
  unfold checkNumericExhaustiveness at h
  split at h
  · exact List.mem_singleton.1 h
  · rcases List.mem_append.1 h with h | h
    · exact gap_or_nothing h
    · exact scanGaps_mem h

theorem checkBoolean_mem {values : List String}
    (h : d ∈ checkBooleanExhaustiveness name values) : d = gapOf name := by
  grind [checkBooleanExhaustiveness]

theorem coverage_type {cs : Branch} (h : d ∈ coverageDiagnostics cs) : d.type = .gap := by
  rcases List.mem_append.1 h with h | h
  · rcases List.mem_append.1 h with h | h
    · obtain ⟨name, -, h⟩ := List.mem_flatMap.1 h
      rw [checkNumeric_mem h]
      rfl
    · obtain ⟨name, -, h⟩ := List.mem_flatMap.1 h
      rw [checkBoolean_mem h]
      rfl
  grind [categoricalGap]

theorem exclusive_eq (spaces : List RuleSpace) :
    (pairReport spaces).isMutuallyExclusive = noErrors .overlap (pairDiagnostics spaces) := by
  have hcov : noErrors .overlap (coverageDiagnostics
      (spaces.flatMap fun space => space.branches.flatMap normalizeBranch)) = true := by
    refine List.all_eq_true.2 fun d hd => ?_
    rw [coverage_type hd]
    rfl
  show noErrors .overlap (_ ++ _) = _
  unfold noErrors at hcov ⊢
  rw [List.all_append, hcov, Bool.and_true]

theorem analyzeMece_ok {rules : List Rule} {report : Report} (hlen : 2 ≤ rules.length)
    (h : analyzeMece py rules = .ok report) :
    ∃ spaces, rules.mapM (ruleSpace py) = .ok spaces ∧ report = pairReport spaces := by
  match rules with
  | [] => simp at hlen
  | [_] => simp at hlen
  | r :: s :: rules =>
    obtain ⟨spaces, hs, rfl⟩ := map_eq_ok.1 h
    exact ⟨spaces, hs, rfl⟩

end Verdict

/-! ### Two rules that exclude each other -/

def numberCondition (id field op : String) (thresholds : Dict) : Node :=
  ⟨id, .condition, .dict ([("field", Value.str field), ("operator", Value.str op)] ++ thresholds)⟩

def oneCondition (id : String) (node : Node) : Rule := ⟨id, some ⟨[], [node], []⟩, []⟩

def tenRules : List Rule :=
  [oneCondition "a" (numberCondition "c" "x" ">=" [("value", .int 10)]),
    ⟨"b", some ⟨[], [⟨"n", .not, .null⟩, numberCondition "c" "x" ">=" [("value", .int 10)]],
      [("n", "c")]⟩, []⟩]

def numberReading : Reading := ⟨fun _ => .number, fun _ => false⟩

theorem tenRules_threshold : Threshold decimalPy (.ofConfig [("field", .str "x"),
    ("operator", .str ">="), ("value", .int 10)]) 10 := by
  refine ⟨toOption_eq_some.1 ?_, toOption_eq_some.1 ?_, rfl, fun q h => nomatch h⟩
  · decide +kernel
  · decide +kernel

theorem tenRules_fits (always above : Bool) : Fits decimalPy numberReading always above false
    (.ofConfig [("field", .str "x"), ("operator", .str ">="), ("value", .int 10)]) := by
  have hd : ¬ Dated (.ofConfig [("field", .str "x"), ("operator", .str ">="),
      ("value", .int 10)]) := by
    intro hd
    exact absurd (Except.ok.inj hd) (by decide)
  refine ⟨rfl, Or.inl rfl, ?_⟩
  cases above with
  | true => exact ⟨by decide, hd⟩
  | false => exact Or.inr ⟨⟨10, tenRules_threshold⟩, hd, Or.inr rfl⟩

theorem tenRules_leaf {d : Definition} (always above : Bool) (f : ℕ) {visiting : List String}
    (hvisit : "c" ∉ visiting)
    (hnode : d.node "c" = some (numberCondition "c" "x" ">=" [("value", .int 10)]))
    (hleaf : d.children "c" = []) :
    Clear decimalPy d (Fits decimalPy numberReading always) above f visiting "c" := by
  cases f with
  | zero => trivial
  | succ f =>
    rw [Clear, if_neg hvisit, hnode]
    refine ⟨?_, ?_⟩
    · intro config hconfig
      cases hconfig
      exact tenRules_fits always above
    · rw [hleaf]
      exact List.forall_mem_nil _

theorem tenRules_clear : ∀ rule ∈ tenRules,
    RuleClear decimalPy (Fits decimalPy numberReading false) true rule.defn := by
  intro rule hrule
  rcases List.mem_cons.1 hrule with rfl | hrule
  · refine ⟨?_, fun _ => ?_⟩
    · intro root hroot
      obtain rfl : root = "c" := List.mem_singleton.1 hroot
      exact tenRules_leaf _ _ _ (by simp) rfl rfl
    · refine ⟨[[[numericConstraint "x" .number ⟨finite 10, ⊤, true, false⟩ []]]],
        toOption_eq_some.1 ?_, by decide⟩
      decide +kernel
  · obtain rfl := List.mem_singleton.1 hrule
    refine ⟨?_, fun _ => ?_⟩
    · intro root hroot
      obtain rfl : root = "n" := List.mem_singleton.1 hroot
      rw [Clear, if_neg (by simp)]
      show ∀ child, some "c" = some child → _
      intro child hc
      cases hc
      exact ⟨tenRules_leaf _ _ _ (by decide) rfl rfl, by simp⟩
    · refine ⟨[[[numericConstraint "x" .number ⟨⊥, finite 10, false, false⟩ []]]],
        toOption_eq_some.1 ?_, by decide⟩
      decide +kernel

def tenSpaces : List RuleSpace :=
  [⟨"a", [[numericConstraint "x" .number ⟨finite 10, ⊤, true, false⟩ []]]⟩,
    ⟨"b", [[numericConstraint "x" .number ⟨⊥, finite 10, false, false⟩ []]]⟩]

theorem tenRules_spaces : tenRules.mapM (ruleSpace decimalPy) = .ok tenSpaces := by
  apply toOption_eq_some.1
  decide +kernel

theorem tenRules_report : analyzeMece decimalPy tenRules = .ok (pairReport tenSpaces) :=
  map_eq_ok.2 ⟨tenSpaces, tenRules_spaces, rfl⟩

def zeroRules : List Rule :=
  [oneCondition "a" (numberCondition "n" "x" "between" [("value", .int (-5)), ("value2", .int 0)]),
    oneCondition "b" (numberCondition "n" "x" "==" [("value", .int (-2))])]

end RuleMind.Mece
