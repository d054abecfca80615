/-
  Rows behind other rows: when the optimiser of a decision table is right to call a row
  unreachable.
-/
import RuleMind.DecisionTable
import Std.Data.String.ToInt
import Mathlib.Data.List.Nodup

namespace RuleMind.DecisionTable
open Text (F64)
open RuleTree (iterate)

/-! ### Intervals -/

variable {a b : F64} {c : Bool} {q p : ℚ}

theorem ltOr_iff : ltOr a b c = true ↔
    ∃ s t, F64.order a = some s ∧ F64.order b = some t ∧ (s < t ∨ (s = t ∧ c = true)) := by
  cases ha : F64.order a with
  | none =>
    rw [F64.order_eq_none.1 ha]
    cases b <;> simp [ltOr, F64.gt, F64.ne]
  | some s =>
    cases hb : F64.order b with
    | none =>
      rw [F64.order_eq_none.1 hb]
      cases a <;> simp [ltOr, F64.gt, F64.ne]
    | some t =>
      have hgt := F64.gt_of_order hb ha
      have hne := F64.ne_of_order ha hb
      simp only [ltOr, Bool.or_eq_true, Bool.and_eq_true, Bool.not_eq_true', hgt]
      rw [← Bool.not_eq_true, hne, not_not]
      simp

theorem ltOr_trans {d : F64} {e : Bool} (h : ltOr a b (c || !e) = true)
    (h' : ltOr b d e = true) : ltOr a d c = true := by
  obtain ⟨s, t, ha, hb, hst⟩ := ltOr_iff.1 h
  obtain ⟨t', u, hb', hd, htu⟩ := ltOr_iff.1 h'
  obtain rfl : t = t' := Option.some.inj (hb.symm.trans hb')
  refine ltOr_iff.2 ⟨s, u, ha, hd, ?_⟩
  rcases hst with hst | ⟨rfl, hc⟩
  · grind
  · grind

theorem ltOr_trans' {d : F64} {e : Bool} (h : ltOr d b e = true)
    (h' : ltOr b a (c || !e) = true) : ltOr d a c = true := by
  obtain ⟨u, t, hd, hb, hut⟩ := ltOr_iff.1 h
  obtain ⟨t', s, hb', ha, hts⟩ := ltOr_iff.1 h'
  obtain rfl : t = t' := Option.some.inj (hb.symm.trans hb')
  refine ltOr_iff.2 ⟨u, s, hd, ha, ?_⟩
  grind

def Within (lo hi : F64) (loInc hiInc : Bool) (q : ℚ) : Prop :=
  ltOr lo (.finite q) loInc = true ∧ ltOr (.finite q) hi hiInc = true

theorem within_of_covers {alo ahi blo bhi : F64} {ali ahi' bli bhi' : Bool}
    (h : cellCovers (.interval alo ahi ali ahi') (.interval blo bhi bli bhi') = true)
    (hq : Within blo bhi bli bhi' q) : Within alo ahi ali ahi' q := by
  simp only [cellCovers, Bool.and_eq_true] at h
  exact ⟨ltOr_trans h.1 hq.1, ltOr_trans' hq.2 h.2⟩

theorem ltOr_finite : ltOr (.finite p) (.finite q) c = true ↔ p < q ∨ (p = q ∧ c = true) := by
  simp [ltOr, F64.gt, F64.ne]

theorem ltOr_infinite (q : ℚ) (c : Bool) :
    ltOr (.finite q) (.infinite false) c = true ∧ ltOr (.infinite true) (.finite q) c = true := by
  constructor <;> rfl

theorem ltOr_closed : ltOr (.finite p) (.finite q) true = true ↔ p ≤ q := by
  rw [ltOr_finite, le_iff_lt_or_eq]
  simp

theorem ltOr_open : ltOr (.finite p) (.finite q) false = true ↔ p < q := by
  rw [ltOr_finite]
  simp

theorem within_iff {py : PyText} {op : Operator} {value value2 : Value} {lo hi : F64}
    {loInc hiInc : Bool} {e : ℚ} {u : Option ℚ}
    (h : numericRegion py op value value2 = .ok (some (.interval lo hi loInc hiInc)))
    (he : num py value = .ok (some (.finite e)))
    (hu : op = .between → ∃ b, u = some b ∧ num py value2 = .ok (some (.finite b)) ∧ e ≤ b)
    (q : ℚ) : Within lo hi loInc hiInc q ↔ ordered op q e u = true := by
  unfold numericRegion at h
  rw [he] at h
  by_cases hop : op = .between
  · subst hop
    obtain ⟨b, rfl, hb, hle⟩ := hu rfl
    simp only [bind, Except.bind, if_true, hb] at h
    have hmin : pyMin (.finite e) (.finite b) = .finite e := by simp [pyMin, F64.gt, not_lt.2 hle]
    have hmax : pyMax (.finite e) (.finite b) = .finite b := by
      rcases hle.lt_or_eq with hlt | rfl
      · simp [pyMax, F64.gt, hlt]
      · simp [pyMax, F64.gt]
    rw [hmin, hmax] at h
    cases h
    simp only [Within, ltOr_closed, ordered, Option.any_some, Bool.and_eq_true, decide_eq_true_eq]
  · simp only [bind, Except.bind, hop, if_false] at h
    cases op with
    | eq =>
      cases h
      simp only [Within, ltOr_closed, ordered, beq_iff_eq]
      grind
    | ge | le =>
      cases h
      simp [Within, ltOr_closed, ltOr_infinite, ordered]
    | gt | lt =>
      cases h
      simp [Within, ltOr_open, ltOr_infinite, ordered]
    | between => exact absurd rfl hop
    | _ => cases h

/-! ### Cells and their regions -/

section Cells
variable {py : PyText} {search : RegexSearch} {cell ft actual : Value}

variable {v v2 : Value} {r : Region} {op : Operator} {x : F64} {q : ℚ}

theorem numericRegion_interval
    (h : numericRegion py op v v2 = .ok (some r)) : ∃ lo hi l u, r = .interval lo hi l u := by
  unfold numericRegion at h
  obtain ⟨x, -, h⟩ := bind_eq_ok.1 h
  split_ifs at h
  · obtain ⟨x2, -, h⟩ := bind_eq_ok.1 h
    grind
  · grind

theorem numericRegion_num
    (h : numericRegion py op v v2 = .ok (some r)) : ∃ x, num py v = .ok (some x) := by
  grind [numericRegion, bind_eq_ok]

theorem numericRegion_num2 (hop : op = .between)
    (h : numericRegion py op v v2 = .ok (some r)) : ∃ x, num py v2 = .ok (some x) := by
  unfold numericRegion at h
  obtain ⟨x, -, h⟩ := bind_eq_ok.1 h
  rw [if_pos hop] at h
  grind [bind_eq_ok]

theorem cellRegion_cases (h : cellRegion py cell ft = .ok r) :
    (isWildcard cell = .ok true ∧ r = .all) ∨
    (isWildcard cell = .ok false ∧ r = textRegion py (cellOperator py cell) (rawValue cell)) ∨
    (isWildcard cell = .ok false ∧ (∃ type ∈ numericTypes, typeName ft = .ok type) ∧
      ((cellOperator py cell).isOrder = true ∨ cellOperator py cell = .eq) ∧
      numericRegion py (cellOperator py cell) (rawValue cell) (rawValue2 cell) = .ok (some r)) := by
  unfold cellRegion at h
  obtain ⟨w, hw, h⟩ := bind_eq_ok.1 h
  cases w with
  | true =>
    cases h
    exact Or.inl ⟨hw, rfl⟩
  | false =>
    simp only [Bool.false_eq_true, if_false] at h
    split at h
    · rename_i hop
      obtain ⟨type, htype, h⟩ := bind_eq_ok.1 h
      split at h
      · rename_i hnum
        obtain ⟨found, hfound, h⟩ := bind_eq_ok.1 h
        cases found with
        | none =>
          cases h
          exact Or.inr (Or.inl ⟨hw, rfl⟩)
        | some region => simp_all
      · cases h
        exact Or.inr (Or.inl ⟨hw, rfl⟩)
    · cases h
      exact Or.inr (Or.inl ⟨hw, rfl⟩)

theorem textRegion_cases {op : Operator} {v : Value} :
    (op = .eq ∧ textRegion py op v = .set [optionText py v]) ∨
    (op = .isIn ∧ textRegion py op v = .set ((regionOptions py v).map (optionText py))) ∨
    textRegion py op v = .unknown := by
  unfold textRegion
  grind

theorem cellTest_of_wildcard (h : isWildcard cell = .ok true) :
    cellTest py search cell ft actual = .ok true := by
  unfold cellTest
  rw [h]
  rfl

theorem cellTest_eq (h : isWildcard cell = .ok false) :
    cellTest py search cell ft actual = compare py search actual (cellOperator py cell)
      (cellValue py cell) (cellValue2 py cell) ft := by
  unfold cellTest
  rw [h]
  rfl

theorem numericTypes_plain {type : String} (h : type ∈ numericTypes) :
    type ≠ "boolean" ∧ type ≠ "date" := by
  constructor
  · rintro rfl
    exact absurd h (by decide)
  · rintro rfl
    exact absurd h (by decide)

def FiniteNumber (py : PyText) (v : Value) (q : ℚ) : Prop :=
  v.isBool = false ∧ v.IsDouble ∧ num py v = .ok (some (.finite q))

theorem num_eq_some (h : num py v = .ok (some x)) : pyFloatOf py v = .ok x := by grind [num]

theorem num_of_coerceNumber (hx : num py v = .ok (some x))
    (hq : coerceNumber py (parseRuleValue py v) = .ok (some q)) : x = .finite q := by
  have hb : v.isBool = false := by
    cases hb : v.isBool with
    | false => rfl
    | true =>
      obtain ⟨b, rfl⟩ := Value.eq_bool hb
      cases hq
  rcases coerceNumber_parse py hb (num_eq_some hx) with h | ⟨-, h⟩
  · rw [hq] at h
    cases x with
    | finite r =>
      cases h
      rfl
    | infinite _ => cases h
    | nan => cases h
  · rw [hq] at h
    cases h

theorem coerceNumber_of_finite (h : FiniteNumber py v q) :
    coerceNumber py (parseRuleValue py v) = .ok (some q) := by
  rcases coerceNumber_parse py h.1 (num_eq_some h.2.2) with hok | ⟨hnone, -⟩
  · exact hok
  · cases hnone

theorem parse_not_bool (h : coerceNumber py (parseRuleValue py v) = .ok (some q)) :
    (parseRuleValue py v).isBool = false := by
  cases hb : (parseRuleValue py v).isBool with
  | false => rfl
  | true =>
    obtain ⟨b, hv⟩ := Value.eq_bool hb
    rw [hv] at h
    cases h

/-- The bounds of a numeric cell are finite numbers in their order. -/
def Bounds (py : PyText) (cell : Value) : Prop :=
  ∃ e, FiniteNumber py (rawValue cell) e ∧
    (cellOperator py cell = .between → ∃ u, FiniteNumber py (rawValue2 cell) u ∧ e ≤ u)

theorem blank_false {v : Option Value} (h : num py (v.getD .null) = .ok (some x)) :
    blank v = false := by
  have hfloat := num_eq_some h
  match v with
  | none | some .null => cases hfloat
  | some (.str s) =>
    by_cases hs : s = ""
    · subst hs
      have hempty : py.float "" = none := float_word py (List.all_iff_forall_prop.1 (by decide)) (by decide)
      simp_all [pyFloatOf]
    · simp [blank, hs]
  | some (.bool _) | some (.int _) | some (.float _) | some (.inf _) | some (.list _)
  | some (.dict _) => rfl

theorem cellValue2_eq (h : num py (rawValue2 cell) = .ok (some x)) :
    cellValue2 py cell = parseRuleValue py (rawValue2 cell) := by
  unfold cellValue2
  rw [blank_false h]
  rfl

theorem looseEqual_cellValue (hpy : py.Reads) (hactual : actual.IsDouble) {e : ℚ}
    (he : FiniteNumber py (rawValue cell) e) :
    looseEqual py actual (cellValue py cell) = (coerceNumber py actual).map (· == some e) :=
  have hvalue := coerceNumber_of_finite he
  looseEqual_number py hpy (parse_not_bool hvalue) hactual (parseRuleValue_double py he.2.1) hvalue

variable {lo hi : F64} {l u : Bool} {ts : List String}

theorem cellTest_of_within (hpy : py.Reads) (hactual : actual.IsDouble)
    {b : Bool} (hbounds : Bounds py cell)
    (hregion : cellRegion py cell ft = .ok (.interval lo hi l u))
    (hq : coerceNumber py actual = .ok (some q)) (hin : Within lo hi l u q)
    (htest : cellTest py search cell ft actual = .ok b) : b = true := by
  obtain ⟨e, he, hbetween⟩ := hbounds
  rcases cellRegion_cases hregion with ⟨-, hr⟩ | ⟨-, hr⟩ | ⟨hw, ⟨type, hnum, htype⟩, hop, hr⟩
  · cases hr
  · grind [textRegion_cases]
  obtain ⟨hb, hd⟩ := numericTypes_plain hnum
  rw [cellTest_eq hw, compare_numeric htype hb hd hop] at htest
  have hvalue : coerceNumber py (cellValue py cell) = .ok (some e) := coerceNumber_of_finite he
  split at htest
  · rename_i heq
    rw [looseEqual_cellValue hpy hactual he, hq] at htest
    rw [within_iff (u := none) hr he.2.2 (fun h => by rw [heq] at h; cases h), heq] at hin
    simp only [ordered, beq_iff_eq] at hin
    rw [← Except.ok.inj htest, hin]
    exact beq_self_eq_true _
  · obtain ⟨a, t, ha, ht, -, hcmp⟩ := compareNumbers_ok htest
    rw [hq] at ha
    rw [hvalue] at ht
    cases ha
    cases ht
    rcases hcmp q e rfl rfl with ⟨hne, rfl⟩ | ⟨hbw, w, hw2, rfl⟩
    · exact (within_iff hr he.2.2 (fun h => absurd h hne) q).1 hin
    · obtain ⟨v, hv, hle⟩ := hbetween hbw
      rw [cellValue2_eq hv.2.2, coerceNumber_of_finite hv] at hw2
      cases hw2
      exact (within_iff hr he.2.2 (fun _ => ⟨v, rfl, hv.2.2, hle⟩) q).1 hin

/-- What a numeric cell accepts lies in its interval; a cell that compares for equality has
    to name a finite number. -/
theorem within_of_cellTest (hpy : py.Reads) (hactual : actual.IsDouble)
    (heq : cellOperator py cell = .eq → ∃ e, FiniteNumber py (rawValue cell) e)
    (hregion : cellRegion py cell ft = .ok (.interval lo hi l u))
    (htest : cellTest py search cell ft actual = .ok true) :
    ∃ q, coerceNumber py actual = .ok (some q) ∧ Within lo hi l u q := by
  rcases cellRegion_cases hregion with ⟨-, hr⟩ | ⟨-, hr⟩ | ⟨hw, ⟨type, hnum, htype⟩, hop, hr⟩
  · cases hr
  · grind [textRegion_cases]
  obtain ⟨hb, hd⟩ := numericTypes_plain hnum
  rw [cellTest_eq hw, compare_numeric htype hb hd hop] at htest
  split at htest
  · rename_i hopeq
    obtain ⟨e, he⟩ := heq hopeq
    rw [looseEqual_cellValue hpy hactual he] at htest
    obtain ⟨a, ha, hae⟩ := map_eq_ok.1 htest
    obtain rfl : a = some e := by simpa using hae
    refine ⟨e, ha, ?_⟩
    rw [within_iff (u := none) hr he.2.2 (fun h => by rw [hopeq] at h; cases h), hopeq]
    simp [ordered]
  · obtain ⟨a, t, ha, ht, hsome, hcmp⟩ := compareNumbers_ok htest
    obtain ⟨q, e, rfl, rfl⟩ := hsome rfl
    refine ⟨q, ha, ?_⟩
    obtain ⟨x, hx⟩ : ∃ x, num py (rawValue cell) = .ok (some x) := numericRegion_num hr
    obtain rfl := num_of_coerceNumber hx ht
    rcases hcmp q e rfl rfl with ⟨hne, hord⟩ | ⟨hbw, w, hw2, hord⟩
    · exact (within_iff hr hx (fun h => absurd h hne) q).2 hord.symm
    · rw [hbw] at hord
      cases w with
      | none => simp [ordered] at hord
      | some v =>
        obtain ⟨x2, hx2⟩ := numericRegion_num2 hbw hr
        rw [cellValue2_eq hx2] at hw2
        obtain rfl := num_of_coerceNumber hx2 hw2
        have hle : e ≤ v := by
          have := hord.symm
          simp only [ordered, Option.any_some, Bool.and_eq_true, decide_eq_true_eq] at this
          exact this.1.trans this.2
        rw [within_iff hr hx (fun _ => ⟨v, rfl, hx2, hle⟩), hbw]
        exact hord.symm

/-! ### Options -/

/-- A threshold that is written as no other: a number, a boolean, nothing, or a text that
    no number is read off. -/
def Legible (py : PyText) : Value → Prop
  | .null | .bool _ | .int _ => True
  | .float q => Text.roundF64 q = some q
  | .str s => py.float s = none ∧ s ∉ ["None", "True", "False"]
  | .inf _ | .list _ | .dict _ => False

/-- The word a value is written with, if no number is read off it. -/
def wordOf : Value → Option String
  | .null => some "None"
  | .bool b => some (if b then "True" else "False")
  | .str s => some s
  | _ => none

theorem float_str_word {w : String} (hv : Legible py v) (hw : wordOf v = some w) :
    py.str v = w ∧ py.float w = none := by
  match v with
  | .null | .bool true | .bool false =>
    cases hw
    exact ⟨rfl, float_word py (List.all_iff_forall_prop.1 (by decide)) (by decide)⟩
  | .str s =>
    cases hw
    exact ⟨rfl, hv.1⟩

theorem float_str_number (hpy : py.Reads) (hv : Legible py v) (hw : wordOf v = none) :
    ∃ x, py.float (py.str v) = some x := by
  match v with
  | .int n => exact ⟨_, float_repr py n⟩
  | .float q => exact ⟨_, hpy.reads q hv⟩

/-- What is written as no word is a number. -/
theorem number_of_wordOf (hv : Legible py v) (hw : wordOf v = none) :
    (∃ n, v = .int n) ∨ ∃ q, v = .float q ∧ Text.roundF64 q = some q := by
  match v with
  | .int n => exact .inl ⟨n, rfl⟩
  | .float q => exact .inr ⟨q, rfl, hv⟩

theorem eq_of_wordOf {a : String} (hv : Legible py v) (h : wordOf v = some a) :
    v = if a = "None" then .null else if a = "True" then .bool true
      else if a = "False" then .bool false else .str a := by
  match v with
  | .null | .bool true | .bool false =>
    cases h
    rfl
  | .str s =>
    cases h
    have hs := hv.2
    simp_all

theorem legible_inj (hpy : py.Reads) {w : Value} (hv : Legible py v) (hw : Legible py w)
    (h : py.str v = py.str w) : v = w := by
  cases hwv : wordOf v with
  | some a =>
    obtain ⟨ha, hfa⟩ := float_str_word hv hwv
    cases hww : wordOf w with
    | none => grind [float_str_number]
    | some b =>
      obtain ⟨hb, -⟩ := float_str_word hw hww
      rw [eq_of_wordOf hv hwv, eq_of_wordOf hw hww, ← ha, ← hb, h]
  | none =>
    obtain ⟨x, hx⟩ := float_str_number hpy hv hwv
    cases hww : wordOf w with
    | some b =>
      obtain ⟨hb, hfb⟩ := float_str_word hw hww
      rw [h, hb, hfb] at hx
      cases hx
    | none =>
      obtain ⟨m, rfl⟩ | ⟨q, rfl, hqr⟩ := number_of_wordOf hv hwv
      · obtain ⟨n, rfl⟩ | ⟨q, rfl, hqr⟩ := number_of_wordOf hw hww
        · rw [Int.repr_injective h]
        · exact absurd h.symm (hpy.marked q hqr m)
      · obtain ⟨n, rfl⟩ | ⟨r, rfl, hrr⟩ := number_of_wordOf hw hww
        · exact absurd h (hpy.marked q hqr n)
        have hq := hpy.reads q hqr
        have hr := hpy.reads r hrr
        have heq : py.floatRepr q = py.floatRepr r := h
        rw [heq, hr] at hq
        cases hq
        rfl

/-- An option that is compared as what it is parsed to: it is left as it is, reads as the same
    number, or is the word of a boolean. -/
def Settled (py : PyText) (o : Value) : Prop :=
  o.IsDouble ∧ Legible py (parseRuleValue py o) ∧
    (parseRuleValue py o = o ∨
      (∃ q, coerceNumber py o = .ok (some q) ∧
        coerceNumber py (parseRuleValue py o) = .ok (some q)) ∨
      ∃ b, parseRuleValue py o = .bool b ∧ o = .str (stringify py (.bool b)))

theorem looseEqual_settled (hpy : py.Reads) {o : Value} (hv : v.IsDouble) (h : Settled py o) :
    looseEqual py v o = .ok true ↔ looseEqual py v (parseRuleValue py o) = .ok true := by
  obtain ⟨hdouble, -, hsame | ⟨q, hq, hpq⟩ | ⟨b, hb, rfl⟩⟩ := h
  · rw [hsame]
  · have hob : o.isBool = false := by
      cases hob : o.isBool with
      | false => rfl
      | true =>
        obtain ⟨b, rfl⟩ := Value.eq_bool hob
        cases hq
    simp_all [looseEqual_number, parse_not_bool, parseRuleValue_double]
  · rw [hb, looseEqual_bool, looseEqual_text py (coerceNumber_boolWord b), map_eq_ok]
    constructor
    · rintro ⟨r, -, hr⟩
      rw [hr]
    · intro heq
      have htext := Except.ok.inj heq
      cases hr : coerceNumber py v with
      | ok r => exact ⟨r, rfl, htext⟩
      | error e =>
        -- only an integer beyond the range raises, and it is written with digits
        obtain ⟨n, rfl⟩ : ∃ n, v = .int n := by
          cases v with
          | int n => exact ⟨n, rfl⟩
          | _ => cases hr
        have hmem : 'e' ∈ (stringify py (.bool b)).toList := by
          cases b with
          | true => exact (by decide : 'e' ∈ "true".toList)
          | false => exact (by decide : 'e' ∈ "false".toList)
        rw [← (beq_iff_eq.1 htext)] at hmem
        rcases mem_repr_digits hmem with hd | hd
        · exact absurd hd (by decide)
        · exact absurd hd (by decide)

/-- The thresholds a cell compares with, one of which has to be met. -/
def thresholds (py : PyText) (cell : Value) : List Value :=
  if cellOperator py cell = .isIn then asOptionList py (cellValue py cell) else [cellValue py cell]

/-- The options of a cell are the same to the evaluation and to the optimiser, and each is
    compared as what it is parsed to. -/
structure Readable (py : PyText) (cell : Value) : Prop where
  settled : ∀ o ∈ thresholds py cell, Settled py o
  texts : cellOperator py cell = .isIn →
    ∀ t, t ∈ (thresholds py cell).map (optionText py) ↔
      t ∈ (regionOptions py (rawValue cell)).map (optionText py)

theorem optionText_parse (v : Value) : optionText py (parseRuleValue py v) = optionText py v := by
  unfold optionText
  rw [parseRuleValue_idem]

theorem mem_set_iff (hcell : Readable py cell)
    (h : cellRegion py cell ft = .ok (.set ts)) (t : String) :
    t ∈ ts ↔ ∃ o ∈ thresholds py cell, optionText py o = t := by
  rw [← List.mem_map]
  rcases cellRegion_cases h with ⟨-, hr⟩ | ⟨-, hr⟩ | ⟨-, -, -, hr⟩
  · cases hr
  · rcases @textRegion_cases py (cellOperator py cell) (rawValue cell) with ⟨hop, ht⟩ | ⟨hop, ht⟩ | ht
    · rw [ht] at hr
      cases hr
      unfold thresholds
      rw [if_neg (by rw [hop]; decide)]
      show _ ↔ t ∈ [optionText py (parseRuleValue py (rawValue cell))]
      rw [optionText_parse]
    · rw [ht] at hr
      cases hr
      exact (hcell.texts hop t).symm
    · rw [ht] at hr
      cases hr
  grind [numericRegion_interval]

/-- A column whose type does not change what `==` means. -/
def Untyped (ft : Value) : Prop := typeName ft ≠ .ok "boolean" ∧ typeName ft ≠ .ok "date"

theorem set_operator (h : cellRegion py cell ft = .ok (.set ts)) :
    isWildcard cell = .ok false ∧ (cellOperator py cell = .eq ∨ cellOperator py cell = .isIn) := by
  rcases cellRegion_cases h with ⟨-, hr⟩ | ⟨hw, hr⟩ | ⟨-, -, -, hr⟩
  · cases hr
  · rcases @textRegion_cases py (cellOperator py cell) (rawValue cell) with ⟨hop, -⟩ | ⟨hop, -⟩ | ht
    · exact ⟨hw, Or.inl hop⟩
    · exact ⟨hw, Or.inr hop⟩
    · rw [ht] at hr
      cases hr
  grind [numericRegion_interval]

theorem cellTest_loosely {b : Bool} (hw : isWildcard cell = .ok false)
    (hop : cellOperator py cell = .isIn ∨ (cellOperator py cell = .eq ∧ Untyped ft))
    (h : cellTest py search cell ft actual = .ok b) :
    b = true ↔ ∃ o ∈ thresholds py cell, looseEqual py actual o = .ok true := by
  rw [cellTest_eq hw] at h
  rcases hop with hop | ⟨hop, hbool, hdate⟩
  · rw [hop] at h
    have hthresholds : thresholds py cell = asOptionList py (cellValue py cell) := if_pos hop
    rw [hthresholds]
    exact anyLooseEqual_iff h
  · have hthresholds : thresholds py cell = [cellValue py cell] := if_neg (by rw [hop]; decide)
    obtain ⟨type, ht⟩ : ∃ type, typeName ft = .ok type := by
      rw [hop] at h
      obtain ⟨type, ht, -⟩ := bind_eq_ok.1 h
      exact ⟨type, ht⟩
    simp_all [compare_numeric]

theorem compare_eq_upper (e e2 e2' : Value) :
    compare py search actual .eq e e2 ft = compare py search actual .eq e e2' ft := by
  have hdates : compareDates py actual .eq e e2 = compareDates py actual .eq e e2' := by
    unfold compareDates
    cases dateToEpoch py actual <;> cases dateToEpoch py e <;> rfl
  show compareTyped py actual .eq e e2 ft = compareTyped py actual .eq e e2' ft
  unfold compareTyped
  simp only [hdates]
  rfl

end Cells

section Cover
variable {py : PyText} {search : RegexSearch} {ci cj ft actual : Value}

theorem set_covered (hpy : py.Reads) (hactual : actual.IsDouble) (hi : Readable py ci)
    (hj : Readable py cj)
    (htyped : cellOperator py ci ≠ cellOperator py cj → Untyped ft) {as bs : List String}
    (ha : cellRegion py ci ft = .ok (.set as)) (hb : cellRegion py cj ft = .ok (.set bs))
    (hcovers : cellCovers (.set as) (.set bs) = true)
    (hpass : cellTest py search cj ft actual = .ok true) {b : Bool}
    (htest : cellTest py search ci ft actual = .ok b) : b = true := by
  obtain ⟨hwi, hopi⟩ := set_operator ha
  obtain ⟨hwj, hopj⟩ := set_operator hb
  -- a threshold of the one is a threshold of the other
  have hshared : ∀ oj ∈ thresholds py cj, ∃ oi ∈ thresholds py ci,
      parseRuleValue py oi = parseRuleValue py oj := by
    intro oj hoj
    have hmem : optionText py oj ∈ as := by
      have := List.all_eq_true.1 hcovers _ ((mem_set_iff hj hb _).2 ⟨oj, hoj, rfl⟩)
      simpa using this
    obtain ⟨oi, hoi, htext⟩ := (mem_set_iff hi ha _).1 hmem
    exact ⟨oi, hoi, legible_inj hpy (hi.settled oi hoi).2.1 (hj.settled oj hoj).2.1 htext⟩
  have hloose : (cellOperator py ci = .isIn ∨ (cellOperator py ci = .eq ∧ Untyped ft)) →
      (cellOperator py cj = .isIn ∨ (cellOperator py cj = .eq ∧ Untyped ft)) → b = true := by
    intro hli hlj
    obtain ⟨oj, hoj, heq⟩ := (cellTest_loosely hwj hlj hpass).1 rfl
    obtain ⟨oi, hoi, hsame⟩ := hshared oj hoj
    refine (cellTest_loosely hwi hli htest).2 ⟨oi, hoi, ?_⟩
    rw [looseEqual_settled hpy hactual (hi.settled oi hoi), hsame,
      ← looseEqual_settled hpy hactual (hj.settled oj hoj)]
    exact heq
  by_cases hop : cellOperator py ci = cellOperator py cj
  · rcases hopi with hei | hei
    · -- both compare for equality, with the same value
      have hej : cellOperator py cj = .eq := hop.symm.trans hei
      have hti : thresholds py ci = [cellValue py ci] := if_neg (by rw [hei]; decide)
      have htj : thresholds py cj = [cellValue py cj] := if_neg (by rw [hej]; decide)
      obtain ⟨oi, hoi, hsame⟩ := hshared (cellValue py cj) (by rw [htj]; exact List.mem_singleton_self _)
      rw [hti, List.mem_singleton] at hoi
      have hvalue : cellValue py ci = cellValue py cj := by
        have h1 : parseRuleValue py (cellValue py ci) = cellValue py ci := parseRuleValue_idem _
        have h2 : parseRuleValue py (cellValue py cj) = cellValue py cj := parseRuleValue_idem _
        rw [hoi, h1, h2] at hsame
        exact hsame
      rw [cellTest_eq hwi, hei, hvalue, compare_eq_upper _ _ (cellValue2 py cj), ← hej,
        ← cellTest_eq hwj, hpass] at htest
      exact (Except.ok.inj htest).symm
    · exact hloose (Or.inl hei) (Or.inl (hop.symm.trans hei))
  · grind

/-- What has to hold of a cell and of one behind it, for the optimiser to be right about them. -/
structure Faithful (py : PyText) (ft ci cj : Value) : Prop where
  /-- The bounds of the first are finite numbers in their order. -/
  bounds : ∀ lo hi l u, cellRegion py ci ft = .ok (.interval lo hi l u) → Bounds py ci
  /-- The second is equal to finite numbers only. -/
  equals : ∀ lo hi l u, cellRegion py cj ft = .ok (.interval lo hi l u) →
    cellOperator py cj = .eq → ∃ e, FiniteNumber py (rawValue cj) e
  /-- The options of both are read alike. -/
  options : ∀ as bs, cellRegion py ci ft = .ok (.set as) → cellRegion py cj ft = .ok (.set bs) →
    Readable py ci ∧ Readable py cj ∧ (cellOperator py ci ≠ cellOperator py cj → Untyped ft)

theorem cell_covered (hpy : py.Reads) (hactual : actual.IsDouble) (hf : Faithful py ft ci cj)
    {a b : Region} (ha : cellRegion py ci ft = .ok a) (hb : cellRegion py cj ft = .ok b)
    (hcovers : cellCovers a b = true) (hpass : cellTest py search cj ft actual = .ok true) {p : Bool}
    (htest : cellTest py search ci ft actual = .ok p) : p = true := by
  match a, b, hcovers with
  | .all, _, _ =>
    rcases cellRegion_cases ha with ⟨hw, -⟩ | ⟨-, hr⟩ | ⟨-, -, -, hr⟩
    · rw [cellTest_of_wildcard hw] at htest
      exact (Except.ok.inj htest).symm
    · rcases @textRegion_cases py (cellOperator py ci) (rawValue ci) with ⟨-, ht⟩ | ⟨-, ht⟩ | ht <;>
        rw [ht] at hr <;> cases hr
    grind -ring -linarith [numericRegion_interval]
  | .interval .., .interval .., hcovers =>
    obtain ⟨q, hq, hin⟩ := within_of_cellTest hpy hactual (hf.equals _ _ _ _ hb) hb hpass
    exact cellTest_of_within hpy hactual (hf.bounds _ _ _ _ ha) ha hq
      (within_of_covers hcovers hin) htest
  | .set .., .set .., hcovers =>
    obtain ⟨hi, hj, htyped⟩ := hf.options _ _ ha hb
    grind -ring -linarith [set_covered]

/-! ### Rows -/

variable {vars inputs : Dict}

theorem evaluateCell_ok {cells : Value} {input : String × Value} {t : CellTrace}
    (h : evaluateCell py search vars cells input = .ok t) :
    ∃ cell, cellAt cells input.1 = .ok cell ∧ cellTest py search cell (fieldTypeOf input.2)
      ((vars.lookup (variableOf py input.1 input.2)).getD .null) = .ok t.passed := by
  grind [evaluateCell, bind_eq_ok]

def actualOf (py : PyText) (vars : Dict) (input : String × Value) : Value :=
  (vars.lookup (variableOf py input.1 input.2)).getD .null

theorem evaluateRow_ok {row : Value} {t : RowTrace}
    (h : evaluateRow py search inputs vars row = .ok t) :
    t.row = row ∧ ∃ cells, rowCells row = .ok cells ∧
      (∀ input ∈ inputs, ∃ cell b, cellAt cells input.1 = .ok cell ∧
        cellTest py search cell (fieldTypeOf input.2) (actualOf py vars input) = .ok b ∧
        (t.matched = true → b = true)) ∧
      ((∀ input ∈ inputs, ∀ cell b, cellAt cells input.1 = .ok cell →
        cellTest py search cell (fieldTypeOf input.2) (actualOf py vars input) = .ok b → b = true) →
        t.matched = true) := by
  unfold evaluateRow at h
  obtain ⟨cells, hcells, h⟩ := bind_eq_ok.1 h
  obtain ⟨trace, htrace, h⟩ := bind_eq_ok.1 h
  cases h
  obtain ⟨hleft, hright⟩ := mapM_mem htrace
  refine ⟨rfl, cells, hcells, ?_, ?_⟩
  · intro input hinput
    obtain ⟨t, ht, heval⟩ := hleft input hinput
    obtain ⟨cell, hcell, htest⟩ := evaluateCell_ok heval
    exact ⟨cell, t.passed, hcell, htest, fun hall => List.all_eq_true.1 hall t ht⟩
  · intro hall
    refine List.all_eq_true.2 fun t ht => ?_
    obtain ⟨input, hinput, heval⟩ := hright t ht
    obtain ⟨cell, hcell, htest⟩ := evaluateCell_ok heval
    exact hall input hinput cell t.passed hcell htest

theorem cellsCover_ok {ecells lcells : Value} :
    ∀ {inputs : Dict}, cellsCover py ecells lcells inputs = .ok true → ∀ input ∈ inputs,
      ∃ ci cj a b, cellAt ecells input.1 = .ok ci ∧ cellAt lcells input.1 = .ok cj ∧
        cellRegion py ci (fieldTypeOf input.2) = .ok a ∧
        cellRegion py cj (fieldTypeOf input.2) = .ok b ∧ cellCovers a b = true
  | [], _, _, hinput => by cases hinput
  | (id, column) :: inputs, h, input, hinput => by
    unfold cellsCover at h
    obtain ⟨ci, hci, h⟩ := bind_eq_ok.1 h
    obtain ⟨a, ha, h⟩ := bind_eq_ok.1 h
    obtain ⟨cj, hcj, h⟩ := bind_eq_ok.1 h
    obtain ⟨b, hb, h⟩ := bind_eq_ok.1 h
    split at h
    · cases h
    · rename_i hnone
      rcases List.mem_cons.1 hinput with rfl | hinput
      · grind
      · exact cellsCover_ok h input hinput

/-- The cells of two rows are such that the optimiser is right about them. -/
def RowsFaithful (py : PyText) (inputs : Dict) (earlier later : Value) : Prop :=
  ∀ ecells lcells, rowCells earlier = .ok ecells → rowCells later = .ok lcells →
    ∀ input ∈ inputs, ∀ ci cj, cellAt ecells input.1 = .ok ci → cellAt lcells input.1 = .ok cj →
      Faithful py (fieldTypeOf input.2) ci cj

def Doubles (vars : Dict) : Prop := ∀ key v, vars.lookup key = some v → v.IsDouble

theorem actualOf_double (h : Doubles vars) (input : String × Value) :
    (actualOf py vars input).IsDouble := by
  unfold actualOf
  cases hv : vars.lookup (variableOf py input.1 input.2) with
  | none =>
    intro q hq
    cases hq
  | some v => exact h _ v hv

theorem row_covered (hpy : py.Reads) (hvars : Doubles vars)
    {earlier later : Value} (hf : RowsFaithful py inputs earlier later)
    (hcovers : rowCovers py inputs earlier later = .ok true) {te tl : RowTrace}
    (hl : evaluateRow py search inputs vars later = .ok tl) (hmatched : tl.matched = true)
    (he : evaluateRow py search inputs vars earlier = .ok te) : te.matched = true := by
  obtain ⟨-, lcells, hlcells, hltests, -⟩ := evaluateRow_ok hl
  obtain ⟨-, ecells, hecells, -, hall⟩ := evaluateRow_ok he
  unfold rowCovers at hcovers
  rw [hlcells, hecells] at hcovers
  refine hall fun input hinput cell b hcell htest => ?_
  obtain ⟨ci, cj, ra, rb, hci, hcj, hra, hrb, hcov⟩ := cellsCover_ok hcovers input hinput
  obtain ⟨cell', b', hcell', htest', hpass⟩ := hltests input hinput
  obtain rfl : ci = cell := Except.ok.inj (hci.symm.trans hcell)
  obtain rfl : cj = cell' := Except.ok.inj (hcj.symm.trans hcell')
  rw [hpass hmatched] at htest'
  exact cell_covered hpy (actualOf_double hvars input)
    (hf ecells lcells hecells hlcells input hinput ci cj hci hcj) hra hrb hcov htest' htest

end Cover

/-! ### The row that wins -/

/-- A priority that is not beaten by another one that comes later. -/
def Outranks (p q : F64) : Prop := q = .nan ∨ F64.le q p = true

theorem gt_order (h : F64.gt a b = true) :
    ∃ s t, F64.order a = some s ∧ F64.order b = some t ∧ t < s := by
  cases ha : F64.order a with
  | none =>
    rw [F64.order_eq_none.1 ha] at h
    cases h
  | some s =>
    cases hb : F64.order b with
    | none =>
      rw [F64.order_eq_none.1 hb] at h
      rcases a with _ | (_ | _) | _ <;> cases h
    | some t => exact ⟨s, t, rfl, rfl, (F64.gt_of_order ha hb).1 h⟩

theorem gt_trans {c : F64} (h : F64.gt a b = true) (h' : F64.gt b c = true) :
    F64.gt a c = true := by
  obtain ⟨s, t, ha, hb, hst⟩ := gt_order h
  obtain ⟨t', u, hb', hc, htu⟩ := gt_order h'
  obtain rfl : t = t' := Option.some.inj (hb.symm.trans hb')
  exact (F64.gt_of_order ha hc).2 (htu.trans hst)

theorem gt_of_outranks {p q c : F64} (h : Outranks p q) (hgt : F64.gt q c = true) :
    F64.gt p c = true := by
  obtain ⟨s, u, hq, hc, hus⟩ := gt_order hgt
  rcases h with rfl | hle
  · cases hq
  · simp only [F64.le, Bool.or_eq_true, Bool.not_eq_true'] at hle
    rcases hle with hne | hlt
    · cases hp : F64.order p with
      | none =>
        rw [F64.order_eq_none.1 hp] at hne
        cases q <;> cases hne
      | some t =>
        have hst : ¬ s ≠ t := by
          rw [← F64.ne_of_order hq hp, hne]
          simp
        simp_all [F64.gt_of_order]
    · exact gt_trans hlt hgt

theorem highest_append (b : Value × F64) (as cs : List (Value × F64)) :
    highest b (as ++ cs) = highest (highest b as) cs := by
  induction as generalizing b with
  | nil => rfl
  | cons a as ih => exact ih _

theorem highest_mem (b : Value × F64) (rs : List (Value × F64)) : highest b rs ∈ b :: rs := by
  induction rs generalizing b with
  | nil => exact List.mem_cons_self
  | cons r rs ih => grind [highest]

theorem highest_first (b : Value × F64) (rs : List (Value × F64)) :
    highest b rs = b ∨ F64.gt (highest b rs).2 b.2 = true := by
  induction rs generalizing b with
  | nil => exact Or.inl rfl
  | cons r rs ih =>
    rw [highest]
    split_ifs with hgt
    · grind -ring -linarith [gt_trans]
    · exact ih b

theorem not_gt_highest (b : Value × F64) (rs : List (Value × F64)) :
    ∀ r ∈ b :: rs, F64.gt r.2 (highest b rs).2 = false := by
  have hirrefl : ∀ a : F64, F64.gt a a = false := by
    intro a
    rcases a with _ | (_ | _) | _ <;> simp [F64.gt]
  induction rs generalizing b with
  | nil =>
    intro r hr
    rw [List.mem_singleton.1 hr]
    exact hirrefl _
  | cons c rs ih =>
    intro r hr
    rw [highest]
    have hbest := ih (if F64.gt c.2 b.2 then c else b)
    have hfirst := hbest _ List.mem_cons_self
    rcases List.mem_cons.1 hr with rfl | hr
    · grind -ring -linarith [gt_trans]
    · rcases List.mem_cons.1 hr with rfl | hr
      · split_ifs at hfirst ⊢ with hgt
        · exact hfirst
        grind -ring -linarith [highest_first, gt_trans]
      · exact hbest r (List.mem_cons_of_mem _ hr)

theorem highest_skips {b e l : Value × F64} {as cs : List (Value × F64)} (he : e ∈ b :: as)
    (h : Outranks e.2 l.2) : highest b (as ++ l :: cs) ∈ b :: (as ++ cs) := by
  have hskip : F64.gt l.2 (highest b as).2 = false := by
    by_contra hcon
    have := gt_of_outranks h (by simpa using hcon)
    rw [not_gt_highest b as e he] at this
    cases this
  rw [highest_append, highest, hskip]
  have hmem := highest_mem (highest b as) cs
  simp only [Bool.false_eq_true, if_false]
  rcases List.mem_cons.1 hmem with h | h
  · grind [highest_mem]
  · exact List.mem_cons_of_mem _ (List.mem_append_right _ h)

section Winner
variable {py : PyText} {search : RegexSearch}

variable {inputs vars : Dict} {later earlier row : Value} {rows : List Value}

variable {before as bs : List Value} {trace : List RowTrace} {table w : Value} {r : TableResult}
  {policy : HitPolicy}

theorem firstCover_ok (h : firstCover py inputs later before = .ok (some earlier)) :
    earlier ∈ before ∧ rowCovers py inputs earlier later = .ok true := by
  induction before with
  | nil => cases h
  | cons e es ih => grind [firstCover, bind_eq_ok]

theorem unreachableRows_ok
    {found : List (Value × Value)} (h : unreachableRows py inputs before rows = .ok found)
    (hmem : (later, earlier) ∈ found) :
    rowCovers py inputs earlier later = .ok true ∧
      ∃ as bs, before ++ rows = as ++ later :: bs ∧ earlier ∈ as := by
  induction rows generalizing before found with
  | nil =>
    cases h
    cases hmem
  | cons row rows ih =>
    unfold unreachableRows at h
    obtain ⟨cover, hcover, h⟩ := bind_eq_ok.1 h
    obtain ⟨more, hmore, h⟩ := bind_eq_ok.1 h
    cases h
    rcases List.mem_append.1 hmem with hmem | hmem
    · obtain ⟨e, he, heq⟩ := List.mem_map.1 hmem
      cases heq
      cases cover with
      | none => cases he
      | some c =>
        obtain rfl : earlier = c := by simpa using he
        obtain ⟨hin, hcov⟩ := firstCover_ok hcover
        exact ⟨hcov, before, rows, rfl, hin⟩
    · grind

def rowMatches (py : PyText) (search : RegexSearch) (inputs vars : Dict) (row : Value) : Bool :=
  match evaluateRow py search inputs vars row with
  | .ok t => t.matched
  | .error _ => false

theorem matchedRows_eq (h : rows.mapM (evaluateRow py search inputs vars) = .ok trace) :
    matchedRows trace = rows.filter (rowMatches py search inputs vars) := by
  induction mapM_eq_ok.1 h with
  | nil => rfl
  | @cons row t rows trace hrow hrest ih =>
    have ih := ih (mapM_eq_ok.2 hrest)
    have hmatches : rowMatches py search inputs vars row = t.matched := by
      unfold rowMatches
      rw [hrow]
    unfold matchedRows at ih ⊢
    rw [List.filter_cons, List.filter_cons, hmatches]
    cases ht : t.matched with
    | true => rw [if_pos rfl, if_pos rfl, List.map_cons, ih, (evaluateRow_ok hrow).1]
    | false => exact ih

theorem evaluateDecisionTable_ok (h : evaluateDecisionTable py search table vars = .ok r) :
    ∃ inputs rows trace outputs, inputIndex py table = .ok inputs ∧ tableRows table = .ok rows ∧
      rows.mapM (evaluateRow py search inputs vars) = .ok trace ∧
      resolve py table (hitPolicy py table) (rows.filter (rowMatches py search inputs vars)) =
        .ok (outputs, r.winningRowId) ∧
      r.ambiguous = (decide (hitPolicy py table = .unique) &&
        decide (1 < (rows.filter (rowMatches py search inputs vars)).length)) := by
  unfold evaluateDecisionTable at h
  split at h
  · cases h
  · obtain ⟨inputs, hinputs, h⟩ := bind_eq_ok.1 h
    obtain ⟨rows, hrows, h⟩ := bind_eq_ok.1 h
    obtain ⟨outs, -, h⟩ := bind_eq_ok.1 h
    obtain ⟨id, -, h⟩ := bind_eq_ok.1 h
    obtain ⟨trace, htrace, h⟩ := bind_eq_ok.1 h
    obtain ⟨⟨outputs, winning⟩, hresolve, h⟩ := bind_eq_ok.1 h
    cases h
    rw [matchedRows_eq htrace] at hresolve
    grind [matchedRows_eq]

/-- What has to hold of a row and of one reported behind it. -/
structure Behind (py : PyText) (inputs : Dict) (policy : HitPolicy) (earlier later : Value) :
    Prop where
  cells : RowsFaithful py inputs earlier later
  priority : policy = .priority → ∀ p q, rowPriority py earlier = .ok p →
    rowPriority py later = .ok q → Outranks p q
  /-- The default row is told apart. -/
  named : rowId later ≠ .null ∧ rowId later ≠ .str "default"

theorem withPriority_ok {x : Value × F64} (h : withPriority py row = .ok x) :
    x.1 = row ∧ rowPriority py row = .ok x.2 := by
  obtain ⟨p, hp, rfl⟩ := map_eq_ok.1 h
  exact ⟨rfl, hp⟩

theorem winner_ne
    (hw : winner py policy row rows = .ok w) (hsplit : row :: rows = as ++ later :: bs)
    (he : earlier ∈ as) (hpriority : policy = .priority → ∀ p q, rowPriority py earlier = .ok p →
      rowPriority py later = .ok q → Outranks p q) : w ∈ as ++ bs := by
  obtain ⟨as', rfl⟩ : ∃ as', as = row :: as' := by
    cases as with
    | nil => cases he
    | cons a as =>
      rw [List.cons_append] at hsplit
      exact ⟨as, by rw [(List.cons.inj hsplit).1]⟩
  have hrows : rows = as' ++ later :: bs := (List.cons.inj hsplit).2
  unfold winner at hw
  split at hw
  · rename_i hpol
    obtain ⟨best, hbest, hw⟩ := bind_eq_ok.1 hw
    obtain ⟨rest, hrest, hw⟩ := bind_eq_ok.1 hw
    cases hw
    rw [hrows, List.mapM_append] at hrest
    obtain ⟨ps, hps, hrest⟩ := bind_eq_ok.1 hrest
    obtain ⟨ls, hls, hrest⟩ := bind_eq_ok.1 hrest
    cases hrest
    rw [List.mapM_cons] at hls
    obtain ⟨l, hl, hls⟩ := bind_eq_ok.1 hls
    obtain ⟨cs, hcs, hls⟩ := bind_eq_ok.1 hls
    cases hls
    obtain ⟨e, hein, heq⟩ : ∃ e ∈ best :: ps, withPriority py earlier = .ok e := by
      rcases List.mem_cons.1 he with rfl | he
      · exact ⟨best, List.mem_cons_self, hbest⟩
      · obtain ⟨e, hein, heq⟩ := (mapM_mem hps).1 earlier he
        exact ⟨e, List.mem_cons_of_mem _ hein, heq⟩
    have houtranks : Outranks e.2 l.2 :=
      hpriority hpol _ _ (withPriority_ok heq).2 (withPriority_ok hl).2
    have hmem := @highest_skips best e l ps cs hein houtranks
    rcases List.mem_cons.1 hmem with hmem | hmem
    · rw [hmem, (withPriority_ok hbest).1]
      exact List.mem_append_left _ List.mem_cons_self
    · rcases List.mem_append.1 hmem with hmem | hmem
      · obtain ⟨r, hr, hreq⟩ := (mapM_mem hps).2 _ hmem
        rw [(withPriority_ok hreq).1]
        exact List.mem_append_left _ (List.mem_cons_of_mem _ hr)
      · obtain ⟨r, hr, hreq⟩ := (mapM_mem hcs).2 _ hmem
        rw [(withPriority_ok hreq).1]
        exact List.mem_append_right _ hr
  simp_all

theorem winner_mem (hw : winner py policy row rows = .ok w) : w ∈ row :: rows := by
  unfold winner at hw
  split at hw
  · obtain ⟨best, hbest, hw⟩ := bind_eq_ok.1 hw
    obtain ⟨rest, hrest, hw⟩ := bind_eq_ok.1 hw
    cases hw
    rcases List.mem_cons.1 (highest_mem best rest) with h | h
    · rw [h, (withPriority_ok hbest).1]
      exact List.mem_cons_self
    · obtain ⟨r, hr, hreq⟩ := (mapM_mem hrest).2 _ h
      rw [(withPriority_ok hreq).1]
      exact List.mem_cons_of_mem _ hr
  · cases hw
    exact List.mem_cons_self

theorem rowMatches_covered (hpy : py.Reads) (hvars : Doubles vars)
    (hf : RowsFaithful py inputs earlier later)
    (hcovers : rowCovers py inputs earlier later = .ok true)
    (htrace : rows.mapM (evaluateRow py search inputs vars) = .ok trace)
    (hl : later ∈ rows) (he : earlier ∈ rows)
    (hmatch : rowMatches py search inputs vars later = true) :
    rowMatches py search inputs vars earlier = true := by grind -ring -linarith [mapM_mem, rowMatches, row_covered]

theorem behind_never_wins (hpy : py.Reads) (hvars : Doubles vars)

    (hpolicy : hitPolicy py table = .first ∨ hitPolicy py table = .priority)
    (hinputs : inputIndex py table = .ok inputs)
    (hrows : tableRows table = .ok (as ++ later :: bs))
    (hids : ((as ++ later :: bs).map rowId).Nodup) (he : earlier ∈ as)
    (hcovers : rowCovers py inputs earlier later = .ok true)
    (hbehind : Behind py inputs (hitPolicy py table) earlier later)
    (hr : evaluateDecisionTable py search table vars = .ok r) : r.winningRowId ≠ rowId later := by
  obtain ⟨inputs', rows', trace, outputs, hin, hro, htrace, hresolve, -⟩ :=
    evaluateDecisionTable_ok hr
  obtain rfl : inputs = inputs' := Except.ok.inj (hinputs.symm.trans hin)
  obtain rfl : as ++ later :: bs = rows' := Except.ok.inj (hrows.symm.trans hro)
  have hcollect : hitPolicy py table ≠ .collect := by
    rcases hpolicy with h | h <;> rw [h] <;> decide
  have hnot : later ∉ as ++ bs := (List.nodup_cons.1 (List.nodup_middle.1 hids.of_map)).1
  intro hwin
  cases hmatched : (as ++ later :: bs).filter (rowMatches py search inputs vars) with
  | nil =>
    rw [hmatched] at hresolve
    obtain ⟨outs, -, hres⟩ := bind_eq_ok.1 hresolve
    have hid := (Prod.mk.inj (Except.ok.inj hres)).2
    rw [hwin] at hid
    split at hid
    · exact hbehind.named.1 hid.symm
    · exact hbehind.named.2 hid.symm
  | cons row rows =>
    rw [hmatched] at hresolve
    simp only [resolve, if_neg hcollect] at hresolve
    obtain ⟨w, hw, hres⟩ := bind_eq_ok.1 hresolve
    obtain ⟨outs, -, hres⟩ := bind_eq_ok.1 hres
    have hid : rowId w = rowId later := (Prod.mk.inj (Except.ok.inj hres)).2.trans hwin
    have hwmem : w ∈ (as ++ later :: bs).filter (rowMatches py search inputs vars) := by
      rw [hmatched]
      exact winner_mem hw
    obtain ⟨hwrows, hwmatch⟩ := List.mem_filter.1 hwmem
    obtain rfl : w = later := List.inj_on_of_nodup_map hids hwrows (by simp) hid
    have hematch : rowMatches py search inputs vars earlier = true :=
      rowMatches_covered hpy hvars hbehind.cells hcovers htrace hwrows
        (List.mem_append_left _ he) hwmatch
    have hsplit : row :: rows = as.filter (rowMatches py search inputs vars) ++
        w :: bs.filter (rowMatches py search inputs vars) := by
      rw [← hmatched, List.filter_append, List.filter_cons_of_pos hwmatch]
    have hmem := winner_ne hw hsplit (List.mem_filter.2 ⟨he, hematch⟩) hbehind.priority
    simp_all

end Winner

end RuleMind.DecisionTable
