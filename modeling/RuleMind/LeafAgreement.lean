/-
  The leaf of both engines: `parse_rule_value` on the thresholds and `compare` of `app/logic.py`,
  against `compare` of the Rust core on the raw thresholds.
-/
import RuleMind.RustCompare

namespace RuleMind.RustCore

open Text

/-! ### Operands that are read alike -/

section Alike
variable (py : PyText) (json : Value → String)

/-- The number that `_coerce_number` reads. -/
def pyNumber (v : Value) : Option ℚ :=
  match coerceNumber py v with
  | .ok r => r
  | .error _ => none

/-- Written alike in Python, or lists or objects that its `==` makes equal. -/
def PySameWords (a e : Value) : Prop := stringify py a = stringify py e ∨ (isContainer a ∧ pyEq a e)

/-- What `_loose_equal` makes equal: the same number, or no numbers and the same words. -/
def PySame (a e : Value) : Prop :=
  match pyNumber py a, pyNumber py e with
  | some q, some r => q = r
  | none, none => PySameWords py a e
  | _, _ => False

/-- The threshold stands for an integer beyond the range of a double. -/
def TooLarge (e : Value) : Prop := coerceNumber py (parseRuleValue py e) = .error .overflowError

/-- Where Python reads a number off the threshold: the same text is that number as a value too,
    and another numeral of it is one to Rust as well. -/
def NumeralsAlike (a e : Value) : Prop :=
  ∀ r, pyNumber py (parseRuleValue py e) = some r →
    (a = e → pyNumber py a = some r) ∧
    (pyNumber py a = some r → a = e ∨ (toNumber a).isSome ∧ (toNumber e).isSome)

def WordsAlike (a e : Value) : Prop :=
  let threshold := stringify py (parseRuleValue py e)
  match a, e with
  | .null, .str _ => threshold ≠ "None"
  | .str t, .null => t ≠ "None"
  | a, .str s => stringify py a = threshold ↔ valueToString json a = s
  | .str t, e => isContainer e → (t = py.str e ↔ t = json e)
  | a, e => isContainer a → isContainer e →
      (py.str a = py.str e ∨ pyEq a e ↔ json a = json e ∨ valueEq a e)

/-- The operands of `==`. -/
structure EqualAlike (a e : Value) : Prop where
  range : TooLarge py e → a.isBool
  numerals : NumeralsAlike py a e
  words : pyNumber py a = none → pyNumber py (parseRuleValue py e) = none → WordsAlike py json a e

/-- The operands of an order: a threshold is within the range where it is read, and if the
    comparison holds of the numbers in Python, Rust reads them all. -/
structure OrderAlike (a : Value) (op : Operator) (e e2 : Value) : Prop where
  range : ¬ TooLarge py e
  upper : op = .between → (pyNumber py a).isSome → (pyNumber py (parseRuleValue py e)).isSome →
    ¬ TooLarge py e2
  numerals : holds op (pyNumber py a) (pyNumber py (parseRuleValue py e))
      (pyNumber py (parseRuleValue py e2)) →
    (toNumber a).isSome ∧ (toNumber e).isSome ∧ (op = .between → (toNumber e2).isSome)

/-- The operands are read alike, as far as the operator tells. -/
def Alike (a : Value) (op : Operator) (e e2 : Value) (fieldType : Option String) : Prop :=
  match op with
  | .exists | .notExists => True
  | .isIn | .notIn =>
    (∃ o ∈ asOptionList py (parseRuleValue py e), PySame py a o) ↔
      ∃ o ∈ optionList json e, RustSame json a o
  | op =>
    if declared fieldType "boolean" ∧ (op = .eq ∨ op = .ne) then
      (RuleMind.toBool py a = RuleMind.toBool py (parseRuleValue py e) ↔ toBool a = toBool e)
    else if declared fieldType "date" then
      (holds op (RuleMind.dateToEpoch py a) (RuleMind.dateToEpoch py (parseRuleValue py e))
          (RuleMind.dateToEpoch py (parseRuleValue py e2)) ↔
        holds op (dateToEpoch json a) (dateToEpoch json e) (dateToEpoch json e2))
    else if op.isOrder then OrderAlike py a op e e2
    else EqualAlike py json a e

def sharedOperators : List Operator :=
  [.eq, .ne, .gt, .ge, .lt, .le, .between, .isIn, .notIn, .exists, .notExists]

/-- The leaf of the Python engine: the thresholds are rewritten first. -/
def pyLeaf (search : RegexSearch) (a : Value) (op : Operator) (e e2 : Value)
    (fieldType : Option String) : Except PyError Bool :=
  RuleMind.compare py search a op (parseRuleValue py e) (parseRuleValue py e2)
    ((fieldType.map Value.str).getD .null)

end Alike

/-! ### Equality in Python -/

section Python
variable {py : PyText}

variable {v a e : Value} {r : Option ℚ}

theorem pyNumber_ok (h : coerceNumber py v = .ok r) : pyNumber py v = r := by
  rw [pyNumber, h]

theorem pyNumber_bool (b : Bool) : pyNumber py (.bool b) = none := rfl

theorem pyNumber_container (h : isContainer v = true) : pyNumber py v = none := by
  cases v with
  | list vs => rfl
  | dict kvs => rfl
  | _ => cases h

theorem coerceNumber_some {q : ℚ} (h : pyNumber py v = some q) :
    coerceNumber py v = .ok (some q) := by
  unfold pyNumber at h
  grind

theorem stringify_ne_bool (hpy : py.Reads) {q : ℚ} (hv : v.IsDouble)
    (h : pyNumber py v = some q) (b : Bool) : stringify py v ≠ stringify py (.bool b) := by
  intro heq
  have hbool : v.isBool = false := by
    cases v with
    | bool c => cases h
    | _ => rfl
  grind -ring -linarith [coerceNumber_stringify, coerceNumber_some, coerceNumber_boolWord]

theorem pySame_bool (hpy : py.Reads) (ha : a.IsDouble) (he : e.IsDouble)
    (h : a.isBool = true ∨ e.isBool = true) :
    PySame py a e ↔ stringify py a = stringify py e := by
  unfold PySame
  rcases h with h | h
  · obtain ⟨b, rfl⟩ := Value.eq_bool h
    rw [pyNumber_bool]
    cases hq : pyNumber py e with
    | some q => simpa using (stringify_ne_bool hpy he hq b).symm
    | none => simp [PySameWords, isContainer]
  · obtain ⟨b, rfl⟩ := Value.eq_bool h
    rw [pyNumber_bool]
    cases hq : pyNumber py a with
    | some q => simpa using stringify_ne_bool hpy ha hq b
    | none =>
      have hcontainer : ¬ (isContainer a = true ∧ pyEq a (.bool b) = true) := by
        rintro ⟨hc, heq⟩
        cases a with
        | list vs => cases heq
        | dict kvs => cases heq
        | _ => cases hc
      simp [PySameWords, hcontainer]

theorem pySame_numeric {n : ℚ} (ha : a.IsDouble) (he : e.IsDouble)
    (hab : a.isBool = false) (heb : e.isBool = false) (hr : coerceNumber py a = .ok r)
    (hna : a.numeric = some n) (hne : e.numeric = some n) : PySame py a e := by
  grind -ring -linarith [coerceNumber_numeric, PySame, pyNumber_ok]

theorem pySame_of_pyEq (ha : a.IsDouble) (he : e.IsDouble)
    (hab : a.isBool = false) (heb : e.isBool = false) (hr : coerceNumber py a = .ok r)
    (h : pyEq a e = true) : PySame py a e := by
  cases a with
  | bool b => cases hab
  | int n => exact pySame_numeric ha he hab heb hr rfl (eq_of_beq h)
  | float q => exact pySame_numeric ha he hab heb hr rfl (eq_of_beq h)
  | null =>
    cases e with
    | null => exact .inl rfl
    | _ => cases h
  | inf neg =>
    cases e with
    | inf neg' =>
      rw [eq_of_beq (show (neg == neg') = true from h)]
      exact .inl rfl
    | _ => cases h
  | str s =>
    cases e with
    | str u =>
      rw [eq_of_beq (show (s == u) = true from h), PySame]
      cases pyNumber py (.str u) with
      | some q => rfl
      | none => exact .inl rfl
    | _ => cases h
  | list vs =>
    cases e with
    | list ws => exact .inr ⟨rfl, h⟩
    | _ => cases h
  | dict kvs =>
    cases e with
    | dict lws => exact .inr ⟨rfl, h⟩
    | _ => cases h

theorem looseEqual_same (hpy : py.Reads) (ha : a.IsDouble) (he : e.IsDouble)
    (h : (a.isBool = true ∨ e.isBool = true) ∨
      ∃ x y, coerceNumber py a = .ok x ∧ coerceNumber py e = .ok y) :
    ∃ b, RuleMind.looseEqual py a e = .ok b ∧ (b = true ↔ PySame py a e) := by
  by_cases hbool : a.isBool = true ∨ e.isBool = true
  · refine ⟨stringify py a == stringify py e, ?_, ?_⟩
    · unfold RuleMind.looseEqual
      rw [if_pos (by simpa using hbool)]
      split
      · next hboth =>
        obtain ⟨hab, heb⟩ : a.isBool = true ∧ e.isBool = true := by simpa using hboth
        obtain ⟨x, rfl⟩ := Value.eq_bool hab
        obtain ⟨y, rfl⟩ := Value.eq_bool heb
        cases x <;> cases y <;> rfl
      · rfl
    · rw [pySame_bool hpy ha he hbool, beq_iff_eq]
  · obtain ⟨x, y, hx, hy⟩ := h.resolve_left hbool
    obtain ⟨hab, heb⟩ : a.isBool = false ∧ e.isBool = false := by simpa using hbool
    unfold RuleMind.looseEqual
    simp only [hab, heb, Bool.or_self, Bool.false_eq_true, if_false]
    by_cases heq : pyEq a e = true
    · simp_all [pySame_of_pyEq]
    · rw [if_neg heq, hx, hy]
      have htext : stringify py a = stringify py e → x = y := by
        intro htext
        have hread := coerceNumber_stringify py hpy hab ha hx
        rw [htext, coerceNumber_stringify py hpy heb he hy] at hread
        exact (Except.ok.inj hread).symm
      unfold PySame
      rw [pyNumber_ok hx, pyNumber_ok hy]
      cases x with
      | some q =>
        cases y with
        | some r => exact ⟨q == r, rfl, by simp⟩
        | none =>
          refine ⟨stringify py a == stringify py e, rfl, ?_⟩
          simp_all
      | none =>
        cases y with
        | some r =>
          refine ⟨stringify py a == stringify py e, rfl, ?_⟩
          simp_all
        | none => exact ⟨stringify py a == stringify py e, rfl, by simp [PySameWords, heq]⟩

end Python

/-! ### The readings of what both engines parse -/

section Readings
variable (py : PyText)

variable {v e : Value} {q : ℚ}

theorem double_of_parses (h : parses v = true) : v.IsDouble := by
  intro q hq
  cases hq
  exact eq_of_beq h

theorem coerceNumber_of_parses (h : parses v = true) : ∃ r, coerceNumber py v = .ok r := by
  cases v with
  | int n =>
    obtain ⟨q, hq⟩ := Option.isSome_iff_exists.1 h
    exact ⟨some q, by simp only [coerceNumber, hq]⟩
  | _ => exact ⟨_, rfl⟩

theorem coerceNumber_cases (v : Value) :
    (∃ r, coerceNumber py v = .ok r) ∨ coerceNumber py v = .error .overflowError := by
  cases v with
  | int n => grind [coerceNumber]
  | _ => exact .inl ⟨_, rfl⟩

theorem toNumber_coerce (h : toNumber v = some q) : pyNumber py v = some q := by
  cases v with
  | int n =>
    rw [toNumber_int] at h
    simp only [pyNumber, coerceNumber, h]
  | float r => exact h
  | str s =>
    show (py.float s).bind F64.toRat = some q
    rw [float_of_numberText py h]
    rfl
  | _ => cases h

theorem toNumber_threshold (h : toNumber e = some q) :
    pyNumber py (parseRuleValue py e) = some q := by
  cases e with
  | str s =>
    have hread : pyFloatOf py (.str s) = .ok (.finite q) := by
      simp only [pyFloatOf, float_of_numberText py h]
    rcases coerceNumber_parse py rfl hread with hok | ⟨hinf, -⟩
    · exact pyNumber_ok hok
    · cases hinf
  | int n => exact toNumber_coerce py h
  | float r => exact toNumber_coerce py h
  | _ => cases h

theorem isContainer_threshold (s : String) : isContainer (parseRuleValue py (.str s)) = false := by
  have hfloat : ∀ x : Option F64, isContainer ((x.bind F64.toValue).getD (.str s)) = false := by
    rintro (_ | _ | _ | _) <;> rfl
  have hint : ∀ n : Option ℤ, isContainer ((n.map Value.int).getD (.str s)) = false := by
    rintro (_ | _) <;> rfl
  rw [parseRuleValue]
  split
  · rfl
  · split
    · exact hfloat _
    · exact hint _

theorem threshold_of_number (h : toNumber e = none) (he : parses e = true)
    (hs : ∀ s, e ≠ .str s) : parseRuleValue py e = e ∧ pyNumber py (parseRuleValue py e) = none := by
  cases e with
  | str s => exact absurd rfl (hs s)
  | int n =>
    obtain ⟨q, hq⟩ := Option.isSome_iff_exists.1 he
    rw [toNumber_int, hq] at h
    cases h
  | float q => cases h
  | inf neg => cases he
  | _ => exact ⟨rfl, rfl⟩

end Readings

/-! ### Options -/

theorem parses_of_mem {vs : List Value} (h : parsesList vs = true) {v : Value} (hv : v ∈ vs) :
    parses v = true := by
  induction vs with
  | nil => cases hv
  | cons w vs ih => grind -ring -linarith [parsesList]

section Options
variable {py : PyText}

variable {a e : Value} {json : Value → String}

theorem anyLooseEqual_same (hpy : py.Reads) (ha : parses a = true) {os : List Value}
    (hos : ∀ o ∈ os, parses o = true) :
    ∃ b, anyLooseEqual py a os = .ok b ∧ (b = true ↔ ∃ o ∈ os, PySame py a o) := by
  induction os with
  | nil => exact ⟨false, rfl, by simp⟩
  | cons o os ih =>
    have ho := hos o List.mem_cons_self
    obtain ⟨x, hx⟩ := coerceNumber_of_parses py ha
    obtain ⟨y, hy⟩ := coerceNumber_of_parses py ho
    obtain ⟨c, hc, hsame⟩ := looseEqual_same hpy (double_of_parses ha) (double_of_parses ho)
      (.inr ⟨x, y, hx, hy⟩)
    obtain ⟨b, hb, hany⟩ := ih fun o h => hos o (List.mem_cons_of_mem _ h)
    rw [anyLooseEqual, hc]
    cases c with
    | true => exact ⟨true, rfl, by simp [hsame.1 rfl]⟩
    | false =>
      have hnot : ¬ PySame py a o := fun h => by cases hsame.2 h
      exact ⟨b, hb, by simp [hany, hnot]⟩

theorem parses_pyOptions (py : PyText) (he : parses e = true) :
    ∀ o ∈ asOptionList py (parseRuleValue py e), parses o = true := by
  have htexts : ∀ s : String, ∀ o ∈ (splitOptions s).map Value.str, parses o = true := by
    intro s o ho
    obtain ⟨t, -, rfl⟩ := List.mem_map.1 ho
    rfl
  intro o ho
  unfold asOptionList at ho
  split at ho
  · next vs hvs =>
    cases e with
    | list ws =>
      cases hvs
      exact parses_of_mem he ho
    | str s =>
      have htext := isContainer_threshold py s
      rw [hvs] at htext
      cases htext
    | _ => cases hvs
  · cases ho
  · exact htexts _ o ho

theorem parses_optionList (he : parses e = true) : ∀ o ∈ optionList json e, parses o = true := by
  intro o ho
  unfold optionList at ho
  split at ho
  · exact parses_of_mem he ho
  · cases ho
  · obtain ⟨cs, -, rfl⟩ := List.mem_map.1 ho
    rfl

theorem optionList_any (hjson : Writes json) (ha : parses a = true) (he : parses e = true) :
    (optionList json e).any (looseEqual json a) = true ↔
      ∃ o ∈ optionList json e, RustSame json a o := by
  grind -ring -linarith [looseEqual_iff, parses_optionList]

end Options

/-! ### Operands that are no numbers -/

section Words
variable {py : PyText} {json : Value → String}

variable {v a e : Value}

theorem stringify_container (py : PyText) (h : isContainer v = true) :
    stringify py v = py.str v ∧ ∃ c cs, (py.str v).toList = c :: cs ∧ (c = '[' ∨ c = '{') := by
  cases v with
  | list vs => exact ⟨rfl, '[', _, by simp [PyText.str, PyText.repr]; rfl, .inl rfl⟩
  | dict kvs => exact ⟨rfl, '{', _, by simp [PyText.str, PyText.repr]; rfl, .inr rfl⟩
  | _ => cases h

theorem valueToString_container (hjson : Writes json) (h : isContainer v = true) :
    valueToString json v = json v ∧ ∃ c cs, (json v).toList = c :: cs ∧ (c = '[' ∨ c = '{') := by
  cases v with
  | list vs =>
    obtain ⟨cs, hcs⟩ := hjson.list vs
    exact ⟨rfl, '[', cs, hcs, .inl rfl⟩
  | dict kvs =>
    obtain ⟨cs, hcs⟩ := hjson.dict kvs
    exact ⟨rfl, '{', cs, hcs, .inr rfl⟩
  | _ => cases h

variable {s t : String} {w : Value}

theorem ne_of_bracket {c : Char} {cs : List Char} (hs : s.toList = c :: cs)
    (hc : c = '[' ∨ c = '{') (ht : ∀ d ∈ t.toList, d ≠ '[' ∧ d ≠ '{') : s ≠ t := by grind

theorem pySame_words (ha : pyNumber py a = none) (he : pyNumber py e = none) :
    PySame py a e ↔ PySameWords py a e := by
  unfold PySame
  rw [ha, he]

theorem rustSame_words (ha : toNumber a = none) (he : toNumber e = none) :
    RustSame json a e ↔ RustSameWords json a e := by
  unfold RustSame
  rw [ha, he]

theorem bool_word (py : PyText) (b : Bool) : stringify py (.bool b) ≠ "None" ∧
    ∀ d ∈ (stringify py (.bool b)).toList, d ≠ '[' ∧ d ≠ '{' := by
  have hword : ∀ d ∈ (if b then "true" else "false").toList, d ≠ '[' ∧ d ≠ '{' := by
    cases b with
    | true => exact List.all_iff_forall_prop.1 (by decide)
    | false => exact List.all_iff_forall_prop.1 (by decide)
  refine ⟨?_, hword⟩
  show (if b then "true" else "false") ≠ "None"
  cases b with
  | true => decide
  | false => decide

theorem pyEq_container (ha : isContainer a = true) (h : pyEq a e = true) :
    isContainer e = true := by
  cases a with
  | list vs =>
    cases e with
    | list ws => rfl
    | _ => cases h
  | dict kvs =>
    cases e with
    | dict lws => rfl
    | _ => cases h
  | _ => cases ha

theorem valueEq_container (ha : isContainer a = true) (h : valueEq a e = true) :
    isContainer e = true := by
  cases a with
  | list vs =>
    cases e with
    | list ws => rfl
    | _ => cases h
  | dict kvs =>
    cases e with
    | dict lws => rfl
    | _ => cases h
  | _ => cases ha

theorem stringify_ne_of_container (h : isContainer v = true)
    (hw : ∀ d ∈ (stringify py w).toList, d ≠ '[' ∧ d ≠ '{') :
    stringify py v ≠ stringify py w := by
  obtain ⟨htext, c, cs, hcs, hc⟩ := stringify_container py h
  rw [htext]
  exact ne_of_bracket hcs hc hw

theorem valueToString_ne_of_container (hjson : Writes json) (h : isContainer v = true)
    (hw : ∀ d ∈ (valueToString json w).toList, d ≠ '[' ∧ d ≠ '{') :
    valueToString json v ≠ valueToString json w := by
  obtain ⟨htext, c, cs, hcs, hc⟩ := valueToString_container hjson h
  rw [htext]
  exact ne_of_bracket hcs hc hw

theorem none_word : ∀ d ∈ (stringify py .null).toList, d ≠ '[' ∧ d ≠ '{' := by
  have hword : ∀ d ∈ "None".toList, d ≠ '[' ∧ d ≠ '{' := List.all_iff_forall_prop.1 (by decide)
  exact hword

theorem pySameWords_iff (he : isContainer e = false) :
    PySameWords py a e ↔ stringify py a = stringify py e := by
  refine or_iff_left ?_
  grind -ring -linarith [pyEq_container]

theorem rustSameWords_iff (he : isContainer e = false) :
    RustSameWords json a e ↔ a.isNull = e.isNull ∧ valueToString json a = valueToString json e := by
  refine or_iff_left ?_
  grind -ring -linarith [valueEq_container]

theorem word_cases (hv : parses v = true) (hn : toNumber v = none) :
    v = .null ∨ (∃ b, v = .bool b) ∨ (∃ s, v = .str s) ∨ isContainer v = true := by
  cases v with
  | null => exact .inl rfl
  | bool b => exact .inr (.inl ⟨b, rfl⟩)
  | str s => exact .inr (.inr (.inl ⟨s, rfl⟩))
  | list vs => exact .inr (.inr (.inr rfl))
  | dict kvs => exact .inr (.inr (.inr rfl))
  | int n =>
    obtain ⟨q, hq⟩ := Option.isSome_iff_exists.1 hv
    rw [toNumber_int, hq] at hn
    cases hn
  | float q => cases hn
  | inf neg => cases hv

theorem words_container (ha : isContainer a = true) (he : isContainer e = true) :
    WordsAlike py json a e ↔ (py.str a = py.str e ∨ pyEq a e ↔ json a = json e ∨ valueEq a e) := by
  cases a with
  | list _ | dict _ =>
    cases e with
    | list ws => exact ⟨fun h => h rfl rfl, fun h _ _ => h⟩
    | dict lws => exact ⟨fun h => h rfl rfl, fun h _ _ => h⟩
    | _ => cases he
  | _ => cases ha

theorem words_other (ha : isContainer a = false) (hs : ∀ s, a ≠ .str s)
    (he : ∀ s, e ≠ .str s) : WordsAlike py json a e := by
  cases e with
  | str s => exact absurd rfl (he s)
  | _ =>
    cases a with
    | str s => exact absurd rfl (hs s)
    | list vs => cases ha
    | dict kvs => cases ha
    | _ => exact fun h => nomatch h

theorem words_text (ha : parses a = true) (hna : toNumber a = none) :
    (PySameWords py a (parseRuleValue py (.str s)) ↔ RustSameWords json a (.str s)) ↔
      WordsAlike py json a (.str s) := by
  have hpy : PySameWords py a (parseRuleValue py (.str s)) ↔ _ :=
    pySameWords_iff (isContainer_threshold py s)
  have hrust : RustSameWords json a (.str s) ↔ _ := rustSameWords_iff rfl
  rw [hpy, hrust]
  rcases word_cases ha hna with rfl | ⟨b, rfl⟩ | ⟨u, rfl⟩ | hc
  · show (_ ↔ _) ↔ stringify py (parseRuleValue py (.str s)) ≠ "None"
    simp [Value.isNull, eq_comm, show stringify py .null = "None" from rfl]
  · show (_ ↔ _) ↔ (_ ↔ _)
    simp [Value.isNull, valueToString]
  · show (_ ↔ _) ↔ (_ ↔ _)
    simp [Value.isNull, valueToString]
  · rw [isNull_container hc]
    cases a with
    | list _ | dict _ =>
      show (_ ↔ _) ↔ (_ ↔ _)
      simp [Value.isNull, valueToString]
    | _ => cases hc

theorem words_null (ha : parses a = true) (hna : toNumber a = none) :
    (PySameWords py a .null ↔ RustSameWords json a .null) ↔ WordsAlike py json a .null := by
  have hpy : PySameWords py a .null ↔ _ := pySameWords_iff rfl
  have hrust : RustSameWords json a .null ↔ _ := rustSameWords_iff rfl
  rw [hpy, hrust]
  rcases word_cases ha hna with rfl | ⟨b, rfl⟩ | ⟨u, rfl⟩ | hc
  · exact iff_of_true (by simp) (words_other rfl (by simp) (by simp))
  · refine iff_of_true (iff_of_false (bool_word py b).1 ?_) (words_other rfl (by simp) (by simp))
    rintro ⟨h, -⟩
    cases h
  · show (_ ↔ _) ↔ u ≠ "None"
    simp [Value.isNull, show stringify py .null = "None" from rfl, show stringify py (.str u) = u from rfl]
  · refine iff_of_true (iff_of_false (stringify_ne_of_container hc none_word) ?_) ?_
    · rw [isNull_container hc]
      rintro ⟨h, -⟩
      cases h
    · cases a with
      | list vs => exact fun _ h => nomatch h
      | dict kvs => exact fun _ h => nomatch h
      | _ => cases hc

theorem words_bool (hjson : Writes json) {b : Bool} (ha : parses a = true)
    (hna : toNumber a = none) :
    (PySameWords py a (.bool b) ↔ RustSameWords json a (.bool b)) ↔
      WordsAlike py json a (.bool b) := by
  have hpy : PySameWords py a (.bool b) ↔ _ := pySameWords_iff rfl
  have hrust : RustSameWords json a (.bool b) ↔ _ := rustSameWords_iff rfl
  rw [hpy, hrust]
  rcases word_cases ha hna with rfl | ⟨c, rfl⟩ | ⟨u, rfl⟩ | hc
  · refine iff_of_true (iff_of_false (bool_word py b).1.symm ?_) (words_other rfl (by simp) (by simp))
    rintro ⟨h, -⟩
    cases h
  · exact iff_of_true ⟨fun h => ⟨rfl, h⟩, fun h => h.2⟩ (words_other rfl (by simp) (by simp))
  · exact iff_of_true ⟨fun h => ⟨rfl, h⟩, fun h => h.2⟩ fun h => nomatch h
  · refine iff_of_true (iff_of_false (stringify_ne_of_container hc (bool_word py b).2) ?_) ?_
    · rintro ⟨-, h⟩
      exact valueToString_ne_of_container hjson (w := .bool b) hc (bool_word py b).2 h
    · cases a with
      | list vs => exact fun _ h => nomatch h
      | dict kvs => exact fun _ h => nomatch h
      | _ => cases hc

theorem wordsAlike_text (he : isContainer e = true) :
    WordsAlike py json (.str t) e ↔ (t = py.str e ↔ t = json e) := by
  cases e with
  | list vs => exact ⟨fun h => h rfl, fun h _ => h⟩
  | dict kvs => exact ⟨fun h => h rfl, fun h _ => h⟩
  | _ => cases he

theorem words_list (hjson : Writes json) (ha : parses a = true)
    (hna : toNumber a = none) (he : isContainer e = true) :
    (PySameWords py a e ↔ RustSameWords json a e) ↔ WordsAlike py json a e := by
  have hpy := (stringify_container py he).1
  have hrust := (valueToString_container hjson he).1
  have hnot : ∀ s, e ≠ .str s := by
    rintro s rfl
    cases he
  rcases word_cases ha hna with rfl | ⟨b, rfl⟩ | ⟨t, rfl⟩ | hc
  · refine iff_of_true (iff_of_false ?_ ?_) (words_other rfl (by simp) hnot)
    · rintro (h | ⟨h, -⟩)
      · exact stringify_ne_of_container he none_word h.symm
      · cases h
    · rintro (⟨h, -⟩ | ⟨h, -⟩)
      · rw [isNull_container he] at h
        cases h
      · cases h
  · refine iff_of_true (iff_of_false ?_ ?_) (words_other rfl (by simp) hnot)
    · rintro (h | ⟨h, -⟩)
      · exact stringify_ne_of_container he (bool_word py b).2 h.symm
      · cases h
    · rintro (⟨-, h⟩ | ⟨h, -⟩)
      · exact valueToString_ne_of_container hjson (w := .bool b) he (bool_word py b).2 h.symm
      · cases h
  · rw [wordsAlike_text he]
    unfold PySameWords RustSameWords
    rw [hpy, hrust, isNull_container he]
    simp [Value.isNull, isContainer, valueToString, stringify, PyText.str]
  · rw [words_container hc he]
    simp_all [PySameWords, RustSameWords, isNull_container, stringify_container,
      valueToString_container]

theorem words_iff (hjson : Writes json) (ha : parses a = true) (he : parses e = true)
    (hna : toNumber a = none) (hne : toNumber e = none) :
    (PySameWords py a (parseRuleValue py e) ↔ RustSameWords json a e) ↔ WordsAlike py json a e := by
  rcases word_cases he hne with rfl | ⟨b, rfl⟩ | ⟨s, rfl⟩ | hc
  · exact words_null ha hna
  · exact words_bool hjson ha hna
  · exact words_text ha hna
  · rw [(threshold_of_number py hne he (by rintro s rfl; cases hc)).1]
    exact words_list hjson ha hna hc

end Words

/-! ### Equality in both engines -/

section Equality
variable {py : PyText} {json : Value → String}

variable {s : String} {q : ℚ} {e a : Value}

theorem float_of_pyNumber (h : pyNumber py (.str s) = some q) : py.float s = some (.finite q) := by
  obtain ⟨x, hx, hq⟩ := Option.bind_eq_some_iff.1 (show (py.float s).bind F64.toRat = some q from h)
  cases x <;> cases hq
  exact hx

theorem threshold_of_pyNumber (h : pyNumber py (.str s) = some q) :
    pyNumber py (parseRuleValue py (.str s)) = some q := by
  have hread : pyFloatOf py (.str s) = .ok (.finite q) := by
    simp only [pyFloatOf, float_of_pyNumber h]
  rcases coerceNumber_parse py rfl hread with hok | ⟨hinf, -⟩
  · exact pyNumber_ok hok
  · cases hinf

theorem threshold_word (b : Bool) :
    parseRuleValue py (.str (if b then "true" else "false")) = .bool b := by
  cases b with
  | true => rfl
  | false => rfl

theorem threshold_bracket {c : Char} {cs : List Char} (hs : s.toList = c :: cs)
    (hc : c = '[' ∨ c = '{') : pyNumber py (parseRuleValue py (.str s)) = none := by
  have hspace : pySpace c = false := by rcases hc with rfl | rfl <;> decide
  have hlow : c.toLower = c := by rcases hc with rfl | rfl <;> decide
  obtain ⟨ds, hds⟩ : ∃ ds, (lower (String.ofList (pyStrip s.toList))).toList = c :: ds := by
    obtain ⟨ds, hds⟩ : ∃ ds, pyStrip (c :: cs) = c :: ds := by
      unfold pyStrip trimBy
      rw [List.dropWhile_cons_of_neg (by simp [hspace]), List.reverse_cons, List.dropWhile_append]
      split
      · exact ⟨[], by simp [hspace]⟩
      · exact ⟨_, by rw [List.reverse_append]; rfl⟩
    exact ⟨ds.map Char.toLower, by rw [hs, hds]; simp [lower, hlow]⟩
  have hfloat := float_of_bracket py hds hc
  have hself : pyNumber py (.str s) = none := by
    unfold pyNumber
    rw [coerceNumber_bracket py hs hc]
  rw [parseRuleValue, hfloat, int_of_float py hfloat]
  split
  · rfl
  · split
    · exact hself
    · exact hself

/-- Where Rust reads no number off a threshold that is one to Python, only the same text is the
    same to it. -/
theorem rustSame_numeral (hjson : Writes json) {r : ℚ} (ha : parses a = true)
    (he : parses e = true) (hP : pyNumber py (parseRuleValue py e) = some r)
    (hne : toNumber e = none) : RustSame json a e ↔ a = e := by
  have hes : ∃ s, e = .str s := by
    by_contra hs
    rw [(threshold_of_number py hne he fun s h => hs ⟨s, h⟩).2] at hP
    cases hP
  obtain ⟨s, rfl⟩ := hes
  constructor
  · intro h
    unfold RustSame at h
    rw [hne] at h
    cases hna : toNumber a with
    | some q => rw [hna] at h; cases h
    | none =>
      rw [hna] at h
      have hwords := (rustSameWords_iff rfl).1 h
      rcases word_cases ha hna with rfl | ⟨b, rfl⟩ | ⟨u, rfl⟩ | hc
      · cases hwords.1
      · rw [← show (if b then "true" else "false") = s from hwords.2, threshold_word] at hP
        cases hP
      · rw [show u = s from hwords.2]
      · obtain ⟨htext, c, cs, hcs, hbr⟩ := valueToString_container hjson hc
        rw [← htext, hwords.2] at hcs
        rw [threshold_bracket (s := s) hcs hbr] at hP
        cases hP
  · rintro rfl
    unfold RustSame
    rw [hne]
    exact .inl ⟨rfl, rfl⟩

theorem same_number (hjson : Writes json) {r : ℚ} (ha : parses a = true)
    (he : parses e = true) (hP : pyNumber py (parseRuleValue py e) = some r) :
    (PySame py a (parseRuleValue py e) ↔ RustSame json a e) ↔ NumeralsAlike py a e := by
  have hpy : PySame py a (parseRuleValue py e) ↔ pyNumber py a = some r := by
    unfold PySame
    rw [hP]
    cases pyNumber py a with
    | some q => simp
    | none => simp
  have halike : NumeralsAlike py a e ↔ (a = e → pyNumber py a = some r) ∧
      (pyNumber py a = some r → a = e ∨ (toNumber a).isSome ∧ (toNumber e).isSome) := by
    refine ⟨fun h => h r hP, fun h r' hr' => ?_⟩
    rw [hP] at hr'
    cases hr'
    exact h
  rw [hpy, halike]
  cases hne : toNumber e with
  | none =>
    rw [rustSame_numeral hjson ha he hP hne]
    grind
  | some q =>
    have hq : q = r := Option.some.inj ((toNumber_threshold py hne).symm.trans hP)
    subst hq
    have hrust : RustSame json a e ↔ toNumber a = some q := by
      unfold RustSame
      rw [hne]
      cases toNumber a with
      | some q' => simp
      | none => simp
    rw [hrust]
    constructor
    · grind
    · rintro ⟨-, h⟩
      refine ⟨fun hpa => ?_, fun hra => toNumber_coerce py hra⟩
      rcases h hpa with rfl | ⟨hsome, -⟩
      · exact hne
      grind [Option.isSome_iff_exists, toNumber_coerce]

theorem not_rustSame_word (hjson : Writes json) (ha : parses a = true)
    (he : parses e = true) (hP : pyNumber py (parseRuleValue py e) = none)
    (hna : pyNumber py a = some q) : ¬ RustSame json a e := by
  intro h
  have hne : toNumber e = none := by
    cases hq : toNumber e with
    | none => rfl
    | some r => rw [toNumber_threshold py hq] at hP; cases hP
  unfold RustSame at h
  rw [hne] at h
  cases hra : toNumber a with
  | some r => rw [hra] at h; cases h
  | none =>
    rw [hra] at h
    rcases word_cases ha hra with rfl | ⟨b, rfl⟩ | ⟨t, rfl⟩ | hc
    · cases hna
    · cases hna
    · obtain ⟨hnull, htext⟩ := h.resolve_right fun hc => by cases hc.1
      have htext : t = valueToString json e := htext
      rcases word_cases he hne with rfl | ⟨b, rfl⟩ | ⟨s, rfl⟩ | hc
      · cases hnull
      · rw [htext] at hna
        have hword := coerceNumber_some hna
        rw [show valueToString json (.bool b) = stringify py (.bool b) from rfl,
          coerceNumber_boolWord] at hword
        cases hword
      · rw [show t = s from htext] at hna
        rw [threshold_of_pyNumber hna] at hP
        cases hP
      · obtain ⟨hval, c, cs, hcs, hbr⟩ := valueToString_container hjson hc
        rw [← hval, ← htext] at hcs
        cases (coerceNumber_some hna).symm.trans (coerceNumber_bracket py hcs hbr)
    · rw [pyNumber_container hc] at hna
      cases hna

theorem same_iff (hjson : Writes json) (ha : parses a = true) (he : parses e = true) :
    (PySame py a (parseRuleValue py e) ↔ RustSame json a e) ↔
      NumeralsAlike py a e ∧ (pyNumber py a = none → pyNumber py (parseRuleValue py e) = none →
        WordsAlike py json a e) := by
  cases hP : pyNumber py (parseRuleValue py e) with
  | some r => simp_all [same_number]
  | none =>
    have halike : NumeralsAlike py a e := by
      intro r hr
      rw [hP] at hr
      cases hr
    cases hna : pyNumber py a with
    | some q =>
      have hpy : ¬ PySame py a (parseRuleValue py e) := by
        unfold PySame
        rw [hna, hP]
        exact id
      exact iff_of_true (iff_of_false hpy (not_rustSame_word hjson ha he hP hna))
        ⟨halike, fun hcontra => by cases hcontra⟩
    | none =>
      have hra : toNumber a = none := by
        cases hq : toNumber a with
        | none => rfl
        | some q => rw [toNumber_coerce py hq] at hna; cases hna
      have hre : toNumber e = none := by
        cases hq : toNumber e with
        | none => rfl
        | some q => rw [toNumber_threshold py hq] at hP; cases hP
      simp_all [pySame_words, rustSame_words, words_iff]

theorem int_of_tooLarge (h : TooLarge py e) :
    ∃ n : ℤ, parseRuleValue py e = .int n ∧ roundF64 n = none := by
  unfold TooLarge at h
  cases hP : parseRuleValue py e with
  | int n =>
    rw [hP] at h
    refine ⟨n, rfl, ?_⟩
    grind [coerceNumber]
  | _ => rw [hP] at h; cases h

theorem looseEqual_tooLarge (ha : parses a = true) (hbool : a.isBool = false) (h : TooLarge py e) :
    RuleMind.looseEqual py a (parseRuleValue py e) = .error .overflowError := by
  obtain ⟨n, hP, hround⟩ := int_of_tooLarge h
  obtain ⟨x, hx⟩ := coerceNumber_of_parses py ha
  have hne : pyEq a (.int n) = false := by
    cases heq : pyEq a (.int n) with
    | false => rfl
    | true =>
      have hnum : a.numeric = some (n : ℚ) := pyEq_numeric rfl heq
      simp_all [coerceNumber_numeric, double_of_parses]
  have hlarge : coerceNumber py (.int n) = .error .overflowError := by
    simp only [coerceNumber, hround]
  rw [hP]
  unfold RuleMind.looseEqual
  rw [hbool, show (Value.int n).isBool = false from rfl, if_neg (by decide), hne,
    if_neg (by decide), hx, hlarge]
  rfl

theorem equal_iff (hpy : py.Reads) (hjson : Writes json) (ha : parses a = true)
    (he : parses e = true) :
    RuleMind.looseEqual py a (parseRuleValue py e) = .ok (looseEqual json a e) ↔
      EqualAlike py json a e := by
  by_cases hrange : TooLarge py e → a.isBool = true
  · have hreads : (a.isBool = true ∨ (parseRuleValue py e).isBool = true) ∨
        ∃ x y, coerceNumber py a = .ok x ∧ coerceNumber py (parseRuleValue py e) = .ok y := by
      by_cases hlarge : TooLarge py e
      · exact .inl (.inl (hrange hlarge))
      · obtain ⟨x, hx⟩ := coerceNumber_of_parses py ha
        obtain ⟨y, hy⟩ := (coerceNumber_cases py (parseRuleValue py e)).resolve_right hlarge
        exact .inr ⟨x, y, hx, hy⟩
    obtain ⟨b, hb, hsame⟩ := looseEqual_same hpy (double_of_parses ha)
      (parseRuleValue_double py (double_of_parses he)) hreads
    have hboth : b = looseEqual json a e ↔ (PySame py a (parseRuleValue py e) ↔ RustSame json a e) := by
      rw [← hsame, ← looseEqual_iff hjson ha he, Bool.eq_iff_iff]
    rw [hb, Except.ok.injEq, hboth, same_iff hjson ha he]
    exact ⟨fun h => ⟨hrange, h.1, h.2⟩, fun h => ⟨h.numerals, h.words⟩⟩
  · obtain ⟨hlarge, hbool⟩ := Classical.not_imp.1 hrange
    rw [looseEqual_tooLarge ha (by simpa using hbool) hlarge]
    exact iff_of_false (by simp) fun h => hrange h.range

end Equality

/-! ### Orders -/

section Orders
variable {py : PyText}

variable {op : Operator} {a : Value}

theorem holds_between {α : Type} [LinearOrder α] {a e u : Option α}
    (h : holds op a e u = true) : a.isSome ∧ e.isSome ∧ (op = .between → u.isSome) := by
  unfold holds at h
  split at h
  · refine ⟨rfl, rfl, ?_⟩
    rintro rfl
    cases u with
    | none => cases h
    | some u => rfl
  · cases h

theorem ordered_upper (hop : op ≠ .between) {α : Type} [LinearOrder α] (a e : α)
    (u v : Option α) : ordered op a e u = ordered op a e v := by
  cases op <;> first | rfl | exact absurd rfl hop

theorem compareNumbers_holds {P P2 : Value} {x y : Option ℚ}
    (hx : coerceNumber py a = .ok x) (hy : coerceNumber py P = .ok y)
    (h2 : op = .between → x.isSome → y.isSome → ∃ z, coerceNumber py P2 = .ok z) :
    compareNumbers py a op P P2 = .ok (holds op x y (pyNumber py P2)) := by
  unfold compareNumbers
  rw [hx, hy]
  cases x with
  | none => rfl
  | some q =>
    cases y with
    | none => rfl
    | some r =>
      by_cases hop : op = .between
      · obtain ⟨z, hz⟩ := h2 hop rfl rfl
        simp only [bind, Except.bind, if_pos hop]
        rw [hz, pyNumber_ok hz]
        rfl
      · simp only [bind, Except.bind, if_neg hop]
        exact congrArg Except.ok (ordered_upper hop q r none _)

/-- What Rust reads are the numbers that Python reads, so that the comparisons differ only where
    Python's holds and Rust does not read them all. -/
theorem holds_iff {e e2 : Value} :
    holds op (pyNumber py a) (pyNumber py (parseRuleValue py e))
        (pyNumber py (parseRuleValue py e2)) = holds op (toNumber a) (toNumber e) (toNumber e2) ↔
      (holds op (pyNumber py a) (pyNumber py (parseRuleValue py e))
          (pyNumber py (parseRuleValue py e2)) →
        (toNumber a).isSome ∧ (toNumber e).isSome ∧ (op = .between → (toNumber e2).isSome)) := by
  have hread : (toNumber a).isSome → (toNumber e).isSome → (op = .between → (toNumber e2).isSome) →
      holds op (pyNumber py a) (pyNumber py (parseRuleValue py e))
        (pyNumber py (parseRuleValue py e2)) = holds op (toNumber a) (toNumber e) (toNumber e2) := by
    intro ha he hu
    obtain ⟨q, hq⟩ := Option.isSome_iff_exists.1 ha
    obtain ⟨r, hr⟩ := Option.isSome_iff_exists.1 he
    rw [toNumber_coerce py hq, toNumber_threshold py hr, hq, hr]
    by_cases hop : op = .between
    · grind -ring -linarith [Option.isSome_iff_exists, toNumber_threshold]
    · exact ordered_upper hop q r _ _
  constructor
  · intro heq h
    rw [heq] at h
    exact holds_between h
  · intro h
    cases hpy : holds op (pyNumber py a) (pyNumber py (parseRuleValue py e))
        (pyNumber py (parseRuleValue py e2)) with
    | true => simp_all
    | false => grind -ring -linarith [holds_between]

theorem order_iff {e e2 : Value} (ha : parses a = true) :
    compareNumbers py a op (parseRuleValue py e) (parseRuleValue py e2) =
        .ok (holds op (toNumber a) (toNumber e) (toNumber e2)) ↔ OrderAlike py a op e e2 := by
  obtain ⟨x, hx⟩ := coerceNumber_of_parses py ha
  rcases coerceNumber_cases py (parseRuleValue py e) with ⟨y, hy⟩ | hlarge
  · have hrange : ¬ TooLarge py e := by
      intro hlarge
      rw [TooLarge, hy] at hlarge
      cases hlarge
    by_cases hupper : op = .between → x.isSome → y.isSome → ¬ TooLarge py e2
    · rw [compareNumbers_holds hx hy fun hop hxs hys =>
        (coerceNumber_cases py _).resolve_right (hupper hop hxs hys), ← pyNumber_ok hx,
        ← pyNumber_ok hy, Except.ok.injEq, holds_iff]
      rw [← pyNumber_ok hx, ← pyNumber_ok hy] at hupper
      exact ⟨fun h => ⟨hrange, hupper, h⟩, fun h => h.numerals⟩
    · refine iff_of_false ?_ fun h => hupper ?_
      · simp only [Classical.not_imp, not_not] at hupper
        obtain ⟨rfl, hxs, hys, hlarge⟩ := hupper
        obtain ⟨q, rfl⟩ := Option.isSome_iff_exists.1 hxs
        obtain ⟨r, rfl⟩ := Option.isSome_iff_exists.1 hys
        unfold compareNumbers
        rw [hx, hy]
        simp only [bind, Except.bind, if_true]
        rw [show coerceNumber py (parseRuleValue py e2) = .error .overflowError from hlarge]
        exact fun h => by cases h
      · have := h.upper
        rwa [pyNumber_ok hx, pyNumber_ok hy] at this
  · refine iff_of_false ?_ fun h => h.range hlarge
    unfold compareNumbers
    rw [hx, hlarge]
    exact fun h => by cases h

end Orders

/-! ### The leaf -/

section Leaf
variable {py : PyText} {json : Value → String}

theorem typeName_declared (fieldType : Option String) :
    ∃ type, typeName ((fieldType.map Value.str).getD .null) = .ok type ∧
      ∀ name, name ≠ "" → (declared fieldType name = true ↔ type = name) := by
  cases fieldType with
  | none => exact ⟨"", rfl, fun name hname => by simp [declared, hname.symm]⟩
  | some t => exact ⟨lower t, rfl, fun name _ => by simp [declared]⟩

theorem membership_iff (hpy : py.Reads) (hjson : Writes json) {a e : Value}
    (ha : parses a = true) (he : parses e = true) :
    anyLooseEqual py a (asOptionList py (parseRuleValue py e)) =
        .ok ((optionList json e).any (looseEqual json a)) ↔
      ((∃ o ∈ asOptionList py (parseRuleValue py e), PySame py a o) ↔
        ∃ o ∈ optionList json e, RustSame json a o) := by
  obtain ⟨b, hb, hsame⟩ := anyLooseEqual_same hpy ha (parses_pyOptions py he)
  rw [hb, Except.ok.injEq, ← hsame, ← optionList_any hjson ha he, Bool.eq_iff_iff]

theorem numberText_empty : numberText "" = none := by
  show (readFloat []).bind F64.toRat = none
  rfl

theorem valueToString_empty (hjson : Writes json) {a : Value} (ha : parses a = true)
    (hnull : a.isNull = false) : valueToString json a = "" ↔ a = .str "" := by
  constructor
  · intro h
    have hn : toNumber a = none := by
      rw [← numberText_valueToString hjson ha hnull, h, numberText_empty]
    rcases word_cases ha hn with rfl | ⟨b, rfl⟩ | ⟨s, rfl⟩ | hc
    · cases hnull
    · cases b with
      | true => exact absurd h (by show "true" ≠ ""; decide)
      | false => exact absurd h (by show "false" ≠ ""; decide)
    · rw [show s = "" from h]
    · obtain ⟨htext, c, cs, hcs, -⟩ := valueToString_container hjson hc
      rw [← htext, h] at hcs
      cases hcs
  · rintro rfl
    rfl

theorem exists_agrees (hjson : Writes json) {a : Value} (ha : parses a = true) :
    (!a.isNull && a != .str "") = (!a.isNull && valueToString json a != "") := by
  cases hnull : a.isNull with
  | true => rfl
  | false =>
    rw [Bool.not_false, Bool.true_and, Bool.true_and, Bool.eq_iff_iff, bne_iff_ne, bne_iff_ne,
      Ne, Ne, valueToString_empty hjson ha hnull]

theorem notExists_agrees (hjson : Writes json) {a : Value} (ha : parses a = true) :
    (a.isNull || a == .str "") = (a.isNull || valueToString json a == "") := by
  cases hnull : a.isNull with
  | true => rfl
  | false =>
    rw [Bool.false_or, Bool.false_or, Bool.eq_iff_iff, beq_iff_eq, beq_iff_eq,
      valueToString_empty hjson ha hnull]

theorem compareDates_holds (a : Value) (op : Operator) (e e2 : Value) :
    compareDates py a op e e2 = holds op (RuleMind.dateToEpoch py a) (RuleMind.dateToEpoch py e)
      (RuleMind.dateToEpoch py e2) := by grind [compareDates, holds]

theorem map_not_iff (x : Except PyError Bool) (b : Bool) : x.map (!·) = .ok (!b) ↔ x = .ok b := by
  cases x with
  | error e => simp [Except.map]
  | ok c => simp [Except.map]

theorem typed_iff (hpy : py.Reads) (hjson : Writes json) {a e e2 : Value} {op : Operator}
    (ha : parses a = true) (he : parses e = true)
    (hop : op.isOrder = true ∨ op = .eq ∨ op = .ne) (fieldType : Option String) :
    RuleMind.compareTyped py a op (parseRuleValue py e) (parseRuleValue py e2)
        ((fieldType.map Value.str).getD .null) = .ok (compareTyped json a op e e2 fieldType) ↔
      if declared fieldType "boolean" ∧ (op = .eq ∨ op = .ne) then
        (RuleMind.toBool py a = RuleMind.toBool py (parseRuleValue py e) ↔ toBool a = toBool e)
      else if declared fieldType "date" then
        (holds op (RuleMind.dateToEpoch py a) (RuleMind.dateToEpoch py (parseRuleValue py e))
            (RuleMind.dateToEpoch py (parseRuleValue py e2)) ↔
          holds op (dateToEpoch json a) (dateToEpoch json e) (dateToEpoch json e2))
      else if op.isOrder then OrderAlike py a op e e2
      else EqualAlike py json a e := by
  obtain ⟨type, htype, hdeclared⟩ := typeName_declared fieldType
  unfold RuleMind.compareTyped compareTyped
  rw [htype]
  simp only [bind, Except.bind, ← hdeclared "boolean" (by decide), ← hdeclared "date" (by decide)]
  split
  · grind
  · split
    · rw [Except.ok.injEq, compareDates_holds, Bool.eq_iff_iff]
    · split
      · exact order_iff ha
      · next hord =>
        rcases hop with hop | rfl | rfl
        · exact absurd hop hord
        · exact equal_iff hpy hjson ha he
        simp_all [map_not_iff, equal_iff]

end Leaf

/-- Digits for numbers, and Python's text for lists and objects. -/
def digitsJson : Value → String := decimalPy.repr

theorem numberText_plain {s : String}
    (h : ∀ c ∈ s.toList, c.toNat < 127 ∧ c ≠ '_' ∧ isSpace c = false) :
    numberText s = (readFloat s.toList).bind F64.toRat := by
  rw [numberText, trim, trimBy_eq_self fun c hc => (h c hc).2.2]

theorem digitsJson_writes : Writes digitsJson := by
  constructor
  · intro n q hq
    have hplain : ∀ c ∈ n.repr.toList, c.toNat < 127 ∧ c ≠ '_' ∧ isSpace c = false := by
      intro c hc
      rcases mem_repr_digits hc with hd | rfl
      · exact plain_of_isDigit hd
      · decide
    have hread : coerceNumber asciiText (.str n.repr) = .ok (some q) :=
      coerceNumber_repr asciiText (by simp only [coerceNumber, hq])
    rw [show digitsJson (.int n) = n.repr from rfl, numberText_plain hplain]
    have hfloat := float_of_pyNumber (pyNumber_ok hread)
    rw [PyText.float, numeral_of_plain asciiText hplain] at hfloat
    rw [show readFloat n.repr.toList = some (.finite q) from hfloat]
    rfl
  · intro q hq
    rw [show digitsJson (.float q) = decimalText q from rfl, numberText_plain (decimalText_plain q),
      readFloat_decimalText hq]
    rfl
  · intro vs
    exact ⟨_, by simp [digitsJson, PyText.repr]; rfl⟩
  simp [digitsJson, PyText.repr]

end RuleMind.RustCore
