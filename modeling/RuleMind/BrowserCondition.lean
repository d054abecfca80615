/-
  One condition in the browser: `compareValues` of `rule-engine/src/evaluator.ts`, against
  `compare` of `app/logic.py` on the same operands.

  A field that is missing is `none`, and null on the server.
-/
import RuleMind.JsText
import RuleMind.LeafAgreement

namespace RuleMind.Evaluator

open Text (F64 roundF64)
open RustCore (parses isContainer pyNumber PySame)

section Readings
variable (js : Js)

def textNumber (s : String) : Option ℚ :=
  let text := Js.trim s.toList
  if text = [] then none else (js.readNumber (String.ofList text)).toRat

def numericOrNull : Value → Option ℚ
  | .int n => (Js.double n).toRat
  | .float q => some q
  | .inf _ | .bool _ | .null => none
  | v => textNumber js (js.text v)

def toBoolean : Value → Bool
  | .bool b => b
  | v => lower (js.text v) == "true"

def float : Value → Option F64
  | .int n => some (Js.double n)
  | .float q => some (.finite q)
  | .inf neg => some (.infinite neg)
  | _ => none

/-- `a === b`; a list or an object of the input is no other one. -/
def strictEqual : Value → Value → Bool
  | .null, .null => true
  | .bool a, .bool b => a == b
  | .str a, .str b => a == b
  | a, b => (float a).any fun x => float b == some x

def looseEqual (a b : Value) : Bool :=
  if strictEqual a b then true
  else match numericOrNull js a, numericOrNull js b with
    | some p, some q => p == q
    | _, _ => js.text a == js.text b

/-- `dateToEpoch`; `\d` is a digit of ASCII. -/
def dateToEpoch (v : Value) : Option ℤ :=
  if v.isNull || v.isBool then none
  else do
    let c ← isoMatch asciiText (Js.trim (js.text v).toList)
    if c.valid then some c.epoch else none

/-- `String(config.value ?? "").split(",").map((item) => item.trim()).filter(Boolean)`. -/
def options (value : Value) : List String :=
  let text := if value.isNull then "" else js.text value
  (((splitComma text.toList).map Js.trim).filter (· ≠ [])).map String.ofList

/-- `compareValues`, from the declared types on. -/
def compareTyped (actual : Value) (op : Operator) (value value2 : Value) (fieldType : String) :
    Bool :=
  if fieldType = "boolean" ∧ (op = .eq ∨ op = .ne) then
    let matched := toBoolean js actual == toBoolean js value
    if op = .eq then matched else !matched
  else if fieldType = "date" then
    RustCore.holds op (dateToEpoch js actual) (dateToEpoch js value) (dateToEpoch js value2)
  else if op.isOrder then
    RustCore.holds op (numericOrNull js actual) (numericOrNull js value) (numericOrNull js value2)
  else if op = .eq then looseEqual js actual value
  else if op = .ne then !looseEqual js actual value
  else false

/-- `compareValues(node, actual).pass`; `test` is the engine's regular expressions, false for an
    invalid one. -/
def compareValues (test : String → String → Bool) (actual : Option Value) (op : Operator)
    (value value2 : Value) (fieldType : String) : Bool :=
  match actual with
  | none => op = .notExists
  | some actual =>
    match op with
    | .exists => !actual.isNull && actual != .str ""
    | .notExists => actual.isNull || actual == .str ""
    | .regex => test (if value.isNull then "" else js.text value)
        (if actual.isNull then "" else js.text actual)
    | .isIn => js.text actual ∈ options js value
    | .notIn => js.text actual ∉ options js value
    | op => compareTyped js actual op value value2 (lower fieldType)

end Readings

/-! ### Operands that are read alike -/

/-- A number is written so that it reads as itself, and the words of other values are none. -/
structure Reads (js : Js) : Prop where
  number : ∀ q, roundF64 q = some q → numericOrNull js (.str (js.numberText q)) = some q
  word : ∀ s ∈ ["null", "true", "false"], numericOrNull js (.str s) = none

section Alike
variable (py : PyText) (js : Js)

/-- What `looseEqual` makes equal: the same number, or no numbers and the same words. -/
def JsSame (a e : Value) : Prop :=
  match numericOrNull js a, numericOrNull js e with
  | some p, some q => p = q
  | none, none => js.text a = js.text e
  | _, _ => False

/-- The operands of `==`: null is not compared with its name, and a list or object is the same as
    the threshold only where this is Python's text of it. -/
def EqualAlike (a e : Value) : Prop :=
  match a, e with
  | .null, .str s | .str s, .null => s ≠ "None" ∧ s ≠ "null"
  | .list _, e | .dict _, e => (JsSame js a e ↔ e = .str (py.str a))
  | _, _ => True

/-- The operands are read alike, as far as the operator tells; for a missing field the browser
    has false. -/
def Alike (actual : Option Value) (op : Operator) (e e2 : Value) (fieldType : String) : Prop :=
  match op, actual with
  | .exists, _ | .notExists, _ => True
  | .isIn, none => .str "None" ∉ asOptionList py e
  | .notIn, none => .str "None" ∈ asOptionList py e
  | .isIn, some a | .notIn, some a =>
    (∃ o ∈ asOptionList py e, PySame py a o) ↔ js.text a ∈ options js e
  | op, none =>
    if lower fieldType = "boolean" ∧ (op = .eq ∨ op = .ne) then
      toBool py e = decide (op = .eq)
    else if lower fieldType = "date" ∨ op.isOrder then True
    else (e = .null ∨ e = .str "None" ↔ op = .ne)
  | op, some a =>
    if lower fieldType = "boolean" ∧ (op = .eq ∨ op = .ne) then
      (toBool py a = toBool py e ↔ toBoolean js a = toBoolean js e)
    else if lower fieldType = "date" then
      (RustCore.holds op (RuleMind.dateToEpoch py a) (RuleMind.dateToEpoch py e)
          (RuleMind.dateToEpoch py e2) ↔
        RustCore.holds op (dateToEpoch js a) (dateToEpoch js e) (dateToEpoch js e2))
    else if op.isOrder then
      isContainer a → ¬ RustCore.holds op (numericOrNull js a) (numericOrNull js e)
        (numericOrNull js e2)
    else EqualAlike py js a e

/-- Both languages read a text as the same number, or neither as a number. -/
def NumeralAlike (v : Value) : Prop :=
  ∀ s, v = .str s → numericOrNull js (.str s) = pyNumber py (.str s)

end Alike

/-! ### Equality in the browser -/

section Browser
variable {js : Js}

theorem double_of_round {n : ℤ} {q : ℚ} (h : roundF64 n = some q) : Js.double n = .finite q := by
  rw [Js.double, h]

variable {v a b : Value} {x : F64}

theorem numericOrNull_text (hjs : Reads js) (hv : parses v = true) :
    numericOrNull js (.str (js.text v)) = numericOrNull js v := by
  cases v with
  | null => exact hjs.word "null" (by simp)
  | bool b =>
    cases b with
    | true => exact hjs.word "true" (by simp)
    | false => exact hjs.word "false" (by simp)
  | int n =>
    obtain ⟨q, hq⟩ := Option.isSome_iff_exists.1 (show (roundF64 (n : ℚ)).isSome = true from hv)
    rw [Js.text, numericOrNull, double_of_round hq]
    exact hjs.number q (Text.roundF64_idem hq)
  | float q =>
    rw [Js.text]
    exact hjs.number q (eq_of_beq hv)
  | inf neg => cases hv
  | str s => rw [Js.text]
  | list vs => rw [numericOrNull, numericOrNull, Js.text] <;> simp
  | dict kvs => rw [numericOrNull, numericOrNull, Js.text] <;> simp

theorem float_number (h : float v = some x) : numericOrNull js v = x.toRat := by
  cases v with
  | int n =>
    cases h
    rfl
  | float q =>
    cases h
    rfl
  | inf neg =>
    cases h
    rfl
  | _ => cases h

theorem float_parses (hv : parses v = true) (h : float v = some x) : ∃ q, x = .finite q := by
  cases v with
  | int n =>
    obtain ⟨q, hq⟩ := Option.isSome_iff_exists.1 (show (roundF64 (n : ℚ)).isSome = true from hv)
    rw [float, double_of_round hq] at h
    exact ⟨q, (Option.some.inj h).symm⟩
  | float q => exact ⟨q, (Option.some.inj h).symm⟩
  | inf neg => cases hv
  | _ => cases h

theorem jsSame_of_strictEqual (ha : parses a = true)
    (h : strictEqual a b = true) : JsSame js a b := by
  have hfloat : ((float a).any fun x => float b == some x) = true → JsSame js a b := by
    intro h
    cases hx : float a with
    | none =>
      rw [hx] at h
      cases h
    | some x =>
      rw [hx] at h
      obtain ⟨q, rfl⟩ := float_parses ha hx
      have hb : float b = some (.finite q) := eq_of_beq h
      unfold JsSame
      rw [float_number hx, float_number hb]
      exact rfl
  unfold strictEqual at h
  split at h
  · rfl
  · rw [eq_of_beq h]
    rfl
  · next s t =>
    rw [eq_of_beq h, JsSame]
    cases numericOrNull js (.str t) with
    | some p => rfl
    | none => rfl
  · exact hfloat h

theorem looseEqual_iff (hjs : Reads js) (ha : parses a = true)
    (hb : parses b = true) : looseEqual js a b = true ↔ JsSame js a b := by
  have htext : js.text a = js.text b → numericOrNull js a = numericOrNull js b := by
    intro heq
    rw [← numericOrNull_text hjs ha, heq, numericOrNull_text hjs hb]
  unfold looseEqual
  split
  · next hstrict => exact iff_of_true rfl (jsSame_of_strictEqual ha hstrict)
  · unfold JsSame
    cases hp : numericOrNull js a with
    | some p => grind
    | none => grind

end Browser

/-! ### Equality in both -/

section Equality
variable {py : PyText} {js : Js}

theorem number_alike {v : Value} (hv : parses v = true) (hs : isContainer v = false)
    (hn : NumeralAlike py js v) : numericOrNull js v = pyNumber py v := by
  cases v with
  | int n =>
    obtain ⟨q, hq⟩ := Option.isSome_iff_exists.1 (show (roundF64 (n : ℚ)).isSome = true from hv)
    rw [numericOrNull, double_of_round hq]
    simp only [pyNumber, coerceNumber, hq]
    rfl
  | inf neg => cases hv
  | str s => exact hn s rfl
  | list vs => cases hs
  | dict kvs => cases hs
  | _ => rfl

theorem pyNumber_none : pyNumber py (.str "None") = none := by
  have hword : coerceNumber py (.str "None") = .ok none :=
    coerceNumber_word py (List.all_iff_forall_prop.1 (by decide)) (by decide)
  exact RustCore.pyNumber_ok hword

variable {a e : Value}

theorem container_same (ha : isContainer a = true) (he : isContainer e = false)
    (hbool : parses e = true) : PySame py a e ↔ e = .str (py.str a) := by
  obtain ⟨htext, c, cs, hcs, hc⟩ := RustCore.stringify_container py ha
  have hna : pyNumber py a = none := RustCore.pyNumber_container ha
  have hbracket : pyNumber py (.str (py.str a)) = none :=
    RustCore.pyNumber_ok (coerceNumber_bracket py hcs hc)
  constructor
  · intro h
    have hne : pyNumber py e = none := by
      unfold PySame at h
      rw [hna] at h
      cases hq : pyNumber py e with
      | none => rfl
      | some q =>
        rw [hq] at h
        exact h.elim
    have hwords := (RustCore.pySameWords_iff he).1 ((RustCore.pySame_words hna hne).1 h)
    rw [htext] at hwords
    cases e with
    | str s => rw [hwords]; rfl
    | null => exact absurd hwords (RustCore.ne_of_bracket hcs hc RustCore.none_word)
    | bool b => exact absurd hwords (RustCore.ne_of_bracket hcs hc (RustCore.bool_word py b).2)
    | int n =>
      obtain ⟨q, hq⟩ := Option.isSome_iff_exists.1
        (show (roundF64 (n : ℚ)).isSome = true from hbool)
      simp [pyNumber, coerceNumber, hq] at hne
    | float q => cases hne
    | inf neg => cases hbool
    | list vs => cases he
    | dict kvs => cases he
  · rintro rfl
    refine (RustCore.pySame_words hna hbracket).2 (.inl ?_)
    rw [htext]
    rfl

theorem word_kinds {v : Value} (hv : parses v = true) (hc : isContainer v = false)
    (hn : pyNumber py v = none) : v = .null ∨ (∃ b, v = .bool b) ∨ ∃ s, v = .str s := by
  cases v with
  | null => exact .inl rfl
  | bool b => exact .inr (.inl ⟨b, rfl⟩)
  | str s => exact .inr (.inr ⟨s, rfl⟩)
  | int n =>
    obtain ⟨q, hq⟩ := Option.isSome_iff_exists.1 (show (roundF64 (n : ℚ)).isSome = true from hv)
    simp [pyNumber, coerceNumber, hq] at hn
  | float q => cases hn
  | inf neg => cases hv
  | list vs => cases hc
  | dict kvs => cases hc

theorem null_words (s : String) : ("None" = s ↔ "null" = s) ↔ s ≠ "None" ∧ s ≠ "null" := by grind

theorem words_alike (ha : a = .null ∨ (∃ b, a = .bool b) ∨ ∃ s, a = .str s)
    (he : e = .null ∨ (∃ b, e = .bool b) ∨ ∃ s, e = .str s) :
    (stringify py a = stringify py e ↔ js.text a = js.text e) ↔ EqualAlike py js a e := by
  have hbool : ∀ b : Bool, stringify py (.bool b) = js.text (.bool b) := fun b => rfl
  have hnone : ∀ b : Bool, stringify py .null ≠ stringify py (.bool b) := fun b =>
    (RustCore.bool_word py b).1.symm
  have hnull : ∀ b : Bool, js.text .null ≠ js.text (.bool b) := fun b => by
    cases b with
    | true => exact (by decide : "null" ≠ "true")
    | false => exact (by decide : "null" ≠ "false")
  have htext : ∀ s, js.text (.str s) = s := fun s => by rw [Js.text]
  rcases ha with rfl | ⟨b, rfl⟩ | ⟨s, rfl⟩
  · rcases he with rfl | ⟨c, rfl⟩ | ⟨t, rfl⟩
    · exact iff_of_true (iff_of_true rfl rfl) trivial
    · exact iff_of_true (iff_of_false (hnone c) (hnull c)) trivial
    · rw [htext]
      exact null_words t
  · rcases he with rfl | ⟨c, rfl⟩ | ⟨t, rfl⟩
    · exact iff_of_true (iff_of_false (hnone b).symm (hnull b).symm) trivial
    · rw [hbool, hbool]
      exact iff_of_true Iff.rfl trivial
    · rw [hbool, htext]
      exact iff_of_true Iff.rfl trivial
  · rcases he with rfl | ⟨c, rfl⟩ | ⟨t, rfl⟩
    · rw [htext, eq_comm, @eq_comm _ s]
      exact null_words s
    · rw [hbool, htext]
      exact iff_of_true Iff.rfl trivial
    · rw [htext, htext]
      exact iff_of_true Iff.rfl trivial

theorem equalAlike_of_number (hjs : Reads js) (hca : isContainer a = false)
    (hna : NumeralAlike py js a) (hne : NumeralAlike py js e)
    (h : pyNumber py a ≠ none ∨ pyNumber py e ≠ none) : EqualAlike py js a e := by
  have hname : ∀ s, NumeralAlike py js (.str s) → pyNumber py (.str s) ≠ none →
      s ≠ "None" ∧ s ≠ "null" := by
    intro s halike hs
    constructor
    · rintro rfl
      exact hs pyNumber_none
    · rintro rfl
      rw [← halike _ rfl] at hs
      exact hs (hjs.word "null" (by simp))
  unfold EqualAlike
  split
  · exact hname _ hne (h.resolve_left (by simp [pyNumber, coerceNumber]))
  · exact hname _ hna (h.resolve_right (by simp [pyNumber, coerceNumber]))
  · cases hca
  · cases hca
  · trivial

theorem same_iff (hjs : Reads js) (ha : parses a = true) (he : parses e = true)
    (hce : isContainer e = false) (hna : NumeralAlike py js a) (hne : NumeralAlike py js e) :
    (PySame py a e ↔ JsSame js a e) ↔ EqualAlike py js a e := by
  cases hca : isContainer a with
  | true =>
    rw [container_same hca hce he]
    cases a with
    | list vs => exact iff_comm
    | dict kvs => exact iff_comm
    | _ => cases hca
  | false =>
    have hja := number_alike ha hca hna
    have hje := number_alike he hce hne
    by_cases hnum : pyNumber py a = none ∧ pyNumber py e = none
    · grind -ring -linarith [words_alike, word_kinds, RustCore.pySame_words, RustCore.pySameWords_iff, JsSame]
    · refine iff_of_true ?_ (equalAlike_of_number hjs hca hna hne (not_and_or.1 hnum))
      unfold PySame JsSame
      grind -ring -linarith

end Equality

/-! ### The comparison -/

section Comparison
variable {py : PyText} {js : Js}

theorem ok_iff {b c : Bool} {p q : Prop} (hb : b = true ↔ p) (hc : c = true ↔ q) :
    (Except.ok b : Except PyError Bool) = .ok c ↔ (p ↔ q) := by
  rw [Except.ok.injEq, Bool.eq_iff_iff, hb, hc]

variable {e a e2 : Value} {op : Operator}

theorem order_iff (hpa : parses a = true) (hpe : parses e = true)
    (hpe2 : parses e2 = true) (hce : isContainer e = false) (hce2 : isContainer e2 = false)
    (hna : NumeralAlike py js a) (hne : NumeralAlike py js e) (hne2 : NumeralAlike py js e2) :
    compareNumbers py a op e e2 =
        .ok (RustCore.holds op (numericOrNull js a) (numericOrNull js e) (numericOrNull js e2)) ↔
      (isContainer a → ¬ RustCore.holds op (numericOrNull js a) (numericOrNull js e)
        (numericOrNull js e2)) := by
  obtain ⟨x, hx⟩ := RustCore.coerceNumber_of_parses py hpa
  obtain ⟨y, hy⟩ := RustCore.coerceNumber_of_parses py hpe
  obtain ⟨z, hz⟩ := RustCore.coerceNumber_of_parses py hpe2
  rw [RustCore.compareNumbers_holds hx hy fun _ _ _ => ⟨z, hz⟩, number_alike hpe hce hne,
    number_alike hpe2 hce2 hne2, RustCore.pyNumber_ok hy]
  cases hca : isContainer a with
  | true =>
    have hnone : x = none := by
      rw [← RustCore.pyNumber_ok hx]
      exact RustCore.pyNumber_container hca
    rw [hnone, Except.ok.injEq]
    show false = _ ↔ _
    simp
  | false =>
    rw [number_alike hpa hca hna, RustCore.pyNumber_ok hx]
    simp

theorem equal_iff (hpy : py.Reads) (hjs : Reads js) (hpa : parses a = true)
    (hpe : parses e = true) (hce : isContainer e = false) (hna : NumeralAlike py js a)
    (hne : NumeralAlike py js e) :
    RuleMind.looseEqual py a e = .ok (looseEqual js a e) ↔ EqualAlike py js a e := by
  obtain ⟨x, hx⟩ := RustCore.coerceNumber_of_parses py hpa
  obtain ⟨y, hy⟩ := RustCore.coerceNumber_of_parses py hpe
  obtain ⟨b, hb, hsame⟩ := RustCore.looseEqual_same hpy (RustCore.double_of_parses hpa)
    (RustCore.double_of_parses hpe) (.inr ⟨x, y, hx, hy⟩)
  rw [hb, ok_iff hsame (looseEqual_iff hjs hpa hpe), same_iff hjs hpa hpe hce hna hne]

theorem options_texts (hce : isContainer e = false) : ∀ o ∈ asOptionList py e, ∃ s, o = .str s := by
  intro o ho
  unfold asOptionList at ho
  split at ho
  · cases hce
  · cases ho
  grind

theorem options_parse (hce : isContainer e = false) : ∀ o ∈ asOptionList py e, parses o = true := by
  intro o ho
  obtain ⟨s, rfl⟩ := options_texts hce o ho
  rfl

theorem null_same (s : String) : PySame py .null (.str s) ↔ s = "None" := by
  have hnull : pyNumber py .null = none := rfl
  constructor
  · intro h
    have hnone : pyNumber py (.str s) = none := by
      unfold PySame at h
      rw [hnull] at h
      cases hq : pyNumber py (.str s) with
      | none => rfl
      | some q =>
        rw [hq] at h
        exact h.elim
    exact ((RustCore.pySameWords_iff rfl).1 ((RustCore.pySame_words hnull hnone).1 h)).symm
  · rintro rfl
    exact (RustCore.pySame_words hnull pyNumber_none).2 (.inl rfl)

theorem null_option (hce : isContainer e = false) :
    (∃ o ∈ asOptionList py e, PySame py .null o) ↔ .str "None" ∈ asOptionList py e := by
  constructor
  · rintro ⟨o, ho, hsame⟩
    obtain ⟨s, rfl⟩ := options_texts hce o ho
    rwa [← (null_same s).1 hsame]
  · exact fun h => ⟨_, h, (null_same "None").2 rfl⟩

theorem null_equal (hpe : parses e = true) (hce : isContainer e = false) :
    PySame py .null e ↔ e = .null ∨ e = .str "None" := by
  cases e with
  | null => exact iff_of_true (.inl rfl) (.inl rfl)
  | str s => simpa using null_same s
  | bool b =>
    refine iff_of_false ?_ (by simp)
    exact fun h => (RustCore.bool_word py b).1.symm
      ((RustCore.pySameWords_iff rfl).1 ((RustCore.pySame_words rfl rfl).1 h))
  | int n =>
    obtain ⟨q, hq⟩ := Option.isSome_iff_exists.1 (show (roundF64 (n : ℚ)).isSome = true from hpe)
    simp [PySame, pyNumber, coerceNumber, hq]
  | float q => simp [PySame, pyNumber, coerceNumber]
  | inf neg => cases hpe
  | list vs => cases hce
  | dict kvs => cases hce

theorem membership_iff (hpy : py.Reads) {a e : Value} (hpa : parses a = true)
    (hce : isContainer e = false) {b : Bool} {p : Prop} (hb : b = true ↔ p) :
    anyLooseEqual py a (asOptionList py e) = .ok b ↔
      ((∃ o ∈ asOptionList py e, PySame py a o) ↔ p) := by
  obtain ⟨c, hc, hsame⟩ := RustCore.anyLooseEqual_same hpy hpa (options_parse hce)
  rw [hc, ok_iff hsame hb]

theorem typeName_lower (fieldType : String) : typeName (.str fieldType) = .ok (lower fieldType) :=
  rfl

theorem typed_iff (hpy : py.Reads) (hjs : Reads js)
    (hop : op.isOrder = true ∨ op = .eq ∨ op = .ne) (hpa : parses a = true)
    (hpe : parses e = true) (hpe2 : parses e2 = true) (hce : isContainer e = false)
    (hce2 : isContainer e2 = false) (hna : NumeralAlike py js a) (hne : NumeralAlike py js e)
    (hne2 : NumeralAlike py js e2) (fieldType : String) :
    RuleMind.compareTyped py a op e e2 (.str fieldType) =
        .ok (compareTyped js a op e e2 (lower fieldType)) ↔
      if lower fieldType = "boolean" ∧ (op = .eq ∨ op = .ne) then
        (toBool py a = toBool py e ↔ toBoolean js a = toBoolean js e)
      else if lower fieldType = "date" then
        (RustCore.holds op (RuleMind.dateToEpoch py a) (RuleMind.dateToEpoch py e)
            (RuleMind.dateToEpoch py e2) ↔
          RustCore.holds op (dateToEpoch js a) (dateToEpoch js e) (dateToEpoch js e2))
      else if op.isOrder then
        isContainer a → ¬ RustCore.holds op (numericOrNull js a) (numericOrNull js e)
          (numericOrNull js e2)
      else EqualAlike py js a e := by
  unfold RuleMind.compareTyped compareTyped
  rw [typeName_lower]
  simp only [bind, Except.bind]
  split
  · grind
  · split
    · rw [Except.ok.injEq, RustCore.compareDates_holds, Bool.eq_iff_iff]
    · split
      · exact order_iff hpa hpe hpe2 hce hce2 hna hne hne2
      · next hord =>
        rcases hop with hop | rfl | rfl
        · exact absurd hop hord
        · exact equal_iff hpy hjs hpa hpe hce hna hne
        simp_all [RustCore.map_not_iff, equal_iff]

theorem missing_iff (hpy : py.Reads)
    (hop : op.isOrder = true ∨ op = .eq ∨ op = .ne) (hpe : parses e = true)
    (hce : isContainer e = false) (fieldType : String) :
    RuleMind.compareTyped py .null op e e2 (.str fieldType) = .ok false ↔
      if lower fieldType = "boolean" ∧ (op = .eq ∨ op = .ne) then
        toBool py e = decide (op = .eq)
      else if lower fieldType = "date" ∨ op.isOrder then True
      else (e = .null ∨ e = .str "None" ↔ op = .ne) := by
  obtain ⟨y, hy⟩ := RustCore.coerceNumber_of_parses py hpe
  obtain ⟨b, hb, hsame⟩ := RustCore.looseEqual_same hpy (a := .null) (fun q h => by cases h)
    (RustCore.double_of_parses hpe) (.inr ⟨none, y, rfl, hy⟩)
  have hnull : toBool py .null = false := (by decide : boolText "None" = false)
  unfold RuleMind.compareTyped
  rw [typeName_lower]
  simp only [bind, Except.bind]
  split
  · grind
  · split
    · next hdate => simp [hdate, compareDates, RuleMind.dateToEpoch, Value.isNull]
    · next hdate =>
      split
      · next hord =>
        have hfalse : compareNumbers py .null op e e2 = .ok false := by
          rw [compareNumbers, show coerceNumber py .null = .ok none from rfl, hy]
          rfl
        simp [hfalse, hord]
      · next hord =>
        have hother : ¬(lower fieldType = "date" ∨ op.isOrder = true) := by simp [hdate, hord]
        rcases hop with hop | rfl | rfl
        · exact absurd hop hord
        · rw [if_pos rfl, if_neg hother, hb, Except.ok.injEq, ← null_equal hpe hce, ← hsame]
          cases b <;> simp
        simp_all [null_equal, Except.map]

end Comparison

/-- An engine that writes numbers with digits and a point. -/
def digitsJs : Js where
  numberText q := if q.den = 1 then q.num.repr else Text.decimalText q
  readNumber s := (Text.readFloat s.toList).getD .nan
  readTime _ := .nan

theorem space_plain {c : Char} (hc : c.toNat < 127) (h : Text.isSpace c = false) :
    Js.space c = false := by
  simp only [Text.isSpace, Bool.or_eq_false_iff, Bool.and_eq_false_iff, decide_eq_false_iff_not,
    beq_eq_false_iff_ne, ne_eq] at h
  simp only [Js.space, Bool.or_eq_false_iff, Bool.and_eq_false_iff, decide_eq_false_iff_not,
    beq_eq_false_iff_ne, ne_eq]
  omega

theorem digitsJs_plain {s : String}
    (hplain : ∀ c ∈ s.toList, c.toNat < 127 ∧ c ≠ '_' ∧ Text.isSpace c = false) :
    numericOrNull digitsJs (.str s) = (Text.readFloat s.toList).bind F64.toRat := by
  have htrim : Js.trim s.toList = s.toList :=
    Text.trimBy_eq_self fun c hc => space_plain (hplain c hc).1 (hplain c hc).2.2
  rw [numericOrNull, Js.text, textNumber, htrim, String.ofList_toList]
  · split
    · next hnil =>
      rw [hnil]
      rfl
    · show ((Text.readFloat s.toList).getD .nan).toRat = _
      cases Text.readFloat s.toList <;> rfl
  all_goals simp

theorem digitsJs_reads : Reads digitsJs := by
  refine ⟨fun q hq => ?_, fun s hs => ?_⟩
  · show numericOrNull digitsJs (.str (if q.den = 1 then q.num.repr else Text.decimalText q)) = _
    split
    · next hden =>
      have hint : ((q.num : ℤ) : ℚ) = q := (Rat.den_eq_one_iff q).1 hden
      have hplain : ∀ c ∈ q.num.repr.toList, c.toNat < 127 ∧ c ≠ '_' ∧ Text.isSpace c = false := by
        intro c hc
        rcases mem_repr_digits hc with hd | rfl
        · exact plain_of_isDigit hd
        · decide
      have hread : coerceNumber decimalPy (.str q.num.repr) = .ok (some q) :=
        coerceNumber_repr decimalPy (by simp only [coerceNumber, hint, hq])
      have hfloat := Except.ok.inj (show Except.ok ((decimalPy.float q.num.repr).bind F64.toRat) =
        Except.ok (some q) from hread)
      simp_all [PyText.float, numeral_of_plain, digitsJs_plain]
    · rw [digitsJs_plain (decimalText_plain q), Text.readFloat_decimalText hq]
      rfl
  · have hwords : ∀ s ∈ ["null", "true", "false"], numericOrNull digitsJs (.str s) = none := by
      decide +kernel
    exact hwords s hs

end RuleMind.Evaluator
