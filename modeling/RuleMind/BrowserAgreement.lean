/-
  Where a formula means in the browser what it means on the server.

  Numbers are exact on both sides, and a function of the shared table gives what it gives there.
-/
import RuleMind.BrowserFormula
import RuleMind.VariableNumbers

namespace RuleMind.Formula

open Browser VarCode
open Text (F64)

/-! ### Operators -/

def Plain : Value → Prop
  | .str _ => False
  | .inf _ => False
  | _ => True

def IsList (v : Value) : Prop := ∃ vs, v = .list vs

def IsDict (v : Value) : Prop := ∃ kvs, v = .dict kvs

def IsText (v : Value) : Prop := ∃ s, v = .str s

/-- Operands that are no texts, on which the two operators are one. -/
def NumbersFit (op : BinOp) (x y : Value) : Prop :=
  Plain x ∧ Plain y ∧ match op with
  | .add => ¬(IsList x ∧ IsList y)
  | .mult => ¬(IsList x ∧ (wholeOf y).isSome) ∧ ¬((wholeOf x).isSome ∧ IsList y)
  | .pow => ∀ p q, x.numeric = some p → y.numeric = some q → q ≤ 1000 →
    (p = 0 → 0 ≤ q) ∧ (p < 0 → q.den = 1)
  | _ => True

def TextsFit (op : BinOp) (x y : Value) : Prop :=
  match op with
  | .add => IsText x ∧ IsText y
  | .mult => IsText x ∧ (wholeOf y).isSome ∨ (wholeOf x).isSome ∧ IsText y
  | _ => False

def OperandsFit (op : BinOp) (x y : Value) : Prop := NumbersFit op x y ∨ TextsFit op x y

def UnaryFits (op : UnaryOp) (x : Value) : Prop :=
  match op with
  | .not => x ≠ .dict []
  | _ => Plain x

/-- Values that are equal in the browser exactly if they are on the server: the browser does not
    look into lists and objects, and takes a text for the number that it is the text of. -/
def EqFits (x y : Value) : Prop :=
  (Plain x ∨ IsText x) ∧ (Plain y ∨ IsText y) ∧ ¬(IsList x ∧ IsList y) ∧ ¬(IsDict x ∧ IsDict y) ∧
    ¬(IsText x ∧ y.numeric.isSome) ∧ ¬(x.numeric.isSome ∧ IsText y)

def CompareFits (op : CmpOp) (x y : Value) : Prop :=
  match op with
  | .eq | .notEq => EqFits x y
  | _ => Plain x ∧ Plain y ∧ ¬(IsList x ∧ IsList y)

variable {v x y : Value} {op : BinOp} {q p : ℚ}

theorem truthy_toJs (h : v ≠ .dict []) : truthy (toJs v) = v.truthy := by
  cases v with
  | null | bool _ | inf _ | str _ => rfl
  | int n => by_cases hn : n = 0 <;> simp [toJs, truthy, Value.truthy, hn]
  | float q => by_cases hq : q = 0 <;> simp [toJs, truthy, Value.truthy, hq]
  | list vs => cases vs <;> rfl
  | dict kvs =>
    cases kvs with
    | nil => exact absurd rfl h
    | cons _ _ => rfl

variable {py : Python} {b : Browser}

theorem numeric_toJs (h : Plain v) : b.numeric (toJs v) = v.numeric.map F64.finite := by
  cases v with
  | bool a => cases a <;> rfl
  | str _ | inf _ => exact h.elim
  | _ => rfl

theorem numeric_or (h : ¬∃ p q, x.numeric = some p ∧ y.numeric = some q) :
    x.numeric = none ∨ y.numeric = none := by
  cases hx : x.numeric with
  | none => exact .inl rfl
  | some p =>
    cases hy : y.numeric with
    | none => exact .inr rfl
    | some q => exact (h ⟨p, q, hx, hy⟩).elim

theorem pyArith_toJs {op : Op} {x y : Value} {p q : ℚ} (hx : x.numeric = some p)
    (hy : y.numeric = some q) :
    (pyArith op x y).map toJs =
      if op = .div ∧ q = 0 then none else some (.num (.finite (op.exact p q))) := by
  unfold pyArith
  split
  · next m n hm hn =>
    obtain rfl : (m : ℚ) = p := Option.some.inj ((numeric_of_wholeOf hm).symm.trans hx)
    obtain rfl : (n : ℚ) = q := Option.some.inj ((numeric_of_wholeOf hn).symm.trans hy)
    cases op with
    | add | sub | mul => simp [Op.onInt, Op.exact, toJs]
    | div => by_cases hzero : n = 0 <;> simp [Op.onInt, Op.exact, toJs, hzero]
  · simp only [hx, hy]
    cases op with
    | add | sub | mul => simp [Op.onRat, Op.exact, toJs]
    | div => by_cases hzero : q = 0 <;> simp [Op.onRat, Op.exact, toJs, hzero]

theorem pyArith_none {op : Op} (hx : Plain x) (hy : Plain y)
    (hnum : ¬∃ p q, x.numeric = some p ∧ y.numeric = some q)
    (hadd : op = .add → ¬(IsList x ∧ IsList y))
    (hmul : op = .mul → ¬(IsList x ∧ (wholeOf y).isSome) ∧ ¬((wholeOf x).isSome ∧ IsList y)) :
    pyArith op x y = none := by
  have hrepeated : ∀ {v : Value} {n : ℤ}, Plain v → ¬IsList v → repeated n v = none := by
    intro v n hv hlist
    cases v with
    | str _ => exact hv.elim
    | list vs => exact (hlist ⟨vs, rfl⟩).elim
    | _ => rfl
  unfold pyArith
  split
  · simp_all [numeric_of_wholeOf]
  split
  · next hp hq => exact (hnum ⟨_, _, hp, hq⟩).elim
  unfold Op.onOther
  split
  · exact hx.elim
  · exact (hadd rfl ⟨⟨_, rfl⟩, _, rfl⟩).elim
  · grind
  · rfl

theorem rem_floor (p : ℚ) {d : ℚ} (hd : d ≠ 0) :
    Js.rem (Js.add (Js.rem (.finite p) (.finite d)) (.finite d)) (.finite d) =
      .finite (p - d * ⌊p / d⌋) := by
  have hpos : 0 ≤ p / d - Js.trunc (p / d) + 1 := by
    unfold Js.trunc
    split
    · linarith [Int.floor_le (p / d)]
    · linarith [Int.ceil_lt_add_one (p / d)]
  have hquot : (p - d * Js.trunc (p / d) + d) / d = p / d - Js.trunc (p / d) + 1 := by field_simp
  have htrunc : Js.trunc (p / d - Js.trunc (p / d) + 1) = ⌊p / d⌋ - Js.trunc (p / d) + 1 := by
    rw [Js.trunc, if_pos hpos, Int.floor_add_one, Int.floor_sub_intCast]
  simp only [Js.rem, Js.add, hquot, htrunc]
  push_cast
  congr 1
  ring

theorem tooLong_plain (h : Plain x) (y : Value) : tooLong x y = false := by
  cases x with
  | str _ => exact h.elim
  | _ => rfl

theorem toJs_ne_str (h : Plain v) (s : String) : toJs v ≠ .str s := by
  cases v with
  | str _ => exact h.elim
  | _ => rintro ⟨⟩

theorem binOp_eq {u v : JsValue} (hu : ∀ s, u ≠ .str s) (hv : ∀ s, v ≠ .str s) :
    b.binOp op u v = match op with
      | .add => b.onNumbers Js.add u v
      | .sub => b.onNumbers (fun p q => Js.add p (Js.neg q)) u v
      | .mult => b.onNumbers Js.mul u v
      | .div => b.byNumber Js.div u v
      | .floorDiv => b.byNumber (fun p d => Js.floor (Js.div p d)) u v
      | .mod => b.byNumber (fun p d => Js.rem (Js.add (Js.rem p d) d) d) u v
      | .pow => (b.numeric v).bind fun n => if Js.lt Browser.MAX_POW_EXPONENT n then none
        else (b.numeric u).bind fun p => some (.num (Js.pow b.powerOf p n)) := by
  cases op with
  | add =>
    cases u with
    | str s => exact (hu s rfl).elim
    | _ => rfl
  | mult =>
    cases u with
    | str s => exact (hu s rfl).elim
    | _ =>
      cases v with
      | str s => exact (hv s rfl).elim
      | _ => rfl
  | _ => rfl

theorem binOp_none (hx : Plain x) (hy : Plain y)
    (hnum : ¬∃ p q, x.numeric = some p ∧ y.numeric = some q) :
    b.binOp op (toJs x) (toJs y) = none := by
  rw [binOp_eq (toJs_ne_str hx) (toJs_ne_str hy)]
  simp only [onNumbers, byNumber, numeric_toJs hx, numeric_toJs hy]
  obtain hnone | hnone := numeric_or hnum
  · cases op <;> cases y.numeric <;> simp [hnone]
  · cases op <;> cases x.numeric <;> simp [hnone]

theorem plain_of_numeric (h : v.numeric = some q) : Plain v := by
  cases v with
  | str _ | inf _ => cases h
  | _ => trivial

theorem binOp_numbers (hx : x.numeric = some p) (hy : y.numeric = some q) :
    b.binOp op (toJs x) (toJs y) = match op with
      | .add => some (.num (.finite (p + q)))
      | .sub => some (.num (.finite (p - q)))
      | .mult => some (.num (.finite (p * q)))
      | .div => if q = 0 then none else some (.num (.finite (p / q)))
      | .floorDiv => if q = 0 then none else some (.num (.finite ⌊p / q⌋))
      | .mod => if q = 0 then none else some (.num (.finite (p - q * ⌊p / q⌋)))
      | .pow => if 1000 < q then none
        else some (.num (Js.pow b.powerOf (.finite p) (.finite q))) := by
  have hp := plain_of_numeric hx
  have hq := plain_of_numeric hy
  rw [binOp_eq (toJs_ne_str hp) (toJs_ne_str hq)]
  simp only [onNumbers, byNumber, numeric_toJs hp, numeric_toJs hq, hx, hy, Option.map_some]
  cases op with
  | add => rfl
  | sub => simp [Js.add, Js.neg, sub_eq_add_neg]
  | mult => rfl
  | div => simp [Js.div]
  | floorDiv => simp [Js.div, Js.floor]
  | mod => simp_all [rem_floor]
  | pow => simp [Js.lt, Browser.MAX_POW_EXPONENT]

theorem pow_agrees (hpow : b.powerOf = py.power) (hzero : p = 0 → 0 ≤ q)
    (hneg : p < 0 → q.den = 1) :
    (ratPow py.power p q).map F64.finite = some (Js.pow b.powerOf (.finite p) (.finite q)) := by
  unfold ratPow
  simp only [Js.pow, hpow]
  grind

theorem pyFloorDiv_numbers (hx : x.numeric = some p) (hy : y.numeric = some q) :
    (pyFloorDiv x y).map toJs = if q = 0 then none else some (.num (.finite ⌊p / q⌋)) := by
  simp only [pyFloorDiv, hx, hy]
  split
  · rfl
  · split <;> rfl

theorem pyMod_numbers (hx : x.numeric = some p) (hy : y.numeric = some q) :
    (pyMod py x y).map toJs = if q = 0 then none else some (.num (.finite (p - q * ⌊p / q⌋))) := by
  have hmod : pyMod py x y =
      if q = 0 then none else some (remainder p q (wholeOf x) (wholeOf y)) := by
    cases x with
    | str _ => cases hx
    | _ => simp only [pyMod, hx, hy]
  rw [hmod]
  by_cases hzero : q = 0
  · rw [if_pos hzero, if_pos hzero]
    rfl
  rw [if_neg hzero, if_neg hzero, Option.map_some]
  cases hm : wholeOf x with
  | none => rfl
  | some m =>
    cases hn : wholeOf y with
    | none => rfl
    | some n =>
      obtain rfl : (m : ℚ) = p := Option.some.inj ((numeric_of_wholeOf hm).symm.trans hx)
      obtain rfl : (n : ℚ) = q := Option.some.inj ((numeric_of_wholeOf hn).symm.trans hy)
      simp [toJs, remainder]

theorem pyPow_numbers (hpow : b.powerOf = py.power)
    (hx : x.numeric = some p) (hy : y.numeric = some q)
    (hfit : q ≤ 1000 → (p = 0 → 0 ≤ q) ∧ (p < 0 → q.den = 1)) :
    (pyPow py x y).map toJs =
      if 1000 < q then none else some (.num (Js.pow b.powerOf (.finite p) (.finite q))) := by
  simp only [pyPow, hx, hy]
  by_cases hle : MAX_POW_EXPONENT < q
  · rw [if_pos hle, if_pos (show (1000 : ℚ) < q from hle)]
    rfl
  rw [if_neg hle, if_neg (show ¬(1000 : ℚ) < q from hle)]
  obtain ⟨hzero, hneg⟩ := hfit (not_lt.1 hle)
  have hrat : ((ratPow py.power p q).map Value.float).map toJs =
      some (.num (Js.pow b.powerOf (.finite p) (.finite q))) := by
    have := pow_agrees hpow hzero hneg
    cases hr : ratPow py.power p q with
    | none => simp [hr] at this
    | some r => simp_all [toJs]
  split
  · next m n hm hn =>
    split
    · next hn0 =>
      obtain rfl : (m : ℚ) = p := Option.some.inj ((numeric_of_wholeOf hm).symm.trans hx)
      obtain rfl : (n : ℚ) = q := Option.some.inj ((numeric_of_wholeOf hn).symm.trans hy)
      obtain ⟨k, rfl⟩ := Int.eq_ofNat_of_zero_le hn0
      simp [toJs, Js.pow]
    · exact hrat
  · exact hrat

theorem pyFloorDiv_none
    (hnum : ¬∃ p q, x.numeric = some p ∧ y.numeric = some q) : pyFloorDiv x y = none := by
  simp_all [pyFloorDiv]

theorem pyMod_none (hx : Plain x)
    (hnum : ¬∃ p q, x.numeric = some p ∧ y.numeric = some q) : pyMod py x y = none := by
  unfold pyMod
  split
  · exact hx.elim
  · next _ hq hp => exact (hnum ⟨_, _, hp, hq⟩).elim
  · rfl

theorem pyPow_none (hnum : ¬∃ p q, x.numeric = some p ∧ y.numeric = some q) :
    pyPow py x y = none := by simp_all [pyPow]

theorem numbers_agree (hpow : b.powerOf = py.power)
    (h : NumbersFit op x y) : b.binOp op (toJs x) (toJs y) = (pyBinOp py op x y).map toJs := by
  obtain ⟨hx, hy, hfit⟩ := h
  by_cases hnum : ∃ p q, x.numeric = some p ∧ y.numeric = some q
  · obtain ⟨p, q, hp, hq⟩ := hnum
    rw [binOp_numbers hp hq]
    have hplain := tooLong_plain (plain_of_numeric hp) y
    have hplain' := tooLong_plain (plain_of_numeric hq) x
    cases op with
    | add => exact (@pyArith_toJs .add _ _ _ _ hp hq).symm
    | sub => exact (@pyArith_toJs .sub _ _ _ _ hp hq).symm
    | mult =>
      simp only [pyBinOp, hplain, hplain']
      exact (@pyArith_toJs .mul _ _ _ _ hp hq).symm
    | div => simpa [Op.exact, pyBinOp] using (@pyArith_toJs .div _ _ _ _ hp hq).symm
    | floorDiv => exact (pyFloorDiv_numbers hp hq).symm
    | mod => exact (pyMod_numbers hp hq).symm
    | pow => exact (pyPow_numbers hpow hp hq (hfit p q hp hq)).symm
  · rw [binOp_none hx hy hnum]
    have hplain := tooLong_plain hx y
    have hplain' := tooLong_plain hy x
    have harith : ∀ op', (op' = .add → op = .add) → (op' = .mul → op = .mult) →
        pyArith op' x y = none := by
      intro op' hadd hmul
      refine pyArith_none hx hy hnum (fun h => ?_) fun h => ?_
      · obtain rfl := hadd h
        exact hfit
      · obtain rfl := hmul h
        exact hfit
    cases op with
    | add => simp [pyBinOp, harith .add (by simp) (by simp)]
    | sub => simp [pyBinOp, harith .sub (by simp) (by simp)]
    | mult => simp_all [pyBinOp]
    | div => simp [pyBinOp, harith .div (by simp) (by simp)]
    | floorDiv => simp [pyBinOp, pyFloorDiv_none hnum]
    | mod => simp [pyBinOp, pyMod_none hx hnum]
    | pow => simp [pyBinOp, pyPow_none hnum]

theorem repeat_agrees {s : String} {n : ℤ} (hy : wholeOf y = some n) :
    (b.numeric (toJs y)).bind (fun x => if Js.lt Browser.MAX_STRING_REPEAT x then none
      else Browser.repeated s x) =
      (if tooLong (.str s) y then none else VarCode.repeated n (.str s)).map toJs := by
  have hnum := numeric_of_wholeOf hy
  have htrunc : Js.trunc (n : ℚ) = n := by simp [Js.trunc]
  rw [numeric_toJs (plain_of_numeric hnum), hnum, tooLong, hy]
  have hlt : Js.lt Browser.MAX_STRING_REPEAT (.finite n) = decide (MAX_STRING_MULTIPLY < n) := by
    simp only [Js.lt, Browser.MAX_STRING_REPEAT, MAX_STRING_MULTIPLY]
    exact decide_eq_decide.2 (by norm_cast)
  simp only [Option.map_some, Option.bind_some, Option.any_some, hlt]
  split
  · rfl
  · simp [Browser.repeated, VarCode.repeated, htrunc, toJs]

theorem texts_agree (h : TextsFit op x y) :
    b.binOp op (toJs x) (toJs y) = (pyBinOp py op x y).map toJs := by
  cases op with
  | add =>
    obtain ⟨⟨s, rfl⟩, t, rfl⟩ := h
    rfl
  | mult =>
    obtain ⟨⟨s, rfl⟩, hy⟩ | ⟨hx, s, rfl⟩ := h
    · obtain ⟨n, hn⟩ := Option.isSome_iff_exists.1 hy
      have hno : tooLong y (.str s) = false :=
        tooLong_plain (plain_of_numeric (numeric_of_wholeOf hn)) _
      have harith : pyArith .mul (.str s) y = VarCode.repeated n (.str s) := by
        simp only [pyArith, Op.onOther, show wholeOf (.str s) = none from rfl, hn,
          show (Value.str s).numeric = none from rfl]
      rw [pyBinOp, hno, Bool.or_false, harith, ← repeat_agrees (b := b) hn]
      rfl
    · obtain ⟨n, hn⟩ := Option.isSome_iff_exists.1 hx
      have hno : tooLong x (.str s) = false :=
        tooLong_plain (plain_of_numeric (numeric_of_wholeOf hn)) _
      have harith : pyArith .mul x (.str s) = VarCode.repeated n (.str s) := by
        simp only [pyArith, Op.onOther, show wholeOf (.str s) = none from rfl, hn,
          show (Value.str s).numeric = none from rfl, numeric_of_wholeOf hn]
      rw [pyBinOp, hno, Bool.false_or, harith, ← repeat_agrees (b := b) hn]
      cases x with
      | bool _ | int _ => rfl
      | null | float _ | inf _ | str _ | list _ | dict _ => cases hn
  | sub | div | floorDiv | mod | pow => exact h.elim

theorem binOp_agrees (hpow : b.powerOf = py.power)
    (h : OperandsFit op x y) : b.binOp op (toJs x) (toJs y) = (pyBinOp py op x y).map toJs :=
  h.elim (numbers_agree hpow) texts_agree

theorem unaryOp_agrees {op : UnaryOp} (h : UnaryFits op x) :
    b.unaryOp op (toJs x) = (pyUnaryOp op x).map toJs := by
  cases op with
  | not => simp [unaryOp, pyUnaryOp, toJs, truthy_toJs h]
  | uSub =>
    rw [unaryOp, numeric_toJs h]
    cases x with
    | bool a => cases a <;> simp [Value.numeric, pyUnaryOp, pyNeg, toJs, Js.neg]
    | int n => simp [Value.numeric, pyUnaryOp, pyNeg, toJs, Js.neg]
    | float q => simp [Value.numeric, pyUnaryOp, pyNeg, toJs, Js.neg]
    | str _ | inf _ => exact h.elim
    | null | list _ | dict _ => rfl
  | uAdd =>
    rw [unaryOp, numeric_toJs h]
    cases x with
    | bool a => cases a <;> simp [Value.numeric, pyUnaryOp, pyPos, toJs]
    | int n => simp [Value.numeric, pyUnaryOp, pyPos, toJs]
    | float q => simp [Value.numeric, pyUnaryOp, pyPos, toJs]
    | str _ | inf _ => exact h.elim
    | null | list _ | dict _ => rfl

theorem looseEq_numbers (hx : x.numeric = some p)
    (hy : y.numeric = some q) : b.looseEq (toJs x) (toJs y) = decide (p = q) := by
  have heq : Js.eq (.finite p) (.finite q) = decide (p = q) := by simp [Js.eq]
  have hmixed : typeOf (toJs x) ≠ typeOf (toJs y) →
      b.looseEq (toJs x) (toJs y) = decide (p = q) := by
    intro htype
    rw [looseEq, if_neg htype, numeric_toJs (plain_of_numeric hx),
      numeric_toJs (plain_of_numeric hy), hx, hy]
    exact heq
  cases x with
  | null | inf _ | str _ | list _ | dict _ => cases hx
  | bool a =>
    cases y with
    | null | inf _ | str _ | list _ | dict _ => cases hy
    | bool c =>
      cases hx
      cases hy
      cases a <;> cases c <;> simp [looseEq, toJs, strictEq, typeOf]
    | int _ | float _ => exact hmixed (by simp [toJs, typeOf])
  | int _ | float _ =>
    cases y with
    | null | inf _ | str _ | list _ | dict _ => cases hy
    | bool _ => exact hmixed (by simp [toJs, typeOf])
    | int _ | float _ =>
      cases hx
      cases hy
      exact heq

theorem pyEq_numbers (hx : x.numeric = some p)
    (hy : y.numeric = some q) : pyEq x y = decide (p = q) := by
  have hbeq : (some q == some p) = decide (p = q) := by by_cases h : p = q <;> simp [h, Ne.symm]
  cases x with
  | bool _ | int _ | float _ =>
    cases hx
    simp only [pyEq, hy]
    exact hbeq
  | null | inf _ | str _ | list _ | dict _ => cases hx

theorem pyLessEq_numeric (hx : x.numeric = some p)
    (hy : y.numeric = some q) : pyLessEq x y = some (decide (p ≤ q)) := by
  cases x with
  | bool _ | int _ | float _ => simp only [pyLessEq, hx, hy]
  | null | inf _ | str _ | list _ | dict _ => cases hx

theorem eq_agrees (h : EqFits x y) : b.looseEq (toJs x) (toJs y) = pyEq x y := by
  by_cases hnum : ∃ p q, x.numeric = some p ∧ y.numeric = some q
  · grind [looseEq_numbers, pyEq_numbers]
  obtain ⟨hx, hy, hlist, hdict, hleft, hright⟩ := h
  cases x with
  | inf _ => obtain h | ⟨_, h⟩ := hx <;> cases h
  | str s =>
    cases y with
    | inf _ => obtain h | ⟨_, h⟩ := hy <;> cases h
    | str t => rfl
    | bool _ | int _ | float _ => exact (hleft ⟨⟨s, rfl⟩, rfl⟩).elim
    | null | list _ | dict _ =>
      cases hs : b.number s <;> simp [looseEq, toJs, typeOf, numeric, pyEq, hs]
  | null | bool _ | int _ | float _ | list _ | dict _ =>
    cases y with
    | inf _ => obtain h | ⟨_, h⟩ := hy <;> cases h
    | str s =>
      first
      | exact (hright ⟨rfl, s, rfl⟩).elim
      | cases hs : b.number s <;> simp [looseEq, toJs, typeOf, numeric, pyEq, hs]
    | null | bool _ | int _ | float _ | list _ | dict _ =>
      first
      | exact (hnum ⟨_, _, rfl, rfl⟩).elim
      | exact (hlist ⟨⟨_, rfl⟩, _, rfl⟩).elim
      | exact (hdict ⟨⟨_, rfl⟩, _, rfl⟩).elim
      | simp [looseEq, toJs, typeOf, numeric, strictEq, pyEq, Value.numeric]

variable {lt : F64 → F64 → Bool} {text : List Char}

theorem ordered_none (hx : Plain x) (hy : Plain y)
    (hnum : ¬∃ p q, x.numeric = some p ∧ y.numeric = some q) :
    b.ordered lt (toJs x) (toJs y) = none := by simp_all [Browser.ordered, numeric_toJs]

theorem ordered_numbers (hx : x.numeric = some p) (hy : y.numeric = some q) :
    b.ordered lt (toJs x) (toJs y) = some (lt (.finite p) (.finite q)) := by
  simp_all [Browser.ordered, numeric_toJs, plain_of_numeric]

theorem le_finite (p q : ℚ) : Js.le (.finite p) (.finite q) = decide (p ≤ q) := by
  simp [Js.le, Js.lt, Js.eq, le_iff_lt_or_eq]

theorem pyLess_none (hx : Plain x) (hlist : ¬(IsList x ∧ IsList y))
    (hnum : ¬∃ p q, x.numeric = some p ∧ y.numeric = some q) :
    pyLess x y = none ∧ pyLessEq x y = none := by
  cases x with
  | str _ => exact hx.elim
  | list vs =>
    cases y with
    | list ws => exact (hlist ⟨⟨vs, rfl⟩, ws, rfl⟩).elim
    | _ => exact ⟨rfl, rfl⟩
  | null | inf _ | dict _ => cases y <;> exact ⟨rfl, rfl⟩
  | bool _ | int _ | float _ =>
    cases y with
    | bool _ | int _ | float _ => exact (hnum ⟨_, _, rfl, rfl⟩).elim
    | null | inf _ | str _ | list _ | dict _ => exact ⟨rfl, rfl⟩

theorem ordered_agrees (hx : Plain x) (hy : Plain y) (hlist : ¬(IsList x ∧ IsList y)) :
    b.ordered Js.lt (toJs x) (toJs y) = pyLess x y ∧
      b.ordered Js.le (toJs x) (toJs y) = pyLessEq x y ∧
      b.ordered (fun p q => Js.lt q p) (toJs x) (toJs y) = pyLess y x ∧
      b.ordered (fun p q => Js.le q p) (toJs x) (toJs y) = pyLessEq y x := by
  by_cases hnum : ∃ p q, x.numeric = some p ∧ y.numeric = some q
  · obtain ⟨p, q, hp, hq⟩ := hnum
    simp only [ordered_numbers hp hq, pyLess_numeric hp hq, pyLess_numeric hq hp,
      pyLessEq_numeric hp hq, pyLessEq_numeric hq hp, le_finite, Js.lt, and_self]
  · have hswap : ¬∃ p q, y.numeric = some p ∧ x.numeric = some q :=
      fun ⟨p, q, hp, hq⟩ => hnum ⟨q, p, hq, hp⟩
    obtain ⟨hlt, hle⟩ := pyLess_none hx hlist hnum
    obtain ⟨hgt, hge⟩ := pyLess_none hy (fun h => hlist h.symm) hswap
    simp only [ordered_none hx hy hnum, hlt, hle, hgt, hge, and_self]

theorem compareOne_agrees {op : CmpOp} (h : CompareFits op x y) :
    b.compareOne (toJs x) op (toJs y) = pyCompareOp op x y := by
  cases op with
  | eq => rw [compareOne, eq_agrees h, pyCompareOp]
  | notEq => rw [compareOne, eq_agrees h, pyCompareOp]
  | lt => exact (ordered_agrees h.1 h.2.1 h.2.2).1
  | ltE => exact (ordered_agrees h.1 h.2.1 h.2.2).2.1
  | gt => exact (ordered_agrees h.1 h.2.1 h.2.2).2.2.1
  | gtE => exact (ordered_agrees h.1 h.2.1 h.2.2).2.2.2

/-! ### Trees -/

section Trees
variable (py : Python) (b : Browser) (functions : Functions)
  (jsFunctions : String → Option (List JsValue → Option JsValue)) (context : Dict)

def jsContext : List (String × JsValue) := toJsFields context

/-- Expressions of which each fits as far as those before it have values. -/
def FitAll (visit : Expr → Option Value) (fits : Expr → Prop) (ok : Value → Prop) : List Expr → Prop
  | [] => True
  | e :: es => fits e ∧ ∀ v, visit e = some v → ok v ∧ FitAll visit fits ok es

/-- A chain of comparisons: as long as they hold, the next operands fit; after one that does not,
    the browser can evaluate the operands that are left. -/
def ChainFits (visit : Expr → Option Value) (fits : Expr → Prop) (evaluable : Expr → Prop) :
    Value → List CmpOp → List Expr → Prop
  | left, op :: ops, e :: es => fits e ∧ ∀ v, visit e = some v →
    CompareFits op left v ∧
    (pyCompareOp op left v = some true → ChainFits visit fits evaluable v ops es) ∧
    (pyCompareOp op left v = some false → ∀ e ∈ es.take ops.length, evaluable e)
  | _, _, _ => True

def Evaluable (e : Expr) : Prop := (evalTree b jsFunctions (jsContext context) e).isSome

/-- A formula on which the browser follows the server, that has `n` visits open at most: the
    operators that the server comes to fit their operands, the functions are in the table, and
    the browser can evaluate what the server passes over. -/
def Fits : ℕ → Expr → Prop
  | 0, _ => False
  | _ + 1, .constant _ => True
  | _ + 1, .name _ => True
  | n + 1, .binOp left op right => Fits n left ∧ ∀ x, visit py functions context n left = some x →
    Fits n right ∧ ∀ y, visit py functions context n right = some y → OperandsFit op x y
  | n + 1, .unaryOp op operand => Fits n operand ∧
    ∀ x, visit py functions context n operand = some x → UnaryFits op x
  | n + 1, .boolOp _ values => values ≠ [] ∧
    FitAll (visit py functions context n) (Fits n) (· ≠ .dict []) values
  | n + 1, .compare left ops comparators => Fits n left ∧
    ∀ x, visit py functions context n left = some x →
      ChainFits (visit py functions context n) (Fits n) (Evaluable b jsFunctions context)
        x ops comparators
  | n + 1, .ifExp test body orelse => Fits n test ∧
    ∀ c, visit py functions context n test = some c → c ≠ .dict [] ∧
      (c.truthy = true → Fits n body ∧ ((visit py functions context n body).isSome →
        Evaluable b jsFunctions context orelse)) ∧
      (c.truthy = false → Fits n orelse ∧ ((visit py functions context n orelse).isSome →
        Evaluable b jsFunctions context body))
  | n + 1, .call func args => (functions func).isSome ∧
    FitAll (visit py functions context n) (Fits n) (fun _ => True) args
  | n + 1, .list elts => FitAll (visit py functions context n) (Fits n) (fun _ => True) elts

def Shared : Prop := ∀ name f, functions name = some f →
  ∃ g, jsFunctions name = some g ∧ ∀ vs, g (toJsItems vs) = (f vs).map toJs

end Trees

variable {functions : Functions} {jsFunctions : String → Option (List JsValue → Option JsValue)}
  {context : Dict} {n : ℕ}

theorem lookup_jsContext (name : String) :
    (jsContext context).lookup name = (context.lookup name).map toJs := by
  induction context with
  | nil => rfl
  | cons kv context ih => grind [jsContext, toJsFields]

section Lists
variable {eval : Expr → Option Value}

variable {es : List Expr} {fits : Expr → Prop}

theorem evalItems_visit {ok : Value → Prop}
    (heval : ∀ e, fits e → evalTree b jsFunctions (jsContext context) e = (eval e).map toJs)
    (h : FitAll eval fits ok es) :
    evalItems b jsFunctions (jsContext context) es = (es.mapM eval).map toJsItems := by
  induction es with
  | nil => rfl
  | cons e es ih =>
    obtain ⟨he, hes⟩ := h
    rw [evalItems, heval e he, List.mapM_cons]
    cases hv : eval e with
    | none => rfl
    | some v =>
      simp only [Option.map_some, Option.bind_eq_bind, Option.bind_some, ih (hes v hv).2]
      cases es.mapM eval <;> rfl

theorem pyBoolOp_stays (op : BoolOp) {v w : Value} (hv : v ≠ .dict []) (vs : List Value) :
    pyBoolOp op (v :: w :: vs) = pyBoolOp op ((if stays op (toJs v) then v else w) :: vs) := by
  cases op with
  | and => grind [stays, truthy_toJs, pyBoolOp]
  | or => grind [stays, truthy_toJs, pyBoolOp]

theorem evalMoreBools_visit {op : BoolOp}
    (heval : ∀ e, fits e → evalTree b jsFunctions (jsContext context) e = (eval e).map toJs)
    {v : Value} (hv : v ≠ .dict []) (h : FitAll eval fits (· ≠ .dict []) es) :
    evalMoreBools b jsFunctions (jsContext context) op (toJs v) es =
      (es.mapM eval).map fun vs => toJs (pyBoolOp op (v :: vs)) := by
  induction es generalizing v with
  | nil => cases op <;> rfl
  | cons e es ih =>
    obtain ⟨he, hes⟩ := h
    rw [evalMoreBools, heval e he, List.mapM_cons]
    cases hw : eval e with
    | none => rfl
    | some w =>
      have hstate : (if stays op (toJs v) then toJs v else toJs w) =
          toJs (if stays op (toJs v) then v else w) := by
        split <;> rfl
      have hne : (if stays op (toJs v) then v else w) ≠ .dict [] := by
        split
        · exact hv
        · exact (hes w hw).1
      simp only [Option.map_some, Option.bind_eq_bind, Option.bind_some, hstate,
        ih hne (hes w hw).2]
      cases es.mapM eval with
      | none => rfl
      | some vs => simp [pyBoolOp_stays op hv]

theorem evalBools_visit {op : BoolOp}
    (heval : ∀ e, fits e → evalTree b jsFunctions (jsContext context) e = (eval e).map toJs)
    (hne : es ≠ []) (h : FitAll eval fits (· ≠ .dict []) es) :
    evalBools b jsFunctions (jsContext context) op es =
      (es.mapM eval).map fun vs => toJs (pyBoolOp op vs) := by
  cases es with
  | nil => exact absurd rfl hne
  | cons e es =>
    obtain ⟨he, hes⟩ := h
    rw [evalBools, heval e he, List.mapM_cons]
    cases hv : eval e with
    | none => rfl
    | some v =>
      simp only [Option.map_some, Option.bind_eq_bind, Option.bind_some,
        evalMoreBools_visit heval (hes v hv).1 (hes v hv).2]
      cases es.mapM eval <;> rfl

theorem evalCompares_false {ops : List CmpOp}
    (h : ∀ e ∈ es.take ops.length, Evaluable b jsFunctions context e) (left : JsValue) :
    ∃ last, evalCompares b jsFunctions (jsContext context) left false ops es =
      some (last, false) := by
  induction ops generalizing left es with
  | nil => exact ⟨left, by cases es <;> rfl⟩
  | cons op ops ih =>
    cases es with
    | nil => exact ⟨left, rfl⟩
    | cons e es =>
      obtain ⟨v, hv⟩ := Option.isSome_iff_exists.1 (h e (by simp))
      have hes : ∀ e ∈ es.take ops.length, Evaluable b jsFunctions context e := fun e he =>
        h e (by simp [he])
      obtain ⟨last, hlast⟩ := ih hes v
      exact ⟨last, by simp [evalCompares, hv, andCompare, hlast]⟩

theorem evalCompares_visit {ops : List CmpOp}
    (heval : ∀ e, fits e → evalTree b jsFunctions (jsContext context) e = (eval e).map toJs)
    {left : Value} (h : ChainFits eval fits (Evaluable b jsFunctions context) left ops es) :
    ((evalCompares b jsFunctions (jsContext context) (toJs left) true ops es).map fun state =>
      JsValue.bool state.2) = (compareChain eval left ops es).map toJs := by
  induction ops generalizing left es with
  | nil => cases es <;> rfl
  | cons op ops ih =>
    cases es with
    | nil => rfl
    | cons e es =>
      obtain ⟨he, hes⟩ := h
      rw [evalCompares, heval e he, compareChain]
      cases hv : eval e with
      | none => rfl
      | some v =>
        obtain ⟨hfit, hholds, hfails⟩ := hes v hv
        simp only [Option.map_some, Option.bind_eq_bind, Option.bind_some, andCompare, if_true,
          compareOne_agrees hfit]
        cases hop : pyCompareOp op left v with
        | none => rfl
        | some holds =>
          cases holds with
          | true => simpa using ih (hholds hop)
          | false =>
            obtain ⟨last, hlast⟩ := evalCompares_false (hfails hop) (toJs v)
            simp [hlast, toJs]

end Lists

theorem evalTree_visit (hpow : b.powerOf = py.power) (hshared : Shared functions jsFunctions)
    {e : Expr} (h : Fits py b functions jsFunctions context n e) :
    evalTree b jsFunctions (jsContext context) e = (visit py functions context n e).map toJs := by
  induction n generalizing e with
  | zero => exact h.elim
  | succ n ih =>
    cases e with
    | constant v => rfl
    | name id => exact lookup_jsContext id
    | binOp left op right =>
      obtain ⟨hleft, hright⟩ := h
      rw [evalTree, visit, ih hleft]
      cases hx : visit py functions context n left with
      | none => rfl
      | some x =>
        obtain ⟨hfits, hoperands⟩ := hright x hx
        simp only [Option.map_some, Option.bind_eq_bind, Option.bind_some, ih hfits]
        cases hy : visit py functions context n right with
        | none => rfl
        | some y => exact binOp_agrees hpow (hoperands y hy)
    | unaryOp op operand =>
      obtain ⟨hoperand, hfit⟩ := h
      rw [evalTree, visit, ih hoperand]
      cases hx : visit py functions context n operand with
      | none => rfl
      | some x => exact unaryOp_agrees (hfit x hx)
    | boolOp op values =>
      obtain ⟨hne, hvalues⟩ := h
      rw [evalTree, visit, evalBools_visit (fun e he => ih he) hne hvalues, Option.map_map]
      rfl
    | compare left ops comparators =>
      obtain ⟨hleft, hchain⟩ := h
      rw [evalTree, visit, ih hleft]
      cases hx : visit py functions context n left with
      | none => rfl
      | some x =>
        simp only [Option.map_some, Option.bind_eq_bind, Option.bind_some,
          ← evalCompares_visit (fun e he => ih he) (hchain x hx)]
        cases evalCompares b jsFunctions (jsContext context) (toJs x) true ops comparators <;> rfl
    | ifExp test body orelse =>
      obtain ⟨htest, hbranch⟩ := h
      rw [evalTree, visit, ih htest]
      cases hc : visit py functions context n test with
      | none => simp
      | some c =>
        obtain ⟨hdict, htrue, hfalse⟩ := hbranch c hc
        simp only [Option.map_some, Option.bind_eq_bind, Option.bind_some, truthy_toJs hdict]
        cases htruth : c.truthy with
        | true =>
          obtain ⟨hbody, hother⟩ := htrue htruth
          rw [ih hbody]
          cases hv : visit py functions context n body with
          | none => rfl
          | some v =>
            obtain ⟨w, hw⟩ := Option.isSome_iff_exists.1 (hother (by rw [hv]; rfl))
            simp [hw]
        | false =>
          obtain ⟨horelse, hother⟩ := hfalse htruth
          rw [ih horelse]
          cases hv : visit py functions context n orelse with
          | none => simp
          | some v =>
            obtain ⟨w, hw⟩ := Option.isSome_iff_exists.1 (hother (by rw [hv]; rfl))
            simp [hw]
    | call func args =>
      obtain ⟨hfunc, hargs⟩ := h
      obtain ⟨f, hf⟩ := Option.isSome_iff_exists.1 hfunc
      obtain ⟨g, hg, hfg⟩ := hshared func f hf
      have htable : b.table jsFunctions func = some g := by rw [table, hg, Option.some_or]
      grind [evalTree, visit, evalItems_visit]
    | list elts =>
      rw [evalTree, visit, evalItems_visit (fun e he => ih he) h]
      cases elts.mapM (visit py functions context n) <;> rfl

theorem utf16Length_ascii (h : ∀ c ∈ text, c.toNat < 128) : utf16Length text = text.length := by
  induction text with
  | nil => rfl
  | cons c text ih =>
    have hc : c.toNat < 65536 := by
      have := h c List.mem_cons_self
      omega
    rw [utf16Length, List.map_cons, List.sum_cons, if_pos hc, List.length_cons]
    grind [utf16Length]

theorem evaluateFormulaSafely_tokens {ctx : List (String × JsValue)} {stack : ℕ}
    {toks : List Token} (hlength : utf16Length text ≤ 4096)
    (htokens : tokenize (text.length + 1) text = some toks) :
    evaluateFormulaSafely b jsFunctions ctx stack text =
      (ternary b jsFunctions ctx stack toks).bind fun r => if r.2 = [] then some r.1 else none := by
  simp_all [evaluateFormulaSafely, MAX_EXPRESSION_LENGTH]

/-- A text of at most 4096 characters, plainly written, that fits: the browser has a value for it
    exactly if the server has one, and it is the same. -/
theorem formulas_agree (hpow : b.powerOf = py.power) (hshared : Shared functions jsFunctions)
    {text : List Char} {toks : List Token} {e : Expr} {d stack : ℕ}
    (hlength : text.length ≤ 4096) (hascii : ∀ c ∈ text, c.toNat < 128)
    (hparse : AstParse py Browser.style d text toks e) (hstack : d ≤ stack)
    (hfits : Fits py b functions jsFunctions context n e) :
    evaluateFormulaSafely b jsFunctions (jsContext context) stack text =
      (visit py functions context n e).map toJs := by
  obtain ⟨hlex, hreads⟩ := hparse
  have htokens : tokenize (text.length + 1) text = some toks :=
    tokenize_lex hlex (Nat.lt_succ_self _) hascii (hreads.allowed (by simp))
  have hvalue : ternary b jsFunctions (jsContext context) stack toks =
      (evalTree b jsFunctions (jsContext context) e).bind fun v => some (v, []) :=
    parser_evaluates (hreads.mono hstack)
  have hshort : utf16Length text ≤ 4096 := by rw [utf16Length_ascii hascii]; exact hlength
  rw [evaluateFormulaSafely_tokens hshort htokens, hvalue, ← evalTree_visit hpow hshared hfits]
  cases evalTree b jsFunctions (jsContext context) e <;> rfl

/-! ### A guarded division -/

def plainPython : Python := ⟨fun _ => false, fun _ => false, fun _ _ => 0, fun _ _ => none⟩

def plainBrowser : Browser := ⟨fun _ => none, fun _ _ => 0, fun _ => none⟩

def guardedText : List Char := "1/x if x != 0 else 0".toList

def guardedTokens : List Token :=
  [.num ['1'], .op "/", .name "x", .name "if", .name "x", .op "!=", .num ['0'], .name "else",
    .num ['0']]

def guardedTree : Expr :=
  .ifExp (.compare (.name "x") [.notEq] [.constant (.int 0)])
    (.binOp (.constant (.int 1)) .div (.name "x")) (.constant (.int 0))

theorem guarded_parse {style : Style} (h : ∀ lit ∈ [['0'], ['1']], style.number lit) :
    AstParse plainPython style 11 guardedText guardedTokens guardedTree := by
  have hone : Reads style 2 .atom guardedTokens (.constant (.int 1)) (guardedTokens.drop 1) :=
    .num (h _ (by simp))
  have hx : Reads style 2 .atom (guardedTokens.drop 2) (.name "x") (guardedTokens.drop 3) :=
    .name (by decide) (by decide)
  have hx' : Reads style 2 .atom (guardedTokens.drop 4) (.name "x") (guardedTokens.drop 5) :=
    .name (by decide) (by decide)
  have hzero : Reads style 2 .atom (guardedTokens.drop 6) (.constant (.int 0))
      (guardedTokens.drop 7) := .num (h _ (by simp))
  have hother : Reads style 1 .atom (guardedTokens.drop 8) (.constant (.int 0)) [] :=
    .num (h _ (by simp))
  have hdiv : Reads style 5 (.binary .term) guardedTokens
      (.binOp (.constant (.int 1)) .div (.name "x")) (guardedTokens.drop 3) :=
    .binary (hone.toFactor (by decide) (by decide) (by decide))
      (@Reads.nextBinary _ _ .term _ .div _ _ _ _ _ (by decide)
        (hx.toFactor (by decide) (by decide) (by decide)) (.lastBinary (by decide)))
  have hleft := (hx'.toFactor (by decide) (by decide) (by decide)).toSum (by decide) (by decide)
  have hright := (hzero.toFactor (by decide) (by decide) (by decide)).toSum (by decide) (by decide)
  have hzero' := (hother.toFactor (by decide) (by decide) (by decide)).toSum (by decide) (by decide)
  have hbody : Reads style 10 (.bools .or) guardedTokens
      (.binOp (.constant (.int 1)) .div (.name "x")) (guardedTokens.drop 3) :=
    Reads.toDisjunction (.comparison (.binary hdiv (.lastBinary (by decide)))
      (.lastCompare fun op => by cases op <;> decide)) (by decide) (by decide) (by decide)
  have htest : Reads style 10 (.bools .or) (guardedTokens.drop 4)
      (.compare (.name "x") [.notEq] [.constant (.int 0)]) (guardedTokens.drop 7) :=
    Reads.toDisjunction (.comparison hleft (@Reads.nextCompare _ _ _ _ _ .notEq _ _ _ _ _ hright
      (.lastCompare fun op => by cases op <;> decide))) (by decide) (by decide) (by decide)
  have horelse : Reads style 10 .expression (guardedTokens.drop 8) (.constant (.int 0)) [] :=
    .disjunction (Reads.toDisjunction (.comparison hzero'
      (.lastCompare fun op => by cases op <;> decide)) (by decide) (by decide) (by decide))
      (by decide)
  exact ⟨rfl, .ifExp hbody htest horelse⟩

theorem guardedText_short : utf16Length guardedText ≤ 4096 :=
  show utf16Length guardedText ≤ 4096 by decide

theorem guardedText_tokens :
    tokenize (guardedText.length + 1) guardedText = some guardedTokens := by
  decide

/-- With 0 for `x` the server has 0, and the browser divides by it. -/
theorem guarded_division :
    AstParse plainPython .python 11 guardedText guardedTokens guardedTree ∧
    visit plainPython (fun _ => none) [("x", .int 0)] 3 guardedTree = some (.int 0) ∧
    evaluateFormulaSafely plainBrowser (fun _ => none) (jsContext [("x", .int 0)]) 11 guardedText =
      none :=
  ⟨guarded_parse fun _ _ => trivial, rfl, evaluateFormulaSafely_tokens guardedText_short
    guardedText_tokens⟩

def countTable : Functions := fun name =>
  if name = "COUNT" then some fun vs => some (.int vs.length) else none

def jsCountTable (name : String) : Option (List JsValue → Option JsValue) :=
  if name = "COUNT" then some fun vs => some (.num (.finite vs.length)) else none

theorem length_toJsItems (vs : List Value) : (toJsItems vs).length = vs.length := by
  induction vs with
  | nil => rfl
  | cons v vs ih => rw [toJsItems, List.length_cons, ih, List.length_cons]

theorem countTable_shared : Shared countTable jsCountTable := by
  intro name f hf
  unfold countTable at hf
  split at hf
  · next hname =>
    cases hf
    refine ⟨_, if_pos hname, fun vs => ?_⟩
    simp [toJs, length_toJsItems]
  · cases hf

/-- With 2 for `x` both have a half. -/
theorem guarded_agrees :
    evaluateFormulaSafely plainBrowser jsCountTable (jsContext [("x", .int 2)]) 11 guardedText =
      (visit plainPython countTable [("x", .int 2)] 3 guardedTree).map toJs := by
  have hplain : ∀ lit ∈ [['0'], ['1']], plainNumber lit = true := by
    intro lit hlit
    simp only [List.mem_cons, List.not_mem_nil, or_false] at hlit
    obtain rfl | rfl := hlit <;> decide
  have hall : guardedText.all (fun c => decide (c.toNat < 128)) = true := by decide
  have hascii : ∀ c ∈ guardedText, c.toNat < 128 :=
    fun c hc => of_decide_eq_true (List.all_eq_true.1 hall c hc)
  refine formulas_agree rfl countTable_shared (by decide) hascii (guarded_parse hplain)
    (Nat.le_refl _) ?_
  refine ⟨⟨trivial, fun x hx => ?_⟩, fun c hc => ?_⟩
  · obtain rfl : Value.int 2 = x := Option.some.inj hx
    refine ⟨trivial, fun y hy => ?_⟩
    obtain rfl : Value.int 0 = y := Option.some.inj hy
    exact ⟨⟨.inl trivial, .inl trivial, by rintro ⟨⟨_, ⟨⟩⟩, _⟩, by rintro ⟨⟨_, ⟨⟩⟩, _⟩,
      by rintro ⟨⟨_, ⟨⟩⟩, _⟩, by rintro ⟨_, _, ⟨⟩⟩⟩, fun _ => trivial, fun _ _ h => by cases h⟩
  · obtain rfl : Value.bool true = c := Option.some.inj hc
    refine ⟨by rintro ⟨⟩,
      fun _ => ⟨⟨trivial, fun x hx => ⟨trivial, fun y hy => ?_⟩⟩, fun _ => rfl⟩, by rintro ⟨⟩⟩
    obtain rfl : Value.int 1 = x := Option.some.inj hx
    obtain rfl : Value.int 2 = y := Option.some.inj hy
    exact .inl ⟨trivial, trivial, trivial⟩

end RuleMind.Formula
