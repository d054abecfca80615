/-
  Where a formula means on the device what it means on the server.

  Numbers are exact on both, and a function that is called gives the same on what it is called with.
-/
import RuleMind.DeviceReading
import RuleMind.BrowserAgreement

namespace RuleMind.Formula.Dart

open VarCode
open Text (F64)

/-! ### Numbers -/

def IsInf (v : Value) : Prop := ∃ neg, v = .inf neg

def IsFloat (v : Value) : Prop := ∃ q, v = .float q

variable {v x y : Value} {n : ℤ} {q p : ℚ} {op : Op} {s : String}

theorem numeric_whole (h : wholeOf v = some n) : numeric (ofJson v) = some (.int n) := by
  cases v with
  | bool b => cases h; rfl
  | int m => cases h; rfl
  | null | float _ | inf _ | str _ | list _ | dict _ => cases h

theorem numeric_float (h : v.numeric = some q) (hwhole : wholeOf v = none) :
    numeric (ofJson v) = some (.double (.finite q)) := by
  cases v with
  | float r => cases h; rfl
  | bool _ | int _ => cases hwhole
  | null | inf _ | str _ | list _ | dict _ => cases h

theorem numeric_none (h : v.numeric = none) (hinf : ¬IsInf v) : numeric (ofJson v) = none := by
  cases v with
  | inf neg => exact (hinf ⟨neg, rfl⟩).elim
  | null | str _ | list _ | dict _ => rfl
  | bool _ | int _ | float _ => cases h

theorem numeric_finite (h : v.numeric = some q) :
    ∃ n, numeric (ofJson v) = some n ∧ n.toDouble = .finite q := by
  cases hwhole : wholeOf v with
  | none => exact ⟨_, numeric_float h hwhole, rfl⟩
  | some n =>
    obtain rfl : (n : ℚ) = q := Option.some.inj ((numeric_of_wholeOf hwhole).symm.trans h)
    exact ⟨_, numeric_whole hwhole, rfl⟩

theorem operand_kinds (x y : Value) :
    (∃ m n, wholeOf x = some m ∧ wholeOf y = some n) ∨
      (∃ p q, x.numeric = some p ∧ y.numeric = some q ∧ (wholeOf x = none ∨ wholeOf y = none)) ∨
      (x.numeric = none ∨ y.numeric = none) := by
  cases hx : x.numeric with
  | none => exact .inr (.inr (.inl rfl))
  | some p =>
    cases hy : y.numeric with
    | none => exact .inr (.inr (.inr rfl))
    | some q =>
      cases hm : wholeOf x with
      | none => exact .inr (.inl ⟨p, q, rfl, rfl, .inl rfl⟩)
      | some m =>
        cases hn : wholeOf y with
        | none => exact .inr (.inl ⟨p, q, rfl, rfl, .inr rfl⟩)
        | some n => exact .inl ⟨m, n, rfl, rfl⟩

theorem onBoth_double {f : ℤ → ℤ → ℤ} {g : F64 → F64 → F64} {a b : Num}
    (hx : x.numeric = some p) (hy : y.numeric = some q)
    (hfloat : wholeOf x = none ∨ wholeOf y = none) (ha : numeric (ofJson x) = some a)
    (hb : numeric (ofJson y) = some b) :
    Num.onBoth f g a b = .double (g (.finite p) (.finite q)) := by
  obtain ⟨a', ha', hp⟩ := numeric_finite hx
  obtain ⟨b', hb', hq⟩ := numeric_finite hy
  obtain rfl : a' = a := Option.some.inj (ha'.symm.trans ha)
  obtain rfl : b' = b := Option.some.inj (hb'.symm.trans hb)
  rw [← hp, ← hq]
  obtain hnone | hnone := hfloat
  · obtain rfl : Num.double (.finite p) = a' :=
      Option.some.inj ((numeric_float hx hnone).symm.trans ha)
    rfl
  · obtain rfl : Num.double (.finite q) = b' :=
      Option.some.inj ((numeric_float hy hnone).symm.trans hb)
    cases a' <;> rfl

section OnNumbers
variable {f : ℤ → ℤ → ℤ} {g : F64 → F64 → F64} {x y : Value}

theorem onNumbers_whole {m n : ℤ} (hx : wholeOf x = some m) (hy : wholeOf y = some n) :
    onNumbers (Num.onBoth f g) (ofJson x) (ofJson y) = some (.num (.int (f m n))) := by
  rw [onNumbers, numeric_whole hx, numeric_whole hy]
  rfl

theorem onNumbers_double {p q : ℚ} (hx : x.numeric = some p) (hy : y.numeric = some q)
    (hfloat : wholeOf x = none ∨ wholeOf y = none) :
    onNumbers (Num.onBoth f g) (ofJson x) (ofJson y) =
      some (.num (.double (g (.finite p) (.finite q)))) := by
  grind [numeric_finite, onNumbers, onBoth_double]

theorem onNumbers_none {h : Num → Num → Num} (hinf : ¬IsInf x ∧ ¬IsInf y)
    (hnum : x.numeric = none ∨ y.numeric = none) : onNumbers h (ofJson x) (ofJson y) = none := by
  obtain hx | hy := hnum
  · rw [onNumbers, numeric_none hx hinf.1]
    rfl
  · rw [onNumbers, numeric_none hy hinf.2]
    cases numeric (ofJson x) <;> rfl

theorem byNumber_whole {m n : ℤ} (hx : wholeOf x = some m) (hy : wholeOf y = some n)
    (h : Num → Num → Num) :
    byNumber h (ofJson x) (ofJson y) =
      if n = 0 then none else some (.num (h (.int m) (.int n))) := by
  rw [byNumber, numeric_whole hx, numeric_whole hy]
  simp [Num.toDouble]

theorem byNumber_double {p q : ℚ} (hx : x.numeric = some p) (hy : y.numeric = some q)
    (hfloat : wholeOf x = none ∨ wholeOf y = none) :
    byNumber (Num.onBoth f g) (ofJson x) (ofJson y) =
      if q = 0 then none else some (.num (.double (g (.finite p) (.finite q)))) := by
  grind [numeric_finite, byNumber, onBoth_double]

theorem byNumber_none {h : Num → Num → Num} (hinf : ¬IsInf x ∧ ¬IsInf y)
    (hnum : x.numeric = none ∨ y.numeric = none) : byNumber h (ofJson x) (ofJson y) = none := by
  obtain hx | hy := hnum
  · rw [byNumber, numeric_none hx hinf.1]
    simp
  · rw [byNumber, numeric_none hy hinf.2]
    rfl

end OnNumbers

/-! ### Operators -/

def OperandsFit (op : BinOp) (x y : Value) : Prop :=
  (¬IsInf x ∧ ¬IsInf y) ∧ match op with
  | .add => ¬(IsList x ∧ IsList y)
  | .mult => (¬(IsList x ∧ (wholeOf y).isSome) ∧ ¬((wholeOf x).isSome ∧ IsList y)) ∧
    ¬(IsText x ∧ IsFloat y) ∧ ¬(IsFloat x ∧ IsText y)
  | .mod => ¬IsText x
  | .pow => ∀ p q, x.numeric = some p → y.numeric = some q → q ≤ 1000 →
    (p = 0 → 0 ≤ q) ∧ (p < 0 → q.den = 1)
  | _ => True

variable {py : Python} {dart : Dart}

theorem pyArith_whole {m : ℤ} (hx : wholeOf x = some m)
    (hy : wholeOf y = some n) : pyArith op x y = op.onInt m n := by
  simp only [pyArith, hx, hy]

theorem pyArith_double (hx : x.numeric = some p)
    (hy : y.numeric = some q) (hfloat : wholeOf x = none ∨ wholeOf y = none) :
    pyArith op x y = op.onRat p q := by grind [pyArith]

theorem pyArith_other (hnum : x.numeric = none ∨ y.numeric = none) :
    pyArith op x y = op.onOther x y := by
  unfold pyArith
  split
  · simp_all [numeric_of_wholeOf]
  split
  · simp_all
  · rfl

theorem binary_add {u v : DartValue} (h : (∀ s, u ≠ .str s) ∨ ∀ s, v ≠ .str s) :
    dart.binary .add u v = onNumbers (Num.onBoth (· + ·) Js.add) u v := by
  cases u with
  | str s =>
    cases v with
    | str t => exact (h.elim (fun h => h s rfl) fun h => h t rfl).elim
    | _ => rfl
  | _ => rfl

theorem ofJson_text (h : ofJson v = .str s) : v = .str s := by
  cases v <;> cases h
  rfl

theorem not_text (h : ¬IsText v) (s : String) : ofJson v ≠ .str s :=
  fun heq => h ⟨s, ofJson_text heq⟩

theorem text_not_numeric (h : v.numeric ≠ none) : ¬IsText v := by
  rintro ⟨s, rfl⟩
  exact h rfl

theorem add_agrees (h : OperandsFit .add x y) :
    dart.binary .add (ofJson x) (ofJson y) = (pyBinOp py .add x y).map ofJson := by
  obtain ⟨hinf, hlist⟩ := h
  by_cases htext : IsText x ∧ IsText y
  · obtain ⟨⟨s, rfl⟩, t, rfl⟩ := htext
    rfl
  have hnumbers : dart.binary .add (ofJson x) (ofJson y) =
      onNumbers (Num.onBoth (· + ·) Js.add) (ofJson x) (ofJson y) :=
    binary_add ((not_and_or.1 htext).imp not_text not_text)
  rw [hnumbers, pyBinOp]
  obtain ⟨m, n, hm, hn⟩ | ⟨p, q, hp, hq, hfloat⟩ | hnum := operand_kinds x y
  · rw [onNumbers_whole hm hn, pyArith_whole hm hn]
    rfl
  · rw [onNumbers_double hp hq hfloat, pyArith_double hp hq hfloat]
    rfl
  · rw [onNumbers_none hinf hnum, pyArith_other hnum]
    unfold Op.onOther
    split
    · exact (htext ⟨⟨_, rfl⟩, _, rfl⟩).elim
    · exact (hlist ⟨⟨_, rfl⟩, _, rfl⟩).elim
    · next hop => cases hop
    · rfl

theorem sub_agrees (h : OperandsFit .sub x y) :
    dart.binary .sub (ofJson x) (ofJson y) = (pyBinOp py .sub x y).map ofJson := by
  obtain ⟨hinf, -⟩ := h
  rw [binary, pyBinOp]
  obtain ⟨m, n, hm, hn⟩ | ⟨p, q, hp, hq, hfloat⟩ | hnum := operand_kinds x y
  · rw [onNumbers_whole hm hn, pyArith_whole hm hn]
    rfl
  · rw [onNumbers_double hp hq hfloat, pyArith_double hp hq hfloat]
    simp [Op.onRat, ofJson, Js.add, Js.neg, sub_eq_add_neg]
  · rw [onNumbers_none hinf hnum, pyArith_other hnum]
    rfl

theorem repeated_agrees (hy : wholeOf y = some n) :
    repeated s n =
      (if tooLong (.str s) y then none else VarCode.repeated n (.str s)).map ofJson := by
  rw [repeated, tooLong, hy, Option.any_some]
  by_cases hlong : MAX_STRING_MULTIPLY < n
  · rw [if_pos hlong, if_pos (decide_eq_true (show Formula.MAX_STRING_MULTIPLY < n from hlong))]
    rfl
  · have hfew : ¬Formula.MAX_STRING_MULTIPLY < n := hlong
    rw [if_neg hlong, if_neg fun h => hfew (of_decide_eq_true h)]
    by_cases hn : n ≤ 0
    · rw [if_pos hn, VarCode.repeated, Int.toNat_of_nonpos hn]
      rfl
    · rw [if_neg hn]
      rfl

theorem asInt_whole (hinf : ¬IsInf v) (hfloat : ¬IsFloat v) : asInt (ofJson v) = wholeOf v := by
  cases v with
  | inf neg => exact (hinf ⟨neg, rfl⟩).elim
  | float q => exact (hfloat ⟨q, rfl⟩).elim
  | null | bool _ | int _ | str _ | list _ | dict _ => rfl

theorem binary_mult {u v : DartValue} (hu : ∀ s, u ≠ .str s) (hv : ∀ s, v ≠ .str s) :
    dart.binary .mult u v = onNumbers (Num.onBoth (· * ·) Js.mul) u v := by
  cases u with
  | str s => exact (hu s rfl).elim
  | _ =>
    cases v with
    | str s => exact (hv s rfl).elim
    | _ => rfl

theorem tooLong_other (h : ¬IsText x) (y : Value) : tooLong x y = false := by
  cases x with
  | str s => exact (h ⟨s, rfl⟩).elim
  | _ => rfl

theorem mult_text (hinf : ¬IsInf y) (hfloat : ¬IsFloat y) :
    dart.binary .mult (.str s) (ofJson y) = (pyBinOp py .mult (.str s) y).map ofJson := by
  show (asInt (ofJson y)).bind (repeated s) = _
  have harith : pyArith .mul (.str s) y = Op.mul.onOther (.str s) y := pyArith_other (.inl rfl)
  rw [asInt_whole hinf hfloat, pyBinOp, harith]
  cases hn : wholeOf y with
  | some n =>
    have hno : tooLong y (.str s) = false := tooLong_other (text_not_numeric (by
      rw [numeric_of_wholeOf hn]
      rintro ⟨⟩)) _
    have hother : Op.mul.onOther (.str s) y = VarCode.repeated n (.str s) := by
      simp only [Op.onOther, hn]
    rw [hno, Bool.or_false, hother, Option.bind_some, repeated_agrees hn]
  | none => simp_all [Op.onOther, wholeOf]

theorem mult_text_right (htext : ¬IsText x) (hinf : ¬IsInf x) (hfloat : ¬IsFloat x) :
    dart.binary .mult (ofJson x) (.str s) = (pyBinOp py .mult x (.str s)).map ofJson := by
  have hleft : dart.binary .mult (ofJson x) (.str s) = (asInt (ofJson x)).bind (repeated s) := by
    cases x with
    | str t => exact (htext ⟨t, rfl⟩).elim
    | _ => rfl
  have harith : pyArith .mul x (.str s) = Op.mul.onOther x (.str s) := pyArith_other (.inr rfl)
  rw [hleft, asInt_whole hinf hfloat, pyBinOp, harith, tooLong_other htext, Bool.false_or]
  cases hm : wholeOf x with
  | some m =>
    have hother : Op.mul.onOther x (.str s) = VarCode.repeated m (.str s) := by
      simp only [Op.onOther, hm, show wholeOf (.str s) = none from rfl]
    rw [hother, Option.bind_some, repeated_agrees hm]
  | none => simp_all [Op.onOther, wholeOf]

theorem mult_agrees (h : OperandsFit .mult x y) :
    dart.binary .mult (ofJson x) (ofJson y) = (pyBinOp py .mult x y).map ofJson := by
  obtain ⟨hinf, ⟨hlist, hlist'⟩, hleft, hright⟩ := h
  by_cases hx : IsText x
  · obtain ⟨s, rfl⟩ := hx
    exact mult_text hinf.2 fun hy => hleft ⟨⟨s, rfl⟩, hy⟩
  by_cases hy : IsText y
  · obtain ⟨s, rfl⟩ := hy
    exact mult_text_right hx hinf.1 fun hx => hright ⟨hx, s, rfl⟩
  rw [binary_mult (not_text hx) (not_text hy), pyBinOp, tooLong_other hx, tooLong_other hy]
  show _ = Option.map ofJson (pyArith .mul x y)
  obtain ⟨m, n, hm, hn⟩ | ⟨p, q, hp, hq, hfloat⟩ | hnum := operand_kinds x y
  · rw [onNumbers_whole hm hn, pyArith_whole hm hn]
    rfl
  · rw [onNumbers_double hp hq hfloat, pyArith_double hp hq hfloat]
    rfl
  · have hrepeated : ∀ {v : Value} {n : ℤ}, ¬IsText v → ¬IsList v →
        VarCode.repeated n v = none := by
      intro v n htext hlist
      cases v with
      | str s => exact (htext ⟨s, rfl⟩).elim
      | list vs => exact (hlist ⟨vs, rfl⟩).elim
      | _ => rfl
    grind [onNumbers_none, pyArith_other, Op.onOther]

theorem div_agrees (h : OperandsFit .div x y) :
    dart.binary .div (ofJson x) (ofJson y) = (pyBinOp py .div x y).map ofJson := by
  obtain ⟨hinf, -⟩ := h
  rw [binary, pyBinOp]
  obtain ⟨m, n, hm, hn⟩ | ⟨p, q, hp, hq, hfloat⟩ | hnum := operand_kinds x y
  · rw [byNumber_whole hm hn, pyArith_whole hm hn, Op.onInt]
    split <;> rfl
  · obtain ⟨a, ha, hap⟩ := numeric_finite hp
    obtain ⟨b, hb, hbq⟩ := numeric_finite hq
    rw [byNumber, ha, hb, pyArith_double hp hq hfloat, Op.onRat]
    by_cases hzero : q = 0 <;> simp [hap, hbq, hzero, Js.div, ofJson]
  · rw [byNumber_none hinf hnum, pyArith_other hnum]
    rfl

theorem floorDiv_agrees (h : OperandsFit .floorDiv x y) :
    dart.binary .floorDiv (ofJson x) (ofJson y) = (pyBinOp py .floorDiv x y).map ofJson := by
  obtain ⟨hinf, -⟩ := h
  rw [binary, pyBinOp]
  obtain ⟨m, n, hm, hn⟩ | ⟨p, q, hp, hq, hfloat⟩ | hnum := operand_kinds x y
  · rw [byNumber_whole hm hn]
    simp only [pyFloorDiv, numeric_of_wholeOf hm, numeric_of_wholeOf hn, hm, hn, Int.cast_eq_zero]
    split <;> rfl
  · have hkind : ((wholeOf x).isSome && (wholeOf y).isSome) = false := by
      obtain hnone | hnone := hfloat <;> simp [hnone]
    rw [byNumber_double hp hq hfloat]
    simp only [pyFloorDiv, hp, hq, hkind]
    split <;> rfl
  grind [pyFloorDiv_none, byNumber_none]

theorem pyMod_numeric (hx : x.numeric = some p) (hy : y.numeric = some q) :
    pyMod py x y = if q = 0 then none else some (remainder p q (wholeOf x) (wholeOf y)) := by
  cases x with
  | str _ => cases hx
  | _ => simp only [pyMod, hx, hy]

theorem not_numbers (h : x.numeric = none ∨ y.numeric = none) :
    ¬∃ p q, x.numeric = some p ∧ y.numeric = some q := by grind

theorem plain_of (htext : ¬IsText v) (hinf : ¬IsInf v) : Plain v := by
  cases v with
  | str s => exact (htext ⟨s, rfl⟩).elim
  | inf neg => exact (hinf ⟨neg, rfl⟩).elim
  | _ => trivial

theorem mod_agrees (h : OperandsFit .mod x y) :
    dart.binary .mod (ofJson x) (ofJson y) = (pyBinOp py .mod x y).map ofJson := by
  obtain ⟨hinf, htext⟩ := h
  rw [binary, pyBinOp]
  obtain ⟨m, n, hm, hn⟩ | ⟨p, q, hp, hq, hfloat⟩ | hnum := operand_kinds x y
  · rw [byNumber_whole hm hn, pyMod_numeric (numeric_of_wholeOf hm) (numeric_of_wholeOf hn), hm, hn]
    by_cases hzero : n = 0
    · simp [hzero]
    · simp [hzero, remainder, Num.onBoth, ofJson, mul_comm]
  · have hkind : remainder p q (wholeOf x) (wholeOf y) = .float (p - q * ⌊p / q⌋) := by
      obtain hnone | hnone := hfloat
      · rw [hnone]
        rfl
      · rw [hnone]
        cases wholeOf x <;> rfl
    rw [byNumber_double hp hq hfloat, pyMod_numeric hp hq, hkind]
    by_cases hzero : q = 0
    · simp [hzero]
    · simp [hzero, ofJson, Js.add, Js.neg, Js.mul, Js.floor, Js.div, sub_eq_add_neg, mul_comm]
  grind [byNumber_none, pyMod_none, plain_of]

theorem ratPow_agrees (hpow : dart.powerOf = py.power)
    (hfit : (p = 0 → 0 ≤ q) ∧ (p < 0 → q.den = 1)) :
    (ratPow py.power p q).map F64.finite = some (pow dart.powerOf (.finite p) (.finite q)) := by
  obtain ⟨hzero, hneg⟩ := hfit
  show _ = some (Js.pow dart.powerOf (.finite p) (.finite q))
  grind [ratPow, Js.pow]

theorem powerNum_double (hpow : dart.powerOf = py.power) {n : Num}
    (hfit : (p = 0 → 0 ≤ q) ∧ (p < 0 → q.den = 1))
    (hn : n = .double (pow dart.powerOf (.finite p) (.finite q))) :
    some (DartValue.num n) = ((ratPow py.power p q).map Value.float).map ofJson := by
  have hrat := ratPow_agrees hpow hfit
  obtain ⟨r, hr, hpr⟩ := Option.map_eq_some_iff.1 hrat
  rw [hn, ← hpr, hr]
  rfl

theorem pow_agrees (hpow : dart.powerOf = py.power) (h : OperandsFit .pow x y) :
    dart.binary .pow (ofJson x) (ofJson y) = (pyBinOp py .pow x y).map ofJson := by
  obtain ⟨hinf, hfit⟩ := h
  rw [binary, pyBinOp]
  by_cases hnum : x.numeric = none ∨ y.numeric = none
  · rw [pyPow_none (not_numbers hnum)]
    obtain hx | hy := hnum
    · rw [numeric_none hx hinf.1]
      rfl
    · rw [numeric_none hy hinf.2]
      cases numeric (ofJson x) <;> rfl
  obtain ⟨hx, hy⟩ := not_or.1 hnum
  obtain ⟨p, hp⟩ := Option.ne_none_iff_exists'.1 hx
  obtain ⟨q, hq⟩ := Option.ne_none_iff_exists'.1 hy
  obtain ⟨a, ha, hap⟩ := numeric_finite hp
  obtain ⟨b, hb, hbq⟩ := numeric_finite hq
  have hlarge : Js.lt MAX_POW_EXPONENT b.toDouble = decide (Formula.MAX_POW_EXPONENT < q) := by
    rw [hbq]
    rfl
  rw [ha, hb]
  simp only [Option.bind_eq_bind, Option.bind_some, hlarge, pyPow, hp, hq]
  by_cases hle : Formula.MAX_POW_EXPONENT < q
  · simp [hle]
  simp only [hle, decide_false, if_false, Bool.false_eq_true]
  have hpq := hfit p q hp hq (not_lt.1 hle)
  obtain ⟨m, n, hm, hn⟩ | ⟨p', q', hp', hq', hfloat⟩ | hnone := operand_kinds x y
  · obtain rfl : Num.int m = a := Option.some.inj ((numeric_whole hm).symm.trans ha)
    obtain rfl : Num.int n = b := Option.some.inj ((numeric_whole hn).symm.trans hb)
    simp only [hm, hn, powerNum]
    split
    · rfl
    · exact powerNum_double hpow hpq (by rw [← hap, ← hbq]; rfl)
  · have hkind : dart.powerNum a b = .double (pow dart.powerOf (.finite p) (.finite q)) := by
      rw [← hap, ← hbq]
      obtain hnone | hnone := hfloat
      · obtain rfl := Option.some.inj ((numeric_float hp hnone).symm.trans ha)
        rfl
      · obtain rfl := Option.some.inj ((numeric_float hq hnone).symm.trans hb)
        cases a <;> rfl
    split
    · simp_all
    · exact powerNum_double hpow hpq hkind
  · exact (hnum hnone).elim

theorem binary_agrees (hpow : dart.powerOf = py.power) {op : BinOp} (h : OperandsFit op x y) :
    dart.binary op (ofJson x) (ofJson y) = (pyBinOp py op x y).map ofJson := by
  cases op with
  | add => exact add_agrees h
  | sub => exact sub_agrees h
  | mult => exact mult_agrees h
  | div => exact div_agrees h
  | floorDiv => exact floorDiv_agrees h
  | mod => exact mod_agrees h
  | pow => exact pow_agrees hpow h

theorem truthy_ofJson (v : Value) : truthy (ofJson v) = v.truthy := by
  cases v with
  | null | bool _ | str _ => rfl
  | inf neg => simp [ofJson, truthy, Value.truthy, Num.toDouble]
  | int n => by_cases hn : n = 0 <;> simp [ofJson, truthy, Value.truthy, Num.toDouble, hn]
  | float q => by_cases hq : q = 0 <;> simp [ofJson, truthy, Value.truthy, Num.toDouble, hq]
  | list vs => cases vs <;> rfl
  | dict kvs => cases kvs <;> rfl

def UnaryFits (op : UnaryOp) (x : Value) : Prop := op = .not ∨ ¬IsInf x

theorem unary_agrees {op : UnaryOp} (h : UnaryFits op x) :
    unary op (ofJson x) = (pyUnaryOp op x).map ofJson := by
  cases op with
  | not => simp [unary, pyUnaryOp, ofJson, truthy_ofJson]
  | uSub | uAdd =>
    have hinf : ¬IsInf x := h.resolve_left (by rintro ⟨⟩)
    cases x with
    | inf neg => exact (hinf ⟨neg, rfl⟩).elim
    | bool a => cases a <;> rfl
    | null | int _ | float _ | str _ | list _ | dict _ => rfl

/-! ### Comparisons -/

mutual

/-- Values whose comparison comes to no two objects, which the device takes for equal only if they
    are one. -/
def EqFits : Value → Value → Prop
  | .dict _, .dict _ => False
  | .list vs, .list ws => vs.length = ws.length → EqItemsFit vs ws
  | _, _ => True

def EqItemsFit : List Value → List Value → Prop
  | v :: vs, w :: ws => EqFits v w ∧ (pyEq v w = true → EqItemsFit vs ws)
  | _, _ => True

end

theorem length_ofJsonItems (vs : List Value) : (ofJsonItems vs).length = vs.length := by
  induction vs with
  | nil => rfl
  | cons v vs ih => rw [ofJsonItems, List.length_cons, ih, List.length_cons]

theorem pyEqList_length {vs ws : List Value} (h : pyEqList vs ws = true) :
    vs.length = ws.length := by
  induction vs generalizing ws with
  | nil =>
    cases ws with
    | nil => rfl
    | cons w ws => cases h
  | cons v vs ih =>
    cases ws with
    | nil => cases h
    | cons w ws =>
      rw [pyEqList, Bool.and_eq_true] at h
      rw [List.length_cons, List.length_cons, ih h.2]

theorem eq_finite (p q : ℚ) : Js.eq (.finite p) (.finite q) = decide (p = q) := by
  simp [Js.eq]

theorem pyEquals_numbers (hx : x.numeric = some p)
    (hy : y.numeric = some q) : dart.pyEquals (ofJson x) (ofJson y) = pyEq x y := by
  obtain ⟨a, ha, hap⟩ := numeric_finite hx
  obtain ⟨b, hb, hbq⟩ := numeric_finite hy
  have hdouble : dart.pyEquals (ofJson x) (ofJson y) = Js.eq a.toDouble b.toDouble := by
    have hda : asDouble (ofJson x) = some a.toDouble := by rw [asDouble, ha]; rfl
    have hdb : asDouble (ofJson y) = some b.toDouble := by rw [asDouble, hb]; rfl
    cases x with
    | bool _ | int _ | float _ => simp_all [ofJson, pyEquals]
    | null | inf _ | str _ | list _ | dict _ => cases hx
  rw [hdouble, hap, hbq, eq_finite, pyEq_numbers hx hy]

theorem pyEquals_other (hnum : ¬∃ p q, x.numeric = some p ∧ y.numeric = some q)
    (hlist : ¬(IsList x ∧ IsList y)) (hdict : ¬(IsDict x ∧ IsDict y)) :
    dart.pyEquals (ofJson x) (ofJson y) = pyEq x y := by
  cases x with
  | null | str _ => cases y <;> simp [ofJson, pyEquals, pyEq, asDouble, numeric]
  | inf a =>
    cases y with
    | inf b =>
      cases a <;> cases b <;> simp [ofJson, pyEquals, pyEq, asDouble, numeric, Num.toDouble, Js.eq]
    | null | bool _ | int _ | float _ | str _ | list _ | dict _ =>
      simp [ofJson, pyEquals, pyEq, asDouble, numeric, Num.toDouble, Js.eq]
  | bool _ | int _ | float _ =>
    cases y with
    | bool _ | int _ | float _ => exact (hnum ⟨_, _, rfl, rfl⟩).elim
    | null | inf _ | str _ | list _ | dict _ =>
      simp [ofJson, pyEquals, pyEq, asDouble, numeric, Num.toDouble, Js.eq, Value.numeric]
  | list vs =>
    cases y with
    | list ws => exact (hlist ⟨⟨vs, rfl⟩, ws, rfl⟩).elim
    | null | bool _ | int _ | float _ | inf _ | str _ | dict _ =>
      simp [ofJson, pyEquals, pyEq, asDouble, numeric]
  | dict kvs =>
    cases y with
    | dict lvs => exact (hdict ⟨⟨kvs, rfl⟩, lvs, rfl⟩).elim
    | null | bool _ | int _ | float _ | inf _ | str _ | list _ =>
      simp [ofJson, pyEquals, pyEq, asDouble, numeric]

mutual

theorem pyEquals_agrees {x y : Value} (h : EqFits x y) :
    dart.pyEquals (ofJson x) (ofJson y) = pyEq x y := by
  by_cases hnum : ∃ p q, x.numeric = some p ∧ y.numeric = some q
  · grind -ring -linarith [pyEquals_numbers]
  have hdict : ¬(IsDict x ∧ IsDict y) := by
    rintro ⟨⟨kvs, rfl⟩, lvs, rfl⟩
    exact h
  cases x with
  | list vs =>
    cases y with
    | list ws =>
      rw [ofJson, ofJson, pyEquals, pyEq, length_ofJsonItems, length_ofJsonItems]
      by_cases hlen : vs.length = ws.length
      · rw [beq_iff_eq.2 hlen, Bool.true_and]
        exact pyEqualsItems_agrees (h hlen) hlen
      · rw [beq_eq_false_iff_ne.2 hlen, Bool.false_and]
        grind -ring -linarith [pyEqList_length]
    | null | bool _ | int _ | float _ | inf _ | str _ | dict _ =>
      exact pyEquals_other hnum (by rintro ⟨-, _, ⟨⟩⟩) hdict
  | null | bool _ | int _ | float _ | inf _ | str _ | dict _ =>
    exact pyEquals_other hnum (by rintro ⟨⟨_, ⟨⟩⟩, -⟩) hdict

theorem pyEqualsItems_agrees {vs ws : List Value} (h : EqItemsFit vs ws)
    (hlen : vs.length = ws.length) :
    dart.pyEqualsItems (ofJsonItems vs) (ofJsonItems ws) = pyEqList vs ws := by
  match vs, ws with
  | [], [] => rfl
  | v :: vs, w :: ws =>
    obtain ⟨hv, hvs⟩ := h
    rw [ofJsonItems, ofJsonItems, pyEqualsItems, pyEqList, pyEquals_agrees hv]
    cases heq : pyEq v w with
    | false => rfl
    | true => rw [pyEqualsItems_agrees (hvs heq) (Nat.succ.inj hlen)]

end

/-- A character of two code units, and one of a single unit that comes after them. -/
def Crossed (c d : Char) : Prop := 65536 ≤ c.toNat ∧ 57344 ≤ d.toNat ∧ d.toNat < 65536

/-- Texts whose first difference is no character of two code units against one that comes after
    its units, but before it. -/
def OrderFits : List Char → List Char → Prop
  | c :: cs, d :: ds => if c = d then OrderFits cs ds else ¬Crossed c d ∧ ¬Crossed d c
  | _, _ => True

theorem OrderFits.symm {cs ds : List Char} (h : OrderFits cs ds) : OrderFits ds cs := by
  induction cs generalizing ds with
  | nil => cases ds <;> trivial
  | cons c cs ih =>
    cases ds with
    | nil => trivial
    | cons d ds => grind [OrderFits]

theorem char_range (c : Char) : c.toNat < 55296 ∨ 57343 < c.toNat ∧ c.toNat < 1114112 := c.valid

theorem codeUnits_lt {c d : Char} (hne : c ≠ d) (h : ¬Crossed c d ∧ ¬Crossed d c)
    (us vs : List ℕ) : codeUnits c ++ us < codeUnits d ++ vs ↔ c < d := by
  have hval : c.toNat ≠ d.toNat := fun heq => hne (Char.toNat_inj.1 heq)
  have hlt : c < d ↔ c.toNat < d.toNat := Iff.rfl
  obtain ⟨hcd, hdc⟩ := h
  simp only [Crossed, not_and] at hcd hdc
  have hc := char_range c
  have hd := char_range d
  rw [hlt, codeUnits, codeUnits]
  split
  · grind -ring -linarith [List.cons_lt_cons_iff]
  · split
    · simp only [List.cons_append, List.nil_append, List.cons_lt_cons_iff]
      omega
    · simp only [List.cons_append, List.nil_append, List.cons_lt_cons_iff]
      omega

theorem codeUnits_cons (c : Char) : ∃ u us, codeUnits c = u :: us := by
  unfold codeUnits
  split
  · exact ⟨_, _, rfl⟩
  · exact ⟨_, _, rfl⟩

theorem append_lt_append (us : List ℕ) {vs ws : List ℕ} : us ++ vs < us ++ ws ↔ vs < ws := by
  induction us with
  | nil => exact Iff.rfl
  | cons u us ih => simp [ih]

theorem units_lt {cs ds : List Char} (h : OrderFits cs ds) :
    cs.flatMap codeUnits < ds.flatMap codeUnits ↔ cs < ds := by
  induction cs generalizing ds with
  | nil =>
    cases ds with
    | nil => simp
    | cons d ds =>
      obtain ⟨u, us, hd⟩ := codeUnits_cons d
      simp [List.flatMap_cons, hd]
  | cons c cs ih =>
    cases ds with
    | nil => simp
    | cons d ds =>
      rw [OrderFits] at h
      rw [List.flatMap_cons, List.flatMap_cons, List.cons_lt_cons_iff]
      by_cases hcd : c = d
      · subst hcd
        rw [if_pos rfl] at h
        rw [append_lt_append, ih h]
        simp
      simp_all [codeUnits_lt]

def ordering (less more : Bool) : Ordering := if less then .lt else if more then .gt else .eq

theorem compareTexts_agrees {t : String} (h : OrderFits s.toList t.toList) :
    compareTexts s t = ordering (decide (s < t)) (decide (t < s)) := by
  have hlt : s.toList.flatMap codeUnits < t.toList.flatMap codeUnits ↔ s < t :=
    (units_lt h).trans String.lt_iff.symm
  have hgt : t.toList.flatMap codeUnits < s.toList.flatMap codeUnits ↔ t < s :=
    (units_lt h.symm).trans String.lt_iff.symm
  simp only [compareTexts, compareOfLessAndEq, ordering, decide_eq_true_eq]
  grind

/-- Values that are ordered alike: no infinity, no two lists, and texts whose order is one. -/
def CompareFits (op : CmpOp) (x y : Value) : Prop :=
  match op with
  | .eq | .notEq => EqFits x y
  | _ => (¬IsInf x ∧ ¬IsInf y) ∧ ¬(IsList x ∧ IsList y) ∧
    ∀ s t, x = .str s → y = .str t → OrderFits s.toList t.toList

theorem pyCompare_numbers (hx : x.numeric = some p) (hy : y.numeric = some q) :
    pyCompare (ofJson x) (ofJson y) = some (ordering (decide (p < q)) (decide (q < p))) := by
  obtain ⟨a, ha, hap⟩ := numeric_finite hx
  obtain ⟨b, hb, hbq⟩ := numeric_finite hy
  have hda : asDouble (ofJson x) = some (.finite p) := by rw [asDouble, ha, ← hap]; rfl
  have hdb : asDouble (ofJson y) = some (.finite q) := by rw [asDouble, hb, ← hbq]; rfl
  have hdouble : pyCompare (ofJson x) (ofJson y) =
      (asDouble (ofJson x)).bind fun p => (asDouble (ofJson y)).bind fun q =>
        some (compareDoubles p q) := by
    cases x with
    | str _ => cases hx
    | _ => rfl
  rw [hdouble, hda, hdb]
  rfl

theorem pyCompare_none (hinf : ¬IsInf x ∧ ¬IsInf y)
    (hnum : x.numeric = none ∨ y.numeric = none) (htext : ¬(IsText x ∧ IsText y)) :
    pyCompare (ofJson x) (ofJson y) = none := by
  have hdouble : pyCompare (ofJson x) (ofJson y) =
      (asDouble (ofJson x)).bind fun p => (asDouble (ofJson y)).bind fun q =>
        some (compareDoubles p q) := by
    cases x with
    | str s =>
      cases y with
      | str t => exact (htext ⟨⟨s, rfl⟩, t, rfl⟩).elim
      | _ => rfl
    | _ => rfl
  rw [hdouble, asDouble, asDouble]
  obtain hx | hy := hnum
  · rw [numeric_none hx hinf.1]
    rfl
  · rw [numeric_none hy hinf.2]
    cases numeric (ofJson x) <;> rfl

theorem pyLess_other (hnum : x.numeric = none ∨ y.numeric = none)
    (htext : ¬(IsText x ∧ IsText y)) (hlist : ¬(IsList x ∧ IsList y)) :
    pyLess x y = none ∧ pyLessEq x y = none := by
  have hnone := not_numbers hnum
  cases x with
  | str s =>
    cases y with
    | str t => exact (htext ⟨⟨s, rfl⟩, t, rfl⟩).elim
    | _ => exact ⟨rfl, rfl⟩
  | list vs =>
    cases y with
    | list ws => exact (hlist ⟨⟨vs, rfl⟩, ws, rfl⟩).elim
    | _ => exact ⟨rfl, rfl⟩
  | null | inf _ | dict _ => cases y <;> exact ⟨rfl, rfl⟩
  | bool _ | int _ | float _ =>
    cases y with
    | bool _ | int _ | float _ => exact (hnone ⟨_, _, rfl, rfl⟩).elim
    | _ => exact ⟨rfl, rfl⟩

theorem pyCompare_agrees (hinf : ¬IsInf x ∧ ¬IsInf y) (hlist : ¬(IsList x ∧ IsList y))
    (htexts : ∀ s t, x = .str s → y = .str t → OrderFits s.toList t.toList) :
    (pyCompare (ofJson x) (ofJson y)).map Ordering.isLT = pyLess x y ∧
      (pyCompare (ofJson x) (ofJson y)).map Ordering.isLE = pyLessEq x y ∧
      (pyCompare (ofJson x) (ofJson y)).map Ordering.isGT = pyLess y x ∧
      (pyCompare (ofJson x) (ofJson y)).map Ordering.isGE = pyLessEq y x := by
  by_cases htext : IsText x ∧ IsText y
  · obtain ⟨⟨s, rfl⟩, t, rfl⟩ := htext
    have hcompare : pyCompare (ofJson (.str s)) (ofJson (.str t)) =
        some (ordering (decide (s < t)) (decide (t < s))) := by
      rw [← compareTexts_agrees (htexts s t rfl rfl)]
      rfl
    have hboth : ¬(s < t ∧ t < s) := fun h => String.lt_asymm h.1 h.2
    rw [hcompare]
    simp only [Option.map_some, pyLess, pyLessEq, ordering]
    by_cases hst : s < t
    · simp_all
    · by_cases hts : t < s <;> simp [hst, hts]
  by_cases hnum : x.numeric = none ∨ y.numeric = none
  · obtain ⟨hlt, hle⟩ := pyLess_other hnum htext hlist
    obtain ⟨hgt, hge⟩ := pyLess_other hnum.symm (fun h => htext h.symm) fun h => hlist h.symm
    simp only [pyCompare_none hinf hnum htext, Option.map_none, hlt, hle, hgt, hge, and_self]
  · obtain ⟨hx, hy⟩ := not_or.1 hnum
    obtain ⟨p, hp⟩ := Option.ne_none_iff_exists'.1 hx
    obtain ⟨q, hq⟩ := Option.ne_none_iff_exists'.1 hy
    rw [pyCompare_numbers hp hq, pyLess_numeric hp hq, pyLess_numeric hq hp,
      pyLessEq_numeric hp hq, pyLessEq_numeric hq hp]
    simp only [Option.map_some, ordering, decide_eq_true_eq]
    obtain hlt | rfl | hgt := lt_trichotomy p q
    · simp [hlt, hlt.le, not_lt.2 hlt.le, not_le.2 hlt]
    · simp
    · simp [hgt, hgt.le, not_lt.2 hgt.le, not_le.2 hgt]

theorem passed_agrees {op : CmpOp} (h : CompareFits op x y) :
    dart.passed op (ofJson x) (ofJson y) = pyCompareOp op x y := by
  cases op with
  | eq => rw [passed, pyEquals_agrees h, pyCompareOp]
  | notEq => rw [passed, pyEquals_agrees h, pyCompareOp]
  | lt => exact (pyCompare_agrees h.1 h.2.1 h.2.2).1
  | ltE => exact (pyCompare_agrees h.1 h.2.1 h.2.2).2.1
  | gt => exact (pyCompare_agrees h.1 h.2.1 h.2.2).2.2.1
  | gtE => exact (pyCompare_agrees h.1 h.2.1 h.2.2).2.2.2

/-! ### Trees -/

section Trees
variable (py : Python) (functions : Functions)
  (dartFunctions : String → Option (List DartValue → Option DartValue)) (context : Dict) (k : ℕ)

/-- A chain of comparisons fits as long as they hold. -/
def ChainFits (visit : Expr → Option Value) (fits : Expr → Prop) :
    Value → List CmpOp → List Expr → Prop
  | left, op :: ops, e :: es => fits e ∧ ∀ v, visit e = some v → CompareFits op left v ∧
    (pyCompareOp op left v = some true → ChainFits visit fits v ops es)
  | _, _, _ => True

/-- A formula on which the device follows the server: it has `n` evaluations open at most, where
    the server has `k` more, and what the server evaluates fits. -/
def Fits : ℕ → Expr → Prop
  | 0, _ => False
  | _ + 1, .constant v => ∀ s, keywordName v = some s → context.lookup s = some v
  | _ + 1, .name _ => True
  | n + 1, .binOp left op right => Fits n left ∧
    ∀ x, visit py functions context (k + n) left = some x → Fits n right ∧
      ∀ y, visit py functions context (k + n) right = some y → OperandsFit op x y
  | n + 1, .unaryOp op operand => Fits n operand ∧
    ∀ x, visit py functions context (k + n) operand = some x → UnaryFits op x
  | n + 1, .boolOp _ values => values ≠ [] ∧
    FitAll (visit py functions context (k + n)) (Fits n) (fun _ => True) values
  | n + 1, .compare left ops comparators => Fits n left ∧
    ∀ x, visit py functions context (k + n) left = some x →
      ChainFits (visit py functions context (k + n)) (Fits n) x ops comparators
  | n + 1, .ifExp test body orelse => Fits n test ∧
    ∀ c, visit py functions context (k + n) test = some c →
      (c.truthy = true → Fits n body) ∧ (c.truthy = false → Fits n orelse)
  | n + 1, .call func args => ∃ f g, functions func = some f ∧ dartFunctions func = some g ∧
    FitAll (visit py functions context (k + n)) (Fits n) (fun _ => True) args ∧
    ∀ vs, args.mapM (visit py functions context (k + n)) = some vs →
      g (ofJsonItems vs) = (f vs).map ofJson
  | n + 1, .list elts => FitAll (visit py functions context (k + n)) (Fits n) (fun _ => True) elts

end Trees

section Evaluation
variable {functions : Functions}
  {dartFunctions : String → Option (List DartValue → Option DartValue)} {context : Dict} {k n : ℕ}

theorem lookup_ofJson (name : String) :
    (ofJsonFields context).lookup name = (context.lookup name).map ofJson := by
  induction context with
  | nil => rfl
  | cons kv context ih => grind [ofJsonFields]

section Lists
variable {server : Expr → Option Value} {device : Expr → Option DartValue} {fits : Expr → Prop}

theorem mapM_agrees {es : List Expr}
    (heval : ∀ e, fits e → device (asRead e) = (server e).map ofJson)
    (h : FitAll server fits (fun _ => True) es) :
    (asReadAll es).mapM device = (es.mapM server).map ofJsonItems := by
  induction es with
  | nil => rfl
  | cons e es ih =>
    obtain ⟨he, hes⟩ := h
    rw [asReadAll, List.mapM_cons, List.mapM_cons, heval e he]
    cases hv : server e with
    | none => rfl
    | some v =>
      simp only [Option.map_some, Option.bind_eq_bind, Option.bind_some, ih (hes v hv).2]
      cases es.mapM server <;> rfl

theorem chain_agrees {ops : List CmpOp} {es : List Expr}
    (heval : ∀ e, fits e → device (asRead e) = (server e).map ofJson) {left : Value}
    (h : ChainFits server fits left ops es) :
    dart.evalCompares device (ofJson left) ops (asReadAll es) =
      (compareChain server left ops es).map ofJson := by
  induction ops generalizing left es with
  | nil => cases es <;> rfl
  | cons op ops ih =>
    cases es with
    | nil => rfl
    | cons e es =>
      obtain ⟨he, hes⟩ := h
      rw [asReadAll, evalCompares, compareChain, heval e he]
      cases hv : server e with
      | none => rfl
      | some v =>
        obtain ⟨hfit, hholds⟩ := hes v hv
        simp only [Option.map_some, Option.bind_eq_bind, Option.bind_some, passed_agrees hfit]
        cases hop : pyCompareOp op left v with
        | none => rfl
        | some holds =>
          cases holds with
          | true => exact ih (hholds hop)
          | false => rfl

end Lists

theorem selected_agrees {op : BoolOp} {vs : List Value} (hne : vs ≠ []) :
    selected op (ofJsonItems vs) = some (ofJson (pyBoolOp op vs)) := by
  induction vs with
  | nil => exact absurd rfl hne
  | cons v vs ih =>
    cases vs with
    | nil =>
      cases op with
      | and => cases hv : truthy (ofJson v) <;> simp [ofJsonItems, selected, pyBoolOp, hv]
      | or => cases hv : truthy (ofJson v) <;> simp [ofJsonItems, selected, pyBoolOp, hv]
    | cons w vs =>
      have hrest := ih (List.cons_ne_nil _ _)
      cases op with
      | and =>
        rw [ofJsonItems, selected, List.find?_cons, truthy_ofJson, pyBoolOp]
        · cases hv : v.truthy with
          | true =>
            rw [selected, ofJsonItems] at hrest
            simpa [ofJsonItems, List.getLast?_cons_cons] using hrest
          | false => rfl
        · simp
      | or =>
        rw [ofJsonItems, selected, List.find?_cons, truthy_ofJson, pyBoolOp]
        · cases hv : v.truthy with
          | true => rfl
          | false =>
            rw [selected, ofJsonItems] at hrest
            simpa [ofJsonItems, List.getLast?_cons_cons] using hrest
        · simp

theorem eval_visit (hpow : dart.powerOf = py.power) {e : Expr}
    (h : Fits py functions dartFunctions context k n e) :
    dart.eval dartFunctions (ofJsonFields context) n (asRead e) =
      (visit py functions context (k + n) e).map ofJson := by
  induction n generalizing e with
  | zero => exact h.elim
  | succ n ih =>
    cases e with
    | constant v =>
      rw [asRead]
      cases hv : keywordName v with
      | none => rfl
      | some s =>
        show (ofJsonFields context).lookup s = some (ofJson v)
        rw [lookup_ofJson, h s hv]
        rfl
    | name id => exact lookup_ofJson id
    | binOp left op right =>
      obtain ⟨hleft, hright⟩ := h
      rw [asRead, eval, Nat.add_succ k n, visit, ih hleft]
      cases hx : visit py functions context (k + n) left with
      | none => rfl
      | some x =>
        obtain ⟨hfits, hoperands⟩ := hright x hx
        simp only [Option.map_some, Option.bind_eq_bind, Option.bind_some, ih hfits]
        cases hy : visit py functions context (k + n) right with
        | none => rfl
        | some y => exact binary_agrees hpow (hoperands y hy)
    | unaryOp op operand =>
      obtain ⟨hoperand, hfit⟩ := h
      rw [asRead, eval, Nat.add_succ k n, visit, ih hoperand]
      cases hx : visit py functions context (k + n) operand with
      | none => rfl
      | some x => exact unary_agrees (hfit x hx)
    | boolOp op values =>
      obtain ⟨hne, hvalues⟩ := h
      rw [asRead, eval, Nat.add_succ k n, visit, mapM_agrees (fun e he => ih he) hvalues]
      cases hvs : values.mapM (visit py functions context (k + n)) with
      | none => rfl
      | some vs =>
        have hvs_ne : vs ≠ [] := by
          rintro rfl
          cases values with
          | nil => exact hne rfl
          | cons e es => simp [Option.bind_eq_some_iff] at hvs
        exact selected_agrees hvs_ne
    | compare left ops comparators =>
      obtain ⟨hleft, hchain⟩ := h
      rw [asRead, eval, Nat.add_succ k n, visit, ih hleft]
      cases hx : visit py functions context (k + n) left with
      | none => rfl
      | some x => exact chain_agrees (fun e he => ih he) (hchain x hx)
    | ifExp test body orelse =>
      obtain ⟨htest, hbranch⟩ := h
      rw [asRead, eval, Nat.add_succ k n, visit, ih htest]
      cases hc : visit py functions context (k + n) test with
      | none => rfl
      | some c => grind -ring -linarith [truthy_ofJson]
    | call func args =>
      obtain ⟨f, g, hf, hg, hargs, hsame⟩ := h
      rw [asRead, eval, Nat.add_succ k n, visit, hf, hg, mapM_agrees (fun e he => ih he) hargs]
      cases hvs : args.mapM (visit py functions context (k + n)) with
      | none => rfl
      | some vs => exact hsame vs hvs
    | list elts =>
      rw [asRead, eval, Nat.add_succ k n, visit, mapM_agrees (fun e he => ih he) h]
      cases elts.mapM (visit py functions context (k + n)) <;> rfl

/-- A text of at most 10000 code units, written plainly and nested no deeper than the parser goes,
    that fits: the device has a value for it exactly if the server has one, and it is the same. -/
theorem evaluateFormula_agrees (hpow : dart.powerOf = py.power) {formula : List Char}
    {toks : List Token} {e : Expr} (hlength : Browser.utf16Length formula ≤ 10000)
    (hparse : AstParse py style 65 formula toks e) (hascii : ∀ t ∈ toks, AsciiName t)
    (hfits : Fits py functions dartFunctions context k 65 e) :
    dart.evaluateFormula dartFunctions (ofJsonFields context) formula =
      (visit py functions context (k + 65) e).map ofJson := by
  obtain ⟨hlex, hreads⟩ := hparse
  have htokens : tokenize (formula.length + 1) formula = some (toks.map ofToken) :=
    tokenize_lex hlex (Nat.lt_succ_self _) (hreads.allowed (by simp)) hascii hreads.spaced
  have htree : parseExpression (MAX_DEPTH + 1) (toks.map ofToken) = some (asRead e, []) :=
    parser_reads hreads fun _ _ => by rintro ⟨⟩
  have hshort : ¬MAX_SOURCE_LENGTH < Browser.utf16Length formula := not_lt.2 hlength
  rw [evaluateFormula, if_neg hshort, htokens, Option.bind_eq_bind, Option.bind_some, htree]
  exact eval_visit hpow hfits

end Evaluation

/-! ### Constants and brackets -/

def plainDart : Dart := ⟨fun _ _ => 0, fun _ _ => false⟩

def bracketsText : List Char := "((((((1))))))".toList

def bracketsTokens : List Token :=
  List.replicate 6 (Token.op "(") ++ Token.num ['1'] :: List.replicate 6 (Token.op ")")

theorem brackets_parse :
    AstParse plainPython .python 70 bracketsText bracketsTokens (.constant (.int 1)) := by
  have hone : Reads .python 10 .expression (.num ['1'] :: List.replicate 6 (.op ")"))
      (.constant (.int 1)) (List.replicate 6 (.op ")")) :=
    (Reads.num trivial : Reads .python 1 .atom _ (.constant (literalValue ['1'])) _).alone
      (by simp) (.inr ⟨_, rfl⟩)
  have hfive := ((((hone.inBrackets (.inr ⟨_, rfl⟩)).inBrackets (.inr ⟨_, rfl⟩)).inBrackets
    (.inr ⟨_, rfl⟩)).inBrackets (.inr ⟨_, rfl⟩)).inBrackets (.inr ⟨_, rfl⟩)
  exact ⟨by decide +kernel, hfive.inBrackets (.inl rfl)⟩

theorem true_parse : AstParse plainPython .python 10 "True".toList [.name "True"]
    (.constant (.bool true)) := by
  have hatom : Reads .python 1 .atom [.name "True"] (.constant (.bool true)) [] := .keyword rfl
  exact ⟨by decide +kernel, hatom.alone (by simp) (.inl rfl)⟩

/-- The server has a value for `True`, and for a number in six pairs of brackets. -/
theorem constants_refused :
    (AstParse plainPython .python 10 "True".toList [.name "True"] (.constant (.bool true)) ∧
      visit plainPython (fun _ => none) [] 1 (.constant (.bool true)) = some (.bool true) ∧
      plainDart.evaluateFormula (fun _ => none) [] "True".toList = none) ∧
    AstParse plainPython .python 70 bracketsText bracketsTokens (.constant (.int 1)) ∧
      visit plainPython (fun _ => none) [] 1 (.constant (.int 1)) = some (.int 1) ∧
      plainDart.evaluateFormula (fun _ => none) [] bracketsText = none :=
  ⟨⟨true_parse, rfl, by decide +kernel⟩, brackets_parse, rfl, by decide +kernel⟩

/-- With 2 for `x` both have a half. -/
theorem guarded_on_device :
    plainDart.evaluateFormula (fun _ => none) (ofJsonFields [("x", .int 2)]) guardedText =
      (visit plainPython (fun _ => none) [("x", .int 2)] (0 + 65) guardedTree).map ofJson := by
  have hplain : ∀ lit ∈ [['0'], ['1']], style.number lit := by
    intro lit hlit
    simp only [List.mem_cons, List.not_mem_nil, or_false] at hlit
    obtain rfl | rfl := hlit <;> simp [style]
  obtain ⟨hlex, hreads⟩ := guarded_parse hplain
  refine evaluateFormula_agrees rfl (by decide) ⟨hlex, hreads.mono (by decide)⟩ ?_ ?_
  · intro t ht
    simp only [guardedTokens, List.mem_cons, List.not_mem_nil, or_false] at ht
    obtain rfl | rfl | rfl | rfl | rfl | rfl | rfl | rfl | rfl := ht <;> simp [AsciiName]
  · refine ⟨⟨trivial, fun x hx => ⟨by rintro s ⟨⟩, fun v hv => ⟨?_, ?_⟩⟩⟩, fun c hc => ⟨?_, ?_⟩⟩
    · obtain rfl : Value.int 2 = x := Option.some.inj hx
      obtain rfl : Value.int 0 = v := Option.some.inj hv
      trivial
    · exact fun _ => trivial
    · refine fun _ => ⟨by rintro s ⟨⟩, fun x hx => ⟨trivial, fun y hy => ?_⟩⟩
      obtain rfl : Value.int 1 = x := Option.some.inj hx
      obtain rfl : Value.int 2 = y := Option.some.inj hy
      exact ⟨⟨by rintro ⟨_, ⟨⟩⟩, by rintro ⟨_, ⟨⟩⟩⟩, trivial⟩
    · exact fun _ => by rintro s ⟨⟩

end RuleMind.Formula.Dart
