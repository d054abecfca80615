/-
  The values and the numbers of the machines that run the code of a variable.
-/
import RuleMind.VariableCode

namespace RuleMind.VarCode

/-! ### Values -/

/-- The same value, where integers may have become floats. -/
def Like (v w : Value) : Prop := v = w ∨ ∃ n : ℤ, v = .int n ∧ w = .float n

theorem Like.refl (v : Value) : Like v v := Or.inl rfl

variable {w v u : Value} {q : ℚ}

theorem Like.of_str {s : String} (h : Like (.str s) w) : w = .str s := by
  obtain rfl | ⟨_, hv, _⟩ := h
  · rfl
  · cases hv

theorem Like.of_dict {kvs : Dict} (h : Like (.dict kvs) w) : w = .dict kvs := by
  obtain rfl | ⟨_, hv, _⟩ := h
  · rfl
  · cases hv

theorem Like.of_null (h : Like .null w) : w = .null := by
  obtain rfl | ⟨_, hv, _⟩ := h
  · rfl
  · cases hv

/-! ### Exact numbers -/

def Op.exact : Op → ℚ → ℚ → ℚ
  | add, p, q => p + q
  | sub, p, q => p - q
  | mul, p, q => p * q
  | div, p, q => p / q

theorem numeric_of_wholeOf {n : ℤ} (h : wholeOf v = some n) : v.numeric = some (n : ℚ) := by
  cases v with
  | bool b => cases b <;> cases h <;> simp [Value.numeric]
  | int m => cases h; rfl
  | null | float _ | inf _ | str _ | list _ | dict _ => cases h

theorem Like.numeric (h : Like v w) : w.numeric = v.numeric := by
  obtain rfl | ⟨n, rfl, rfl⟩ := h
  · rfl
  · rfl

variable {a b : Value} {p : ℚ} {vs : List Value}

theorem pyArith_exact {op : Op} (ha : a.numeric = some p)
    (hb : b.numeric = some q) (h : pyArith op a b = some u) :
    Like u (.float (op.exact p q)) ∧ (op = .div → q ≠ 0) := by
  have hrat : op.onRat p q = some u → Like u (.float (op.exact p q)) ∧ (op = .div → q ≠ 0) := by
    intro h
    cases op with
    | add | sub | mul => cases h; exact ⟨Like.refl _, by simp⟩
    | div =>
      by_cases hq : q = 0
      · simp [Op.onRat, hq] at h
      · simp only [Op.onRat, if_neg hq] at h
        cases h
        exact ⟨Like.refl _, fun _ => hq⟩
  have hint : ∀ m n : ℤ, (m : ℚ) = p → (n : ℚ) = q → op.onInt m n = some u →
      Like u (.float (op.exact p q)) ∧ (op = .div → q ≠ 0) := by
    rintro m n rfl rfl h
    cases op with
    | add => cases h; exact ⟨Or.inr ⟨m + n, rfl, by simp [Op.exact]⟩, by simp⟩
    | sub => cases h; exact ⟨Or.inr ⟨m - n, rfl, by simp [Op.exact]⟩, by simp⟩
    | mul => cases h; exact ⟨Or.inr ⟨m * n, rfl, by simp [Op.exact]⟩, by simp⟩
    | div =>
      by_cases hn : n = 0
      · simp [Op.onInt, hn] at h
      · simp only [Op.onInt, if_neg hn] at h
        cases h
        exact ⟨Like.refl _, fun _ => by exact_mod_cast hn⟩
  rw [pyArith] at h
  cases hwa : wholeOf a with
  | none =>
    simp only [hwa, ha, hb] at h
    exact hrat h
  | some m =>
    cases hwb : wholeOf b with
    | none =>
      simp only [hwa, hwb, ha, hb] at h
      exact hrat h
    | some n =>
      simp only [hwa, hwb] at h
      exact hint m n (Option.some.inj ((numeric_of_wholeOf hwa).symm.trans ha))
        (Option.some.inj ((numeric_of_wholeOf hwb).symm.trans hb)) h

theorem pyNeg_zero (hv : v.numeric = some 0) (h : pyNeg v = some u) : Like u (.float 0) := by
  cases v with
  | bool b => cases b <;> cases h <;> simp_all [Value.numeric, Like]
  | int n =>
    cases h
    have hn : n = 0 := by simpa [Value.numeric] using hv
    exact Or.inr ⟨0, by simp [hn], by simp⟩
  | float q =>
    cases h
    have hq : q = 0 := by simpa [Value.numeric] using hv
    exact Or.inl (by simp [hq])
  | null | inf _ | str _ | list _ | dict _ => cases h

theorem pyLess_numeric (ha : a.numeric = some p)
    (hb : b.numeric = some q) : pyLess a b = some (decide (p < q)) := by
  cases a with
  | bool _ | int _ | float _ => simp only [pyLess, ha, hb]
  | null | inf _ | str _ | list _ | dict _ => cases ha

theorem numbers_exist (h : ∀ v ∈ vs, v.numeric.isSome) :
    ∃ qs, List.Forall₂ (fun v q => Value.numeric v = some q) vs qs := by
  induction vs with
  | nil => exact ⟨[], .nil⟩
  | cons v vs ih =>
    obtain ⟨q, hq⟩ := Option.isSome_iff_exists.1 (h v List.mem_cons_self)
    obtain ⟨qs, hqs⟩ := ih fun w hw => h w (List.mem_cons_of_mem _ hw)
    exact ⟨q :: qs, .cons hq hqs⟩

def pickFrom (largest : Bool) (q : ℚ) (qs : List ℚ) : ℚ := qs.foldl (if largest then max else min) q

theorem pyPickFrom_exact {largest : Bool} {qs : List ℚ} {best : Value}
    (hbest : best.numeric = some q)
    (hvs : List.Forall₂ (fun v q => Value.numeric v = some q) vs qs)
    (h : pyPickFrom largest best vs = some u) : u.numeric = some (pickFrom largest q qs) := by
  induction hvs generalizing best q with
  | nil => cases h; exact hbest
  | @cons v r vs qs hv _ ih =>
    cases largest with
    | true =>
      obtain ⟨better, hbetter, h⟩ := Option.bind_eq_some_iff.1 h
      cases (pyLess_numeric hbest hv).symm.trans hbetter
      refine ih ?_ h
      grind
    | false =>
      obtain ⟨better, hbetter, h⟩ := Option.bind_eq_some_iff.1 h
      cases (pyLess_numeric hv hbest).symm.trans hbetter
      refine ih ?_ h
      grind

theorem like_float (hv : v.numeric = some q) (hb : v.isBool = false) : Like v (.float q) := by
  cases v with
  | int n => cases hv; exact Or.inr ⟨n, rfl, rfl⟩
  | float _ => cases hv; exact Like.refl _
  | bool _ => cases hb
  | null | inf _ | str _ | list _ | dict _ => cases hv

/-! ### Operations on numbers

The machines read a number off any value, each in its own way; what they do with the
numbers is the same. -/

section Operations
variable (numeric : Value → Option ℚ) (text : Value → String)

/-- A product with what is read where nothing is written: the compiler writes -1 under a key
    of its own. -/
def negateBy (v : Value) : Option Value :=
  (numeric v).bind fun q => (numeric .null).map fun r => .float (q * r)

def arithBy (op : Op) (left right : Value) : Option Value := do
  let l ← numeric left
  let r ← numeric right
  return .float (match op with
    | .div => if r = 0 then 0 else l / r
    | .mul => l * r
    | .sub => l - r
    | .add => l + r)

def clampInt (n : ℤ) : ℤ := max (-2 ^ 63) (min n (2 ^ 63 - 1))

def castBy : Cast → Value → Option Value
  | .int, v => (numeric v).map fun q => .int (clampInt (Int.tdiv q.num q.den))
  | .float, v => (numeric v).map .float
  | .bool, .bool b => some (.bool b)
  | .bool, .int n => some (.bool (n != 0))
  | .bool, .float q => some (.bool (q != 0))
  | .bool, .inf _ => some (.bool true)
  | .bool, .str s => some (.bool (lower s == "true" || s == "1"))
  | .bool, v => some (.bool (!v.isNull))
  | .str, .null => some .null
  | .str, v => some (.str (text v))

/-- The truth of a text, a list or an object is Python's. -/
def TruthShared : Value → Prop
  | .str s => (lower s = "true" ∨ s = "1") ↔ s ≠ ""
  | .list vs => vs ≠ []
  | .dict kvs => kvs ≠ []
  | _ => True

/-- The values on which a cast is Python's: a text is read as the same number, an integer has
    64 bits, and what is written out is written the same. -/
def CastShared (py : PyText) : Cast → Bool → Value → Prop
  | .int, _, v => ∀ n, pyIntOf py v = .ok n → -2 ^ 63 ≤ n ∧ n < 2 ^ 63 ∧
      ∀ s, v = .str s → numeric (.str s) = some (n : ℚ)
  | .float, _, v => ∀ s, v = .str s → numeric (.str s) = exactNumber py s
  | .bool, _, v => TruthShared v
  | .str, kept, v => v ≠ .null ∧ text v = py.str v ∧ ∀ n, v = .int n → kept = true

variable {numeric text} {py : PyText}

theorem negateBy_zero (hnum : ∀ v q, Value.numeric v = some q → numeric v = some q)
    (hnull : numeric .null = some 0) {v w u : Value} (h : v.numeric = some 0) (hlike : Like v w)
    (hu : pyNeg v = some u) : ∃ u', negateBy numeric w = some u' ∧ Like u u' := by
  refine ⟨.float 0, ?_, pyNeg_zero h hu⟩
  rw [negateBy, hnum w 0 (hlike.numeric.trans h), hnull]
  simp

theorem arithBy_numbers (hnum : ∀ v q, Value.numeric v = some q → numeric v = some q)
    {op : Op} {a b a' b' u : Value} (ha : a.numeric.isSome)
    (hb : b.numeric.isSome) (hlikeA : Like a a') (hlikeB : Like b b')
    (hu : pyArith op a b = some u) : ∃ u', arithBy numeric op a' b' = some u' ∧ Like u u' := by
  obtain ⟨p, hp⟩ := Option.isSome_iff_exists.1 ha
  obtain ⟨q, hq⟩ := Option.isSome_iff_exists.1 hb
  obtain ⟨hlike, hzero⟩ := pyArith_exact hp hq hu
  refine ⟨.float (op.exact p q), ?_, hlike⟩
  simp only [arithBy, hnum a' p (hlikeA.numeric.trans hp), hnum b' q (hlikeB.numeric.trans hq)]
  cases op with
  | add | sub | mul => rfl
  | div =>
    have := hzero rfl
    simp [Op.exact, this]

theorem clampInt_eq {n : ℤ} (h : -2 ^ 63 ≤ n) (h' : n < 2 ^ 63) : clampInt n = n := by
  simp only [clampInt]
  omega

theorem castBy_agrees (hnum : ∀ v q, Value.numeric v = some q → numeric v = some q)
    {type : Cast} {kept : Bool} {v w u : Value} (h : CastShared numeric text py type kept v)
    (hlike : Like v w) (hkept : kept = true → v = w) (hu : pyCast py type v = some u) :
    castBy numeric text type w = some u := by
  cases type with
  | int =>
    obtain ⟨n, hn, rfl⟩ := Option.map_eq_some_iff.1 hu
    obtain ⟨hlow, hhigh, htext⟩ := h n (toOption_eq_some.1 hn)
    have hread : ∃ q : ℚ, numeric w = some q ∧ Int.tdiv q.num q.den = n := by
      obtain rfl | ⟨m, rfl, rfl⟩ := hlike
      · cases v with
        | bool b => cases b <;> cases hn <;> exact ⟨_, hnum _ _ rfl, rfl⟩
        | int m => cases hn; exact ⟨_, hnum _ _ rfl, by simp⟩
        | float q => cases hn; exact ⟨_, hnum _ _ rfl, rfl⟩
        | str s => exact ⟨n, htext s rfl, by simp⟩
        | null | inf _ | list _ | dict _ => cases hn
      · cases hn
        exact ⟨_, hnum _ _ rfl, by simp⟩
    grind -ring -linarith [castBy, clampInt_eq]
  | float =>
    obtain rfl | ⟨m, rfl, rfl⟩ := hlike
    · cases v with
      | str s =>
        rw [castBy, h s rfl]
        exact hu
      | bool _ | int _ | float _ =>
        simp only [pyCast] at hu
        obtain ⟨q, hq, rfl⟩ := Option.map_eq_some_iff.1 hu
        rw [castBy, hnum _ q hq]
        rfl
      | null | inf _ | list _ | dict _ => cases hu
    · simp only [pyCast] at hu
      obtain ⟨q, hq, rfl⟩ := Option.map_eq_some_iff.1 hu
      have hw : (Value.float m).numeric = some q := hq
      rw [castBy, hnum _ q hw]
      rfl
  | bool =>
    cases hu
    obtain rfl | ⟨m, rfl, rfl⟩ := hlike
    · cases v with
      | str s =>
        have hs : (lower s = "true" ∨ s = "1") ↔ s ≠ "" := h
        have hiff : (lower s == "true" || s == "1") = (s != "") := by
          rw [Bool.eq_iff_iff]
          simpa using hs
        simp only [castBy, Value.truthy, hiff]
      | list vs =>
        cases vs with
        | nil => exact absurd rfl (show ([] : List Value) ≠ [] from h)
        | cons _ _ => rfl
      | dict kvs =>
        cases kvs with
        | nil => exact absurd rfl (show ([] : Dict) ≠ [] from h)
        | cons _ _ => rfl
      | null | bool _ | int _ | float _ | inf _ => rfl
    · have hzero : ((m : ℚ) != 0) = (m != 0) := by
        rw [Bool.eq_iff_iff]
        simp
      simp only [castBy, Value.truthy, hzero]
  | str =>
    cases hu
    obtain ⟨hnull, htext, hint⟩ := h
    obtain rfl | ⟨m, rfl, rfl⟩ := hlike
    · rw [← htext]
      cases v with
      | null => exact absurd rfl hnull
      | bool _ | int _ | float _ | inf _ | str _ | list _ | dict _ => rfl
    · cases hkept (hint m rfl)

theorem mapM_numeric (hnum : ∀ v q, Value.numeric v = some q → numeric v = some q)
    {vs ws : List Value} {qs : List ℚ}
    (hvs : List.Forall₂ (fun v q => Value.numeric v = some q) vs qs)
    (hws : List.Forall₂ Like vs ws) : ws.mapM numeric = some qs := by
  induction hvs generalizing ws with
  | nil => cases hws; rfl
  | @cons v q vs qs hv _ ih =>
    cases hws with
    | @cons _ w _ ws hw hws =>
      rw [List.mapM_cons, hnum w q (hw.numeric.trans hv), ih hws]
      rfl

theorem pickBy_numbers (hnum : ∀ v q, Value.numeric v = some q → numeric v = some q)
    {pick : List ℚ → Value} {largest : Bool}
    (hpick : ∀ q qs, pick (q :: qs) = .float (pickFrom largest q qs)) {vs ws : List Value}
    {u : Value} (h : ∀ v ∈ vs, v.numeric.isSome)
    (hbool : ∀ v, pyPick largest vs = some v → v.isBool = false)
    (hws : List.Forall₂ Like vs ws) (hu : pyPick largest vs = some u) :
    ∃ u', (ws.mapM numeric).map pick = some u' ∧ Like u u' := by
  obtain ⟨qs, hqs⟩ := numbers_exist h
  cases hqs with
  | nil => cases hu
  | @cons v q vs qs hv hqs =>
    have hfrom : pyPickFrom largest v vs = some u := by
      cases vs with
      | nil => cases hu
      | cons _ _ => exact hu
    refine ⟨.float (pickFrom largest q qs), ?_,
      like_float (pyPickFrom_exact hv hqs hfrom) (hbool u hu)⟩
    rw [mapM_numeric hnum (.cons hv hqs) hws, Option.map_some, hpick]

end Operations

end RuleMind.VarCode
