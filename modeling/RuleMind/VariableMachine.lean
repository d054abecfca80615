/-
  Register machines for the code of a variable, and what it takes for one to compute
  what the Python function does.
-/
import RuleMind.VariableNumbers

namespace RuleMind.VarCode

/-! ### Machines -/

/-- `^r\d+$`. -/
def isRegister (token : String) : Bool :=
  match token.toList with
  | 'r' :: d :: ds => (d :: ds).all Char.isDigit
  | _ => false

/-- A key or a default, which is written as a register or stands for itself. -/
def deref (regs : Dict) (token : String) : Value :=
  if isRegister token then (regs.lookup token).getD (.str token) else .str token

/-- What the machines differ in; an exception is `none`.  `absent` is read for a name
    without a register, `receiver` gives the value a lookup starts from, and `find` the entry
    under a key written as a token, null where there is none. -/
structure Machine where
  start : Dict
  absent : String → Value
  receiver : Value → Value
  find : Value → String → Value → Option Value
  negate : Value → Option Value
  arith : Op → Value → Value → Option Value
  pick : Bool → List Value → Option Value
  cast : Cast → Value → Option Value

/-- The registers a machine starts with: the payload of the source, the whole payload and the
    variables computed so far. -/
def startRegisters (source payload earlier : Dict) : Dict :=
  [("payload", .dict source), ("rootPayload", .dict payload), ("variables", .dict earlier),
    ("context", .dict earlier), ("source", .dict source)]

theorem lookup_startRegisters {token : String} (h : isRegister token = true)
    (source payload earlier : Dict) :
    (startRegisters source payload earlier).lookup token = none := by
  have hne : ∀ name ∈ ["payload", "rootPayload", "variables", "context", "source"],
      token ≠ name := by
    rintro name hname rfl
    simp only [List.mem_cons, List.not_mem_nil, or_false] at hname
    obtain rfl | rfl | rfl | rfl | rfl := hname <;> exact absurd h (by decide)
  simp only [List.mem_cons, List.not_mem_nil, or_false, forall_eq_or_imp, forall_eq] at hne
  simp_all [startRegisters]

namespace Machine
variable (m : Machine)

def operand (regs : Dict) (name : String) : Value := (regs.lookup name).getD (m.absent name)

/-- What the machine has under the name of a parameter. -/
def passed (p : String) : Value := m.operand m.start p

def step (regs : Dict) : Instr → Option Dict
  | .literal target value => some (setKey regs target value)
  | .get target source key default =>
    (m.find (m.receiver (m.operand regs source)) key (deref regs key)).map fun found =>
      setKey regs target (if found.isNull then (default.map (deref regs)).getD .null else found)
  | .negate target left => (m.negate (m.operand regs left)).map (setKey regs target)
  | .arith op target left right =>
    (m.arith op (m.operand regs left) (m.operand regs right)).map (setKey regs target)
  | .pick largest target args =>
    (m.pick largest (args.map (m.operand regs))).map (setKey regs target)
  | .cast type target source => (m.cast type (m.operand regs source)).map (setKey regs target)

def run (code : List Instr) (regs : Dict) : Option Dict := code.foldlM m.step regs

def evaluate (code : Code) : Option Value :=
  (m.run code.instrs m.start).map fun regs => m.operand regs code.result

variable {regs regs₁ regs₂ : Dict}

theorem run_append {c₁ c₂ : List Instr} (h₁ : m.run c₁ regs = some regs₁)
    (h₂ : m.run c₂ regs₁ = some regs₂) : m.run (c₁ ++ c₂) regs = some regs₂ := by
  rw [run, List.foldlM_append]
  exact Option.bind_eq_some_iff.2 ⟨regs₁, h₁, h₂⟩

theorem run_step {c : List Instr} {i : Instr}
    (h₁ : m.run c regs = some regs₁) (h₂ : m.step regs₁ i = some regs₂) :
    m.run (c ++ [i]) regs = some regs₂ := by
  refine m.run_append h₁ ?_
  show (m.step regs₁ i).bind some = some regs₂
  rw [h₂]
  rfl

end Machine

/-! ### What is asked of a function -/

/-- A value of Python's; the parameter it is passed on from, if any; whether a machine has
    its integers as integers. -/
structure Binding where
  value : Value
  param : Option String
  kept : Bool

def Binding.Held (b : Binding) (w : Value) : Prop := Like b.value w ∧ (b.kept = true → b.value = w)

abbrev Bindings := List (String × Binding)

def Bindings.env (bs : Bindings) : Dict := bs.map fun b => (b.1, b.2.value)

/-- The values on which an operation of a machine is the one of Python. -/
structure Rules where
  find : Dict → String → Prop
  negate : Value → Prop
  arith : Op → Value → Value → Prop
  pick : Bool → List Value → Prop
  cast : Cast → (kept : Bool) → Value → Prop

structure Machine.Keeps (m : Machine) (py : PyText) (r : Rules) : Prop where
  start : ∀ token, isRegister token = true → m.start.lookup token = none
  receiver : ∀ kvs, m.receiver (.dict kvs) = .dict kvs
  find : ∀ {kvs key} token, r.find kvs key →
    m.find (.dict kvs) token (.str key) = some ((kvs.lookup key).getD .null)
  negate : ∀ {v w u}, r.negate v → Like v w → pyNeg v = some u →
    ∃ u', m.negate w = some u' ∧ Like u u'
  arith : ∀ {op a b a' b' u}, r.arith op a b → Like a a' → Like b b' → pyArith op a b = some u →
    ∃ u', m.arith op a' b' = some u' ∧ Like u u'
  pick : ∀ {largest vs ws u}, r.pick largest vs → List.Forall₂ Like vs ws →
    pyPick largest vs = some u → ∃ u', m.pick largest ws = some u' ∧ Like u u'
  cast : ∀ {type kept v w u}, r.cast type kept v → Like v w → (kept = true → v = w) →
    pyCast py type v = some u → m.cast type w = some u

/-- No register up to the `n`th has this name. -/
def Unwritten (n : ℕ) (p : String) : Prop := ∀ k, 1 ≤ k → k ≤ n → p ≠ reg k

section Fits
variable (py : PyText) (m : Machine) (r : Rules) (locals : List String) (env : Bindings)

/-- The parameter an expression is another name of. -/
def paramOf : Expr → Option String
  | .name x => (env.lookup x).bind Binding.param
  | _ => none

/-- Whether a machine has an integer as an integer. -/
def keptIn : Expr → Bool
  | .name x => (env.lookup x).all Binding.kept
  | .neg _ => false
  | .pick _ _ => false
  | .binop _ _ _ => false
  | .get e (key :: default :: _) =>
    match eval py locals env.env e, eval py locals env.env key with
    | some (.dict kvs), some (.str key) => (kvs.lookup key).isSome || keptIn default
    | _, _ => true
  | _ => true

/-- A parameter that is read with `n` registers in use: it is no register, and `read` finds
    its value. -/
def Reads (n : ℕ) (e : Expr) (read : String → Value) : Prop :=
  ∀ p, paramOf env e = some p → Unwritten n p ∧ eval py locals env.env e = some (read p)

/-- The value of `e` is an object, that of `key` a text, and the entry is found. -/
def Finds (e key : Expr) (ok : Option Value → Prop) : Prop :=
  ∀ v k, eval py locals env.env e = some v → eval py locals env.env key = some k →
    ∃ kvs s, v = .dict kvs ∧ k = .str s ∧ r.find kvs s ∧ ok (kvs.lookup s)

mutual

def Fits : Expr → ℕ → Prop
  | .const _, _ => True
  | .name _, _ => True
  | .neg e, n =>
    Fits e n ∧ Reads py locals env (n + e.size) e m.passed ∧
      ∀ v, eval py locals env.env e = some v → r.negate v
  | .subscript e index, n =>
    Fits e n ∧ Fits index (n + e.size) ∧
      Reads py locals env (n + e.size + index.size) e (fun p => m.receiver (m.passed p)) ∧
      Reads py locals env (n + e.size + index.size) index .str ∧
      Finds py r locals env e index fun _ => True
  | .get _ [], _ => True
  | .get e [key], n =>
    Fits e n ∧ Fits key (n + e.size) ∧
      Reads py locals env (n + e.size + key.size + 1) e (fun p => m.receiver (m.passed p)) ∧
      Reads py locals env (n + e.size + key.size + 1) key .str ∧
      -- the compiler's default is 0, Python's is None
      Finds py r locals env e key fun entry => entry.getD .null ≠ .null
  | .get e (key :: default :: _), n =>
    Fits e n ∧ Fits key (n + e.size) ∧ Fits default (n + e.size + key.size) ∧
      Reads py locals env (n + e.size + key.size + default.size) e
        (fun p => m.receiver (m.passed p)) ∧
      Reads py locals env (n + e.size + key.size + default.size) key .str ∧
      Finds py r locals env e key fun entry =>
        (entry.getD .null = .null →
          Reads py locals env (n + e.size + key.size + default.size) default .str) ∧
        (entry = some .null → eval py locals env.env default = some .null)
  | .pick largest args, n =>
    FitsArgs args n ∧ (∀ e ∈ args, Reads py locals env (n + sizeArgs args) e m.passed) ∧
      ∀ vs, evalArgs py locals env.env args = some vs → r.pick largest vs
  | .cast type e, n =>
    Fits e n ∧ Reads py locals env (n + e.size) e m.passed ∧
      ∀ v, eval py locals env.env e = some v → r.cast type (keptIn py locals env e) v
  | .binop op left right, n =>
    Fits left n ∧ Fits right (n + left.size) ∧
      Reads py locals env (n + left.size + right.size) left m.passed ∧
      Reads py locals env (n + left.size + right.size) right m.passed ∧
      ∀ a b, eval py locals env.env left = some a → eval py locals env.env right = some b →
        r.arith op a b
  | .other _, _ => True

def FitsArgs : List Expr → ℕ → Prop
  | [], _ => True
  | e :: es, n => Fits e n ∧ FitsArgs es (n + e.size)

end

end Fits

section FitsBody
variable (py : PyText) (m : Machine) (r : Rules) (locals : List String)

def bindingOf (env : Bindings) (e : Expr) (v : Value) : Binding :=
  ⟨v, paramOf env e, keptIn py locals env e⟩

def FitsBody (env : Bindings) : List Stmt → ℕ → Prop
  | [], _ => True
  | .assign target e :: body, n =>
    Fits py m r locals env e n ∧ ∀ v, eval py locals env.env e = some v →
      FitsBody ((target, bindingOf py locals env e v) :: env) body (n + e.size)
  | .ret none :: _, _ => True
  | .ret (some e) :: _, n =>
    Fits py m r locals env e n ∧ Reads py locals env (n + e.size) e m.passed
  | .other _ :: _, _ => True

def paramBindings (args : Dict) : Bindings := args.map fun a => (a.1, ⟨a.2, some a.1, true⟩)

def FunctionDef.Fits (f : FunctionDef) (payload earlier : Dict) : Prop :=
  ∀ args, f.args payload earlier = some args →
    FitsBody py m r f.locals (paramBindings args) f.body 0

end FitsBody

/-! ### Registers and values -/

theorem Binding.held_self (b : Binding) : b.Held b.value := ⟨Like.refl _, fun _ => rfl⟩

theorem isRegister_reg (n : ℕ) : isRegister (reg n) = true := by
  have hall : ∀ c ∈ Nat.toDigits 10 n, c.isDigit = true := fun c => Text.isDigit_toDigits
  rw [isRegister, toList_reg]
  cases hd : Nat.toDigits 10 n with
  | nil => simp_all
  | cons d ds => exact List.all_eq_true.2 (hd ▸ hall)

theorem unwritten_of_plain {p : String} (n : ℕ) (h : isRegister p = false) : Unwritten n p := by
  rintro k - - rfl
  exact Bool.false_ne_true (h.symm.trans (isRegister_reg k))

variable {n : ℕ} {b : Binding}

variable {env : Bindings} {n' : ℕ} {regs regs' : Dict} {token : Token} {x : String}

theorem reads_of_none {py : PyText} {locals : List String} {e : Expr}
    {read : String → Value} (h : paramOf env e = none) : Reads py locals env n e read := by
  intro p hp
  cases h.symm.trans hp

/-- Where a value is, with `n` registers in use. -/
def Holds (regs : Dict) (n : ℕ) (b : Binding) : Token → Prop
  | .param p => b.param = some p
  | .reg k => b.param = none ∧ 1 ≤ k ∧ k ≤ n ∧ ∃ w, regs.lookup (reg k) = some w ∧ b.Held w

/-- The registers from `n` on, up to `n'`, are all that changes. -/
def Frame (n n' : ℕ) (regs regs' : Dict) : Prop :=
  ∀ p, (∀ k, n < k → k ≤ n' → p ≠ reg k) → regs'.lookup p = regs.lookup p

theorem Frame.refl (n : ℕ) (regs : Dict) : Frame n n regs regs := fun _ _ => rfl

theorem Frame.trans {n₀ n₁ n₂ : ℕ} {regs₀ regs₁ regs₂ : Dict} (h₁ : Frame n₀ n₁ regs₀ regs₁)
    (h₂ : Frame n₁ n₂ regs₁ regs₂) (h₀₁ : n₀ ≤ n₁) (h₁₂ : n₁ ≤ n₂) :
    Frame n₀ n₂ regs₀ regs₂ := by
  intro p hp
  have hlate : ∀ k, n₁ < k → k ≤ n₂ → p ≠ reg k := fun k hk => hp k (by omega)
  have hearly : ∀ k, n₀ < k → k ≤ n₁ → p ≠ reg k := fun k hk hk' => hp k hk (by omega)
  exact (h₂ p hlate).trans (h₁ p hearly)

theorem Frame.set (n : ℕ) (regs : Dict) (w : Value) :
    Frame n (n + 1) regs (setKey regs (reg (n + 1)) w) := by
  intro p hp
  rw [lookup_setKey, if_neg (hp (n + 1) (by omega) le_rfl)]

theorem Holds.frame (h : Holds regs n b token) (hf : Frame n n' regs regs') (hn : n ≤ n') :
    Holds regs' n' b token := by
  cases token with
  | param p => exact h
  | reg k =>
    obtain ⟨hp, hk, hkn, w, hw, hheld⟩ := h
    have hother : ∀ l, n < l → l ≤ n' → reg k ≠ reg l := by
      intro l hl _ he
      have := reg_inj he
      omega
    exact ⟨hp, hk, hkn.trans hn, w, (hf _ hother).trans hw, hheld⟩

theorem holds_set (n : ℕ) (regs : Dict) {w : Value} (hp : b.param = none)
    (h : b.Held w) : Holds (setKey regs (reg (n + 1)) w) (n + 1) b (.reg (n + 1)) :=
  ⟨hp, by omega, le_rfl, w, by rw [lookup_setKey, if_pos rfl], h⟩

/-- The state in which the code of an expression starts. -/
structure Ready (m : Machine) (env : Bindings) (scope : Scope) (n : ℕ) (regs : Dict) : Prop where
  start : ∀ p, Unwritten n p → regs.lookup p = m.start.lookup p
  bound : ∀ x b, env.lookup x = some b → ∀ token, scope.lookup x = some token → Holds regs n b token

theorem Ready.frame {m : Machine} {scope : Scope}
    (h : Ready m env scope n regs) (hf : Frame n n' regs regs') (hn : n ≤ n') :
    Ready m env scope n' regs' where
  start p hp := by
    have hlate : ∀ k, n < k → k ≤ n' → p ≠ reg k := fun k hk => hp k (by omega)
    have hearly : Unwritten n p := fun k hk hkn => hp k hk (by omega)
    exact (hf p hlate).trans (h.start p hearly)
  bound x b hx token ht := (h.bound x b hx token ht).frame hf hn

/-! ### Operands -/

section Operands
variable {py : PyText} {m : Machine} {r : Rules} {locals : List String} {env : Bindings}
variable {scope : Scope} {n : ℕ} {regs : Dict} {e : Expr} {v : Value} {token : Token}

theorem eval_lookup {x : String} : eval py locals env.env (.name x) =
    (env.lookup x).map Binding.value := by
  show List.lookup x env.env = _
  induction env with
  | nil => rfl
  | cons b env ih => grind [Bindings.env]

theorem operand_held (hready : Ready m env scope n regs) (he : eval py locals env.env e = some v)
    (hh : Holds regs n (bindingOf py locals env e v) token)
    (hreads : Reads py locals env n e m.passed) :
    (bindingOf py locals env e v).Held (m.operand regs token.text) := by
  cases token with
  | param p =>
    obtain ⟨hu, hv⟩ := hreads p hh
    cases he.symm.trans hv
    rw [Machine.operand, Token.text, hready.start p hu]
    exact Binding.held_self _
  | reg k =>
    obtain ⟨-, -, -, w, hw, hheld⟩ := hh
    rw [Machine.operand, Token.text, hw]
    exact hheld

variable {kvs : Dict} {s : String} {w : Value}

theorem receiver_eq (hm : m.Keeps py r) (hready : Ready m env scope n regs)
    (he : eval py locals env.env e = some (.dict kvs))
    (hh : Holds regs n (bindingOf py locals env e (.dict kvs)) token)
    (hreads : Reads py locals env n e fun p => m.receiver (m.passed p)) :
    m.receiver (m.operand regs token.text) = .dict kvs := by
  cases token with
  | param p =>
    obtain ⟨hu, hv⟩ := hreads p hh
    rw [Machine.operand, Token.text, hready.start p hu]
    exact (Option.some.inj (he.symm.trans hv)).symm
  | reg k =>
    obtain ⟨-, -, -, w, hw, hheld⟩ := hh
    rw [Machine.operand, Token.text, hw, hheld.1.of_dict]
    exact hm.receiver kvs

theorem deref_held (hm : m.Keeps py r) (hready : Ready m env scope n regs)
    (he : eval py locals env.env e = some v)
    (hh : Holds regs n (bindingOf py locals env e v) token)
    (hreads : Reads py locals env n e .str) :
    (bindingOf py locals env e v).Held (deref regs token.text) := by
  cases token with
  | param p =>
    obtain ⟨hu, hv⟩ := hreads p hh
    cases he.symm.trans hv
    have hself : deref regs p = .str p := by
      rw [deref]
      by_cases hp : isRegister p = true
      · rw [if_pos hp, hready.start p hu, hm.start p hp]
        rfl
      · rw [if_neg hp]
    rw [Token.text, hself]
    exact Binding.held_self _
  | reg k =>
    obtain ⟨-, -, -, w, hw, hheld⟩ := hh
    rw [Token.text, deref, if_pos (isRegister_reg k), hw]
    exact hheld

def AllHold (py : PyText) (locals : List String) (env : Bindings) (regs : Dict) (n : ℕ) :
    List Expr → List Value → List Token → Prop
  | [], [], [] => True
  | e :: es, v :: vs, token :: tokens =>
    eval py locals env.env e = some v ∧ Holds regs n (bindingOf py locals env e v) token ∧
      AllHold py locals env regs n es vs tokens
  | _, _, _ => False

theorem operands_like (hready : Ready m env scope n regs) {es : List Expr} {vs : List Value}
    {tokens : List Token} (h : AllHold py locals env regs n es vs tokens)
    (hreads : ∀ e ∈ es, Reads py locals env n e m.passed) :
    List.Forall₂ Like vs ((tokens.map Token.text).map (m.operand regs)) := by
  induction es generalizing vs tokens with
  | nil =>
    cases vs with
    | nil =>
      cases tokens with
      | nil => exact .nil
      | cons _ _ => cases h
    | cons _ _ => cases h
  | cons e es ih =>
    cases vs with
    | nil => cases h
    | cons v vs =>
      cases tokens with
      | nil => cases h
      | cons token tokens =>
        obtain ⟨he, hh, hrest⟩ := h
        exact .cons (operand_held hready he hh (hreads e List.mem_cons_self)).1
          (ih hrest fun e' he' => hreads e' (List.mem_cons_of_mem _ he'))

/-! ### Code -/

theorem step_get (hm : m.Keeps py r) {source key : String} (target : String)
    (default : Option String) (hsource : m.receiver (m.operand regs source) = .dict kvs)
    (hkey : deref regs key = .str s) (hfind : r.find kvs s) :
    m.step regs (.get target source key default) = some (setKey regs target
      (if ((kvs.lookup s).getD .null).isNull then (default.map (deref regs)).getD .null
        else (kvs.lookup s).getD .null)) := by
  rw [Machine.step, hsource, hkey, hm.find key hfind]
  rfl

theorem run_last {c : List Instr} {i : Instr} {n₁ : ℕ} {regs₁ : Dict} {b : Binding}
    (hrun : m.run c regs = some regs₁) (hf : Frame n n₁ regs regs₁) (hn : n ≤ n₁)
    (hstep : m.step regs₁ i = some (setKey regs₁ (reg (n₁ + 1)) w)) (hp : b.param = none)
    (hheld : b.Held w) :
    ∃ regs', m.run (c ++ [i]) regs = some regs' ∧ Frame n (n₁ + 1) regs regs' ∧
      Holds regs' (n₁ + 1) b (.reg (n₁ + 1)) :=
  ⟨_, m.run_step hrun hstep, hf.trans (Frame.set n₁ regs₁ w) hn (by omega),
    holds_set n₁ regs₁ hp hheld⟩

/-- The value of a lookup with a default: an entry is kept as it is, and null is no entry for
    a machine. -/
theorem entry_held {e key default : Expr} {more : List Expr} {d : Value}
    (he : eval py locals env.env e = some (.dict kvs))
    (hkey : eval py locals env.env key = some (.str s))
    (hdefault : eval py locals env.env default = some d)
    (hnull : kvs.lookup s = some .null → eval py locals env.env default = some .null)
    (hw : (kvs.lookup s).getD .null = .null → (bindingOf py locals env default d).Held w) :
    (bindingOf py locals env (.get e (key :: default :: more)) ((kvs.lookup s).getD d)).Held
      (if ((kvs.lookup s).getD .null).isNull then w else (kvs.lookup s).getD .null) := by
  cases hentry : kvs.lookup s with
  | none =>
    obtain ⟨hlike, hkept⟩ := hw (by rw [hentry]; rfl)
    refine ⟨hlike, fun hk => hkept ?_⟩
    simpa [bindingOf, keptIn, he, hkey, hentry] using hk
  | some u =>
    by_cases hu : u = .null
    · subst hu
      cases hdefault.symm.trans (hnull hentry)
      rw [(hw (by rw [hentry]; rfl)).1.of_null]
      exact Binding.held_self _
    · have hne : u.isNull = false := by cases u <;> first | rfl | exact absurd rfl hu
      simp only [Option.getD_some, hne, Bool.false_eq_true, if_false]
      exact Binding.held_self _

mutual

theorem compileExpr_runs (hm : m.Keeps py r) (e : Expr) {n : ℕ} {regs : Dict} {token : Token}
    {code : List Instr} {n' : ℕ} {v : Value} (hready : Ready m env scope n regs)
    (hc : compileExpr scope e n = .ok (token, code, n'))
    (he : eval py locals env.env e = some v) (hfit : Fits py m r locals env e n) :
    ∃ regs', m.run code regs = some regs' ∧ Frame n n' regs regs' ∧
      Holds regs' n' (bindingOf py locals env e v) token := by
  match e with
  | .const c =>
    obtain ⟨rfl, rfl, rfl⟩ := emit_ok hc
    cases he
    exact run_last (c := []) rfl (Frame.refl n regs) le_rfl rfl rfl (Binding.held_self _)
  | .name x =>
    obtain ⟨hx, rfl, rfl⟩ := compile_name hc
    obtain ⟨b, hb, hv⟩ := Option.map_eq_some_iff.1 (eval_lookup.symm.trans he)
    have hsame : bindingOf py locals env (.name x) v = b := by
      simp [bindingOf, paramOf, keptIn, hb, ← hv]
    exact ⟨regs, rfl, Frame.refl _ regs, hsame ▸ hready.bound x b hb token hx⟩
  | .neg e =>
    obtain ⟨t, c, m₁, he₁, rfl, rfl, rfl⟩ := compile_neg hc
    obtain ⟨a, ha, hv⟩ := Option.bind_eq_some_iff.1 he
    obtain ⟨hfit, hreads, hok⟩ := hfit
    obtain rfl := compileExpr_size e he₁
    obtain ⟨regs₁, hrun, hf, hh⟩ := compileExpr_runs hm e hready he₁ ha hfit
    have hheld := operand_held (hready.frame hf (by omega)) ha hh hreads
    obtain ⟨u, hu, hlike⟩ := hm.negate (hok a ha) hheld.1 hv
    refine run_last hrun hf (by omega) ?_ rfl ⟨hlike, by simp [bindingOf, keptIn]⟩
    rw [Machine.step, hu]
    rfl
  | .subscript e index =>
    obtain ⟨t₁, c₁, n₁, t₂, c₂, n₂, he₁, he₂, rfl, rfl, rfl⟩ := compile_subscript hc
    obtain ⟨a, ha, he⟩ := Option.bind_eq_some_iff.1 he
    obtain ⟨k, hk, hv⟩ := Option.bind_eq_some_iff.1 he
    obtain ⟨hfit₁, hfit₂, hreads₁, hreads₂, hfinds⟩ := hfit
    obtain ⟨kvs, s, rfl, rfl, hfind, -⟩ := hfinds a k ha hk
    obtain rfl := compileExpr_size e he₁
    obtain rfl := compileExpr_size index he₂
    obtain ⟨regs₁, hrun₁, hf₁, hh₁⟩ := compileExpr_runs hm e hready he₁ ha hfit₁
    have hready₁ := hready.frame hf₁ (by omega)
    obtain ⟨regs₂, hrun₂, hf₂, hh₂⟩ := compileExpr_runs hm index hready₁ he₂ hk hfit₂
    have hready₂ := hready₁.frame hf₂ (by omega)
    have hsource := receiver_eq hm hready₂ ha (hh₁.frame hf₂ (by omega)) hreads₁
    have hkey := (deref_held hm hready₂ hk hh₂ hreads₂).1.of_str
    have hentry : kvs.lookup s = some v := hv
    have hstep := step_get hm (reg (n + e.size + index.size + 1)) none hsource hkey hfind
    have hw : (if v.isNull then Value.null else v) = v := by cases v <;> rfl
    simp only [hentry, Option.getD_some, Option.map_none, Option.getD_none, hw] at hstep
    exact run_last (m.run_append hrun₁ hrun₂) (hf₁.trans hf₂ (by omega) (by omega)) (by omega)
      hstep rfl (Binding.held_self _)
  | .get e [] =>
    obtain ⟨a, ha, he⟩ := Option.bind_eq_some_iff.1 he
    cases a <;> cases he
  | .get e [key] =>
    obtain ⟨t₁, c₁, n₁, t₂, c₂, n₂, he₁, he₂, rfl, rfl, rfl⟩ := compile_get_one hc
    obtain ⟨a, ha, he⟩ := Option.bind_eq_some_iff.1 he
    obtain ⟨ks, hks, hv⟩ := Option.bind_eq_some_iff.1 he
    obtain ⟨k, hk, hks⟩ := Option.bind_eq_some_iff.1 hks
    cases hks
    obtain ⟨hfit₁, hfit₂, hreads₁, hreads₂, hfinds⟩ := hfit
    obtain ⟨kvs, s, rfl, rfl, hfind, hsome⟩ := hfinds a k ha hk
    obtain rfl := compileExpr_size e he₁
    obtain rfl := compileExpr_size key he₂
    obtain ⟨regs₁, hrun₁, hf₁, hh₁⟩ := compileExpr_runs hm e hready he₁ ha hfit₁
    have hready₁ := hready.frame hf₁ (by omega)
    obtain ⟨regs₂, hrun₂, hf₂, hh₂⟩ := compileExpr_runs hm key hready₁ he₂ hk hfit₂
    have hready₂ := hready₁.frame hf₂ (by omega)
    have hf₃ := Frame.set (n + e.size + key.size) regs₂ (.int 0)
    have hready₃ := hready₂.frame hf₃ (by omega)
    have hsource := receiver_eq hm hready₃ ha
      ((hh₁.frame hf₂ (by omega)).frame hf₃ (by omega)) hreads₁
    have hkey := (deref_held hm hready₃ hk (hh₂.frame hf₃ (by omega)) hreads₂).1.of_str
    have hstep := step_get hm (reg (n + e.size + key.size + 1 + 1))
      (some (reg (n + e.size + key.size + 1))) hsource hkey hfind
    have hnull : ((kvs.lookup s).getD .null).isNull = false := by
      cases hw : (kvs.lookup s).getD .null <;> first | rfl | exact absurd hw hsome
    rw [hnull, if_neg Bool.false_ne_true] at hstep
    cases hv
    exact run_last (m.run_step (m.run_append hrun₁ hrun₂) rfl)
      ((hf₁.trans hf₂ (by omega) (by omega)).trans hf₃ (by omega) (by omega)) (by omega)
      hstep rfl (Binding.held_self _)
  | .get e (key :: default :: more) =>
    obtain ⟨t₁, c₁, n₁, t₂, c₂, n₂, t₃, c₃, n₃, he₁, he₂, he₃, rfl, rfl, rfl⟩ := compile_get_two hc
    obtain ⟨a, ha, he⟩ := Option.bind_eq_some_iff.1 he
    obtain ⟨ks, hks, hv⟩ := Option.bind_eq_some_iff.1 he
    obtain ⟨k, hk, hks⟩ := Option.bind_eq_some_iff.1 hks
    obtain ⟨ds, hds, hks⟩ := Option.bind_eq_some_iff.1 hks
    obtain ⟨d, hd, hds⟩ := Option.bind_eq_some_iff.1 hds
    obtain ⟨more', hmore, hds⟩ := Option.bind_eq_some_iff.1 hds
    cases hds
    cases hks
    obtain ⟨hfit₁, hfit₂, hfit₃, hreads₁, hreads₂, hfinds⟩ := hfit
    obtain ⟨kvs, s, rfl, rfl, hfind, hreads₃, hnull⟩ := hfinds a k ha hk
    obtain rfl := compileExpr_size e he₁
    obtain rfl := compileExpr_size key he₂
    obtain rfl := compileExpr_size default he₃
    obtain ⟨regs₁, hrun₁, hf₁, hh₁⟩ := compileExpr_runs hm e hready he₁ ha hfit₁
    have hready₁ := hready.frame hf₁ (by omega)
    obtain ⟨regs₂, hrun₂, hf₂, hh₂⟩ := compileExpr_runs hm key hready₁ he₂ hk hfit₂
    have hready₂ := hready₁.frame hf₂ (by omega)
    obtain ⟨regs₃, hrun₃, hf₃, hh₃⟩ := compileExpr_runs hm default hready₂ he₃ hd hfit₃
    have hready₃ := hready₂.frame hf₃ (by omega)
    have hsource := receiver_eq hm hready₃ ha
      ((hh₁.frame hf₂ (by omega)).frame hf₃ (by omega)) hreads₁
    have hkey := (deref_held hm hready₃ hk (hh₂.frame hf₃ (by omega)) hreads₂).1.of_str
    have hstep := step_get hm (reg (n + e.size + key.size + default.size + 1)) (some t₃.text)
      hsource hkey hfind
    refine run_last (m.run_append (m.run_append hrun₁ hrun₂) hrun₃)
      ((hf₁.trans hf₂ (by omega) (by omega)).trans hf₃ (by omega) (by omega)) (by omega)
      hstep rfl ?_
    have hv : some ((kvs.lookup s).getD d) = some v := by
      cases more' with
      | nil => exact hv
      | cons _ _ => cases hv
    obtain rfl := Option.some.inj hv
    exact entry_held ha hk hd hnull fun h => deref_held hm hready₃ hd hh₃ (hreads₃ h)
  | .pick largest args =>
    obtain ⟨ts, c, m₁, he₁, -, rfl, rfl, rfl⟩ := compile_pick hc
    obtain ⟨vs, hvs, he⟩ := Option.bind_eq_some_iff.1 he
    obtain ⟨hfit, hreads, hok⟩ := hfit
    obtain rfl := compileArgs_size args he₁
    obtain ⟨regs₁, hrun, hf, hh⟩ := compileArgs_runs hm args hready he₁ hvs hfit
    have hlikes := operands_like (hready.frame hf (by omega)) hh hreads
    have hv : pyPick largest vs = some v := by
      by_cases hname : (if largest then "max" else "min") ∈ locals
      · rw [if_pos hname] at he
        cases he
      · rw [if_neg hname] at he
        exact he
    obtain ⟨u, hu, hlike⟩ := hm.pick (hok vs hvs) hlikes hv
    refine run_last hrun hf (by omega) ?_ rfl ⟨hlike, by simp [bindingOf, keptIn]⟩
    rw [Machine.step, hu]
    rfl
  | .cast type e =>
    obtain ⟨t, c, m₁, he₁, rfl, rfl, rfl⟩ := compile_cast hc
    obtain ⟨a, ha, he⟩ := Option.bind_eq_some_iff.1 he
    obtain ⟨hfit, hreads, hok⟩ := hfit
    obtain rfl := compileExpr_size e he₁
    obtain ⟨regs₁, hrun, hf, hh⟩ := compileExpr_runs hm e hready he₁ ha hfit
    have hheld := operand_held (hready.frame hf (by omega)) ha hh hreads
    have hv : pyCast py type a = some v := by
      split at he
      · cases he
      · exact he
    have hu := hm.cast (hok a ha) hheld.1 hheld.2 hv
    refine run_last hrun hf (by omega) ?_ rfl (Binding.held_self (bindingOf py locals env _ v))
    rw [Machine.step, hu]
    rfl
  | .binop op l r' =>
    obtain ⟨t₁, c₁, n₁, t₂, c₂, n₂, he₁, he₂, rfl, rfl, rfl⟩ := compile_binop hc
    obtain ⟨a, ha, he⟩ := Option.bind_eq_some_iff.1 he
    obtain ⟨b, hb, hv⟩ := Option.bind_eq_some_iff.1 he
    obtain ⟨hfit₁, hfit₂, hreads₁, hreads₂, hok⟩ := hfit
    obtain rfl := compileExpr_size l he₁
    obtain rfl := compileExpr_size r' he₂
    obtain ⟨regs₁, hrun₁, hf₁, hh₁⟩ := compileExpr_runs hm l hready he₁ ha hfit₁
    have hready₁ := hready.frame hf₁ (by omega)
    obtain ⟨regs₂, hrun₂, hf₂, hh₂⟩ := compileExpr_runs hm r' hready₁ he₂ hb hfit₂
    have hready₂ := hready₁.frame hf₂ (by omega)
    have hheld₁ := operand_held hready₂ ha (hh₁.frame hf₂ (by omega)) hreads₁
    have hheld₂ := operand_held hready₂ hb hh₂ hreads₂
    obtain ⟨u, hu, hlike⟩ := hm.arith (hok a b ha hb) hheld₁.1 hheld₂.1 hv
    refine run_last (m.run_append hrun₁ hrun₂) (hf₁.trans hf₂ (by omega) (by omega)) (by omega)
      ?_ rfl ⟨hlike, by simp [bindingOf, keptIn]⟩
    rw [Machine.step, hu]
    rfl
  | .other _ => cases he

theorem compileArgs_runs (hm : m.Keeps py r) (es : List Expr) {n : ℕ} {regs : Dict}
    {tokens : List Token} {code : List Instr} {n' : ℕ} {vs : List Value}
    (hready : Ready m env scope n regs) (hc : compileArgs scope es n = .ok (tokens, code, n'))
    (hes : evalArgs py locals env.env es = some vs) (hfit : FitsArgs py m r locals env es n) :
    ∃ regs', m.run code regs = some regs' ∧ Frame n n' regs regs' ∧
      AllHold py locals env regs' n' es vs tokens := by
  match es with
  | [] =>
    cases hc
    cases hes
    exact ⟨regs, rfl, Frame.refl _ regs, trivial⟩
  | e :: es =>
    obtain ⟨t₁, c₁, n₁, ts, c₂, he₁, he₂, rfl, rfl⟩ := compileArgs_cons hc
    obtain ⟨v, hv, hes⟩ := Option.bind_eq_some_iff.1 hes
    obtain ⟨vs', hvs, hes⟩ := Option.bind_eq_some_iff.1 hes
    cases hes
    obtain ⟨hfit₁, hfit₂⟩ := hfit
    obtain rfl := compileExpr_size e he₁
    have hn := compileArgs_size es he₂
    obtain ⟨regs₁, hrun₁, hf₁, hh₁⟩ := compileExpr_runs hm e hready he₁ hv hfit₁
    obtain ⟨regs₂, hrun₂, hf₂, hh₂⟩ :=
      compileArgs_runs hm es (hready.frame hf₁ (by omega)) he₂ hvs hfit₂
    exact ⟨regs₂, m.run_append hrun₁ hrun₂, hf₁.trans hf₂ (by omega) (by omega), hv,
      hh₁.frame hf₂ (by omega), hh₂⟩

end

theorem compileBody_runs (hm : m.Keeps py r) {body : List Stmt} {env : Bindings} {scope : Scope}
    {n : ℕ} {regs : Dict} {code : Code} {v : Value} (hready : Ready m env scope n regs)
    (hc : compileBody scope body n = .ok code)
    (hv : evalBody py locals env.env body = some v) (hfit : FitsBody py m r locals env body n) :
    ∃ regs', m.run code.instrs regs = some regs' ∧ Like v (m.operand regs' code.result) := by
  induction body generalizing env scope n regs code with
  | nil => cases hc
  | cons stmt body ih =>
    cases stmt with
    | assign target e =>
      obtain ⟨⟨token, c, n₁⟩, he₁, hc⟩ := bind_eq_ok.1 hc
      obtain ⟨rest, hrest, hc⟩ := bind_eq_ok.1 hc
      cases hc
      obtain ⟨a, ha, hv⟩ := Option.bind_eq_some_iff.1 hv
      obtain ⟨hfit₁, hfit₂⟩ := hfit
      obtain rfl := compileExpr_size e he₁
      obtain ⟨regs₁, hrun₁, hf₁, hh₁⟩ := compileExpr_runs hm e hready he₁ ha hfit₁
      have hready₁ := hready.frame hf₁ (by omega)
      have hbound : ∀ x b,
          List.lookup x ((target, bindingOf py locals env e a) :: env) = some b →
          ∀ token', List.lookup x ((target, token) :: scope) = some token' →
            Holds regs₁ (n + e.size) b token' := by
        intro x b hx token' ht
        by_cases htarget : x = target
        · grind
        · rw [List.lookup_cons, beq_false_of_ne htarget] at hx ht
          exact hready₁.bound x b hx token' ht
      obtain ⟨regs₂, hrun₂, hlike⟩ := ih ⟨hready₁.start, hbound⟩ hrest hv (hfit₂ a ha)
      exact ⟨regs₂, m.run_append hrun₁ hrun₂, hlike⟩
    | ret value =>
      obtain ⟨⟨token, c, n₁⟩, he₁, hc⟩ := bind_eq_ok.1 hc
      cases hc
      cases value with
      | none =>
        cases hv
        obtain ⟨rfl, rfl, rfl⟩ := emit_ok he₁
        refine ⟨setKey regs (reg (n + 1)) .null, rfl, ?_⟩
        rw [Machine.operand, Token.text, lookup_setKey, if_pos rfl]
        exact Like.refl _
      | some e =>
        obtain ⟨hfit₁, hreads⟩ := hfit
        obtain rfl := compileExpr_size e he₁
        obtain ⟨regs₁, hrun₁, hf₁, hh₁⟩ := compileExpr_runs hm e hready he₁ hv hfit₁
        exact ⟨regs₁, hrun₁, (operand_held (hready.frame hf₁ (by omega)) hv hh₁ hreads).1⟩
    | other _ => cases hc

end Operands

/-! ### Functions -/

theorem lookup_scope {params : List Param}
    (h : (params.map fun p => (p.name, Token.param p.name)).lookup x = some token) :
    token = .param x := by
  induction params with
  | nil => cases h
  | cons p params ih => grind

theorem lookup_paramBindings {args : Dict}
    (h : (paramBindings args).lookup x = some b) : b.param = some x := by
  induction args with
  | nil => cases h
  | cons a args ih =>
    rw [paramBindings, List.map_cons, List.lookup_cons] at h
    by_cases hx : x = a.1
    · grind
    · rw [beq_false_of_ne hx] at h
      exact ih h

theorem env_paramBindings (args : Dict) : (paramBindings args).env = args := by
  simp [paramBindings, Bindings.env, Function.comp_def]

namespace Machine.Keeps
variable {py : PyText} {m : Machine} {r : Rules}

theorem evaluate_call (hm : m.Keeps py r) {f : FunctionDef} {code : Code} {payload earlier : Dict}
    {v : Value} (hc : f.compile = .ok code) (hv : f.call py payload earlier = some v)
    (hfit : f.Fits py m r payload earlier) : ∃ w, m.evaluate code = some w ∧ Like v w := by
  obtain ⟨args, hargs, hv⟩ := Option.bind_eq_some_iff.1 hv
  have hready : Ready m (paramBindings args) (f.params.map fun p => (p.name, .param p.name)) 0
      m.start := by
    refine ⟨fun _ _ => rfl, fun x b hx token ht => ?_⟩
    rw [lookup_scope ht]
    exact lookup_paramBindings hx
  rw [← env_paramBindings args] at hv
  obtain ⟨regs, hrun, hlike⟩ := compileBody_runs hm hready hc hv (hfit args hargs)
  simp_all [Machine.evaluate]

end Machine.Keeps

end RuleMind.VarCode
