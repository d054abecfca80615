/-
  The two ways to execute a variable, `app/sandbox.py`: `_execute_in_process` in a worker of the
  pool, on copies of the arguments, and `_execute_inline` in the process of the API, which keeps
  the function of a source, with its globals, for later calls.

  The interpreter is a parameter, `Python`: what is in a process (`World`), and how an object
  looks from outside, with all that can be reached from it (`View`).
-/
import RuleMind.Sandbox
import Mathlib.Data.List.GetD

namespace RuleMind.Sandbox

/-! ### A process -/

structure Python (World Ref View : Type) where
  validate : String → Except String Unit
  /-- `exec` of a source in a new namespace: the namespace after it. -/
  exec : World → String → Except String (List (String × Ref)) × World
  call : World → Ref → List Ref → Except String Ref × World
  /-- A new object that looks like this: a display, or what is unpickled. -/
  load : World → View → Ref × World
  view : World → Ref → View
  /-- The object exists. -/
  live : World → Ref → Prop
  /-- How the modules and the builtins of the process look. -/
  shared : World → View
  isCallable : View → Bool
  /-- `getattr(value, "__rulemind_variable__", False)`. -/
  isDecorated : View → Bool
  /-- `len(inspect.signature(function).parameters)`. -/
  parameters : View → Except String ℕ
  /-- `{"connectors": {}}`. -/
  connectors : View
  /-- `{}`. -/
  emptyDict : View

section Modes

variable {World Ref View : Type} (P : Python World Ref View)

/-- `resolve_callable`, of objects that look as `view` says. -/
def resolveCallable {α : Type} (view : α → View) (bindings : List (String × α)) : Except String α :=
  match bindings.find? fun b => P.isCallable (view b.2) && P.isDecorated (view b.2) with
  | some b => .ok b.2
  | none =>
    match bindings.find? fun b => P.isCallable (view b.2) && !"_".toList.isPrefixOf b.1.toList &&
        b.1 ∉ ["variable", "restricted_import", "resolve_callable"] with
    | some b => .ok b.2
    | none => .error "No callable variable function found."

/-- The function of a source and the number of its parameters. -/
def prepare (w : World) (code : String) : Except String (Ref × ℕ) × World :=
  match P.validate code with
  | .error e => (.error e, w)
  | .ok () =>
    let (bindings, w') := P.exec w code
    (do let function ← resolveCallable P (P.view w') (← bindings)
        let parameterCount ← P.parameters (P.view w' function)
        return (function, parameterCount), w')

def invoke (w : World) (function : Ref) (parameterCount : ℕ) (payload variablesMap : Ref) :
    Except String Ref × World :=
  if 3 ≤ parameterCount then
    let (connectors, w') := P.load w P.connectors
    P.call w' function [payload, variablesMap, connectors]
  else P.call w function [payload, variablesMap]

/-- `value` and `error` of a result. -/
def answer (result : Except String Ref × World) : Except String View :=
  result.1.map (P.view result.2)

def executeInProcess (w : World) (code : String) (payload variablesMap : Ref) :
    Except String Ref × World :=
  match prepare P w code with
  | (.error e, w') => (.error e, w')
  | (.ok (function, parameterCount), w') => invoke P w' function parameterCount payload variablesMap

structure Inline (World Ref : Type) where
  world : World
  /-- `_function_cache`. -/
  functions : BoundedCache (Ref × ℕ)

def executeInline (sha256 : String → String) (capacity : ℕ) (s : Inline World Ref) (code : String)
    (payload variablesMap : Ref) : Except String Ref × Inline World Ref :=
  match s.functions.get (sha256 code) with
  | some (function, parameterCount) =>
    let (result, w) := invoke P s.world function parameterCount payload variablesMap
    (result, { s with world := w })
  | none =>
    match prepare P s.world code with
    | (.error e, w') => (.error e, { s with world := w' })
    | (.ok (function, parameterCount), w') =>
      let (result, w) := invoke P w' function parameterCount payload variablesMap
      (result, ⟨w, s.functions.set capacity (sha256 code) (function, parameterCount)⟩)

/-- A call of `execute_variable`, with objects of the caller. -/
structure Call (Ref : Type) where
  code : String
  payload : Ref
  variablesMap : Option Ref

/-- `variables_map or {}`. -/
def context [DecidableEq View] (w : World) : Option Ref → Ref × World
  | none => P.load w P.emptyDict
  | some r => if P.view w r = P.emptyDict then P.load w P.emptyDict else (r, w)

/-- `execute_variable` under `SANDBOX_MODE=inline`. -/
def callInline [DecidableEq View] (sha256 : String → String) (capacity : ℕ) (s : Inline World Ref)
    (c : Call Ref) : Except String View × Inline World Ref :=
  let (variablesMap, w) := context P s.world c.variablesMap
  let (result, s') := executeInline P sha256 capacity { s with world := w } c.code c.payload
    variablesMap
  (result.map (P.view s'.world), s')

/-- How the variables of a call look to the caller. -/
def contextView (w : World) (variablesMap : Option Ref) : View :=
  variablesMap.elim P.emptyDict (P.view w)

/-- A task in a worker: what is pickled, executed on the copies. -/
def runTask (w : World) (code : String) (payload variablesMap : View) :
    Except String View × World :=
  let (payload', w) := P.load w payload
  let (variablesMap', w) := P.load w variablesMap
  let result := executeInProcess P w code payload' variablesMap'
  (answer P result, result.2)

/-- `execute_variable` with the pool, in the worker `i` that takes the task: `caller` is the process
    of the caller. -/
def callPool (caller : World) (workers : ℕ → World) (i : ℕ) (c : Call Ref) :
    Except String View × (ℕ → World) :=
  let (result, w) := runTask P (workers i) c.code (P.view caller c.payload)
    (contextView P caller c.variablesMap)
  (result, Function.update workers i w)

def resultsInline [DecidableEq View] (sha256 : String → String) (capacity : ℕ)
    (s : Inline World Ref) : List (Call Ref) → List (Except String View)
  | [] => []
  | c :: cs =>
    let (result, s') := callInline P sha256 capacity s c
    result :: resultsInline sha256 capacity s' cs

/-- The results of a sequence of calls, each with the worker that takes it. -/
def resultsPool (caller : World) (workers : ℕ → World) :
    List (ℕ × Call Ref) → List (Except String View)
  | [] => []
  | (i, c) :: cs =>
    let (result, workers') := callPool P caller workers i c
    result :: resultsPool caller workers' cs

/-! ### Sources that keep to themselves -/

structure Kept (w w' : World) : Prop where
  live : ∀ r, P.live w r → P.live w' r
  view : ∀ r, P.live w r → P.view w' r = P.view w r
  shared : P.shared w' = P.shared w

/-- What the code relies on: a display or an unpickled copy is a new object, and the names of a
    namespace stand for objects. -/
structure Lawful : Prop where
  load_kept : ∀ w v, Kept P w (P.load w v).2
  load_live : ∀ w v, P.live (P.load w v).2 (P.load w v).1
  load_view : ∀ w v, P.view (P.load w v).2 (P.load w v).1 = v
  exec_live : ∀ w code bindings, (P.exec w code).1 = .ok bindings →
    ∀ b ∈ bindings, P.live (P.exec w code).2 b.2

/-- The function that `prepare` finds, as it looks. -/
def prepared (result : Except String (Ref × ℕ) × World) : Except String (View × ℕ) :=
  result.1.map fun function => (P.view result.2 function.1, function.2)

/-- The source writes to nothing but what it makes itself, neither when it is executed nor when its
    function is called, and both depend on nothing but what they are given: on the modules, on how
    the function looks, and on how the arguments look. -/
structure SelfContained (code : String) : Prop where
  exec_kept : ∀ w, Kept P w (P.exec w code).2
  exec_same : ∀ w₁ w₂, P.shared w₁ = P.shared w₂ →
    (P.exec w₁ code).1.map (List.map (Prod.map id (P.view (P.exec w₁ code).2))) =
      (P.exec w₂ code).1.map (List.map (Prod.map id (P.view (P.exec w₂ code).2)))
  call_kept : ∀ w₀ w f n args, prepared P (prepare P w₀ code) = .ok (P.view w f, n) →
    Kept P w (P.call w f args).2
  call_same : ∀ w₀ w₁ w₂ f₁ f₂ n args₁ args₂,
    prepared P (prepare P w₀ code) = .ok (P.view w₁ f₁, n) → P.shared w₁ = P.shared w₂ →
    P.view w₁ f₁ = P.view w₂ f₂ → args₁.map (P.view w₁) = args₂.map (P.view w₂) →
    answer P (P.call w₁ f₁ args₁) = answer P (P.call w₂ f₂ args₂)

variable {P} {w w' w₁ w₂ : World} {code : String}

theorem Kept.refl (w : World) : Kept P w w := ⟨fun _ h => h, fun _ _ => rfl, rfl⟩

theorem Kept.trans {w'' : World} (h : Kept P w w') (h' : Kept P w' w'') : Kept P w w'' where
  live r hr := h'.live r (h.live r hr)
  view r hr := (h'.view r (h.live r hr)).trans (h.view r hr)
  shared := h'.shared.trans h.shared

theorem Kept.live_all (h : Kept P w w') {rs : List Ref} (hrs : ∀ r ∈ rs, P.live w r) :
    ∀ r ∈ rs, P.live w' r :=
  fun r hr => h.live r (hrs r hr)

theorem resolveCallable_map {α : Type} (view : α → View) (bindings : List (String × α)) :
    (resolveCallable P view bindings).map view =
      resolveCallable P id (bindings.map (Prod.map id view)) := by
  unfold resolveCallable
  rw [List.find?_map, List.find?_map]
  simp only [Function.comp_def, Prod.map_fst, Prod.map_snd, id_eq]
  cases bindings.find? fun b => P.isCallable (view b.2) && P.isDecorated (view b.2) with
  | some b => rfl
  | none =>
    simp only [Option.map_none]
    cases bindings.find? fun b => P.isCallable (view b.2) &&
        !"_".toList.isPrefixOf b.1.toList &&
        decide (b.1 ∉ ["variable", "restricted_import", "resolve_callable"]) with
    | some b => rfl
    | none => rfl

theorem resolveCallable_mem {α : Type} {view : α → View} {bindings : List (String × α)} {f : α}
    (h : resolveCallable P view bindings = .ok f) : ∃ b ∈ bindings, b.2 = f := by
  grind [resolveCallable]

theorem prepare_error {e : String} (h : P.validate code = .error e) :
    prepare P w code = (.error e, w) := by
  unfold prepare
  rw [h]

theorem prepare_ok (h : P.validate code = .ok ()) :
    prepare P w code = ((P.exec w code).1 >>= fun bindings =>
      resolveCallable P (P.view (P.exec w code).2) bindings >>= fun function =>
        P.parameters (P.view (P.exec w code).2 function) >>= fun parameterCount =>
          pure (function, parameterCount), (P.exec w code).2) := by
  unfold prepare
  rw [h]

theorem prepare_kept (hcode : SelfContained P code) : Kept P w (prepare P w code).2 := by
  cases h : P.validate code with
  | error e =>
    rw [prepare_error h]
    exact .refl w
  | ok _ =>
    rw [prepare_ok h]
    exact hcode.exec_kept w

theorem prepare_live (hP : Lawful P) {f : Ref} {n : ℕ} (h : (prepare P w code).1 = .ok (f, n)) :
    P.live (prepare P w code).2 f := by
  cases hvalid : P.validate code with
  | error e =>
    rw [prepare_error hvalid] at h
    cases h
  | ok _ =>
    rw [prepare_ok hvalid] at h ⊢
    obtain ⟨bindings, hexec, h⟩ := bind_eq_ok.1 h
    obtain ⟨f', hresolve, h⟩ := bind_eq_ok.1 h
    obtain ⟨n', _, h⟩ := bind_eq_ok.1 h
    cases h
    obtain ⟨b, hb, rfl⟩ := resolveCallable_mem hresolve
    exact hP.exec_live w code bindings hexec b hb

theorem prepared_eq (h : P.validate code = .ok ()) :
    prepared P (prepare P w code) =
      (P.exec w code).1.map (List.map (Prod.map id (P.view (P.exec w code).2))) >>= fun looks =>
        resolveCallable P id looks >>= fun look =>
          (P.parameters look).map fun parameterCount => (look, parameterCount) := by
  rw [prepare_ok h, prepared]
  cases (P.exec w code).1 with
  | error e => rfl
  | ok bindings =>
    show ((resolveCallable P _ bindings >>= _).map _) = (resolveCallable P id _ >>= _)
    rw [← resolveCallable_map]
    cases resolveCallable P (P.view (P.exec w code).2) bindings with
    | error e => rfl
    | ok f =>
      show ((P.parameters _ >>= _).map _) = (P.parameters _).map _
      cases P.parameters (P.view (P.exec w code).2 f) with
      | error e => rfl
      | ok n => rfl

theorem prepared_same (hcode : SelfContained P code) (h : P.shared w₁ = P.shared w₂) :
    prepared P (prepare P w₁ code) = prepared P (prepare P w₂ code) := by
  cases hvalid : P.validate code with
  | error e => rw [prepare_error hvalid, prepare_error hvalid, prepared, prepared]; rfl
  | ok _ => rw [prepared_eq hvalid, prepared_eq hvalid, hcode.exec_same w₁ w₂ h]

theorem prepared_ok {f : Ref} {n : ℕ} (h : (prepare P w code).1 = .ok (f, n)) :
    prepared P (prepare P w code) = .ok (P.view (prepare P w code).2 f, n) := by
  rw [prepared, h]
  rfl

variable {w₀ : World} {f f₁ f₂ p p₁ p₂ v v₁ v₂ : Ref} {n : ℕ}

theorem invoke_kept (hP : Lawful P) (hcode : SelfContained P code)
    (h : prepared P (prepare P w₀ code) = .ok (P.view w f, n)) (hf : P.live w f) :
    Kept P w (invoke P w f n p v).2 := by
  unfold invoke
  split
  · have hload := hP.load_kept w P.connectors
    refine hload.trans (hcode.call_kept w₀ _ f n _ ?_)
    rw [h, hload.view f hf]
  · exact hcode.call_kept w₀ w f n _ h

theorem invoke_same (hP : Lawful P) (hcode : SelfContained P code)
    (h : prepared P (prepare P w₀ code) = .ok (P.view w₁ f₁, n))
    (hshared : P.shared w₁ = P.shared w₂) (hf : P.view w₁ f₁ = P.view w₂ f₂)
    (hp : P.view w₁ p₁ = P.view w₂ p₂) (hv : P.view w₁ v₁ = P.view w₂ v₂)
    (hlive₁ : ∀ r ∈ [f₁, p₁, v₁], P.live w₁ r) (hlive₂ : ∀ r ∈ [f₂, p₂, v₂], P.live w₂ r) :
    answer P (invoke P w₁ f₁ n p₁ v₁) = answer P (invoke P w₂ f₂ n p₂ v₂) := by
  unfold invoke
  split
  · have hload₁ := hP.load_kept w₁ P.connectors
    have hload₂ := hP.load_kept w₂ P.connectors
    have hview₁ : ∀ r ∈ [f₁, p₁, v₁], P.view (P.load w₁ P.connectors).2 r = P.view w₁ r :=
      fun r hr => hload₁.view r (hlive₁ r hr)
    have hview₂ : ∀ r ∈ [f₂, p₂, v₂], P.view (P.load w₂ P.connectors).2 r = P.view w₂ r :=
      fun r hr => hload₂.view r (hlive₂ r hr)
    simp only [List.forall_mem_cons] at hview₁ hview₂
    refine hcode.call_same w₀ _ _ f₁ f₂ n _ _ ?_ ?_ ?_ ?_
    · rw [h, hview₁.1]
    · rw [hload₁.shared, hload₂.shared, hshared]
    · rw [hview₁.1, hview₂.1, hf]
    · simp_all [hP.load_view]
  · refine hcode.call_same w₀ w₁ w₂ f₁ f₂ n _ _ h hshared hf ?_
    simp only [List.map_cons, List.map_nil]
    rw [hp, hv]

theorem executeInProcess_error {e : String} {w' : World} (h : prepare P w code = (.error e, w')) :
    executeInProcess P w code p v = (.error e, w') := by
  unfold executeInProcess
  rw [h]

theorem executeInProcess_ok {w' : World} (h : prepare P w code = (.ok (f, n), w')) :
    executeInProcess P w code p v = invoke P w' f n p v := by
  unfold executeInProcess
  rw [h]

theorem executeInProcess_kept (hP : Lawful P) (hcode : SelfContained P code) :
    Kept P w (executeInProcess P w code p v).2 := by
  have hkept := prepare_kept (w := w) hcode
  rcases hprepare : prepare P w code with ⟨e | ⟨f, n⟩, w'⟩
  · rw [executeInProcess_error hprepare]
    rwa [hprepare] at hkept
  · have hfound : (prepare P w code).1 = .ok (f, n) := by rw [hprepare]
    have hlive := prepare_live hP hfound
    have hlooks := prepared_ok hfound
    simp only [hprepare] at hkept hlive
    rw [show (prepare P w code).2 = w' by rw [hprepare]] at hlooks
    rw [executeInProcess_ok hprepare]
    exact hkept.trans (invoke_kept hP hcode hlooks hlive)

theorem executeInProcess_same (hP : Lawful P) (hcode : SelfContained P code)
    (hshared : P.shared w₁ = P.shared w₂) (hp : P.view w₁ p₁ = P.view w₂ p₂)
    (hv : P.view w₁ v₁ = P.view w₂ v₂) (hlive₁ : ∀ r ∈ [p₁, v₁], P.live w₁ r)
    (hlive₂ : ∀ r ∈ [p₂, v₂], P.live w₂ r) :
    answer P (executeInProcess P w₁ code p₁ v₁) = answer P (executeInProcess P w₂ code p₂ v₂) := by
  have hsame := prepared_same hcode hshared
  have hkept₁ := prepare_kept (w := w₁) hcode
  have hkept₂ := prepare_kept (w := w₂) hcode
  rcases h₁ : prepare P w₁ code with ⟨e₁ | ⟨f₁, n₁⟩, w₁'⟩
  · rcases h₂ : prepare P w₂ code with ⟨e₂ | ⟨f₂, n₂⟩, w₂'⟩
    · rw [h₁, h₂] at hsame
      cases hsame
      rw [executeInProcess_error h₁, executeInProcess_error h₂]
      rfl
    · rw [h₁, h₂] at hsame
      cases hsame
  · have hfound₁ : (prepare P w₁ code).1 = .ok (f₁, n₁) := by rw [h₁]
    have hf₁ := prepare_live hP hfound₁
    have hlooks := prepared_ok hfound₁
    rcases h₂ : prepare P w₂ code with ⟨e₂ | ⟨f₂, n₂⟩, w₂'⟩
    · rw [h₁, h₂] at hsame
      cases hsame
    · have hfound₂ : (prepare P w₂ code).1 = .ok (f₂, n₂) := by rw [h₂]
      have hf₂ := prepare_live hP hfound₂
      rw [hlooks, prepared_ok hfound₂] at hsame
      obtain ⟨hf, hn⟩ := Prod.mk.inj (Except.ok.inj hsame)
      subst hn
      rw [executeInProcess_ok h₁, executeInProcess_ok h₂]
      simp only [h₁] at hkept₁ hf₁ hf
      simp only [h₂] at hkept₂ hf₂ hf
      have hlooks' : prepared P (prepare P w₁ code) = .ok (P.view w₁' f₁, n₁) := by rw [hlooks, h₁]
      refine invoke_same hP hcode hlooks' ?_ hf ?_ ?_ ?_ ?_
      · rw [hkept₁.shared, hkept₂.shared, hshared]
      · rw [hkept₁.view p₁ (hlive₁ p₁ (by simp)), hkept₂.view p₂ (hlive₂ p₂ (by simp)), hp]
      · rw [hkept₁.view v₁ (hlive₁ v₁ (by simp)), hkept₂.view v₂ (hlive₂ v₂ (by simp)), hv]
      · exact List.forall_mem_cons.2 ⟨hf₁, hkept₁.live_all hlive₁⟩
      · exact List.forall_mem_cons.2 ⟨hf₂, hkept₂.live_all hlive₂⟩

/-! ### Sequences of calls -/

variable (P) in
/-- What a call returns alone, in a new process: it depends on the source, the payload and the
    variables. -/
def alone (fresh : World) (code : String) (payload variablesMap : View) : Except String View :=
  (runTask P fresh code payload variablesMap).1

variable {fresh caller : World}

theorem runTask_kept (hP : Lawful P) (hcode : SelfContained P code) {payload variablesMap : View} :
    Kept P w (runTask P w code payload variablesMap).2 :=
  ((hP.load_kept w payload).trans (hP.load_kept _ variablesMap)).trans
    (executeInProcess_kept hP hcode)

theorem executeInProcess_alone (hP : Lawful P) (hcode : SelfContained P code)
    (hshared : P.shared w = P.shared fresh) (hlive : ∀ r ∈ [p, v], P.live w r) :
    answer P (executeInProcess P w code p v) = alone P fresh code (P.view w p) (P.view w v) := by
  have hload := hP.load_kept fresh (P.view w p)
  have hload' := hP.load_kept (P.load fresh (P.view w p)).2 (P.view w v)
  have hlive' := hP.load_live fresh (P.view w p)
  refine executeInProcess_same hP hcode ?_ ?_ ?_ hlive ?_
  · rw [hload'.shared, hload.shared, hshared]
  · rw [hload'.view _ hlive', hP.load_view]
  · rw [hP.load_view]
  · simp only [List.forall_mem_cons]
    exact ⟨hload'.live _ hlive', hP.load_live _ _, List.forall_mem_nil _⟩

theorem runTask_alone (hP : Lawful P) (hcode : SelfContained P code)
    (hshared : P.shared w = P.shared fresh) (payload variablesMap : View) :
    (runTask P w code payload variablesMap).1 = alone P fresh code payload variablesMap := by
  have hload := hP.load_kept w payload
  have hload' := hP.load_kept (P.load w payload).2 variablesMap
  have hlive := hP.load_live w payload
  have hview : P.view (P.load (P.load w payload).2 variablesMap).2 (P.load w payload).1 =
      payload := by
    rw [hload'.view _ hlive, hP.load_view]
  have hview' := hP.load_view (P.load w payload).2 variablesMap
  have hlive_all : ∀ r ∈ [(P.load w payload).1, (P.load (P.load w payload).2 variablesMap).1],
      P.live (P.load (P.load w payload).2 variablesMap).2 r := by
    simp only [List.forall_mem_cons]
    exact ⟨hload'.live _ hlive, hP.load_live _ _, List.forall_mem_nil _⟩
  have hmodules : P.shared (P.load (P.load w payload).2 variablesMap).2 = P.shared fresh := by
    rw [hload'.shared, hload.shared, hshared]
  have halone := executeInProcess_alone hP hcode hmodules hlive_all
  rwa [hview, hview'] at halone

section Runs

variable {sha256 : String → String} {capacity : ℕ} {s : Inline World Ref} {c : Call Ref}
  {variablesMap : Option Ref}

theorem context_spec [DecidableEq View] (hP : Lawful P) (hlive : ∀ r ∈ variablesMap, P.live w r) :
    Kept P w (context P w variablesMap).2 ∧
      P.live (context P w variablesMap).2 (context P w variablesMap).1 ∧
      P.view (context P w variablesMap).2 (context P w variablesMap).1 =
        contextView P w variablesMap := by
  cases variablesMap with
  | none => exact ⟨hP.load_kept w _, hP.load_live w _, hP.load_view w _⟩
  | some r =>
    unfold context contextView
    dsimp only [Option.elim_some]
    split
    · rename_i hempty
      exact ⟨hP.load_kept w _, hP.load_live w _, (hP.load_view w _).trans hempty.symm⟩
    · exact ⟨.refl w, hlive r rfl, rfl⟩

/-- An entry of `_function_cache`: the function still looks as in a new process. -/
def Cached (P : Python World Ref View) (sha256 : String → String) (fresh w : World)
    (entry : String × Ref × ℕ) : Prop :=
  ∃ code, sha256 code = entry.1 ∧ P.live w entry.2.1 ∧
    prepared P (prepare P fresh code) = .ok (P.view w entry.2.1, entry.2.2)

structure Settled (P : Python World Ref View) (sha256 : String → String) (caller fresh : World)
    (s : Inline World Ref) : Prop where
  kept : Kept P caller s.world
  functions : ∀ entry ∈ s.functions, Cached P sha256 fresh s.world entry

theorem Cached.kept {entry : String × Ref × ℕ} (h : Cached P sha256 fresh w entry)
    (hkept : Kept P w w') : Cached P sha256 fresh w' entry := by
  obtain ⟨code, hkey, hlive, hlooks⟩ := h
  exact ⟨code, hkey, hkept.live _ hlive, by rw [hkept.view _ hlive, hlooks]⟩

theorem Settled.next (h : Settled P sha256 caller fresh s) (hkept : Kept P s.world w) :
    Settled P sha256 caller fresh { s with world := w } :=
  ⟨h.kept.trans hkept, fun entry hentry => (h.functions entry hentry).kept hkept⟩

/-- `_execute_inline` of a self-contained source: from the cache or not, it answers as in a new
    process. -/
theorem executeInline_alone (hP : Lawful P) (hcode : SelfContained P code)
    (hsha : ∀ other, sha256 other = sha256 code → other = code)
    (hshared : P.shared caller = P.shared fresh) (h : Settled P sha256 caller fresh s)
    (hlive : ∀ r ∈ [p, v], P.live s.world r) (capacity : ℕ) :
    (executeInline P sha256 capacity s code p v).1.map
        (P.view (executeInline P sha256 capacity s code p v).2.world) =
      alone P fresh code (P.view s.world p) (P.view s.world v) ∧
    Settled P sha256 caller fresh (executeInline P sha256 capacity s code p v).2 := by
  have hmodules : P.shared s.world = P.shared fresh := h.kept.shared.trans hshared
  rw [← executeInProcess_alone hP hcode hmodules hlive]
  have hsame := prepared_same hcode hmodules
  have hkept := prepare_kept (w := s.world) hcode
  unfold executeInline
  cases hget : s.functions.get (sha256 code) with
  | some entry =>
    obtain ⟨f, n⟩ := entry
    obtain ⟨code', hkey, hf, hlooks⟩ := h.functions _ (BoundedCache.get_mem hget)
    rw [hsha code' hkey] at hlooks
    refine ⟨?_, h.next (invoke_kept hP hcode hlooks hf)⟩
    -- The cached function looks like the one that a new execution would find.
    rcases hprepare : prepare P s.world code with ⟨e | ⟨f', n'⟩, w'⟩
    · rw [hprepare, hlooks] at hsame
      cases hsame
    · have hfound : (prepare P s.world code).1 = .ok (f', n') := by rw [hprepare]
      have hf' := prepare_live hP hfound
      rw [prepared_ok hfound, hlooks] at hsame
      obtain ⟨hview, hn⟩ := Prod.mk.inj (Except.ok.inj hsame)
      subst hn
      simp only [hprepare] at hkept hf' hview
      rw [executeInProcess_ok hprepare]
      exact invoke_same hP hcode hlooks hkept.shared.symm hview.symm
        (hkept.view p (hlive p (by simp))).symm (hkept.view v (hlive v (by simp))).symm
        (List.forall_mem_cons.2 ⟨hf, hlive⟩) (List.forall_mem_cons.2 ⟨hf', hkept.live_all hlive⟩)
  | none =>
    rcases hprepare : prepare P s.world code with ⟨e | ⟨f, n⟩, w'⟩
    · rw [executeInProcess_error hprepare]
      simp only [hprepare] at hkept
      exact ⟨rfl, h.next hkept⟩
    · have hfound : (prepare P s.world code).1 = .ok (f, n) := by rw [hprepare]
      have hf := prepare_live hP hfound
      rw [prepared_ok hfound] at hsame
      simp only [hprepare] at hkept hf hsame
      have hinvoke : Kept P w' (invoke P w' f n p v).2 := invoke_kept hP hcode hsame.symm hf
      rw [executeInProcess_ok hprepare]
      refine ⟨rfl, (h.next (hkept.trans hinvoke)).kept, ?_⟩
      intro entry hentry
      rcases BoundedCache.mem_set hentry with rfl | hold
      · exact ⟨code, rfl, hinvoke.live f hf, by rw [hinvoke.view f hf]; exact hsame.symm⟩
      · exact (h.functions entry hold).kept (hkept.trans hinvoke)

/-- What a call with these objects of the caller returns alone. -/
def Call.alone (P : Python World Ref View) (caller fresh : World) (c : Call Ref) :
    Except String View :=
  Sandbox.alone P fresh c.code (P.view caller c.payload) (contextView P caller c.variablesMap)

/-- The call's objects exist, and its source keeps to itself. -/
structure Call.Fine (P : Python World Ref View) (sha256 : String → String) (caller : World)
    (c : Call Ref) : Prop where
  payload : P.live caller c.payload
  variablesMap : ∀ r ∈ c.variablesMap, P.live caller r
  code : SelfContained P c.code
  digest : ∀ other, sha256 other = sha256 c.code → other = c.code

theorem callInline_alone [DecidableEq View] (hP : Lawful P) (hc : c.Fine P sha256 caller)
    (hshared : P.shared caller = P.shared fresh) (h : Settled P sha256 caller fresh s)
    (capacity : ℕ) :
    (callInline P sha256 capacity s c).1 = c.alone P caller fresh ∧
      Settled P sha256 caller fresh (callInline P sha256 capacity s c).2 := by
  have hmap : ∀ r ∈ c.variablesMap, P.live s.world r :=
    fun r hr => h.kept.live r (hc.variablesMap r hr)
  obtain ⟨hkept, hlive, hview⟩ := context_spec hP hmap
  have hp := h.kept.live _ hc.payload
  have hlive_all : ∀ r ∈ [c.payload, (context P s.world c.variablesMap).1],
      P.live (context P s.world c.variablesMap).2 r := by
    simp only [List.forall_mem_cons]
    exact ⟨hkept.live _ hp, hlive, List.forall_mem_nil _⟩
  have hinline := executeInline_alone hP hc.code hc.digest hshared (h.next hkept) hlive_all capacity
  have hcontext : contextView P s.world c.variablesMap = contextView P caller c.variablesMap := by
    cases hvariables : c.variablesMap with
    | none => rfl
    | some r => exact h.kept.view r (hc.variablesMap r hvariables)
  rw [hview, hkept.view _ hp, h.kept.view _ hc.payload, hcontext] at hinline
  exact hinline

variable {calls : List (Call Ref)} {i : ℕ}

theorem resultsInline_cons [DecidableEq View] :
    resultsInline P sha256 capacity s (c :: calls) = (callInline P sha256 capacity s c).1 ::
      resultsInline P sha256 capacity (callInline P sha256 capacity s c).2 calls := rfl

variable {workers : ℕ → World}

theorem callPool_workers :
    (callPool P caller workers i c).2 = Function.update workers i (runTask P (workers i) c.code
      (P.view caller c.payload) (contextView P caller c.variablesMap)).2 := rfl

theorem resultsPool_cons {calls : List (ℕ × Call Ref)} :
    resultsPool P caller workers ((i, c) :: calls) = (callPool P caller workers i c).1 ::
      resultsPool P caller (callPool P caller workers i c).2 calls := rfl

theorem resultsInline_alone [DecidableEq View] (hP : Lawful P)
    (hshared : P.shared caller = P.shared fresh)
    (hcalls : ∀ c ∈ calls, c.Fine P sha256 caller) (h : Settled P sha256 caller fresh s) :
    resultsInline P sha256 capacity s calls = calls.map (Call.alone P caller fresh) := by
  induction calls generalizing s with
  | nil => rfl
  | cons c calls ih => grind [callInline_alone, resultsInline_cons]

theorem resultsPool_alone (hP : Lawful P) {calls : List (ℕ × Call Ref)}
    (hcalls : ∀ c ∈ calls, c.2.Fine P sha256 caller)
    (hworkers : ∀ i, P.shared (workers i) = P.shared fresh) :
    resultsPool P caller workers calls = calls.map fun c => c.2.alone P caller fresh := by
  induction calls generalizing workers with
  | nil => rfl
  | cons c calls ih =>
    obtain ⟨i, c⟩ := c
    have hcode := (hcalls (i, c) List.mem_cons_self).code
    have hresult : (callPool P caller workers i c).1 = c.alone P caller fresh :=
      runTask_alone hP hcode (hworkers i) _ _
    have hworkers' : ∀ j, P.shared ((callPool P caller workers i c).2 j) = P.shared fresh := by
      intro j
      rw [callPool_workers]
      rcases eq_or_ne j i with rfl | hj
      · rw [Function.update_self, (runTask_kept hP hcode).shared, hworkers]
      · rw [Function.update_of_ne hj, hworkers]
    simp_all [resultsPool_cons]

/-- **Inline and pooled execution agree**, and calls are independent, as long as the sources keep
    to themselves: whatever was called before, and whichever worker takes a call, both return what
    the call returns alone, for its source and for how its payload and variables look. -/
theorem modes_agree [DecidableEq View] (hP : Lawful P) (hshared : P.shared caller = P.shared fresh)
    {workers : ℕ → World} (hworkers : ∀ i, P.shared (workers i) = P.shared fresh)
    {calls : List (ℕ × Call Ref)} (hcalls : ∀ c ∈ calls, c.2.Fine P sha256 caller) :
    resultsInline P sha256 capacity ⟨caller, []⟩ (calls.map Prod.snd) =
        calls.map (fun c => c.2.alone P caller fresh) ∧
      resultsPool P caller workers calls = calls.map fun c => c.2.alone P caller fresh := by
  have hsettled : Settled P sha256 caller fresh ⟨caller, []⟩ :=
    ⟨.refl caller, fun _ hentry => absurd hentry List.not_mem_nil⟩
  refine ⟨?_, resultsPool_alone hP hcalls hworkers⟩
  have hinline : ∀ c ∈ calls.map Prod.snd, c.Fine P sha256 caller := by
    intro c hc
    obtain ⟨c', hc', rfl⟩ := List.mem_map.1 hc
    exact hcalls c' hc'
  rw [resultsInline_alone hP hshared hinline hsettled, List.map_map]
  rfl

end Runs

end Modes

/-! ### Two variables -/

inductive Cell
  | dict
  | variableDecorator
  | json
  | int (n : ℕ)
  /-- The function of the readiness probe. -/
  | probe
  /-- The function that counts its calls, with the `n` of its globals. -/
  | counter (n : ℕ)
  deriving DecidableEq

def probeSource : String := "def rulemind_readiness_probe(payload, variables):\n    return 1\n"

def counterSource : String :=
  "n = 0\ndef v(payload, variables):\n    global n\n    n = n + 1\n    return n\n"

/-- The objects of a process: three that are always there, then these. -/
def Cell.at (cells : List Cell) : ℕ → Cell
  | 0 => dict
  | 1 => variableDecorator
  | 2 => json
  | r + 3 => cells.getD r dict

/-- The part of the interpreter that the two variables meet. -/
def tinyPython : Python (List Cell) ℕ Cell where
  validate _ := .ok ()
  exec w code :=
    if code = probeSource then
      (.ok [("__builtins__", 0), ("variable", 1), ("json", 2),
        ("rulemind_readiness_probe", w.length + 3)], w ++ [Cell.probe])
    else if code = counterSource then
      (.ok [("__builtins__", 0), ("variable", 1), ("json", 2), ("n", w.length + 3),
        ("v", w.length + 4)], w ++ [Cell.int 0, Cell.counter 0])
    else (.error "invalid syntax", w)
  call w f _ :=
    match Cell.at w f with
    | .probe => (.ok (w.length + 3), w ++ [Cell.int 1])
    | .counter n => (.ok (w.length + 3), w.set (f - 3) (Cell.counter (n + 1)) ++ [Cell.int (n + 1)])
    | _ => (.error "object is not callable", w)
  load w v := (w.length + 3, w ++ [v])
  view := Cell.at
  live w r := r < w.length + 3
  shared _ := .json
  isCallable
    | .variableDecorator | .probe | .counter _ => true
    | _ => false
  isDecorated _ := false
  parameters _ := .ok 2
  connectors := .dict
  emptyDict := .dict

theorem Cell.at_append {w new : List Cell} {r : ℕ} (h : r < w.length + 3) :
    Cell.at (w ++ new) r = Cell.at w r := by
  rcases r with _ | _ | _ | r
  · rfl
  · rfl
  · rfl
  · exact List.getD_append _ _ _ _ (by omega)

theorem Cell.at_new (w : List Cell) (c : Cell) : Cell.at (w ++ [c]) (w.length + 3) = c := by
  simp [Cell.at]

theorem tinyPython_append (w new : List Cell) : Kept tinyPython w (w ++ new) where
  live r hr := by
    have hlt : r < w.length + 3 := hr
    show r < (w ++ new).length + 3
    rw [List.length_append]
    omega
  view _ hr := Cell.at_append hr
  shared := rfl

theorem exec_probe (w : List Cell) : tinyPython.exec w probeSource =
    (.ok [("__builtins__", 0), ("variable", 1), ("json", 2),
      ("rulemind_readiness_probe", w.length + 3)], w ++ [Cell.probe]) := rfl

theorem exec_counter (w : List Cell) : tinyPython.exec w counterSource =
    (.ok [("__builtins__", 0), ("variable", 1), ("json", 2), ("n", w.length + 3),
      ("v", w.length + 4)], w ++ [Cell.int 0, Cell.counter 0]) := rfl

theorem exec_unknown {w : List Cell} {code : String} (h : code ≠ probeSource)
    (h' : code ≠ counterSource) : tinyPython.exec w code = (.error "invalid syntax", w) :=
  (if_neg h).trans (if_neg h')

theorem tinyPython_lawful : Lawful tinyPython where
  load_kept w v := tinyPython_append w [v]
  load_live w v := by
    show w.length + 3 < (w ++ [v]).length + 3
    simp
  load_view w v := Cell.at_new w v
  exec_live w code bindings h b hb := by
    have hlive : b.2 < (tinyPython.exec w code).2.length + 3 := by
      rcases eq_or_ne code probeSource with rfl | hprobe
      · rw [exec_probe] at h ⊢
        grind
      · rcases eq_or_ne code counterSource with rfl | hcounter
        · rw [exec_counter] at h ⊢
          grind
        · rw [exec_unknown hprobe hcounter] at h
          cases h
    exact hlive

theorem tinyPython_prepare (w : List Cell) :
    prepare tinyPython w probeSource = (.ok (w.length + 3, 2), w ++ [Cell.probe]) := by
  rw [prepare_ok rfl, exec_probe]
  simp [resolveCallable, tinyPython, Cell.at, bind, Except.bind, pure, Except.pure, List.isPrefixOf]

theorem probe_looks {w₀ w : List Cell} {f n : ℕ}
    (h : prepared tinyPython (prepare tinyPython w₀ probeSource) = .ok (tinyPython.view w f, n)) :
    Cell.at w f = .probe := by
  rw [tinyPython_prepare] at h
  have hview := (Prod.mk.inj (Except.ok.inj h)).1
  rw [← show tinyPython.view w f = Cell.at w f from rfl, ← hview]
  exact Cell.at_new w₀ .probe

theorem probe_call {w : List Cell} {f : ℕ} {args : List ℕ} (h : Cell.at w f = .probe) :
    tinyPython.call w f args = (.ok (w.length + 3), w ++ [Cell.int 1]) := by
  simp only [tinyPython, h]

theorem probe_selfContained : SelfContained tinyPython probeSource where
  exec_kept w := tinyPython_append w [.probe]
  exec_same w₁ w₂ _ := by
    rw [exec_probe, exec_probe]
    simp [tinyPython, Except.map, Cell.at]
  call_kept w₀ w f n args h := by
    rw [probe_call (probe_looks h)]
    exact tinyPython_append w [.int 1]
  call_same w₀ w₁ w₂ f₁ f₂ n args₁ args₂ h _ hf _ := by
    have h₁ := probe_looks h
    have h₂ : Cell.at w₂ f₂ = .probe := (show Cell.at w₁ f₁ = Cell.at w₂ f₂ from hf).symm.trans h₁
    rw [probe_call h₁, probe_call h₂, answer, answer]
    exact congrArg Except.ok ((Cell.at_new w₁ _).trans (Cell.at_new w₂ _).symm)

theorem probe_twice :
    resultsInline tinyPython id 2048 ⟨[.dict], []⟩
        [⟨probeSource, 3, none⟩, ⟨probeSource, 3, none⟩] = [.ok (.int 1), .ok (.int 1)] ∧
      resultsPool tinyPython [.dict] (fun _ => [])
        [(0, ⟨probeSource, 3, none⟩), (1, ⟨probeSource, 3, none⟩)] =
        [.ok (.int 1), .ok (.int 1)] := by
  have hfine : Call.Fine tinyPython id [.dict] ⟨probeSource, 3, none⟩ :=
    ⟨show 3 < 4 from Nat.lt_succ_self 3, fun _ h => (nomatch h), probe_selfContained, fun _ h => h⟩
  have hcalls : ∀ c ∈ [(0, (⟨probeSource, 3, none⟩ : Call ℕ)), (1, ⟨probeSource, 3, none⟩)],
      c.2.Fine tinyPython id [.dict] := by
    intro c hc
    simp only [List.mem_cons, List.not_mem_nil, or_false] at hc
    rcases hc with rfl | rfl
    · exact hfine
    · exact hfine
  have hshared : tinyPython.shared [.dict] = tinyPython.shared [] := rfl
  exact modes_agree tinyPython_lawful hshared (fun _ => rfl) hcalls

/-- **A source with state in its module** counts 1, 2 inline, and 1, 1 in the pool. -/
theorem counter_differs :
    resultsInline tinyPython id 2048 ⟨[.dict], []⟩
        [⟨counterSource, 3, none⟩, ⟨counterSource, 3, none⟩] = [.ok (.int 1), .ok (.int 2)] ∧
      resultsPool tinyPython [.dict] (fun _ => [])
        [(0, ⟨counterSource, 3, none⟩), (0, ⟨counterSource, 3, none⟩)] =
        [.ok (.int 1), .ok (.int 1)] :=
  ⟨rfl, rfl⟩

end RuleMind.Sandbox
