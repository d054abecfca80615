/-
  The published bundle: the routes that change production assets, `maybe_compile_bundle` of
  `app/main.py`, and the compilations it queues.

  A write is a transaction of the storage.  Its handler may then ask for a compilation, which
  is dropped if one was queued less than five seconds before.  A compilation reads the
  collections one after the other, then the latest version, and saves a bundle of the next
  one; handlers and compilations interleave at each of these steps.  What guards a promotion
  is left out, and so are rows that are deleted, which no bundle holds.
-/
import RuleMind.BundleCompiler
import RuleMind.Lib.Run
import Mathlib.Data.List.Nodup
import Mathlib.Tactic.IntervalCases

namespace RuleMind.Publishing

open Compiler Lib

/-! ### Collections -/

inductive Collection
  | variables
  | rules
  | scorecards
  | decisionTables
  | policies
  deriving DecidableEq, Repr

def Collection.get (k : Collection) (a : Assets) : Rows :=
  match k with
  | .variables => a.vars
  | .rules => a.rules
  | .scorecards => a.scorecards
  | .decisionTables => a.decisionTables
  | .policies => a.policies

def Collection.set (k : Collection) (a : Assets) (rows : Rows) : Assets :=
  match k with
  | .variables => { a with vars := rows }
  | .rules => { a with rules := rows }
  | .scorecards => { a with scorecards := rows }
  | .decisionTables => { a with decisionTables := rows }
  | .policies => { a with policies := rows }

def noRows : Rows := ⟨[], List.nodup_nil⟩

def noAssets : Assets := ⟨noRows, noRows, noRows, noRows, noRows, noRows⟩

def replaceRow (r : Row) (rows : List Row) : List Row :=
  rows.map fun x => if x.id = r.id then r else x

theorem replaceRow_ids (r : Row) (rows : List Row) :
    (replaceRow r rows).map (·.id) = rows.map (·.id) := by
  grind [replaceRow, List.map_congr_left]

def replace (rows : Rows) (r : Row) : Rows where
  list := replaceRow r rows.list
  ids := by
    rw [replaceRow_ids]
    exact rows.ids

def insert (rows : Rows) (r : Row) : Option Rows :=
  if h : r.id ∈ rows.list.map (·.id) then none
  else some ⟨rows.list ++ [r], by
    rw [List.map_append]
    refine List.Nodup.append rows.ids (List.pairwise_singleton _ _) fun id hid hr => ?_
    obtain rfl := List.mem_singleton.1 hr
    exact h hid⟩

def rowOf (rows : Rows) (id : String) : Option Row := rows.list.find? fun r => r.id = id

def Row.status (r : Row) : Value := (r.value.field "status").getD .null

/-- `PROMOTION_FLOW`. -/
def nextStatus : Value → Option String
  | .str s => [("dev", "uat"), ("uat", "prod")].lookup s
  | _ => none

def statusValue (v : Value) (status : String) : Value :=
  match v with
  | .dict kvs => .dict (setKey kvs "status" (.str status))
  | v => v

theorem statusValue_id (v : Value) (status : String) :
    (statusValue v status).field "id" = v.field "id" := by
  cases v with
  | dict kvs =>
    show (setKey kvs "status" _).lookup "id" = kvs.lookup "id"
    rw [lookup_setKey, if_neg (by decide)]
  | null | bool _ | int _ | float _ | inf _ | str _ | list _ => rfl

/-- The row with its status set, and nothing else. -/
def withStatus (r : Row) (status : String) : Row where
  id := r.id
  value := statusValue r.value status
  named := by
    rw [statusValue_id]
    exact r.named
  nonempty := r.nonempty

/-! ### The state -/

/-- Where a request stands: it has looked its row up, with the status it found, or it has
    written and is to ask for a compilation or not. -/
inductive Handler
  | idle
  | found (k : Collection) (id : String) (status : Value)
  | written (asks : Bool)

/-- Where a compilation stands: how many collections it has read, or the content and the
    version it is to save.  `order` says how many had begun before it. -/
inductive Phase
  | idle
  | reading (order n : ℕ) (got : Assets)
  | versioned (order : ℕ) (content : Dict) (version : ℕ)

def Phase.order : Phase → Option ℕ
  | .idle => none
  | .reading o _ _ | .versioned o _ _ => some o

structure Bundle where
  version : ℕ
  content : Dict
  superseded : Bool

def Bundle.supersede (b : Bundle) : Bundle := { b with superseded := true }

structure State where
  assets : Assets
  /-- In microseconds. -/
  now : ℕ
  lastQueued : Option ℕ
  /-- The compilations that are queued and have not begun. -/
  queued : ℕ
  begun : ℕ
  bundles : List Bundle
  handler : ℕ → Handler
  compile : ℕ → Phase

def State.init : State := ⟨noAssets, 0, none, 0, 0, [], fun _ => .idle, fun _ => .idle⟩

def State.handle (s : State) (h : ℕ) (x : Handler) : State :=
  { s with handler := Function.update s.handler h x }

def State.go (s : State) (c : ℕ) (ph : Phase) : State :=
  { s with compile := Function.update s.compile c ph }

/-- The highest version of those that are not superseded. -/
def highest : List Bundle → Option Bundle
  | [] => none
  | b :: bs =>
    match highest bs with
    | none => if b.superseded then none else some b
    | some b' => if !b.superseded && b'.version < b.version then some b else some b'

def State.latestBundle (s : State) : Option Bundle := highest s.bundles

/-! ### Steps -/

/-- `debounce_seconds`. -/
def DEBOUNCE : ℕ := 5 * 10 ^ 6

def State.debounced (s : State) : Bool := s.lastQueued.any fun t => s.now - t < DEBOUNCE

/-- `mark_bundle_compile_queued`, and the task that is added if it answers true. -/
def State.maybeCompile (s : State) (force : Bool) : State :=
  if !force && s.debounced then s
  else { s with lastQueued := some s.now, queued := s.queued + 1 }

inductive Act
  | wait (duration : ℕ)
  /-- A row is created in a collection. -/
  | create (h : ℕ) (k : Collection) (r : Row)
  | lookUp (h : ℕ) (k : Collection) (id : String)
  | update (h : ℕ) (r : Row)
  /-- The promotion by the route of the asset. -/
  | promote (h : ℕ)
  | deployPromote (h : ℕ)
  /-- The handler asks for a compilation, if it does, and returns. -/
  | finish (h : ℕ)
  | maybeCompile (force : Bool)
  | begin (c : ℕ)
  | read (c : ℕ)
  | latest (c : ℕ)
  | save (c : ℕ)

/-- `promote_entity`: the row as it is now, under the status after the one that was read. -/
def promoteEntity (s : State) (h : ℕ) : Option (Assets × String) :=
  match s.handler h with
  | .found k id status =>
    match nextStatus status, rowOf (k.get s.assets) id with
    | some target, some r =>
      if k = .decisionTables then none
      else some (k.set s.assets (replace (k.get s.assets) (withStatus r target)), target)
    | _, _ => none
  | _ => none

/-- What a request leaves of the assets, and whether its handler asks for a compilation: no
    route of a decision table does, and a batch that is deployed does not. -/
def write (s : State) : Act → Option (ℕ × Assets × Bool)
  | .create h k r =>
    match s.handler h, insert (k.get s.assets) r with
    | .idle, some rows => some (h, k.set s.assets rows, decide (k ≠ .decisionTables) && r.isProd)
    | _, _ => none
  | .update h r =>
    match s.handler h with
    | .found k id status =>
      if r.id = id then
        some (h, k.set s.assets (replace (k.get s.assets) r),
          decide (k ≠ .decisionTables) && (status == .str "prod" || r.isProd))
      else none
    | _ => none
  | .promote h => (promoteEntity s h).map fun p => (h, p.1, p.2 == "prod")
  | .deployPromote h => (promoteEntity s h).map fun p => (h, p.1, false)
  | _ => none

def readNext (n : ℕ) (a got : Assets) : Assets :=
  match n with
  | 0 => { got with vars := a.vars }
  | 1 => { got with rules := a.rules }
  | 2 => { got with scorecards := a.scorecards }
  | 3 => { got with decisionTables := a.decisionTables }
  | 4 => { got with policies := a.policies }
  | _ => { got with experiments := a.experiments }

section Step
variable (py : PyText) (frames : ℕ) (compileVariable : Value → Except String Value)

def step (s : State) (a : Act) : Option State :=
  match a with
  | .wait duration => some { s with now := s.now + duration }
  | .create _ _ _ | .update _ _ | .promote _ | .deployPromote _ =>
    (write s a).map fun w => { s with assets := w.2.1 }.handle w.1 (.written w.2.2)
  | .lookUp h k id =>
    match s.handler h, rowOf (k.get s.assets) id with
    | .idle, some r => some (s.handle h (.found k id (Row.status r)))
    | _, _ => none
  | .finish h =>
    match s.handler h with
    | .written asks => some ((if asks then s.maybeCompile false else s).handle h .idle)
    | _ => none
  | .maybeCompile force => some (s.maybeCompile force)
  | .begin c =>
    match s.queued, s.compile c with
    | n + 1, .idle =>
      some ({ s with queued := n, begun := s.begun + 1 }.go c (.reading s.begun 0 noAssets))
    | _, _ => none
  | .read c =>
    match s.compile c with
    | .reading o n got =>
      if n < 6 then some (s.go c (.reading o (n + 1) (readNext n s.assets got))) else none
    | _ => none
  -- an error becomes an event, and no bundle
  | .latest c =>
    match s.compile c with
    | .reading o n got =>
      if n < 6 then none
      else match compileBundle py frames compileVariable got with
        | .ok content =>
          let version := (s.latestBundle.map fun b => b.version + 1).getD 1
          some (s.go c (.versioned o content version))
        | .error _ => some (s.go c .idle)
    | _ => none
  -- `uq_bundles_tenant_version`
  | .save c =>
    match s.compile c with
    | .versioned _ content version =>
      if s.bundles.any (·.version = version) then some (s.go c .idle)
      else some ({ s with
        bundles := ⟨version, content, false⟩ :: s.bundles.map Bundle.supersede }.go c .idle)
    | _ => none

/-- Nothing is pending: no write, no request for a compilation, and no compilation. -/
structure Quiescent (s : State) : Prop where
  queued : s.queued = 0
  handlers : ∀ h, s.handler h = .idle
  compilations : ∀ c, s.compile c = .idle

/-- If the assets compile, the latest bundle is what they compile to. -/
def Current (s : State) : Prop :=
  ∀ content, compileBundle py frames compileVariable s.assets = .ok content →
    ∃ b, s.latestBundle = some b ∧ b.content = content

end Step

def view (n : ℕ) (a : Assets) : List Row :=
  match n with
  | 0 => a.vars.prod
  | 1 => a.rules.prod
  | 2 => a.scorecards.prod
  | 3 => a.decisionTables.prod
  | 4 => a.policies.prod
  | _ => a.experiments.list.filter fun e => e.value.field "status" = some (.str "running")

def SameProd (a b : Assets) : Prop := ∀ n < 6, view n a = view n b

def Awaited (s : State) : Prop := 0 < s.queued ∨ ∃ h, s.handler h = .written true

def NewestUnderWay (s : State) (c : ℕ) : Prop := (s.compile c).order.map (· + 1) = some s.begun

/-- A change of production assets is compiled again: the handler will ask for it, or a
    compilation is still to begin.  A request for one is not dropped, unless one is queued.
    A bundle is saved, and under a version of its own, by the compilation that began last;
    or one that began later is under way, or is still to begin. -/
def Followed (s : State) : Act → Prop
  | .finish h => s.handler h = .written true → s.debounced = false ∨ 0 < s.queued
  | .save c =>
    (NewestUnderWay s c ∧
      ∀ o content version, s.compile c = .versioned o content version →
        ∀ b ∈ s.bundles, b.version ≠ version) ∨
    (∃ d, d ≠ c ∧ NewestUnderWay s d) ∨ Awaited s
  | a => ∀ w, write s a = some w → SameProd s.assets w.2.1 ∨ w.2.2 = true ∨ Awaited s

section Views
variable {py : PyText} {frames : ℕ} {compileVariable : Value → Except String Value}

theorem compileBundle_view {a b : Assets} (h : SameProd a b) :
    compileBundle py frames compileVariable a = compileBundle py frames compileVariable b := by
  have hvars : a.vars.prod = b.vars.prod := h 0 (by omega)
  have hrules : a.rules.prod = b.rules.prod := h 1 (by omega)
  have hcards : a.scorecards.prod = b.scorecards.prod := h 2 (by omega)
  have htables : a.decisionTables.prod = b.decisionTables.prod := h 3 (by omega)
  have hpolicies : a.policies.prod = b.policies.prod := h 4 (by omega)
  have hrunning : a.experiments.list.filter (fun e => e.value.field "status" = some (.str "running"))
      = b.experiments.list.filter (fun e => e.value.field "status" = some (.str "running")) :=
    h 5 (by omega)
  simp_all [compileBundle]

theorem view_readNext {n i : ℕ} (hn : n < 6) (hi : i < n + 1) (a got : Assets) :
    view i (readNext n a got) = if i = n then view i a else view i got := by
  interval_cases n <;> interval_cases i <;> rfl

theorem SameProd.symm {a b : Assets} (h : SameProd a b) : SameProd b a := fun n hn => (h n hn).symm

theorem highest_supersede (bs : List Bundle) : highest (bs.map Bundle.supersede) = none := by
  induction bs with
  | nil => rfl
  | cons b bs ih =>
    rw [List.map_cons, highest, ih]
    rfl

theorem highest_saved (bs : List Bundle) (version : ℕ) (content : Dict) :
    highest (⟨version, content, false⟩ :: bs.map Bundle.supersede) =
      some ⟨version, content, false⟩ := by
  rw [highest, highest_supersede]
  rfl

end Views

/-! ### The invariant -/

section Invariant
variable (py : PyText) (frames : ℕ) (compileVariable : Value → Except String Value)

/-- A compilation has read the assets as they are. -/
def Matches (a : Assets) : Phase → Prop
  | .idle => False
  | .reading _ n got => ∀ i < n, i < 6 → view i got = view i a
  | .versioned _ content _ => compileBundle py frames compileVariable a = .ok content

/-- A change is still to be compiled, or the compilation that began last has seen them all,
    or it has ended and left a bundle of them. -/
structure Inv (s : State) : Prop where
  order : ∀ c o, (s.compile c).order = some o → o < s.begun
  unique : ∀ c d o, (s.compile c).order = some o → (s.compile d).order = some o → c = d
  fresh : Awaited s ∨
    (∃ c, NewestUnderWay s c ∧ Matches py frames compileVariable s.assets (s.compile c)) ∨
    ((∀ c, ¬ NewestUnderWay s c) ∧ Current py frames compileVariable s)

end Invariant

section Steps
variable {py : PyText} {frames : ℕ} {compileVariable : Value → Except String Value}
variable {s s' : State}

variable {ph : Phase} {a : Act} {w : ℕ × Assets × Bool} {n : ℕ} {got : Assets}

theorem Matches.same {a b : Assets} (h : Matches py frames compileVariable a ph)
    (hab : SameProd a b) : Matches py frames compileVariable b ph := by
  cases ph with
  | idle => exact h
  | reading o n got => exact fun i hi hi6 => (h i hi hi6).trans (hab i hi6)
  | versioned o content v => exact (compileBundle_view hab.symm).trans h

theorem newest_iff (c : ℕ) : NewestUnderWay s c ↔
    ∃ o, (s.compile c).order = some o ∧ o + 1 = s.begun := by
  simp [NewestUnderWay, Option.map_eq_some_iff]

variable {c o : ℕ}

theorem Inv.newest_unique (h : Inv py frames compileVariable s) {d : ℕ}
    (hc : NewestUnderWay s c) (hd : NewestUnderWay s d) : c = d := by
  obtain ⟨o, ho, hob⟩ := (newest_iff c).1 hc
  obtain ⟨o', ho', hob'⟩ := (newest_iff d).1 hd
  obtain rfl : o = o' := by omega
  exact h.unique c d o ho ho'

theorem inv_init : Inv py frames compileVariable State.init where
  order c o h := by cases h
  unique c d o h := by cases h
  fresh := by
    refine Or.inr (Or.inr ⟨fun c h => ?_, fun content h => ?_⟩)
    · cases h
    · cases h

theorem Inv.handled (h : Inv py frames compileVariable s) (hcompile : s'.compile = s.compile)
    (hbegun : s'.begun = s.begun) (hbundles : s'.bundles = s.bundles)
    (hstep : Awaited s' ∨ (¬ Awaited s ∧ SameProd s.assets s'.assets)) :
    Inv py frames compileVariable s' where
  order c o ho := by
    rw [hbegun]
    exact h.order c o (hcompile ▸ ho)
  unique c d o hc hd := h.unique c d o (hcompile ▸ hc) (hcompile ▸ hd)
  fresh := by
    have hnewest : ∀ c, NewestUnderWay s' c ↔ NewestUnderWay s c := fun c => by
      rw [NewestUnderWay, NewestUnderWay, hcompile, hbegun]
    rcases hstep with hawaited | ⟨hnot, hsame⟩
    · exact Or.inl hawaited
    · refine Or.inr ?_
      rcases h.fresh with hawaited | ⟨c, hc, hmatch⟩ | ⟨hnone, hcurrent⟩
      · exact absurd hawaited hnot
      · refine Or.inl ⟨c, (hnewest c).2 hc, ?_⟩
        rw [hcompile]
        exact hmatch.same hsame
      · refine Or.inr ⟨fun c hc => hnone c ((hnewest c).1 hc), fun content hcontent => ?_⟩
        obtain ⟨b, hb, hbc⟩ := hcurrent content ((compileBundle_view hsame).trans hcontent)
        simp_all [State.latestBundle]

theorem awaited_handle (h : ℕ) (x : Handler) (hne : s.handler h ≠ .written true)
    (hs : Awaited s) : Awaited (s.handle h x) := by
  rcases hs with hq | ⟨h', hh'⟩
  · exact Or.inl hq
  · have : h' ≠ h := by
      rintro rfl
      exact hne hh'
    refine Or.inr ⟨h', ?_⟩
    simp [State.handle, this, hh']

theorem promoteEntity_handler {h : ℕ} {p : Assets × String} (hp : promoteEntity s h = some p) :
    s.handler h ≠ .written true := by
  intro hh
  simp [promoteEntity, hh] at hp

theorem write_handler (hw : write s a = some w) : s.handler w.1 ≠ .written true := by
  cases a with
  | create h k r => grind [write]
  | update h r => grind [write]
  | promote h | deployPromote h =>
    obtain ⟨p, hp, rfl⟩ := Option.map_eq_some_iff.1 hw
    exact promoteEntity_handler hp
  | _ => cases hw

theorem Inv.write (h : Inv py frames compileVariable s) (hw : Publishing.write s a = some w)
    (hok : SameProd s.assets w.2.1 ∨ w.2.2 = true ∨ Awaited s) :
    Inv py frames compileVariable ({ s with assets := w.2.1 }.handle w.1 (.written w.2.2)) := by
  refine h.handled rfl rfl rfl ?_
  by_cases hs : Awaited s
  · have hne : s.handler w.1 ≠ .written true := write_handler hw
    exact Or.inl (awaited_handle (s := { s with assets := w.2.1 }) _ _ hne hs)
  · rcases hok with hsame | hasks | hs'
    · exact Or.inr ⟨hs, hsame⟩
    · refine Or.inl (Or.inr ⟨w.1, ?_⟩)
      simp [State.handle, hasks]
    · exact absurd hs' hs

theorem maybeCompile_awaited (force : Bool) (hs : Awaited s) : Awaited (s.maybeCompile force) := by
  unfold State.maybeCompile
  split
  · exact hs
  · exact Or.inl (Nat.succ_pos _)

theorem Inv.maybeCompile (h : Inv py frames compileVariable s) (force : Bool) :
    Inv py frames compileVariable (s.maybeCompile force) := by
  by_cases hs : Awaited s
  · exact h.handled (by unfold State.maybeCompile; split <;> rfl)
      (by unfold State.maybeCompile; split <;> rfl)
      (by unfold State.maybeCompile; split <;> rfl) (Or.inl (maybeCompile_awaited force hs))
  · unfold State.maybeCompile
    split
    · exact h
    · exact h.handled rfl rfl rfl (Or.inl (Or.inl (Nat.succ_pos _)))

theorem Inv.finish (h : Inv py frames compileVariable s) {asks : Bool}
    (hc : s.handler c = .written asks)
    (hok : s.handler c = .written true → s.debounced = false ∨ 0 < s.queued) :
    Inv py frames compileVariable ((if asks then s.maybeCompile false else s).handle c .idle) := by
  cases asks with
  | false =>
    refine h.handled rfl rfl rfl ?_
    by_cases hs : Awaited s
    · exact Or.inl (awaited_handle _ _ (by simp [hc]) hs)
    · exact Or.inr ⟨hs, fun n _ => rfl⟩
  | true =>
    have hqueued : 0 < (s.maybeCompile false).queued := by
      unfold State.maybeCompile
      rcases hok hc with hfree | hq
      · simp [hfree]
      · split
        · exact hq
        · exact Nat.succ_pos _
    exact (h.maybeCompile false).handled rfl rfl rfl (Or.inl (Or.inl hqueued))

/-! ### Compilations -/

theorem go_compile (c d : ℕ) (ph : Phase) :
    (s.go c ph).compile d = if d = c then ph else s.compile d := by
  simp [State.go, Function.update_apply]

theorem Inv.begin (h : Inv py frames compileVariable s) (c n : ℕ) :
    Inv py frames compileVariable
      ({ s with queued := n, begun := s.begun + 1 }.go c (.reading s.begun 0 noAssets)) where
  order d o hd := by
    rw [go_compile] at hd
    split at hd
    · cases hd
      exact Nat.lt_succ_self _
    · exact Nat.lt_succ_of_lt (h.order d o hd)
  unique d e o hd he := by
    rw [go_compile] at hd he
    split at hd <;> split at he
    · omega
    · cases hd
      exact absurd (h.order e _ he) (lt_irrefl _)
    · cases he
      exact absurd (h.order d _ hd) (lt_irrefl _)
    · exact h.unique d e o hd he
  fresh := by
    refine Or.inr (Or.inl ⟨c, ?_, ?_⟩)
    · rw [NewestUnderWay, go_compile, if_pos rfl]
      rfl
    · rw [go_compile, if_pos rfl]
      intro i hi
      omega

theorem Inv.go (h : Inv py frames compileVariable s) (ho : ph.order = (s.compile c).order)
    (hm : Matches py frames compileVariable s.assets (s.compile c) →
      Matches py frames compileVariable s.assets ph) :
    Inv py frames compileVariable (s.go c ph) := by
  have horder : ∀ d, ((s.go c ph).compile d).order = (s.compile d).order := by
    intro d
    rw [go_compile]
    split
    · rename_i hd
      rw [hd, ho]
    · rfl
  have hnewest : ∀ d, NewestUnderWay (s.go c ph) d ↔ NewestUnderWay s d := by
    intro d
    rw [NewestUnderWay, horder]
    rfl
  refine ⟨fun d o hd => h.order d o (horder d ▸ hd),
    fun d e o hd he => h.unique d e o (horder d ▸ hd) (horder e ▸ he), ?_⟩
  rcases h.fresh with hs | ⟨d, hd, hmatch⟩ | ⟨hnone, hcurrent⟩
  · exact Or.inl hs
  · refine Or.inr (Or.inl ⟨d, (hnewest d).2 hd, ?_⟩)
    rw [go_compile]
    split
    · rename_i hdc
      exact hm (hdc ▸ hmatch)
    · exact hmatch
  · exact Or.inr (Or.inr ⟨fun d hd => hnone d ((hnewest d).1 hd), hcurrent⟩)

/-- A compilation ends: it leaves a change that is still to be compiled, or the compilation
    that began last, or what is there is current. -/
theorem Inv.ended (h : Inv py frames compileVariable s) (bundles : List Bundle)
    (hend : Awaited s ∨ (∃ d, d ≠ c ∧ NewestUnderWay s d) ∨
      (NewestUnderWay s c ∧ (Matches py frames compileVariable s.assets (s.compile c) →
        Current py frames compileVariable { s with bundles := bundles })) ∨
      (¬ NewestUnderWay s c ∧ bundles = s.bundles)) :
    Inv py frames compileVariable ({ s with bundles := bundles }.go c .idle) := by
  have hcompile : ∀ d, ({ s with bundles := bundles }.go c .idle).compile d =
      if d = c then .idle else s.compile d := fun d => go_compile c d .idle
  have horder : ∀ d o, (({ s with bundles := bundles }.go c .idle).compile d).order = some o →
      d ≠ c ∧ (s.compile d).order = some o := by
    intro d o hd
    rw [hcompile] at hd
    split at hd
    · cases hd
    · exact ⟨by assumption, hd⟩
  have hnewest : ∀ d, NewestUnderWay ({ s with bundles := bundles }.go c .idle) d ↔
      d ≠ c ∧ NewestUnderWay s d := by
    intro d
    rw [newest_iff, newest_iff]
    constructor
    · rintro ⟨o, hd, hb⟩
      exact ⟨(horder d o hd).1, o, (horder d o hd).2, hb⟩
    · rintro ⟨hne, o, hd, hb⟩
      refine ⟨o, ?_, hb⟩
      rw [hcompile, if_neg hne]
      exact hd
  have hkept : ∀ d, d ≠ c → NewestUnderWay s d →
      Matches py frames compileVariable s.assets (s.compile d) →
      ∃ e, NewestUnderWay ({ s with bundles := bundles }.go c .idle) e ∧
        Matches py frames compileVariable s.assets
          (({ s with bundles := bundles }.go c .idle).compile e) := by
    intro d hne hd hmatch
    refine ⟨d, (hnewest d).2 ⟨hne, hd⟩, ?_⟩
    rw [hcompile, if_neg hne]
    exact hmatch
  refine ⟨fun d o hd => h.order d o (horder d o hd).2,
    fun d e o hd he => h.unique d e o (horder d o hd).2 (horder e o he).2, ?_⟩
  by_cases hs : Awaited s
  · exact Or.inl hs
  rcases h.fresh with hs' | ⟨d, hd, hmatch⟩ | ⟨hnone, hcurrent⟩
  · exact absurd hs' hs
  · -- the compilation that began last is `d`
    by_cases hdc : d = c
    · rcases hend with hs' | ⟨e, hec, he⟩ | ⟨hc, hleft⟩ | ⟨hc, -⟩
      · exact absurd hs' hs
      · exact absurd (h.newest_unique he (hdc ▸ hd)) hec
      · refine Or.inr (Or.inr ⟨fun e he => ?_, hleft (hdc ▸ hmatch)⟩)
        obtain ⟨hec, he⟩ := (hnewest e).1 he
        exact hec (h.newest_unique he hc)
      · exact absurd (hdc ▸ hd) hc
    · exact Or.inr (Or.inl (hkept d hdc hd hmatch))
  · rcases hend with hs' | ⟨e, -, he⟩ | ⟨hc, -⟩ | ⟨-, hb⟩
    · exact absurd hs' hs
    · exact absurd he (hnone e)
    · exact absurd hc (hnone c)
    · refine Or.inr (Or.inr ⟨fun e he => hnone e ((hnewest e).1 he).2, ?_⟩)
      rw [hb]
      exact hcurrent

theorem Inv.read (h : Inv py frames compileVariable s)
    (hc : s.compile c = .reading o n got) (hn : n < 6) :
    Inv py frames compileVariable (s.go c (.reading o (n + 1) (readNext n s.assets got))) := by
  refine h.go (by rw [hc]; rfl) ?_
  rw [hc]
  intro hm i hi hi6
  rw [view_readNext hn hi]
  split
  · rfl
  · exact hm i (by omega) hi6

theorem Inv.latest (h : Inv py frames compileVariable s)
    (hc : s.compile c = .reading o n got) (hn : ¬ n < 6) :
    (∀ content version, compileBundle py frames compileVariable got = .ok content →
      Inv py frames compileVariable (s.go c (.versioned o content version))) ∧
    (∀ e, compileBundle py frames compileVariable got = .error e →
      Inv py frames compileVariable (s.go c .idle)) := by
  have hsame : Matches py frames compileVariable s.assets (s.compile c) →
      SameProd got s.assets := by
    rw [hc]
    exact fun hm i hi => hm i (by omega) hi
  constructor
  · intro content version hok
    refine h.go (by rw [hc]; rfl) fun hm => ?_
    exact (compileBundle_view (hsame hm)).symm.trans hok
  · intro e herror
    refine h.ended s.bundles ?_
    by_cases hnew : NewestUnderWay s c
    · refine Or.inr (Or.inr (Or.inl ⟨hnew, fun hm content hok => ?_⟩))
      grind [compileBundle_view]
    · exact Or.inr (Or.inr (Or.inr ⟨hnew, rfl⟩))

theorem Inv.save (h : Inv py frames compileVariable s) {version : ℕ} {content : Dict}
    (hc : s.compile c = .versioned o content version) (hok : Followed s (.save c)) :
    Inv py frames compileVariable
      (if s.bundles.any (·.version = version) then s.go c .idle
        else { s with
          bundles := ⟨version, content, false⟩ :: s.bundles.map Bundle.supersede }.go c .idle) := by
  split
  · rename_i htaken
    refine h.ended s.bundles ?_
    rcases hok with ⟨-, hfree⟩ | hlater | hs
    · grind
    · exact Or.inr (Or.inl hlater)
    · exact Or.inl hs
  · refine h.ended _ ?_
    rcases hok with ⟨hnew, -⟩ | hlater | hs
    · refine Or.inr (Or.inr (Or.inl ⟨hnew, fun hm content' hcontent' => ?_⟩))
      rw [hc] at hm
      have heq : content = content' := Except.ok.inj (hm.symm.trans hcontent')
      exact ⟨_, highest_saved s.bundles version content, heq⟩
    · exact Or.inr (Or.inl hlater)
    · exact Or.inl hs

theorem Inv.step (h : Inv py frames compileVariable s) {a : Act} (hok : Followed s a)
    (hs : step py frames compileVariable s a = some s') : Inv py frames compileVariable s' := by
  cases a with
  | wait duration =>
    cases hs
    refine h.handled rfl rfl rfl ?_
    by_cases hawaited : Awaited s
    · exact Or.inl hawaited
    · exact Or.inr ⟨hawaited, fun n _ => rfl⟩
  | create _ _ _ | update _ _ | promote _ | deployPromote _ =>
    obtain ⟨w, hw, rfl⟩ := Option.map_eq_some_iff.1 hs
    exact h.write hw (hok w hw)
  | lookUp c k id =>
    simp only [Publishing.step] at hs
    split at hs
    · rename_i hidle _
      cases hs
      refine h.handled rfl rfl rfl ?_
      by_cases hawaited : Awaited s
      · exact Or.inl (awaited_handle _ _ (by simp [hidle]) hawaited)
      · exact Or.inr ⟨hawaited, fun n _ => rfl⟩
    · cases hs
  | finish c =>
    simp only [Publishing.step] at hs
    split at hs
    · rename_i asks hc
      cases hs
      exact h.finish hc hok
    · cases hs
  | maybeCompile force =>
    cases hs
    exact h.maybeCompile force
  | begin c =>
    simp only [Publishing.step] at hs
    split at hs
    · cases hs
      exact h.begin c _
    · cases hs
  | read c =>
    simp only [Publishing.step] at hs
    split at hs
    · rename_i hc
      split at hs
      · cases hs
        exact h.read hc (by assumption)
      · cases hs
    · cases hs
  | latest c =>
    simp only [Publishing.step] at hs
    split at hs
    · rename_i hc
      split at hs
      · cases hs
      · rename_i hn
        split at hs
        · cases hs
          exact (h.latest hc hn).1 _ _ (by assumption)
        · cases hs
          exact (h.latest hc hn).2 _ (by assumption)
    · cases hs
  | save c =>
    simp only [Publishing.step] at hs
    split at hs
    · rename_i hc
      have hinv := h.save hc hok
      grind
    · cases hs

/-- In every run whose steps meet the condition, once nothing is pending the latest bundle is
    what the assets compile to. -/
theorem bundle_current (h : Reach (step py frames compileVariable) Followed State.init s)
    (hq : Quiescent s) : Current py frames compileVariable s := by
  have hinv : Inv py frames compileVariable s :=
    h.invariant inv_init fun _ _ _ hi hok hs => hi.step hok hs
  have hnone : ∀ c, ¬ NewestUnderWay s c := by
    intro c hc
    rw [NewestUnderWay, hq.compilations c] at hc
    cases hc
  rcases hinv.fresh with (hqueued | ⟨c, hc⟩) | ⟨c, hc, -⟩ | ⟨-, hcurrent⟩
  · exact absurd hq.queued (by omega)
  · rw [hq.handlers c] at hc
    cases hc
  · exact absurd hc (hnone c)
  · exact hcurrent

end Steps

/-! ### Runs -/

def followsNow (s : State) : Act → Bool
  | .finish _ => !s.debounced || decide (0 < s.queued)
  | .save c => ((s.compile c).order.map (· + 1) == some s.begun) &&
      match s.compile c with
      | .versioned _ _ version => s.bundles.all (·.version != version)
      | _ => true
  | a => (write s a).all fun w => w.2.2 || decide (0 < s.queued)

theorem followed_of_now {s : State} {a : Act} (h : followsNow s a = true) : Followed s a := by
  have hwrite : ((write s a).all fun w => w.2.2 || decide (0 < s.queued)) = true →
      ∀ w, write s a = some w → SameProd s.assets w.2.1 ∨ w.2.2 = true ∨ Awaited s := by
    intro hall w hw
    rw [hw] at hall
    rcases Bool.or_eq_true_iff.1 hall with hasks | hq
    · exact Or.inr (Or.inl hasks)
    · exact Or.inr (Or.inr (Or.inl (of_decide_eq_true hq)))
  cases a with
  | finish c =>
    intro _
    rcases Bool.or_eq_true_iff.1 h with hfree | hq
    · exact Or.inl (by simpa using hfree)
    · exact Or.inr (of_decide_eq_true hq)
  | save c =>
    obtain ⟨hnew, hfree⟩ := Bool.and_eq_true_iff.1 h
    refine Or.inl ⟨by simpa [NewestUnderWay] using hnew, fun o content version hc b hb => ?_⟩
    grind -ring -linarith
  | _ => exact hwrite h

def noCode : Value → Except String Value := fun _ => .error "unsupported"

def ageRule : Row where
  id := "age"
  value := .dict [("id", .str "age"), ("name", .str "age"), ("nodes", .list []),
    ("status", .str "prod")]
  named := rfl
  nonempty := by decide

def limitTable (rows : List Value) : Row where
  id := "limits"
  value := .dict [("id", .str "limits"), ("name", .str "limits"), ("rows", .list rows),
    ("status", .str "prod")]
  named := rfl
  nonempty := by decide

def compilation (c : ℕ) : List Act :=
  [Act.begin c] ++ List.replicate 6 (Act.read c) ++ [Act.latest c, Act.save c]

def ruleRun : List Act := [Act.create 0 .rules ageRule, Act.finish 0] ++ compilation 0

theorem ruleRun_enabled :
    (exec (step asciiText 10 noCode) State.init ruleRun).isSome = true := by decide +kernel

theorem rule_published : ∃ s b, Reach (step asciiText 10 noCode) Followed State.init s ∧
    s.latestBundle = some b ∧ compileBundle asciiText 10 noCode s.assets = .ok b.content := by
  have hget := (Option.some_get ruleRun_enabled).symm
  have hreach : Reach (step asciiText 10 noCode) Followed State.init _ :=
    (reach_exec hget (show Along _ (fun s a => followsNow s a = true) _ _ by decide +kernel)).mono
      fun _ _ => followed_of_now
  obtain ⟨content, hcontent⟩ := Option.isSome_iff_exists.1
    (show (compileBundle asciiText 10 noCode ((exec (step asciiText 10 noCode) State.init
      ruleRun).get ruleRun_enabled).assets).toOption.isSome = true by decide +kernel)
  have hquiet : Quiescent ((exec (step asciiText 10 noCode) State.init ruleRun).get
      ruleRun_enabled) := by
    refine ⟨by decide +kernel, fun h => ?_, fun c => ?_⟩
    · cases h <;> rfl
    · cases c <;> rfl
  obtain ⟨b, hb, rfl⟩ := bundle_current hreach hquiet content (toOption_eq_some.1 hcontent)
  exact ⟨_, b, hreach, hb, toOption_eq_some.1 hcontent⟩

/-- The rule is published with an empty table, and the table is edited a minute later. -/
def tableRun : List Act :=
  ([.create 0 .decisionTables (limitTable []), .finish 0] : List Act) ++ ruleRun ++
    ([.wait (60 * 10 ^ 6), .lookUp 0 .decisionTables "limits",
      .update 0 (limitTable [.dict [("id", .str "row")]]), .finish 0] : List Act)

theorem tableRun_enabled :
    (exec (step asciiText 10 noCode) State.init tableRun).isSome = true := by decide +kernel

/-- No route of a decision table asks for a compilation: the bundle holds the table as it was. -/
theorem table_not_published : ∃ s, Reachable (step asciiText 10 noCode) State.init s ∧
    Quiescent s ∧ ¬ Current asciiText 10 noCode s := by
  refine ⟨_, reachable_exec (Option.some_get tableRun_enabled).symm, ⟨by decide +kernel,
    fun h => ?_, fun c => ?_⟩, fun hcurrent => ?_⟩
  · cases h <;> rfl
  · cases c <;> rfl
  · obtain ⟨content, hcontent⟩ := Option.isSome_iff_exists.1
      (show (compileBundle asciiText 10 noCode ((exec (step asciiText 10 noCode) State.init
        tableRun).get tableRun_enabled).assets).toOption.isSome = true by decide +kernel)
    obtain ⟨b, hb, hbc⟩ := hcurrent content (toOption_eq_some.1 hcontent)
    have hsame : (compileBundle asciiText 10 noCode ((exec (step asciiText 10 noCode) State.init
        tableRun).get tableRun_enabled).assets).toOption =
      ((exec (step asciiText 10 noCode) State.init tableRun).get
        tableRun_enabled).latestBundle.map Bundle.content := by
      rw [hcontent, hb, ← hbc]
      rfl
    exact absurd hsame (by decide +kernel)

end RuleMind.Publishing
