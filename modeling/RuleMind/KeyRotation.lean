/-
  The rotation of the master key: the runs of the script that re-encrypts the
  stored ciphertexts under a new primary key, the state file it resumes from,
  and the writers that store values while it runs.

  A run goes through the tables in the order of `TABLES`, reads a page of rows,
  commits the page as rewritten and then saves the checkpoint; it can stop after
  every one of these.
-/
import RuleMind.RotatedTables
import RuleMind.Lib.Run
import Mathlib.Algebra.GroupWithZero.Nat

namespace RuleMind.KeyRotation

open Lib

/-! ## Runs -/

/-- The state file: the cursor of each table, the tables that are done and the
    rows rewritten. -/
structure Checkpoint where
  cursors : Table → Option String
  done : List Table
  rotated : Table → Option ℕ

/-- `_load_state` without a file. -/
def Checkpoint.fresh : Checkpoint := ⟨fun _ => none, [], fun _ => none⟩

/-- Where a run stands.  `todo` is what remains of `TABLES`. -/
inductive Phase where
  /-- at the top of the loop over the tables -/
  | table (todo : List Table)
  /-- at the top of the loop over the pages of `t` -/
  | reading (t : Table) (cursor : Option String) (rotated : ℕ) (todo : List Table)
  /-- the page is read and rewritten in memory, its session open -/
  | writing (t : Table) (rotated : ℕ) (page : Page t) (todo : List Table)
  /-- the page is committed, the state file not yet written -/
  | saving (t : Table) (rotated : ℕ) (last : Option String) (todo : List Table)

structure Run where
  secrets : Secrets
  dryRun : Bool
  batchSize : ℕ
  state : Checkpoint
  totals : List (Table × ℕ)
  phase : Phase

/-- How a run ends: `finished` with its totals, with a value that no key opens,
    or with another exception. -/
inductive Report where
  | finished (dryRun : Bool) (totals : List (Table × ℕ))
  | undecryptable
  | failed
  deriving DecidableEq

/-- `main` says "Nothing left to rotate". -/
def Report.nothingLeft : Report → Bool
  | .finished dryRun totals => (totals.map Prod.snd).sum = 0 ∧ ¬ dryRun
  | _ => false

/-- The deployment: the two variables, the tables, the state file and the run
    in progress.  `report` is what the last step printed, and `stale` is not
    of the program: the state file was begun under another primary key. -/
structure State where
  secrets : Secrets
  database : Database
  stateFile : Option Checkpoint
  run : Option Run
  report : Option Report
  stale : Bool

inductive Action where
  | configure (secrets : Secrets)
  | store (t : Table) (pk : String) (cells : List (Column t × Plain))
  | remove (t : Table) (pk : String)
  | start (dryRun restart : Bool) (batchSize : ℤ)
  | turn
  | crash

/-- The in-memory checkpoint after the commit of a page. -/
def Checkpoint.advance (state : Checkpoint) (t : Table) (rotated : ℕ) : Option String → Checkpoint
  | none => { state with
      done := state.done ++ [t]
      rotated := Function.update state.rotated t (some rotated) }
  | some last => { state with
      cursors := Function.update state.cursors t (some last)
      rotated := Function.update state.rotated t (some rotated) }

/-- One turn of `rotate`. -/
def turn (s : State) (run : Run) : State :=
  match run.phase with
  | .table [] => { s with run := none, report := some (.finished run.dryRun run.totals) }
  | .table (t :: todo) =>
    if t ∈ run.state.done then
      { s with run := some { run with totals := run.totals ++ [(t, 0)], phase := .table todo } }
    else { s with run := some { run with phase := .reading t (run.state.cursors t) 0 todo } }
  | .reading t cursor rotated todo =>
    match worker run.secrets t (s.database t).rows cursor run.batchSize with
    | .error _ => { s with run := none, report := some .undecryptable }
    | .ok page => { s with run := some { run with phase := .writing t rotated page todo } }
  | .writing t rotated page todo =>
    match if run.dryRun then some (s.database t) else (s.database t).commit page.updates with
    | none => { s with run := none, report := some .failed }
    | some contents =>
      { s with
        database := Function.update s.database t contents
        run := some { run with
          state := run.state.advance t (rotated + page.updates.length) page.last
          phase := .saving t (rotated + page.updates.length) page.last todo } }
  | .saving t rotated last todo =>
    { s with
      stateFile := if run.dryRun then s.stateFile else some run.state
      run := some (last.elim
        { run with totals := run.totals ++ [(t, rotated)], phase := .table todo }
        fun cursor => { run with phase := .reading t (some cursor) rotated todo }) }

/-- The state file at the start of `rotate`. -/
def State.kept (s : State) (restart : Bool) : Option Checkpoint :=
  if restart then none else s.stateFile

def step (s : State) : Action → Option State
  | .configure secrets =>
    let other := decide (secrets.primary ≠ s.secrets.primary)
    some { s with
      secrets := secrets
      report := none
      stale := s.stale || other && (s.stateFile.isSome || s.run.isSome) }
  | .store t pk cells =>
    let stored := cells.map fun cell => (cell.1, cell.2.stored s.secrets)
    some { s with
      database := Function.update s.database t ((s.database t).store pk stored)
      report := none }
  | .remove t pk =>
    some { s with
      database := Function.update s.database t ((s.database t).remove pk)
      report := none }
  | .start dryRun restart batchSize =>
    if s.run.isSome then none
    else some { s with
      stateFile := s.kept restart
      run := some
        { secrets := s.secrets
          dryRun := dryRun
          batchSize := (max 1 batchSize).toNat
          state := (s.kept restart).getD .fresh
          totals := []
          phase := .table TABLES }
      report := none
      stale := s.stale && (s.kept restart).isSome }
  | .turn => s.run.map fun run => turn { s with report := none } run
  | .crash => some { s with run := none, report := none }

/-- Before the first run: any tables, no state file. -/
def State.initial (secrets : Secrets) (database : Database) : State :=
  { secrets, database, stateFile := none, run := none, report := none, stale := false }

/-- A real run begins without a state file or with one begun under the present
    primary key, and that key is not changed while a real run is in progress. -/
def OwnCheckpoint (s : State) : Action → Prop
  | .start dryRun restart _ => dryRun ∨ s.kept restart = none ∨ s.stale = false
  | .configure secrets => secrets.primary = s.secrets.primary ∨ ∀ run ∈ s.run, run.dryRun = true
  | _ => True

/-- No writer crosses a page between its read and its commit. -/
def Uncrossed (s : State) : Action → Prop
  | .store t pk cells => ∀ run ∈ s.run, run.dryRun = false →
      ∀ rotated page todo, run.phase = .writing t rotated page todo → ∀ update ∈ page.updates,
        ¬ (s.database t).Crosses pk (cells.map fun cell => (cell.1, cell.2.stored s.secrets)) update
  | _ => True

/-! ### Completeness -/

/-- The places that are not under the primary key. -/
def State.left (s : State) (t : Table) : Set (String × Column t) :=
  (s.database t).left s.secrets.fernetKey

/-- When the script says that nothing is left, every token of its tables opens
    under the primary key alone. -/
def State.Complete (s : State) : Prop :=
  (∃ report ∈ s.report, report.nothingLeft = true) → ∀ t, s.left t = ∅

section
variable (left : (t : Table) → Set (String × Column t))

/-- What the checkpoint says has been done has been done. -/
def Checkpoint.Valid (state : Checkpoint) : Prop :=
  (∀ t ∈ state.done, left t = ∅) ∧ ∀ t, ∀ x ∈ left t, Past (state.cursors t) x.1

def DoneBut (todo : List Table) : Prop := ∀ t, t ∈ todo ∨ left t = ∅

/-- What is left of `t` comes after the page read up to `last`. -/
def Beyond (t : Table) (last : Option String) : Prop := ∀ x ∈ left t, ∃ c ∈ last, c < x.1

/-- What a phase says has been done has been done, but for what the page in
    progress will write. -/
def Phase.Valid (K : FernetKey) : Phase → Prop
  | .table todo => DoneBut left todo
  | .reading t cursor _ todo => DoneBut left (t :: todo) ∧ ∀ x ∈ left t, Past cursor x.1
  | .writing t _ page todo => DoneBut left (t :: todo) ∧
      (∀ update ∈ page.updates, ∀ cell ∈ update.cells, cell.2.Under K) ∧
      ∀ x ∈ left t, (∃ update ∈ page.updates, update.pk = x.1 ∧ update.Writes x.2) ∨
        ∃ c ∈ page.last, c < x.1
  | .saving t _ last todo => DoneBut left (t :: todo) ∧ Beyond left t last

variable {left} {left' : (t : Table) → Set (String × Column t)}

theorem DoneBut.mono (hsub : ∀ t, left' t ⊆ left t) {todo : List Table} (h : DoneBut left todo) :
    DoneBut left' todo := by
  intro t
  obtain hmem | hdone := h t
  · exact .inl hmem
  · exact .inr (Set.subset_eq_empty (hsub t) hdone)

theorem Checkpoint.Valid.mono (hsub : ∀ t, left' t ⊆ left t) {state : Checkpoint}
    (h : state.Valid left) : state.Valid left' := by
  obtain ⟨hdone, hcursors⟩ := h
  refine ⟨fun t hmem => Set.subset_eq_empty (hsub t) (hdone t hmem), fun t x hx => ?_⟩
  exact hcursors t x (hsub t hx)

theorem Phase.Valid.mono (hsub : ∀ t, left' t ⊆ left t) {K : FernetKey} {phase : Phase}
    (h : phase.Valid left K) : phase.Valid left' K := by
  cases phase with
  | table todo => exact DoneBut.mono hsub h
  | reading t cursor rotated todo => exact ⟨h.1.mono hsub, fun x hx => h.2 x (hsub t hx)⟩
  | writing t rotated page todo => exact ⟨h.1.mono hsub, h.2.1, fun x hx => h.2.2 x (hsub t hx)⟩
  | saving t rotated last todo => exact ⟨h.1.mono hsub, fun x hx => h.2 x (hsub t hx)⟩

theorem Checkpoint.valid_fresh : Checkpoint.fresh.Valid left :=
  ⟨fun _ h => absurd h List.not_mem_nil, fun _ _ _ => trivial⟩

/-- The checkpoint after a page: its table is done when the page was empty,
    and else its cursor is the last row of the page. -/
theorem Checkpoint.Valid.advance {state : Checkpoint} (h : state.Valid left) {t : Table}
    {rotated : ℕ} {last : Option String} (hbeyond : Beyond left t last) :
    (state.advance t rotated last).Valid left := by
  obtain ⟨hdone, hcursors⟩ := h
  cases last with
  | none =>
    refine ⟨fun t' hmem => ?_, hcursors⟩
    obtain hmem | hmem := List.mem_append.1 hmem
    · exact hdone t' hmem
    · cases List.mem_singleton.1 hmem
      refine Set.eq_empty_of_forall_notMem fun x hx => ?_
      obtain ⟨c, hc, -⟩ := hbeyond x hx
      cases hc
  | some last =>
    refine ⟨hdone, fun t' x hx => ?_⟩
    show Past (Function.update state.cursors t (some last) t') x.1
    rw [Function.update_apply]
    split
    · next heq =>
      subst heq
      obtain ⟨c, hc, hlt⟩ := hbeyond x hx
      cases hc
      exact hlt
    · exact hcursors t' x hx

end

/-- The state file and the run in progress say what has been done. -/
structure Inv (s : State) : Prop where
  stateFile : s.stale = false → ∀ state ∈ s.stateFile, state.Valid s.left
  run : ∀ run ∈ s.run, run.dryRun = false → s.stale = false ∧
    run.secrets.primary = s.secrets.primary ∧ run.batchSize ≠ 0 ∧ run.state.Valid s.left ∧
      run.phase.Valid s.left s.secrets.fernetKey
  complete : s.Complete

variable {t : Table} {s s' : State} {run : Run}

theorem DoneBut.tail {left : (t : Table) → Set (String × Column t)}
    {todo : List Table} (h : DoneBut left (t :: todo)) (hdone : left t = ∅) :
    DoneBut left todo := by
  intro t'
  obtain hmem | hempty := h t'
  · obtain rfl | hmem := List.mem_cons.1 hmem
    · exact .inr hdone
    · exact .inl hmem
  · exact .inr hempty

/-- With the primary key as it is and a database in which no more is left, what
    was said to be done is still done. -/
theorem Inv.shrink (hinv : Inv s) (hsecrets : s'.secrets = s.secrets)
    (hfile : s'.stateFile = s.stateFile) (hrun : s'.run = s.run) (hstale : s'.stale = s.stale)
    (hreport : s'.report = none) (hsub : ∀ t, s'.left t ⊆ s.left t) : Inv s' := by
  refine ⟨?_, ?_, ?_⟩
  · intro hown state hstate
    rw [hfile] at hstate
    exact (hinv.stateFile (hstale ▸ hown) state hstate).mono hsub
  · intro run hmem hreal
    rw [hrun] at hmem
    obtain ⟨hown, hprimary, hsize, hstate, hphase⟩ := hinv.run run hmem hreal
    rw [hstale, hsecrets]
    exact ⟨hown, hprimary, hsize, hstate.mono hsub, hphase.mono hsub⟩
  · rintro ⟨report, hmem, -⟩
    rw [hreport] at hmem
    cases hmem

theorem left_update {contents : Contents t}
    (hsub : contents.left s.secrets.fernetKey ⊆ s.left t) (t' : Table) :
    (Function.update s.database t contents t').left s.secrets.fernetKey ⊆ s.left t' := by
  by_cases heq : t' = t
  · subst heq
    rw [Function.update_self]
    exact hsub
  · rw [Function.update_of_ne heq]
    exact subset_rfl

/-- The page read by a real run: its updates are under the primary key, and it
    leaves out nothing up to its last row. -/
theorem page_valid (hprimary : run.secrets.primary = s.secrets.primary)
    (hsize : run.batchSize ≠ 0) {cursor : Option String} {page : Page t}
    (hpast : ∀ x ∈ s.left t, Past cursor x.1)
    (h : worker run.secrets t (s.database t).rows cursor run.batchSize = .ok page) :
    (∀ update ∈ page.updates, ∀ cell ∈ update.cells, cell.2.Under s.secrets.fernetKey) ∧
      ∀ x ∈ s.left t, (∃ update ∈ page.updates, update.pk = x.1 ∧ update.Writes x.2) ∨
        ∃ c ∈ page.last, c < x.1 := by
  have hkey : run.secrets.fernetKey = s.secrets.fernetKey := congrArg FernetKey.derived hprimary
  rw [← hkey]
  constructor
  · intro update hupdate
    obtain ⟨row, -, hrotated⟩ := worker_update h hupdate
    exact (rotateRow_some hrotated).2.2.1
  · intro x hx
    have hnext := hpast x hx
    obtain ⟨value, ⟨row, hrow, hpk, hcell⟩, hnot⟩ := hx
    rw [← hpk] at hnext ⊢
    rw [← hkey] at hnot
    exact worker_covers hsize h hrow hnext hcell hnot

theorem Inv.ended (hinv : Inv s) (report : Report)
    (h : report.nothingLeft = true → ∀ t, s.left t = ∅) :
    Inv { s with run := none, report := some report } := by
  refine ⟨hinv.stateFile, ?_, ?_⟩
  · rintro _ ⟨⟩
  · rintro ⟨_, ⟨⟩, hnothing⟩
    exact h hnothing

theorem Inv.turn {s : State} {run : Run} (hinv : Inv s) (hrun : run ∈ s.run)
    (hreport : s.report = none) (hreal : run.dryRun = false) : Inv (turn s run) := by
  obtain ⟨hown, hprimary, hsize, hstate, hphase⟩ := hinv.run run hrun hreal
  have hsilent : s.Complete := hinv.complete
  rw [KeyRotation.turn]
  split
  · -- the end of the tables
    next hat =>
    rw [hat] at hphase
    exact hinv.ended _ fun _ t => (hphase t).resolve_left List.not_mem_nil
  · next t todo hat =>
    rw [hat] at hphase
    split
    · next hdone =>
      refine ⟨hinv.stateFile, ?_, hsilent⟩
      rintro _ ⟨⟩ -
      exact ⟨hown, hprimary, hsize, hstate, hphase.tail (hstate.1 t hdone)⟩
    · refine ⟨hinv.stateFile, ?_, hsilent⟩
      rintro _ ⟨⟩ -
      exact ⟨hown, hprimary, hsize, hstate, hphase, hstate.2 t⟩
  · next t cursor rotated todo hat =>
    rw [hat] at hphase
    split
    · exact hinv.ended _ fun h => absurd h Bool.false_ne_true
    · next page hpage =>
      refine ⟨hinv.stateFile, ?_, hsilent⟩
      rintro _ ⟨⟩ -
      exact ⟨hown, hprimary, hsize, hstate, hphase.1, page_valid hprimary hsize hphase.2 hpage⟩
  · next t rotated page todo hat =>
    rw [hat] at hphase
    obtain ⟨hbut, hunder, hcovers⟩ := hphase
    rw [hreal, if_neg Bool.false_ne_true]
    split
    · exact hinv.ended _ fun h => absurd h Bool.false_ne_true
    · next contents hcommit =>
      have hleft := Contents.left_commit hunder hcommit
      have hsub := left_update (s := s) fun x hx => (hleft hx).1
      refine ⟨fun hown state hfile => (hinv.stateFile hown state hfile).mono hsub, ?_, ?_⟩
      · rintro _ ⟨⟩ -
        have hbeyond : Beyond (fun t' => (Function.update s.database t contents t').left
            s.secrets.fernetKey) t page.last := by
          intro x hx
          have hx : x ∈ (Function.update s.database t contents t).left s.secrets.fernetKey := hx
          rw [Function.update_self] at hx
          obtain ⟨hx, hnot⟩ := hleft hx
          exact (hcovers x hx).resolve_left hnot
        exact ⟨hown, hprimary, hsize, (hstate.mono hsub).advance hbeyond, hbut.mono hsub, hbeyond⟩
      · rintro ⟨report, hmem, -⟩
        rw [hreport] at hmem
        cases hmem
  · next t rotated last todo hat =>
    rw [hat] at hphase
    obtain ⟨hbut, hbeyond⟩ := hphase
    refine ⟨?_, ?_, hsilent⟩
    · rw [hreal, if_neg Bool.false_ne_true]
      rintro - _ ⟨⟩
      exact hstate
    · cases last with
      | none =>
        rintro _ ⟨⟩ -
        refine ⟨hown, hprimary, hsize, hstate, hbut.tail ?_⟩
        refine Set.eq_empty_of_forall_notMem fun x hx => ?_
        obtain ⟨c, hc, -⟩ := hbeyond x hx
        cases hc
      | some last =>
        rintro _ ⟨⟩ -
        refine ⟨hown, hprimary, hsize, hstate, hbut, fun x hx => ?_⟩
        obtain ⟨c, hc, hlt⟩ := hbeyond x hx
        cases hc
        exact hlt

theorem turn_dry (hdry : run.dryRun = true) (hreport : s.report = none) :
    (turn s run).secrets = s.secrets ∧ (turn s run).database = s.database ∧
      (turn s run).stateFile = s.stateFile ∧ (turn s run).stale = s.stale ∧
      (∀ run' ∈ (turn s run).run, run'.dryRun = true) ∧
      ∀ report ∈ (turn s run).report, report.nothingLeft = false := by
  have hsilent : ∀ report ∈ s.report, report.nothingLeft = false := by
    rw [hreport]
    rintro _ ⟨⟩
  rw [KeyRotation.turn]
  split
  · simp [Report.nothingLeft, hdry]
  · grind
  · split
    · refine ⟨rfl, rfl, rfl, rfl, ?_, ?_⟩
      · rintro _ ⟨⟩
      · rintro _ ⟨⟩
        rfl
    · refine ⟨rfl, rfl, rfl, rfl, ?_, hsilent⟩
      rintro _ ⟨⟩
      exact hdry
  · simp_all
  · next t rotated last todo hat =>
    rw [if_pos hdry]
    refine ⟨rfl, rfl, rfl, rfl, ?_, hsilent⟩
    cases last with
    | none =>
      rintro _ ⟨⟩
      exact hdry
    | some last =>
      rintro _ ⟨⟩
      exact hdry

/-- **One step**, from a checkpoint of its own. -/
theorem Inv.step {s s' : State} {a : Action} (hinv : Inv s) (hown : OwnCheckpoint s a)
    (h : step s a = some s') : Inv s' := by
  cases a with
  | configure secrets =>
    cases h
    by_cases hsame : secrets.primary = s.secrets.primary
    · have hkey : secrets.fernetKey = s.secrets.fernetKey := congrArg FernetKey.derived hsame
      have hleft : ∀ t, (s.database t).left secrets.fernetKey ⊆ s.left t := by
        intro t
        rw [hkey]
        exact subset_rfl
      refine ⟨?_, ?_, ?_⟩
      · intro hfresh state hfile
        simp only [hsame, ne_eq, not_true, decide_false, Bool.false_and, Bool.or_false] at hfresh
        exact (hinv.stateFile hfresh state hfile).mono hleft
      · intro run hrun hreal
        obtain ⟨hfresh, hprimary, hsize, hstate, hphase⟩ := hinv.run run hrun hreal
        refine ⟨?_, hprimary.trans hsame.symm, hsize, hstate.mono hleft, ?_⟩
        · simp only [hsame, ne_eq, not_true, decide_false, Bool.false_and, Bool.or_false, hfresh]
        · rw [hkey]
          exact hphase.mono hleft
      · rintro ⟨_, ⟨⟩, -⟩
    · refine ⟨?_, ?_, ?_⟩
      · simp_all
      · intro run hrun hreal
        obtain hprimary | hdry := hown
        · exact absurd hprimary hsame
        · rw [hdry run hrun] at hreal
          cases hreal
      · rintro ⟨_, ⟨⟩, -⟩
  | store t pk cells =>
    cases h
    refine hinv.shrink rfl rfl rfl rfl rfl (left_update (Contents.left_store ?_))
    intro cell hcell
    obtain ⟨plain, -, rfl⟩ := List.mem_map.1 hcell
    exact stored_under s.secrets plain.2
  | remove t pk =>
    cases h
    exact hinv.shrink rfl rfl rfl rfl rfl (left_update Contents.left_remove)
  | start dryRun restart batchSize =>
    rw [KeyRotation.step] at h
    split at h
    · cases h
    · cases h
      have hkept : s.stale = false → ∀ state ∈ s.kept restart, state.Valid s.left := by
        intro hfresh state hfile
        rw [State.kept] at hfile
        split at hfile
        · cases hfile
        · exact hinv.stateFile hfresh state hfile
      have hfresh : dryRun = false → (s.stale && (s.kept restart).isSome) = false := by
        intro hreal
        obtain hdry | hnone | hfresh := hown
        · rw [hreal] at hdry
          cases hdry
        · rw [hnone, Option.isSome_none, Bool.and_false]
        · rw [hfresh, Bool.false_and]
      refine ⟨?_, ?_, ?_⟩
      · intro hstale state hfile
        have hsome : s.kept restart = some state := hfile
        simp only [hsome, Option.isSome_some, Bool.and_true] at hstale
        exact hkept hstale state hsome
      · rintro _ ⟨⟩ hreal
        refine ⟨hfresh hreal, rfl, ?_, ?_, fun t => .inl (mem_TABLES t)⟩
        · show (max 1 batchSize).toNat ≠ 0
          omega
        · cases hfile : s.kept restart with
          | none => exact Checkpoint.valid_fresh
          | some state =>
            have hstale := hfresh hreal
            rw [hfile, Option.isSome_some, Bool.and_true] at hstale
            exact hkept hstale state hfile
      · rintro ⟨_, ⟨⟩, -⟩
  | turn =>
    obtain ⟨run, hrun, rfl⟩ := Option.map_eq_some_iff.1 h
    have hquiet : Inv { s with report := none } :=
      hinv.shrink rfl rfl rfl rfl rfl fun _ => subset_rfl
    cases hdry : run.dryRun with
    | false => exact hquiet.turn hrun rfl hdry
    | true =>
      obtain ⟨hsecrets, hdatabase, hfile, hstale, hrun', hreport⟩ :=
        turn_dry (s := { s with report := none }) hdry rfl
      have hleft : ∀ t, (KeyRotation.turn { s with report := none } run).left t ⊆ s.left t := by
        intro t
        rw [State.left, hsecrets, hdatabase]
        exact subset_rfl
      refine ⟨?_, ?_, ?_⟩
      · intro hfresh state hstate
        rw [hfile] at hstate
        exact (hinv.stateFile (hstale ▸ hfresh) state hstate).mono hleft
      · intro run' hmem hreal
        rw [hrun' run' hmem] at hreal
        cases hreal
      · rintro ⟨report, hmem, hnothing⟩
        rw [hreport report hmem] at hnothing
        cases hnothing
  | crash =>
    cases h
    refine ⟨hinv.stateFile, ?_, ?_⟩
    · rintro _ ⟨⟩
    · rintro ⟨_, ⟨⟩, -⟩

theorem inv_initial (secrets : Secrets) (database : Database) :
    Inv (.initial secrets database) := by
  refine ⟨?_, ?_, ?_⟩
  · rintro - _ ⟨⟩
  · rintro _ ⟨⟩
  · rintro ⟨_, ⟨⟩, -⟩

/-! ### Plaintexts -/

/-- A step of a writer; all others are of the script or of its operator. -/
def Action.writes : Action → Bool
  | .store .. | .remove .. => true
  | _ => false

/-- What the page in progress will write says what the rows say. -/
def Pending (s : State) : Prop :=
  ∀ run ∈ s.run, run.dryRun = false → ∀ t rotated page todo,
    run.phase = .writing t rotated page todo →
      ∀ update ∈ page.updates, (s.database t).Faithful update

theorem pending_of_phase (hrun : s.run = some run)
    (h : ∀ t rotated page todo, run.phase ≠ .writing t rotated page todo) : Pending s := by
  intro run' hmem _ t rotated page todo hat
  rw [hrun] at hmem
  cases hmem
  exact absurd hat (h t rotated page todo)

theorem Pending.idle (h : s.run = none) : Pending s := by
  intro run hmem
  rw [h] at hmem
  cases hmem

theorem Pending.turn {s : State} {run : Run} (h : Pending s) (hrun : run ∈ s.run) :
    Pending (turn s run) ∧
      ∀ t, ((turn s run).database t).plaintexts = (s.database t).plaintexts := by
  rw [KeyRotation.turn]
  split
  · exact ⟨.idle rfl, fun _ => rfl⟩
  · split
    · exact ⟨pending_of_phase rfl (by rintro _ _ _ _ ⟨⟩), fun _ => rfl⟩
    · exact ⟨pending_of_phase rfl (by rintro _ _ _ _ ⟨⟩), fun _ => rfl⟩
  · split
    · exact ⟨.idle rfl, fun _ => rfl⟩
    · next t cursor rotated todo hat _ page hpage =>
      refine ⟨?_, fun _ => rfl⟩
      rintro _ ⟨⟩ - _ _ _ _ ⟨⟩ update hupdate
      obtain ⟨row, hrow, hrotated⟩ := worker_update hpage hupdate
      exact Contents.faithful_rotateRow hrow hrotated
  · next t rotated page todo hat =>
    split
    · exact ⟨.idle rfl, fun _ => rfl⟩
    · next contents hcommit =>
      refine ⟨pending_of_phase rfl (by rintro _ _ _ _ ⟨⟩), fun t' => ?_⟩
      show (Function.update s.database t contents t').plaintexts = _
      by_cases heq : t' = t
      · subst heq
        rw [Function.update_self]
        split at hcommit
        · cases hcommit
          rfl
        · next hreal =>
          have hfaithful := h run hrun (Bool.not_eq_true _ ▸ hreal) t' rotated page todo hat
          exact Contents.plaintexts_commit hfaithful hcommit
      · rw [Function.update_of_ne heq]
  · next t rotated last todo hat =>
    cases last with
    | none => exact ⟨pending_of_phase rfl (by rintro _ _ _ _ ⟨⟩), fun _ => rfl⟩
    | some last => exact ⟨pending_of_phase rfl (by rintro _ _ _ _ ⟨⟩), fun _ => rfl⟩

/-- The page in progress stays faithful when a writer changes one table, if it
    does so with the updates of that table's pages. -/
theorem Pending.write (h : Pending s) {contents : Contents t}
    (hrun : s'.run = s.run) (hdatabase : s'.database = Function.update s.database t contents)
    (hfaithful : ∀ run ∈ s.run, run.dryRun = false → ∀ rotated page todo,
      run.phase = .writing t rotated page todo → ∀ update ∈ page.updates,
        (s.database t).Faithful update → contents.Faithful update) : Pending s' := by
  intro run hmem hreal t' rotated page todo hat update hupdate
  rw [hrun] at hmem
  have hbefore := h run hmem hreal t' rotated page todo hat update hupdate
  rw [hdatabase]
  by_cases heq : t' = t
  · grind -ring -linarith
  · rw [Function.update_of_ne heq]
    exact hbefore

theorem Pending.step {s s' : State} {a : Action} (h : Pending s) (hcross : Uncrossed s a)
    (hstep : step s a = some s') : Pending s' := by
  cases a with
  | configure secrets =>
    cases hstep
    exact h
  | store t pk cells =>
    cases hstep
    refine h.write rfl rfl ?_
    intro run hrun hreal rotated page todo hat update hupdate hfaithful
    exact Contents.faithful_store hfaithful
      (hcross run hrun hreal rotated page todo hat update hupdate)
  | remove t pk =>
    cases hstep
    refine h.write rfl rfl ?_
    intro run hrun hreal rotated page todo hat update hupdate hfaithful
    exact Contents.faithful_remove hfaithful
  | start dryRun restart batchSize =>
    rw [KeyRotation.step] at hstep
    split at hstep
    · cases hstep
    · cases hstep
      exact pending_of_phase rfl (by rintro _ _ _ _ ⟨⟩)
  | turn =>
    obtain ⟨run, hrun, rfl⟩ := Option.map_eq_some_iff.1 hstep
    exact (Pending.turn (s := { s with report := none }) h hrun).1
  | crash =>
    cases hstep
    exact .idle rfl

theorem plaintexts_step {a : Action} (h : Pending s) (hscript : a.writes = false)
    (hstep : step s a = some s') (t : Table) :
    (s'.database t).plaintexts = (s.database t).plaintexts := by
  cases a with
  | configure | crash =>
    cases hstep
    rfl
  | store | remove => cases hscript
  | start dryRun restart batchSize =>
    rw [step] at hstep
    split at hstep
    · cases hstep
    · cases hstep
      rfl
  | turn =>
    obtain ⟨run, hrun, rfl⟩ := Option.map_eq_some_iff.1 hstep
    exact (Pending.turn (s := { s with report := none }) h hrun).2 t

/-- **Rotation is complete when it says so, and changes no plaintext.**  From
    any tables, with runs interrupted anywhere and writers between any two
    steps: if every real run starts from a checkpoint of its own primary key,
    "nothing left" is said only when every token is under that key; and if no
    writer crosses a page, only writers change what the tables say. -/
theorem rotation_complete (secrets : Secrets) (database : Database) :
    (∀ s, Reach step OwnCheckpoint (.initial secrets database) s → s.Complete) ∧
      ∀ s, Reach step Uncrossed (.initial secrets database) s → ∀ a s', a.writes = false →
        step s a = some s' → ∀ t, (s'.database t).plaintexts = (s.database t).plaintexts := by
  constructor
  · intro s hs
    exact (hs.invariant (inv_initial secrets database) fun _ _ _ => Inv.step).complete
  · intro s hs a s' hscript hstep t
    have hpending := hs.invariant (.idle rfl) fun _ _ _ => Pending.step
    exact plaintexts_step hpending hscript hstep t

/-! ### Runs that go wrong -/

/-- One connector, its configuration under the secret `k1`. -/
def oneConnector : Database :=
  Function.update (fun _ => ⟨[], List.nodup_nil⟩) Table.connectors
    ⟨[⟨"c1", [(.encryptedConfig, .token (.derived "k1") "old")]⟩], List.nodup_singleton _⟩

def State.values (s : State) : List Stored :=
  TABLES.flatMap fun t => (s.database t).rows.flatMap fun row => row.cells.map Prod.snd

/-- A rotation onto `k2` from beginning to end. -/
def ontoSecond : List Action := .start false false 500 :: List.replicate 32 .turn

/-- The rotation onto `k3`, with the state file of the one before it. -/
def ontoThird : List Action :=
  [Action.configure ⟨"k3", ["k2"]⟩, .start false false 500] ++ List.replicate 8 Action.turn

/-- A page is read, and its row is written anew before the page is committed. -/
def crossing : List Action :=
  [.start false false 500, .turn, .turn,
    .store .connectors "c1" [(.encryptedConfig, .secret "new")]]

/-- **The state file of an earlier rotation misleads the next.**  It names no
    key: the rotation onto `k3` skips every table, says that nothing is left
    and has rotated nothing.  And a value that a writer stores between the read
    of its page and the commit is replaced by the one before it. -/
theorem old_checkpoint_misleads :
    (∃ s, Reachable step (.initial ⟨"k2", ["k1"]⟩ oneConnector) s ∧
      (∀ value ∈ s.values, ∃ plaintext, decrypt s.secrets value = .ok plaintext) ∧
      ¬ s.Complete) ∧
    ∃ s s', Reachable step (.initial ⟨"k2", ["k1"]⟩ oneConnector) s ∧
      step s .turn = some s' ∧
      (s'.database .connectors).plaintexts ≠ (s.database .connectors).plaintexts := by
  constructor
  · have hrun : (exec step (.initial ⟨"k2", ["k1"]⟩ oneConnector) (ontoSecond ++ ontoThird)).map
        (fun s => (s.secrets, s.report, s.values, (s.database .connectors).rows)) =
        some (⟨"k3", ["k2"]⟩, some (.finished false (TABLES.map fun t => (t, 0))),
          [.token (.derived "k2") "old"],
          [⟨"c1", [(.encryptedConfig, .token (.derived "k2") "old")]⟩]) := by
      decide +kernel
    obtain ⟨s, hs, hseen⟩ := Option.map_eq_some_iff.1 hrun
    obtain ⟨hsecrets, hreport, hvalues, hrows⟩ := by simpa only [Prod.mk.injEq] using hseen
    refine ⟨s, reachable_exec hs, ?_, fun hcomplete => ?_⟩
    · rw [hvalues, hsecrets]
      intro value hvalue
      cases List.mem_singleton.1 hvalue
      exact ⟨"old", rfl⟩
    · have hempty := hcomplete ⟨_, hreport, rfl⟩ .connectors
      have hleft : ("c1", Column.encryptedConfig) ∈ s.left .connectors := by
        refine ⟨.token (.derived "k2") "old", ⟨_, hrows ▸ List.mem_singleton_self _, rfl,
          List.mem_singleton_self _⟩, fun hunder => ?_⟩
        have hkey := hunder _ _ rfl
        rw [hsecrets] at hkey
        exact absurd hkey (by decide)
      rw [hempty] at hleft
      exact hleft
  · have hrun : ((exec step (.initial ⟨"k2", ["k1"]⟩ oneConnector) crossing).bind fun s =>
        (step s .turn).map fun s' => ((s.database .connectors).rows,
          (s'.database .connectors).rows)) =
        some ([⟨"c1", [(.encryptedConfig, .token (.derived "k2") "new")]⟩],
          [⟨"c1", [(.encryptedConfig, .token (.derived "k2") "old")]⟩]) := by
      decide +kernel
    obtain ⟨s, hs, hrun⟩ := Option.bind_eq_some_iff.1 hrun
    obtain ⟨s', hs', hseen⟩ := Option.map_eq_some_iff.1 hrun
    obtain ⟨hbefore, hafter⟩ := by simpa only [Prod.mk.injEq] using hseen
    refine ⟨s, s', reachable_exec hs, hs', fun hsame => ?_⟩
    have hnew : ("c1", Column.encryptedConfig, Plain.secret "new") ∈
        (s.database .connectors).plaintexts :=
      ⟨_, ⟨_, hbefore ▸ List.mem_singleton_self _, rfl, List.mem_singleton_self _⟩, rfl⟩
    rw [← hsame] at hnew
    obtain ⟨value, ⟨row, hrow, -, hcell⟩, hplain⟩ := hnew
    rw [hafter] at hrow
    cases List.mem_singleton.1 hrow
    cases List.mem_singleton.1 hcell
    exact absurd hplain (by decide)

/-- A first rotation from beginning to end, and the commit of its first page. -/
theorem rotation_complete_once :
    (∃ s, exec step (.initial ⟨"k2", ["k1"]⟩ oneConnector) ontoSecond = some s ∧ s.Complete) ∧
    ∃ s s', exec step (.initial ⟨"k2", ["k1"]⟩ oneConnector)
        [.start false false 500, .turn, .turn] = some s ∧ step s .turn = some s' ∧
      ∀ t, (s'.database t).plaintexts = (s.database t).plaintexts := by
  constructor
  · have hsome : (exec step (.initial ⟨"k2", ["k1"]⟩ oneConnector) ontoSecond).isSome = true := by
      decide +kernel
    obtain ⟨s, hs⟩ := Option.isSome_iff_exists.1 hsome
    refine ⟨s, hs, (rotation_complete ⟨"k2", ["k1"]⟩ oneConnector).1 s (reach_exec hs ?_)⟩
    refine ⟨.inr (.inl rfl), Along.of_forall (fun a ha s => ?_) _⟩
    cases (List.mem_replicate.1 ha).2
    exact trivial
  · have hsome : ((exec step (.initial ⟨"k2", ["k1"]⟩ oneConnector)
        [.start false false 500, .turn, .turn]).bind fun s => step s .turn).isSome = true := by
      decide +kernel
    obtain ⟨s', hs'⟩ := Option.isSome_iff_exists.1 hsome
    obtain ⟨s, hs, hstep⟩ := Option.bind_eq_some_iff.1 hs'
    refine ⟨s, s', hs, hstep, ?_⟩
    exact (rotation_complete ⟨"k2", ["k1"]⟩ oneConnector).2 s
      (reach_exec hs (Along.of_forall (by simp [Uncrossed]) _)) .turn s' rfl hstep

end RuleMind.KeyRotation
