/-
  The decision write-ahead log (`app/decision_wal.py`) as a step function over
  what survives a kill and what each process holds in memory.

  Durable are the decision table, the WAL files and the dead-letter file.  A
  process instance is a number; its file is named by the same number, since
  `_path_for` puts a fresh suffix into every instance's path.  The steps are the
  ones a kill can fall between:

  Writes to a WAL file succeed (a full disk is not modelled); `add_decision` and
  the dead-letter append may fail.
-/
import RuleMind.Lib.Run
import Mathlib.Data.Int.Basic

namespace RuleMind.Wal

/-! ### Files -/

/-- A decision as `append` is given it; `body` is the rest of the record. -/
structure Record where
  id : String
  tenantId : Option String
  body : String
  deriving DecidableEq, Repr

/-- One JSON object of a WAL or dead-letter file.  `append` returns before it
    writes where the id is empty, so an entry has one. -/
structure Entry where
  record : Record
  tenantId : Option String
  replayAttempts : ℕ
  deadLetteredReason : Option String
  id_ne : record.id ≠ ""
  deriving DecidableEq, Repr

def Entry.id (e : Entry) : String := e.record.id

/-- A line of a file: an entry, a complete line that is not JSON, or the cut
    last line of a killed write, which has no newline. -/
inductive Line
  | entry (e : Entry)
  | garbled
  | torn
  deriving DecidableEq, Repr

/-- `_read_entries`: lines that do not parse are skipped. -/
def readEntries (ls : List Line) : List Entry :=
  ls.filterMap fun
    | .entry e => some e
    | _ => none

def ids (es : List Entry) : List String := es.map Entry.id

/-- One line written at the end of a file: behind a cut line it completes that
    line, and neither can be read. -/
def writeEntry (ls : List Line) (e : Entry) : List Line :=
  if ls.getLast? = some .torn then ls.dropLast ++ [Line.garbled] else ls ++ [Line.entry e]

/-- The first `n` of `es` written, then possibly a part of the next one. -/
def writeEntries (ls : List Line) (es : List Entry) (n : ℕ) (cut : Bool) : List Line :=
  let ls := (es.take n).foldl writeEntry ls
  if cut ∧ n < es.length then ls ++ [Line.torn] else ls

/-- A WAL file; `linked` says that its path still leads to it. -/
structure File where
  linked : Bool
  lines : List Line
  deriving DecidableEq, Repr

/-! ### Processes -/

/-- How far `_recover_one` is with the file it has locked. -/
inductive Stage
  | replaying
  | parked
  | cleared
  deriving DecidableEq, Repr

/-- The locals of `_recover_one`; `todo` is what the loop has still to try. -/
structure Recovery where
  path : ℕ
  todo : List Entry
  failed : List Entry
  deadLettered : List Entry
  stage : Stage
  deriving DecidableEq, Repr

/-- Where a process stands.  From `creating` to `truncated` it holds `_lock`;
    `ret` is the entry whose `append` has not returned, `none` within
    `mark_committed`. -/
inductive Phase
  | fresh
  | booting
  | recovering (r : Recovery)
  | idle
  | creating (e : Entry)
  | appending (e : Entry)
  | locked (ret : Option Entry)
  | readBack (ret : Option Entry) (kept : List Entry)
  | truncated (ret : Option Entry) (kept : List Entry)
  | down
  deriving DecidableEq, Repr

/-- A process instance: `opened` is `_file is not None`, `pending` the appended
    ids whose `_write` has not run, `landed` those whose `add_decision` returned
    and whose `mark_committed` is to come. -/
structure Worker where
  phase : Phase
  opened : Bool
  committed : List String
  pending : List String
  landed : List String
  deriving DecidableEq, Repr

/-- `DECISION_WAL_COMPACT_EVERY` and `DECISION_WAL_MAX_REPLAY_ATTEMPTS` as set. -/
structure Env where
  compactEvery : Int := 1000
  maxReplayAttempts : Int := 5

def Env.compact_every (c : Env) : ℕ := (max 1 c.compactEvery).toNat

def Env.max_replay_attempts (c : Env) : ℕ := (max 1 c.maxReplayAttempts).toNat

/-- `acked` records the ids whose `append` has returned. -/
structure State where
  db : List String
  file : ℕ → File
  lock : ℕ → Option ℕ
  deadLetter : List Line
  worker : ℕ → Worker
  acked : List String

def State.init : State where
  db := []
  file _ := ⟨false, []⟩
  lock _ := none
  deadLetter := []
  worker _ := ⟨.fresh, false, [], [], []⟩
  acked := []

/-- The entries a reader finds in file `p`. -/
def State.entries (s : State) (p : ℕ) : List Entry := readEntries (s.file p).lines

def State.deadIds (s : State) : List String := ids (readEntries s.deadLetter)

/-- Decision `i` is in the database, in a WAL file on disk or in the dead-letter file. -/
def State.Safe (s : State) (i : String) : Prop :=
  i ∈ s.db ∨ (∃ p, (s.file p).linked = true ∧ i ∈ ids (s.entries p)) ∨ i ∈ s.deadIds

def State.setPhase (s : State) (w : ℕ) (ph : Phase) : State :=
  { s with worker := Function.update s.worker w { s.worker w with phase := ph } }

def State.setLines (s : State) (p : ℕ) (ls : List Line) : State :=
  { s with file := Function.update s.file p { s.file p with lines := ls } }

/-- Every lock of a process that dies is released. -/
def State.unlock (s : State) (w : ℕ) : State :=
  { s with lock := fun p => if s.lock p = some w then none else s.lock p }

/-! ### Appending and compaction -/

/-- What the return of `append` means to its caller: the id is acknowledged, and
    the write to the database is scheduled. -/
def State.ret (s : State) (w : ℕ) : Option Entry → State
  | none => s
  | some e =>
    { s with
      acked := s.acked.insert e.id
      worker := Function.update s.worker w
        { s.worker w with pending := (s.worker w).pending.insert e.id } }

def newEntry (r : Record) (h : r.id ≠ "") (tenantId : Option String) : Entry :=
  ⟨r, tenantId <|> r.tenantId, 0, none, h⟩

/-- The first part of `append`.  The first one of a process creates its file,
    which is not locked yet. -/
def append (s : State) (w : ℕ) (r : Record) (tenantId : Option String) : Option State :=
  match (s.worker w).phase with
  | .idle =>
    if h : r.id = "" then some s else
      let e := newEntry r h tenantId
      if (s.worker w).opened then some (s.setPhase w (.appending e)) else
        some { s with
          file := Function.update s.file w ⟨true, []⟩
          worker := Function.update s.worker w
            { s.worker w with phase := .creating e, opened := true } }
  | _ => none

/-- `_try_lock_exclusive` in `_get_file`, whose answer is not looked at. -/
def flock (s : State) (w : ℕ) : Option State :=
  match (s.worker w).phase with
  | .creating e =>
    let s' := s.setPhase w (.appending e)
    some (if s.lock w = none then { s' with lock := Function.update s.lock w (some w) } else s')
  | _ => none

def writeLine (s : State) (w : ℕ) : Option State :=
  match (s.worker w).phase with
  | .appending e =>
    some ((s.setLines w (writeEntry (s.file w).lines e)).setPhase w (.locked (some e)))
  | _ => none

/-- `_maybe_compact_locked` has something to do. -/
def compactDue (c : Env) (wk : Worker) : Bool :=
  wk.opened && !(wk.committed.length < c.compact_every)

def leave (c : Env) (s : State) (w : ℕ) : Option State :=
  match (s.worker w).phase with
  | .locked ret => if compactDue c (s.worker w) then none else some ((s.setPhase w .idle).ret w ret)
  | _ => none

def readBack (c : Env) (s : State) (w : ℕ) : Option State :=
  match (s.worker w).phase with
  | .locked ret =>
    if compactDue c (s.worker w) then
      some (s.setPhase w (.readBack ret
        ((s.entries w).filter fun e => !(s.worker w).committed.contains e.id)))
    else none
  | _ => none

def truncate (s : State) (w : ℕ) : Option State :=
  match (s.worker w).phase with
  | .readBack ret kept => some ((s.setLines w []).setPhase w (.truncated ret kept))
  | _ => none

/-- The kept lines go to the end of the file (the handle is `O_APPEND`), and
    `_committed` starts over. -/
def rewrite (s : State) (w : ℕ) : Option State :=
  match (s.worker w).phase with
  | .truncated ret kept =>
    let s' := s.setLines w (writeEntries (s.file w).lines kept kept.length false)
    some (State.ret { s' with
      worker := Function.update s.worker w { s.worker w with phase := .idle, committed := [] } }
      w ret)
  | _ => none

/-- `add_decision`: the id is the primary key. -/
def addDecision (s : State) (i : String) : Option State :=
  if i ∈ s.db then none else some { s with db := i :: s.db }

/-- A failed `add_decision` whose commit may nevertheless have `arrived`. -/
def addFailed (s : State) (i : String) (arrived : Bool) : State :=
  if arrived then { s with db := s.db.insert i } else s

/-- `_write` up to the return of `add_decision`; a process serves while it does so. -/
def commit (s : State) (w : ℕ) (i : String) : Option State :=
  if i ∈ (s.worker w).pending ∧ (s.worker w).phase ≠ .down then
    (addDecision s i).map fun s => { s with
      worker := Function.update s.worker w
        { s.worker w with
          pending := (s.worker w).pending.erase i
          landed := (s.worker w).landed.insert i } }
  else none

/-- `_write` where `add_decision` raises: the id is not marked. -/
def commitFails (s : State) (w : ℕ) (i : String) (arrived : Bool) : Option State :=
  if i ∈ (s.worker w).pending ∧ (s.worker w).phase ≠ .down then
    let s := addFailed s i arrived
    some { s with
      worker := Function.update s.worker w
        { s.worker w with pending := (s.worker w).pending.erase i } }
  else none

def markCommitted (s : State) (w : ℕ) (i : String) : Option State :=
  if (s.worker w).phase = .idle ∧ i ∈ (s.worker w).landed then
    some { s with
      worker := Function.update s.worker w
        { s.worker w with
          phase := .locked none
          committed := (s.worker w).committed.insert i
          landed := (s.worker w).landed.erase i } }
  else none

/-! ### Recovery -/

/-- `by_id[rid] = entry`: the place of the first entry of an id, the value of the last. -/
def upsert (e : Entry) : List Entry → List Entry
  | [] => [e]
  | d :: ds => if d.id = e.id then e :: ds else d :: upsert e ds

def byId (es : List Entry) : List Entry := es.foldl (fun m e => upsert e m) []

def boot (s : State) (w : ℕ) : Option State :=
  match (s.worker w).phase with
  | .fresh => some (s.setPhase w .booting)
  | _ => none

def serve (s : State) (w : ℕ) : Option State :=
  match (s.worker w).phase with
  | .booting => some (s.setPhase w .idle)
  | _ => none

/-- `_recover_one` opens file `p`, locks it, reads it and asks the database
    which ids it has.  A locked file is skipped. -/
def recoverOpen (s : State) (w p : ℕ) : Option State :=
  match (s.worker w).phase with
  | .booting =>
    if (s.file p).linked = true ∧ s.lock p = none then
      let todo := (byId (s.entries p)).filter fun e => !s.db.contains e.id
      some { s.setPhase w (.recovering ⟨p, todo, [], [], .replaying⟩) with
        lock := Function.update s.lock p (some w) }
    else none
  | _ => none

def replay (s : State) (w : ℕ) : Option State :=
  match (s.worker w).phase with
  | .recovering ⟨p, e :: todo, failed, dead, .replaying⟩ =>
    (addDecision s e.id).map fun s => s.setPhase w (.recovering ⟨p, todo, failed, dead, .replaying⟩)
  | _ => none

/-- The `except` branch: the record is kept for the next boot, or dead-lettered
    when it has failed often enough. -/
def Recovery.except (c : Env) (r : Recovery) (e : Entry) (exc : String) : Recovery :=
  let e := { e with replayAttempts := e.replayAttempts + 1 }
  if e.replayAttempts ≥ c.max_replay_attempts then
    { r with deadLettered :=
        r.deadLettered ++ [{ e with deadLetteredReason := some (exc.take 500).toString }] }
  else { r with failed := r.failed ++ [e] }

def replayFails (c : Env) (s : State) (w : ℕ) (arrived : Bool) (exc : String) : Option State :=
  match (s.worker w).phase with
  | .recovering ⟨p, e :: todo, failed, dead, .replaying⟩ =>
    let r := Recovery.except c ⟨p, todo, failed, dead, .replaying⟩ e exc
    some ((addFailed s e.id arrived).setPhase w (.recovering r))
  | _ => none

/-- `_dead_letter`, of which the first `n` entries reach the file and the next
    one in part; an `OSError` is logged and the recovery goes on. -/
def deadLetter (s : State) (w n : ℕ) (cut : Bool) : Option State :=
  match (s.worker w).phase with
  | .recovering ⟨p, [], failed, dead, .replaying⟩ =>
    some ({ s with deadLetter := writeEntries s.deadLetter dead n cut }.setPhase w
      (.recovering ⟨p, [], failed, dead, .parked⟩))
  | _ => none

/-- `_rewrite_locked` up to the truncation. -/
def recoverTruncate (s : State) (w : ℕ) : Option State :=
  match (s.worker w).phase with
  | .recovering ⟨p, [], f :: failed, dead, .parked⟩ =>
    some ((s.setLines p []).setPhase w (.recovering ⟨p, [], f :: failed, dead, .cleared⟩))
  | _ => none

def recoverRewrite (s : State) (w : ℕ) : Option State :=
  match (s.worker w).phase with
  | .recovering ⟨p, _, failed, _, .cleared⟩ =>
    let s' := s.setLines p (writeEntries (s.file p).lines failed failed.length false)
    some ((s'.setPhase w .booting).unlock w)
  | _ => none

/-- Nothing has to be retried: the file is removed. -/
def recoverRemove (s : State) (w : ℕ) : Option State :=
  match (s.worker w).phase with
  | .recovering ⟨p, [], [], _, .parked⟩ =>
    let s' := { s with file := Function.update s.file p { s.file p with linked := false } }
    some ((s'.setPhase w .booting).unlock w)
  | _ => none

/-! ### Crashes and steps -/

/-- What the write a kill interrupts leaves on disk: `n` whole entries, and
    possibly a part of the next one. -/
def interrupted (s : State) (w n : ℕ) (cut : Bool) : State :=
  match (s.worker w).phase with
  | .appending _ => if cut then s.setLines w ((s.file w).lines ++ [Line.torn]) else s
  | .truncated _ kept => s.setLines w (writeEntries (s.file w).lines kept n cut)
  | .recovering ⟨p, _, failed, _, .cleared⟩ =>
    s.setLines p (writeEntries (s.file p).lines failed n cut)
  | .recovering ⟨_, [], _, dead, .replaying⟩ =>
    { s with deadLetter := writeEntries s.deadLetter dead n cut }
  | _ => s

/-- The process is gone with all it had in memory. -/
def crash (s : State) (w n : ℕ) (cut : Bool) : Option State :=
  let s := interrupted s w n cut
  some (State.unlock { s with
    worker := Function.update s.worker w
      { s.worker w with phase := .down, committed := [], pending := [], landed := [] } } w)

inductive Act
  | boot (w : ℕ)
  | serve (w : ℕ)
  | append (w : ℕ) (r : Record) (tenantId : Option String)
  | flock (w : ℕ)
  | writeLine (w : ℕ)
  | leave (w : ℕ)
  | readBack (w : ℕ)
  | truncate (w : ℕ)
  | rewrite (w : ℕ)
  | commit (w : ℕ) (i : String)
  | commitFails (w : ℕ) (i : String) (arrived : Bool)
  | markCommitted (w : ℕ) (i : String)
  | recoverOpen (w p : ℕ)
  | replay (w : ℕ)
  | replayFails (w : ℕ) (arrived : Bool) (exc : String)
  | deadLetter (w n : ℕ) (cut : Bool)
  | recoverTruncate (w : ℕ)
  | recoverRewrite (w : ℕ)
  | recoverRemove (w : ℕ)
  | crash (w n : ℕ) (cut : Bool)

def step (c : Env) (s : State) : Act → Option State
  | .boot w => Wal.boot s w
  | .serve w => Wal.serve s w
  | .append w r t => Wal.append s w r t
  | .flock w => Wal.flock s w
  | .writeLine w => Wal.writeLine s w
  | .leave w => Wal.leave c s w
  | .readBack w => Wal.readBack c s w
  | .truncate w => Wal.truncate s w
  | .rewrite w => Wal.rewrite s w
  | .commit w i => Wal.commit s w i
  | .commitFails w i arrived => Wal.commitFails s w i arrived
  | .markCommitted w i => Wal.markCommitted s w i
  | .recoverOpen w p => Wal.recoverOpen s w p
  | .replay w => Wal.replay s w
  | .replayFails w arrived exc => Wal.replayFails c s w arrived exc
  | .deadLetter w n cut => Wal.deadLetter s w n cut
  | .recoverTruncate w => Wal.recoverTruncate s w
  | .recoverRewrite w => Wal.recoverRewrite s w
  | .recoverRemove w => Wal.recoverRemove s w
  | .crash w n cut => Wal.crash s w n cut

end RuleMind.Wal
