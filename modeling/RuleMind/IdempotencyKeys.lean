/-
  Idempotency keys: `claim_idempotency_key`, `complete_idempotency_key` and
  `release_idempotency_key` of `app/storage.py`, `app/idempotency.py`, and the middleware that
  calls them.

  One tenant and one key, and any number of requests that carry it.  Each of the three reads
  the record and then writes it, in two statements, and what goes on between is left to the
  run; a write goes to the row by its id and sets the columns that differ from what was read.
-/
import RuleMind.Lib.Run

namespace RuleMind.Idempotency

open Lib

/-! ### Requests -/

structure Request where
  method : String
  path : String
  query : String
  body : List UInt8
  deriving DecidableEq

structure Response where
  status : ℕ
  body : String
  deriving DecidableEq

def bytes (text : String) : List UInt8 := text.toUTF8.data.toList

def IDEMPOTENT_METHODS : List String := ["POST", "PUT", "PATCH", "DELETE"]

def Request.under (r : Request) (start : String) : Bool := start.toList.isPrefixOf r.path.toList

/-- The requests whose key the middleware looks at. -/
def Request.covered (r : Request) : Bool :=
  IDEMPOTENT_METHODS.contains r.method && (r.under "/api/v1" || r.under "/sdk/v1")

/-- What is hashed of a request; the methods are in upper case already. -/
def Request.message (r : Request) : List UInt8 :=
  bytes r.method ++ 0 :: (bytes r.path ++ 0 :: r.body)

def requestFingerprint (sha256 : List UInt8 → String) (r : Request) : String := sha256 r.message

def TTL : ℕ := 24 * 3600 * 1000000

def isExpired (createdAt now : ℕ) : Bool := decide (createdAt + TTL < now)

def shouldRemember (status : ℕ) : Bool := decide (status < 500)

/-! ### The record -/

structure Record where
  id : ℕ
  requestHash : String
  status : Option ℕ
  body : Option String
  createdAt : ℕ
  /-- Which claim it is of; in no column. -/
  claim : ℕ
  deriving DecidableEq

/-- The row read is reset: only the columns that change are written. -/
def Record.retake (cur read : Record) (hash : String) (at' claim : ℕ) : Record :=
  { cur with
    requestHash := if read.requestHash = hash then cur.requestHash else hash
    status := if read.status = none then cur.status else none
    body := if read.body = none then cur.body else none
    createdAt := at'
    claim := claim }

def Record.answer (cur read : Record) (response : Response) : Record :=
  { cur with
    status := if read.status = some response.status then cur.status else some response.status
    body := if read.body = some response.body then cur.body else some response.body }

/-- Where a request stands: it has arrived, has found an expired row or none, executes with a
    claim, has its answer or its exception, and has read its record to write it.  One whose
    claim failed executes all the same. -/
inductive Phase
  | idle
  | arrived (r : Request)
  | taking (r : Request) (row : Record) (at' : ℕ)
  | inserting (r : Request) (at' : ℕ)
  | executing (r : Request) (claim : ℕ)
  | responded (r : Request) (claim : ℕ) (response : Response)
  | raised (r : Request) (claim : ℕ)
  | completing (r : Request) (claim : ℕ) (response : Response) (row : Record)
  | releasing (r : Request) (claim : ℕ) (row : Record)
  | unclaimed (r : Request)

structure State where
  now : ℕ
  record : Option Record
  nextId : ℕ
  nextClaim : ℕ
  process : ℕ → Phase
  arrived : List Request
  produced : List (Request × Response)
  replayed : List (Request × Response)
  /-- The claims that changed a record, each with the claim the record was of. -/
  changes : List (ℕ × ℕ)

def State.init : State := ⟨0, none, 0, 0, fun _ => .idle, [], [], [], []⟩

def State.go (s : State) (c : ℕ) (ph : Phase) : State :=
  { s with process := Function.update s.process c ph }

inductive Act
  | wait (duration : ℕ)
  | arrive (c : ℕ) (r : Request)
  /-- The query of `claim_idempotency_key`, and its update or insert. -/
  | select (c : ℕ)
  | claim (c : ℕ)
  | failClaim (c : ℕ)
  | respond (c : ℕ) (response : Response)
  | raise (c : ℕ)
  /-- The query of `complete_idempotency_key` or `release_idempotency_key`, and its write. -/
  | selectOwn (c : ℕ)
  | write (c : ℕ)
  | abandon (c : ℕ)

section Steps
variable (sha256 : List UInt8 → String)

def State.found (s : State) (c : ℕ) (r : Request) (row : Record) : State :=
  if isExpired row.createdAt s.now then s.go c (.taking r row s.now)
  else if row.requestHash = requestFingerprint sha256 r then
    match row.status with
    | some status => { s with replayed := (r, ⟨status, row.body.getD ""⟩) :: s.replayed }.go c .idle
    | none => s.go c .idle
  else s.go c .idle

def State.writeRow (s : State) (c claim : ℕ) (row : Record) (f : Record → Option Record) : State :=
  match s.record with
  | some cur =>
    if cur.id = row.id then
      { s with record := f cur, changes := (claim, cur.claim) :: s.changes }.go c .idle
    else s.go c .idle
  | none => s.go c .idle

def step (s : State) (a : Act) : Option State :=
  match a with
  | .wait duration => some { s with now := s.now + duration }
  | .arrive c r =>
    match s.process c with
    | .idle =>
      some (if r.covered then { s with arrived := r :: s.arrived }.go c (.arrived r)
        else s.go c (.unclaimed r))
    | _ => none
  | .select c =>
    match s.process c with
    | .arrived r =>
      some (match s.record with
        | some row => s.found sha256 c r row
        | none => s.go c (.inserting r s.now))
    | _ => none
  | .claim c =>
    match s.process c with
    | .taking r row at' =>
      match s.record with
      | some cur =>
        if cur.id = row.id then
          some ({ s with
            record := some (cur.retake row (requestFingerprint sha256 r) at' s.nextClaim)
            nextClaim := s.nextClaim + 1 }.go c (.executing r s.nextClaim))
        else some (s.go c (.unclaimed r))
      | none => some (s.go c (.unclaimed r))
    | .inserting r at' =>
      match s.record with
      -- the unique constraint: in flight
      | some _ => some (s.go c .idle)
      | none =>
        some ({ s with
          record := some ⟨s.nextId, requestFingerprint sha256 r, none, none, at', s.nextClaim⟩
          nextId := s.nextId + 1
          nextClaim := s.nextClaim + 1 }.go c (.executing r s.nextClaim))
    | _ => none
  -- a broken key store does not take writes offline
  | .failClaim c =>
    match s.process c with
    | .arrived r | .taking r _ _ | .inserting r _ => some (s.go c (.unclaimed r))
    | _ => none
  | .respond c response =>
    match s.process c with
    | .executing r claim =>
      some ({ s with produced := (r, response) :: s.produced }.go c (.responded r claim response))
    | .unclaimed r => some ({ s with produced := (r, response) :: s.produced }.go c .idle)
    | _ => none
  | .raise c =>
    match s.process c with
    | .executing r claim => some (s.go c (.raised r claim))
    | .unclaimed _ => some (s.go c .idle)
    | _ => none
  | .selectOwn c =>
    match s.process c with
    | .responded r claim response =>
      some (s.go c (match s.record with
        | some row => .completing r claim response row
        | none => .idle))
    | .raised r claim =>
      some (s.go c (match s.record with
        | some row => .releasing r claim row
        | none => .idle))
    | _ => none
  | .write c =>
    match s.process c with
    | .completing _ claim response row =>
      some (s.writeRow c claim row fun cur =>
        if shouldRemember response.status then some (cur.answer row response) else none)
    | .releasing _ claim row => some (s.writeRow c claim row fun _ => none)
    | _ => none
  | .abandon c => some (s.go c .idle)

end Steps

def Phase.Executes : Phase → Prop
  | .executing _ _ => True
  | _ => False

/-- One request at a time executes with a claim, each changes the record of its own claim, and
    what is replayed was produced by the same request. -/
structure OneExecution (s : State) : Prop where
  executing : ∀ c d, (s.process c).Executes → (s.process d).Executes → c = d
  own : ∀ p ∈ s.changes, p.1 = p.2
  same : ∀ q ∈ s.replayed, ∃ r, (r, q.2) ∈ s.produced ∧ r.method = q.1.method ∧
    r.path = q.1.path ∧ r.query = q.1.query ∧ r.body = q.1.body

def Phase.claim : Phase → Option ℕ
  | .executing _ claim | .responded _ claim _ | .raised _ claim | .completing _ claim _ _
  | .releasing _ claim _ => some claim
  | .idle | .arrived _ | .taking _ _ _ | .inserting _ _ | .unclaimed _ => none

section Condition
variable (sha256 : List UInt8 → String)

/-- Two requests with one fingerprint have one message and one query. -/
def Distinct (r r' : Request) : Prop :=
  requestFingerprint sha256 r = requestFingerprint sha256 r' →
    r.message = r'.message ∧ r.query = r'.query

/-- A path has no NUL, the requests that share a fingerprint are the same, and an expired key
    is taken over while its row is as it was read and nobody has a claim on it. -/
def Undisturbed (s : State) : Act → Prop
  | .arrive _ r => 0 ∉ bytes r.path ∧ ∀ r' ∈ s.arrived, Distinct sha256 r r'
  | .claim c => ∀ r row at' cur, s.process c = .taking r row at' → s.record = some cur →
      cur.id = row.id → cur = row ∧ ∀ d, (s.process d).claim = none
  | _ => True

end Condition

theorem method_no_nul {r : Request} (h : r.covered = true) : 0 ∉ bytes r.method := by
  have hmethod : r.method ∈ IDEMPOTENT_METHODS := by simpa using (Bool.and_eq_true_iff.1 h).1
  have hall : ∀ m ∈ IDEMPOTENT_METHODS, 0 ∉ bytes m := by decide +kernel
  exact hall _ hmethod

theorem bytes_injective {a b : String} (h : bytes a = bytes b) : a = b :=
  String.toByteArray_inj.1 (ByteArray.ext (Array.toList_inj.1 h))

theorem split_nul {a b x y : List UInt8} (ha : 0 ∉ a) (hb : 0 ∉ b)
    (h : a ++ 0 :: x = b ++ 0 :: y) : a = b ∧ x = y := by
  induction a generalizing b with
  | nil =>
    cases b with
    | nil => exact ⟨rfl, List.tail_eq_of_cons_eq h⟩
    | cons e b => simp_all
  | cons d a ih =>
    cases b with
    | nil => grind
    | cons e b => grind

theorem message_injective {r r' : Request} (hr : r.covered = true) (hr' : r'.covered = true)
    (hp : 0 ∉ bytes r.path) (hp' : 0 ∉ bytes r'.path) (h : r.message = r'.message) :
    r.method = r'.method ∧ r.path = r'.path ∧ r.body = r'.body := by
  obtain ⟨hmethod, hrest⟩ := split_nul (method_no_nul hr) (method_no_nul hr') h
  grind [split_nul, bytes_injective]

/-! ### The invariant -/

section Exclusion
variable {sha256 : List UInt8 → String} {s s' t : State}

@[simp] theorem go_process (s : State) (c : ℕ) (ph : Phase) (d : ℕ) :
    (s.go c ph).process d = if d = c then ph else s.process d := by
  simp [State.go, Function.update_apply]

def Phase.request : Phase → Option Request
  | .idle | .unclaimed _ => none
  | .arrived r | .taking r _ _ | .inserting r _ | .executing r _ | .responded r _ _ | .raised r _
  | .completing r _ _ _ | .releasing r _ _ => some r

def Open (sha256 : List UInt8 → String) (s : State) (r : Request) (claim : ℕ) (row : Record) :
    Prop :=
  s.record = some row ∧ row.claim = claim ∧ row.status = none ∧ row.body = none ∧
    row.requestHash = requestFingerprint sha256 r

/-- The record of a claim is there while the claim is held. -/
def State.Holds (sha256 : List UInt8 → String) (s : State) : Phase → Prop
  | .executing r claim | .raised r claim => ∃ row, Open sha256 s r claim row
  | .responded r claim response => (∃ row, Open sha256 s r claim row) ∧ (r, response) ∈ s.produced
  | .completing r claim response row => Open sha256 s r claim row ∧ (r, response) ∈ s.produced
  | .releasing r claim row => Open sha256 s r claim row
  | .idle | .arrived _ | .taking _ _ _ | .inserting _ _ | .unclaimed _ => True

/-- What the requests that have arrived agree in, and where an answer comes from. -/
structure Sound (sha256 : List UInt8 → String) (s : State) : Prop where
  covered : ∀ r ∈ s.arrived, r.covered = true ∧ 0 ∉ bytes r.path
  distinct : ∀ r ∈ s.arrived, ∀ r' ∈ s.arrived, Distinct sha256 r r'
  answered : ∀ row status, s.record = some row → row.status = some status →
    ∃ r ∈ s.arrived, (r, ⟨status, row.body.getD ""⟩) ∈ s.produced ∧
      requestFingerprint sha256 r = row.requestHash
  own : ∀ p ∈ s.changes, p.1 = p.2
  same : ∀ q ∈ s.replayed, ∃ r, (r, q.2) ∈ s.produced ∧ r.method = q.1.method ∧
    r.path = q.1.path ∧ r.query = q.1.query ∧ r.body = q.1.body

structure Inv (sha256 : List UInt8 → String) (s : State) : Prop where
  alone : ∀ c d k l, (s.process c).claim = some k → (s.process d).claim = some l → c = d
  holds : ∀ c, s.Holds sha256 (s.process c)
  request : ∀ c r, (s.process c).request = some r → r ∈ s.arrived
  sound : Sound sha256 s

theorem inv_init : Inv sha256 State.init where
  alone c d k l h := by cases h
  holds c := trivial
  request c r h := by cases h
  sound := ⟨nofun, nofun, nofun, nofun, nofun⟩

variable {c : ℕ} {ph : Phase} {r : Request} {row : Record}

/-- **A step of one request.**  What the others hold stays. -/
theorem Inv.act (h : Inv sha256 s) (hproc : t.process = s.process)
    (harrived : ∀ r ∈ s.arrived, r ∈ t.arrived)
    (hothers : ∀ d, d ≠ c → t.Holds sha256 (s.process d))
    (halone : ∀ k, ph.claim = some k → ∀ d, d ≠ c → (s.process d).claim = none)
    (hself : t.Holds sha256 ph) (hreq : ∀ r, ph.request = some r → r ∈ t.arrived)
    (hsound : Sound sha256 t) : Inv sha256 (t.go c ph) where
  alone d e k l hd he := by
    rw [go_process] at hd he
    split at hd
    · rename_i hdc
      split at he
      · rename_i hec
        exact hdc.trans hec.symm
      simp_all
    · rename_i hdc
      split at he
      · rw [hproc, halone l he d hdc] at hd
        cases hd
      · rw [hproc] at hd he
        exact h.alone d e k l hd he
  holds d := by
    rw [go_process]
    split
    · exact hself
    · rename_i hdc
      rw [hproc]
      exact hothers d hdc
  request d r hr := by
    rw [go_process] at hr
    split at hr
    · exact hreq r hr
    · rw [hproc] at hr
      exact harrived r (h.request d r hr)
  sound := ⟨hsound.covered, hsound.distinct, hsound.answered, hsound.own, hsound.same⟩

theorem State.Holds.mono (h : s.Holds sha256 ph) (hrecord : t.record = s.record)
    (hproduced : ∀ p ∈ s.produced, p ∈ t.produced) : t.Holds sha256 ph := by
  have hopen : ∀ r k row, Open sha256 s r k row → Open sha256 t r k row :=
    fun r k row ho => ⟨hrecord.trans ho.1, ho.2⟩
  cases ph with
  | executing r k | raised r k => exact h.imp (hopen r k)
  | responded r k response => exact ⟨h.1.imp (hopen r k), hproduced _ h.2⟩
  | completing r k response row => exact ⟨hopen r k row h.1, hproduced _ h.2⟩
  | releasing r k row => exact hopen r k row h
  | idle | arrived _ | taking _ _ _ | inserting _ _ | unclaimed _ => trivial

theorem holds_of_claim_none (h : ph.claim = none) : t.Holds sha256 ph := by
  cases ph with
  | executing _ _ | responded _ _ _ | raised _ _ | completing _ _ _ _ | releasing _ _ _ => cases h
  | idle | arrived _ | taking _ _ _ | inserting _ _ | unclaimed _ => trivial

theorem Inv.others (h : Inv sha256 s) {k : ℕ} (hc : (s.process c).claim = some k) :
    ∀ d, d ≠ c → (s.process d).claim = none := by
  intro d hd
  cases hcl : (s.process d).claim with
  | none => rfl
  | some l => exact absurd (h.alone d c l k hcl hc) hd

theorem Inv.nobody (h : Inv sha256 s) (hnone : s.record = none) (d : ℕ) :
    (s.process d).claim = none := by
  have hopen : ∀ r k row, ¬ Open sha256 s r k row := by
    rintro r k row ⟨hrow, -⟩
    rw [hnone] at hrow
    cases hrow
  have hholds := h.holds d
  cases hd : s.process d with
  | executing r k | raised r k =>
    rw [hd] at hholds
    exact absurd hholds.choose_spec (hopen r k _)
  | responded r k response =>
    rw [hd] at hholds
    exact absurd hholds.1.choose_spec (hopen r k _)
  | completing r k response row =>
    rw [hd] at hholds
    exact absurd hholds.1 (hopen r k row)
  | releasing r k row =>
    rw [hd] at hholds
    exact absurd hholds (hopen r k row)
  | idle | arrived _ | taking _ _ _ | inserting _ _ | unclaimed _ => rfl

theorem Inv.move (h : Inv sha256 s) (hclaim : ∀ k, ph.claim = some k → (s.process c).claim = some k)
    (hself : s.Holds sha256 ph) (hreq : ∀ r, ph.request = some r → r ∈ s.arrived) :
    Inv sha256 (s.go c ph) :=
  h.act rfl (fun _ hr => hr) (fun d _ => h.holds d) (fun _ hk => h.others (hclaim _ hk)) hself hreq
    h.sound

/-! ### The steps -/

theorem Sound.replay (h : Sound sha256 s) {status : ℕ}
    (hr : r ∈ s.arrived) (hrow : s.record = some row) (hstatus : row.status = some status)
    (hhash : row.requestHash = requestFingerprint sha256 r) :
    Sound sha256 { s with replayed := (r, ⟨status, row.body.getD ""⟩) :: s.replayed } := by
  refine ⟨h.covered, h.distinct, h.answered, h.own, fun q hq => ?_⟩
  rcases List.mem_cons.1 hq with rfl | hq
  · obtain ⟨r', hr', hproduced, hfinger⟩ := h.answered row status hrow hstatus
    obtain ⟨hmessage, hquery⟩ := h.distinct r' hr' r hr (hfinger.trans hhash)
    obtain ⟨hcov, hpath⟩ := h.covered r hr
    obtain ⟨hcov', hpath'⟩ := h.covered r' hr'
    grind -ring -linarith [message_injective]
  · exact h.same q hq

theorem Inv.found (h : Inv sha256 s) (hc : s.process c = .arrived r) (hrow : s.record = some row) :
    Inv sha256 (s.found sha256 c r row) := by
  have hr : r ∈ s.arrived := h.request c r (by rw [hc]; rfl)
  have hidle : Inv sha256 (s.go c .idle) := h.move (fun _ => nofun) trivial fun _ => nofun
  unfold State.found
  split
  · exact h.move (fun _ => nofun) trivial fun _ hq => Option.some.inj hq ▸ hr
  · split
    · rename_i hhash
      split
      · rename_i status hstatus
        exact h.act (t := { s with replayed := (r, ⟨status, row.body.getD ""⟩) :: s.replayed })
          rfl (fun _ hq => hq) (fun d _ => (h.holds d).mono rfl fun _ hp => hp) (fun _ => nofun)
          trivial (fun _ => nofun) (h.sound.replay hr hrow hstatus hhash)
      · exact hidle
    · exact hidle

theorem Inv.arrive (h : Inv sha256 s) (hcov : r.covered = true)
    (hok : Undisturbed sha256 s (.arrive c r)) :
    Inv sha256 ({ s with arrived := r :: s.arrived }.go c (.arrived r)) := by
  have hs := h.sound
  refine h.act (t := { s with arrived := r :: s.arrived }) rfl
    (fun _ hq => List.mem_cons_of_mem _ hq) (fun d _ => (h.holds d).mono rfl fun _ hp => hp)
    (fun _ => nofun) trivial (fun _ hq => Option.some.inj hq ▸ List.mem_cons_self)
    ⟨fun q hq => ?_, fun q hq q' hq' => ?_, fun row status hrow hstatus => ?_, hs.own, hs.same⟩
  · rcases List.mem_cons.1 hq with rfl | hq
    · exact ⟨hcov, hok.1⟩
    · exact hs.covered q hq
  · rcases List.mem_cons.1 hq with rfl | hold
    · rcases List.mem_cons.1 hq' with rfl | hold'
      · exact fun _ => ⟨rfl, rfl⟩
      · exact hok.2 q' hold'
    · rcases List.mem_cons.1 hq' with rfl | hold'
      · intro heq
        obtain ⟨hm, hquery⟩ := hok.2 q hold heq.symm
        exact ⟨hm.symm, hquery.symm⟩
      · exact hs.distinct q hold q' hold'
  · obtain ⟨r', hr', hrest⟩ := hs.answered row status hrow hstatus
    exact ⟨r', List.mem_cons_of_mem _ hr', hrest⟩

theorem Inv.claim (h : Inv sha256 s) (nextId : ℕ)
    (hr : r ∈ s.arrived) (hnone : ∀ d, (s.process d).claim = none)
    (hrow : Open sha256 { s with record := some row } r s.nextClaim row) :
    Inv sha256 ({ s with record := some row, nextId := nextId, nextClaim := s.nextClaim + 1 }.go c
      (.executing r s.nextClaim)) := by
  have hs := h.sound
  refine h.act (t := { s with
      record := some row, nextId := nextId, nextClaim := s.nextClaim + 1 }) rfl
    (fun _ hq => hq) (fun d _ => holds_of_claim_none (hnone d)) (fun _ _ d _ => hnone d)
    ⟨row, hrow⟩ (fun _ hq => Option.some.inj hq ▸ hr)
    ⟨hs.covered, hs.distinct, fun row' status hrow' hstatus => ?_, hs.own, hs.same⟩
  cases hrow'
  rw [hrow.2.2.1] at hstatus
  cases hstatus

theorem retake_self (row : Record) (hash : String) (at' claim : ℕ) :
    row.retake row hash at' claim = ⟨row.id, hash, none, none, at', claim⟩ := by
  simp [Record.retake]

theorem answer_open {response : Response} (hstatus : row.status = none) (hbody : row.body = none) :
    row.answer row response =
      { row with status := some response.status, body := some response.body } := by
  simp [Record.answer]

theorem Inv.writeRow (h : Inv sha256 s) {claim : ℕ}
    {f : Record → Option Record} (hc : (s.process c).claim = some claim)
    (hrow : Open sha256 s r claim row) (hf : ∀ row' status, f row = some row' →
      row'.status = some status → ∃ q ∈ s.arrived, (q, ⟨status, row'.body.getD ""⟩) ∈ s.produced ∧
        requestFingerprint sha256 q = row'.requestHash) :
    Inv sha256 (s.writeRow c claim row f) := by
  have hs := h.sound
  have heq : s.writeRow c claim row f =
      { s with record := f row, changes := (claim, row.claim) :: s.changes }.go c .idle := by
    unfold State.writeRow
    rw [hrow.1]
    exact if_pos rfl
  rw [heq]
  refine h.act (t := { s with record := f row, changes := (claim, row.claim) :: s.changes }) rfl
    (fun _ hq => hq) (fun d hd => holds_of_claim_none (h.others hc d hd)) (fun _ => nofun) trivial
    (fun _ => nofun) ⟨hs.covered, hs.distinct, hf, fun p hp => ?_, hs.same⟩
  rcases List.mem_cons.1 hp with rfl | hp
  · exact hrow.2.1.symm
  · exact hs.own p hp

theorem Inv.produce (h : Inv sha256 s) {p : Request × Response}
    (hclaim : ∀ k, ph.claim = some k → (s.process c).claim = some k)
    (hself : State.Holds sha256 { s with produced := p :: s.produced } ph)
    (hreq : ∀ r, ph.request = some r → r ∈ s.arrived) :
    Inv sha256 ({ s with produced := p :: s.produced }.go c ph) := by
  have hs := h.sound
  have hold : ∀ q ∈ s.produced, q ∈ p :: s.produced := fun _ => List.mem_cons_of_mem _
  refine h.act (t := { s with produced := p :: s.produced }) rfl (fun _ hq => hq)
    (fun d _ => (h.holds d).mono rfl hold) (fun _ hk => h.others (hclaim _ hk)) hself hreq
    ⟨hs.covered, hs.distinct, fun row status hrow hstatus => ?_, hs.own, fun q hq => ?_⟩
  · obtain ⟨r, hr, hproduced, hfinger⟩ := hs.answered row status hrow hstatus
    exact ⟨r, hr, hold _ hproduced, hfinger⟩
  · obtain ⟨r, hproduced, hsame⟩ := hs.same q hq
    exact ⟨r, hold _ hproduced, hsame⟩

theorem Inv.step (h : Inv sha256 s) {a : Act} (hok : Undisturbed sha256 s a)
    (hs : step sha256 s a = some s') : Inv sha256 s' := by
  cases a with
  | wait duration =>
    cases hs
    exact ⟨h.alone, h.holds, h.request, h.sound.covered, h.sound.distinct, h.sound.answered,
      h.sound.own, h.sound.same⟩
  | arrive c r =>
    simp only [Idempotency.step] at hs
    split at hs
    · cases hs
      split
      · rename_i hcov
        exact h.arrive hcov hok
      · exact h.move (fun _ => nofun) trivial fun _ => nofun
    · cases hs
  | select c =>
    simp only [Idempotency.step] at hs
    split at hs
    · rename_i r hc
      cases hs
      split
      · rename_i row hrow
        exact h.found hc hrow
      · exact h.move (fun _ => nofun) trivial fun q hq => h.request c q (by rw [hc]; exact hq)
    · cases hs
  | claim c =>
    simp only [Idempotency.step] at hs
    split at hs
    · rename_i r row at' hc
      have hr : r ∈ s.arrived := h.request c r (by rw [hc]; rfl)
      have hout : Inv sha256 (s.go c (.unclaimed r)) :=
        h.move (fun _ => nofun) trivial fun _ => nofun
      split at hs
      · rename_i cur hcur
        split at hs
        · rename_i hid
          cases hs
          obtain ⟨rfl, hnone⟩ := hok r row at' cur hc hcur hid
          rw [retake_self]
          exact h.claim s.nextId hr hnone ⟨rfl, rfl, rfl, rfl, rfl⟩
        · cases hs
          exact hout
      · cases hs
        exact hout
    · rename_i r at' hc
      have hr : r ∈ s.arrived := h.request c r (by rw [hc]; rfl)
      split at hs
      · cases hs
        exact h.move (fun _ => nofun) trivial fun _ => nofun
      · rename_i hnone
        cases hs
        exact h.claim (s.nextId + 1) hr (h.nobody hnone) ⟨rfl, rfl, rfl, rfl, rfl⟩
    · cases hs
  | failClaim c =>
    simp only [Idempotency.step] at hs
    split at hs
    all_goals first
      | cases hs; done
      | cases hs
        exact h.move (fun _ => nofun) trivial fun _ => nofun
  | respond c response =>
    simp only [Idempotency.step] at hs
    split at hs
    · rename_i r claim hc
      cases hs
      have hholds := h.holds c
      rw [hc] at hholds
      exact h.produce (fun k hk => by rw [hc]; exact hk) ⟨hholds, List.mem_cons_self⟩
        fun q hq => h.request c q (by rw [hc]; exact hq)
    · cases hs
      exact h.produce (fun _ => nofun) trivial fun _ => nofun
    · cases hs
  | raise c =>
    simp only [Idempotency.step] at hs
    split at hs
    · rename_i r claim hc
      cases hs
      have hholds := h.holds c
      rw [hc] at hholds
      exact h.move (fun k hk => by rw [hc]; exact hk) hholds
        fun q hq => h.request c q (by rw [hc]; exact hq)
    · cases hs
      exact h.move (fun _ => nofun) trivial fun _ => nofun
    · cases hs
  | selectOwn c =>
    simp only [Idempotency.step] at hs
    split at hs
    · rename_i r claim response hc
      cases hs
      have hholds := h.holds c
      rw [hc] at hholds
      obtain ⟨⟨row, hrow⟩, hproduced⟩ := hholds
      rw [hrow.1]
      exact h.move (fun k hk => by rw [hc]; exact hk) ⟨hrow, hproduced⟩
        fun q hq => h.request c q (by rw [hc]; exact hq)
    · rename_i r claim hc
      cases hs
      have hholds := h.holds c
      rw [hc] at hholds
      obtain ⟨row, hrow⟩ := hholds
      rw [hrow.1]
      exact h.move (fun k hk => by rw [hc]; exact hk) hrow
        fun q hq => h.request c q (by rw [hc]; exact hq)
    · cases hs
  | write c =>
    simp only [Idempotency.step] at hs
    split at hs
    · rename_i r claim response row hc
      cases hs
      have hholds := h.holds c
      rw [hc] at hholds
      obtain ⟨hrow, hproduced⟩ := hholds
      refine h.writeRow (by rw [hc]; rfl) hrow fun row' status hrow' hstatus => ?_
      split at hrow'
      · cases hrow'
        rw [answer_open hrow.2.2.1 hrow.2.2.2.1] at hstatus ⊢
        cases hstatus
        exact ⟨r, h.request c r (by rw [hc]; rfl), hproduced, hrow.2.2.2.2.symm⟩
      · cases hrow'
    · rename_i r claim row hc
      cases hs
      have hholds := h.holds c
      rw [hc] at hholds
      exact h.writeRow (by rw [hc]; rfl) hholds fun _ _ => nofun
    · cases hs
  | abandon c =>
    cases hs
    exact h.move (fun _ => nofun) trivial fun _ => nofun

theorem one_execution (h : Reach (step sha256) (Undisturbed sha256) State.init s) :
    OneExecution s := by
  have hi : Inv sha256 s := h.invariant inv_init fun _ _ _ hi hok hs => hi.step hok hs
  have hclaim : ∀ c, (s.process c).Executes → ∃ k, (s.process c).claim = some k := by
    intro c hc
    cases hp : s.process c with
    | executing r k => exact ⟨k, rfl⟩
    | idle | arrived _ | taking _ _ _ | inserting _ _ | responded _ _ _ | raised _ _
    | completing _ _ _ _ | releasing _ _ _ | unclaimed _ =>
      rw [hp] at hc
      exact hc.elim
  refine ⟨fun c d hc hd => ?_, hi.sound.own, hi.sound.same⟩
  obtain ⟨k, hk⟩ := hclaim c hc
  obtain ⟨l, hl⟩ := hclaim d hd
  exact hi.alone c d k l hk hl

end Exclusion

/-! ### Runs -/

/-- A rule is created with the body of an empty object. -/
def createRule : Request where
  method := "POST"
  path := "/api/v1/rules"
  query := ""
  body := [123, 125]

def ruleHash (_ : List UInt8) : String :=
  "4eb9df085efb83bc0eb4242194089ec747874a1f85c8209159b82376a9b7cb1b"

def madeRun : List Act :=
  [.arrive 0 createRule, .select 0, .claim 0, .respond 0 ⟨201, "{}"⟩, .selectOwn 0, .write 0]

def replayRun : List Act := madeRun ++ [Act.arrive 1 createRule, Act.select 1]

theorem answer_replayed : ∃ s, Reach (step ruleHash) (Undisturbed ruleHash) State.init s ∧
    s.replayed = [(createRule, ⟨201, "{}"⟩)] ∧ OneExecution s := by
  have hpath : 0 ∉ bytes createRule.path := by decide +kernel
  have hagain : ∀ r' ∈ [createRule], Distinct ruleHash createRule r' := by
    intro r' hr' _
    rw [List.mem_singleton.1 hr']
    exact ⟨rfl, rfl⟩
  have halong : Along (step ruleHash) (Undisturbed ruleHash) State.init replayRun := by
    refine .cons ⟨hpath, nofun⟩ rfl (.cons trivial rfl (.cons (fun _ _ _ _ hc => ?_) rfl ?_))
    · cases hc
    · exact .cons trivial rfl (.cons trivial rfl (.cons trivial rfl
        (.cons ⟨hpath, hagain⟩ rfl (.cons trivial rfl trivial))))
  have hreach : Reach (step ruleHash) (Undisturbed ruleHash) State.init _ :=
    reach_exec (show exec (step ruleHash) State.init replayRun = some _ from rfl) halong
  exact ⟨_, hreach, rfl, one_execution hreach⟩

/-- The key expires, and two requests come at once. -/
def expiredRun : List Act :=
  madeRun ++ ([.wait (TTL + 1), .arrive 0 createRule, .arrive 1 createRule, .select 0, .select 1,
    .claim 0, .claim 1] : List Act)

theorem two_executions : ∃ s, Reachable (step ruleHash) State.init s ∧ ¬ OneExecution s := by
  refine ⟨_, reachable_exec (show exec (step ruleHash) State.init expiredRun = some _ from rfl),
    fun h => ?_⟩
  exact absurd (h.executing 0 1 trivial trivial) (by decide)

end RuleMind.Idempotency
