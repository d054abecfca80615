/-
  The verified credentials that `app/storage.py` keeps in memory: `get_tenant_by_api_key` and
  `resolve_member_session` against `revoke_api_key`, `update_api_key_role`, `update_member` and
  `revoke_member_session`, in one process.

  Any number of calls take turns at their steps.  The versions of a row are the values it has been
  committed with; that an entry knows which versions it is from is only for the statements.
-/
import RuleMind.Lib.Run
import Mathlib.Data.Int.Basic
import Mathlib.Order.Basic

namespace RuleMind.Credentials

open Lib

/-! ### Rows and what is cached of them -/

inductive RowId
  | apiKey (lookup : String)
  | session (tokenHash : String)
  | member (id : String)
  deriving DecidableEq

structure ApiKey where
  kid : String
  tenantId : String
  role : String
  isActive : Bool

structure MemberSession where
  id : String
  memberId : String
  revoked : Bool
  expiresAt : ℤ

structure WorkspaceMember where
  tenantId : String
  email : String
  name : String
  role : String
  isActive : Bool

abbrev RowId.Value : RowId → Type
  | .apiKey _ => ApiKey
  | .session _ => MemberSession
  | .member _ => WorkspaceMember

inductive Result
  | key (tenantId kid role : String)
  | session (tenantId memberId email name role sessionId : String)

def ApiKey.result (row : ApiKey) : Result := .key row.tenantId row.kid row.role

def MemberSession.result (row : MemberSession) (m : WorkspaceMember) : Result :=
  .session m.tenantId row.memberId m.email m.name m.role row.id

inductive Credential
  | apiKey (key : String)
  | token (token : String)
  deriving DecidableEq

/-- An entry of `_api_key_cache` or `_member_session_cache`, with the versions it is from. -/
structure Entry where
  result : Result
  expires : ℤ
  reads : List (RowId × ℕ)

/-! ### Calls -/

/-- The fields of a patch that are given and not empty, the role as `normalize_role` has it. -/
structure MemberPatch where
  name : Option String
  role : Option String
  isActive : Option Bool
  deriving DecidableEq

inductive Call
  | getTenantByApiKey (key : String)
  | resolveMemberSession (token : String)
  | revokeApiKey (tenantId key : String)
  | updateApiKeyRole (tenantId key role : String)
  | updateMember (tenantId id : String) (patch : MemberPatch)
  | revokeMemberSession (token : String)

/-- The columns that a unit of work has changed in a row. -/
structure Update where
  row : RowId
  set : row.Value → row.Value

/-- Where a call stands.  `since` is what had returned when a lookup started. -/
inductive Phase
  | called
  /-- The cache had no entry. -/
  | missed (now : ℤ) (since : RowId → ℕ)
  | sessionRead (now : ℤ) (since : RowId → ℕ) (row : MemberSession) (version : ℕ)
  | filling (since : RowId → ℕ) (e : Entry)
  /-- The row of a change is loaded. -/
  | found (u : Option Update)
  /-- The keys are dropped, the change is not committed. -/
  | cleared (u : Option Update)
  /-- The change is committed as this version, the sessions are not dropped. -/
  | committed (c : Option (RowId × ℕ))
  | invalidated (c : Option (RowId × ℕ))
  | returned

structure Answer where
  credential : Credential
  since : RowId → ℕ
  result : Option Result

structure State where
  now : ℤ
  /-- The versions of a row, the last one is stored. -/
  rows : (r : RowId) → List r.Value
  cache : Credential → Option Entry
  phase : ℕ → Phase
  answers : List Answer
  /-- The last version of a row that has been committed and dropped from the cache. -/
  dropped : RowId → ℕ
  /-- The last version of a row whose call has returned. -/
  returned : RowId → ℕ

/-- The process: `API_KEY_CACHE_TTL`, and which tenants exist. -/
structure Process where
  ttl : ℤ
  tenant : String → Bool

inductive Action
  | wait (seconds : ℕ)
  | next (call : ℕ)

namespace State

def setPhase (s : State) (i : ℕ) (p : Phase) : State :=
  { s with phase := Function.update s.phase i p }

def version (s : State) (r : RowId) : ℕ := (s.rows r).length - 1

def answer (s : State) (i : ℕ) (c : Credential) (since : RowId → ℕ) (x : Option Result) : State :=
  { s.setPhase i .returned with answers := s.answers ++ [⟨c, since, x⟩] }

def readCache (s : State) (i : ℕ) (c : Credential) : State :=
  match s.cache c with
  | some e =>
    if s.now < e.expires then s.answer i c s.returned (some e.result)
    else s.setPhase i (.missed s.now s.returned)
  | none => s.setPhase i (.missed s.now s.returned)

def store (s : State) (c : Credential) (e : Entry) : State :=
  { s with cache := Function.update s.cache c (some e) }

def fill (P : Process) (s : State) (i : ℕ) (c : Credential) (since : RowId → ℕ) (e : Entry) :
    State :=
  (if 0 < P.ttl then s.store c e else s).answer i c since (some e.result)

/-- Entries are dropped, on account of a committed version. -/
def drop (s : State) (gone : Credential → Entry → Bool) (c : Option (RowId × ℕ)) : State :=
  { s with
    cache := fun cred => (s.cache cred).filter fun e => !gone cred e
    dropped := c.elim s.dropped fun rv =>
      Function.update s.dropped rv.1 (max (s.dropped rv.1) rv.2) }

/-- `session.commit()`; nothing is written of a row that is as it was loaded. -/
def commit (s : State) : Option Update → State
  | none => s
  | some u =>
    match (s.rows u.row).getLast? with
    | none => s
    | some x => { s with rows := Function.update s.rows u.row (s.rows u.row ++ [u.set x]) }

def finish (s : State) (i : ℕ) (c : Option (RowId × ℕ)) : State :=
  { s.setPhase i .returned with
    returned := c.elim s.returned fun rv =>
      Function.update s.returned rv.1 (max (s.returned rv.1) rv.2) }

end State

def committedAs (s : State) (u : Option Update) : Option (RowId × ℕ) :=
  u.map fun u => (u.row, (s.commit (some u)).version u.row)

/-- `_api_key_cache.clear()`. -/
def allKeys : Credential → Entry → Bool
  | .apiKey _, _ => true
  | .token _, _ => false

/-- `_invalidate_member`. -/
def ofMember (id : String) : Credential → Entry → Bool
  | .token _, ⟨.session _ memberId _ _ _ _, _, _⟩ => memberId = id
  | _, _ => false

/-- `_member_session_cache.pop(token_hash, None)`. -/
def ofToken (token : String) : Credential → Entry → Bool
  | .token t, _ => t = token
  | .apiKey _, _ => false

def getTenantByApiKey (P : Process) (s : State) (i : ℕ) (key : String) : Option State :=
  match s.phase i with
  | .called => some (s.readCache i (.apiKey key))
  | .missed now since =>
    match (s.rows (.apiKey key)).getLast? with
    | none => some (s.answer i (.apiKey key) since none)
    | some row =>
      if row.isActive && P.tenant row.tenantId then
        some (s.setPhase i (.filling since
          ⟨row.result, now + P.ttl, [(.apiKey key, s.version (.apiKey key))]⟩))
      else some (s.answer i (.apiKey key) since none)
  | .filling since e => some (s.fill P i (.apiKey key) since e)
  | _ => none

def resolveMemberSession (P : Process) (s : State) (i : ℕ) (token : String) : Option State :=
  match s.phase i with
  | .called =>
    if token = "" then some (s.answer i (.token token) s.returned none)
    else some (s.readCache i (.token token))
  | .missed now since =>
    match (s.rows (.session token)).getLast? with
    | none => some (s.answer i (.token token) since none)
    | some row =>
      if row.revoked || row.expiresAt < s.now then some (s.answer i (.token token) since none)
      else some (s.setPhase i (.sessionRead now since row (s.version (.session token))))
  | .sessionRead now since row v =>
    match (s.rows (.member row.memberId)).getLast? with
    | none => some (s.answer i (.token token) since none)
    | some m =>
      if m.isActive then
        some (s.setPhase i (.filling since ⟨row.result m, now + min P.ttl 60,
          [(.session token, v), (.member row.memberId, s.version (.member row.memberId))]⟩))
      else some (s.answer i (.token token) since none)
  | .filling since e => some (s.fill P i (.token token) since e)
  | _ => none

/-- The commit of a change of a key, which has dropped the keys before. -/
def commitKey (s : State) (i : ℕ) (u : Option Update) : State :=
  ((s.commit u).drop (fun _ _ => false) (committedAs s u)).setPhase i
    (.invalidated (committedAs s u))

/-- `revoke_api_key` and `update_api_key_role`, with what they change of the row they load. -/
def changeKey (s : State) (i : ℕ) (tenantId key : String)
    (set : ApiKey → Option (ApiKey → ApiKey)) : Option State :=
  match s.phase i with
  | .called =>
    match (s.rows (.apiKey key)).getLast? with
    | none => some (s.finish i none)
    | some row =>
      if row.tenantId = tenantId && row.isActive then
        some (s.setPhase i (.found ((set row).map fun f => ⟨.apiKey key, f⟩)))
      else some (s.finish i none)
  | .found u => some ((s.drop allKeys none).setPhase i (.cleared u))
  | .cleared u => some (commitKey s i u)
  | .invalidated c => some (s.finish i c)
  | _ => none

def revokeApiKey (s : State) (i : ℕ) (tenantId key : String) : Option State :=
  changeKey s i tenantId key fun _ => some fun row => { row with isActive := false }

def updateApiKeyRole (s : State) (i : ℕ) (tenantId key role : String) : Option State :=
  changeKey s i tenantId key fun loaded =>
    if loaded.role = role then none else some fun row => { row with role := role }

/-- The fields of a patch that differ from the row. -/
def MemberPatch.changes (p : MemberPatch) (m : WorkspaceMember) : MemberPatch where
  name := p.name.filter (· ≠ m.name)
  role := p.role.filter (· ≠ m.role)
  isActive := p.isActive.filter (· ≠ m.isActive)

def MemberPatch.apply (p : MemberPatch) (m : WorkspaceMember) : WorkspaceMember :=
  { m with
    name := p.name.getD m.name
    role := p.role.getD m.role
    isActive := p.isActive.getD m.isActive }

/-- A change of a member or a session, whose entries are dropped after the commit. -/
def commitThenDrop (s : State) (i : ℕ) (gone : Credential → Entry → Bool) : Option State :=
  match s.phase i with
  | .found u => some ((s.commit u).setPhase i (.committed (committedAs s u)))
  | .committed c => some ((s.drop gone c).setPhase i (.invalidated c))
  | .invalidated c => some (s.finish i c)
  | _ => none

def updateMember (s : State) (i : ℕ) (tenantId id : String) (patch : MemberPatch) : Option State :=
  match s.phase i with
  | .called =>
    match (s.rows (.member id)).getLast? with
    | none => some (s.finish i none)
    | some m =>
      if m.tenantId = tenantId then
        some (s.setPhase i (.found (if patch.changes m = ⟨none, none, none⟩ then none
          else some ⟨.member id, (patch.changes m).apply⟩)))
      else some (s.finish i none)
  | _ => commitThenDrop s i (ofMember id)

def revokeMemberSession (s : State) (i : ℕ) (token : String) : Option State :=
  match s.phase i with
  | .called =>
    match (s.rows (.session token)).getLast? with
    | none => some (s.setPhase i (.committed none))
    | some row =>
      some (s.setPhase i (.found (if row.revoked then none
        else some ⟨.session token, fun row => { row with revoked := true }⟩)))
  | _ => commitThenDrop s i (ofToken token)

variable (P : Process) (calls : List Call)

def step (s : State) : Action → Option State
  | .wait seconds => some { s with now := s.now + seconds }
  | .next i =>
    match calls[i]? with
    | none => none
    | some (.getTenantByApiKey key) => getTenantByApiKey P s i key
    | some (.resolveMemberSession token) => resolveMemberSession P s i token
    | some (.revokeApiKey tenantId key) => revokeApiKey s i tenantId key
    | some (.updateApiKeyRole tenantId key role) => updateApiKeyRole s i tenantId key role
    | some (.updateMember tenantId id patch) => updateMember s i tenantId id patch
    | some (.revokeMemberSession token) => revokeMemberSession s i token

def State.init (now : ℤ) (rows : (r : RowId) → Option r.Value) : State where
  now := now
  rows r := (rows r).toList
  cache _ := none
  phase _ := .called
  answers := []
  dropped _ := 0
  returned _ := 0

/-- What is yielded is from versions of the rows that no change which had returned when the lookup
    started has replaced. -/
def Answer.Current (s : State) (a : Answer) : Prop :=
  ∀ x, a.result = some x →
    match a.credential with
    | .apiKey k => ∃ row : ApiKey, row ∈ (s.rows (.apiKey k)).drop (a.since (.apiKey k)) ∧
        row.isActive = true ∧ x = row.result
    | .token t => ∃ row : MemberSession,
        row ∈ (s.rows (.session t)).drop (a.since (.session t)) ∧ row.revoked = false ∧
        ∃ m : WorkspaceMember,
          m ∈ (s.rows (.member row.memberId)).drop (a.since (.member row.memberId)) ∧
          m.isActive = true ∧ x = row.result m

def RowId.Dead : (r : RowId) → r.Value → Prop
  | .apiKey _, row => ApiKey.isActive row = false
  | .session _, row => MemberSession.revoked row = true
  | .member _, _ => False

/-- The revocation of the credential had returned when the lookup started. -/
def Answer.Revoked (s : State) (a : Answer) : Prop :=
  match a.credential with
  | .apiKey k => ∃ row : ApiKey,
      (s.rows (.apiKey k))[a.since (.apiKey k)]? = some row ∧ row.isActive = false
  | .token t => ∃ row : MemberSession,
      (s.rows (.session t))[a.since (.session t)]? = some row ∧ row.revoked = true

/-- A fill is from versions that no drop has overtaken, and at the commit of a change of a key no
    entry rests on it. -/
def Untouched (s : State) : Action → Prop
  | .wait _ => True
  | .next i =>
    match s.phase i with
    | .filling _ e => ∀ rv ∈ e.reads, s.dropped rv.1 ≤ rv.2
    | .cleared (some u) => ∀ c e, s.cache c = some e → ∀ rv ∈ e.reads, rv.1 ≠ u.row
    | _ => True

/-! ### What holds where a call stands -/

/-- The result is that of the credential, in the versions that were read. -/
def State.Yields (s : State) : Credential → List (RowId × ℕ) → Result → Prop
  | .apiKey k, reads, x => ∃ (v : ℕ) (row : ApiKey), reads = [(.apiKey k, v)] ∧
      (s.rows (.apiKey k))[v]? = some row ∧ row.isActive = true ∧ x = row.result
  | .token t, reads, x => ∃ (v : ℕ) (row : MemberSession) (w : ℕ) (m : WorkspaceMember),
      reads = [(.session t, v), (.member row.memberId, w)] ∧
      (s.rows (.session t))[v]? = some row ∧ row.revoked = false ∧
      (s.rows (.member row.memberId))[w]? = some m ∧ m.isActive = true ∧ x = row.result m

def NotBefore (since : RowId → ℕ) (reads : List (RowId × ℕ)) : Prop :=
  ∀ rv ∈ reads, since rv.1 ≤ rv.2

def Update.Keeps (u : Update) : Prop := ∀ x, u.row.Dead x → u.row.Dead (u.set x)

def Call.credential : Call → Option Credential
  | .getTenantByApiKey key => some (.apiKey key)
  | .resolveMemberSession token => some (.token token)
  | _ => none

def Call.target : Call → Option RowId
  | .revokeApiKey _ key => some (.apiKey key)
  | .updateApiKeyRole _ key _ => some (.apiKey key)
  | .updateMember _ id _ => some (.member id)
  | .revokeMemberSession token => some (.session token)
  | _ => none

def PhaseOk (s : State) (c : Call) : Phase → Prop
  | .called | .returned => True
  | .missed _ since => ∀ r, since r ≤ s.returned r
  | .sessionRead _ since row v => (∀ r, since r ≤ s.returned r) ∧
      ∃ t, c.credential = some (.token t) ∧ (s.rows (.session t))[v]? = some row ∧
        row.revoked = false ∧ since (.session t) ≤ v
  | .filling since e => ∃ cred, c.credential = some cred ∧ s.Yields cred e.reads e.result ∧
      NotBefore since e.reads
  | .found u | .cleared u => ∀ u', u = some u' → c.target = some u'.row ∧ u'.Keeps
  | .committed d => ∀ rv, d = some rv → c.target = some rv.1 ∧ rv.2 ≤ s.version rv.1
  | .invalidated d => ∀ rv, d = some rv → rv.2 ≤ s.dropped rv.1

/-- Rows only get new versions, and what is dropped or returned only grows. -/
structure State.Later (s s' : State) : Prop where
  rows : ∀ r, s.rows r <+: s'.rows r
  dropped : ∀ r, s.dropped r ≤ s'.dropped r
  returned : ∀ r, s.returned r ≤ s'.returned r

variable {P calls} {s s' : State} {i : ℕ} {c : Call}

theorem State.Later.refl (s : State) : s.Later s where
  rows _ := List.prefix_refl _
  dropped _ := le_rfl
  returned _ := le_rfl

variable {r : RowId} {cred : Credential} {p : Phase} {since : RowId → ℕ} {e : Entry} {d : Option
  (RowId × ℕ)}

variable {x : r.Value} {v n : ℕ} {u : Option Update} {rv : RowId × ℕ} {a : Answer}

theorem State.Later.stored (h : s.Later s')
    (hx : (s.rows r)[v]? = some x) : (s'.rows r)[v]? = some x := by
  obtain ⟨l, hl⟩ := h.rows r
  grind

theorem State.Later.version (h : s.Later s') (r : RowId) : s.version r ≤ s'.version r :=
  Nat.sub_le_sub_right (h.rows r).length_le 1

theorem State.Yields.later {reads : List (RowId × ℕ)} {x : Result}
    (h : s.Yields cred reads x) (hl : s.Later s') : s'.Yields cred reads x := by
  cases cred with
  | apiKey k =>
    obtain ⟨v, row, hreads, hrow, hactive, hx⟩ := h
    exact ⟨v, row, hreads, hl.stored hrow, hactive, hx⟩
  | token t =>
    obtain ⟨v, row, w, m, hreads, hrow, hrevoked, hm, hactive, hx⟩ := h
    exact ⟨v, row, w, m, hreads, hl.stored hrow, hrevoked, hl.stored hm, hactive, hx⟩

theorem PhaseOk.later (h : PhaseOk s c p) (hl : s.Later s') : PhaseOk s' c p := by
  cases p with
  | called => trivial
  | returned => trivial
  | missed now since => exact fun r => (h r).trans (hl.returned r)
  | sessionRead now since row v =>
    obtain ⟨hsince, t, hc, hrow, hrest⟩ := h
    exact ⟨fun r => (hsince r).trans (hl.returned r), t, hc, hl.stored hrow, hrest⟩
  | filling since e =>
    obtain ⟨cred, hc, hyields, hreads⟩ := h
    exact ⟨cred, hc, hyields.later hl, hreads⟩
  | found u => exact h
  | cleared u => exact h
  | committed d => exact fun rv hd => ⟨(h rv hd).1, (h rv hd).2.trans (hl.version rv.1)⟩
  | invalidated d => exact fun rv hd => (h rv hd).trans (hl.dropped rv.1)

/-! ### The invariant -/

structure Inv (calls : List Call) (s : State) : Prop where
  /-- An entry is from versions whose drop has not gone by. -/
  entries : ∀ cred e, s.cache cred = some e →
    s.Yields cred e.reads e.result ∧ NotBefore s.dropped e.reads
  floors : ∀ r, s.returned r ≤ s.dropped r
  stored : ∀ r, s.dropped r ≤ s.version r
  dead : ∀ r, (s.rows r).Pairwise fun x y => r.Dead x → r.Dead y
  phases : ∀ i c, calls[i]? = some c → PhaseOk s c (s.phase i)
  answers : ∀ a ∈ s.answers, ∀ x, a.result = some x →
    ∃ reads, s.Yields a.credential reads x ∧ NotBefore a.since reads

theorem inv_init (now : ℤ) (rows : (r : RowId) → Option r.Value) :
    Inv calls (State.init now rows) where
  entries _ _ h := by cases h
  floors _ := le_rfl
  stored _ := Nat.zero_le _
  dead r := by
    show (rows r).toList.Pairwise _
    simp
  phases _ _ _ := trivial
  answers _ h := by cases h

theorem phase_setPhase (hc : calls[i]? = some c) (hok : PhaseOk s' c p)
    (hold : ∀ j c', calls[j]? = some c' → PhaseOk s' c' (s.phase j)) :
    ∀ j c', calls[j]? = some c' → PhaseOk s' c' ((s.setPhase i p).phase j) := by
  intro j c' hj
  by_cases hji : j = i
  · subst hji
    rw [hc] at hj
    cases hj
    rw [show (s.setPhase j p).phase j = p from Function.update_self ..]
    exact hok
  · rw [show (s.setPhase i p).phase j = s.phase j from Function.update_of_ne hji ..]
    exact hold j c' hj

theorem Inv.setPhase (h : Inv calls s) (hc : calls[i]? = some c)
    (hok : PhaseOk s c p) : Inv calls (s.setPhase i p) where
  entries := h.entries
  floors := h.floors
  stored := h.stored
  dead := h.dead
  answers := h.answers
  phases := phase_setPhase hc hok h.phases

theorem Inv.answer (h : Inv calls s) (hc : calls[i]? = some c)
    {x : Option Result} (hx : ∀ y, x = some y →
      ∃ reads, s.Yields cred reads y ∧ NotBefore since reads) :
    Inv calls (s.answer i cred since x) where
  entries := h.entries
  floors := h.floors
  stored := h.stored
  dead := h.dead
  phases := (h.setPhase hc (p := .returned) trivial).phases
  answers a ha := by
    rcases List.mem_append.1 ha with ha | ha
    · exact h.answers a ha
    · cases List.mem_singleton.1 ha
      exact hx

theorem Inv.readCache (h : Inv calls s) (hc : calls[i]? = some c) (cred : Credential) :
    Inv calls (s.readCache i cred) := by
  have hmissed : Inv calls (s.setPhase i (.missed s.now s.returned)) :=
    h.setPhase hc fun _ => le_rfl
  rw [State.readCache]
  cases he : s.cache cred with
  | none => exact hmissed
  | some e =>
    simp only
    split
    · obtain ⟨hyields, hreads⟩ := h.entries cred e he
      refine h.answer hc fun y hy => ?_
      cases hy
      exact ⟨e.reads, hyields, fun rv hrv => (h.floors rv.1).trans (hreads rv hrv)⟩
    · exact hmissed

theorem Inv.store (h : Inv calls s)
    (hyields : s.Yields cred e.reads e.result) (hreads : NotBefore s.dropped e.reads) :
    Inv calls (s.store cred e) where
  floors := h.floors
  stored := h.stored
  dead := h.dead
  phases := h.phases
  answers := h.answers
  entries cred' e' he := by
    have he : Function.update s.cache cred (some e) cred' = some e' := he
    by_cases hcred : cred' = cred
    · subst hcred
      rw [Function.update_self] at he
      cases he
      exact ⟨hyields, hreads⟩
    · rw [Function.update_of_ne hcred] at he
      exact h.entries cred' e' he

theorem Inv.drop (h : Inv calls s) {gone : Credential → Entry → Bool}
    (hd : ∀ rv, d = some rv → rv.2 ≤ s.version rv.1 ∧
      ∀ cred e, s.cache cred = some e → gone cred e = false → ∀ rv' ∈ e.reads, rv'.1 ≠ rv.1) :
    Inv calls (s.drop gone d) := by
  have hdropped : ∀ r, (s.drop gone d).dropped r = s.dropped r ∨
      ∃ v, d = some (r, v) ∧ (s.drop gone d).dropped r = max (s.dropped r) v := by
    intro r
    cases d with
    | none => exact .inl rfl
    | some rv =>
      by_cases hr : r = rv.1
      · subst hr
        exact .inr ⟨rv.2, rfl, Function.update_self ..⟩
      · exact .inl (Function.update_of_ne hr ..)
  have hlater : s.Later (s.drop gone d) := by
    refine ⟨fun _ => List.prefix_refl _, fun r => ?_, fun _ => le_rfl⟩
    rcases hdropped r with hr | ⟨v, -, hr⟩
    · exact hr.ge
    · exact hr ▸ le_max_left ..
  refine ⟨fun cred e he => ?_, fun r => (h.floors r).trans (hlater.dropped r), fun r => ?_, h.dead,
    fun i c hc => (h.phases i c hc).later hlater, h.answers⟩
  · obtain ⟨he, hleft⟩ := Option.filter_eq_some_iff.1 he
    have hleft : gone cred e = false := by simpa using hleft
    obtain ⟨hyields, hreads⟩ := h.entries cred e he
    refine ⟨hyields, fun rv hrv => ?_⟩
    rcases hdropped rv.1 with hr | ⟨v, hv, -⟩
    · exact hr ▸ hreads rv hrv
    · exact absurd rfl ((hd _ hv).2 cred e he hleft rv hrv)
  · show (s.drop gone d).dropped r ≤ s.version r
    rcases hdropped r with hr | ⟨v, hv, hr⟩
    · exact hr ▸ h.stored r
    · exact hr ▸ max_le (h.stored r) (hd _ hv).1

theorem later_commit (u : Option Update) : s.Later (s.commit u) := by
  cases u with
  | none => exact .refl s
  | some u =>
    rw [State.commit]
    cases hlast : (s.rows u.row).getLast? with
    | none => exact .refl s
    | some x =>
      refine ⟨fun r => ?_, fun _ => le_rfl, fun _ => le_rfl⟩
      grind

theorem cache_commit (u : Option Update) : (s.commit u).cache = s.cache := by
  cases u with
  | none => rfl
  | some u => grind [State.commit]

theorem dropped_commit (u : Option Update) : (s.commit u).dropped = s.dropped := by
  cases u with
  | none => rfl
  | some u => grind [State.commit]

theorem Inv.commit (h : Inv calls s) (hu : ∀ u', u = some u' → u'.Keeps) :
    Inv calls (s.commit u) := by
  have hlater := later_commit (s := s) u
  have hsame : (s.commit u).phase = s.phase ∧ (s.commit u).answers = s.answers ∧
      (s.commit u).returned = s.returned := by
    cases u with
    | none => exact ⟨rfl, rfl, rfl⟩
    | some u => grind [State.commit]
  obtain ⟨hphase, hanswers, hreturned⟩ := hsame
  refine ⟨fun cred e he => ?_, fun r => ?_, fun r => ?_, fun r => ?_, fun i c hc => ?_,
    fun a ha x hx => ?_⟩
  · rw [cache_commit] at he
    rw [dropped_commit]
    exact ⟨(h.entries cred e he).1.later hlater, (h.entries cred e he).2⟩
  · rw [hreturned, dropped_commit]
    exact h.floors r
  · rw [dropped_commit]
    exact (h.stored r).trans (hlater.version r)
  · cases u with
    | none => exact h.dead r
    | some u =>
      rw [State.commit]
      cases hlast : (s.rows u.row).getLast? with
      | none => exact h.dead r
      | some x =>
        by_cases hr : r = u.row
        · subst hr
          simp only [Function.update_self]
          refine List.pairwise_append.2 ⟨h.dead _, List.pairwise_singleton _ _, ?_⟩
          intro y hy z hz hdead
          rw [List.mem_singleton.1 hz]
          -- a revoked version is the last one, or the last one is revoked with it
          obtain ⟨l, hl⟩ := List.getLast?_eq_some_iff.1 hlast
          have hpairs := h.dead u.row
          rw [hl] at hy hpairs
          rcases List.mem_append.1 hy with hy | hy
          · exact hu u rfl x ((List.pairwise_append.1 hpairs).2.2 y hy x
              (List.mem_singleton_self x) hdead)
          · rw [List.mem_singleton.1 hy] at hdead
            exact hu u rfl x hdead
        · simp only [Function.update_of_ne hr]
          exact h.dead r
  · rw [hphase]
    exact (h.phases i c hc).later hlater
  · rw [hanswers] at ha
    obtain ⟨reads, hyields, hreads⟩ := h.answers a ha x hx
    exact ⟨reads, hyields.later hlater, hreads⟩

theorem Inv.finish (h : Inv calls s) (hc : calls[i]? = some c)
    (hd : ∀ rv, d = some rv → rv.2 ≤ s.dropped rv.1) : Inv calls (s.finish i d) := by
  have hreturned : ∀ r, s.returned r ≤ (s.finish i d).returned r ∧
      (s.finish i d).returned r ≤ s.dropped r := by
    intro r
    cases d with
    | none => exact ⟨le_rfl, h.floors r⟩
    | some rv =>
      show _ ≤ Function.update s.returned rv.1 _ r ∧ Function.update s.returned rv.1 _ r ≤ _
      by_cases hr : r = rv.1
      · subst hr
        rw [Function.update_self]
        exact ⟨le_max_left .., max_le (h.floors _) (hd rv rfl)⟩
      · rw [Function.update_of_ne hr]
        exact ⟨le_rfl, h.floors r⟩
  have hlater : s.Later (s.finish i d) :=
    ⟨fun _ => List.prefix_refl _, fun _ => le_rfl, fun r => (hreturned r).1⟩
  exact ⟨h.entries, fun r => (hreturned r).2, h.stored, h.dead,
    phase_setPhase (p := .returned) hc trivial fun j c' hj => (h.phases j c' hj).later hlater,
    h.answers⟩

/-! ### Every step keeps it -/

theorem last_stored (h : (s.rows r).getLast? = some x) : (s.rows r)[s.version r]? = some x := by
  rw [State.version, ← List.getLast?_eq_getElem?, h]

theorem Inv.since_stored (h : Inv calls s)
    (hsince : ∀ r, since r ≤ s.returned r) (r : RowId) : since r ≤ s.version r :=
  (hsince r).trans ((h.floors r).trans (h.stored r))

theorem Inv.noAnswer (h : Inv calls s) (hc : calls[i]? = some c) (cred : Credential)
    (since : RowId → ℕ) : Inv calls (s.answer i cred since none) :=
  h.answer hc fun _ hy => by cases hy

theorem Inv.fill (h : Inv calls s) (hc : calls[i]? = some c) (hp : s.phase i = .filling since e)
    (hcred : c.credential = some cred) (hok : Untouched s (.next i)) :
    Inv calls (s.fill P i cred since e) := by
  rw [Untouched, hp] at hok
  have hphase := h.phases i c hc
  rw [hp] at hphase
  obtain ⟨cred', hcred', hyields, hreads⟩ := hphase
  rw [hcred] at hcred'
  cases hcred'
  rw [State.fill]
  split
  · have hlater : s.Later (s.store cred e) :=
      ⟨fun _ => List.prefix_refl _, fun _ => le_rfl, fun _ => le_rfl⟩
    refine (h.store hyields hok).answer hc fun y hy => ?_
    cases hy
    exact ⟨e.reads, hyields.later hlater, hreads⟩
  · refine h.answer hc fun y hy => ?_
    cases hy
    exact ⟨e.reads, hyields, hreads⟩

theorem Inv.getTenantByApiKey (h : Inv calls s) {key : String}
    (hc : calls[i]? = some (.getTenantByApiKey key)) (hok : Untouched s (.next i))
    (hs : getTenantByApiKey P s i key = some s') : Inv calls s' := by
  have hphase := h.phases i _ hc
  rw [Credentials.getTenantByApiKey] at hs
  split at hs
  · cases hs
    exact h.readCache hc _
  · rename_i now since hp
    rw [hp] at hphase
    split at hs
    · cases hs
      exact h.noAnswer hc _ _
    · rename_i row hrow
      split at hs
      · rename_i hactive
        cases hs
        rw [Bool.and_eq_true] at hactive
        refine h.setPhase hc ⟨.apiKey key, rfl, ⟨_, row, rfl, last_stored hrow, hactive.1, rfl⟩, ?_⟩
        intro rv hrv
        cases List.mem_singleton.1 hrv
        exact h.since_stored hphase _
      · cases hs
        exact h.noAnswer hc _ _
  · rename_i since e hp
    cases hs
    exact h.fill hc hp rfl hok
  · cases hs

theorem Inv.resolveMemberSession (h : Inv calls s) {token : String}
    (hc : calls[i]? = some (.resolveMemberSession token)) (hok : Untouched s (.next i))
    (hs : resolveMemberSession P s i token = some s') : Inv calls s' := by
  have hphase := h.phases i _ hc
  rw [Credentials.resolveMemberSession] at hs
  split at hs
  · split at hs
    · cases hs
      exact h.noAnswer hc _ _
    · cases hs
      exact h.readCache hc _
  · rename_i now since hp
    rw [hp] at hphase
    split at hs
    · cases hs
      exact h.noAnswer hc _ _
    · rename_i row hrow
      split at hs
      · cases hs
        exact h.noAnswer hc _ _
      · rename_i hvalid
        cases hs
        rw [Bool.or_eq_true, not_or] at hvalid
        exact h.setPhase hc ⟨hphase, token, rfl, last_stored hrow, by simpa using hvalid.1,
          h.since_stored hphase _⟩
  · rename_i now since row v hp
    rw [hp] at hphase
    obtain ⟨hsince, t, ht, hrow, hrevoked, hv⟩ := hphase
    cases ht
    split at hs
    · cases hs
      exact h.noAnswer hc _ _
    · rename_i m hm
      split at hs
      · rename_i hactive
        cases hs
        refine h.setPhase hc ⟨.token token, rfl,
          ⟨v, row, _, m, rfl, hrow, hrevoked, last_stored hm, hactive, rfl⟩, ?_⟩
        intro rv hrv
        rcases List.mem_cons.1 hrv with hrv | hrv
        · cases hrv
          exact hv
        · cases List.mem_singleton.1 hrv
          exact h.since_stored hsince _
      · cases hs
        exact h.noAnswer hc _ _
  · rename_i since e hp
    cases hs
    exact h.fill hc hp rfl hok
  · cases hs

theorem committedAs_eq (h : committedAs s u = some rv) :
    ∃ u', u = some u' ∧ rv = (u'.row, (s.commit u).version u'.row) := by
  obtain ⟨u', rfl, hrv⟩ := Option.map_eq_some_iff.1 h
  exact ⟨u', rfl, hrv.symm⟩

theorem dropped_drop (gone : Credential → Entry → Bool)
    (hd : d = some rv) : rv.2 ≤ (s.drop gone d).dropped rv.1 := by
  subst hd
  show _ ≤ Function.update s.dropped rv.1 _ rv.1
  rw [Function.update_self]
  exact le_max_right ..

theorem Inv.commitKey (h : Inv calls s) (hc : calls[i]? = some c) {u : Option Update}
    (hp : s.phase i = .cleared u) (hok : Untouched s (.next i)) :
    Inv calls (commitKey s i u) := by
  have hphase := h.phases i c hc
  rw [hp] at hphase
  rw [Untouched, hp] at hok
  have hdrop : Inv calls ((s.commit u).drop (fun _ _ => false) (committedAs s u)) := by
    refine (h.commit fun u' hu => (hphase u' hu).2).drop fun rv hrv => ?_
    obtain ⟨u', rfl, rfl⟩ := committedAs_eq hrv
    refine ⟨le_rfl, fun cred e he _ rv hrv => ?_⟩
    rw [cache_commit] at he
    exact hok cred e he rv hrv
  exact hdrop.setPhase hc fun rv hrv => dropped_drop _ hrv

theorem Inv.changeKey (h : Inv calls s) {tenantId key : String}
    {set : ApiKey → Option (ApiKey → ApiKey)} (hc : calls[i]? = some c)
    (htarget : c.target = some (.apiKey key))
    (hset : ∀ row f, set row = some f → ∀ x : ApiKey, x.isActive = false → (f x).isActive = false)
    (hok : Untouched s (.next i)) (hs : changeKey s i tenantId key set = some s') :
    Inv calls s' := by
  have hphase := h.phases i c hc
  have hnone : Inv calls (s.finish i none) := h.finish hc fun _ hrv => by cases hrv
  rw [Credentials.changeKey] at hs
  split at hs
  · split at hs
    · cases hs
      exact hnone
    · split at hs
      · cases hs
        refine h.setPhase hc fun u' hu => ?_
        obtain ⟨f, hf, rfl⟩ := Option.map_eq_some_iff.1 hu
        exact ⟨htarget, fun x hx => hset _ f hf x hx⟩
      · cases hs
        exact hnone
  · rename_i u hp
    rw [hp] at hphase
    cases hs
    have hdrop : Inv calls (s.drop allKeys none) := h.drop fun _ hrv => by cases hrv
    exact hdrop.setPhase hc hphase
  · rename_i u hp
    cases hs
    exact h.commitKey hc hp hok
  · rename_i d hp
    rw [hp] at hphase
    cases hs
    exact h.finish hc hphase
  · cases hs

theorem Inv.commitThenDrop (h : Inv calls s) {gone : Credential → Entry → Bool}
    (hc : calls[i]? = some c) (hgone : ∀ r, c.target = some r → ∀ cred e,
      s.Yields cred e.reads e.result → gone cred e = false → ∀ rv ∈ e.reads, rv.1 ≠ r)
    (hs : commitThenDrop s i gone = some s') : Inv calls s' := by
  have hphase := h.phases i c hc
  rw [Credentials.commitThenDrop] at hs
  split at hs
  · rename_i u hp
    rw [hp] at hphase
    cases hs
    refine (h.commit fun u' hu => (hphase u' hu).2).setPhase hc fun rv hrv => ?_
    obtain ⟨u', rfl, rfl⟩ := committedAs_eq hrv
    exact ⟨(hphase u' rfl).1, le_rfl⟩
  · rename_i d hp
    rw [hp] at hphase
    cases hs
    have hdrop : Inv calls (s.drop gone d) := h.drop fun rv hrv =>
      ⟨(hphase rv hrv).2, fun cred e he hleft =>
        hgone rv.1 (hphase rv hrv).1 cred e (h.entries cred e he).1 hleft⟩
    exact hdrop.setPhase hc fun rv hrv => dropped_drop _ hrv
  · rename_i d hp
    rw [hp] at hphase
    cases hs
    exact h.finish hc hphase
  · cases hs

theorem ofMember_left {id : String}
    (hyields : s.Yields cred e.reads e.result) (hleft : ofMember id cred e = false) :
    ∀ rv ∈ e.reads, rv.1 ≠ .member id := by
  obtain ⟨x, expires, reads⟩ := e
  cases cred with
  | apiKey k =>
    obtain ⟨v, row, hreads, -⟩ := hyields
    simp_all
  | token t =>
    obtain ⟨v, row, w, m, hreads, -, -, -, -, hx⟩ := hyields
    cases hx
    have hne : row.memberId ≠ id := of_decide_eq_false hleft
    simp_all

theorem ofToken_left {token : String}
    (hyields : s.Yields cred e.reads e.result) (hleft : ofToken token cred e = false) :
    ∀ rv ∈ e.reads, rv.1 ≠ .session token := by
  cases cred with
  | apiKey k =>
    obtain ⟨v, row, hreads, -⟩ := hyields
    simp_all
  | token t =>
    obtain ⟨v, row, w, m, hreads, -⟩ := hyields
    have hne : t ≠ token := of_decide_eq_false hleft
    simp_all

theorem Inv.updateMember (h : Inv calls s) {tenantId id : String} {patch : MemberPatch}
    (hc : calls[i]? = some (.updateMember tenantId id patch))
    (hs : updateMember s i tenantId id patch = some s') : Inv calls s' := by
  have hnone : Inv calls (s.finish i none) := h.finish hc fun _ hrv => by cases hrv
  rw [Credentials.updateMember] at hs
  split at hs
  · split at hs
    · cases hs
      exact hnone
    · split at hs
      · cases hs
        refine h.setPhase hc fun u' hu => ?_
        split at hu
        · cases hu
        · cases hu
          exact ⟨rfl, fun _ hdead => hdead.elim⟩
      · cases hs
        exact hnone
  · refine h.commitThenDrop hc (fun r hr cred e hyields hleft => ?_) hs
    cases hr
    exact ofMember_left hyields hleft

theorem Inv.revokeMemberSession (h : Inv calls s) {token : String}
    (hc : calls[i]? = some (.revokeMemberSession token))
    (hs : revokeMemberSession s i token = some s') : Inv calls s' := by
  rw [Credentials.revokeMemberSession] at hs
  split at hs
  · split at hs
    · cases hs
      exact h.setPhase hc fun _ hrv => by cases hrv
    · cases hs
      refine h.setPhase hc fun u' hu => ?_
      split at hu
      · cases hu
      · cases hu
        exact ⟨rfl, fun _ _ => rfl⟩
  · refine h.commitThenDrop hc (fun r hr cred e hyields hleft => ?_) hs
    cases hr
    exact ofToken_left hyields hleft

/-- **Every step that leaves the entries untouched keeps the invariant.** -/
theorem Inv.step {a : Action} (h : Inv calls s) (hok : Untouched s a)
    (hs : step P calls s a = some s') : Inv calls s' := by
  cases a with
  | wait seconds =>
    cases hs
    have hlater : s.Later { s with now := s.now + seconds } :=
      ⟨fun _ => List.prefix_refl _, fun _ => le_rfl, fun _ => le_rfl⟩
    refine ⟨fun cred e he => ?_, h.floors, h.stored, h.dead,
      fun i c hc => (h.phases i c hc).later hlater, fun a ha x hx => ?_⟩
    · exact ⟨(h.entries cred e he).1.later hlater, (h.entries cred e he).2⟩
    · obtain ⟨reads, hyields, hreads⟩ := h.answers a ha x hx
      exact ⟨reads, hyields.later hlater, hreads⟩
  | next i =>
    rw [Credentials.step] at hs
    cases hc : calls[i]? with
    | none => rw [hc] at hs; cases hs
    | some c =>
      rw [hc] at hs
      cases c with
      | getTenantByApiKey key => exact h.getTenantByApiKey hc hok hs
      | resolveMemberSession token => exact h.resolveMemberSession hc hok hs
      | revokeApiKey tenantId key =>
        refine h.changeKey hc rfl (fun row f hf x _ => ?_) hok hs
        cases hf
        rfl
      | updateApiKeyRole tenantId key role =>
        refine h.changeKey hc rfl (fun row f hf x hx => ?_) hok hs
        grind
      | updateMember tenantId id patch => exact h.updateMember hc hs
      | revokeMemberSession token => exact h.revokeMemberSession hc hs

/-! ### What lookups yield -/

theorem mem_drop_of_getElem? {α : Type} {l : List α} {x : α} (h : l[v]? = some x)
    (hn : n ≤ v) : x ∈ l.drop n := by
  refine List.mem_iff_getElem?.2 ⟨v - n, ?_⟩
  rw [List.getElem?_drop, Nat.add_sub_of_le hn, h]

theorem Inv.dead_later (h : Inv calls s) {y : r.Value}
    (hx : (s.rows r)[n]? = some x) (hdead : r.Dead x) (hy : y ∈ (s.rows r).drop n) : r.Dead y := by
  obtain ⟨k, hk⟩ := List.mem_iff_getElem?.1 hy
  rw [List.getElem?_drop] at hk
  obtain ⟨hnlt, hxn⟩ := List.getElem?_eq_some_iff.1 hx
  obtain ⟨hklt, hyk⟩ := List.getElem?_eq_some_iff.1 hk
  cases k with
  | zero => simp_all
  | succ k =>
    have hpair := List.pairwise_iff_getElem.1 (h.dead r) n (n + (k + 1)) hnlt hklt (by omega)
    rw [hxn, hyk] at hpair
    exact hpair hdead

theorem Inv.current (h : Inv calls s) (ha : a ∈ s.answers) : a.Current s := by
  intro x hx
  obtain ⟨reads, hyields, hreads⟩ := h.answers a ha x hx
  obtain ⟨cred, since, result⟩ := a
  cases cred with
  | apiKey k =>
    obtain ⟨v, row, rfl, hrow, hactive, hrx⟩ := hyields
    exact ⟨row, mem_drop_of_getElem? hrow (hreads _ (List.mem_singleton_self _)), hactive, hrx⟩
  | token t =>
    obtain ⟨v, row, w, m, rfl, hrow, hrevoked, hm, hactive, hrx⟩ := hyields
    exact ⟨row, mem_drop_of_getElem? hrow (hreads _ List.mem_cons_self), hrevoked, m,
      mem_drop_of_getElem? hm (hreads _ (.tail _ (.head _))), hactive, hrx⟩

theorem Inv.revoked (h : Inv calls s) (ha : a ∈ s.answers) (hrev : a.Revoked s) :
    a.result = none := by
  have hcurrent := h.current ha
  obtain ⟨cred, since, result⟩ := a
  cases result with
  | none => rfl
  | some x =>
    have hx := hcurrent x rfl
    cases cred with
    | apiKey k =>
      obtain ⟨old, hold, hdead⟩ := hrev
      obtain ⟨row, hrow, hactive, -⟩ := hx
      have hinactive : row.isActive = false := h.dead_later hold hdead hrow
      rw [hactive] at hinactive
      cases hinactive
    | token t =>
      obtain ⟨old, hold, hdead⟩ := hrev
      obtain ⟨row, hrow, hrevoked, -⟩ := hx
      have hgone : row.revoked = true := h.dead_later hold hdead hrow
      rw [hrevoked] at hgone
      cases hgone

/-- **Revocation takes effect at once.**  In a run that leaves the entries untouched, no lookup
    yields what a change that had returned when it started has replaced, and none that starts
    after a revocation yields the credential. -/
theorem revocation_at_once {now : ℤ} {rows : (r : RowId) → Option r.Value}
    (h : Reach (step P calls) Untouched (State.init now rows) s) :
    (∀ a ∈ s.answers, a.Current s) ∧ ∀ a ∈ s.answers, a.Revoked s → a.result = none := by
  have hi : Inv calls s := h.invariant (inv_init now rows) fun _ _ _ hi hok hs => hi.step hok hs
  exact ⟨fun _ ha => hi.current ha, fun _ ha => hi.revoked ha⟩

def oneKey : (r : RowId) → Option r.Value
  | .apiKey k => if k = "rm_live_1" then some ⟨"key_1", "acme", "admin", true⟩ else none
  | .session _ => none
  | .member _ => none

def acme : Process := ⟨300, (· = "acme")⟩

def keyCalls : List Call :=
  [.revokeApiKey "acme" "rm_live_1", .getTenantByApiKey "rm_live_1", .getTenantByApiKey "rm_live_1"]

/-- One lookup before the revocation, and one after it. -/
theorem revoked_after_lookup : ∃ s, exec (step acme keyCalls) (State.init 0 oneKey)
      [.next 1, .next 1, .next 1, .next 0, .next 0, .next 0, .next 0, .next 2, .next 2] = some s ∧
    s.answers.map Answer.result = [some (.key "acme" "key_1" "admin"), none] ∧
    ∀ a ∈ s.answers, a.Current s := by
  refine ⟨_, rfl, rfl, (revocation_at_once (reach_exec (show exec (step acme keyCalls)
    (State.init 0 oneKey) [.next 1, .next 1, .next 1, .next 0, .next 0, .next 0, .next 0, .next 2,
      .next 2] = some _ from rfl) ?_)).1⟩
  refine ⟨trivial, trivial, ?_, trivial, trivial, ?_, trivial, trivial, trivial, trivial⟩
  · intro rv hrv
    exact Nat.zero_le _
  · intro c e he
    cases c with
    | apiKey k =>
      have hgone : Option.filter (fun _ => false) _ = some e := he
      simp at hgone
    | token t => cases he

/-- A lookup between the drop and the commit caches the key again, and the next one, after the
    revocation has returned, yields it. -/
theorem revoked_key_yields : ∃ s, exec (step acme keyCalls) (State.init 0 oneKey)
      [.next 0, .next 0, .next 1, .next 1, .next 1, .next 0, .next 0, .next 2] = some s ∧
    ∃ a ∈ s.answers, a.Revoked s ∧ a.result = some (.key "acme" "key_1" "admin") ∧
      ¬ a.Current s := by
  refine ⟨_, rfl, _, .tail _ (.head _), ⟨_, rfl, rfl⟩, rfl, fun hcurrent => ?_⟩
  obtain ⟨row, hrow, hactive, -⟩ := hcurrent _ rfl
  cases List.mem_singleton.1 hrow
  cases hactive

end RuleMind.Credentials
