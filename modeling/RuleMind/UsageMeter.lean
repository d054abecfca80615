/-
  Metering: `record_usage` of `app/storage.py` on the table of usage counters.

  Any number of calls take turns at their statements: an UPDATE, an INSERT where the update has
  found no row, and after an `IntegrityError` a rollback and the update again.  A transaction
  sees what others have committed; an update waits for the transaction that holds its row, and
  an insert for one that has inserted the same bucket.
-/
import RuleMind.Lib.Run
import Mathlib.Algebra.BigOperators.Intervals
import Mathlib.Algebra.Order.BigOperators.Group.Finset
import Mathlib.Tactic.Ring

namespace RuleMind.Usage

open Lib

/-! ### The table and its writers -/

/-- One metric of a tenant on a day; days are counted. -/
structure Bucket where
  tenant : String
  day : ℤ
  metric : String
  deriving DecidableEq

structure Row where
  bucket : Bucket
  count : ℤ
  deriving DecidableEq

structure Call where
  bucket : Bucket
  amount : ℤ

/-- Where a call stands; the writes of its open transaction are not committed. -/
inductive Phase
  | called
  /-- The update has found the row. -/
  | updated
  | missed
  | inserted
  /-- The insert has raised. -/
  | refused
  | rolledBack
  /-- The update after the rollback; it does not ask whether it has found the row. -/
  | recovered (found : Bool)
  | returned
  deriving DecidableEq

structure State where
  rows : List Row
  phase : ℕ → Phase

variable (calls : List Call)

def State.stored (s : State) (b : Bucket) : Bool := s.rows.any fun r => r.bucket = b

/-- Another call has its transaction in one of the phases, on the bucket. -/
def State.busy (s : State) (i : ℕ) (b : Bucket) (phases : List Phase) : Bool :=
  (List.range calls.length).any fun j => decide (j ≠ i) && decide (s.phase j ∈ phases) &&
    calls[j]?.any fun c => c.bucket = b

def State.move (s : State) (i : ℕ) (p : Phase) : State :=
  { s with phase := Function.update s.phase i p }

/-- `UPDATE ... SET count = count + amount`. -/
def add (b : Bucket) (amount : ℤ) (rows : List Row) : List Row :=
  rows.map fun r => if r.bucket = b then { r with count := r.count + amount } else r

def State.commitUpdate (s : State) (i : ℕ) (c : Call) : State :=
  { s.move i .returned with rows := add c.bucket c.amount s.rows }

def State.commitInsert (s : State) (i : ℕ) (c : Call) : State :=
  { s.move i .returned with rows := s.rows ++ [⟨c.bucket, c.amount⟩] }

/-- An update, and what follows a hit and a miss; it waits for the row. -/
def State.update (s : State) (i : ℕ) (c : Call) (hit miss : Phase) : Option State :=
  if s.stored c.bucket then
    if s.busy calls i c.bucket [.updated, .recovered true] then none else some (s.move i hit)
  else some (s.move i miss)

def step (s : State) (i : ℕ) : Option State :=
  match calls[i]? with
  | none => none
  | some c =>
    match s.phase i with
    | .called =>
      if c.amount ≤ 0 then some (s.move i .returned) else s.update calls i c .updated .missed
    | .updated => some (s.commitUpdate i c)
    | .missed =>
      if s.stored c.bucket then some (s.move i .refused)
      else if s.busy calls i c.bucket [.inserted] then none
      else some (s.move i .inserted)
    | .inserted => some (s.commitInsert i c)
    | .refused => some (s.move i .rolledBack)
    | .rolledBack => s.update calls i c (.recovered true) (.recovered false)
    | .recovered found => some (if found then s.commitUpdate i c else s.move i .returned)
    | .returned => none

def State.init (rows : List Row) : State := ⟨rows, fun _ => .called⟩

def counter (b : Bucket) (rows : List Row) : ℤ := ((rows.filter (·.bucket = b)).map Row.count).sum

def Call.adds (c : Call) (b : Bucket) : ℤ := if c.bucket = b ∧ 0 < c.amount then c.amount else 0

/-- The sum of the positive amounts recorded for a bucket. -/
def recorded (b : Bucket) : ℤ := (calls.map (·.adds b)).sum

/-! ### Rows and counters -/

def rowsOf (b : Bucket) (rows : List Row) : ℕ := rows.countP fun r => r.bucket = b

theorem stored_iff {s : State} {b : Bucket} : s.stored b = true ↔ 1 ≤ rowsOf b s.rows := by
  rw [State.stored, List.any_eq_true, rowsOf, Nat.succ_le_iff, List.countP_pos_iff]

theorem rowsOf_add (b : Bucket) (amount : ℤ) (rows : List Row) (b' : Bucket) :
    rowsOf b' (add b amount rows) = rowsOf b' rows := by
  unfold rowsOf add
  rw [List.countP_map]
  congr 1
  grind

theorem rowsOf_append (rows : List Row) (r : Row) (b : Bucket) :
    rowsOf b (rows ++ [r]) = rowsOf b rows + if r.bucket = b then 1 else 0 := by
  simp [rowsOf, List.countP_append]

theorem counter_cons (r : Row) (rows : List Row) (b : Bucket) :
    counter b (r :: rows) = (if r.bucket = b then r.count else 0) + counter b rows := by
  grind [counter]

theorem counter_append (rows : List Row) (r : Row) (b : Bucket) :
    counter b (rows ++ [r]) = counter b rows + if r.bucket = b then r.count else 0 := by
  grind [counter]

theorem counter_add (b : Bucket) (amount : ℤ) (rows : List Row) (b' : Bucket) :
    counter b' (add b amount rows) =
      counter b' rows + if b = b' then amount * rowsOf b rows else 0 := by
  induction rows with
  | nil => simp [add, counter, rowsOf]
  | cons r rows ih =>
    rw [show add b amount (r :: rows) =
      (if r.bucket = b then { r with count := r.count + amount } else r) :: add b amount rows
      from rfl, counter_cons, counter_cons, ih]
    have hrows : rowsOf b (r :: rows) = rowsOf b rows + if r.bucket = b then 1 else 0 := by
      simp [rowsOf, List.countP_cons]
    rw [hrows]
    grind

variable {rows : List Row} {p : Phase}

theorem row_of_bucket {b : Bucket} (h : rowsOf b rows = 1) :
    rows.filter (·.bucket = b) = [⟨b, counter b rows⟩] := by
  rw [rowsOf, List.countP_eq_length_filter] at h
  obtain ⟨r, hr⟩ := List.length_eq_one_iff.1 h
  have hmem : r ∈ rows.filter (·.bucket = b) := by rw [hr]; exact List.mem_singleton_self r
  have hb : r.bucket = b := by simpa using (List.mem_filter.1 hmem).2
  rw [counter, hr]
  simp [← hb]

/-! ### What has been added -/

/-- What call `i` adds to a bucket. -/
def share (b : Bucket) (i : ℕ) : ℤ := calls[i]?.elim 0 (·.adds b)

def added (s : State) (b : Bucket) : ℤ :=
  ∑ i ∈ Finset.range calls.length, if s.phase i = .returned then share calls b i else 0

theorem sum_share (b : Bucket) :
    ∑ i ∈ Finset.range calls.length, share calls b i = recorded calls b := by
  induction calls with
  | nil => rfl
  | cons c calls ih =>
    rw [List.length_cons, Finset.sum_range_succ', add_comm]
    exact congrArg (c.adds b + ·) ih

variable {calls} {s s' : State} {i : ℕ} {c : Call}

theorem added_move (hnot : s.phase i ≠ .returned) (hp : p ≠ .returned) (b : Bucket) :
    added calls (s.move i p) b = added calls s b := by
  refine Finset.sum_congr rfl fun j _ => ?_
  by_cases hj : j = i
  · subst hj
    simp [State.move, hnot, hp]
  · simp [State.move, Function.update_of_ne hj]

theorem added_return (hc : calls[i]? = some c) (hnot : s.phase i ≠ .returned) (b : Bucket) :
    added calls (s.move i .returned) b = added calls s b + c.adds b := by
  have hi : i ∈ Finset.range calls.length := Finset.mem_range.2 (List.getElem?_eq_some_iff.1 hc).1
  have hshare : share calls b i = c.adds b := by rw [share, hc]; rfl
  have hsplit : ∀ j, (if (s.move i .returned).phase j = .returned then share calls b j else 0) =
      (if s.phase j = .returned then share calls b j else 0) +
        if j = i then share calls b i else 0 := by
    intro j
    by_cases hj : j = i
    · subst hj
      simp [State.move, hnot]
    · simp [State.move, hj]
  unfold added
  rw [Finset.sum_congr rfl fun j _ => hsplit j, Finset.sum_add_distrib, Finset.sum_ite_eq',
    if_pos hi, hshare]

/-! ### Every run -/

def PhaseOk (rows : List Row) (c : Call) : Phase → Prop
  | .called => True
  | .missed => 0 < c.amount
  | .updated | .refused | .rolledBack => 0 < c.amount ∧ 1 ≤ rowsOf c.bucket rows
  | .inserted => 0 < c.amount ∧ rowsOf c.bucket rows = 0
  | .recovered found => 0 < c.amount ∧ 1 ≤ rowsOf c.bucket rows ∧ found = true
  | .returned => 0 < c.amount → 1 ≤ rowsOf c.bucket rows

theorem PhaseOk.later {rows' : List Row} (h : PhaseOk rows c p)
    (hrows : ∀ b, rowsOf b rows ≤ rowsOf b rows')
    (hinsert : p = .inserted → rowsOf c.bucket rows' = 0) : PhaseOk rows' c p := by
  have hle := hrows c.bucket
  cases p with
  | called => trivial
  | missed => exact h
  | updated => exact ⟨h.1, h.2.trans hle⟩
  | refused => exact ⟨h.1, h.2.trans hle⟩
  | rolledBack => exact ⟨h.1, h.2.trans hle⟩
  | inserted => exact ⟨h.1, hinsert rfl⟩
  | recovered found => exact ⟨h.1, h.2.1.trans hle, h.2.2⟩
  | returned => exact fun hpos => (h hpos).trans hle

structure Inv (calls : List Call) (rows₀ : List Row) (s : State) : Prop where
  single : ∀ b, rowsOf b s.rows ≤ 1
  kept : ∀ b, rowsOf b rows₀ ≤ rowsOf b s.rows
  phases : ∀ i c, calls[i]? = some c → PhaseOk s.rows c (s.phase i)
  /-- One insert of a bucket is open at most. -/
  inserts : ∀ i j c c', calls[i]? = some c → calls[j]? = some c' → s.phase i = .inserted →
    s.phase j = .inserted → c.bucket = c'.bucket → i = j
  sums : ∀ b, counter b s.rows = counter b rows₀ + added calls s b

variable {rows₀ : List Row}

theorem inv_init (h : ∀ b, rowsOf b rows₀ ≤ 1) : Inv calls rows₀ (State.init rows₀) where
  single := h
  kept _ := le_rfl
  phases _ _ _ := trivial
  inserts _ _ _ _ _ _ h _ _ := by cases h
  sums b := by simp [added, State.init]

theorem phase_move (p : Phase) (j : ℕ) : (s.move i p).phase j = if j = i then p else s.phase j := by
  by_cases hj : j = i
  · subst hj
    simp [State.move]
  · simp [State.move, hj]

theorem Inv.inserts_move (hi : Inv calls rows₀ s) (hc : calls[i]? = some c)
    (hp : p = .inserted → ∀ j c', calls[j]? = some c' → s.phase j = .inserted →
      c.bucket = c'.bucket → i = j) :
    ∀ j k c' c'', calls[j]? = some c' → calls[k]? = some c'' → (s.move i p).phase j = .inserted →
      (s.move i p).phase k = .inserted → c'.bucket = c''.bucket → j = k := by
  intro j k c' c'' hj hk hpj hpk hb
  rw [phase_move] at hpj hpk
  by_cases hji : j = i
  · grind
  · rw [if_neg hji] at hpj
    by_cases hki : k = i
    · grind
    · rw [if_neg hki] at hpk
      exact hi.inserts j k c' c'' hj hk hpj hpk hb

theorem Inv.move (hi : Inv calls rows₀ s) (hc : calls[i]? = some c)
    (hok : PhaseOk s.rows c p) (hadded : ∀ b, added calls (s.move i p) b = added calls s b)
    (hp : p = .inserted → ∀ j c', calls[j]? = some c' → s.phase j = .inserted →
      c.bucket = c'.bucket → i = j) : Inv calls rows₀ (s.move i p) where
  single := hi.single
  kept := hi.kept
  inserts := hi.inserts_move hc hp
  sums b := by rw [hadded b]; exact hi.sums b
  phases j c' hj := by
    rw [phase_move]
    split
    · next hji =>
      rw [hji, hc] at hj
      cases hj
      exact hok
    · exact hi.phases j c' hj

theorem Inv.commit (hi : Inv calls rows₀ s) (hc : calls[i]? = some c) (hnot : s.phase i ≠ .returned)
    (hsingle : ∀ b, rowsOf b rows ≤ 1)
    (hrows : ∀ b, rowsOf b s.rows ≤ rowsOf b rows) (hstored : 1 ≤ rowsOf c.bucket rows)
    (hinsert : ∀ j c', calls[j]? = some c' → j ≠ i → s.phase j = .inserted →
      rowsOf c'.bucket rows = 0)
    (hsum : ∀ b, counter b rows = counter b s.rows + c.adds b) :
    Inv calls rows₀ { s.move i .returned with rows := rows } where
  single := hsingle
  kept b := (hi.kept b).trans (hrows b)
  inserts := hi.inserts_move hc fun h => by cases h
  sums b := by
    show counter b rows = counter b rows₀ + added calls (s.move i .returned) b
    rw [hsum b, hi.sums b, added_return hc hnot, add_assoc]
  phases j c' hj := by
    show PhaseOk rows c' ((s.move i .returned).phase j)
    rw [phase_move]
    split
    · next hji =>
      rw [hji, hc] at hj
      cases hj
      exact fun _ => hstored
    · next hji => exact (hi.phases j c' hj).later hrows fun hp => hinsert j c' hj hji hp

theorem Inv.commitUpdate (hi : Inv calls rows₀ s) (hc : calls[i]? = some c)
    (hnot : s.phase i ≠ .returned) (hpos : 0 < c.amount) (hstored : 1 ≤ rowsOf c.bucket s.rows) :
    Inv calls rows₀ (s.commitUpdate i c) := by
  refine hi.commit hc hnot ?_ ?_ ?_ ?_ ?_
  · intro b
    rw [rowsOf_add]
    exact hi.single b
  · intro b
    rw [rowsOf_add]
  · rw [rowsOf_add]
    exact hstored
  · intro j c' hj _ hp
    have hok := hi.phases j c' hj
    rw [hp] at hok
    rw [rowsOf_add]
    exact hok.2
  · intro b
    have hone : rowsOf c.bucket s.rows = 1 := le_antisymm (hi.single c.bucket) hstored
    rw [counter_add, hone, Nat.cast_one, mul_one, Call.adds]
    simp [hpos]

theorem Inv.commitInsert (hi : Inv calls rows₀ s) (hc : calls[i]? = some c)
    (hp : s.phase i = .inserted) : Inv calls rows₀ (s.commitInsert i c) := by
  have hok := hi.phases i c hc
  rw [hp] at hok
  obtain ⟨hpos, hnone⟩ := hok
  refine hi.commit hc (by rw [hp]; decide) ?_ ?_ ?_ ?_ ?_
  · intro b
    rw [rowsOf_append]
    by_cases hb : c.bucket = b
    · subst hb
      simp [hnone]
    · simpa [hb] using hi.single b
  · intro b
    rw [rowsOf_append]
    exact Nat.le_add_right _ _
  · simp [rowsOf_append]
  · intro j c' hj hji hpj
    have hne : c.bucket ≠ c'.bucket := fun hb => hji (hi.inserts i j c c' hc hj hp hpj hb).symm
    have hok' := hi.phases j c' hj
    rw [hpj] at hok'
    rw [rowsOf_append, if_neg hne]
    exact hok'.2
  · intro b
    rw [counter_append, Call.adds]
    simp [hpos]

theorem not_inserted (hbusy : s.busy calls i c.bucket [.inserted] = false) {j : ℕ} {c' : Call}
    (hj : calls[j]? = some c') (hp : s.phase j = .inserted) (hb : c.bucket = c'.bucket) : i = j := by
  by_contra hne
  have hmem : j ∈ List.range calls.length := List.mem_range.2 (List.getElem?_eq_some_iff.1 hj).1
  have hfree := List.any_eq_false.1 hbusy j hmem
  simp [Ne.symm hne, hp, hj, hb] at hfree

theorem Inv.update (hi : Inv calls rows₀ s) (hc : calls[i]? = some c) {hit miss : Phase}
    (h : s.update calls i c hit miss = some s') (hhit : hit ≠ .inserted) (hmiss : miss ≠ .inserted)
    (hreturned : s.phase i ≠ .returned ∧ hit ≠ .returned ∧ miss ≠ .returned)
    (hokHit : 1 ≤ rowsOf c.bucket s.rows → PhaseOk s.rows c hit)
    (hokMiss : rowsOf c.bucket s.rows = 0 → PhaseOk s.rows c miss) : Inv calls rows₀ s' := by
  unfold State.update at h
  split at h
  · next hstored =>
    split at h
    · cases h
    · cases h
      exact hi.move hc (hokHit (stored_iff.1 hstored))
        (fun b => added_move hreturned.1 hreturned.2.1 b) fun hp => absurd hp hhit
  · next hstored =>
    cases h
    rw [stored_iff] at hstored
    exact hi.move hc (hokMiss (by omega)) (fun b => added_move hreturned.1 hreturned.2.2 b)
      fun hp => absurd hp hmiss

theorem Inv.step (hi : Inv calls rows₀ s) (h : step calls s i = some s') : Inv calls rows₀ s' := by
  unfold Usage.step at h
  split at h
  · cases h
  · next c hc =>
    have hok := hi.phases i c hc
    split at h
    · next hp =>
      have hnot : s.phase i ≠ .returned := by rw [hp]; decide
      split at h
      · next hle =>
        cases h
        refine hi.move hc (fun hpos => by omega) (fun b => ?_) fun hcontra => by cases hcontra
        rw [added_return hc hnot, Call.adds, if_neg (fun hpos => by omega), add_zero]
      · next hpos =>
        have hpos : 0 < c.amount := by omega
        exact hi.update hc h (by decide) (by decide) ⟨hnot, by decide, by decide⟩
          (fun hstored => ⟨hpos, hstored⟩) fun _ => hpos
    · next hp =>
      rw [hp] at hok
      cases h
      exact hi.commitUpdate hc (by rw [hp]; decide) hok.1 hok.2
    · next hp =>
      have hnot : s.phase i ≠ .returned := by rw [hp]; decide
      rw [hp] at hok
      split at h
      · next hstored =>
        cases h
        exact hi.move (p := .refused) hc ⟨hok, stored_iff.1 hstored⟩ (fun b => added_move hnot (by decide) b)
          fun hcontra => by cases hcontra
      · next hstored =>
        split at h
        · cases h
        · next hbusy =>
          cases h
          rw [stored_iff] at hstored
          exact hi.move (p := .inserted) hc ⟨hok, by omega⟩ (fun b => added_move hnot (by decide) b)
            fun _ j c' hj hpj hb => not_inserted (by simpa using hbusy) hj hpj hb
    · next hp =>
      cases h
      exact hi.commitInsert hc hp
    · next hp =>
      have hnot : s.phase i ≠ .returned := by rw [hp]; decide
      rw [hp] at hok
      cases h
      exact hi.move hc hok (fun b => added_move hnot (by decide) b) fun hcontra => by cases hcontra
    · next hp =>
      have hnot : s.phase i ≠ .returned := by rw [hp]; decide
      rw [hp] at hok
      refine hi.update hc h (by decide) (by decide) ⟨hnot, by decide, by decide⟩
        (fun hstored => ⟨hok.1, hstored, rfl⟩) fun hnone => ?_
      have hstored := hok.2
      omega
    · next found hp =>
      rw [hp] at hok
      obtain ⟨hpos, hstored, rfl⟩ := hok
      cases h
      exact hi.commitUpdate hc (by rw [hp]; decide) hpos hstored
    · cases h

/-- **No increment is lost.**  When all calls have returned, the counter of a bucket is what it was
    and the sum of the positive amounts recorded for it, in one row. -/
theorem usage_conserved (calls : List Call) {rows₀ : List Row} (hunique : ∀ b, rowsOf b rows₀ ≤ 1)
    {s : State} (h : Reachable (step calls) (State.init rows₀) s)
    (hall : ∀ i < calls.length, s.phase i = .returned) (b : Bucket) :
    counter b s.rows = counter b rows₀ + recorded calls b ∧
      ((∃ c ∈ calls, c.bucket = b ∧ 0 < c.amount) →
        s.rows.filter (·.bucket = b) = [⟨b, counter b rows₀ + recorded calls b⟩]) := by
  have hi : Inv calls rows₀ s := h.invariant (inv_init hunique) fun _ _ _ hinv _ hs => hinv.step hs
  have hadded : added calls s b = recorded calls b := by
    rw [← sum_share]
    exact Finset.sum_congr rfl fun i hrange => if_pos (hall i (Finset.mem_range.1 hrange))
  have hsum : counter b s.rows = counter b rows₀ + recorded calls b := by rw [hi.sums b, hadded]
  refine ⟨hsum, ?_⟩
  rintro ⟨c, hmem, rfl, hpos⟩
  obtain ⟨i, hc⟩ := List.mem_iff_getElem?.1 hmem
  have hok := hi.phases i c hc
  rw [hall i (List.getElem?_eq_some_iff.1 hc).1] at hok
  rw [row_of_bucket (le_antisymm (hi.single c.bucket) (hok hpos)), hsum]

def decisions : Bucket := ⟨"acme", 20000, "decisions"⟩

/-- Two calls that both find no row: the second insert is refused and makes up for it. -/
theorem race_conserved : ∃ s, exec (step [⟨decisions, 2⟩, ⟨decisions, 3⟩]) (State.init [])
    [0, 1, 0, 0, 1, 1, 1, 1] = some s ∧
      s.rows.filter (·.bucket = decisions) = [⟨decisions, 5⟩] := by
  obtain ⟨s, hs, hall⟩ : ∃ s, exec (step [⟨decisions, 2⟩, ⟨decisions, 3⟩]) (State.init [])
      [0, 1, 0, 0, 1, 1, 1, 1] = some s ∧ ∀ i < 2, s.phase i = .returned := by
    refine ⟨_, rfl, ?_⟩
    decide
  have hrow := (usage_conserved [⟨decisions, 2⟩, ⟨decisions, 3⟩] (fun _ => Nat.zero_le _)
    (reachable_exec hs) hall decisions).2 ⟨_, List.mem_cons_self, rfl, by decide⟩
  exact ⟨s, hs, hrow⟩

/-! ### No call waits for ever -/

section Ends
variable {calls : List Call} {s s' : State} {i : ℕ}

/-- The most statements that a call has before it. -/
def Phase.left : Phase → ℕ
  | .called => 5
  | .missed => 4
  | .refused => 3
  | .rolledBack => 2
  | .updated | .inserted | .recovered _ => 1
  | .returned => 0

/-- A step moves its call alone, and on. -/
theorem step_moves (h : step calls s i = some s') : i < calls.length ∧
    ∃ p, s'.phase = Function.update s.phase i p ∧ p.left < (s.phase i).left := by
  unfold step at h
  split at h
  · cases h
  · next c hc =>
    refine ⟨(List.getElem?_eq_some_iff.1 hc).1, ?_⟩
    simp only [State.update] at h
    generalize hp : s.phase i = p at h
    cases p <;> simp only [Phase.left] <;>
      grind [State.move, State.commitUpdate, State.commitInsert, Phase.left]

theorem exec_left {actions : List ℕ} (h : exec (step calls) s actions = some s') :
    actions.length + ∑ i ∈ Finset.range calls.length, (s'.phase i).left ≤
      ∑ i ∈ Finset.range calls.length, (s.phase i).left := by
  induction actions generalizing s with
  | nil =>
    cases h
    simp
  | cons i actions ih =>
    obtain ⟨t, ht, hrest⟩ := Option.bind_eq_some_iff.1 h
    obtain ⟨hi, p, hphase, hless⟩ := step_moves ht
    have hsum : ∑ i ∈ Finset.range calls.length, (t.phase i).left <
        ∑ i ∈ Finset.range calls.length, (s.phase i).left := by
      refine Finset.sum_lt_sum (fun j _ => ?_) ⟨i, Finset.mem_range.2 hi, ?_⟩
      · rw [hphase, Function.update_apply]
        split <;> simp_all [hless.le]
      · simpa [hphase] using hless
    have := ih hrest
    rw [List.length_cons]
    omega

/-- Who is waited for can go on. -/
theorem busy_steps {b : Bucket} {phases : List Phase} (h : s.busy calls i b phases = true)
    (hphases : phases ⊆ [.updated, .recovered true, .inserted]) : ∃ j, (step calls s j).isSome := by
  obtain ⟨j, -, hj⟩ := List.any_eq_true.1 h
  simp only [Bool.and_eq_true, decide_eq_true_eq] at hj
  obtain ⟨⟨-, hphase⟩, hcall⟩ := hj
  obtain ⟨c, hc, -⟩ := (Option.any_eq_true _ _).1 hcall
  refine ⟨j, ?_⟩
  have hmem := hphases hphase
  simp only [List.mem_cons, List.not_mem_nil, or_false] at hmem
  rcases hmem with hp | hp | hp <;> simp [step, hc, hp]

/-- **Metering ends.**  No run is longer than five statements for each call, and where no call can
    go on, all have returned: whoever waits for a row or an insert waits for a call that can. -/
theorem metering_ends (calls : List Call) (rows₀ : List Row) {actions : List ℕ} {s : State}
    (h : exec (step calls) (State.init rows₀) actions = some s) :
    actions.length ≤ 5 * calls.length ∧
      ((∀ i, step calls s i = none) ↔ ∀ i < calls.length, s.phase i = .returned) := by
  refine ⟨?_, fun hstuck i hi => ?_, fun hall i => ?_⟩
  · have hleft := exec_left h
    simp [State.init, Phase.left] at hleft
    omega
  · by_contra hnot
    have hnone : ¬ ∃ j, (step calls s j).isSome := by simp [hstuck]
    have hwaits : ∀ {b phases}, s.busy calls i b phases = true →
        ¬ phases ⊆ [.updated, .recovered true, .inserted] := by
      intro b phases hbusy hphases
      exact hnone (busy_steps hbusy hphases)
    have hi' := hstuck i
    simp only [step, List.getElem?_eq_getElem hi, State.update] at hi'
    split at hi'
    all_goals grind -ring -linarith
  · grind -ring -linarith [step]

end Ends

def race : List Call := [⟨decisions, 2⟩, ⟨decisions, 3⟩]

theorem race_ends : ∃ s, exec (step race) (State.init []) [0, 1, 0, 0, 1, 1, 1, 1] = some s ∧
    8 ≤ 5 * 2 ∧ ((∀ i, step race s i = none) ↔ ∀ i < 2, s.phase i = .returned) := by
  obtain ⟨s, hs⟩ : ∃ s, exec (step race) (State.init []) [0, 1, 0, 0, 1, 1, 1, 1] = some s :=
    ⟨_, rfl⟩
  exact ⟨s, hs, metering_ends race [] hs⟩

end RuleMind.Usage
