/-
  The codes of a login by e-mail: `issue_member_otp` and `verify_member_otp` of `app/storage.py`
  for one member.

  A code is verified against the newest that is not consumed.  The row is read, and what was
  counted is written back with what was found; a row is stamped before it can be seen.
-/
import RuleMind.Lib.Run
import Mathlib.Algebra.Order.Group.Nat

namespace RuleMind.LoginCodes

open Lib

/-! ### Calls -/

structure MemberOtp where
  codeHash : String
  createdAt : ℕ
  expiresAt : ℕ
  attempts : ℕ
  consumed : Bool
  deriving DecidableEq

/-- Where a call stands: it has stamped a row, or read one, when that many were issued. -/
inductive Phase
  | idle
  | issuing (code : String) (row : MemberOtp)
  | verifying (code : String) (i : ℕ) (row : MemberOtp) (newest : ℕ)

/-- A verification that was evaluated against a row, and which code was the newest when the row was
    read. -/
structure Guess where
  row : ℕ
  newest : ℕ
  code : String
  result : Bool
  deriving DecidableEq

structure State where
  now : ℕ
  /-- In the order in which they became visible. -/
  rows : List MemberOtp
  phase : ℕ → Phase
  /-- The codes of the rows; in no column. -/
  codes : List String
  /-- In no table. -/
  guesses : List Guess

def State.init : State := ⟨0, [], fun _ => .idle, [], []⟩

def State.go (s : State) (p : ℕ) (ph : Phase) : State :=
  { s with phase := Function.update s.phase p ph }

inductive Act
  | wait (duration : ℕ)
  | issue (p : ℕ) (code : String) (ttl : ℕ)
  | commit (p : ℕ)
  /-- The query returns row `i`, which one of the rows that share a stamp may be. -/
  | verify (p : ℕ) (code : String) (i : ℕ)
  | answer (p : ℕ)
  | stop (p : ℕ)

/-- The first row by `created_at` of those that are not consumed. -/
def Examined (rows : List MemberOtp) (row : MemberOtp) : Prop :=
  row.consumed = false ∧ ∀ r ∈ rows, r.consumed = false → r.createdAt ≤ row.createdAt

instance (rows : List MemberOtp) (row : MemberOtp) : Decidable (Examined rows row) :=
  inferInstanceAs (Decidable (_ ∧ _))

def MemberOtp.usable (row : MemberOtp) (maximum now : ℕ) : Bool :=
  !(decide (row.expiresAt < now) || decide (row.attempts ≥ maximum))

/-- The columns that were set on the row that was read. -/
def MemberOtp.update (cur read : MemberOtp) (result : Bool) : MemberOtp :=
  { cur with attempts := read.attempts + 1, consumed := result || cur.consumed }

section Steps
variable (hash : String → String) (maximum : ℕ)

/-- `verify_member_otp` up to the comparison. -/
def State.verify (s : State) (p : ℕ) (code : String) (i : ℕ) : Option State :=
  match s.rows[i]? with
  | some row =>
    if Examined s.rows row then
      some (if row.usable maximum s.now then s.go p (.verifying code i row (s.rows.length - 1))
        else s)
    else none
  | none => if ∀ row ∈ s.rows, row.consumed = true then some s else none

def State.answer (s : State) (i newest : ℕ) (code : String) (read : MemberOtp) : State :=
  let result := read.codeHash == hash code
  { s with
    rows := s.rows.modify i (·.update read result)
    guesses := s.guesses ++ [⟨i, newest, code, result⟩] }

def step (s : State) : Act → Option State
  | .wait duration => some { s with now := s.now + duration }
  | .issue p code ttl =>
    match s.phase p with
    | .idle => some (s.go p (.issuing code ⟨hash code, s.now, s.now + ttl, 0, false⟩))
    | _ => none
  | .commit p =>
    match s.phase p with
    | .issuing code row =>
      some ({ s with rows := s.rows ++ [row], codes := s.codes ++ [code] }.go p .idle)
    | _ => none
  | .verify p code i =>
    match s.phase p with
    | .idle => s.verify maximum p code i
    | _ => none
  | .answer p =>
    match s.phase p with
    | .verifying code i row newest => some ((s.answer hash i newest code row).go p .idle)
    | _ => none
  | .stop p => some (s.go p .idle)

/-- A code that is accepted is the newest, is not accepted twice, and there are so many guesses at
    each at most. -/
structure SingleUse (s : State) : Prop where
  newest : ∀ g ∈ s.guesses, g.result = true → s.codes[g.newest]? = some g.code
  once : ∀ i, s.guesses.countP (fun g => g.result && g.newest == i) ≤ 1
  guessed : ∀ i, s.guesses.countP (fun g => g.row == i) ≤ maximum

/-- A code becomes visible after those that were stamped before it and not together with one, the
    row that is written is as it was read, and a code that is presented when the newest has been
    used is not that of the row examined, unless that has expired or has no attempts left. -/
def Sound (s : State) : Act → Prop
  | .commit p =>
    match s.phase p with
    | .issuing _ row => ∀ older ∈ s.rows, older.createdAt < row.createdAt
    | _ => True
  | .verify _ code i => ∀ newest ∈ s.rows.getLast?, newest.consumed = true →
    ∀ row ∈ s.rows[i]?, row.usable maximum s.now = true → row.codeHash ≠ hash code
  | .answer p =>
    match s.phase p with
    | .verifying _ i row _ => s.rows[i]? = some row
    | _ => True
  | _ => True

end Steps

/-! ### The invariant -/

section Invariant
variable {hash : String → String} {maximum : ℕ} {s : State}

structure Fits (hash : String → String) (maximum : ℕ) (s : State) (i : ℕ) (row : MemberOtp) :
    Prop where
  code : ∃ code, s.codes[i]? = some code ∧ row.codeHash = hash code
  counted : s.guesses.countP (fun g => g.row == i) = row.attempts
  bounded : row.attempts ≤ maximum
  used : s.guesses.countP (fun g => g.result && g.row == i) = if row.consumed then 1 else 0

structure Held (hash : String → String) (maximum : ℕ) (s : State) (code : String) (i : ℕ)
    (row : MemberOtp) (newest : ℕ) : Prop where
  bounded : row.attempts < maximum
  unused : row.consumed = false
  right : row.codeHash = hash code → newest = i ∧ s.codes[i]? = some code

structure Inv (hash : String → String) (maximum : ℕ) (s : State) : Prop where
  issued : s.codes.length = s.rows.length
  fits : ∀ i row, s.rows[i]? = some row → Fits hash maximum s i row
  sorted : ∀ (i j : ℕ) (a b : MemberOtp), i < j → s.rows[i]? = some a → s.rows[j]? = some b →
    a.createdAt < b.createdAt
  within : ∀ g ∈ s.guesses, g.row < s.rows.length
  right : ∀ g ∈ s.guesses, g.result = true → g.newest = g.row ∧ s.codes[g.row]? = some g.code
  hashed : ∀ p code row, s.phase p = .issuing code row →
    row.codeHash = hash code ∧ row.attempts = 0 ∧ row.consumed = false
  held : ∀ p code i row newest, s.phase p = .verifying code i row newest →
    Held hash maximum s code i row newest

theorem inv_init : Inv hash maximum State.init where
  issued := rfl
  fits _ _ h := by cases h
  sorted _ _ _ _ _ h := by cases h
  within _ h := by cases h
  right _ h := by cases h
  hashed _ _ _ h := by cases h
  held _ _ _ _ _ h := by cases h

theorem go_phase (s : State) (p : ℕ) (ph : Phase) (q : ℕ) :
    (s.go p ph).phase q = if q = p then ph else s.phase q := by
  exact Function.update_apply s.phase p ph q

variable {p i : ℕ} {row : MemberOtp} {code : String}

theorem Inv.go (h : Inv hash maximum s) {ph : Phase} (hhashed : ∀ code row, ph = .issuing code row →
      row.codeHash = hash code ∧ row.attempts = 0 ∧ row.consumed = false)
    (hheld : ∀ code i row newest, ph = .verifying code i row newest →
      Held hash maximum s code i row newest) :
    Inv hash maximum (s.go p ph) := by
  refine
    { issued := h.issued
      fits := fun i row hrow => ⟨(h.fits i row hrow).code, (h.fits i row hrow).counted,
        (h.fits i row hrow).bounded, (h.fits i row hrow).used⟩
      sorted := h.sorted
      within := h.within
      right := h.right
      hashed := fun q code row hq => ?_
      held := fun q code i row newest hq => ?_ }
  · rw [go_phase] at hq
    split at hq
    · exact hhashed code row hq
    · exact h.hashed q code row hq
  · rw [go_phase] at hq
    have hheld : Held hash maximum s code i row newest := by
      split at hq
      · exact hheld code i row newest hq
      · exact h.held q code i row newest hq
    exact ⟨hheld.bounded, hheld.unused, hheld.right⟩

theorem Inv.unguessed (h : Inv hash maximum s) (hi : s.rows.length ≤ i) :
    s.guesses.countP (fun g => g.row == i) = 0 := by
  rw [List.countP_eq_zero]
  intro g hg
  have hlt := h.within g hg
  simp only [beq_iff_eq]
  omega

theorem countP_result_le (guesses : List Guess) (i : ℕ) :
    guesses.countP (fun g => g.result && g.row == i) ≤ guesses.countP (fun g => g.row == i) := by
  simp [List.countP_mono_left, Bool.and_eq_true]

theorem Inv.commit (h : Inv hash maximum s)
    (hrow : row.codeHash = hash code ∧ row.attempts = 0 ∧ row.consumed = false)
    (hsound : ∀ older ∈ s.rows, older.createdAt < row.createdAt) :
    Inv hash maximum { s with rows := s.rows ++ [row], codes := s.codes ++ [code] } := by
  have hcodes : ∀ (i : ℕ) c, s.codes[i]? = some c → (s.codes ++ [code])[i]? = some c := by
    intro i c hc
    rw [List.getElem?_append_left (List.getElem?_eq_some_iff.1 hc).1]
    exact hc
  have hrows : ∀ (i : ℕ) r, (s.rows ++ [row])[i]? = some r →
      s.rows[i]? = some r ∨ i = s.rows.length ∧ r = row := by
    intro i r hr
    rw [List.getElem?_append] at hr
    split at hr
    · exact .inl hr
    · grind
  refine
    { issued := by simp [h.issued]
      fits := fun i r hr => ?_
      sorted := fun i j a b hij ha hb => ?_
      within := fun g hg => ?_
      right := fun g hg hresult => ?_
      hashed := h.hashed
      held := fun p c i r newest hp => ?_ }
  · rcases hrows i r hr with hr | ⟨rfl, rfl⟩
    · obtain ⟨⟨c, hc, hhash⟩, hcounted, hbounded, hused⟩ := h.fits i r hr
      exact ⟨⟨c, hcodes i c hc, hhash⟩, hcounted, hbounded, hused⟩
    · obtain ⟨hhash, hattempts, hconsumed⟩ := hrow
      have hzero := h.unguessed (le_refl s.rows.length)
      refine ⟨⟨code, ?_, hhash⟩, ?_, ?_, ?_⟩
      · rw [← h.issued]
        exact List.getElem?_concat_length
      · exact hzero.trans hattempts.symm
      · omega
      simp_all
  · rcases hrows j b hb with hb | ⟨rfl, rfl⟩
    · rcases hrows i a ha with ha | ⟨rfl, -⟩
      · exact h.sorted i j a b hij ha hb
      grind
    · grind
  · have hlt := h.within g hg
    grind
  · obtain ⟨hnewest, hcode⟩ := h.right g hg hresult
    exact ⟨hnewest, hcodes _ _ hcode⟩
  · obtain ⟨hbounded, hunused, hright⟩ := h.held p c i r newest hp
    exact ⟨hbounded, hunused, fun hhash => ⟨(hright hhash).1, hcodes _ _ (hright hhash).2⟩⟩

theorem getElem?_update {rows : List MemberOtp} {j : ℕ} {r : MemberOtp} {result : Bool}
    (hrow : rows[i]? = some row) (hr : (rows.modify i (·.update row result))[j]? = some r) :
    j ≠ i ∧ rows[j]? = some r ∨ j = i ∧ r = row.update row result := by grind

theorem Inv.answer (h : Inv hash maximum s) {newest : ℕ}
    (hp : s.phase p = .verifying code i row newest) (hrow : s.rows[i]? = some row) :
    Inv hash maximum (s.answer hash i newest code row) := by
  obtain ⟨hbounded, hunused, hright⟩ := h.held p code i row newest hp
  have hi := (List.getElem?_eq_some_iff.1 hrow).1
  have hcount : ∀ q : Guess → Bool, (s.answer hash i newest code row).guesses.countP q =
      s.guesses.countP q + if q ⟨i, newest, code, row.codeHash == hash code⟩ then 1 else 0 := by
    intro q
    rw [State.answer, List.countP_append, List.countP_singleton]
  have hstamp : ∀ (j : ℕ) r, (s.answer hash i newest code row).rows[j]? = some r →
      ∃ r', s.rows[j]? = some r' ∧ r.createdAt = r'.createdAt := by
    intro j r hr
    rcases getElem?_update hrow hr with ⟨-, hr⟩ | ⟨rfl, rfl⟩
    · exact ⟨r, hr, rfl⟩
    · exact ⟨row, hrow, rfl⟩
  refine
    { issued := by rw [State.answer, List.length_modify]; exact h.issued
      fits := fun j r hr => ?_
      sorted := fun j k a b hjk ha hb => ?_
      within := fun g hg => ?_
      right := fun g hg hresult => ?_
      hashed := h.hashed
      held := fun q c j r n hq => ⟨(h.held q c j r n hq).bounded, (h.held q c j r n hq).unused,
        (h.held q c j r n hq).right⟩ }
  · rcases getElem?_update hrow hr with ⟨hne, hr⟩ | ⟨rfl, rfl⟩
    · obtain ⟨hcode, hcounted, hle, hused⟩ := h.fits j r hr
      have hfalse : (i == j) = false := beq_false_of_ne (Ne.symm hne)
      refine ⟨hcode, ?_, hle, ?_⟩
      · rw [hcount, hcounted, hfalse]
        rfl
      · rw [hcount, hused, hfalse, Bool.and_false]
        rfl
    · obtain ⟨hcode, hcounted, -, hused⟩ := h.fits j row hrow
      refine ⟨hcode, ?_, hbounded, ?_⟩
      · rw [hcount, hcounted, beq_self_eq_true, if_pos rfl]
        rfl
      simp_all [MemberOtp.update]
  · obtain ⟨a', ha, hstampa⟩ := hstamp j a ha
    obtain ⟨b', hb, hstampb⟩ := hstamp k b hb
    rw [hstampa, hstampb]
    exact h.sorted j k a' b' hjk ha hb
  · show g.row < (s.rows.modify i _).length
    rw [List.length_modify]
    rcases List.mem_append.1 hg with hg | hg
    · exact h.within g hg
    · obtain rfl := List.mem_singleton.1 hg
      exact hi
  · rcases List.mem_append.1 hg with hg | hg
    · exact h.right g hg hresult
    · obtain rfl := List.mem_singleton.1 hg
      exact hright (beq_iff_eq.1 hresult)

theorem Inv.examined (h : Inv hash maximum s)
    (hrow : s.rows[i]? = some row) (hex : Examined s.rows row) :
    i = s.rows.length - 1 ∨ ∃ newest ∈ s.rows.getLast?, newest.consumed = true := by
  have hi := (List.getElem?_eq_some_iff.1 hrow).1
  obtain ⟨newest, hlast⟩ : ∃ newest, s.rows[s.rows.length - 1]? = some newest :=
    ⟨_, List.getElem?_eq_getElem (by omega)⟩
  cases hconsumed : newest.consumed with
  | true => simp_all [List.getLast?_eq_getElem?]
  | false =>
    by_cases hlt : i < s.rows.length - 1
    · have hnewer := h.sorted i _ row newest hlt hrow hlast
      have holder := hex.2 newest (List.mem_of_getElem? hlast) hconsumed
      omega
    · exact .inl (by omega)

theorem Inv.verify (h : Inv hash maximum s) (hhash : ∀ c c', hash c = hash c' → c = c')
    {t : State} (hsound : Sound hash maximum s (.verify p code i))
    (hstep : s.verify maximum p code i = some t) : Inv hash maximum t := by
  rw [State.verify] at hstep
  split at hstep
  · rename_i row hrow
    split at hstep
    · rename_i hex
      cases hstep
      split
      · rename_i husable
        refine h.go (fun _ _ hph => by cases hph) fun _ _ _ _ hph => ?_
        cases hph
        have hleft : row.attempts < maximum := by
          rw [MemberOtp.usable, Bool.not_eq_true', Bool.or_eq_false_iff] at husable
          exact Nat.lt_of_not_le (of_decide_eq_false husable.2)
        refine ⟨hleft, hex.1, fun hsame => ?_⟩
        rcases h.examined hrow hex with rfl | ⟨newest, hlast, hconsumed⟩
        · obtain ⟨c, hc, hc'⟩ := (h.fits _ row hrow).code
          obtain rfl : code = c := hhash _ _ (hsame.symm.trans hc')
          exact ⟨rfl, hc⟩
        · exact absurd hsame (hsound newest hlast hconsumed row hrow husable)
      · exact h
    · cases hstep
  simp_all

theorem Inv.step (h : Inv hash maximum s) (hhash : ∀ c c', hash c = hash c' → c = c') {a : Act}
    {t : State} (hsound : Sound hash maximum s a)
    (hstep : LoginCodes.step hash maximum s a = some t) : Inv hash maximum t := by
  have hidle : ∀ {s : State} {p : ℕ}, Inv hash maximum s → Inv hash maximum (s.go p .idle) :=
    fun h => h.go (fun _ _ hph => by cases hph) fun _ _ _ _ hph => by cases hph
  cases a with
  | wait duration =>
    cases hstep
    exact { h with
      fits := fun i row hrow => ⟨(h.fits i row hrow).code, (h.fits i row hrow).counted,
        (h.fits i row hrow).bounded, (h.fits i row hrow).used⟩
      held := fun p code i row newest hp => ⟨(h.held p code i row newest hp).bounded,
        (h.held p code i row newest hp).unused, (h.held p code i row newest hp).right⟩ }
  | issue p code ttl =>
    rw [LoginCodes.step] at hstep
    split at hstep
    · cases hstep
      refine h.go (fun _ _ hph => ?_) fun _ _ _ _ hph => by cases hph
      cases hph
      exact ⟨rfl, rfl, rfl⟩
    · cases hstep
  | commit p =>
    rw [LoginCodes.step] at hstep
    rw [Sound] at hsound
    split at hstep
    · rename_i code row hp
      rw [hp] at hsound
      cases hstep
      exact hidle (h.commit (h.hashed p code row hp) hsound)
    · cases hstep
  | verify p code i =>
    rw [LoginCodes.step] at hstep
    split at hstep
    · exact h.verify hhash hsound hstep
    · cases hstep
  | answer p =>
    rw [LoginCodes.step] at hstep
    rw [Sound] at hsound
    split at hstep
    · rename_i code i row newest hp
      rw [hp] at hsound
      cases hstep
      exact hidle (h.answer hp hsound)
    · cases hstep
  | stop p =>
    cases hstep
    exact hidle h

theorem Inv.singleUse (h : Inv hash maximum s) : SingleUse maximum s where
  newest g hg hresult := by
    obtain ⟨hnewest, hcode⟩ := h.right g hg hresult
    rw [hnewest]
    exact hcode
  once i := by
    have hrow : ∀ g ∈ s.guesses,
        (g.result && g.newest == i) = true ↔ (g.result && g.row == i) = true := by
      intro g hg
      rw [Bool.and_eq_true, Bool.and_eq_true]
      refine and_congr_right fun hresult => ?_
      rw [(h.right g hg hresult).1]
    rw [List.countP_congr hrow]
    cases hi : s.rows[i]? with
    | none =>
      have hzero := h.unguessed (List.getElem?_eq_none_iff.1 hi)
      exact (countP_result_le _ _).trans (hzero.le.trans (Nat.zero_le 1))
    | some row =>
      rw [(h.fits i row hi).used]
      grind
  guessed i := by
    cases hi : s.rows[i]? with
    | none => exact (h.unguessed (List.getElem?_eq_none_iff.1 hi)).le.trans (Nat.zero_le _)
    | some row =>
      rw [(h.fits i row hi).counted]
      exact (h.fits i row hi).bounded

end Invariant

/-- **A code works once**, while it is the newest, and for so many guesses, in every run of which
    the steps are sound. -/
theorem code_works_once (hash : String → String) (maximum : ℕ)
    (hhash : ∀ c c', hash c = hash c' → c = c') {s : State}
    (h : Reach (step hash maximum) (Sound hash maximum) State.init s) : SingleUse maximum s :=
  (h.invariant inv_init fun _ _ _ hinv hsound hstep => hinv.step hhash hsound hstep).singleUse

/-- Two codes are issued; a wrong guess, and the newest code. -/
def wrongThenRight : List Act :=
  [.issue 0 "111111" 600, .commit 0, .wait 1, .issue 0 "222222" 600, .commit 0,
    .verify 1 "111111" 1, .answer 1, .verify 1 "222222" 1, .answer 1]

theorem newest_code_works : ∃ s,
    Reach (step (fun c => c) 5) (Sound (fun c => c) 5) State.init s ∧ SingleUse 5 s ∧
    s.guesses.map (·.result) = [false, true] := by
  have hrun : Reach (step (fun c => c) 5) (Sound (fun c => c) 5) State.init _ :=
    @reach_exec _ _ _ _ wrongThenRight _ _ rfl
      ⟨trivial, fun _ h => (by cases h), trivial, trivial, List.forall_mem_singleton.2 (by decide),
        fun _ hlast hconsumed => (by cases hlast; cases hconsumed), rfl,
        fun _ hlast hconsumed => (by cases hlast; cases hconsumed), rfl, trivial⟩
  exact ⟨_, hrun, code_works_once _ 5 (fun _ _ h => h) hrun, by decide⟩

def newestThenOlder : List Act :=
  [.issue 0 "111111" 600, .commit 0, .wait 1, .issue 0 "222222" 600, .commit 0,
    .verify 1 "222222" 1, .answer 1, .verify 1 "111111" 0, .answer 1]

/-- **An older code works** when the newest has been used. -/
theorem older_code_works : ∃ s, Reachable (step (fun c => c) 5) State.init s ∧ ¬ SingleUse 5 s := by
  refine ⟨_, @reachable_exec _ _ _ newestThenOlder _ _ rfl, fun h => ?_⟩
  have hnewest := h.newest ⟨0, 1, "111111", true⟩ (by decide) rfl
  revert hnewest
  decide

end RuleMind.LoginCodes
