/-
  The serving cache of `app/fast_decide.py`: `_current_epoch`, `invalidate`, `_epoch_cached` and
  `_build_serving_bundle`, in one process without Redis.

  A decision reads its policy row, then the epoch of its tenant, and takes a cached bundle of
  that epoch or builds one, part by part, under the lock of its policy; an edit is committed and
  invalidates.  The steps of all of them interleave.  A content is given by the number of the
  edit that it is from.  Of the other tenants there is that their entries push out those of this
  one.
-/
import RuleMind.Lib.Run
import Mathlib.Data.Nat.Basic
import Mathlib.Order.Basic

namespace RuleMind.Serving

open Lib

/-! ### Parts and bundles -/

inductive Part
  | policy (id : String)
  | variables
  | rules
  | scorecards
  | decisionTables
  | connectors
  | settings
  deriving DecidableEq, Repr

def CATALOG : List Part :=
  [.variables, .rules, .scorecards, .decisionTables, .connectors, .settings]

def partsOf (id : String) : List Part := .policy id :: CATALOG

abbrev Bundle : Type := Part → ℕ

/-- An entry of `_SERVING`. -/
structure Entry where
  epoch : ℕ
  builtAt : ℕ
  bundle : Bundle

/-- `FAST_CACHE_EPOCH_TTL` and `FAST_CACHE_TTL_SECONDS`. -/
structure Ttl where
  epoch : ℕ
  entry : ℕ

/-- A decision with its policy row, and the edits that were announced in time for it. -/
structure Request where
  id : String
  version : ℕ
  due : List (Part × ℕ)

/-- What `_current_epoch` is called for: the slow path's catalog, or a bundle. -/
inductive Call
  | catalog
  | serving (r : Request)

def Call.due : Call → List (Part × ℕ)
  | .catalog => []
  | .serving r => r.due

inductive Phase
  | idle
  /-- An edit is committed; `invalidate` has dropped the bundles, has counted. -/
  | edited (part : Part) (n : ℕ)
  | cleared (part : Part) (n : ℕ)
  | bumped (part : Part) (n : ℕ)
  /-- `_current_epoch`: called, with the time, without a hit, with what is counted. -/
  | called (call : Call)
  | clocked (call : Call) (now : ℕ)
  | missed (call : Call) (now : ℕ)
  | counted (call : Call) (now : ℕ) (epoch : ℕ)
  /-- `_epoch_cached`: with the epoch, without an entry, with the lock. -/
  | fetched (r : Request) (epoch : ℕ)
  | waiting (r : Request) (epoch : ℕ)
  | building (r : Request) (epoch : ℕ) (left : List Part) (bundle : Bundle)

structure Announced where
  part : Part
  edit : ℕ
  time : ℕ

structure State where
  now : ℕ
  /-- The number of edits committed. -/
  edits : ℕ
  db : Bundle
  /-- `_LOCAL_EPOCH`, `_EPOCH_CACHE` and `_SERVING`, for the tenant. -/
  counter : Option ℕ
  epochCache : Option (ℕ × ℕ)
  serving : String → Option Entry
  /-- Who holds `_CACHE_LOCK`, and the lock of each key. -/
  lock : Option ℕ
  flight : String → Option ℕ
  process : ℕ → Phase
  /-- The edits whose `invalidate` has counted, when; and those whose `invalidate` has returned. -/
  bumps : List Announced
  announced : List Announced
  /-- The bundles that were evaluated. -/
  served : List (Request × Bundle)

def State.init (db : Bundle) (edits : ℕ) : State where
  now := 0
  edits := edits
  db := db
  counter := none
  epochCache := none
  serving _ := none
  lock := none
  flight _ := none
  process _ := .idle
  bumps := []
  announced := []
  served := []

inductive Act
  | wait (n : ℕ)
  | edit (w : ℕ) (part : Part)
  | clear (w : ℕ)
  | bump (w : ℕ)
  | pop (w : ℕ)
  | readPolicy (w : ℕ) (id : String)
  | readCatalog (w : ℕ)
  | clock (w : ℕ)
  | lookup (w : ℕ)
  | count (w : ℕ)
  | keep (w : ℕ)
  /-- The entry is looked at, with a time read before. -/
  | take (w : ℕ) (time : ℕ)
  | acquire (w : ℕ) (time : ℕ)
  | read (w : ℕ)
  | store (w : ℕ)
  /-- A build raises. -/
  | fail (w : ℕ)
  | evictEntry (id : String)
  | evictEpoch
  | evictCounter

/-! ### Steps -/

def State.go (s : State) (w : ℕ) (ph : Phase) : State :=
  { s with process := Function.update s.process w ph }

/-- What `_current_epoch` returns is used. -/
def Call.return (epoch : ℕ) : Call → Phase
  | .catalog => .idle
  | .serving r => .fetched r epoch

section Steps
variable (ttl : Ttl)

def State.hit (s : State) (id : String) (epoch time : ℕ) : Option Entry :=
  (s.serving id).filter fun e => e.epoch = epoch ∧ time < e.builtAt + ttl.entry

/-- The edits that were announced long enough ago. -/
def State.due (s : State) : List (Part × ℕ) :=
  (s.announced.filter fun a => a.time + ttl.epoch ≤ s.now).map fun a => (a.part, a.edit)

def State.serve (s : State) (w : ℕ) (r : Request) (bundle : Bundle) : State :=
  { s.go w .idle with served := (r, bundle) :: s.served }

def step (s : State) (a : Act) : Option State :=
  match a with
  | .wait n => some { s with now := s.now + n }
  | .edit w part =>
    match s.process w with
    | .idle => some ({ s with
        edits := s.edits + 1
        db := Function.update s.db part (s.edits + 1) }.go w (.edited part (s.edits + 1)))
    | _ => none
  | .clear w =>
    match s.process w with
    | .edited part n =>
      if s.lock = none then
        some ({ s with lock := some w, serving := fun _ => none }.go w (.cleared part n))
      else none
    | _ => none
  | .bump w =>
    match s.process w with
    | .cleared part n =>
      some ({ s with
        counter := some (s.counter.getD 0 + 1)
        bumps := s.bumps ++ [Announced.mk part n s.now] }.go w (.bumped part n))
    | _ => none
  | .pop w =>
    match s.process w with
    | .bumped part n =>
      some ({ s with
        epochCache := none
        lock := none
        announced := Announced.mk part n s.now :: s.announced }.go w .idle)
    | _ => none
  | .readPolicy w id =>
    match s.process w with
    | .idle => some (s.go w (.called (.serving ⟨id, s.db (.policy id), s.due ttl⟩)))
    | _ => none
  | .readCatalog w =>
    match s.process w with
    | .idle => some (s.go w (.called .catalog))
    | _ => none
  | .clock w =>
    match s.process w with
    | .called call => some (s.go w (.clocked call s.now))
    | _ => none
  | .lookup w =>
    match s.process w with
    | .clocked call now =>
      match s.epochCache with
      | some (time, epoch) =>
        if now < time + ttl.epoch then some (s.go w (call.return epoch))
        else some (s.go w (.missed call now))
      | none => some (s.go w (.missed call now))
    | _ => none
  | .count w =>
    match s.process w with
    | .missed call now => some (s.go w (.counted call now (s.counter.getD 0)))
    | _ => none
  | .keep w =>
    match s.process w with
    | .counted call now epoch =>
      some ({ s with epochCache := some (now, epoch) }.go w (call.return epoch))
    | _ => none
  | .take w time =>
    match s.process w with
    | .fetched r epoch =>
      if time ≤ s.now then
        match s.hit ttl r.id epoch time with
        | some e => some (s.serve w r e.bundle)
        | none => some (s.go w (.waiting r epoch))
      else none
    | _ => none
  | .acquire w time =>
    match s.process w with
    | .waiting r epoch =>
      if s.flight r.id = none ∧ time ≤ s.now then
        match s.hit ttl r.id epoch time with
        | some e => some (s.serve w r e.bundle)
        | none =>
          some ({ s with flight := Function.update s.flight r.id (some w) }.go w
            (.building r epoch CATALOG
              fun p : Part => if p = Part.policy r.id then r.version else 0))
      else none
    | _ => none
  | .read w =>
    match s.process w with
    | .building r epoch (part :: left) bundle =>
      some (s.go w (.building r epoch left (Function.update bundle part (s.db part))))
    | _ => none
  | .store w =>
    match s.process w with
    | .building r epoch [] bundle =>
      if s.lock = none then
        some ({ s with
          serving := Function.update s.serving r.id (some ⟨epoch, s.now, bundle⟩)
          flight := Function.update s.flight r.id none }.serve w r bundle)
      else none
    | _ => none
  | .fail w =>
    match s.process w with
    | .building r _ _ _ => some ({ s with flight := Function.update s.flight r.id none }.go w .idle)
    | _ => none
  | .evictEntry id => some { s with serving := Function.update s.serving id none }
  | .evictEpoch => some { s with epochCache := none }
  | .evictCounter => some { s with counter := none }

/-- No bundle is evaluated with a part from before an edit that was announced in time. -/
def Fresh (s : State) : Prop := ∀ p ∈ s.served, ∀ d ∈ p.1.due, d.1 ∈ partsOf p.1.id → d.2 ≤ p.2 d.1

def State.Counts (s : State) (epoch : ℕ) (part : Part) (n : ℕ) : Prop :=
  ∃ (i : ℕ) (b : Announced), s.bumps[i]? = some b ∧ i < epoch ∧ b.part = part ∧ b.edit = n

/-- A request builds with a policy row that has the edits its epoch counts, and the counter stays
    in its cache. -/
def Recent (s : State) : Act → Prop
  | .acquire w _ => ∀ r epoch, s.process w = .waiting r epoch →
      ∀ n, s.Counts epoch (.policy r.id) n → n ≤ r.version
  | .evictCounter => False
  | _ => True

end Steps

/-! ### What an epoch counts -/

section Counting
variable {ttl : Ttl} {s s' : State} {epoch t : ℕ} {part : Part} {n : ℕ}

/-- Later: more is counted, parts are from later edits, and the clock has moved on. -/
structure Later (s s' : State) : Prop where
  bumps : ∃ more, s'.bumps = s.bumps ++ more ∧ ∀ b ∈ more, s.now ≤ b.time
  db : ∀ p, s.db p ≤ s'.db p
  now : s.now ≤ s'.now

theorem Later.of_eq (hb : s'.bumps = s.bumps) (hdb : s'.db = s.db) (hnow : s.now ≤ s'.now) :
    Later s s' :=
  ⟨⟨[], by rw [hb, List.append_nil], nofun⟩, fun p => by rw [hdb], hnow⟩

theorem State.Counts.later (h : s.Counts epoch part n) (hl : Later s s') :
    s'.Counts epoch part n := by
  obtain ⟨i, b, hi, hlt, hp, hn⟩ := h
  obtain ⟨more, hmore, -⟩ := hl.bumps
  refine ⟨i, b, ?_, hlt, hp, hn⟩
  grind

theorem State.Counts.earlier (h : s'.Counts epoch part n) (hl : Later s s')
    (hepoch : epoch ≤ s.bumps.length) : s.Counts epoch part n := by
  obtain ⟨i, b, hi, hlt, hp, hn⟩ := h
  obtain ⟨more, hmore, -⟩ := hl.bumps
  refine ⟨i, b, ?_, hlt, hp, hn⟩
  rwa [hmore, List.getElem?_append_left (by omega)] at hi

/-- An epoch read at a time: what it does not count was counted since. -/
structure State.Reading (s : State) (t epoch : ℕ) : Prop where
  length : epoch ≤ s.bumps.length
  past : t ≤ s.now
  since : ∀ (i : ℕ) b, s.bumps[i]? = some b → epoch ≤ i → t ≤ b.time

theorem State.Reading.later (h : s.Reading t epoch) (hl : Later s s') : s'.Reading t epoch := by
  obtain ⟨more, hmore, htime⟩ := hl.bumps
  refine ⟨?_, h.past.trans hl.now, fun i b hi hle => ?_⟩
  · rw [hmore, List.length_append]
    exact h.length.trans (Nat.le_add_right _ _)
  · rw [hmore] at hi
    by_cases hlt : i < s.bumps.length
    · rw [List.getElem?_append_left hlt] at hi
      exact h.since i b hi hle
    · rw [List.getElem?_append_right (by omega)] at hi
      exact h.past.trans (htime b (List.mem_of_getElem? hi))

/-- An edit counted a time-to-live before `t`. -/
def State.Settled (s : State) (ttl : Ttl) (t : ℕ) (d : Part × ℕ) : Prop :=
  ∃ b ∈ s.bumps, b.part = d.1 ∧ b.edit = d.2 ∧ b.time + ttl.epoch ≤ t

variable {d : Part × ℕ}

theorem State.Settled.later (h : s.Settled ttl t d) (hl : Later s s') {t' : ℕ}
    (ht : t ≤ t') : s'.Settled ttl t' d := by
  obtain ⟨b, hb, hp, hn, htime⟩ := h
  obtain ⟨more, hmore, -⟩ := hl.bumps
  refine ⟨b, ?_, hp, hn, htime.trans ht⟩
  rw [hmore]
  exact List.mem_append_left _ hb

/-- **A cached epoch.**  One that is not too old counts what was counted before. -/
theorem State.Reading.counts {time : ℕ} (h : s.Reading time epoch)
    (hd : s.Settled ttl t d) (hhit : t < time + ttl.epoch) : s.Counts epoch d.1 d.2 := by
  obtain ⟨b, hb, hp, hn, htime⟩ := hd
  obtain ⟨i, hi⟩ := List.mem_iff_getElem?.1 hb
  refine ⟨i, b, hi, ?_, hp, hn⟩
  by_contra hle
  have := h.since i b hi (by omega)
  omega

theorem Settled.counts (hd : s.Settled ttl t d) : s.Counts s.bumps.length d.1 d.2 := by
  obtain ⟨b, hb, hp, hn, -⟩ := hd
  obtain ⟨i, hi⟩ := List.mem_iff_getElem?.1 hb
  exact ⟨i, b, hi, (List.getElem?_eq_some_iff.1 hi).1, hp, hn⟩

/-- The parts of a bundle have the edits that an epoch counts. -/
structure State.Covers (s : State) (epoch : ℕ) (parts : List Part) (bundle : Bundle) : Prop where
  length : epoch ≤ s.bumps.length
  parts : ∀ p ∈ parts, ∀ n, s.Counts epoch p n → n ≤ bundle p

theorem State.Covers.later {parts : List Part} {bundle : Bundle} (h : s.Covers epoch parts bundle)
    (hl : Later s s') : s'.Covers epoch parts bundle where
  length := by
    obtain ⟨more, hmore, -⟩ := hl.bumps
    rw [hmore, List.length_append]
    exact h.length.trans (Nat.le_add_right _ _)
  parts p hp n hc := h.parts p hp n (hc.earlier hl h.length)

end Counting

/-! ### The invariant -/

section Invariant
variable {ttl : Ttl} {s s' : State}

/-- The epoch that a request has counts the edits announced in time for it. -/
structure EpochOk (s : State) (r : Request) (epoch : ℕ) : Prop where
  length : epoch ≤ s.bumps.length
  due : ∀ d ∈ r.due, s.Counts epoch d.1 d.2

variable {epoch w n t : ℕ} {r : Request} {ph : Phase} {part : Part} {call : Call} {bundle :
  Bundle}

theorem EpochOk.later (h : EpochOk s r epoch) (hl : Later s s') : EpochOk s' r epoch where
  length := by
    obtain ⟨more, hmore, -⟩ := hl.bumps
    rw [hmore, List.length_append]
    exact h.length.trans (Nat.le_add_right _ _)
  due d hd := (h.due d hd).later hl

def PhaseOk (ttl : Ttl) (s : State) : Phase → Prop
  | .idle => True
  | .edited part n | .cleared part n => n ≤ s.db part
  | .bumped part n => ∃ b ∈ s.bumps, b.part = part ∧ b.edit = n
  | .called call => ∀ d ∈ call.due, s.Settled ttl s.now d
  | .clocked call t | .missed call t => t ≤ s.now ∧ ∀ d ∈ call.due, s.Settled ttl t d
  | .counted call t epoch => s.Reading t epoch ∧ ∀ d ∈ call.due, s.Counts epoch d.1 d.2
  | .fetched r epoch | .waiting r epoch => EpochOk s r epoch
  | .building r epoch left bundle => EpochOk s r epoch ∧
      s.Covers epoch ((partsOf r.id).filter (· ∉ left)) bundle

theorem PhaseOk.later (h : PhaseOk ttl s ph) (hl : Later s s') : PhaseOk ttl s' ph := by
  cases ph with
  | idle => trivial
  | edited part n | cleared part n => exact h.trans (hl.db part)
  | bumped part n =>
    obtain ⟨b, hb, hp⟩ := h
    obtain ⟨more, hmore, -⟩ := hl.bumps
    refine ⟨b, ?_, hp⟩
    rw [hmore]
    exact List.mem_append_left _ hb
  | called call => exact fun d hd => (h d hd).later hl hl.now
  | clocked call t | missed call t =>
    exact ⟨h.1.trans hl.now, fun d hd => (h.2 d hd).later hl le_rfl⟩
  | counted call t epoch => exact ⟨h.1.later hl, fun d hd => (h.2 d hd).later hl⟩
  | fetched r epoch | waiting r epoch => exact EpochOk.later h hl
  | building r epoch left bundle => exact ⟨h.1.later hl, h.2.later hl⟩

def AnnouncedOk (s : State) (a : Announced) : Prop :=
  ∃ b ∈ s.bumps, b.part = a.part ∧ b.edit = a.edit ∧ b.time ≤ a.time

def ServedOk (p : Request × Bundle) : Prop := ∀ d ∈ p.1.due, d.1 ∈ partsOf p.1.id → d.2 ≤ p.2 d.1

structure Inv (ttl : Ttl) (s : State) : Prop where
  counter : s.counter.getD 0 = s.bumps.length
  edits : ∀ p, s.db p ≤ s.edits
  bumps : ∀ b ∈ s.bumps, b.edit ≤ s.db b.part ∧ b.time ≤ s.now
  announced : ∀ a ∈ s.announced, AnnouncedOk s a
  cache : ∀ t epoch, s.epochCache = some (t, epoch) → s.Reading t epoch
  serving : ∀ id e, s.serving id = some e → s.Covers e.epoch (partsOf id) e.bundle
  phase : ∀ w, PhaseOk ttl s (s.process w)
  served : ∀ p ∈ s.served, ServedOk p

/-- What an action leaves behind, where it changes something. -/
structure Change (ttl : Ttl) (s s' : State) : Prop where
  later : Later s s'
  counter : s'.counter.getD 0 = s'.bumps.length
  edits : ∀ p, s'.db p ≤ s'.edits
  bumps : ∀ b ∈ s'.bumps, b ∈ s.bumps ∨ b.edit ≤ s'.db b.part ∧ b.time ≤ s'.now
  announced : ∀ a ∈ s'.announced, a ∈ s.announced ∨ AnnouncedOk s' a
  cache : ∀ t epoch, s'.epochCache = some (t, epoch) →
    s.epochCache = some (t, epoch) ∨ s'.Reading t epoch
  serving : ∀ id e, s'.serving id = some e →
    s.serving id = some e ∨ s'.Covers e.epoch (partsOf id) e.bundle
  phase : ∀ w, s'.process w = s.process w ∨ PhaseOk ttl s' (s'.process w)
  served : ∀ p ∈ s'.served, p ∈ s.served ∨ ServedOk p

theorem Inv.change (hi : Inv ttl s) (hc : Change ttl s s') : Inv ttl s' where
  counter := hc.counter
  edits := hc.edits
  bumps b hb := by
    rcases hc.bumps b hb with hold | hnew
    · obtain ⟨hedit, htime⟩ := hi.bumps b hold
      exact ⟨hedit.trans (hc.later.db _), htime.trans hc.later.now⟩
    · exact hnew
  announced a ha := by
    rcases hc.announced a ha with hold | hnew
    · obtain ⟨b, hb, hrest⟩ := hi.announced a hold
      obtain ⟨more, hmore, -⟩ := hc.later.bumps
      exact ⟨b, by rw [hmore]; exact List.mem_append_left _ hb, hrest⟩
    · exact hnew
  cache t epoch h :=
    (hc.cache t epoch h).elim (fun hold => (hi.cache t epoch hold).later hc.later) id
  serving id e h := (hc.serving id e h).elim (fun hold => (hi.serving id e hold).later hc.later)
    fun hnew => hnew
  phase w := by
    rcases hc.phase w with hold | hnew
    · rw [hold]
      exact (hi.phase w).later hc.later
    · exact hnew
  served p hp := (hc.served p hp).elim (hi.served p) id

@[simp] theorem go_process (s : State) (w : ℕ) (ph : Phase) (v : ℕ) :
    (s.go w ph).process v = if v = w then ph else s.process v := by
  simp [State.go, Function.update_apply]

theorem phase_go {t : State} (hp : t.process = s.process)
    (h : PhaseOk ttl (t.go w ph) ph) (v : ℕ) : (t.go w ph).process v = s.process v ∨
      PhaseOk ttl (t.go w ph) ((t.go w ph).process v) := by grind [go_process]

theorem phase_congr {t : State} (h : PhaseOk ttl s ph) (hb : t.bumps = s.bumps)
    (hdb : t.db = s.db) (hnow : t.now = s.now) : PhaseOk ttl t ph :=
  h.later (.of_eq hb hdb hnow.ge)

theorem Inv.move (hi : Inv ttl s) (hph : PhaseOk ttl s ph) : Inv ttl (s.go w ph) := hi.change {
  later := .of_eq rfl rfl le_rfl
  counter := hi.counter
  edits := hi.edits
  bumps _ h := .inl h
  announced _ h := .inl h
  cache _ _ h := .inl h
  serving _ _ h := .inl h
  phase := phase_go rfl (phase_congr hph rfl rfl rfl)
  served _ h := .inl h }

theorem Inv.wait (hi : Inv ttl s) (n : ℕ) : Inv ttl { s with now := s.now + n } := hi.change {
  later := .of_eq rfl rfl (Nat.le_add_right _ _)
  counter := hi.counter
  edits := hi.edits
  bumps _ h := .inl h
  announced _ h := .inl h
  cache _ _ h := .inl h
  serving _ _ h := .inl h
  phase _ := .inl rfl
  served _ h := .inl h }

theorem Inv.locks (hi : Inv ttl s) (flight : String → Option ℕ) :
    Inv ttl { s with flight := flight } := hi.change {
  later := .of_eq rfl rfl le_rfl
  counter := hi.counter
  edits := hi.edits
  bumps _ h := .inl h
  announced _ h := .inl h
  cache _ _ h := .inl h
  serving _ _ h := .inl h
  phase _ := .inl rfl
  served _ h := .inl h }

/-! ### Edits and invalidations -/

theorem Inv.edit (hi : Inv ttl s) (w : ℕ) (part : Part) : Inv ttl ({ s with
    edits := s.edits + 1
    db := Function.update s.db part (s.edits + 1) }.go w (.edited part (s.edits + 1))) := by
  have hdb : ∀ p, s.db p ≤ Function.update s.db part (s.edits + 1) p := by
    intro p
    rw [Function.update_apply]
    split
    · exact (hi.edits p).trans (Nat.le_succ _)
    · exact le_rfl
  exact hi.change {
    later := ⟨⟨[], (List.append_nil _).symm, nofun⟩, hdb, le_rfl⟩
    counter := hi.counter
    edits := fun p => by
      show Function.update s.db part (s.edits + 1) p ≤ s.edits + 1
      rw [Function.update_apply]
      split
      · exact le_rfl
      · exact (hi.edits p).trans (Nat.le_succ _)
    bumps := fun _ h => .inl h
    announced := fun _ h => .inl h
    cache := fun _ _ h => .inl h
    serving := fun _ _ h => .inl h
    phase := phase_go rfl (by
      show s.edits + 1 ≤ Function.update s.db part (s.edits + 1) part
      rw [Function.update_self])
    served := fun _ h => .inl h }

theorem Inv.clear (hi : Inv ttl s) (hn : n ≤ s.db part) :
    Inv ttl ({ s with lock := some w, serving := fun _ => none }.go w (.cleared part n)) :=
  hi.change {
    later := .of_eq rfl rfl le_rfl
    counter := hi.counter
    edits := hi.edits
    bumps := fun _ h => .inl h
    announced := fun _ h => .inl h
    cache := fun _ _ h => .inl h
    serving := fun _ _ h => by cases h
    phase := phase_go rfl hn
    served := fun _ h => .inl h }

theorem Inv.bump (hi : Inv ttl s) (w : ℕ) (hn : n ≤ s.db part) :
    Inv ttl ({ s with
      counter := some (s.counter.getD 0 + 1)
      bumps := s.bumps ++ [Announced.mk part n s.now] }.go w (.bumped part n)) := hi.change {
  later := by
    refine ⟨⟨[⟨part, n, s.now⟩], rfl, fun b hb => ?_⟩, fun _ => le_rfl, le_rfl⟩
    rw [List.mem_singleton.1 hb]
  counter := by
    show s.counter.getD 0 + 1 = (s.bumps ++ [_]).length
    rw [hi.counter, List.length_append]
    rfl
  edits := hi.edits
  bumps b hb := by
    rcases List.mem_append.1 hb with hb | hb
    · exact .inl hb
    · rw [List.mem_singleton.1 hb]
      exact .inr ⟨hn, le_rfl⟩
  announced _ h := .inl h
  cache _ _ h := .inl h
  serving _ _ h := .inl h
  phase := phase_go rfl ⟨⟨part, n, s.now⟩, List.mem_append_right _ List.mem_cons_self, rfl, rfl⟩
  served _ h := .inl h }

theorem Inv.pop (hi : Inv ttl s) (w : ℕ)
    (hn : ∃ b ∈ s.bumps, b.part = part ∧ b.edit = n) : Inv ttl ({ s with
      epochCache := none
      lock := none
      announced := Announced.mk part n s.now :: s.announced }.go w .idle) := hi.change {
  later := .of_eq rfl rfl le_rfl
  counter := hi.counter
  edits := hi.edits
  bumps _ h := .inl h
  announced a ha := by
    rcases List.mem_cons.1 ha with rfl | ha
    · obtain ⟨b, hb, hp, hn⟩ := hn
      exact .inr ⟨b, hb, hp, hn, (hi.bumps b hb).2⟩
    · exact .inl ha
  cache _ _ h := by cases h
  serving _ _ h := .inl h
  phase := phase_go rfl trivial
  served _ h := .inl h }

/-! ### Epochs -/

theorem Inv.due (hi : Inv ttl s) {d : Part × ℕ} (hd : d ∈ s.due ttl) : s.Settled ttl s.now d := by
  obtain ⟨a, ha, rfl⟩ := List.mem_map.1 hd
  obtain ⟨hmem, htime⟩ := List.mem_filter.1 ha
  obtain ⟨b, hb, hp, hn, hle⟩ := hi.announced a hmem
  have := of_decide_eq_true htime
  exact ⟨b, hb, hp, hn, by omega⟩

theorem phaseOk_return (hlength : epoch ≤ s.bumps.length)
    (hdue : ∀ d ∈ call.due, s.Counts epoch d.1 d.2) : PhaseOk ttl s (call.return epoch) := by
  cases call with
  | catalog => trivial
  | serving r => exact ⟨hlength, hdue⟩

theorem Inv.lookup (hi : Inv ttl s) {time : ℕ}
    (hph : PhaseOk ttl s (.clocked call t)) (hcache : s.epochCache = some (time, epoch))
    (hhit : t < time + ttl.epoch) : PhaseOk ttl s (call.return epoch) := by
  have hread := hi.cache time epoch hcache
  exact phaseOk_return hread.length fun d hd => hread.counts (hph.2 d hd) hhit

theorem Inv.count (hi : Inv ttl s) (hph : PhaseOk ttl s (.missed call t)) :
    PhaseOk ttl s (.counted call t (s.counter.getD 0)) := by
  rw [hi.counter]
  refine ⟨⟨le_rfl, hph.1, fun i b hb hle => ?_⟩, fun d hd => Settled.counts (hph.2 d hd)⟩
  have := (List.getElem?_eq_some_iff.1 hb).1
  omega

theorem Inv.keep (hi : Inv ttl s) (w : ℕ) (hph : PhaseOk ttl s (.counted call t epoch)) :
    Inv ttl ({ s with epochCache := some (t, epoch) }.go w (call.return epoch)) := hi.change {
  later := .of_eq rfl rfl le_rfl
  counter := hi.counter
  edits := hi.edits
  bumps _ h := .inl h
  announced _ h := .inl h
  cache _ _ h := by
    cases h
    exact .inr (hph.1.later (.of_eq rfl rfl le_rfl))
  serving _ _ h := .inl h
  phase := phase_go rfl (phase_congr (phaseOk_return hph.1.length hph.2) rfl rfl rfl)
  served _ h := .inl h }

/-! ### Bundles -/

theorem servedOk_of_covers (hr : EpochOk s r epoch)
    (hc : s.Covers epoch (partsOf r.id) bundle) : ServedOk (r, bundle) :=
  fun d hd hp => hc.parts d.1 hp d.2 (hr.due d hd)

theorem Inv.serve (hi : Inv ttl s) (w : ℕ)
    (h : ServedOk (r, bundle)) : Inv ttl (s.serve w r bundle) := hi.change {
  later := .of_eq rfl rfl le_rfl
  counter := hi.counter
  edits := hi.edits
  bumps _ h := .inl h
  announced _ h := .inl h
  cache _ _ h := .inl h
  serving _ _ h := .inl h
  phase := phase_go (t := { s with served := (r, bundle) :: s.served }) rfl trivial
  served p hp := by
    rcases List.mem_cons.1 hp with rfl | hp
    · exact .inr h
    · exact .inl hp }

theorem Inv.hit (hi : Inv ttl s) {time : ℕ} {e : Entry}
    (hr : EpochOk s r epoch) (hhit : s.hit ttl r.id epoch time = some e) :
    ServedOk (r, e.bundle) := by
  obtain ⟨hserving, hvalid⟩ := Option.filter_eq_some_iff.1 hhit
  have hc := hi.serving r.id e hserving
  rw [(of_decide_eq_true hvalid).1] at hc
  exact servedOk_of_covers hr hc

theorem covers_start (hr : EpochOk s r epoch)
    (hrecent : ∀ n, s.Counts epoch (.policy r.id) n → n ≤ r.version) :
    s.Covers epoch ((partsOf r.id).filter (· ∉ CATALOG))
      (fun p => if p = Part.policy r.id then r.version else 0) where
  length := hr.length
  parts p hp n hn := by
    obtain ⟨hmem, hnot⟩ := List.mem_filter.1 hp
    rcases List.mem_cons.1 hmem with rfl | hmem
    · rw [if_pos rfl]
      exact hrecent n hn
    · exact absurd hmem (of_decide_eq_true hnot)

theorem Inv.read (hi : Inv ttl s) {left : List Part}
    (h : s.Covers epoch ((partsOf r.id).filter (· ∉ part :: left)) bundle) :
    s.Covers epoch ((partsOf r.id).filter (· ∉ left))
      (Function.update bundle part (s.db part)) where
  length := h.length
  parts p hp n hn := by
    rw [Function.update_apply]
    split
    · next heq =>
      subst heq
      obtain ⟨i, b, hb, -, rfl, rfl⟩ := hn
      exact (hi.bumps b (List.mem_of_getElem? hb)).1
    · next hne =>
      obtain ⟨hmem, hnot⟩ := List.mem_filter.1 hp
      have hrest : p ∉ left := of_decide_eq_true hnot
      have hleft : p ∉ part :: left := fun h => (List.mem_cons.1 h).elim hne hrest
      exact h.parts p (List.mem_filter.2 ⟨hmem, decide_eq_true hleft⟩) n hn

theorem Inv.store (hi : Inv ttl s) (id : String) {e : Entry}
    (h : s.Covers e.epoch (partsOf id) e.bundle) :
    Inv ttl { s with serving := Function.update s.serving id (some e) } := hi.change {
  later := .of_eq rfl rfl le_rfl
  counter := hi.counter
  edits := hi.edits
  bumps _ h := .inl h
  announced _ h := .inl h
  cache _ _ h := .inl h
  serving id' e' he := by
    change Function.update s.serving id (some e) id' = some e' at he
    rw [Function.update_apply] at he
    split at he
    · next heq =>
      cases he
      rw [heq]
      exact .inr (h.later (.of_eq rfl rfl le_rfl))
    · exact .inl he
  phase _ := .inl rfl
  served _ h := .inl h }

theorem Inv.evictEntry (hi : Inv ttl s) (id : String) :
    Inv ttl { s with serving := Function.update s.serving id none } := hi.change {
  later := .of_eq rfl rfl le_rfl
  counter := hi.counter
  edits := hi.edits
  bumps _ h := .inl h
  announced _ h := .inl h
  cache _ _ h := .inl h
  serving id' e' he := by simp_all [Function.update_apply]
  phase _ := .inl rfl
  served _ h := .inl h }

theorem Inv.evictEpoch (hi : Inv ttl s) : Inv ttl { s with epochCache := none } := hi.change {
  later := .of_eq rfl rfl le_rfl
  counter := hi.counter
  edits := hi.edits
  bumps _ h := .inl h
  announced _ h := .inl h
  cache _ _ h := by cases h
  serving _ _ h := .inl h
  phase _ := .inl rfl
  served _ h := .inl h }

/-! ### Every run -/

theorem Inv.step (hi : Inv ttl s) {a : Act} (hok : Recent s a) (hs : step ttl s a = some s') :
    Inv ttl s' := by
  cases a with
  | wait n =>
    cases hs
    exact hi.wait n
  | edit w part =>
    simp only [Serving.step] at hs
    split at hs
    · cases hs
      exact hi.edit w part
    · cases hs
  | clear w =>
    simp only [Serving.step] at hs
    split at hs
    · next part n hw =>
      have hph := hi.phase w
      rw [hw] at hph
      split at hs
      · cases hs
        exact hi.clear hph
      · cases hs
    · cases hs
  | bump w =>
    simp only [Serving.step] at hs
    split at hs
    · next part n hw =>
      have hph := hi.phase w
      rw [hw] at hph
      cases hs
      exact hi.bump w hph
    · cases hs
  | pop w =>
    simp only [Serving.step] at hs
    split at hs
    · next part n hw =>
      have hph := hi.phase w
      rw [hw] at hph
      cases hs
      exact hi.pop w hph
    · cases hs
  | readPolicy w id =>
    simp only [Serving.step] at hs
    split at hs
    · cases hs
      exact hi.move fun d hd => hi.due hd
    · cases hs
  | readCatalog w =>
    simp only [Serving.step] at hs
    split at hs
    · cases hs
      exact hi.move fun d hd => by cases hd
    · cases hs
  | clock w =>
    simp only [Serving.step] at hs
    split at hs
    · next call hw =>
      have hph := hi.phase w
      rw [hw] at hph
      cases hs
      exact hi.move ⟨le_rfl, hph⟩
    · cases hs
  | lookup w =>
    simp only [Serving.step] at hs
    split at hs
    · next call t hw =>
      have hph := hi.phase w
      rw [hw] at hph
      split at hs
      · next time epoch hcache =>
        split at hs
        · next hhit =>
          cases hs
          exact hi.move (hi.lookup hph hcache hhit)
        · cases hs
          exact hi.move hph
      · cases hs
        exact hi.move hph
    · cases hs
  | count w =>
    simp only [Serving.step] at hs
    split at hs
    · next call t hw =>
      have hph := hi.phase w
      rw [hw] at hph
      cases hs
      exact hi.move (hi.count hph)
    · cases hs
  | keep w =>
    simp only [Serving.step] at hs
    split at hs
    · next call t epoch hw =>
      have hph := hi.phase w
      rw [hw] at hph
      cases hs
      exact hi.keep w hph
    · cases hs
  | take w time =>
    simp only [Serving.step] at hs
    split at hs
    · next r epoch hw =>
      have hph : EpochOk s r epoch := by
        have hph := hi.phase w
        rwa [hw] at hph
      split at hs
      · split at hs
        · next e hhit =>
          cases hs
          exact hi.serve w (hi.hit hph hhit)
        · cases hs
          exact hi.move hph
      · cases hs
    · cases hs
  | acquire w time =>
    simp only [Serving.step] at hs
    split at hs
    · next r epoch hw =>
      have hph : EpochOk s r epoch := by
        have hph := hi.phase w
        rwa [hw] at hph
      split at hs
      · split at hs
        · next e hhit =>
          cases hs
          exact hi.serve w (hi.hit hph hhit)
        · cases hs
          have hstart : PhaseOk ttl s (.building r epoch CATALOG _) :=
            ⟨hph, covers_start hph (hok r epoch hw)⟩
          exact (hi.locks _).move (phase_congr hstart rfl rfl rfl)
      · cases hs
    · cases hs
  | read w =>
    simp only [Serving.step] at hs
    split at hs
    · next r epoch part left bundle hw =>
      have hph := hi.phase w
      rw [hw] at hph
      cases hs
      exact hi.move ⟨hph.1, hi.read hph.2⟩
    · cases hs
  | store w =>
    simp only [Serving.step] at hs
    split at hs
    · next r epoch bundle hw =>
      have hph := hi.phase w
      rw [hw] at hph
      split at hs
      · cases hs
        have hcovers : s.Covers epoch (partsOf r.id) bundle :=
          ⟨hph.2.length, fun p hp => hph.2.parts p (List.mem_filter.2 ⟨hp, by simp⟩)⟩
        exact ((hi.store r.id (e := ⟨epoch, s.now, bundle⟩) hcovers).locks _).serve w
          (servedOk_of_covers hph.1 hcovers)
      · cases hs
    · cases hs
  | fail w =>
    simp only [Serving.step] at hs
    split at hs
    · cases hs
      exact (hi.locks _).move trivial
    · cases hs
  | evictEntry id =>
    cases hs
    exact hi.evictEntry id
  | evictEpoch =>
    cases hs
    exact hi.evictEpoch
  | evictCounter => exact hok.elim

theorem inv_init {db : Bundle} {edits : ℕ} (hdb : ∀ p, db p ≤ edits) :
    Inv ttl (State.init db edits) where
  counter := rfl
  edits := hdb
  bumps _ h := by cases h
  announced _ h := by cases h
  cache _ _ h := by cases h
  serving _ _ h := by cases h
  phase _ := trivial
  served _ h := by cases h

end Invariant

/-- **The cache does not outlive an invalidation.**  In every run in which a request that builds
    has a policy row with the edits its epoch counts, and the counter is not pushed out, a request
    that reads its policy row a time-to-live after an `invalidate` returned evaluates a bundle
    all of whose parts are from the edit that was announced, or from a later one. -/
theorem bundles_fresh {ttl : Ttl} {db : Bundle} {edits : ℕ} {s : State}
    (hdb : ∀ p, db p ≤ edits) (h : Reach (step ttl) Recent (State.init db edits) s) : Fresh s :=
  (h.invariant (I := Inv ttl) (inv_init hdb) fun _ _ _ hi hok hs => hi.step hok hs).served

/-! ### An edit between the policy row and the epoch -/

/-- Process `w` reads the epoch, finds no hit, and looks for an entry. -/
def fetch (w time : ℕ) : List Act := [.clock w, .lookup w, .count w, .keep w, .take w time]

/-- Process `w` builds and stores. -/
def build (w time : ℕ) : List Act :=
  [.acquire w time, .read w, .read w, .read w, .read w, .read w, .read w, .store w]

/-- An edit of the policy, and its `invalidate`. -/
def editPolicy (w : ℕ) : List Act := [.edit w (.policy "p"), .clear w, .bump w, .pop w]

def seconds : Ttl := ⟨1, 5⟩

/-- The first request has read the policy row when it is edited, and the epoch after. -/
def race : List Act :=
  .readPolicy 0 "p" :: (editPolicy 1 ++ fetch 0 0 ++ build 0 0 ++
    [Act.wait 2, Act.readPolicy 2 "p"] ++ fetch 2 2)

/-- **An old policy under a new epoch.**  Two seconds after the `invalidate` returned a request
    reads the policy row as edited, and evaluates the one from before. -/
theorem old_policy_cached : ∃ s r bundle, Reachable (step seconds) (State.init (fun _ => 0) 0) s ∧
    (r, bundle) ∈ s.served ∧ r.id = "p" ∧ r.version = 1 ∧ (.policy "p", 1) ∈ r.due ∧
    bundle (.policy "p") = 0 ∧ ¬ Fresh s := by
  obtain ⟨s, hs, r, bundle, rest, hserved, hid, hversion, hdue, hbundle⟩ :
      ∃ s, exec (step seconds) (State.init (fun _ => 0) 0) race = some s ∧
        ∃ r bundle rest, s.served = (r, bundle) :: rest ∧ r.id = "p" ∧ r.version = 1 ∧
          r.due = [(.policy "p", 1)] ∧ bundle (.policy "p") = 0 :=
    ⟨_, rfl, _, _, _, rfl, rfl, rfl, rfl, rfl⟩
  have hmem : (r, bundle) ∈ s.served := by
    rw [hserved]
    exact List.mem_cons_self
  have hin : (Part.policy "p", 1) ∈ r.due := by
    rw [hdue]
    exact List.mem_cons_self
  refine ⟨s, r, bundle, reachable_exec hs, hmem, hid, hversion, hin, hbundle, fun h => ?_⟩
  have hle := h _ hmem _ hin (by rw [hid]; exact List.mem_cons_self)
  change 1 ≤ bundle (.policy "p") at hle
  omega

/-- The first request reads the policy row after the edit. -/
def edited : List Act := editPolicy 1 ++ Act.readPolicy 0 "p" :: fetch 0 0

def reused : List Act := [Act.wait 2, Act.readPolicy 2 "p"] ++ fetch 2 2

theorem reused_fresh : ∃ s,
    exec (step seconds) (State.init (fun _ => 0) 0) (edited ++ (build 0 0 ++ reused)) = some s ∧
      s.served.length = 2 ∧ Fresh s := by
  have hedited : Along (step seconds) Recent (State.init (fun _ => 0) 0) edited :=
    .of_forall (by simp [edited, editPolicy, fetch, Recent]) _
  have hreused : ∀ s, Along (step seconds) Recent s ((build 0 0).tail ++ reused) :=
    Along.of_forall (by simp [build, reused, fetch, Recent])
  have halong : Along (step seconds) Recent (State.init (fun _ => 0) 0)
      (edited ++ (build 0 0 ++ reused)) := by
    refine hedited.append rfl (.cons ?_ rfl (hreused _))
    intro r epoch h n hn
    cases h
    obtain ⟨i, b, hb, -, -, rfl⟩ := hn
    have hmem : b ∈ [Announced.mk (.policy "p") 1 0] := List.mem_of_getElem? hb
    rw [List.mem_singleton.1 hmem]
    exact le_rfl
  obtain ⟨s, hs, hlength⟩ : ∃ s, exec (step seconds) (State.init (fun _ => 0) 0)
      (edited ++ (build 0 0 ++ reused)) = some s ∧ s.served.length = 2 := ⟨_, rfl, rfl⟩
  exact ⟨s, hs, hlength, bundles_fresh (fun _ => le_rfl) (reach_exec hs halong)⟩

end RuleMind.Serving
