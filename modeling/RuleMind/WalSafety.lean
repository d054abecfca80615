/-
  What the write-ahead log keeps.

  `Careful` singles out the steps that go wrong; kills are not restricted.  The invariant `Inv` is
  kept worker by worker: a step of one is `Confined` to it, its file and the database.
-/
import RuleMind.DecisionWal

namespace RuleMind.Wal

/-! ### Reading what was written -/

@[simp] theorem readEntries_nil : readEntries [] = [] := rfl

@[simp] theorem readEntries_append (ls ms : List Line) :
    readEntries (ls ++ ms) = readEntries ls ++ readEntries ms :=
  List.filterMap_append

@[simp] theorem readEntries_map_entry (es : List Entry) : readEntries (es.map .entry) = es := by
  simp [readEntries, List.filterMap_map]

@[simp] theorem ids_append (es fs : List Entry) : ids (es ++ fs) = ids es ++ ids fs :=
  List.map_append

variable {i : String} {ls : List Line} {s s' : State}

theorem mem_ids {es : List Entry} : i ∈ ids es ↔ ∃ e ∈ es, e.id = i := List.mem_map

theorem readEntries_dropLast (h : ls.getLast? = some .torn) :
    readEntries ls.dropLast = readEntries ls := by
  obtain ⟨ms, rfl⟩ := List.getLast?_eq_some_iff.1 h
  simp [readEntries]

theorem readEntries_subset_writeEntry (ls : List Line) (e : Entry) :
    readEntries ls ⊆ readEntries (writeEntry ls e) := by
  grind [writeEntry, readEntries_append, readEntries_dropLast]

theorem readEntries_subset_foldl (es : List Entry) (ls : List Line) :
    readEntries ls ⊆ readEntries (es.foldl writeEntry ls) := by
  induction es generalizing ls with
  | nil => exact List.Subset.refl _
  | cons e es ih => exact List.Subset.trans (readEntries_subset_writeEntry ls e) (ih _)

theorem readEntries_subset_writeEntries (ls : List Line) (es : List Entry) (n : ℕ) (cut : Bool) :
    readEntries ls ⊆ readEntries (writeEntries ls es n cut) := by
  unfold writeEntries
  grind [readEntries_subset_foldl, readEntries_append]

theorem writeEntry_of_not_torn (h : Line.torn ∉ ls) (e : Entry) :
    writeEntry ls e = ls ++ [Line.entry e] :=
  if_neg fun hl => h (List.mem_of_getLast? hl)

theorem foldl_writeEntry_of_not_torn (es : List Entry) (h : Line.torn ∉ ls) :
    es.foldl writeEntry ls = ls ++ es.map .entry := by
  induction es generalizing ls with
  | nil => simp
  | cons e es ih =>
    rw [List.foldl_cons, writeEntry_of_not_torn h, ih (by simpa using h)]
    simp

theorem writeEntries_all (h : Line.torn ∉ ls) (es : List Entry) :
    writeEntries ls es es.length false = ls ++ es.map .entry := by
  simp [writeEntries, foldl_writeEntry_of_not_torn _ h]

theorem ids_upsert (e : Entry) (es : List Entry) (i : String) :
    i ∈ ids (upsert e es) ↔ i = e.id ∨ i ∈ ids es := by
  induction es with
  | nil => simp [upsert, ids]
  | cons d ds ih => grind [upsert, ids]

theorem ids_byId_aux (es m : List Entry) (i : String) :
    i ∈ ids (es.foldl (fun m e => upsert e m) m) ↔ i ∈ ids es ∨ i ∈ ids m := by
  induction es generalizing m with
  | nil => simp [ids]
  | cons e es ih =>
    rw [List.foldl_cons, ih, ids_upsert]
    simp only [ids, List.map_cons, List.mem_cons]
    tauto

theorem ids_byId (es : List Entry) (i : String) : i ∈ ids (byId es) ↔ i ∈ ids es := by
  rw [byId, ids_byId_aux]
  simp [ids]

/-! ### State updates -/

section Updates
variable (s : State) (w p : ℕ) (ph : Phase) (ls : List Line) (ret : Option Entry)

@[simp] theorem setPhase_db : (s.setPhase w ph).db = s.db := rfl
@[simp] theorem setPhase_file : (s.setPhase w ph).file = s.file := rfl
@[simp] theorem setPhase_lock : (s.setPhase w ph).lock = s.lock := rfl
@[simp] theorem setPhase_deadLetter : (s.setPhase w ph).deadLetter = s.deadLetter := rfl
@[simp] theorem setPhase_acked : (s.setPhase w ph).acked = s.acked := rfl
@[simp] theorem setPhase_worker :
    (s.setPhase w ph).worker = Function.update s.worker w { s.worker w with phase := ph } := rfl

@[simp] theorem setLines_db : (s.setLines p ls).db = s.db := rfl
@[simp] theorem setLines_worker : (s.setLines p ls).worker = s.worker := rfl
@[simp] theorem setLines_lock : (s.setLines p ls).lock = s.lock := rfl
@[simp] theorem setLines_deadLetter : (s.setLines p ls).deadLetter = s.deadLetter := rfl
@[simp] theorem setLines_acked : (s.setLines p ls).acked = s.acked := rfl
@[simp] theorem setLines_file :
    (s.setLines p ls).file = Function.update s.file p { s.file p with lines := ls } := rfl

@[simp] theorem unlock_db : (s.unlock w).db = s.db := rfl
@[simp] theorem unlock_worker : (s.unlock w).worker = s.worker := rfl
@[simp] theorem unlock_file : (s.unlock w).file = s.file := rfl
@[simp] theorem unlock_deadLetter : (s.unlock w).deadLetter = s.deadLetter := rfl
@[simp] theorem unlock_acked : (s.unlock w).acked = s.acked := rfl
@[simp] theorem unlock_lock :
    (s.unlock w).lock p = if s.lock p = some w then none else s.lock p := rfl

@[simp] theorem ret_db : (s.ret w ret).db = s.db := by cases ret <;> rfl
@[simp] theorem ret_file : (s.ret w ret).file = s.file := by cases ret <;> rfl
@[simp] theorem ret_lock : (s.ret w ret).lock = s.lock := by cases ret <;> rfl
@[simp] theorem ret_deadLetter : (s.ret w ret).deadLetter = s.deadLetter := by cases ret <;> rfl

theorem ret_worker_ne {v : ℕ} (h : v ≠ w) : (s.ret w ret).worker v = s.worker v := by
  cases ret with
  | none => rfl
  | some e => exact Function.update_of_ne h _ _

theorem ret_worker_self : ∃ pending,
    (s.ret w ret).worker w = { s.worker w with pending := pending } := by
  cases ret with
  | none => exact ⟨_, rfl⟩
  | some e => exact ⟨_, Function.update_self ..⟩

theorem mem_ret_acked {i : String} :
    i ∈ (s.ret w ret).acked ↔ i ∈ s.acked ∨ ∃ e, ret = some e ∧ e.id = i := by
  cases ret with
  | none => simp [State.ret]
  | some e => simp [State.ret, or_comm, eq_comm]

end Updates

/-! ### The invariant -/

/-- The phases of a process that has started to serve and is alive. -/
def Phase.Serving : Phase → Prop
  | .fresh | .booting | .recovering _ | .down => False
  | _ => True

/-- Worker `w` has file `p` open: its own one, or the one it recovers. -/
def State.Holds (s : State) (w p : ℕ) : Prop :=
  ((s.worker w).phase.Serving ∧ (s.worker w).opened = true ∧ p = w) ∨
    ∃ r, (s.worker w).phase = .recovering r ∧ p = r.path

/-- What the locals of a worker say about the file it holds: no id of the file
    is forgotten between reading it and writing it back. -/
def State.PhaseOk (s : State) (w : ℕ) : Phase → Prop
  | .creating _ => (s.worker w).opened = true ∧ s.lock w = none
  | .appending _ => (s.worker w).opened = true
  | .locked ret => ∀ e, ret = some e → (s.worker w).opened = true ∧ e.id ∈ ids (s.entries w)
  | .readBack ret kept =>
    (s.worker w).opened = true ∧ (∀ e, ret = some e → e.id ∈ ids (s.entries w)) ∧
      ∀ i ∈ ids (s.entries w), i ∈ s.db ∨ i ∈ ids kept
  | .truncated ret kept =>
    (s.worker w).opened = true ∧ ∀ e, ret = some e → e.id ∈ s.db ∨ e.id ∈ ids kept
  | .recovering r =>
    (s.worker w).opened = false ∧ (r.stage ≠ .cleared → ∀ i ∈ ids (s.entries r.path),
      i ∈ s.db ∨ i ∈ ids r.todo ∨ i ∈ ids (r.failed ++ r.deadLettered))
  | .fresh | .booting => (s.worker w).opened = false
  | _ => True

/-- The invariant at worker `w`. -/
structure Own (s : State) (w : ℕ) : Prop where
  marks : ∀ i, i ∈ (s.worker w).committed ∨ i ∈ (s.worker w).landed → i ∈ s.db
  linked : ∀ p, s.Holds w p → (s.file p).linked = true
  lock : ∀ p, s.Holds w p → (∀ e, (s.worker w).phase ≠ .creating e) → s.lock p = some w
  unborn : (s.worker w).opened = false → (s.file w).linked = false ∧ s.lock w = none
  clean : (s.worker w).phase.Serving → (s.worker w).opened = true → Line.torn ∉ (s.file w).lines
  phase : s.PhaseOk w (s.worker w).phase

structure Inv (s : State) : Prop where
  acked : ∀ i ∈ s.acked, s.Safe i
  own : ∀ w, Own s w
  excl : ∀ w v p, s.Holds w p → s.Holds v p → w = v

theorem inv_init : Inv State.init where
  acked := by simp [State.init]
  own w :=
    { marks := by simp [State.init]
      linked := by simp [State.init, State.Holds, Phase.Serving]
      lock := by simp [State.init, State.Holds, Phase.Serving]
      unborn := by simp [State.init]
      clean := by simp [State.init]
      phase := rfl }
  excl := by simp [State.init, State.Holds, Phase.Serving]

/-! ### Frames -/

/-- Nothing that could be read in `s` is gone in `s'`. -/
structure Grows (s s' : State) : Prop where
  db : s.db ⊆ s'.db
  dead : s.deadIds ⊆ s'.deadIds
  file : ∀ p, (s.file p).linked = true →
    (s'.file p).linked = true ∧ ids (s.entries p) ⊆ ids (s'.entries p)

theorem Grows.safe (h : Grows s s') (hi : s.Safe i) : s'.Safe i := by
  rcases hi with hi | ⟨p, hp, hi⟩ | hi
  · exact .inl (h.db hi)
  · exact .inr (.inl ⟨p, (h.file p hp).1, (h.file p hp).2 hi⟩)
  · exact .inr (.inr (h.dead hi))

theorem Inv.acked_of_grows (h : Inv s) (hg : Grows s s') (hi : i ∈ s.acked) : s'.Safe i :=
  hg.safe (h.acked i hi)

theorem Grows.refl_of_eq (hdb : s.db ⊆ s'.db) (hf : s'.file = s.file)
    (hd : s'.deadLetter = s.deadLetter) : Grows s s' where
  db := hdb
  dead := by unfold State.deadIds; rw [hd]; exact List.Subset.refl _
  file p hp := by
    unfold State.entries
    rw [hf]
    exact ⟨hp, List.Subset.refl _⟩

/-- A step of worker `v` that touches at most the file `o`. -/
structure Confined (s s' : State) (v : ℕ) (o : Option ℕ) : Prop where
  worker : ∀ w, w ≠ v → s'.worker w = s.worker w
  file : ∀ p, o ≠ some p → s'.file p = s.file p
  lock : ∀ p, o ≠ some p → s.lock p ≠ some v → s'.lock p = s.lock p
  db : s.db ⊆ s'.db
  mine : ∀ p, o = some p → ∀ w, w ≠ v → ¬ s.Holds w p ∧ ((s.worker w).opened = false → p ≠ w)

section Frame
variable {s s' : State} {v : ℕ} {o : Option ℕ}

variable {w p : ℕ}

theorem Confined.holds (hc : Confined s s' v o) (hw : w ≠ v) (p : ℕ) :
    s'.Holds w p ↔ s.Holds w p := by
  unfold State.Holds
  rw [hc.worker w hw]

theorem Confined.held (hc : Confined s s' v o) (h : Inv s) (hw : w ≠ v)
    (hp : s.Holds w p) : s'.file p = s.file p ∧ s'.lock p = s.lock p := by
  have ho : o ≠ some p := fun ho => (hc.mine p ho w hw).1 hp
  refine ⟨hc.file p ho, hc.lock p ho ?_⟩
  by_cases hcr : ∃ e, (s.worker w).phase = .creating e
  · obtain ⟨e, he⟩ := hcr
    have hl := (h.own w).phase
    rw [he] at hl
    rcases hp with ⟨-, -, rfl⟩ | ⟨r, hr, -⟩
    · rw [hl.2]; exact Option.some_ne_none _ |>.symm
    · rw [he] at hr; cases hr
  · rw [(h.own w).lock p hp (not_exists.1 hcr)]
    exact fun hwv => hw (Option.some.inj hwv)

theorem PhaseOk.frame {ph : Phase} (hw : (s'.worker w).opened = (s.worker w).opened)
    (hph : (s.worker w).phase = ph) (hdb : s.db ⊆ s'.db)
    (hf : ∀ p, s.Holds w p → s'.file p = s.file p ∧ s'.lock p = s.lock p)
    (h : s.PhaseOk w ph) : s'.PhaseOk w ph := by
  have hself : ph.Serving → (s.worker w).opened = true → s'.file w = s.file w ∧
      s'.lock w = s.lock w := fun hs ho => hf w (.inl ⟨hph ▸ hs, ho, rfl⟩)
  have hent : ∀ p, s'.file p = s.file p → s'.entries p = s.entries p := fun p hp => by
    unfold State.entries; rw [hp]
  cases ph with
  | creating e =>
    refine ⟨hw.trans h.1, ?_⟩
    rw [(hself trivial h.1).2]; exact h.2
  | appending e => exact hw.trans h
  | locked ret =>
    intro e he
    have := h e he
    refine ⟨hw.trans this.1, ?_⟩
    rw [hent _ (hself trivial this.1).1]; exact this.2
  | readBack ret kept =>
    have hw' := hent _ (hself trivial h.1).1
    refine ⟨hw.trans h.1, ?_, ?_⟩
    · rw [hw']; exact h.2.1
    · rw [hw']; exact fun i hi => (h.2.2 i hi).imp_left fun hi => hdb hi
  | truncated ret kept => exact ⟨hw.trans h.1, fun e he => (h.2 e he).imp_left fun hi => hdb hi⟩
  | recovering r =>
    refine ⟨hw.trans h.1, fun hst => ?_⟩
    rw [hent _ (hf r.path (.inr ⟨r, hph, rfl⟩)).1]
    exact fun i hi => (h.2 hst i hi).imp_left fun hi => hdb hi
  | fresh => exact hw.trans h
  | booting => exact hw.trans h
  | idle => trivial
  | down => trivial

theorem Own.frame (hc : Confined s s' v o) (h : Inv s) (hw : w ≠ v) : Own s' w where
  marks := by rw [hc.worker w hw]; exact fun i hi => hc.db ((h.own w).marks i hi)
  linked p hp := by
    have hp := (hc.holds hw p).1 hp
    rw [(hc.held h hw hp).1]; exact (h.own w).linked p hp
  lock p hp hcr := by
    have hp := (hc.holds hw p).1 hp
    rw [hc.worker w hw] at hcr
    rw [(hc.held h hw hp).2]; exact (h.own w).lock p hp hcr
  unborn := by
    rw [hc.worker w hw]
    intro ho
    have hu := (h.own w).unborn ho
    have hne : o ≠ some w := fun he => (hc.mine w he w hw).2 ho rfl
    rw [hc.file w hne, hc.lock w hne (by rw [hu.2]; exact Option.some_ne_none _ |>.symm)]
    exact hu
  clean := by
    rw [hc.worker w hw]
    intro hs ho
    rw [(hc.held h hw (.inl ⟨hs, ho, rfl⟩)).1]
    exact (h.own w).clean hs ho
  phase := by
    rw [hc.worker w hw]
    exact PhaseOk.frame (by rw [hc.worker w hw]) rfl hc.db (fun p hp => hc.held h hw hp) (h.own w).phase

/-- **One worker moves.**  The invariant is kept if the worker that moves keeps
    its own part, takes no file another one has, and every acknowledged id is safe. -/
theorem Inv.confined (h : Inv s) (hc : Confined s s' v o) (hown : Own s' v)
    (hex : ∀ p, s'.Holds v p → s.Holds v p ∨ o = some p) (hacked : ∀ i ∈ s'.acked, s'.Safe i) :
    Inv s' where
  acked := hacked
  own w := by grind [Own.frame]
  excl := by
    have hv : ∀ w p, s'.Holds w p → s'.Holds v p → w = v := by
      intro w p hwp hvp
      by_contra hw
      have hwp := (hc.holds hw p).1 hwp
      rcases hex p hvp with hvp | ho
      · exact hw (h.excl w v p hwp hvp)
      · exact (hc.mine p ho w hw).1 hwp
    intro w u p hwp hup
    by_cases hw : w = v
    · exact (hw ▸ hv u p hup (hw ▸ hwp)).symm
    · by_cases hu : u = v
      · subst hu; exact hv w p hwp hup
      · exact h.excl w u p ((hc.holds hw p).1 hwp) ((hc.holds hu p).1 hup)

theorem Inv.mine (h : Inv s) (hp : s.Holds v p) : ∀ w, w ≠ v →
    ¬ s.Holds w p ∧ ((s.worker w).opened = false → p ≠ w) := by
  intro w hw
  refine ⟨fun hwp => hw (h.excl w v p hwp hp), fun ho he => ?_⟩
  have hl := (h.own v).linked p hp
  rw [he, ((h.own w).unborn ho).1] at hl
  cases hl

theorem Inv.quiet (h : Inv s) (hw : ∀ w, w ≠ v → s'.worker w = s.worker w)
    (hf : s'.file = s.file) (hl : s'.lock = s.lock) (hdb : s.db ⊆ s'.db)
    (hop : (s'.worker v).opened = (s.worker v).opened)
    (hcr : (∀ e, (s'.worker v).phase ≠ .creating e) → ∀ e, (s.worker v).phase ≠ .creating e)
    (hex : ∀ p, s'.Holds v p → s.Holds v p)
    (hmarks : ∀ i, i ∈ (s'.worker v).committed ∨ i ∈ (s'.worker v).landed → i ∈ s'.db)
    (hphase : s'.PhaseOk v (s'.worker v).phase) (hacked : ∀ i ∈ s'.acked, s'.Safe i) :
    Inv s' := by
  have hc : Confined s s' v none :=
    { worker := hw
      file := fun p _ => by rw [hf]
      lock := fun p _ _ => by rw [hl]
      db := hdb
      mine := fun p hp => by cases hp }
  refine h.confined hc ?_ (fun p hp => .inl (hex p hp)) hacked
  exact
    { marks := hmarks
      linked := fun p hp => by rw [hf]; exact (h.own v).linked p (hex p hp)
      lock := fun p hp h' => by rw [hl]; exact (h.own v).lock p (hex p hp) (hcr h')
      unborn := fun ho => by rw [hf, hl]; exact (h.own v).unborn (hop ▸ ho)
      clean := fun hs ho => by
        rw [hf]
        rcases hex v (.inl ⟨hs, ho, rfl⟩) with ⟨hs, ho, -⟩ | ⟨r, hr, -⟩
        · exact (h.own v).clean hs ho
        · have hr' := (h.own v).phase
          rw [hr] at hr'
          rw [hop, hr'.1] at ho
          cases ho
      phase := hphase }

theorem Inv.ownFile (h : Inv s) (hv : s.Holds v v) (hw : ∀ w, w ≠ v → s'.worker w = s.worker w)
    {ls : List Line} (hf : s'.file = Function.update s.file v { s.file v with lines := ls })
    (hl : s'.lock = s.lock) (hdb : s.db ⊆ s'.db)
    (hserv : (s'.worker v).phase.Serving) (hop : (s'.worker v).opened = true)
    (hcr : ∀ e, (s.worker v).phase ≠ .creating e)
    (hmarks : ∀ i, i ∈ (s'.worker v).committed ∨ i ∈ (s'.worker v).landed → i ∈ s'.db)
    (hls : Line.torn ∉ ls) (hphase : s'.PhaseOk v (s'.worker v).phase)
    (hacked : ∀ i ∈ s'.acked, s'.Safe i) : Inv s' := by
  have hc : Confined s s' v (some v) :=
    { worker := hw
      file := fun p hp => by
        rw [hf, Function.update_of_ne]
        rintro rfl; exact hp rfl
      lock := fun p _ _ => by rw [hl]
      db := hdb
      mine := fun p hp => by cases hp; exact h.mine hv }
  have hex : ∀ p, s'.Holds v p → p = v := by
    rintro p (⟨-, -, hp⟩ | ⟨r, hr, -⟩)
    · exact hp
    · rw [hr] at hserv; exact hserv.elim
  refine h.confined hc ?_ (fun p hp => .inl (hex p hp ▸ hv)) hacked
  exact
    { marks := hmarks
      linked := fun p hp => by rw [hex p hp, hf, Function.update_self]; exact (h.own v).linked v hv
      lock := fun p hp _ => by rw [hex p hp, hl]; exact (h.own v).lock v hv hcr
      unborn := fun ho => by rw [hop] at ho; cases ho
      clean := fun _ _ => by rw [hf, Function.update_self]; exact hls
      phase := hphase }

theorem Inv.release (h : Inv s) (hc : Confined s s' v o)
    (hl : ∀ p, s'.lock p = if s.lock p = some v then none else s.lock p)
    (hfile : (s'.file v).linked = true → (s.file v).linked = true)
    (hop : (s'.worker v).opened = (s.worker v).opened)
    (hmarks : ∀ i, i ∈ (s'.worker v).committed ∨ i ∈ (s'.worker v).landed → i ∈ s'.db)
    (hph : (s'.worker v).phase = .down ∨
      (s'.worker v).phase = .booting ∧ (s.worker v).opened = false)
    (hacked : ∀ i ∈ s'.acked, s'.Safe i) : Inv s' := by
  have hserv : ¬ (s'.worker v).phase.Serving := by
    rcases hph with hd | ⟨hb, -⟩
    · rw [hd]; exact id
    · rw [hb]; exact id
  have hex : ∀ p, ¬ s'.Holds v p := by
    rintro p (⟨hs, -, -⟩ | ⟨r, hr, -⟩)
    · exact hserv hs
    · simp_all
  refine h.confined hc ?_ (fun p hp => (hex p hp).elim) hacked
  exact
    { marks := hmarks
      linked := fun p hp => (hex p hp).elim
      lock := fun p hp => (hex p hp).elim
      unborn := fun ho => by
        have hu := (h.own v).unborn (hop ▸ ho)
        simp_all
      clean := fun hs => (hserv hs).elim
      phase := by
        rcases hph with hd | ⟨hb, hop'⟩
        · rw [hd]; trivial
        · rw [hb]
          change (s'.worker v).opened = false
          rw [hop, hop'] }

end Frame

/-- The entries worker `w` has read and means to write back or has dead-lettered. -/
def State.owed (s : State) (w : ℕ) : List Entry :=
  match (s.worker w).phase with
  | .readBack _ kept => kept
  | .recovering r => r.failed ++ r.deadLettered
  | _ => []

def Phase.isCreating : Phase → Bool
  | .creating _ => true
  | _ => false

/-- A file is emptied or removed only when each acknowledged decision owed to it
    is in the database or in the dead-letter file, and a recovery locks no file
    whose living owner is about to lock it. -/
def Careful (s : State) : Act → Prop
  | .truncate w | .recoverTruncate w | .recoverRemove w =>
    ∀ e ∈ s.owed w, e.id ∈ s.acked → e.id ∈ s.db ∨ e.id ∈ s.deadIds
  | .recoverOpen _ p => (s.worker p).phase.isCreating = false
  | _ => True

instance (s : State) (a : Act) : Decidable (Careful s a) := by
  cases a <;> dsimp only [Careful] <;> infer_instance

/-! ### Steps that leave the files alone -/

section Steps
variable {c : Env} {s s' : State} {w : ℕ}

theorem holds_of_phase (ph : Phase) (hph : (s'.worker w).phase = ph)
    (hop : (s'.worker w).opened = (s.worker w).opened)
    (hs : ph.Serving → (s.worker w).opened = true → (s.worker w).phase.Serving)
    (hr : ∀ r, ph = .recovering r → ∃ r', (s.worker w).phase = .recovering r' ∧ r'.path = r.path)
    (p : ℕ) (h : s'.Holds w p) : s.Holds w p := by
  rcases h with ⟨hs', ho, hp⟩ | ⟨r, hr', hp⟩
  · exact .inl ⟨hs (hph ▸ hs') (hop ▸ ho), hop ▸ ho, hp⟩
  · obtain ⟨r', h', hpath⟩ := hr r (hph ▸ hr')
    exact .inr ⟨r', h', hp.trans hpath.symm⟩

theorem Inv.setPhase (h : Inv s) {ph : Phase} (hcr : ∀ e, (s.worker w).phase ≠ .creating e)
    (hs : ph.Serving → (s.worker w).opened = true → (s.worker w).phase.Serving)
    (hr : ∀ r, ph = .recovering r → ∃ r', (s.worker w).phase = .recovering r' ∧ r'.path = r.path)
    (hphase : (s.setPhase w ph).PhaseOk w ph) : Inv (s.setPhase w ph) := by
  refine h.quiet (fun u hu => by simp [hu]) rfl rfl (List.Subset.refl _) (by simp) (fun _ => hcr)
    (holds_of_phase ph (by simp) (by simp) hs hr) (by simpa using (h.own w).marks)
    (by simpa using hphase) ?_
  exact fun i hi => h.acked_of_grows (Grows.refl_of_eq (List.Subset.refl _) rfl rfl) hi

theorem boot_inv (h : Inv s) (hs : boot s w = some s') : Inv s' := by
  unfold boot at hs
  split at hs
  · next hph =>
    cases hs
    have hop := (h.own w).phase
    rw [hph] at hop
    exact h.setPhase (by simp [hph]) (fun hf => hf.elim) (fun r hr => by cases hr)
      (by simpa [State.PhaseOk] using hop)
  · cases hs

theorem serve_inv (h : Inv s) (hs : serve s w = some s') : Inv s' := by
  unfold serve at hs
  split at hs
  · next hph =>
    cases hs
    have hop : (s.worker w).opened = false := by
      have := (h.own w).phase
      rwa [hph] at this
    exact h.setPhase (by simp [hph]) (fun _ ho => by rw [hop] at ho; cases ho)
      (fun r hr => by cases hr) trivial
  · cases hs

theorem create_inv (h : Inv s) (hph : (s.worker w).phase = .idle)
    (hop : (s.worker w).opened = false) (e : Entry) :
    Inv { s with
      file := Function.update s.file w ⟨true, []⟩
      worker := Function.update s.worker w
        { s.worker w with phase := .creating e, opened := true } } := by
  obtain ⟨hlinked, hlock⟩ := (h.own w).unborn hop
  refine h.confined (v := w) (o := some w) ?_ ?_ ?_ ?_
  · exact
      { worker := fun u hu => by simp [hu]
        file := fun p hp => by grind
        lock := fun p _ _ => rfl
        db := List.Subset.refl _
        mine := fun p hp u hu => by
          cases hp
          refine ⟨fun hup => ?_, fun _ => Ne.symm hu⟩
          rw [(h.own u).linked _ hup] at hlinked
          cases hlinked }
  · exact
      { marks := by simpa using (h.own w).marks
        linked := by
          rintro p (⟨-, -, rfl⟩ | ⟨r, hr, -⟩)
          · simp
          · simp at hr
        lock := fun p _ hcr => by simp at hcr
        unborn := by simp
        clean := by simp
        phase := by simp [State.PhaseOk, hlock] }
  · rintro p (⟨-, -, rfl⟩ | ⟨r, hr, -⟩)
    · exact .inr rfl
    · simp at hr
  · intro i hi
    refine Grows.safe ?_ (h.acked i hi)
    refine ⟨List.Subset.refl _, List.Subset.refl _, fun p hp => ?_⟩
    grind [State.entries]

theorem append_inv {r : Record} {t : Option String} (h : Inv s)
    (hs : append s w r t = some s') : Inv s' := by
  unfold append at hs
  split at hs
  · next hph =>
    split at hs
    · cases hs; exact h
    · dsimp only at hs
      split at hs
      · next hop =>
        cases hs
        exact h.setPhase (by simp [hph]) (fun _ _ => by rw [hph]; trivial)
          (fun r hr => by cases hr) (by simpa [State.PhaseOk] using hop)
      grind -ring -linarith [create_inv]
  · cases hs

theorem leave_inv (h : Inv s) (hs : leave c s w = some s') : Inv s' := by
  unfold leave at hs
  split at hs
  · next ret hph =>
    split at hs
    · cases hs
    · cases hs
      have hret := (h.own w).phase
      rw [hph] at hret
      obtain ⟨pending, hwk⟩ := ret_worker_self (s.setPhase w .idle) w ret
      simp only [setPhase_worker, Function.update_self] at hwk
      refine h.quiet (v := w) ?_ (by simp) (by simp) (by simp) (by simp [hwk]) (by simp [hph])
        ?_ ?_ ?_ ?_
      · simp_all [ret_worker_ne]
      · exact holds_of_phase .idle (by simp [hwk]) (by simp [hwk])
          (fun _ _ => by rw [hph]; trivial) (fun r hr => by cases hr)
      · simpa [hwk] using (h.own w).marks
      · rw [hwk]; trivial
      · intro i hi
        have hg : Grows s ((s.setPhase w .idle).ret w ret) :=
          Grows.refl_of_eq (by simp) (by simp) (by simp)
        rcases (mem_ret_acked _ _ _).1 hi with hi | ⟨e, he, rfl⟩
        · exact hg.safe (h.acked i hi)
        · obtain ⟨hop, hmem⟩ := hret e he
          have hlk := (h.own w).linked w (.inl ⟨by rw [hph]; trivial, hop, rfl⟩)
          exact hg.safe (.inr (.inl ⟨w, hlk, hmem⟩))
  · cases hs

/-- What compaction drops is in the database, so that every id of the file is
    there or among the lines kept. -/
theorem readBack_inv (h : Inv s) (hs : readBack c s w = some s') : Inv s' := by
  unfold readBack at hs
  split at hs
  · next ret hph =>
    split at hs
    · next hdue =>
      cases hs
      have hop : (s.worker w).opened = true := by
        unfold compactDue at hdue
        exact (Bool.and_eq_true_iff.1 hdue).1
      have hret := (h.own w).phase
      rw [hph] at hret
      refine h.setPhase (by simp [hph]) (fun _ _ => by rw [hph]; trivial)
        (fun r hr => by cases hr) ⟨by simpa using hop, fun e he => (hret e he).2, ?_⟩
      intro i hi
      obtain ⟨e, he, rfl⟩ := mem_ids.1 hi
      by_cases hc : e.id ∈ (s.worker w).committed
      · exact .inl ((h.own w).marks _ (.inl hc))
      · exact .inr (mem_ids.2 ⟨e, List.mem_filter.2 ⟨he, by simpa using hc⟩, rfl⟩)
    · cases hs
  · cases hs

variable {i : String} {arrived : Bool}

theorem mem_addFailed_db {j : String} (hj : j ∈ s.db) : j ∈ (addFailed s i arrived).db := by
  unfold addFailed
  split
  · exact List.mem_insert_of_mem hj
  · exact hj

theorem addFailed_eq (i : String) (arrived : Bool) :
    addFailed s i arrived = { s with db := (addFailed s i arrived).db } := by
  unfold addFailed
  split <;> rfl

theorem addDecision_eq {t : State} (hs : addDecision s i = some t) :
    t = { s with db := i :: s.db } := by
  unfold addDecision at hs
  simp_all

variable {db : List String} {p n : ℕ} {r : Recovery} {cut : Bool}

theorem Inv.setDb (h : Inv s) (hdb : s.db ⊆ db) {wk : Worker}
    (hph : wk.phase = (s.worker w).phase) (hop : wk.opened = (s.worker w).opened)
    (hmarks : ∀ i, i ∈ wk.committed ∨ i ∈ wk.landed → i ∈ db) :
    Inv { s with db := db, worker := Function.update s.worker w wk } := by
  refine h.quiet (v := w) (fun u hu => by simp [hu]) rfl rfl hdb (by simpa using hop)
    (by simp [hph]) ?_ (by simpa using hmarks) ?_ ?_
  · simp [State.Holds, hph, hop]
  · simp only [Function.update_self, hph]
    exact PhaseOk.frame (by simpa using hop) rfl hdb (fun p _ => ⟨rfl, rfl⟩) (h.own w).phase
  · refine fun i hi => h.acked_of_grows ?_ hi
    exact Grows.refl_of_eq hdb rfl rfl

theorem commit_inv (h : Inv s) (hs : commit s w i = some s') : Inv s' := by
  unfold commit at hs
  split at hs
  · obtain ⟨t, ht, rfl⟩ := Option.map_eq_some_iff.1 hs
    rw [addDecision_eq ht]
    refine h.setDb (List.subset_cons_self _ _) rfl rfl fun j hj => ?_
    rcases hj with hj | hj
    · exact List.mem_cons_of_mem _ ((h.own w).marks j (.inl hj))
    · rcases List.mem_insert_iff.1 hj with rfl | hj
      · exact List.mem_cons_self
      · exact List.mem_cons_of_mem _ ((h.own w).marks j (.inr hj))
  · cases hs

theorem commitFails_inv (h : Inv s) (hs : commitFails s w i arrived = some s') : Inv s' := by
  unfold commitFails at hs
  split at hs
  · cases hs
    dsimp only
    rw [addFailed_eq]
    exact h.setDb (fun j hj => mem_addFailed_db hj) rfl rfl
      fun j hj => mem_addFailed_db ((h.own w).marks j hj)
  · cases hs

theorem markCommitted_inv (h : Inv s) (hs : markCommitted s w i = some s') : Inv s' := by
  unfold markCommitted at hs
  split at hs
  · next hi =>
    cases hs
    refine h.quiet (v := w) (fun u hu => by simp [hu]) rfl rfl (List.Subset.refl _) (by simp)
      (by simp [hi.1]) ?_ ?_ ?_ ?_
    · exact holds_of_phase (.locked none) (by simp) (by simp) (fun _ _ => by rw [hi.1]; trivial)
        (fun r hr => by cases hr)
    · simp only [Function.update_self]
      rintro j (hj | hj)
      · rcases List.mem_insert_iff.1 hj with rfl | hj
        · exact (h.own w).marks j (.inr hi.2)
        · exact (h.own w).marks j (.inl hj)
      · exact (h.own w).marks j (.inr (List.mem_of_mem_erase hj))
    · simp [State.PhaseOk]
    · exact fun i hi => h.acked_of_grows (Grows.refl_of_eq (List.Subset.refl _) rfl rfl) hi
  · cases hs

/-! ### Steps on the own file -/

theorem flock_inv (h : Inv s) (hs : flock s w = some s') : Inv s' := by
  unfold flock at hs
  split at hs
  · next e hph =>
    have hcr := (h.own w).phase
    rw [hph] at hcr
    have hself : s.Holds w w := .inl ⟨by rw [hph]; trivial, hcr.1, rfl⟩
    simp only [hcr.2, if_true, Option.some.injEq] at hs
    subst hs
    have hex : ∀ p, State.Holds { s.setPhase w (.appending e) with
        lock := Function.update s.lock w (some w) } w p → p = w := by
      rintro p (⟨-, -, hp⟩ | ⟨r, hr, -⟩)
      · exact hp
      · simp at hr
    refine h.confined (v := w) (o := some w) ?_ ?_ (fun p hp => .inr (by rw [hex p hp])) ?_
    · exact
        { worker := fun u hu => by simp [hu]
          file := fun p _ => rfl
          lock := fun p hp _ => Function.update_of_ne (fun he => hp (congrArg some he.symm)) _ _
          db := List.Subset.refl _
          mine := fun p hp => by cases hp; exact h.mine hself }
    · exact
        { marks := by simpa using (h.own w).marks
          linked := fun p hp => by rw [hex p hp]; exact (h.own w).linked w hself
          lock := fun p hp _ => by rw [hex p hp]; exact Function.update_self ..
          unborn := fun ho => by simp [hcr.1] at ho
          clean := fun _ _ => (h.own w).clean (by rw [hph]; trivial) hcr.1
          phase := by simpa [State.PhaseOk] using hcr.1 }
    · exact fun i hi => h.acked_of_grows (Grows.refl_of_eq (List.Subset.refl _) rfl rfl) hi
  · cases hs

theorem Grows.setLines {ls : List Line} (hdb : s.db ⊆ s'.db)
    (hf : s'.file = Function.update s.file p { s.file p with lines := ls })
    (hls : readEntries (s.file p).lines ⊆ readEntries ls)
    (hd : s'.deadLetter = s.deadLetter) : Grows s s' where
  db := hdb
  dead := by unfold State.deadIds; rw [hd]; exact List.Subset.refl _
  file q hq := by
    unfold State.entries
    rw [hf]
    by_cases hqp : q = p
    · subst hqp
      simp only [Function.update_self]
      exact ⟨hq, List.map_subset _ hls⟩
    simp_all

theorem writeLine_inv (h : Inv s) (hs : writeLine s w = some s') : Inv s' := by
  unfold writeLine at hs
  split at hs
  · next e hph =>
    cases hs
    have hop : (s.worker w).opened = true := by
      have := (h.own w).phase
      rwa [hph] at this
    have hserv : (s.worker w).phase.Serving := by rw [hph]; trivial
    have hclean := (h.own w).clean hserv hop
    rw [writeEntry_of_not_torn hclean]
    refine h.ownFile (.inl ⟨hserv, hop, rfl⟩) (fun u hu => by simp [hu]) rfl rfl
      (List.Subset.refl _) (by simp [Phase.Serving]) (by simpa using hop) (by simp [hph])
      (by simpa using (h.own w).marks) (by simpa using hclean) ?_ ?_
    · simp [State.PhaseOk, State.entries, hop, ids, readEntries]
    · refine fun i hi => h.acked_of_grows ?_ hi
      exact Grows.setLines (List.Subset.refl _) rfl (by simp) rfl
  · cases hs

/-- What was safe before file `p` was emptied or removed is safe afterwards, if
    each of its ids is in the database or the dead-letter file. -/
theorem State.Safe.drop (hi : s.Safe i) (p : ℕ) (hdb : s.db ⊆ s'.db)
    (hd : s'.deadLetter = s.deadLetter) (hf : ∀ q, q ≠ p → s'.file q = s.file q)
    (hp : i ∈ ids (s.entries p) → i ∈ s.db ∨ i ∈ s.deadIds) : s'.Safe i := by
  have hstored : i ∈ s.db ∨ i ∈ s.deadIds → s'.Safe i := by
    rintro (hi | hi)
    · exact .inl (hdb hi)
    · refine .inr (.inr ?_)
      unfold State.deadIds at hi ⊢
      rwa [hd]
  rcases hi with hi | ⟨q, hq, hi⟩ | hi
  · exact hstored (.inl hi)
  · by_cases hqp : q = p
    · exact hstored (hp (hqp ▸ hi))
    · refine .inr (.inl ⟨q, ?_⟩)
      simp_all [State.entries]
  · exact hstored (.inr hi)

theorem truncate_inv (h : Inv s) (hok : Careful s (.truncate w)) (hs : truncate s w = some s') :
    Inv s' := by
  unfold truncate at hs
  split at hs
  · next ret kept hph =>
    cases hs
    have hrb := (h.own w).phase
    rw [hph] at hrb
    obtain ⟨hop, hret, hids⟩ := hrb
    have hserv : (s.worker w).phase.Serving := by rw [hph]; trivial
    refine h.ownFile (.inl ⟨hserv, hop, rfl⟩) (fun u hu => by simp [hu]) rfl rfl
      (List.Subset.refl _) (by simp [Phase.Serving]) (by simpa using hop) (by simp [hph])
      (by simpa using (h.own w).marks) (List.not_mem_nil) ?_ ?_
    · simp_all [State.PhaseOk]
    · intro i hi
      refine (h.acked i hi).drop w (List.Subset.refl _) rfl
        (fun q hq => Function.update_of_ne hq _ _) (fun hmem => ?_)
      rcases hids i hmem with hi' | hi'
      · exact .inl hi'
      · obtain ⟨e, he, rfl⟩ := mem_ids.1 hi'
        exact hok e (by simpa [State.owed, hph] using he) hi
  · cases hs

theorem rewrite_inv (h : Inv s) (hs : rewrite s w = some s') : Inv s' := by
  unfold rewrite at hs
  split at hs
  · next ret kept hph =>
    cases hs
    have htr := (h.own w).phase
    rw [hph] at htr
    obtain ⟨hop, hret⟩ := htr
    have hserv : (s.worker w).phase.Serving := by rw [hph]; trivial
    have hclean := (h.own w).clean hserv hop
    dsimp only
    rw [writeEntries_all hclean]
    generalize ht : ({ s.setLines w ((s.file w).lines ++ kept.map .entry) with
      worker := Function.update s.worker w
        { s.worker w with phase := .idle, committed := [] } } : State) = t
    obtain ⟨pending, hwk⟩ := ret_worker_self t w ret
    have hg : Grows s (t.ret w ret) := by
      subst ht
      exact Grows.setLines (by simp) (by rw [ret_file]; rfl) (by simp) (by simp)
    have htw : t.worker w = { s.worker w with phase := .idle, committed := [] } := by
      subst ht; exact Function.update_self ..
    rw [htw] at hwk
    have hf : (t.ret w ret).file = Function.update s.file w
        { s.file w with lines := (s.file w).lines ++ kept.map .entry } := by
      subst ht; rw [ret_file]; rfl
    refine h.ownFile (.inl ⟨hserv, hop, rfl⟩) ?_ hf (by subst ht; simp) hg.db
      (by simp [hwk, Phase.Serving]) (by simpa [hwk] using hop) (by simp [hph]) ?_
      (by simpa using hclean) (by rw [hwk]; trivial) ?_
    · intro u hu
      subst ht
      rw [ret_worker_ne _ _ _ hu]
      simp [hu]
    · rw [hwk]
      rintro i (hi | hi)
      · cases hi
      · exact hg.db ((h.own w).marks i (.inr hi))
    · intro i hi
      rcases (mem_ret_acked _ _ _).1 hi with hi | ⟨e, he, rfl⟩
      · exact h.acked_of_grows hg (by subst ht; exact hi)
      · rcases hret e he with hdb | hk
        · exact .inl (hg.db hdb)
        · refine .inr (.inl ⟨w, ?_⟩)
          have hlk := (h.own w).linked w (.inl ⟨hserv, hop, rfl⟩)
          subst ht
          simp [State.entries, hlk, hk]
  · cases hs

/-! ### Recovery -/

theorem recoverOpen_inv (h : Inv s) (hok : Careful s (.recoverOpen w p))
    (hs : recoverOpen s w p = some s') : Inv s' := by
  unfold recoverOpen at hs
  split at hs
  · next hph =>
    split at hs
    · next hp =>
      cases hs
      obtain ⟨hlinked, hfree⟩ := hp
      have hop : (s.worker w).opened = false := by
        have := (h.own w).phase
        rwa [hph] at this
      have hpw : ∀ u, (s.worker u).opened = false → p ≠ u := fun u hu he => by
        rw [he, ((h.own u).unborn hu).1] at hlinked
        cases hlinked
      have hnobody : ∀ u, ¬ s.Holds u p := by
        intro u hu
        by_cases hcr : ∃ e, (s.worker u).phase = .creating e
        · obtain ⟨e, he⟩ := hcr
          rcases hu with ⟨-, -, rfl⟩ | ⟨r, hr, -⟩
          · simp [Careful, he, Phase.isCreating] at hok
          · rw [he] at hr; cases hr
        · rw [(h.own u).lock p hu (not_exists.1 hcr)] at hfree
          cases hfree
      dsimp only
      generalize hr : (⟨p, (byId (s.entries p)).filter fun e => !s.db.contains e.id, [], [],
        .replaying⟩ : Recovery) = r
      have hrp : r.path = p := by rw [← hr]
      have hex : ∀ q, State.Holds { s.setPhase w (.recovering r) with
          lock := Function.update s.lock p (some w) } w q → q = p := by
        rintro q (⟨hs, -, -⟩ | ⟨r', hr', hq⟩)
        · simp [Phase.Serving] at hs
        · simp_all
      refine h.confined (v := w) (o := some p) ?_ ?_ (fun q hq => .inr (by rw [hex q hq])) ?_
      · exact
          { worker := fun u hu => by simp [hu]
            file := fun q _ => rfl
            lock := fun q hq _ => Function.update_of_ne (fun he => hq (congrArg some he.symm)) _ _
            db := List.Subset.refl _
            mine := fun q hq u hu => by cases hq; exact ⟨hnobody u, hpw u⟩ }
      · exact
          { marks := by simpa using (h.own w).marks
            linked := fun q hq => by rw [hex q hq]; exact hlinked
            lock := fun q hq _ => by rw [hex q hq]; exact Function.update_self ..
            unborn := fun _ => by
              have hu := (h.own w).unborn hop
              exact ⟨hu.1, (Function.update_of_ne (hpw w hop).symm _ _).trans hu.2⟩
            clean := by simp [Phase.Serving]
            phase := by
              simp only [setPhase_worker, Function.update_self, State.PhaseOk]
              refine ⟨hop, fun _ i hi => ?_⟩
              rw [hrp] at hi
              by_cases hdb : i ∈ s.db
              · exact .inl hdb
              · obtain ⟨e, he, rfl⟩ := mem_ids.1 ((ids_byId _ _).2 hi)
                refine .inr (.inl (mem_ids.2 ⟨e, ?_, rfl⟩))
                rw [← hr]
                exact List.mem_filter.2 ⟨he, by simpa using hdb⟩ }
      · exact fun i hi => h.acked_of_grows (Grows.refl_of_eq (List.Subset.refl _) rfl rfl) hi
    · cases hs
  · cases hs

theorem Inv.recovery (h : Inv s) {r' : Recovery} (hph : (s.worker w).phase = .recovering r)
    (hpath : r'.path = r.path) {dead : List Line} (hdb : s.db ⊆ db)
    (hdead : readEntries s.deadLetter ⊆ readEntries dead)
    (hids : r'.stage ≠ .cleared → r.stage ≠ .cleared ∧ ∀ i,
      i ∈ s.db ∨ i ∈ ids r.todo ∨ i ∈ ids (r.failed ++ r.deadLettered) →
        i ∈ db ∨ i ∈ ids r'.todo ∨ i ∈ ids (r'.failed ++ r'.deadLettered)) :
    Inv (State.setPhase { s with db := db, deadLetter := dead } w (.recovering r')) := by
  have hok := (h.own w).phase
  rw [hph] at hok
  refine h.quiet (v := w) (fun u hu => by simp [hu]) rfl rfl hdb (by simp) (by simp [hph])
    ?_ ?_ ?_ ?_
  · refine holds_of_phase (.recovering r') (by simp) (by simp) (fun hf => hf.elim) ?_
    intro q hq
    cases hq
    exact ⟨r, hph, hpath.symm⟩
  · simpa using fun i hi => hdb ((h.own w).marks i hi)
  · simp only [setPhase_worker, Function.update_self, State.PhaseOk]
    refine ⟨hok.1, fun hst i hi => ?_⟩
    obtain ⟨hst', hids⟩ := hids hst
    rw [hpath] at hi
    exact hids i (hok.2 hst' i hi)
  · refine fun i hi => h.acked_of_grows ?_ hi
    exact ⟨hdb, List.map_subset _ hdead, fun p hp => ⟨hp, List.Subset.refl _⟩⟩

theorem replay_inv (h : Inv s) (hs : replay s w = some s') : Inv s' := by
  unfold replay at hs
  split at hs
  · next p e todo failed dead hph =>
    obtain ⟨t, ht, rfl⟩ := Option.map_eq_some_iff.1 hs
    rw [addDecision_eq ht]
    refine h.recovery hph ?_ (List.subset_cons_self _ _) (List.Subset.refl _) ?_
    · rfl
    refine fun hst => ⟨hst, fun i hi => ?_⟩
    rcases hi with hi | hi | hi
    · exact .inl (List.mem_cons_of_mem _ hi)
    · rcases List.mem_cons.1 hi with rfl | hi
      · exact .inl List.mem_cons_self
      · exact .inr (.inl hi)
    · exact .inr (.inr hi)
  · cases hs

section Except
variable (r : Recovery) (e : Entry) (exc : String)

theorem except_path : (r.except c e exc).path = r.path := by
  unfold Recovery.except; dsimp only; split <;> rfl

theorem except_todo : (r.except c e exc).todo = r.todo := by
  unfold Recovery.except; dsimp only; split <;> rfl

theorem ids_except (i : String) :
    i ∈ ids ((r.except c e exc).failed ++ (r.except c e exc).deadLettered) ↔
      i = e.id ∨ i ∈ ids (r.failed ++ r.deadLettered) := by
  unfold Recovery.except
  dsimp only
  split
  · simp only [ids, List.map_append, List.mem_append, List.map_cons, List.map_nil,
      List.mem_singleton, Entry.id]
    tauto
  · simp only [ids, List.map_append, List.mem_append, List.map_cons, List.map_nil,
      List.mem_singleton, Entry.id]
    tauto

end Except

theorem replayFails_inv {exc : String} (h : Inv s)
    (hs : replayFails c s w arrived exc = some s') : Inv s' := by
  unfold replayFails at hs
  split at hs
  · next p e todo failed dead hph =>
    cases hs
    rw [addFailed_eq]
    refine h.recovery hph ?_ (fun j hj => mem_addFailed_db hj) (List.Subset.refl _) ?_
    · exact except_path _ _ _
    refine fun _ => ⟨by simp, fun i hi => ?_⟩
    rw [except_todo, ids_except]
    rcases hi with hi | hi | hi
    · exact .inl (mem_addFailed_db hi)
    · rcases List.mem_cons.1 hi with rfl | hi
      · exact .inr (.inr (.inl rfl))
      · exact .inr (.inl hi)
    · exact .inr (.inr (.inr hi))
  · cases hs

theorem deadLetter_inv (h : Inv s) (hs : deadLetter s w n cut = some s') : Inv s' := by
  unfold deadLetter at hs
  split at hs
  · next p failed dead hph =>
    cases hs
    refine h.recovery hph ?_ (List.Subset.refl _) (readEntries_subset_writeEntries _ _ _ _) ?_
    · rfl
    · exact fun _ => ⟨by simp, fun i hi => hi⟩
  · cases hs

theorem stored_of_careful (h : Inv s) (hph : (s.worker w).phase = .recovering r)
    (htodo : r.todo = []) (hst : r.stage ≠ .cleared)
    (hok : ∀ e ∈ s.owed w, e.id ∈ s.acked → e.id ∈ s.db ∨ e.id ∈ s.deadIds)
    (hi : i ∈ s.acked) (hmem : i ∈ ids (s.entries r.path)) : i ∈ s.db ∨ i ∈ s.deadIds := by
  have hall := (h.own w).phase
  rw [hph] at hall
  rcases hall.2 hst i hmem with hdb | ht | hf
  · exact .inl hdb
  · rw [htodo] at ht; cases ht
  · obtain ⟨e, he, rfl⟩ := mem_ids.1 hf
    exact hok e (by simpa [State.owed, hph] using he) hi

theorem recoverTruncate_inv (h : Inv s) (hok : Careful s (.recoverTruncate w))
    (hs : recoverTruncate s w = some s') : Inv s' := by
  unfold recoverTruncate at hs
  split at hs
  · next p f failed dead hph =>
    cases hs
    have hself : s.Holds w p := .inr ⟨_, hph, rfl⟩
    have hop : (s.worker w).opened = false := by
      have := (h.own w).phase
      rw [hph] at this
      exact this.1
    have hpw : p ≠ w := fun he => by
      have := (h.own w).linked p hself
      rw [he, ((h.own w).unborn hop).1] at this
      cases this
    have hex : ∀ q, State.Holds ((s.setLines p []).setPhase w
        (.recovering ⟨p, [], f :: failed, dead, .cleared⟩)) w q → q = p := by
      rintro q (⟨hs, -, -⟩ | ⟨r', hr', hq⟩)
      · simp [Phase.Serving] at hs
      · simp only [setPhase_worker, Function.update_self, Phase.recovering.injEq] at hr'
        rw [hq, ← hr']
    refine h.confined (v := w) (o := some p) ?_ ?_ (fun q hq => .inr (by rw [hex q hq])) ?_
    · exact
        { worker := fun u hu => by simp [hu]
          file := fun q hq => Function.update_of_ne (fun he => hq (congrArg some he.symm)) _ _
          lock := fun q _ _ => rfl
          db := List.Subset.refl _
          mine := fun q hq => by cases hq; exact h.mine hself }
    · exact
        { marks := by simpa using (h.own w).marks
          linked := fun q hq => by rw [hex q hq]; simpa using (h.own w).linked p hself
          lock := fun q hq _ => by
            rw [hex q hq]
            exact (h.own w).lock p hself (by simp [hph])
          unborn := fun _ => by simpa [hpw.symm] using (h.own w).unborn hop
          clean := by simp [Phase.Serving]
          phase := by simpa [State.PhaseOk] using hop }
    · exact fun i hi => (h.acked i hi).drop p (List.Subset.refl _) rfl
        (fun q hq => Function.update_of_ne hq _ _)
        (stored_of_careful h hph rfl (by simp) hok hi)
  · cases hs

/-- A recovery that is done with its file lets go of it. -/
theorem Inv.letGo (h : Inv s) (hph : (s.worker w).phase = .recovering r) {f : File}
    (hf : f.linked = true → (s.file r.path).linked = true)
    (hacked : ∀ i ∈ s.acked, ((({ s with file := Function.update s.file r.path f }).setPhase w
      .booting).unlock w).Safe i) :
    Inv ((({ s with file := Function.update s.file r.path f }).setPhase w .booting).unlock w) := by
  have hself : s.Holds w r.path := .inr ⟨r, hph, rfl⟩
  have hop : (s.worker w).opened = false := by
    have := (h.own w).phase
    rw [hph] at this
    exact this.1
  refine h.release (v := w) (o := some r.path) ?_ (fun q => rfl) ?_ (by simp)
    (by simpa using (h.own w).marks) (.inr ⟨by simp, hop⟩) hacked
  · exact
      { worker := fun u hu => by simp [hu]
        file := fun q hq => Function.update_of_ne (fun he => hq (congrArg some he.symm)) _ _
        lock := fun q _ hq => if_neg hq
        db := List.Subset.refl _
        mine := fun q hq => by cases hq; exact h.mine hself }
  · by_cases hpw : w = r.path
    · simpa [hpw] using hf
    · simp [hpw]

theorem recoverRewrite_inv (h : Inv s) (hs : recoverRewrite s w = some s') : Inv s' := by
  unfold recoverRewrite at hs
  split at hs
  · next p todo failed dead hph =>
    cases hs
    refine h.letGo hph id fun i hi => h.acked_of_grows ?_ hi
    exact Grows.setLines (List.Subset.refl _) rfl (readEntries_subset_writeEntries _ _ _ _) rfl
  · cases hs

theorem recoverRemove_inv (h : Inv s) (hok : Careful s (.recoverRemove w))
    (hs : recoverRemove s w = some s') : Inv s' := by
  unfold recoverRemove at hs
  split at hs
  · next p dead hph =>
    cases hs
    exact h.letGo hph (fun hl => by cases hl) fun i hi =>
      (h.acked i hi).drop p (List.Subset.refl _) rfl (fun q hq => Function.update_of_ne hq _ _)
        (stored_of_careful h hph rfl (by simp) hok hi)
  · cases hs

/-! ### Kills -/

/-- An interrupted write touches the file its process holds, or the dead-letter
    file, and takes nothing away. -/
theorem interrupted_spec (h : Inv s) (n : ℕ) (cut : Bool) : ∃ o,
    (∀ p, o = some p → s.Holds w p) ∧
    (∀ p, o ≠ some p → (interrupted s w n cut).file p = s.file p) ∧
    ((interrupted s w n cut).file w).linked = (s.file w).linked ∧
    (interrupted s w n cut).lock = s.lock ∧ (interrupted s w n cut).worker = s.worker ∧
    (interrupted s w n cut).acked = s.acked ∧ Grows s (interrupted s w n cut) := by
  have hnone : ∃ o, (∀ p, o = some p → s.Holds w p) ∧ (∀ p, o ≠ some p → s.file p = s.file p) ∧
      (s.file w).linked = (s.file w).linked ∧ s.lock = s.lock ∧ s.worker = s.worker ∧
      s.acked = s.acked ∧ Grows s s :=
    ⟨none, fun p hp => (by cases hp), fun _ _ => rfl, rfl, rfl, rfl, rfl,
      Grows.refl_of_eq (List.Subset.refl _) rfl rfl⟩
  -- the four writes a kill can interrupt all extend the lines of one held file
  have hlines : ∀ p ls, s.Holds w p → readEntries (s.file p).lines ⊆ readEntries ls →
      ∃ o, (∀ q, o = some q → s.Holds w q) ∧
        (∀ q, o ≠ some q → (s.setLines p ls).file q = s.file q) ∧
        ((s.setLines p ls).file w).linked = (s.file w).linked ∧
        (s.setLines p ls).lock = s.lock ∧ (s.setLines p ls).worker = s.worker ∧
        (s.setLines p ls).acked = s.acked ∧ Grows s (s.setLines p ls) := by
    intro p ls hp hls
    refine ⟨some p, fun q hq => (by cases hq; exact hp), fun q hq => ?_, ?_, rfl, rfl, rfl,
      Grows.setLines (List.Subset.refl _) rfl hls rfl⟩
    · exact Function.update_of_ne (fun he => hq (congrArg some he.symm)) _ _
    · by_cases hwp : w = p
      · subst hwp; simp
      · simp [hwp]
  have hok := (h.own w).phase
  unfold interrupted
  split
  · next e hph =>
    rw [hph] at hok
    split
    · exact hlines w _ (.inl ⟨by rw [hph]; trivial, hok, rfl⟩) (by simp)
    · exact hnone
  · next ret kept hph =>
    rw [hph] at hok
    exact hlines w _ (.inl ⟨by rw [hph]; trivial, hok.1, rfl⟩)
      (readEntries_subset_writeEntries _ _ _ _)
  · next hph => exact hlines _ _ (.inr ⟨_, hph, rfl⟩) (readEntries_subset_writeEntries _ _ _ _)
  · next p failed dead hph =>
    refine ⟨none, fun p hp => (by cases hp), fun _ _ => rfl, rfl, rfl, rfl, rfl,
      List.Subset.refl _, ?_, fun p hp => ⟨hp, List.Subset.refl _⟩⟩
    exact List.map_subset _ (readEntries_subset_writeEntries _ _ _ _)
  · exact hnone

theorem crash_inv (h : Inv s) (hs : crash s w n cut = some s') : Inv s' := by
  cases hs
  obtain ⟨o, hheld, hfile, hlinked, hlock, hworker, hacked, hg⟩ := interrupted_spec (w := w) h n cut
  refine h.release (v := w) (o := o) ?_ ?_ ?_ ?_ ?_ (.inl ?_) ?_
  · exact
      { worker := fun u hu => by simp [hu, hworker]
        file := fun p hp => hfile p hp
        lock := fun p _ hp => by simp [hlock, hp]
        db := hg.db
        mine := fun p hp => h.mine (hheld p hp) }
  · intro p; simp [hlock]
  · intro hl; rw [← hlinked]; exact hl
  · simp [hworker]
  · simp
  · simp
  · intro i hi
    have hi : i ∈ s.acked := hacked ▸ hi
    refine h.acked_of_grows ?_ hi
    exact ⟨hg.db, hg.dead, hg.file⟩

/-! ### Runs -/

/-- **One step.**  Every careful step keeps the invariant. -/
theorem step_inv {a : Act} (h : Inv s) (hok : Careful s a) (hs : step c s a = some s') :
    Inv s' := by
  cases a with
  | boot w => exact boot_inv h hs
  | serve w => exact serve_inv h hs
  | append w r t => exact append_inv h hs
  | flock w => exact flock_inv h hs
  | writeLine w => exact writeLine_inv h hs
  | leave w => exact leave_inv h hs
  | readBack w => exact readBack_inv h hs
  | truncate w => exact truncate_inv h hok hs
  | rewrite w => exact rewrite_inv h hs
  | commit w i => exact commit_inv h hs
  | commitFails w i arrived => exact commitFails_inv h hs
  | markCommitted w i => exact markCommitted_inv h hs
  | recoverOpen w p => exact recoverOpen_inv h hok hs
  | replay w => exact replay_inv h hs
  | replayFails w arrived exc => exact replayFails_inv h hs
  | deadLetter w n cut => exact deadLetter_inv h hs
  | recoverTruncate w => exact recoverTruncate_inv h hok hs
  | recoverRewrite w => exact recoverRewrite_inv h hs
  | recoverRemove w => exact recoverRemove_inv h hok hs
  | crash w n cut => exact crash_inv h hs

end Steps

/-- **No acknowledged decision is lost in a careful run.**  Whatever is appended,
    committed, compacted, killed and recovered, in whatever order and by however
    many processes: while every step is `Careful`, each id whose `append` returned
    is in the database, in a WAL file on disk or in the dead-letter file. -/
theorem acked_safe_of_careful (c : Env) {s : State}
    (h : Lib.Reach (step c) Careful State.init s) : ∀ i ∈ s.acked, s.Safe i :=
  (Lib.Reach.invariant inv_init (fun _ _ _ hi hok hs => step_inv hi hok hs) h).acked

/-- Two decisions are appended and one is committed; the process is killed; its
    successor dead-letters the other one after a failed replay and removes the file. -/
def recoveryRun : List Act :=
  [.boot 0, .serve 0, .append 0 ⟨"a", none, ""⟩ none, .flock 0, .writeLine 0, .leave 0,
    .append 0 ⟨"b", none, ""⟩ (some "t"), .writeLine 0, .leave 0, .commit 0 "b", .crash 0 0 false,
    .boot 1, .recoverOpen 1 0, .replayFails 1 false "locked", .deadLetter 1 1 false,
    .recoverRemove 1]

theorem recoveryRun_enabled : (Lib.exec (step { maxReplayAttempts := 1 }) State.init
    recoveryRun).isSome = true := by decide

theorem recoveryRun_safe : ∃ s, Lib.Reach (step { maxReplayAttempts := 1 }) Careful State.init s ∧
    s.acked = ["b", "a"] ∧ s.Safe "a" ∧ s.Safe "b" := by
  have hreach := Lib.reach_exec (Option.some_get recoveryRun_enabled).symm
    (show Lib.Along _ Careful _ _ by decide)
  exact ⟨_, hreach, by decide, acked_safe_of_careful _ hreach _ (by decide),
    acked_safe_of_careful _ hreach _ (by decide)⟩

/-- Two decisions are appended, the second one is committed and marked, and the
    compaction that this starts has read the file back. -/
def compactionRun : List Act :=
  [.boot 0, .serve 0, .append 0 ⟨"a", none, ""⟩ none, .flock 0, .writeLine 0, .leave 0,
    .append 0 ⟨"b", none, ""⟩ none, .writeLine 0, .leave 0, .commit 0 "b", .markCommitted 0 "b",
    .readBack 0]

theorem compactionRun_enabled : (Lib.exec (step { compactEvery := 1 }) State.init
    (compactionRun ++ [Act.truncate 0, Act.crash 0 0 false])).isSome = true := by decide

/-- The process is killed after the truncation: `a` was acknowledged and never
    committed, and it is nowhere. -/
theorem compaction_loses_acked : ∃ s, Lib.Reachable (step { compactEvery := 1 }) State.init s ∧
    "a" ∈ s.acked ∧ ¬ s.Safe "a" := by
  refine ⟨_, Lib.reachable_exec (Option.some_get compactionRun_enabled).symm, by decide, ?_⟩
  rintro (h | ⟨p, hp, h⟩ | h)
  · exact absurd h (by decide)
  · cases p with
    | zero => exact absurd h (by decide)
    | succ p => cases hp
  · exact absurd h (by decide)

end RuleMind.Wal
