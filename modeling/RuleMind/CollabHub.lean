/-
  `app/collab_hub.py`: the documents of the collaborative editor, their version
  histories, and travel to an earlier version.

  An operation holds the hub's lock for the whole of what it does to a document, so
  that a run is a sequence of operations.  Presence, cursors and what is sent to the
  clients touch no document and are left out.

  A stamp is the document's counter plus a fraction made of the wall clock; the sum
  is exact here.
-/
import RuleMind.Crdt

namespace RuleMind

/-! ### The hub -/

/-- `time.time()`, in seconds: some time in the first 10¹² of them. -/
def Instant := {t : ℚ // 0 ≤ t ∧ t < 10 ^ 12}

structure Version where
  version : ℤ
  doc : PlainDoc
  actor : String
  ts : Instant
  label : String

structure HubDoc where
  state : CrdtDoc
  history : List Version
  clock : ℕ

namespace HubDoc

def fresh : HubDoc := ⟨∅, [], 0⟩

/-- `_next_ts`: the counter as it is after the call, and the stamp. -/
def nextTs (d : HubDoc) (now : Instant) : ℕ × Text.F64 :=
  (d.clock + 1, .finite ((d.clock + 1 : ℕ) + now.1 / 10 ^ 12))

/-- The two readings of the wall clock in an operation: for the stamp and for the history. -/
structure Clocks where
  stamp : Instant
  entry : Instant

def seed (d : HubDoc) (initial : PlainDoc) (clocks : Clocks) : HubDoc :=
  if d.history = [] then
    let (clock, ts) := d.nextTs clocks.stamp
    let state := toCrdt initial ts "__seed__"
    ⟨state, [⟨0, toPlain state, "__seed__", clocks.entry, "seed"⟩], clock⟩
  else d

/-- `join`, as far as it touches the document. -/
def join (d : HubDoc) (clocks : Clocks) : HubDoc := d.seed ∅ clocks

/-- `history[-1]["version"] + 1`, or 1. -/
def nextVersion (d : HubDoc) : ℤ :=
  match d.history.getLast? with
  | some last => last.version + 1
  | none => 1

/-- `label or "edit"`. -/
def labelOr (label : Option String) : String :=
  match label with
  | some l => if l = "" then "edit" else l
  | none => "edit"

def edit (d : HubDoc) (actor : String) (changes : PlainDoc) (label : Option String)
    (clocks : Clocks) : HubDoc :=
  let (clock, ts) := d.nextTs clocks.stamp
  let state := applyEdit d.state changes ts actor
  ⟨state, d.history ++ [⟨d.nextVersion, toPlain state, actor, clocks.entry, labelOr label⟩], clock⟩

/-- The loop of `doc_as_of` over the sorted history. -/
def chooseVersion (version : ℤ) : Option Version → List Version → Option Version
  | chosen, [] => chosen
  | chosen, e :: es => if e.version ≤ version then chooseVersion version (some e) es else chosen

def docAsOf (history : List Version) (version : ℤ) : Option PlainDoc :=
  (chooseVersion version none (history.mergeSort fun a b => a.version ≤ b.version)).map Version.doc

/-- `restore`: a version before the first one is nothing to restore. -/
def restore (d : HubDoc) (version : ℤ) (actor : String) (clocks : Clocks) : HubDoc :=
  match docAsOf d.history version with
  | none => d
  | some past => d.edit actor past (some ("restore v" ++ version.repr)) clocks

end HubDoc

abbrev CollabHub := Table (String × String) HubDoc

/-- `_doc`: a document is there once it is asked for. -/
def CollabHub.doc (hub : CollabHub) (key : String × String) : HubDoc := (hub.lookup key).getD .fresh

inductive HubOp
  | seed (initial : PlainDoc)
  | join
  | edit (actor : String) (changes : PlainDoc) (label : Option String)
  | restore (version : ℤ) (actor : String)

structure HubAction where
  tenantId : String
  docId : String
  op : HubOp
  clocks : HubDoc.Clocks

def HubAction.key (a : HubAction) : String × String := (a.tenantId, a.docId)

def HubDoc.step (d : HubDoc) (op : HubOp) (clocks : HubDoc.Clocks) : HubDoc :=
  match op with
  | .seed initial => d.seed initial clocks
  | .join => d.join clocks
  | .edit actor changes label => d.edit actor changes label clocks
  | .restore version actor => d.restore version actor clocks

def CollabHub.act (hub : CollabHub) (a : HubAction) : CollabHub :=
  hub.insert a.key ((hub.doc a.key).step a.op a.clocks)

theorem CollabHub.doc_act (hub : CollabHub) (a : HubAction) (key : String × String) :
    (hub.act a).doc key = if key = a.key then (hub.doc key).step a.op a.clocks else hub.doc key := by
  grind [act, doc, AList.lookup_insert, AList.lookup_insert_ne]

/-! ### Stamps and versions grow -/

structure Stamped (d : HubDoc) : Prop where
  below : ∀ k r, d.state.lookup k = some r → ∃ q, r.ts = .finite q ∧ q < (d.clock + 1 : ℕ)
  growing : d.history.Pairwise fun a b => a.version < b.version

theorem fresh_stamped : Stamped .fresh where
  below := by
    intro k r h
    cases h
  growing := .nil

theorem wins_later {r s : Register} {p q : ℚ} (hr : r.ts = .finite q) (hs : s.ts = .finite p)
    (h : q < p) : wins r s = s := by
  have hne : F64.ne r.ts s.ts = true := by
    rw [hr, hs]
    simp [F64.ne, h.ne]
  have hgt : F64.gt r.ts s.ts = false := by
    rw [hr, hs]
    simp [F64.gt, h.le]
  rw [wins, if_pos hne, hgt]
  rfl

section Step
variable {d : HubDoc} (h : Stamped d) (clocks : HubDoc.Clocks)
include h

theorem lookup_edit (actor : String) (changes : PlainDoc) (label : Option String) (k : String) :
    (d.edit actor changes label clocks).state.lookup k =
      match changes.lookup k with
      | some v => some (newField v (d.nextTs clocks.stamp).2 actor)
      | none => d.state.lookup k := by
  have hlater : ((d.clock + 1 : ℕ) : ℚ) ≤ (d.clock + 1 : ℕ) + clocks.stamp.1 / 10 ^ 12 :=
    le_add_of_nonneg_right (div_nonneg clocks.stamp.2.1 (by norm_num))
  show (applyEdit _ _ _ _).lookup k = _
  rw [lookup_applyEdit]
  cases changes.lookup k with
  | none => rfl
  | some v =>
    cases hk : d.state.lookup k with
    | none => rfl
    | some r =>
      obtain ⟨q, hq, hlt⟩ := h.below k r hk
      show some (wins _ _) = _
      rw [wins_later hq rfl (lt_of_lt_of_le hlt hlater)]
      rfl

theorem version_lt_next {e : Version} (he : e ∈ d.history) : e.version < d.nextVersion := by
  unfold HubDoc.nextVersion
  cases hl : d.history.getLast? with
  | none =>
    rw [List.getLast?_eq_none_iff.1 hl] at he
    cases he
  | some last =>
    obtain ⟨es, hes⟩ := List.getLast?_eq_some_iff.1 hl
    have hg := h.growing
    grind [List.mem_singleton_self]

theorem edit_stamped (actor : String) (changes : PlainDoc) (label : Option String) :
    Stamped (d.edit actor changes label clocks) where
  below := by
    have hfraction : clocks.stamp.1 / 10 ^ 12 < 1 := (div_lt_one (by norm_num)).2 clocks.stamp.2.2
    have hclock : (d.edit actor changes label clocks).clock = d.clock + 1 := rfl
    intro k r hk
    rw [lookup_edit h] at hk
    rw [hclock]
    cases hc : changes.lookup k with
    | none =>
      rw [hc] at hk
      obtain ⟨q, hq, hlt⟩ := h.below k r hk
      exact ⟨q, hq, hlt.trans (by push_cast; linarith)⟩
    | some v =>
      rw [hc] at hk
      cases hk
      refine ⟨_, rfl, ?_⟩
      push_cast
      linarith
  growing := by
    show (d.history ++ [_]).Pairwise _
    rw [List.pairwise_append]
    refine ⟨h.growing, List.pairwise_singleton _ _, fun e he f hf => ?_⟩
    rw [List.mem_singleton.1 hf]
    exact version_lt_next h he

theorem seed_stamped (initial : PlainDoc) : Stamped (d.seed initial clocks) := by
  unfold HubDoc.seed
  split_ifs with hnil
  · have hfraction : clocks.stamp.1 / 10 ^ 12 < 1 := (div_lt_one (by norm_num)).2 clocks.stamp.2.2
    refine ⟨fun k r hk => ?_, List.pairwise_singleton _ _⟩
    rw [lookup_toCrdt] at hk
    obtain ⟨v, -, rfl⟩ := Option.map_eq_some_iff.1 hk
    refine ⟨_, rfl, ?_⟩
    show ((d.clock + 1 : ℕ) : ℚ) + clocks.stamp.1 / 10 ^ 12 < (d.clock + 1 + 1 : ℕ)
    push_cast
    linarith
  · exact h

theorem stamped_step (op : HubOp) : Stamped (d.step op clocks) := by
  cases op with
  | seed initial => exact seed_stamped h clocks initial
  | join => exact seed_stamped h clocks ∅
  | edit actor changes label => exact edit_stamped h clocks actor changes label
  | restore version actor =>
    show Stamped (d.restore version actor clocks)
    grind [HubDoc.restore, edit_stamped]

end Step

theorem history_prefix (d : HubDoc) (op : HubOp) (clocks : HubDoc.Clocks) :
    d.history <+: (d.step op clocks).history := by
  have hseed : ∀ initial, d.history <+: (d.seed initial clocks).history := by
    intro initial
    unfold HubDoc.seed
    split_ifs with hnil
    · rw [hnil]
      exact List.nil_prefix
    · exact List.prefix_rfl
  cases op with
  | seed initial => exact hseed initial
  | join => exact hseed ∅
  | edit actor changes label => exact List.prefix_append _ _
  | restore version actor =>
    show d.history <+: (d.restore version actor clocks).history
    unfold HubDoc.restore
    split
    · exact List.prefix_rfl
    · exact List.prefix_append _ _

/-! ### Travelling back -/

section Travel
open HubDoc

variable {version : ℤ}

variable {e : Version} {past : PlainDoc}

theorem chooseVersion_beyond (he : version < e.version)
    (chosen : Option Version) (es : List Version) :
    chooseVersion version chosen (es ++ [e]) = chooseVersion version chosen es := by
  induction es generalizing chosen with
  | nil =>
    show (if e.version ≤ version then _ else chosen) = chosen
    rw [if_neg (by omega)]
  | cons f es ih => simp_all [chooseVersion]

theorem chooseVersion_newest {es : List Version}
    (h : ∀ f ∈ es ++ [e], f.version ≤ version) (chosen : Option Version) :
    chooseVersion version chosen (es ++ [e]) = some e := by
  induction es generalizing chosen with
  | nil =>
    show (if e.version ≤ version then some e else chosen) = some e
    rw [if_pos (h e (by simp))]
  | cons f es ih => simp_all [chooseVersion]

theorem docAsOf_eq {history : List Version}
    (h : history.Pairwise fun a b => a.version < b.version) (version : ℤ) :
    docAsOf history version = (chooseVersion version none history).map Version.doc := by
  unfold docAsOf
  rw [List.mergeSort_of_pairwise (h.imp fun hlt => by simpa using hlt.le)]

variable {d : HubDoc} (h : Stamped d) (clocks : HubDoc.Clocks) (actor : String)
include h

theorem docAsOf_edit (changes : PlainDoc) (label : Option String) (version : ℤ) :
    docAsOf (d.edit actor changes label clocks).history version =
      if d.nextVersion ≤ version then some (toPlain (d.edit actor changes label clocks).state)
      else docAsOf d.history version := by
  rw [docAsOf_eq (edit_stamped h clocks actor changes label).growing, docAsOf_eq h.growing]
  show (chooseVersion version none (d.history ++ [_])).map Version.doc = _
  split_ifs with hv
  · rw [chooseVersion_newest]
    · rfl
    · intro f hf
      rcases List.mem_append.1 hf with hf | hf
      · exact (version_lt_next h hf).le.trans hv
      · rw [List.mem_singleton.1 hf]
        exact hv
  · rw [chooseVersion_beyond (by simpa using hv)]

theorem lookup_restore (hpast : docAsOf d.history version = some past) (k : String) :
    (toPlain (d.restore version actor clocks).state).lookup k =
      (past.lookup k).or ((toPlain d.state).lookup k) := by
  unfold HubDoc.restore
  rw [hpast, lookup_toPlain, lookup_toPlain, lookup_edit h]
  cases past.lookup k <;> rfl

theorem restore_same_iff (hpast : docAsOf d.history version = some past) :
    (∃ doc, docAsOf (d.restore version actor clocks).history version = some doc ∧
        Table.Same (toPlain (d.restore version actor clocks).state) doc) ↔
      (d.nextVersion ≤ version ∨
        ∀ k, ((toPlain d.state).lookup k).isSome = true → (past.lookup k).isSome = true) := by
  have hrestore : d.restore version actor clocks =
      d.edit actor past (some ("restore v" ++ version.repr)) clocks := by
    unfold HubDoc.restore
    rw [hpast]
  have hdoc := docAsOf_edit h clocks actor past (some ("restore v" ++ version.repr)) version
  rw [← hrestore] at hdoc
  rw [hdoc]
  by_cases hv : d.nextVersion ≤ version
  · rw [if_pos hv]
    exact ⟨fun _ => Or.inl hv, fun _ => ⟨_, rfl, .refl _⟩⟩
  · rw [if_neg hv, hpast]
    constructor
    · rintro ⟨doc, hdoc, hsame⟩
      cases hdoc
      refine Or.inr fun k hk => ?_
      have hlook := hsame k
      grind -ring -linarith [lookup_restore]
    · rintro (hc | hfields)
      · exact absurd hc hv
      · refine ⟨past, rfl, fun k => ?_⟩
        rw [lookup_restore h clocks actor hpast]
        cases hp : past.lookup k with
        | some v => rfl
        | none =>
          cases hk : (toPlain d.state).lookup k with
          | none => rfl
          | some v => grind -ring -linarith

end Travel

def CollabHub.run (actions : List HubAction) : CollabHub := actions.foldl CollabHub.act ∅

theorem run_stamped (actions : List HubAction) (key : String × String) :
    Stamped ((CollabHub.run actions).doc key) := by
  unfold CollabHub.run
  induction actions using List.reverseRecOn with
  | nil => exact fresh_stamped
  | append_singleton actions a ih => grind [CollabHub.doc_act, stamped_step]

/-- Time travel over any run, and for any operation after it. -/
theorem time_travel (actions : List HubAction) (key : String × String) :
    let d := (CollabHub.run actions).doc key
    (d.history.Pairwise fun a b => a.version < b.version) ∧
      (∀ a : HubAction, d.history <+: (((CollabHub.run actions).act a).doc key).history) ∧
      (∀ actor changes label clocks k v, changes.lookup k = some v →
        (toPlain (d.edit actor changes label clocks).state).lookup k = some v) ∧
      ∀ version actor clocks past, HubDoc.docAsOf d.history version = some past →
        ((∃ doc, HubDoc.docAsOf (d.restore version actor clocks).history version = some doc ∧
            Table.Same (toPlain (d.restore version actor clocks).state) doc) ↔
          (d.nextVersion ≤ version ∨
            ∀ k, ((toPlain d.state).lookup k).isSome = true → (past.lookup k).isSome = true)) := by
  intro d
  have h : Stamped d := run_stamped actions key
  refine ⟨h.growing, fun a => ?_, ?_, ?_⟩
  · rw [CollabHub.doc_act]
    split_ifs with hk
    · exact history_prefix _ _ _
    · exact List.prefix_rfl
  · intro actor changes label clocks k v hk
    rw [lookup_toPlain, lookup_edit h, hk]
    rfl
  simp_all [restore_same_iff]

def epoch : HubDoc.Clocks := ⟨⟨0, by norm_num⟩, ⟨0, by norm_num⟩⟩

def editBy (actor field : String) (v : Value) : HubAction :=
  ⟨"t", "p", .edit actor (AList.singleton field v) none, epoch⟩

def editedTwice (first second : HubAction) : HubDoc := (CollabHub.run [first, second]).doc ("t", "p")

def limitTwice : HubDoc := editedTwice (editBy "ann" "limit" (.int 1)) (editBy "bob" "limit" (.int 2))

theorem editedTwice_stamped (first second : HubAction) : Stamped (editedTwice first second) :=
  run_stamped _ _

/-- The limit edited twice: the first version is back after a restore. -/
theorem limit_restored :
    ∃ doc, HubDoc.docAsOf (limitTwice.restore 1 "ann" epoch).history 1 = some doc ∧
      Table.Same (toPlain (limitTwice.restore 1 "ann" epoch).state) doc := by
  have hpast : HubDoc.docAsOf limitTwice.history 1 = some (AList.singleton "limit" (.int 1)) := by
    rw [limitTwice, docAsOf_eq (editedTwice_stamped _ _).growing]
    rfl
  refine ((time_travel [editBy "ann" "limit" (.int 1), editBy "bob" "limit" (.int 2)]
    ("t", "p")).2.2.2 1 "ann" epoch _ hpast).2 (Or.inr fun k hk => ?_)
  have hkey : k ∈ ["limit"] := AList.lookup_isSome.1 hk
  rw [List.mem_singleton.1 hkey]
  rfl

def regionAdded : HubDoc :=
  editedTwice (editBy "ann" "limit" (.int 1)) (editBy "bob" "region" (.str "KA"))

/-- A field added after the first version is still there after its restore. -/
theorem added_field_survives_restore :
    ¬ ∃ doc, HubDoc.docAsOf (regionAdded.restore 1 "ann" epoch).history 1 = some doc ∧
      Table.Same (toPlain (regionAdded.restore 1 "ann" epoch).state) doc := by
  have hpast : HubDoc.docAsOf regionAdded.history 1 = some (AList.singleton "limit" (.int 1)) := by
    rw [regionAdded, docAsOf_eq (editedTwice_stamped _ _).growing]
    rfl
  have hstamped : Stamped regionAdded := editedTwice_stamped _ _
  rw [restore_same_iff hstamped epoch "ann" hpast]
  rintro (h | h)
  · exact absurd h (by decide)
  · exact absurd (h "region" rfl) (by decide)

end RuleMind
