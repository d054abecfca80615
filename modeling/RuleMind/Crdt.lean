/-
  `app/crdt.py`: documents of last-writer-wins registers, and their merge.
-/
import RuleMind.Lib.Join
import RuleMind.Lib.Table
import RuleMind.Compare
import Mathlib.Data.Prod.Lex
import Mathlib.Data.String.Basic

namespace RuleMind

open Text (F64)

/-! ### Documents -/

structure Register where
  value : Value
  ts : F64
  actor : String
  deriving DecidableEq

abbrev CrdtDoc := Table String Register

abbrev PlainDoc := Table String Value

def wins (a b : Register) : Register :=
  if F64.ne a.ts b.ts then (if F64.gt a.ts b.ts then a else b)
  else if b.actor ≤ a.actor then a else b

def newField (value : Value) (ts : F64) (actor : String) : Register := ⟨value, ts, actor⟩

def toCrdt (plain : PlainDoc) (ts : F64) (actor : String) : CrdtDoc :=
  Table.upsert (fun _ v _ => newField v ts actor) plain ∅

def toPlain (doc : CrdtDoc) : PlainDoc := Table.upsert (fun _ f _ => f.value) doc ∅

def applyEdit (doc : CrdtDoc) (changes : PlainDoc) (ts : F64) (actor : String) : CrdtDoc :=
  Table.upsert
    (fun _ v held => match held with
      | some r => wins r (newField v ts actor)
      | none => newField v ts actor)
    changes doc

def merge (a b : CrdtDoc) : CrdtDoc :=
  Table.upsert
    (fun _ r held => match held with
      | some l => wins l r
      | none => r)
    b a

theorem lookup_toCrdt (plain : PlainDoc) (ts : F64) (actor k : String) :
    (toCrdt plain ts actor).lookup k = (plain.lookup k).map (newField · ts actor) := by
  rw [toCrdt, Table.lookup_upsert]
  cases plain.lookup k <;> rfl

theorem lookup_toPlain (doc : CrdtDoc) (k : String) :
    (toPlain doc).lookup k = (doc.lookup k).map Register.value := by
  rw [toPlain, Table.lookup_upsert]
  cases doc.lookup k <;> rfl

theorem lookup_applyEdit (doc : CrdtDoc) (changes : PlainDoc) (ts : F64) (actor k : String) :
    (applyEdit doc changes ts actor).lookup k =
      match changes.lookup k, doc.lookup k with
      | some v, some r => some (wins r (newField v ts actor))
      | some v, none => some (newField v ts actor)
      | none, held => held := by grind [applyEdit, Table.lookup_upsert]

/-- `_wins`, where a document may not have the field. -/
def winsOpt : Option Register → Option Register → Option Register
  | some l, some r => some (wins l r)
  | none, r => r
  | l, none => l

theorem lookup_merge (a b : CrdtDoc) (k : String) :
    (merge a b).lookup k = winsOpt (a.lookup k) (b.lookup k) := by
  rw [merge, Table.lookup_upsert]
  cases b.lookup k with
  | none => cases a.lookup k <;> rfl
  | some r => cases a.lookup k <;> rfl

/-! ### Stamps -/

/-- When and by whom a register was written; nothing if the time is not a number. -/
def stamp (r : Register) : Option (WithBot (WithTop ℚ) ×ₗ String) :=
  (F64.order r.ts).map fun t => toLex (t, r.actor)

/-- Registers that no merge can mistake for each other. -/
def ToldApart (a b : Register) : Prop :=
  a = b ∨ (a.ts ≠ .nan ∧ b.ts ≠ .nan ∧ (a.ts ≠ b.ts ∨ a.actor ≠ b.actor))

variable {a b : Register}

theorem wins_of_stamp {s t : WithBot (WithTop ℚ) ×ₗ String}
    (ha : stamp a = some s) (hb : stamp b = some t) : wins a b = if t ≤ s then a else b := by
  obtain ⟨x, hx, rfl⟩ := Option.map_eq_some_iff.1 ha
  obtain ⟨y, hy, rfl⟩ := Option.map_eq_some_iff.1 hb
  have hne := F64.ne_of_order hx hy
  have hgt := F64.gt_of_order hx hy
  unfold wins
  simp only [Prod.Lex.toLex_le_toLex]
  grind

theorem wins_of_nan (h : a.ts = .nan ∨ b.ts = .nan) : wins a b = b := by
  have hne : F64.ne a.ts b.ts = true := by
    rcases h with h | h
    · rw [h]
      rfl
    · rw [h]
      cases a.ts <;> rfl
  have hgt : F64.gt a.ts b.ts = false := by
    rcases h with h | h
    · rw [h]
      rfl
    · rw [h]
      rcases a.ts with _ | (_ | _) | _ <;> rfl
  unfold wins
  rw [if_pos hne, hgt]
  rfl

theorem wins_picks (a b : Register) : wins a b = a ∨ wins a b = b := by
  unfold wins
  grind

theorem stamp_of_ne_nan {r : Register} (h : r.ts ≠ .nan) : ∃ s, stamp r = some s := by
  cases ho : F64.order r.ts with
  | none => exact absurd (F64.order_eq_none.1 ho) h
  | some t => exact ⟨_, by rw [stamp, ho]; rfl⟩

theorem stamp_inj {s : WithBot (WithTop ℚ) ×ₗ String} (ha : stamp a = some s)
    (hb : stamp b = some s) : a.ts = b.ts ∧ a.actor = b.actor := by
  obtain ⟨x, hx, rfl⟩ := Option.map_eq_some_iff.1 ha
  obtain ⟨y, hy, he⟩ := Option.map_eq_some_iff.1 hb
  obtain ⟨rfl, hact⟩ := Prod.mk.inj (toLex.injective he)
  exact ⟨F64.order_inj hx hy, hact.symm⟩

theorem wins_comm_iff (a b : Register) : wins a b = wins b a ↔ ToldApart a b := by
  by_cases hnan : a.ts = .nan ∨ b.ts = .nan
  · rw [wins_of_nan hnan, wins_of_nan hnan.symm]
    constructor
    · intro h
      exact Or.inl h.symm
    · rintro (h | ⟨ha, hb, -⟩)
      · exact h.symm
      simp_all
  · rw [not_or] at hnan
    obtain ⟨s, hs⟩ := stamp_of_ne_nan hnan.1
    obtain ⟨t, ht⟩ := stamp_of_ne_nan hnan.2
    rw [wins_of_stamp hs ht, wins_of_stamp ht hs]
    by_cases hst : s = t
    · subst hst
      obtain ⟨hts, hactor⟩ := stamp_inj hs ht
      simp only [le_refl, if_true]
      constructor
      · exact Or.inl
      · rintro (h | ⟨-, -, h | h⟩)
        · exact h
        · exact absurd hts h
        · exact absurd hactor h
    · have hdiff : a.ts ≠ b.ts ∨ a.actor ≠ b.actor := by
        by_contra hc
        obtain ⟨hts, hactor⟩ := not_or.1 hc
        refine hst (Option.some.inj ?_)
        rw [← hs, ← ht, stamp, stamp, not_not.1 hts, not_not.1 hactor]
      refine ⟨fun _ => Or.inr ⟨hnan.1, hnan.2, hdiff⟩, fun _ => ?_⟩
      grind

/-! ### The join -/

def Apart (R : Set Register) : Prop := ∀ a ∈ R, ∀ b ∈ R, ToldApart a b

theorem wins_assoc {R : Set Register} (h : Apart R) (ha : a ∈ R) (hb : b ∈ R)
    (c : Register) : wins a (wins b c) = wins (wins a b) c := by
  -- a register whose time is not a number is told apart from itself only
  by_cases hnan : b.ts = .nan
  · have heq : a = b := (h a ha b hb).elim id fun hne => absurd hnan hne.2.1
    simp_all [wins_of_nan]
  · by_cases ha' : a.ts = .nan
    · rw [wins_of_nan (Or.inl ha'), wins_of_nan (Or.inl ha')]
    · by_cases hc' : c.ts = .nan
      · simp_all [wins_of_nan]
      · obtain ⟨s, hs⟩ := stamp_of_ne_nan ha'
        obtain ⟨t, ht⟩ := stamp_of_ne_nan hnan
        obtain ⟨u, hu⟩ := stamp_of_ne_nan hc'
        rw [wins_of_stamp ht hu, wins_of_stamp hs ht]
        split_ifs with h1 h2 h2
        · rw [wins_of_stamp hs ht, wins_of_stamp hs hu, if_pos h2, if_pos (h1.trans h2)]
        · rw [wins_of_stamp hs ht, wins_of_stamp ht hu, if_neg h2, if_pos h1]
        · rfl
        · rw [wins_of_stamp hs hu, wins_of_stamp ht hu, if_neg h1,
            if_neg fun h3 => h1 (h3.trans (not_le.1 h2).le)]

/-- The registers a set of documents holds at a field. -/
def registers (S : Set CrdtDoc) (k : String) : Set Register := {r | ∃ d ∈ S, d.lookup k = some r}

/-- What the documents hold at a field, told apart. -/
def DocsApart (S : Set CrdtDoc) : Prop := ∀ k, Apart (registers S k)

theorem selects_winsOpt {R : Set Register} (h : Apart R) :
    Selects winsOpt {o | ∀ r, o = some r → r ∈ R} where
  picks := by
    rintro (_ | a) - (_ | b) -
    · exact Or.inl rfl
    · exact Or.inr rfl
    · exact Or.inl rfl
    · exact (wins_picks a b).imp (congrArg some) (congrArg some)
  comm := by
    rintro (_ | a) ha (_ | b) hb
    · rfl
    · rfl
    · rfl
    · exact congrArg some ((wins_comm_iff a b).2 (h a (ha a rfl) b (hb b rfl)))
  assoc := by
    rintro (_ | a) ha (_ | b) hb (_ | c) -
    case some.some.some => exact congrArg some (wins_assoc h (ha a rfl) (hb b rfl) c)
    all_goals rfl

theorem lookup_mem_registers {S : Set CrdtDoc} {d : CrdtDoc} (hd : d ∈ S) (k : String) :
    d.lookup k ∈ {o | ∀ r, o = some r → r ∈ registers S k} := fun _ hr => ⟨d, hd, hr⟩

/-- The documents a replica received, one after the other. -/
def replica (docs : List CrdtDoc) : CrdtDoc := docs.foldl merge ∅

theorem lookup_foldl_merge (docs : List CrdtDoc) (acc : CrdtDoc) (k : String) :
    (docs.foldl merge acc).lookup k =
      (docs.map fun d => d.lookup k).foldl winsOpt (acc.lookup k) := by
  induction docs generalizing acc with
  | nil => rfl
  | cons d docs ih => rw [List.foldl_cons, ih, lookup_merge, List.map_cons, List.foldl_cons]

/-- The merges of the documents in `S` are a join. -/
structure MergeIsJoin (S : Set CrdtDoc) : Prop where
  comm : ∀ a ∈ S, ∀ b ∈ S, Table.Same (merge a b) (merge b a)
  assoc : ∀ a ∈ S, ∀ b ∈ S, ∀ c ∈ S, Table.Same (merge a (merge b c)) (merge (merge a b) c)
  idem : ∀ a ∈ S, Table.Same (merge a a) a
  converge : ∀ xs ys : List CrdtDoc, (∀ d ∈ xs, d ∈ S) → (∀ d, d ∈ xs ↔ d ∈ ys) →
    Table.Same (replica xs) (replica ys)

/-- Merging is a join on exactly the sets of documents whose registers are told apart. -/
theorem merge_is_join_iff (S : Set CrdtDoc) : MergeIsJoin S ↔ DocsApart S := by
  constructor
  · intro h k a ⟨d, hd, ha⟩ b ⟨e, he, hb⟩
    have hcomm := h.comm d hd e he k
    rw [lookup_merge, lookup_merge, ha, hb] at hcomm
    exact (wins_comm_iff a b).1 (Option.some.inj hcomm)
  · intro h
    have hsel := fun k => selects_winsOpt (h k)
    refine ⟨?_, ?_, ?_, ?_⟩
    · intro a ha b hb k
      rw [lookup_merge, lookup_merge]
      exact (hsel k).comm _ (lookup_mem_registers ha k) _ (lookup_mem_registers hb k)
    · intro a ha b hb c hc k
      rw [lookup_merge, lookup_merge, lookup_merge, lookup_merge]
      exact (hsel k).assoc _ (lookup_mem_registers ha k) _ (lookup_mem_registers hb k) _
        (lookup_mem_registers hc k)
    · intro a ha k
      rw [lookup_merge]
      exact (hsel k).idem (lookup_mem_registers ha k)
    · intro xs ys hxs hsame k
      rw [replica, replica, lookup_foldl_merge, lookup_foldl_merge]
      refine (hsel k).foldl_eq_of_mem_iff ?_ ?_ ?_
      · intro o ho
        obtain ⟨d, hd, rfl⟩ := List.mem_map.1 ho
        exact lookup_mem_registers (hxs d hd) k
      · intro r hr
        cases hr
      · intro o
        simp only [List.mem_map, hsame]

/-- Two registers of one stamp and different values. -/
def approveAt : CrdtDoc := AList.singleton "outcome" ⟨.str "approve", .finite 1, "alice"⟩

def rejectAt : CrdtDoc := AList.singleton "outcome" ⟨.str "reject", .finite 1, "alice"⟩

/-- Each replica keeps the value it had. -/
theorem tied_registers_diverge :
    ¬ Table.Same (merge approveAt rejectAt) (merge rejectAt approveAt) := by
  intro h
  have hk := h "outcome"
  rw [lookup_merge, lookup_merge] at hk
  revert hk
  decide

/-! ### Two edits of one document -/

/-- The entries of an edit that are not those of the base. -/
def edited (base edit : PlainDoc) : PlainDoc where
  entries := edit.entries.filter fun e => !pyEq ((base.lookup e.1).getD .null) e.2
  nodupKeys := edit.nodupKeys.sublist List.filter_sublist

def threeWayMerge (base editA editB : PlainDoc) (tsA : F64) (actorA : String) (tsB : F64)
    (actorB : String) : PlainDoc × List String :=
  let doc := toCrdt base (.finite 0) "__base__"
  let aChanged := edited base editA
  let bChanged := edited base editB
  let conflicts := (aChanged.keys.filter (· ∈ bChanged.keys)).mergeSort (· ≤ ·)
  let doc := applyEdit doc aChanged tsA actorA
  let doc := applyEdit doc bChanged tsB actorB
  (toPlain doc, conflicts)

/-- A field of the base, or what the authors made of it, each at a time. -/
def resolved (tsA : F64) (actorA : String) (tsB : F64) (actorB : String) (base : Option Value) :
    Option Value → Option Value → Option Value
  | none, none => base
  | some v, none | none, some v => some v
  | some v, some w => some (wins ⟨v, tsA, actorA⟩ ⟨w, tsB, actorB⟩).value

section Authors
variable {tsA tsB : F64} {actorA actorB : String}

theorem wins_base {r : Register} (h : F64.gt r.ts (.finite 0) = true) (v : Value) :
    wins ⟨v, .finite 0, "__base__"⟩ r = r := by
  obtain ⟨value, ts, actor⟩ := r
  rcases ts with q | (_ | _) | _
  · have hq : (0 : ℚ) < q := by simpa [F64.gt] using h
    simp [wins, F64.ne, F64.gt, hq.ne, hq.not_gt]
  · rfl
  · cases h
  · cases h

theorem lookup_merged (ha : F64.gt tsA (.finite 0) = true) (hb : F64.gt tsB (.finite 0) = true)
    (base editA editB : PlainDoc) (k : String) :
    (threeWayMerge base editA editB tsA actorA tsB actorB).1.lookup k =
      resolved tsA actorA tsB actorB (base.lookup k) ((edited base editA).lookup k)
        ((edited base editB).lookup k) := by
  rw [threeWayMerge, lookup_toPlain, lookup_applyEdit, lookup_applyEdit, lookup_toCrdt]
  cases base.lookup k <;> cases (edited base editA).lookup k <;>
    cases (edited base editB).lookup k <;>
    simp [resolved, newField, wins_base, ha, hb]

/-- **Neither author is lost.**  Fields that one author changed are as that author has them, those
    that both changed are the conflicts and go to the later, whoever of them is merged first. -/
theorem both_authors_kept (ha : F64.gt tsA (.finite 0) = true)
    (hb : F64.gt tsB (.finite 0) = true) (base editA editB : PlainDoc) (k : String) :
    (threeWayMerge base editA editB tsA actorA tsB actorB).1.lookup k =
      resolved tsA actorA tsB actorB (base.lookup k) ((edited base editA).lookup k)
        ((edited base editB).lookup k) ∧
    (k ∈ (threeWayMerge base editA editB tsA actorA tsB actorB).2 ↔
      k ∈ edited base editA ∧ k ∈ edited base editB) ∧
    (tsA ≠ tsB ∨ actorA ≠ actorB →
      (threeWayMerge base editA editB tsA actorA tsB actorB).1.lookup k =
        (threeWayMerge base editB editA tsB actorB tsA actorA).1.lookup k) := by
  refine ⟨lookup_merged ha hb base editA editB k, ?_, fun hapart => ?_⟩
  · simp [threeWayMerge, AList.mem_keys]
  · rw [lookup_merged ha hb, lookup_merged hb ha]
    have hnan : ∀ {ts : F64}, F64.gt ts (.finite 0) = true → ts ≠ .nan := by
      rintro _ h rfl
      cases h
    cases (edited base editA).lookup k <;> cases (edited base editB).lookup k
    case some.some v w =>
      refine congrArg (fun r => some (Register.value r)) ((wins_comm_iff _ _).2 (.inr ?_))
      exact ⟨hnan ha, hnan hb, hapart⟩
    all_goals rfl

theorem edit_of_one_kept : (threeWayMerge ∅ (AList.singleton "rate" (.int 1))
    (AList.singleton "term" (.int 2)) (.finite 1) "alice" (.finite 1) "bob").1.lookup "rate" =
      some (.int 1) :=
  (both_authors_kept (by decide) (by decide) _ _ _ "rate").1.trans (by decide)

end Authors

end RuleMind
