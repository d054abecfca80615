/-
  Regions of a value: an interval between two ends, and a set of values given by its
  members or by its exceptions.

  The ends of an interval are in a bounded linear order; what it holds are points of an
  order the ends are embedded in, so that there may be points between the least end and
  all others.
-/
import Mathlib.Order.Hom.BoundedLattice
import Mathlib.Order.MinMax

namespace RuleMind

structure Interval (α : Type) where
  lower : α
  upper : α
  lowerInc : Bool
  upperInc : Bool
  deriving DecidableEq

namespace Interval
variable {α β : Type} [LinearOrder α] [LinearOrder β]

/-! ### Intervals -/

def isEmpty (iv : Interval α) : Bool :=
  iv.upper < iv.lower || (iv.lower = iv.upper && !(iv.lowerInc && iv.upperInc))

def overlap (a b : Interval α) : Bool :=
  if a.isEmpty || b.isEmpty then false
  else if a.upper < b.lower || b.upper < a.lower then false
  else if a.upper = b.lower then a.upperInc && b.lowerInc
  else if b.upper = a.lower then b.upperInc && a.lowerInc
  else true

/-- Whether an end that two intervals contribute to belongs to their meet: `first` says that
    the end is that of the first alone. -/
def joint (same first : Bool) (a b : Bool) : Bool := if same then a && b else if first then a else b

def inter (a b : Interval α) : Option (Interval α) :=
  if a.isEmpty || b.isEmpty then none
  else
    let lower := max a.lower b.lower
    let upper := min a.upper b.upper
    let lowerInc := joint (a.lower = b.lower) (b.lower < a.lower) a.lowerInc b.lowerInc
    let upperInc := joint (a.upper = b.upper) (a.upper < b.upper) a.upperInc b.upperInc
    if upper < lower then none
    else if lower = upper && !(lowerInc && upperInc) then none
    else some ⟨lower, upper, lowerInc, upperInc⟩

def full [BoundedOrder α] : Interval α := ⟨⊥, ⊤, false, false⟩

def invert [BoundedOrder α] (iv : Interval α) : List (Interval α) :=
  if iv.isEmpty then [full]
  else
    (if ⊥ < iv.lower then [⟨⊥, iv.lower, false, !iv.lowerInc⟩] else []) ++
      (if iv.upper < ⊤ then [⟨iv.upper, ⊤, !iv.upperInc, false⟩] else [])

section Points
variable (i : α ↪o β)

def Above (e : α) (inc : Bool) (x : β) : Prop := i e < x ∨ (inc = true ∧ i e = x)

def Below (e : α) (inc : Bool) (x : β) : Prop := x < i e ∨ (inc = true ∧ x = i e)

def Holds (iv : Interval α) (x : β) : Prop :=
  Above i iv.lower iv.lowerInc x ∧ Below i iv.upper iv.upperInc x

variable {i} {a b : Interval α} {x : β}

variable {e d : α} {inc inc' : Bool}

theorem Above.le (h : Above i e inc x) : i e ≤ x := by
  rcases h with h | ⟨-, h⟩
  · exact h.le
  · exact h.le

theorem Below.le (h : Below i e inc x) : x ≤ i e := by
  rcases h with h | ⟨-, h⟩
  · exact h.le
  · exact h.le

theorem between_ends (ha : Above i e inc x) (hb : Below i d inc' x) :
    e ≤ d ∧ (e = d → inc = true ∧ inc' = true) := by
  refine ⟨i.le_iff_le.1 (ha.le.trans hb.le), ?_⟩
  rintro rfl
  rcases ha with ha | ⟨ha, hx⟩
  · exact absurd hb.le (not_le.2 ha)
  · rcases hb with hb | ⟨hb, -⟩
    · exact absurd hx.le (not_le.2 hb)
    · exact ⟨ha, hb⟩

theorem not_above : ¬ Above i e inc x ↔ Below i e (!inc) x := by
  grind [Above, Below]

theorem not_below : ¬ Below i e inc x ↔ Above i e (!inc) x := by
  rw [← not_iff_not, not_not, not_above, Bool.not_not]

theorem isEmpty_of_holds (h : Holds i a x) : a.isEmpty = false := by
  obtain ⟨hle, heq⟩ := between_ends h.1 h.2
  simp only [isEmpty, Bool.or_eq_false_iff, decide_eq_false_iff_not, not_lt, Bool.and_eq_false_iff,
    Bool.not_eq_false']
  grind

theorem overlap_of_holds (ha : Holds i a x) (hb : Holds i b x) : overlap a b = true := by
  obtain ⟨h1, h2⟩ := between_ends hb.1 ha.2
  obtain ⟨h3, h4⟩ := between_ends ha.1 hb.2
  unfold overlap
  rw [isEmpty_of_holds ha, isEmpty_of_holds hb]
  simp_all

theorem above_max : Above i (max e d)
    (joint (e = d) (d < e) inc inc') x ↔ Above i e inc x ∧ Above i d inc' x := by
  rcases lt_trichotomy e d with h | h | h
  · have hi := i.lt_iff_lt.2 h
    rw [max_eq_right h.le]
    simp only [joint, h.ne, not_lt.2 h.le, decide_false, Bool.false_eq_true, if_false]
    exact ⟨fun hd => ⟨Or.inl (hi.trans_le hd.le), hd⟩, fun hd => hd.2⟩
  · subst h
    simp only [joint, max_self, decide_true, if_true]
    grind [Above]
  · have hi := i.lt_iff_lt.2 h
    rw [max_eq_left h.le]
    simp only [joint, h.ne', decide_false, Bool.false_eq_true, if_false, h, decide_true, if_true]
    exact ⟨fun hd => ⟨hd, Or.inl (hi.trans_le hd.le)⟩, fun hd => hd.1⟩

theorem below_min : Below i (min e d)
    (joint (e = d) (e < d) inc inc') x ↔ Below i e inc x ∧ Below i d inc' x := by
  rcases lt_trichotomy e d with h | h | h
  · have hi := i.lt_iff_lt.2 h
    rw [min_eq_left h.le]
    simp only [joint, h.ne, decide_false, Bool.false_eq_true, if_false, h, decide_true, if_true]
    exact ⟨fun hd => ⟨hd, Or.inl (hd.le.trans_lt hi)⟩, fun hd => hd.1⟩
  · subst h
    simp only [joint, min_self, decide_true, if_true]
    grind [Below]
  · have hi := i.lt_iff_lt.2 h
    rw [min_eq_right h.le]
    simp only [joint, h.ne', not_lt.2 h.le, decide_false, Bool.false_eq_true, if_false]
    exact ⟨fun hd => ⟨Or.inl (hd.le.trans_lt hi), hd⟩, fun hd => hd.2⟩

theorem inter_holds (ha : Holds i a x) (hb : Holds i b x) :
    ∃ c, inter a b = some c ∧ Holds i c x := by
  have hlower := above_max.2 ⟨ha.1, hb.1⟩
  have hupper := below_min.2 ⟨ha.2, hb.2⟩
  obtain ⟨hle, heq⟩ := between_ends hlower hupper
  unfold inter
  rw [isEmpty_of_holds ha, isEmpty_of_holds hb]
  simp only [Bool.or_self, Bool.false_eq_true, if_false, not_lt.2 hle]
  rw [if_neg]
  · exact ⟨_, rfl, hlower, hupper⟩
  · simp_all

theorem holds_of_inter {c : Interval α} (h : inter a b = some c) (hc : Holds i c x) :
    Holds i a x ∧ Holds i b x := by
  unfold inter at h
  dsimp only at h
  split_ifs at h
  cases h
  obtain ⟨hl, hl'⟩ := above_max.1 hc.1
  obtain ⟨hu, hu'⟩ := below_min.1 hc.2
  exact ⟨⟨hl, hu⟩, hl', hu'⟩

section Meet
variable {c : Interval α}

theorem isEmpty_eq_false {iv : Interval α} : iv.isEmpty = false ↔
    iv.lower ≤ iv.upper ∧ (iv.lower = iv.upper → iv.lowerInc = true ∧ iv.upperInc = true) := by
  simp only [isEmpty, Bool.or_eq_false_iff, decide_eq_false_iff_not, not_lt,
    Bool.and_eq_false_iff, Bool.not_eq_false', Bool.and_eq_true]
  grind

theorem inter_isEmpty (h : inter a b = some c) : c.isEmpty = false := by
  unfold inter at h
  dsimp only at h
  split_ifs at h with h1 h2 h3
  cases h
  simp_all [isEmpty_eq_false]

/-- A lower end and an upper end with something between them. -/
def Facing (a b : Interval α) : Prop :=
  a.lower ≤ b.upper ∧ (a.lower = b.upper → a.lowerInc = true ∧ b.upperInc = true)

theorem facing_of_overlap (h : overlap a b = true) :
    Facing a a ∧ Facing b b ∧ Facing a b ∧ Facing b a := by
  unfold overlap at h
  split_ifs at h with hempty hapart hab hba
  all_goals
    simp only [Bool.or_eq_true, not_or, Bool.not_eq_true, decide_eq_true_eq, not_lt] at hempty hapart
    have ha := isEmpty_eq_false.1 hempty.1
    have hb := isEmpty_eq_false.1 hempty.2
    simp only [Bool.and_eq_true] at h
    refine ⟨ha, hb, ⟨hapart.2, fun heq => ?_⟩, hapart.1, fun heq => ?_⟩
  · grind
  · exact ⟨h.2, h.1⟩
  · exact ⟨h.2, h.1⟩
  · exact absurd heq.symm hab
  · exact absurd heq.symm hba
  · exact absurd heq.symm hab

theorem inter_ends (h : inter a b = some c) : a.isEmpty = false ∧ b.isEmpty = false ∧
    c.lower = max a.lower b.lower ∧ c.upper = min a.upper b.upper := by
  unfold inter at h
  grind

def ends : α ↪o α := (OrderIso.refl α).toOrderEmbedding

theorem facing_holds {e : α} (haa : Facing a a) (hab : Facing a b) (hba : Facing b a)
    (hlow : max a.lower b.lower = e) (hhigh : min a.upper b.upper = e) : Holds ends a e := by
  constructor
  · rcases (le_of_max_le_left hlow.le).lt_or_eq with hlt | heq
    · exact Or.inl hlt
    · refine Or.inr ⟨?_, heq⟩
      rcases min_choice a.upper b.upper with hu | hu
      · exact (haa.2 (heq.trans (hhigh.symm.trans hu))).1
      · exact (hab.2 (heq.trans (hhigh.symm.trans hu))).1
  · rcases (le_of_le_min_left hhigh.ge).lt_or_eq with hlt | heq
    · exact Or.inl hlt
    · refine Or.inr ⟨?_, heq⟩
      rcases max_choice a.lower b.lower with hl | hl
      · exact (haa.2 (hl.symm.trans (hlow.trans heq))).2
      · exact (hba.2 (hl.symm.trans (hlow.trans heq))).2

theorem overlap_iff_inter : overlap a b = true ↔ ∃ c, inter a b = some c := by
  constructor
  · intro h
    obtain ⟨haa, hbb, hab, hba⟩ := facing_of_overlap h
    have hle : max a.lower b.lower ≤ min a.upper b.upper :=
      max_le (le_min haa.1 hab.1) (le_min hba.1 hbb.1)
    rcases hle.lt_or_eq with hlt | heq
    · unfold inter
      rw [isEmpty_eq_false.2 haa, isEmpty_eq_false.2 hbb]
      simp [hlt.not_gt, hlt.ne]
    · obtain ⟨c, hc, -⟩ := inter_holds (facing_holds haa hab hba rfl heq.symm)
        (facing_holds hbb hba hab (max_comm _ _) ((min_comm _ _).trans heq.symm))
      exact ⟨c, hc⟩
  · rintro ⟨c, hc⟩
    obtain ⟨ha, hb, hlow, hhigh⟩ := inter_ends hc
    obtain ⟨hle, hends⟩ := isEmpty_eq_false.1 (inter_isEmpty hc)
    rcases hle.lt_or_eq with hlt | heq
    · -- then no upper end is at the other's lower end
      rw [hlow, hhigh, max_lt_iff, lt_min_iff, lt_min_iff] at hlt
      simp [overlap, ha, hb, hlt.1.2.not_gt, hlt.2.1.not_gt, hlt.1.2.ne', hlt.2.1.ne']
    · obtain ⟨hl, hu⟩ := hends heq
      have hc' : Holds ends c c.lower := ⟨Or.inr ⟨hl, rfl⟩, Or.inr ⟨hu, heq⟩⟩
      obtain ⟨ha', hb'⟩ := holds_of_inter hc hc'
      exact overlap_of_holds ha' hb'
end Meet

variable [BoundedOrder α]

theorem full_holds (hlow : i ⊥ < x) (hhigh : x < i ⊤) : Holds i full x :=
  ⟨Or.inl hlow, Or.inl hhigh⟩

theorem invert_complete (hlow : i ⊥ < x) (hhigh : x < i ⊤) (h : ¬ Holds i a x) :
    ∃ c ∈ invert a, Holds i c x := by
  unfold invert
  split
  · exact ⟨full, List.mem_singleton_self _, full_holds hlow hhigh⟩
  · by_cases ha : Above i a.lower a.lowerInc x
    · have hb := not_below.1 fun hb => h ⟨ha, hb⟩
      rw [if_pos (i.lt_iff_lt.1 (hb.le.trans_lt hhigh))]
      exact ⟨_, List.mem_append_right _ (List.mem_singleton_self _), hb, Or.inl hhigh⟩
    · have hb := not_above.1 ha
      rw [if_pos (i.lt_iff_lt.1 (hlow.trans_le hb.le))]
      exact ⟨_, List.mem_append_left _ (List.mem_singleton_self _), Or.inl hlow, hb⟩

theorem invert_sound {c : Interval α} (hc : c ∈ invert a) (hx : Holds i c x) : ¬ Holds i a x := by
  intro ha
  unfold invert at hc
  rw [isEmpty_of_holds ha] at hc
  simp only [Bool.false_eq_true, if_false] at hc
  rcases List.mem_append.1 hc with hc | hc
  · split at hc
    · rw [List.mem_singleton.1 hc] at hx
      exact not_above.2 hx.2 ha.1
    · cases hc
  · split at hc
    · rw [List.mem_singleton.1 hc] at hx
      exact not_below.2 hx.1 ha.2
    · cases hc

end Points

end Interval

/-! ### Sets -/

/-- The members, or without them all but the exceptions. -/
structure ValueSet (α : Type) where
  included : Option (List α)
  excluded : List α
  deriving DecidableEq

namespace ValueSet
variable {α : Type} [DecidableEq α]

def isEmpty (s : ValueSet α) : Bool := s.included.any List.isEmpty

def overlap (a b : ValueSet α) : Bool :=
  if a.isEmpty || b.isEmpty then false
  else match a.included, b.included with
    | none, none => true
    | none, some bs => bs.any (· ∉ a.excluded)
    | some as, none => as.any (· ∉ b.excluded)
    | some as, some bs => as.any (· ∈ bs)

def inter (a b : ValueSet α) : ValueSet α :=
  if a.isEmpty || b.isEmpty then ⟨some [], []⟩
  else match a.included, b.included with
    | none, none => ⟨none, a.excluded ++ b.excluded⟩
    | none, some bs => ⟨some (bs.filter (· ∉ a.excluded)), []⟩
    | some as, none => ⟨some (as.filter (· ∉ b.excluded)), []⟩
    | some as, some bs => ⟨some (as.filter (· ∈ bs)), []⟩

def invert (s : ValueSet α) : ValueSet α :=
  match s.included with
  | none => ⟨some s.excluded, []⟩
  | some xs => ⟨none, xs⟩

def Holds (s : ValueSet α) (x : α) : Prop :=
  match s.included with
  | none => x ∉ s.excluded
  | some xs => x ∈ xs

variable {a b : ValueSet α} {x : α}

omit [DecidableEq α] in
theorem isEmpty_of_holds (h : a.Holds x) : a.isEmpty = false := by grind -ring -linarith [Holds, isEmpty]

theorem overlap_of_holds (ha : a.Holds x) (hb : b.Holds x) : overlap a b = true := by
  unfold overlap
  rw [isEmpty_of_holds ha, isEmpty_of_holds hb]
  unfold Holds at ha hb
  grind

theorem inter_holds : (inter a b).Holds x ↔ a.Holds x ∧ b.Holds x := by
  unfold inter
  split
  · rename_i hempty
    constructor
    · intro h
      cases h
    grind [isEmpty_of_holds]
  · cases hia : a.included <;> cases hib : b.included <;> simp [Holds, hia, hib, and_comm]

theorem invert_holds : (invert a).Holds x ↔ ¬ a.Holds x := by grind [invert, Holds]

end ValueSet

end RuleMind
