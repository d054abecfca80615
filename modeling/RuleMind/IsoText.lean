/-
  The parts of an ISO date, and what the Rust core reads of them.
-/
import RuleMind.RustCompare
import RuleMind.Lib.Cut

namespace RuleMind

open Text Cut

/-! ### Parts -/

/-- A time: the point and the zone come with what is behind them. -/
structure IsoTime where
  hour : List Char
  minute : List Char
  second : Option (List Char)
  fraction : Option (Char × List Char)
  zone : Option (Char × List Char)

structure IsoText where
  year : List Char
  month : List Char
  day : List Char
  time : Option (Char × IsoTime)

/-- The zone begins at the first `Z`, or else at the last sign. -/
def cutZone (cs : List Char) : List Char × Option (Char × List Char) :=
  if 'Z' ∈ cs then cutFirst (· == 'Z') cs else cutLast RustCore.isSign cs

def clockOf (fraction zone : Option (Char × List Char)) : List (List Char) → Option IsoTime
  | [hour, minute] => some ⟨hour, minute, none, fraction, zone⟩
  | [hour, minute, second] => some ⟨hour, minute, some second, fraction, zone⟩
  | _ => none

def isoTimeParts (cs : List Char) : Option IsoTime :=
  let (body, zone) := cutZone cs
  let (clock, fraction) := cutFirst (· == '.') body
  clockOf fraction zone (clock.splitOn ':')

def isTimeMark (c : Char) : Bool := c == 'T' || c == ' '

def dateOf (time : Option (Char × IsoTime)) : List (List Char) → Option IsoText
  | [year, month, day] => some ⟨year, month, day, time⟩
  | _ => none

def timeOf : Option (Char × List Char) → Option (Option (Char × IsoTime))
  | none => some none
  | some (mark, rest) => (isoTimeParts rest).map fun t => some (mark, t)

def isoParts (cs : List Char) : Option IsoText := do
  let time ← timeOf (cutFirst isTimeMark cs).2
  dateOf time ((cutFirst isTimeMark cs).1.splitOn '-')

/-! ### Texts -/

namespace IsoTime

def numerals (t : IsoTime) : List (List Char) := t.hour :: t.minute :: t.second.toList

def clock (t : IsoTime) : List Char := [':'].intercalate t.numerals

def body (t : IsoTime) : List Char := t.clock ++ tail t.fraction

def text (t : IsoTime) : List Char := t.body ++ tail t.zone

end IsoTime

namespace IsoText

def timeText (time : Option (Char × IsoTime)) : Option (Char × List Char) :=
  time.map fun t => (t.1, t.2.text)

def date (p : IsoText) : List Char := ['-'].intercalate [p.year, p.month, p.day]

def text (p : IsoText) : List Char := p.date ++ tail (timeText p.time)

end IsoText

structure ZoneCut (body : List Char) (zone : Option (Char × List Char)) : Prop where
  noZ : 'Z' ∉ body
  unsigned : zone = none → ∀ c ∈ body, RustCore.isSign c = false
  mark : ∀ z ∈ zone, z.1 = 'Z' ∨
    RustCore.isSign z.1 = true ∧ 'Z' ∉ z.2 ∧ ∀ c ∈ z.2, RustCore.isSign c = false

structure IsoTime.Clean (t : IsoTime) : Prop where
  numerals : ∀ part ∈ t.numerals, ':' ∉ part
  clock : '.' ∉ t.clock
  point : ∀ f ∈ t.fraction, f.1 = '.'
  zone : ZoneCut t.body t.zone

structure IsoText.Clean (p : IsoText) : Prop where
  parts : ∀ part ∈ [p.year, p.month, p.day], '-' ∉ part
  date : ∀ c ∈ p.date, isTimeMark c = false
  time : ∀ t ∈ p.time, isTimeMark t.1 = true ∧ t.2.Clean

variable {cs : List Char} {zone : Option (Char × List Char)} {parts : List (List Char)} {t :
  IsoTime} {time : Option (Char × IsoTime)} {p : IsoText}

theorem cutZone_iff {body : List Char} :
    cutZone cs = (body, zone) ↔ cs = body ++ tail zone ∧ ZoneCut body zone := by
  unfold cutZone
  constructor
  · intro h
    by_cases hz : 'Z' ∈ cs
    · rw [if_pos hz] at h
      obtain ⟨hcs, hbody, hmark⟩ := cutFirst_iff.1 h
      have hnoZ : 'Z' ∉ body := fun hmem => absurd (hbody 'Z' hmem) (by decide)
      refine ⟨hcs, hnoZ, ?_, fun z hz => Or.inl (beq_iff_eq.1 (hmark z hz))⟩
      rintro rfl
      rw [hcs, tail, List.append_nil] at hz
      exact absurd hz hnoZ
    · rw [if_neg hz] at h
      obtain ⟨hcs, hbody, hmark⟩ := cutLast_iff.1 h
      rw [hcs, List.mem_append, not_or] at hz
      refine ⟨hcs, hz.1, hbody, fun z hzone => Or.inr ⟨(hmark z hzone).1, ?_, (hmark z hzone).2⟩⟩
      intro hmem
      rw [Option.mem_def.1 hzone] at hz
      exact hz.2 (List.mem_cons_of_mem _ hmem)
  · rintro ⟨rfl, hcut⟩
    cases zone with
    | none =>
      rw [tail, List.append_nil, if_neg hcut.noZ, cutLast_iff]
      exact ⟨(List.append_nil _).symm, fun _ => hcut.unsigned rfl, fun z hz => by cases hz⟩
    | some z =>
      obtain ⟨c, rest⟩ := z
      rcases hcut.mark _ rfl with hc | ⟨hsign, hnoZ, hrest⟩
      · dsimp only at hc
        subst hc
        have hmem : 'Z' ∈ body ++ tail (some ('Z', rest)) :=
          List.mem_append_right _ List.mem_cons_self
        rw [if_pos hmem, cutFirst_iff]
        refine ⟨rfl, fun b hb => ?_, fun z hz => ?_⟩
        · exact beq_eq_false_iff_ne.2 fun heq => hcut.noZ (heq ▸ hb)
        · cases hz
          rfl
      · have hnot : 'Z' ∉ body ++ tail (some (c, rest)) := by
          rw [List.mem_append, tail, List.mem_cons, not_or, not_or]
          refine ⟨hcut.noZ, ?_, hnoZ⟩
          rintro rfl
          exact absurd hsign (show ¬RustCore.isSign 'Z' = true by decide)
        simp_all [cutLast_iff]

theorem clockOf_iff {fraction : Option (Char × List Char)}
    : clockOf fraction zone parts = some t ↔
      parts = t.numerals ∧ t.fraction = fraction ∧ t.zone = zone := by
  constructor
  · intro h
    unfold clockOf at h
    split at h
    · cases h
      exact ⟨rfl, rfl, rfl⟩
    · cases h
      exact ⟨rfl, rfl, rfl⟩
    · cases h
  · obtain ⟨hour, minute, second, fraction', zone'⟩ := t
    rintro ⟨rfl, rfl, rfl⟩
    cases second <;> rfl

theorem isoTimeParts_iff : isoTimeParts cs = some t ↔ cs = t.text ∧ t.Clean := by
  obtain ⟨⟨body, zone⟩, hzone⟩ : ∃ cut, cutZone cs = cut := ⟨_, rfl⟩
  obtain ⟨⟨clock, fraction⟩, hfraction⟩ : ∃ cut, cutFirst (· == '.') body = cut := ⟨_, rfl⟩
  have hparts : isoTimeParts cs = clockOf fraction zone (clock.splitOn ':') := by
    unfold isoTimeParts
    rw [hzone]
    simp only [hfraction]
  have hne : t.numerals ≠ [] := nofun
  rw [hparts, clockOf_iff, splitOn_iff hne]
  constructor
  · rintro ⟨⟨rfl, hnumerals⟩, rfl, rfl⟩
    obtain ⟨rfl, hclock, hpoint⟩ := cutFirst_iff.1 hfraction
    obtain ⟨rfl, hcut⟩ := cutZone_iff.1 hzone
    refine ⟨rfl, hnumerals, fun hmem => ?_, fun f hf => beq_iff_eq.1 (hpoint f hf), hcut⟩
    exact absurd (hclock _ hmem) (by decide)
  · rintro ⟨rfl, hclean⟩
    have hzone' : cutZone t.text = (t.body, t.zone) := cutZone_iff.2 ⟨rfl, hclean.zone⟩
    rw [hzone'] at hzone
    cases hzone
    have hfraction' : cutFirst (· == '.') t.body = (t.clock, t.fraction) :=
      cutFirst_iff.2 ⟨rfl, fun c hc => beq_eq_false_iff_ne.2 fun heq => hclean.clock (heq ▸ hc),
        fun f hf => beq_iff_eq.2 (hclean.point f hf)⟩
    rw [hfraction'] at hfraction
    cases hfraction
    exact ⟨⟨rfl, hclean.numerals⟩, rfl, rfl⟩

theorem dateOf_iff :
    dateOf time parts = some p ↔ parts = [p.year, p.month, p.day] ∧ p.time = time := by
  constructor
  · intro h
    unfold dateOf at h
    grind
  · obtain ⟨year, month, day, time'⟩ := p
    rintro ⟨rfl, rfl⟩
    rfl

theorem timeOf_iff {cut : Option (Char × List Char)} :
    timeOf cut = some time ↔ cut = IsoText.timeText time ∧ ∀ t ∈ time, t.2.Clean := by
  constructor
  · intro h
    cases cut with
    | none =>
      cases h
      exact ⟨rfl, nofun⟩
    | some c =>
      obtain ⟨t, ht, rfl⟩ := Option.map_eq_some_iff.1 h
      grind [isoTimeParts_iff, IsoText.timeText]
  · rintro ⟨rfl, hclean⟩
    cases time with
    | none => rfl
    | some t =>
      show (isoTimeParts t.2.text).map _ = _
      rw [isoTimeParts_iff.2 ⟨rfl, hclean t rfl⟩]
      rfl

theorem isoParts_iff : isoParts cs = some p ↔ cs = p.text ∧ p.Clean := by
  obtain ⟨⟨date, time⟩, hcut⟩ : ∃ cut, cutFirst isTimeMark cs = cut := ⟨_, rfl⟩
  have hne : [p.year, p.month, p.day] ≠ [] := nofun
  unfold isoParts
  rw [hcut, Option.bind_eq_bind, Option.bind_eq_some_iff]
  simp only [timeOf_iff, dateOf_iff, splitOn_iff hne]
  constructor
  · rintro ⟨_, ⟨rfl, hclean⟩, ⟨rfl, hparts⟩, rfl⟩
    obtain ⟨rfl, hdate, hmark⟩ := cutFirst_iff.1 hcut
    refine ⟨rfl, hparts, hdate, fun t ht => ⟨?_, hclean t ht⟩⟩
    exact hmark _ (Option.mem_map_of_mem _ ht)
  · rintro ⟨rfl, hclean⟩
    have hcut' : cutFirst isTimeMark p.text = (p.date, IsoText.timeText p.time) := by
      refine cutFirst_iff.2 ⟨rfl, hclean.date, fun c hc => ?_⟩
      obtain ⟨t, ht, rfl⟩ := Option.mem_map.1 hc
      exact (hclean.time t ht).1
    rw [hcut'] at hcut
    cases hcut
    exact ⟨p.time, ⟨rfl, fun t ht => (hclean.time t ht).2⟩, ⟨rfl, hclean.parts⟩, rfl⟩

/-! ### The Rust core -/

/-- The zone with its sign; a `Z` is none. -/
def signedZone : Option (Char × List Char) → Option (List Char)
  | none => none
  | some (c, rest) => if c = 'Z' then none else some (c :: rest)

/-- The hour, the minute, the second and the offset. -/
def IsoTime.fields (t : IsoTime) : Option (ℤ × ℤ × ℤ × ℤ) := do
  let hour ← RustCore.parseI64 t.hour
  let minute ← RustCore.parseI64 t.minute
  let second ← (t.second.map RustCore.parseI64).getD (some 0)
  let offset ← RustCore.zoneOffset (signedZone t.zone)
  some (hour, minute, second, offset)

/-- The year, the month and the day; a year has four bytes. -/
def IsoText.dateFields (p : IsoText) : Option (ℤ × ℤ × ℤ) :=
  if (String.ofList p.year).utf8ByteSize ≠ 4 then none
  else do
    let year ← RustCore.parseI64 p.year
    let month ← RustCore.parseI64 p.month
    let day ← RustCore.parseI64 p.day
    some (year, month, day)

def IsoText.instant (p : IsoText) : Option ℤ := do
  let (year, month, day) ← p.dateFields
  let (hour, minute, second, offset) ← (p.time.map fun t => t.2.fields).getD (some (0, 0, 0, 0))
  RustCore.epoch year month day hour minute second offset

theorem splitZone_eq (cs : List Char) :
    RustCore.splitZone cs = ((cutZone cs).1, signedZone (cutZone cs).2) := by
  unfold RustCore.splitZone cutZone
  split
  · obtain ⟨-, -, hmark⟩ := cutFirst_spec (· == 'Z') cs
    have hpred : (fun c : Char => decide (c ≠ 'Z')) = fun c => !(c == 'Z') := by
      funext c
      by_cases hc : c = 'Z' <;> simp [hc]
    rw [hpred, takeWhile_cut]
    cases hcut : (cutFirst (· == 'Z') cs).2 with
    | none => rfl
    | some z => simp_all [signedZone]
  · obtain ⟨-, -, hmark⟩ := cutFirst_spec RustCore.isSign cs.reverse
    rw [dropWhile_cut, takeWhile_cut, cutLast]
    cases hcut : (cutFirst RustCore.isSign cs.reverse).2 with
    | none => rfl
    | some z =>
      have hz : z.1 ≠ 'Z' := by
        intro heq
        have hsign := hmark z hcut
        rw [heq] at hsign
        exact absurd hsign (by decide)
      show _ = (_, if z.1 = 'Z' then none else _)
      rw [if_neg hz]
      rfl

theorem timeOfDay_eq (cs : List Char) :
    RustCore.timeOfDay cs = (isoTimeParts cs).bind IsoTime.fields := by
  have hpred : (fun c : Char => decide (c ≠ '.')) = fun c => !(c == '.') := by
    funext c
    by_cases hc : c = '.' <;> simp [hc]
  unfold RustCore.timeOfDay isoTimeParts
  rw [splitZone_eq]
  dsimp only
  rw [hpred, takeWhile_cut]
  generalize (cutFirst (· == '.') (cutZone cs).1).1.splitOn ':' = parts
  rcases parts with _ | ⟨hour, _ | ⟨minute, _ | ⟨second, _ | ⟨other, rest⟩⟩⟩⟩ <;> rfl

theorem datePart_eq (cs : List Char) (time : Option (Char × IsoTime)) :
    RustCore.datePart cs = (dateOf time (cs.splitOn '-')).bind IsoText.dateFields := by
  unfold RustCore.datePart
  generalize cs.splitOn '-' = parts
  rcases parts with _ | ⟨year, _ | ⟨month, _ | ⟨day, _ | ⟨other, rest⟩⟩⟩⟩ <;> rfl

theorem rust_of_parts (json : Value → String) (s : String) :
    RustCore.dateToEpoch json (.str s) = (isoParts (trim s.toList)).bind IsoText.instant := by
  have hpred : (fun c : Char => c ≠ 'T' && c ≠ ' ') = fun c => !isTimeMark c := by
    funext c
    unfold isTimeMark
    by_cases hT : c = 'T' <;> by_cases hspace : c = ' ' <;> simp [hT, hspace]
  have htime : ∀ {time parts p}, dateOf time parts = some p → p.time = time :=
    fun h => (dateOf_iff.1 h).2
  unfold RustCore.dateToEpoch isoParts
  rw [if_neg (show ¬((Value.str s).isBool || (Value.str s).isNull) = true from nofun),
    show RustCore.valueToString json (.str s) = s from rfl, hpred]
  dsimp only
  rw [takeWhile_cut, dropWhile_cut]
  obtain ⟨⟨date, cut⟩, hcut⟩ : ∃ c, cutFirst isTimeMark (trim s.toList) = c := ⟨_, rfl⟩
  rw [hcut]
  cases cut with
  | none =>
    show (RustCore.datePart date).bind _ = (dateOf none (date.splitOn '-')).bind IsoText.instant
    rw [datePart_eq date none]
    cases hdate : dateOf none (date.splitOn '-') with
    | none => rfl
    | some p =>
      show p.dateFields.bind _ = p.instant
      rw [IsoText.instant, htime hdate]
      rfl
  | some c =>
    obtain ⟨mark, rest⟩ := c
    show (RustCore.datePart date).bind (fun x => (RustCore.timeOfDay rest).bind fun y =>
      RustCore.epoch x.1 x.2.1 x.2.2 y.1 y.2.1 y.2.2.1 y.2.2.2) =
        (((isoTimeParts rest).map _).bind _).bind _
    cases ht : isoTimeParts rest with
    | none =>
      have hnone : RustCore.timeOfDay rest = none := by rw [timeOfDay_eq, ht]; rfl
      rw [hnone]
      cases RustCore.datePart date <;> rfl
    | some t =>
      have hsome : RustCore.timeOfDay rest = t.fields := by rw [timeOfDay_eq, ht]; rfl
      rw [hsome, datePart_eq date (some (mark, t))]
      show _ = (dateOf (some (mark, t)) (date.splitOn '-')).bind IsoText.instant
      cases hdate : dateOf (some (mark, t)) (date.splitOn '-') with
      | none => rfl
      | some p =>
        show p.dateFields.bind _ = p.instant
        rw [IsoText.instant, htime hdate]
        rfl

end RuleMind
