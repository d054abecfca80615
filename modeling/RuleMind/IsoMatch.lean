/-
  The regular expression of the Python engine on the parts of a text.
-/
import RuleMind.IsoText

namespace RuleMind

open Text Cut

/-! ### The regular expression -/

/-- The digits of the interpreter that are ASCII are the ten. -/
structure PyText.AsciiDigits (py : PyText) : Prop where
  decimal : ∀ c : Char, c.toNat < 128 → c.isDigit = false → py.decimal c = none

section Python
variable (py : PyText)

/-- A numeral of `min` to `max` digits. -/
def isoNumeral (min max : ℕ) (cs : List Char) : Option ℕ :=
  if min ≤ cs.length ∧ cs.length ≤ max then
    (cs.mapM (digitOf py)).map (·.foldl (fun v d => 10 * v + d) 0)
  else none

def IsoTime.civil (year month day : ℕ) (t : IsoTime) : Option Civil := do
  let hour ← isoNumeral py 1 2 t.hour
  let minute ← isoNumeral py 1 2 t.minute
  let second ← (t.second.map (isoNumeral py 1 2)).getD (some 0)
  let _ ← (t.fraction.map fun f => isoNumeral py 1 f.2.length f.2).getD (some 0)
  let offset ← isoZone py (tail t.zone)
  some ⟨year, month, day, hour, minute, second, offset⟩

def IsoText.civil (p : IsoText) : Option Civil := do
  let year ← isoNumeral py 4 4 p.year
  let month ← isoNumeral py 1 2 p.month
  let day ← isoNumeral py 1 2 p.day
  (p.time.map fun t => t.2.civil py year month day).getD (some ⟨year, month, day, 0, 0, 0, 0⟩)

variable {py}

/-! Digits from the front -/

theorem takeDigits_spec (py : PyText) (max n v : ℕ) (cs : List Char) :
    ∃ ds vs rest, cs = ds ++ rest ∧ ds.mapM (digitOf py) = some vs ∧ ds.length ≤ max ∧
      takeDigits py max n v cs = (n + ds.length, vs.foldl (fun v d => 10 * v + d) v, rest) := by
  induction max generalizing n v cs with
  | zero => exact ⟨[], [], cs, rfl, rfl, le_rfl, rfl⟩
  | succ max ih =>
    cases cs with
    | nil => exact ⟨[], [], [], rfl, rfl, Nat.zero_le _, rfl⟩
    | cons c cs =>
      cases hc : digitOf py c with
      | none => simp_all [takeDigits]
      | some d =>
        obtain ⟨ds, vs, rest, rfl, hds, hlen, htake⟩ := ih (n + 1) (10 * v + d) cs
        refine ⟨c :: ds, d :: vs, rest, rfl, ?_, Nat.succ_le_succ hlen, ?_⟩
        · rw [List.mapM_cons, hc, hds]
          rfl
        · simp only [takeDigits, hc, htake, List.length_cons, List.foldl_cons, Prod.mk.injEq,
            and_true]
          omega

variable {rest ds cs : List Char} {max v min year month day : ℕ} {c : Civil} {t : IsoTime} {p :
  IsoText}

variable {vs : List ℕ} {marks : List Char}

theorem takeDigits_append (hds : ds.mapM (digitOf py) = some vs) (hlen : ds.length ≤ max)
    (hrest : ds.length = max ∨ ∀ c ∈ rest.head?, digitOf py c = none) (n v : ℕ) :
    takeDigits py max n v (ds ++ rest) =
      (n + ds.length, vs.foldl (fun v d => 10 * v + d) v, rest) := by
  induction ds generalizing max n v vs with
  | nil =>
    cases hds
    cases max with
    | zero => rfl
    | succ max =>
      cases rest with
      | nil => rfl
      | cons c rest => simp_all [takeDigits]
  | cons c ds ih =>
    cases max with
    | zero => cases hlen
    | succ max =>
      rw [List.mapM_cons] at hds
      cases hc : digitOf py c with
      | none =>
        rw [hc] at hds
        cases hds
      | some d =>
        cases hvs : ds.mapM (digitOf py) with
        | none =>
          rw [hc, hvs] at hds
          cases hds
        | some vs' =>
          rw [hc, hvs] at hds
          cases hds
          have htake := ih hvs (Nat.le_of_succ_le_succ hlen)
            (hrest.imp (fun h => Nat.succ.inj h) id) (n + 1) (10 * v + d)
          simp only [List.cons_append, takeDigits, hc, htake, List.length_cons, List.foldl_cons,
            Prod.mk.injEq, and_true]
          omega

theorem digits_spec (h : digits py min max cs = some (v, rest)) :
    ∃ ds, cs = ds ++ rest ∧ isoNumeral py min max ds = some v := by
  obtain ⟨ds, vs, rest', rfl, hds, hlen, htake⟩ := takeDigits_spec py max 0 0 cs
  simp_all [digits, isoNumeral]

theorem digits_append (h : isoNumeral py min max ds = some v)
    (hrest : ds.length = max ∨ ∀ c ∈ rest.head?, digitOf py c = none) :
    digits py min max (ds ++ rest) = some (v, rest) := by
  unfold isoNumeral at h
  split at h
  · rename_i hlen
    obtain ⟨vs, hds, rfl⟩ := Option.map_eq_some_iff.1 h
    simp_all [takeDigits_append, digits]
  · cases h

/-! The characters of numerals and zones -/

theorem digit_of_mapM (h : ds.mapM (digitOf py) = some vs) : ∀ c ∈ ds, (digitOf py c).isSome := by
  induction ds generalizing vs with
  | nil => nofun
  | cons d ds ih =>
    rw [List.mapM_cons] at h
    obtain ⟨n, hn, hrest⟩ := Option.bind_eq_some_iff.1 h
    obtain ⟨ns, hns, -⟩ := Option.bind_eq_some_iff.1 hrest
    simp_all

theorem digit_of_numeral (h : isoNumeral py min max ds = some v) :
    (min ≤ ds.length ∧ ds.length ≤ max) ∧ ∀ c ∈ ds, (digitOf py c).isSome := by
  grind [isoNumeral, Option.map_eq_some_iff, digit_of_mapM]

theorem digitOf_mark (hpy : py.AsciiDigits) {c : Char} (h : c.toNat < 128)
    (hdigit : c.isDigit = false) : digitOf py c = none := by
  rw [digitOf, hdigit, hpy.decimal c h hdigit]
  rfl

theorem mark_not_mem (hpy : py.AsciiDigits) {c : Char}
    (h : isoNumeral py min max ds = some v) (hc : c.toNat < 128) (hdigit : c.isDigit = false) :
    c ∉ ds := by
  intro hmem
  have hsome := (digit_of_numeral h).2 c hmem
  rw [digitOf_mark hpy hc hdigit] at hsome
  cases hsome

theorem isoZone_spec {c : Char} {offset : ℤ} (h : isoZone py (c :: rest) = some offset) :
    c = 'Z' ∧ rest = [] ∧ offset = 0 ∨
      ∃ hs ms hours minutes, isoNumeral py 2 2 hs = some hours ∧
        isoNumeral py 2 2 ms = some minutes ∧ (rest = hs ++ ms ∨ rest = hs ++ ':' :: ms) ∧
        (c = '+' ∧ offset = hours * 3600 + minutes * 60 ∨
          c = '-' ∧ offset = -(hours * 3600 + minutes * 60)) := by
  unfold isoZone at h
  split at h
  · rename_i heq
    cases heq
  · simp_all
  · rename_i heq
    cases heq
    obtain ⟨⟨hours, rest⟩, hhours, hrest⟩ := Option.bind_eq_some_iff.1 h
    obtain ⟨hs, rfl, hhs⟩ := digits_spec hhours
    obtain ⟨⟨minutes, rest'⟩, hminutes, hzone⟩ := Option.bind_eq_some_iff.1 hrest
    obtain ⟨ms, hms, hnumeral⟩ := digits_spec hminutes
    dsimp only at hzone
    by_cases hend : rest' = []
    · rw [if_neg (not_not.2 hend)] at hzone
      rw [hend, List.append_nil] at hms
      refine Or.inr ⟨hs, ms, hours, minutes, hhs, hnumeral, ?_, ?_⟩
      · grind
      · grind
    · rw [if_pos hend] at hzone
      cases hzone

/-! The parts of a match -/

theorem isoSecond_spec (h : isoSecond py cs = some (v, rest)) :
    ∃ second : Option (List Char), cs = tail (second.map fun s => (':', s)) ++ rest ∧
      (second.map (isoNumeral py 1 2)).getD (some 0) = some v := by
  unfold isoSecond at h
  split at h
  · obtain ⟨ds, rfl, hds⟩ := digits_spec h
    exact ⟨some ds, rfl, hds⟩
  · cases h
    exact ⟨none, rfl, rfl⟩

theorem isoFraction_spec (h : isoFraction py cs = some rest) :
    ∃ fraction : Option (Char × List Char), cs = tail fraction ++ rest ∧
      (∀ f ∈ fraction, f.1 = '.') ∧
      ∃ n, (fraction.map fun f => isoNumeral py 1 f.2.length f.2).getD (some 0) = some n := by
  unfold isoFraction at h
  split at h
  · obtain ⟨⟨n, rest'⟩, hdigits, rfl⟩ := Option.map_eq_some_iff.1 h
    obtain ⟨ds, rfl, hds⟩ := digits_spec hdigits
    refine ⟨some ('.', ds), rfl, fun f hf => by cases hf; rfl, n, ?_⟩
    simp_all [isoNumeral]
  · cases h
    exact ⟨none, rfl, nofun, 0, rfl⟩

theorem exists_tail (cs : List Char) : ∃ zone : Option (Char × List Char), cs = tail zone := by
  cases cs with
  | nil => exact ⟨none, rfl⟩
  | cons c cs => exact ⟨some (c, cs), rfl⟩

theorem expect_spec {ok : Char → Bool} (h : expect ok cs = some rest) :
    ∃ c, cs = c :: rest ∧ ok c = true := by
  cases cs with
  | nil => cases h
  | cons c cs => simp_all [expect]

theorem clock_eq (t : IsoTime) : t.clock =
    t.hour ++ ':' :: (t.minute ++ tail (t.second.map fun s => (':', s))) := by
  obtain ⟨hour, minute, second, fraction, zone⟩ := t
  cases second with
  | none => simp [IsoTime.clock, IsoTime.numerals, List.intercalate, tail]
  | some s => simp [IsoTime.clock, IsoTime.numerals, List.intercalate, tail]

theorem isoTime_spec (h : isoTime py year month day cs = some c) :
    ∃ time : Option (Char × IsoTime), cs = tail (IsoText.timeText time) ∧
      (∀ t ∈ time, isTimeMark t.1 = true ∧ ∀ f ∈ t.2.fraction, f.1 = '.') ∧
      (time.map fun t => t.2.civil py year month day).getD
        (some ⟨year, month, day, 0, 0, 0, 0⟩) = some c := by
  unfold isoTime at h
  split at h
  · cases h
    exact ⟨none, rfl, nofun, rfl⟩
  · obtain ⟨rest₁, hmark, h₁⟩ := Option.bind_eq_some_iff.1 h
    obtain ⟨⟨hour, rest₂⟩, hhour, h₂⟩ := Option.bind_eq_some_iff.1 h₁
    obtain ⟨rest₃, hcolon, h₃⟩ := Option.bind_eq_some_iff.1 h₂
    obtain ⟨⟨minute, rest₄⟩, hminute, h₄⟩ := Option.bind_eq_some_iff.1 h₃
    obtain ⟨⟨second, rest₅⟩, hsecond, h₅⟩ := Option.bind_eq_some_iff.1 h₄
    obtain ⟨rest₆, hfraction, h₆⟩ := Option.bind_eq_some_iff.1 h₅
    obtain ⟨offset, hzone, h₇⟩ := Option.bind_eq_some_iff.1 h₆
    cases h₇
    obtain ⟨mark, hcs, hmark⟩ := expect_spec hmark
    obtain ⟨hs, hrest₁, hhour⟩ := digits_spec hhour
    obtain ⟨colon, hrest₂, hcolon⟩ := expect_spec hcolon
    obtain ⟨ms, hrest₃, hminute⟩ := digits_spec hminute
    obtain ⟨ss, hrest₄, hsecond⟩ := isoSecond_spec hsecond
    obtain ⟨fraction, hrest₅, hpoint, n, hfraction⟩ := isoFraction_spec hfraction
    obtain ⟨zone, hrest₆⟩ := exists_tail rest₆
    refine ⟨some (mark, ⟨hs, ms, ss, fraction, zone⟩), ?_, ?_, ?_⟩
    · show _ = mark :: IsoTime.text _
      rw [IsoTime.text, IsoTime.body, clock_eq, hcs, hrest₁, hrest₂, beq_iff_eq.1 hcolon, hrest₃,
        hrest₄, hrest₅, hrest₆]
      simp only [List.append_assoc, List.cons_append]
    · intro t ht
      cases ht
      exact ⟨hmark, hpoint⟩
    · rw [hrest₆] at hzone
      simp only [Option.map_some, Option.getD_some, IsoTime.civil, hhour, hminute, hsecond,
        hfraction, hzone]
      rfl

def IsoText.Marked (p : IsoText) : Prop :=
  ∀ t ∈ p.time, isTimeMark t.1 = true ∧ ∀ f ∈ t.2.fraction, f.1 = '.'

theorem date_eq (p : IsoText) : p.date = p.year ++ '-' :: (p.month ++ '-' :: p.day) := by
  simp [IsoText.date, List.intercalate]

theorem isoMatch_spec (h : isoMatch py cs = some c) :
    ∃ p : IsoText, cs = p.text ∧ p.Marked ∧ p.civil py = some c := by
  obtain ⟨⟨year, rest₁⟩, hyear, h₁⟩ := Option.bind_eq_some_iff.1 h
  obtain ⟨rest₂, hdash, h₂⟩ := Option.bind_eq_some_iff.1 h₁
  obtain ⟨⟨month, rest₃⟩, hmonth, h₃⟩ := Option.bind_eq_some_iff.1 h₂
  obtain ⟨rest₄, hdash', h₄⟩ := Option.bind_eq_some_iff.1 h₃
  obtain ⟨⟨day, rest₅⟩, hday, htime⟩ := Option.bind_eq_some_iff.1 h₄
  obtain ⟨ys, hcs, hyear⟩ := digits_spec hyear
  obtain ⟨dash, hrest₁, hdash⟩ := expect_spec hdash
  obtain ⟨ms, hrest₂, hmonth⟩ := digits_spec hmonth
  obtain ⟨dash', hrest₃, hdash'⟩ := expect_spec hdash'
  obtain ⟨ds, hrest₄, hday⟩ := digits_spec hday
  obtain ⟨time, hrest₅, hmarked, hcivil⟩ := isoTime_spec htime
  refine ⟨⟨ys, ms, ds, time⟩, ?_, hmarked, ?_⟩
  · rw [IsoText.text, date_eq, hcs, hrest₁, hrest₂, beq_iff_eq.1 hdash, hrest₃, hrest₄,
      beq_iff_eq.1 hdash', hrest₅]
    simp only [List.append_assoc, List.cons_append]
  grind [IsoText.civil]

/-! The parts of a match hold no separators -/

theorem IsoTime.civil_spec (h : t.civil py year month day = some c) :
    ∃ hour minute second n offset, isoNumeral py 1 2 t.hour = some hour ∧
      isoNumeral py 1 2 t.minute = some minute ∧
      (t.second.map (isoNumeral py 1 2)).getD (some 0) = some second ∧
      (t.fraction.map fun f => isoNumeral py 1 f.2.length f.2).getD (some 0) = some n ∧
      isoZone py (tail t.zone) = some offset ∧
      c = ⟨year, month, day, hour, minute, second, offset⟩ := by
  obtain ⟨hour, hhour, h₁⟩ := Option.bind_eq_some_iff.1 h
  obtain ⟨minute, hminute, h₂⟩ := Option.bind_eq_some_iff.1 h₁
  obtain ⟨second, hsecond, h₃⟩ := Option.bind_eq_some_iff.1 h₂
  obtain ⟨n, hfraction, h₄⟩ := Option.bind_eq_some_iff.1 h₃
  obtain ⟨offset, hzone, h₅⟩ := Option.bind_eq_some_iff.1 h₄
  simp_all

theorem IsoText.civil_spec (h : p.civil py = some c) :
    ∃ year month day, isoNumeral py 4 4 p.year = some year ∧
      isoNumeral py 1 2 p.month = some month ∧ isoNumeral py 1 2 p.day = some day ∧
      (p.time.map fun t => t.2.civil py year month day).getD
        (some ⟨year, month, day, 0, 0, 0, 0⟩) = some c := by
  obtain ⟨year, hyear, h₁⟩ := Option.bind_eq_some_iff.1 h
  simp_all [Option.bind_eq_some_iff]

theorem mem_clock (h : t.civil py year month day = some c) :
    ∀ x ∈ t.clock, (digitOf py x).isSome ∨ x = ':' := by
  obtain ⟨hour, minute, second, n, offset, hhour, hminute, hsecond, -⟩ := IsoTime.civil_spec h
  intro x hx
  rw [clock_eq, List.mem_append, List.mem_cons, List.mem_append] at hx
  rcases hx with hx | hx | hx | hx
  · exact Or.inl ((digit_of_numeral hhour).2 x hx)
  · exact Or.inr hx
  · exact Or.inl ((digit_of_numeral hminute).2 x hx)
  · cases hs : t.second with
    | none =>
      rw [hs] at hx
      cases hx
    | some s =>
      rw [hs] at hx hsecond
      rcases List.mem_cons.1 hx with hx | hx
      · exact Or.inr hx
      · exact Or.inl ((digit_of_numeral hsecond).2 x hx)

theorem mem_body (h : t.civil py year month day = some c) (hpoint : ∀ f ∈ t.fraction, f.1 = '.') :
    ∀ x ∈ t.body, (digitOf py x).isSome ∨ x = ':' ∨ x = '.' := by
  obtain ⟨hour, minute, second, n, offset, -, -, -, hfraction, -⟩ := IsoTime.civil_spec h
  intro x hx
  rw [IsoTime.body, List.mem_append] at hx
  rcases hx with hx | hx
  · exact (mem_clock h x hx).imp id Or.inl
  · cases hf : t.fraction with
    | none =>
      rw [hf] at hx
      cases hx
    | some f =>
      rw [hf] at hx hfraction
      rcases List.mem_cons.1 hx with hx | hx
      · exact Or.inr (Or.inr (hx.trans (hpoint f hf)))
      · exact Or.inl ((digit_of_numeral hfraction).2 x hx)

theorem other_mark (hpy : py.AsciiDigits) {x : Char}
    (h : ∀ c ∈ cs, (digitOf py c).isSome ∨ c ∈ marks) (hx : x.toNat < 128)
    (hdigit : x.isDigit = false) (hmark : x ∉ marks) : x ∉ cs := by grind -ring -linarith [digitOf_mark]

theorem unsigned_of (hpy : py.AsciiDigits)
    (h : ∀ c ∈ cs, (digitOf py c).isSome ∨ c ∈ marks) (hplus : '+' ∉ marks) (hminus : '-' ∉ marks) :
    ∀ c ∈ cs, RustCore.isSign c = false := by
  intro c hc
  have hne : c ≠ '+' ∧ c ≠ '-' := by
    constructor
    · rintro rfl
      exact other_mark hpy h (by decide) (by decide) hplus hc
    · rintro rfl
      exact other_mark hpy h (by decide) (by decide) hminus hc
  simp_all [RustCore.isSign]

theorem numeral_of_civil (h : t.civil py year month day = some c) :
    ∀ part ∈ t.numerals, ∃ v, isoNumeral py 1 2 part = some v := by
  obtain ⟨hour, minute, second, n, offset, hhour, hminute, hsecond, -⟩ := IsoTime.civil_spec h
  intro part hpart
  rcases List.mem_cons.1 hpart with rfl | hpart
  · exact ⟨hour, hhour⟩
  · grind

theorem mem_zone {z : Char × List Char}
    (h : t.civil py year month day = some c) (hz : t.zone = some z) :
    z = ('Z', []) ∨ RustCore.isSign z.1 = true ∧ ∀ x ∈ z.2, (digitOf py x).isSome ∨ x ∈ [':'] := by
  obtain ⟨hour, minute, second, n, offset, -, -, -, -, hzone, -⟩ := IsoTime.civil_spec h
  obtain ⟨mark, rest⟩ := z
  rw [hz] at hzone
  rcases isoZone_spec hzone with ⟨rfl, rfl, -⟩ | ⟨hs, ms, hours, minutes, hhs, hms, hrest, hsign⟩
  · exact Or.inl rfl
  · refine Or.inr ⟨?_, fun x hx => ?_⟩
    · rcases hsign with ⟨rfl, -⟩ | ⟨rfl, -⟩ <;> rfl
    · rcases hrest with rfl | rfl
      · rcases List.mem_append.1 hx with hx | hx
        · exact Or.inl ((digit_of_numeral hhs).2 x hx)
        · exact Or.inl ((digit_of_numeral hms).2 x hx)
      · rcases List.mem_append.1 hx with hx | hx
        · exact Or.inl ((digit_of_numeral hhs).2 x hx)
        · rcases List.mem_cons.1 hx with rfl | hx
          · exact Or.inr List.mem_cons_self
          · exact Or.inl ((digit_of_numeral hms).2 x hx)

theorem IsoTime.clean_of_civil (hpy : py.AsciiDigits)
    (h : t.civil py year month day = some c) (hpoint : ∀ f ∈ t.fraction, f.1 = '.') :
    t.Clean := by
  have hbody : ∀ x ∈ t.body, (digitOf py x).isSome ∨ x ∈ [':', '.'] := by
    intro x hx
    rcases mem_body h hpoint x hx with hx | rfl | rfl
    · exact Or.inl hx
    · exact Or.inr (by decide)
    · exact Or.inr (by decide)
  have hclock : ∀ x ∈ t.clock, (digitOf py x).isSome ∨ x ∈ [':'] := by
    intro x hx
    rcases mem_clock h x hx with hx | rfl
    · exact Or.inl hx
    · exact Or.inr List.mem_cons_self
  refine ⟨?_, ?_, hpoint, ?_, fun _ => unsigned_of hpy hbody (by decide) (by decide), ?_⟩
  · grind [numeral_of_civil, mark_not_mem]
  · grind [other_mark]
  · exact other_mark hpy hbody (by decide) (by decide) (by decide)
  · intro z hz
    rcases mem_zone h hz with rfl | ⟨hsign, hrest⟩
    · exact Or.inl rfl
    · exact Or.inr ⟨hsign, other_mark hpy hrest (by decide) (by decide) (by decide),
        unsigned_of hpy hrest (by decide) (by decide)⟩

theorem mem_date (h : p.civil py = some c) : ∀ x ∈ p.date, (digitOf py x).isSome ∨ x ∈ ['-'] := by
  obtain ⟨year, month, day, hyear, hmonth, hday, -⟩ := IsoText.civil_spec h
  intro x hx
  rw [date_eq, List.mem_append, List.mem_cons, List.mem_append, List.mem_cons] at hx
  rcases hx with hx | rfl | hx | rfl | hx
  · exact Or.inl ((digit_of_numeral hyear).2 x hx)
  · exact Or.inr List.mem_cons_self
  · exact Or.inl ((digit_of_numeral hmonth).2 x hx)
  · exact Or.inr List.mem_cons_self
  · exact Or.inl ((digit_of_numeral hday).2 x hx)

theorem IsoText.clean_of_civil (hpy : py.AsciiDigits)
    (h : p.civil py = some c) (hmarked : p.Marked) : p.Clean := by
  have hdate := mem_date h
  obtain ⟨year, month, day, hyear, hmonth, hday, htime⟩ := IsoText.civil_spec h
  refine ⟨?_, ?_, fun t ht => ⟨(hmarked t ht).1, ?_⟩⟩
  · intro part hpart
    simp only [List.mem_cons, List.not_mem_nil, or_false] at hpart
    rcases hpart with rfl | rfl | rfl
    · exact mark_not_mem hpy hyear (by decide) (by decide)
    · exact mark_not_mem hpy hmonth (by decide) (by decide)
    · exact mark_not_mem hpy hday (by decide) (by decide)
  · intro x hx
    have hne : x ≠ 'T' ∧ x ≠ ' ' := by
      constructor
      · rintro rfl
        exact other_mark hpy hdate (by decide) (by decide) (by decide) hx
      · rintro rfl
        exact other_mark hpy hdate (by decide) (by decide) (by decide) hx
    simp_all [isTimeMark]
  · rw [ht, Option.map_some, Option.getD_some] at htime
    exact IsoTime.clean_of_civil hpy htime (hmarked t ht).2

/-! Texts put together match -/

theorem head_tail {z : Option (Char × List Char)} {ok : Char → Prop}
    (hz : ∀ f ∈ z, ok f.1) (hrest : ∀ c ∈ rest.head?, ok c) :
    ∀ c ∈ (tail z ++ rest).head?, ok c := by
  cases z with
  | none => exact hrest
  | some f =>
    intro c hc
    cases hc
    exact hz f rfl

theorem isoSecond_append {second : Option (List Char)}
    (h : (second.map (isoNumeral py 1 2)).getD (some 0) = some v)
    (hdigit : ∀ c ∈ rest.head?, digitOf py c = none) (hcolon : ∀ c ∈ rest.head?, c ≠ ':') :
    isoSecond py (tail (second.map fun s => (':', s)) ++ rest) = some (v, rest) := by
  cases second with
  | none =>
    cases h
    cases rest with
    | nil => rfl
    | cons c rest =>
      show isoSecond py (c :: rest) = _
      unfold isoSecond
      simp_all
  | some s => exact digits_append h (Or.inr hdigit)

theorem isoFraction_append {fraction : Option (Char × List Char)} {n : ℕ}
    (hpoint : ∀ f ∈ fraction, f.1 = '.')
    (h : (fraction.map fun f => isoNumeral py 1 f.2.length f.2).getD (some 0) = some n)
    (hdigit : ∀ c ∈ rest.head?, digitOf py c = none) (hdot : ∀ c ∈ rest.head?, c ≠ '.') :
    isoFraction py (tail fraction ++ rest) = some rest := by
  cases fraction with
  | none =>
    cases rest with
    | nil => rfl
    | cons c rest =>
      show isoFraction py (c :: rest) = _
      unfold isoFraction
      simp_all
  | some f =>
    obtain ⟨point, ds⟩ := f
    have hp : point = '.' := hpoint _ rfl
    subst hp
    have hnumeral : isoNumeral py 1 (ds ++ rest).length ds = some n := by
      obtain ⟨⟨hlen, -⟩, -⟩ := digit_of_numeral h
      simp only [Option.map_some, Option.getD_some] at h
      unfold isoNumeral at h ⊢
      rw [if_pos ⟨hlen, le_rfl⟩] at h
      rw [if_pos ⟨hlen, by rw [List.length_append]; omega⟩, h]
    show ((digits py 1 (ds ++ rest).length (ds ++ rest)).map Prod.snd) = _
    rw [digits_append hnumeral (Or.inr hdigit)]
    rfl

theorem expect_cons (ok : Char → Bool) {c : Char} (h : ok c = true) (cs : List Char) :
    expect ok (c :: cs) = some cs := if_pos h

theorem IsoTime.text_eq (t : IsoTime) : t.text = t.hour ++ ':' :: (t.minute ++
    (tail (t.second.map fun s => (':', s)) ++ (tail t.fraction ++ tail t.zone))) := by
  rw [IsoTime.text, IsoTime.body, clock_eq]
  simp only [List.append_assoc, List.cons_append]

theorem isoTime_append (hpy : py.AsciiDigits) {mark : Char}
    (hmark : isTimeMark mark = true) (hpoint : ∀ f ∈ t.fraction, f.1 = '.')
    (h : t.civil py year month day = some c) :
    isoTime py year month day (mark :: t.text) = some c := by
  obtain ⟨hour, minute, second, n, offset, hhour, hminute, hsecond, hfraction, hzone, rfl⟩ :=
    IsoTime.civil_spec h
  -- The marks that may follow a numeral are no digits.
  have hmarks : ∀ x, x ∈ [':', '.', 'Z', '+', '-'] → digitOf py x = none := by
    intro x hx
    refine digitOf_mark hpy ?_ ?_
    · revert x
      simp
    · revert x
      simp
  have hz : ∀ z ∈ t.zone, z.1 ∈ ['Z', '+', '-'] := by
    intro z hz
    rcases mem_zone h hz with rfl | ⟨hsign, -⟩
    · exact List.mem_cons_self
    · simp_all [RustCore.isSign]
  have hzone' : ∀ x ∈ (tail t.zone).head?, x ∈ ['Z', '+', '-'] := by
    intro x hx
    rw [← List.append_nil (tail t.zone)] at hx
    exact head_tail hz (by simp) x hx
  have hfraction' : ∀ x ∈ (tail t.fraction ++ tail t.zone).head?, x ∈ ['.', 'Z', '+', '-'] :=
    head_tail (fun f hf => by rw [hpoint f hf]; decide)
      fun x hx => List.mem_cons_of_mem _ (hzone' x hx)
  have hsecond' : ∀ x ∈ (tail (t.second.map fun s => (':', s)) ++
      (tail t.fraction ++ tail t.zone)).head?, x ∈ [':', '.', 'Z', '+', '-'] := by
    refine head_tail (fun f hf => ?_) fun x hx => List.mem_cons_of_mem _ (hfraction' x hx)
    obtain ⟨s, -, rfl⟩ := Option.mem_map.1 hf
    exact List.mem_cons_self
  have hdot : ∀ x ∈ ['Z', '+', '-'], x ≠ '.' := by simp
  have hcolon : ∀ x ∈ ['.', 'Z', '+', '-'], x ≠ ':' := by simp
  rw [IsoTime.text_eq]
  unfold isoTime
  simp only [expect_cons (fun c => c == 'T' || c == ' ') hmark, Option.bind_eq_bind,
    Option.bind_some]
  rw [digits_append hhour (Or.inr fun x hx => by cases hx; exact hmarks _ (by decide))]
  simp only [Option.bind_some]
  rw [expect_cons _ (by rfl)]
  simp only [Option.bind_some]
  rw [digits_append hminute (Or.inr fun x hx => hmarks x (hsecond' x hx))]
  simp only [Option.bind_some]
  rw [isoSecond_append hsecond
    (fun x hx => hmarks x (List.mem_cons_of_mem _ (hfraction' x hx)))
    fun x hx => hcolon x (hfraction' x hx)]
  simp only [Option.bind_some]
  rw [isoFraction_append hpoint hfraction
    (fun x hx => hmarks x (List.mem_cons_of_mem _ (List.mem_cons_of_mem _ (hzone' x hx))))
    fun x hx => hdot x (hzone' x hx)]
  simp only [Option.bind_some, hzone]

theorem isoMatch_text (hpy : py.AsciiDigits) (hmarked : p.Marked)
    (h : p.civil py = some c) : isoMatch py p.text = some c := by
  obtain ⟨year, month, day, hyear, hmonth, hday, htime⟩ := IsoText.civil_spec h
  have hdash : digitOf py '-' = none := digitOf_mark hpy (by decide) (by decide)
  have hmark : ∀ x ∈ (tail (IsoText.timeText p.time)).head?, digitOf py x = none := by
    intro x hx
    cases ht : p.time with
    | none =>
      rw [ht] at hx
      cases hx
    | some t =>
      rw [ht] at hx
      cases hx
      have ht' := (hmarked t ht).1
      simp only [isTimeMark, Bool.or_eq_true, beq_iff_eq] at ht'
      rcases ht' with ht' | ht' <;> rw [ht'] <;> exact digitOf_mark hpy (by decide) (by decide)
  have htext : p.text = p.year ++ '-' :: (p.month ++ '-' :: (p.day ++
      tail (IsoText.timeText p.time))) := by
    rw [IsoText.text, date_eq]
    simp only [List.append_assoc, List.cons_append]
  have hiso : isoTime py year month day (tail (IsoText.timeText p.time)) = some c := by
    cases ht : p.time with
    | none =>
      rw [ht] at htime
      exact htime
    | some t =>
      rw [ht] at htime
      exact isoTime_append hpy (hmarked t ht).1 (hmarked t ht).2 htime
  rw [htext]
  unfold isoMatch
  simp only [Option.bind_eq_bind]
  rw [digits_append hyear (Or.inr fun x hx => by cases hx; exact hdash)]
  simp only [Option.bind_some]
  rw [expect_cons _ (by rfl)]
  simp only [Option.bind_some]
  rw [digits_append hmonth (Or.inr fun x hx => by cases hx; exact hdash)]
  simp only [Option.bind_some]
  rw [expect_cons _ (by rfl)]
  simp only [Option.bind_some]
  rw [digits_append hday (Or.inr hmark)]
  exact hiso

theorem isoMatch_iff (hpy : py.AsciiDigits) :
    isoMatch py cs = some c ↔ ∃ p, isoParts cs = some p ∧ p.civil py = some c := by
  constructor
  · grind [isoMatch_spec, isoParts_iff, IsoText.clean_of_civil]
  · rintro ⟨p, hp, hcivil⟩
    obtain ⟨rfl, hclean⟩ := isoParts_iff.1 hp
    exact isoMatch_text hpy (fun t ht => ⟨(hclean.time t ht).1, (hclean.time t ht).2.point⟩) hcivil

end Python

end RuleMind
