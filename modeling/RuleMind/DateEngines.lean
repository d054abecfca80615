/-
  The dates of the two engines on the same texts.
-/
import RuleMind.DateReading

namespace RuleMind

open Text Cut

/-! ### Controls and spaces at the ends -/

/-- The controls that only Python's `strip` takes off. -/
def isControl (c : Char) : Bool := 0x1c ≤ c.toNat && c.toNat ≤ 0x1f

def IsoText.EndsInNumeral (p : IsoText) : Prop :=
  ∀ t ∈ p.time, t.2.fraction = none ∧ t.2.zone = none

section Ends
variable {p : IsoText} {post : List Char}

theorem parts_behind {mark : Char} {t : IsoTime} (ht : p.time = some (mark, t)) (h : p.Clean)
    (hpost : ∀ c ∈ post, pySpace c = true) :
    isoParts (p.text ++ post) = some { p with time := some (mark, t.extend post) } := by
  obtain ⟨year, month, day, time⟩ := p
  cases ht
  refine isoParts_iff.2 ⟨?_, h.parts, h.date, ?_⟩
  · show (_ ++ mark :: t.text) ++ post = _ ++ mark :: (t.extend post).text
    rw [extend_text, List.append_assoc]
    rfl
  · intro t' ht'
    cases ht'
    exact ⟨(h.time _ rfl).1, extend_clean (h.time _ rfl).2 hpost⟩

theorem control_unread {c : Char} (h : isControl c = true) :
    ¬(c.isDigit = true ∨ RustCore.isSign c = true) := by
  have hspace : pySpace c = true := by
    unfold pySpace
    rw [show (decide (0x1c ≤ c.toNat) && decide (c.toNat ≤ 0x1f)) = true from h, Bool.or_true]
  simp_all [pySpace_other]

variable {cs : List Char} {q : IsoText}

theorem instant_head {e : ℤ} (h : isoParts cs = some q) (hinstant : q.instant = some e) :
    ∀ c ∈ cs.head?, c.isDigit = true ∨ RustCore.isSign c = true := by
  obtain ⟨rfl, -⟩ := isoParts_iff.1 h
  obtain ⟨y, m, d, _, _, _, _, hdate, -⟩ := instant_spec hinstant
  obtain ⟨-, _, _, _, hyear, -⟩ := dateFields_spec hdate
  obtain ⟨hne, hchars⟩ := parseI64_chars hyear
  obtain ⟨c, rest, hc⟩ := List.exists_cons_of_ne_nil hne
  simp_all [IsoText.text, date_eq]

theorem instant_last {e : ℤ} (h : isoParts cs = some q)
    (hinstant : q.instant = some e) (htime : q.time = none) :
    ∀ c ∈ cs.getLast?, c.isDigit = true ∨ RustCore.isSign c = true := by
  obtain ⟨rfl, -⟩ := isoParts_iff.1 h
  obtain ⟨y, m, d, _, _, _, _, hdate, -⟩ := instant_spec hinstant
  obtain ⟨-, _, _, _, -, -, hday, -⟩ := dateFields_spec hdate
  obtain ⟨hne, hchars⟩ := parseI64_chars hday
  intro x hx
  have htext : q.text = (q.year ++ '-' :: (q.month ++ ['-'])) ++ q.day := by
    rw [IsoText.text, date_eq, htime]
    simp [IsoText.timeText, tail]
  grind [List.getLast?_append_of_ne_nil, List.mem_of_mem_getLast?]

theorem colon_of_time {t : Char × IsoTime}
    (h : isoParts cs = some q) (ht : q.time = some t) : ':' ∈ cs := by
  obtain ⟨rfl, -⟩ := isoParts_iff.1 h
  rw [IsoText.text, ht]
  refine List.mem_append_right _ (List.mem_cons_of_mem _ ?_)
  rw [IsoTime.text_eq]
  exact List.mem_append_right _ List.mem_cons_self

theorem rust_behind_numeral {py : PyText} (hpy : py.AsciiDigits) {c : Civil}
    (hcivil : p.civil py = some c) (hclean : p.Clean) (hend : p.EndsInNumeral)
    (hpost : ∀ c ∈ post, pySpace c = true) (hne : post ≠ [])
    (hlast : ∃ x ∈ (p.text ++ post).getLast?, isControl x = true) :
    (isoParts (p.text ++ post)).bind IsoText.instant = none := by
  cases htime : p.time with
  | none =>
    have hcolon : ':' ∉ p.text ++ post := by
      refine not_mem_extended hpost (by decide) ?_
      rw [IsoText.text, htime, IsoText.timeText, Option.map_none, tail, List.append_nil]
      exact other_mark hpy (mem_date hcivil) (by decide) (by decide) (by decide)
    cases hread : (isoParts (p.text ++ post)).bind IsoText.instant with
    | none => rfl
    | some e =>
      obtain ⟨q, hq, hinstant⟩ := Option.bind_eq_some_iff.1 hread
      cases hqtime : q.time with
      | none =>
        obtain ⟨x, hx, hcontrol⟩ := hlast
        exact absurd (instant_last hq hinstant hqtime x hx) (control_unread hcontrol)
      | some t => exact absurd (colon_of_time hq hqtime) hcolon
  | some t =>
    obtain ⟨mark, t⟩ := t
    rw [parts_behind htime hclean hpost, Option.bind_some]
    cases hread : ({ p with time := some (mark, t.extend post) } : IsoText).instant with
    | none => rfl
    | some e =>
      obtain ⟨_, _, _, _, _, _, _, -, hfields, -⟩ := instant_spec hread
      rw [Option.map_some, Option.getD_some,
        extend_numeral hpost hne (hend _ htime).1 (hend _ htime).2] at hfields
      cases hfields

end Ends

/-! The spaces at the ends -/

theorem trim_parts (cs : List Char) : ∃ pre post, trim cs = pre ++ (pyStrip cs ++ post) ∧
    (∀ c ∈ pre, pySpace c = true) ∧ (∀ c ∈ post, pySpace c = true) := by
  obtain ⟨front, back, hcs, hfront, hback, -⟩ := trimBy_exists isSpace cs
  obtain ⟨pre, post, hcore, hpre, hpost, hhead, hlast⟩ := trimBy_exists pySpace (trim cs)
  have hwider : ∀ c, isSpace c = true → pySpace c = true := by
    intro c hc
    rw [pySpace, hc, Bool.true_or]
  refine ⟨pre, post, ?_, hpre, hpost⟩
  have hwhole : cs = (front ++ pre) ++ (trimBy pySpace (trim cs) ++ (post ++ back)) := by
    calc cs = front ++ (trim cs ++ back) := hcs
      _ = front ++ ((pre ++ (trimBy pySpace (trim cs) ++ post)) ++ back) := by rw [← hcore]
      _ = _ := by simp only [List.append_assoc]
  have hparts : trimBy pySpace ((front ++ pre) ++
      (trimBy pySpace (trim cs) ++ (post ++ back))) = trimBy pySpace (trim cs) := by
    refine trimBy_parts ?_ ?_ hhead hlast
    · grind -ring -linarith
    · grind -ring -linarith
  have hstrip : pyStrip cs = trimBy pySpace (trim cs) :=
    (congrArg (trimBy pySpace) hwhole).trans hparts
  rw [hstrip]
  exact hcore

theorem control_of_end {cs : List Char} {c : Char} (h : pySpace c = true)
    (hc : c ∈ (trim cs).head? ∨ c ∈ (trim cs).getLast?) : isControl c = true := by
  obtain ⟨-, -, -, -, -, hhead, hlast⟩ := trimBy_exists isSpace cs
  have hspace : isSpace c = false := hc.elim (hhead c) (hlast c)
  rw [pySpace, hspace, Bool.false_or] at h
  exact h

theorem trim_behind {cs : List Char} (hstart : ¬∃ c ∈ (trim cs).head?, isControl c = true) :
    ∃ post, trim cs = pyStrip cs ++ post ∧ (∀ c ∈ post, pySpace c = true) ∧
      (post ≠ [] ↔ ∃ c ∈ (trim cs).getLast?, isControl c = true) := by
  obtain ⟨pre, post, htrim, hpre, hpost⟩ := trim_parts cs
  have hnil : pre = [] := by
    cases pre with
    | nil => rfl
    | cons x pre =>
      have hx : x ∈ (trim cs).head? := by
        rw [htrim]
        rfl
      exact absurd ⟨x, hx, control_of_end (hpre x List.mem_cons_self) (Or.inl hx)⟩ hstart
  rw [hnil, List.nil_append] at htrim
  refine ⟨post, htrim, hpost, ?_, ?_⟩
  · intro hne
    have hmem : post.getLast hne ∈ (trim cs).getLast? := by
      rw [htrim, List.getLast?_append_of_ne_nil _ hne, List.getLast?_eq_some_getLast hne]
      rfl
    exact ⟨_, hmem, control_of_end (hpost _ (List.getLast_mem hne)) (Or.inr hmem)⟩
  · rintro ⟨c, hc, hcontrol⟩ rfl
    obtain ⟨-, -, -, -, -, -, hlast⟩ := trimBy_exists pySpace cs
    rw [htrim, List.append_nil] at hc
    have hspace := hlast c hc
    rw [pySpace, show (decide (0x1c ≤ c.toNat) && decide (c.toNat ≤ 0x1f)) = true from hcontrol,
      Bool.or_true] at hspace
    cases hspace

/-! ### Dates of either engine -/

/-- A time of the Rust core: integers within their ranges, and four digits in an offset. -/
structure IsoTime.Dated (t : IsoTime) : Prop where
  hour : ∃ n, RustCore.parseI64 t.hour = some n ∧ 0 ≤ n ∧ n ≤ 23
  minute : ∃ n, RustCore.parseI64 t.minute = some n ∧ 0 ≤ n ∧ n ≤ 59
  second : ∀ s ∈ t.second, ∃ n, RustCore.parseI64 s = some n ∧ 0 ≤ n ∧ n ≤ 59
  zone : ∀ z ∈ t.zone, z.1 ≠ 'Z' → ((z.1 :: z.2).filter Char.isDigit).length = 4

structure IsoText.Dated (p : IsoText) : Prop where
  year : (String.ofList p.year).utf8ByteSize = 4
  date : ∃ year month day, RustCore.parseI64 p.year = some year ∧
    RustCore.parseI64 p.month = some month ∧ RustCore.parseI64 p.day = some day ∧
    1 ≤ month ∧ month ≤ 12 ∧ 1 ≤ day ∧ day ≤ daysInMonth year.toNat month.toNat
  time : ∀ t ∈ p.time, t.2.Dated

theorem zoneOffset_isSome (zone : Option (Char × List Char)) :
    (∃ n, RustCore.zoneOffset (signedZone zone) = some n) ↔
      ∀ z ∈ zone, z.1 ≠ 'Z' → ((z.1 :: z.2).filter Char.isDigit).length = 4 := by
  cases zone with
  | none => exact ⟨fun _ => nofun, fun _ => ⟨0, rfl⟩⟩
  | some z =>
    obtain ⟨c, rest⟩ := z
    by_cases hZ : c = 'Z'
    · rw [hZ]
      exact ⟨fun _ z hz hne => by cases hz; exact absurd rfl hne, fun _ => ⟨0, rfl⟩⟩
    simp_all [signedZone_sign, RustCore.zoneOffset]

theorem fields_of_dated {t : IsoTime} (h : t.Dated) :
    ∃ hour minute second offset, t.fields = some (hour, minute, second, offset) ∧
      (0 ≤ hour ∧ hour ≤ 23) ∧ (0 ≤ minute ∧ minute ≤ 59) ∧ 0 ≤ second ∧ second ≤ 59 := by
  obtain ⟨hour, hhour, hour0, hour23⟩ := h.hour
  obtain ⟨minute, hminute, minute0, minute59⟩ := h.minute
  obtain ⟨offset, hoffset⟩ := (zoneOffset_isSome t.zone).2 h.zone
  obtain ⟨second, hsecond, second0, second59⟩ :
      ∃ n, (t.second.map RustCore.parseI64).getD (some 0) = some n ∧ 0 ≤ n ∧ n ≤ 59 := by
    cases hs : t.second with
    | none => exact ⟨0, rfl, le_rfl, by decide⟩
    | some s => exact h.second s hs
  simp_all [IsoTime.fields]

theorem dated_iff {p : IsoText} : p.Dated ↔ ∃ e, p.instant = some e := by
  constructor
  · intro h
    obtain ⟨year, month, day, hyear, hmonth, hday, hrange⟩ := h.date
    have hdate : p.dateFields = some (year, month, day) := by
      rw [IsoText.dateFields, if_neg (not_not.2 h.year), hyear, hmonth, hday]
      rfl
    obtain ⟨hour, minute, second, offset, hfields, hhour, hminute, hsecond⟩ :
        ∃ hour minute second offset, (p.time.map fun t => t.2.fields).getD (some (0, 0, 0, 0)) =
          some (hour, minute, second, offset) ∧ (0 ≤ hour ∧ hour ≤ 23) ∧
          (0 ≤ minute ∧ minute ≤ 59) ∧ 0 ≤ second ∧ second ≤ 59 := by
      cases ht : p.time with
      | none => simp
      | some t => exact fields_of_dated (h.time t ht)
    simp only [IsoText.instant, hdate, hfields]
    show ∃ e, RustCore.epoch year month day hour minute second offset = some e
    rw [RustCore.epoch, if_pos (by omega)]
    exact ⟨_, rfl⟩
  · rintro ⟨e, he⟩
    obtain ⟨year, month, day, hour, minute, second, offset, hdate, hfields, hepoch⟩ :=
      instant_spec he
    obtain ⟨hsize, y, m, d, hy, hm, hd, heq⟩ := dateFields_spec hdate
    cases heq
    have hrange : 1 ≤ month ∧ month ≤ 12 ∧ 1 ≤ day ∧ day ≤ daysInMonth year.toNat month.toNat ∧
        0 ≤ hour ∧ hour ≤ 23 ∧ 0 ≤ minute ∧ minute ≤ 59 ∧ 0 ≤ second ∧ second ≤ 59 := by
      by_contra hrange
      rw [RustCore.epoch, if_neg hrange] at hepoch
      cases hepoch
    refine ⟨hsize, ⟨year, month, day, hy, hm, hd, by omega⟩, fun t ht => ?_⟩
    rw [ht, Option.map_some, Option.getD_some] at hfields
    obtain ⟨h, m, s, o, hh, hm, hs, ho, heq⟩ := fields_spec hfields
    cases heq
    refine ⟨⟨hour, hh, by omega⟩, ⟨minute, hm, by omega⟩, fun s hsecond => ?_,
      (zoneOffset_isSome _).1 ⟨offset, ho⟩⟩
    rw [hsecond] at hs
    exact ⟨second, hs, by omega⟩

/-- Between `min` and `max` digits, of any script. -/
def DigitsOf (py : PyText) (min max : ℕ) (cs : List Char) : Prop :=
  (min ≤ cs.length ∧ cs.length ≤ max) ∧ ∀ c ∈ cs, (digitOf py c).isSome

structure IsoTime.Strict (py : PyText) (t : IsoTime) : Prop where
  numerals : ∀ part ∈ t.numerals, DigitsOf py 1 2 part
  fraction : ∀ f ∈ t.fraction, DigitsOf py 1 f.2.length f.2
  zone : ∀ z ∈ t.zone, z = ('Z', []) ∨ RustCore.isSign z.1 = true ∧
    ∃ hs ms, DigitsOf py 2 2 hs ∧ DigitsOf py 2 2 ms ∧ (z.2 = hs ++ ms ∨ z.2 = hs ++ ':' :: ms)

structure IsoText.Strict (py : PyText) (p : IsoText) : Prop where
  year : DigitsOf py 4 4 p.year
  month : DigitsOf py 1 2 p.month
  day : DigitsOf py 1 2 p.day
  time : ∀ t ∈ p.time, t.2.Strict py

section Shapes
variable {py : PyText}

theorem numeral_iff {min max : ℕ} {cs : List Char} :
    DigitsOf py min max cs ↔ ∃ v, isoNumeral py min max cs = some v := by
  constructor
  · rintro ⟨hlen, hdigits⟩
    have hmap : ∃ vs, cs.mapM (digitOf py) = some vs := by
      clear hlen
      induction cs with
      | nil => exact ⟨[], rfl⟩
      | cons c cs ih =>
        obtain ⟨d, hd⟩ := Option.isSome_iff_exists.1 (hdigits c List.mem_cons_self)
        obtain ⟨vs, hvs⟩ := ih fun x hx => hdigits x (List.mem_cons_of_mem _ hx)
        exact ⟨d :: vs, by rw [List.mapM_cons, hd, hvs]; rfl⟩
    simp_all [isoNumeral]
  · rintro ⟨v, hv⟩
    exact digit_of_numeral hv

theorem isoZone_sign (hpy : py.AsciiDigits) {c : Char} {hs ms rest : List Char} {hours minutes : ℕ}
    (hsign : RustCore.isSign c = true) (hhs : isoNumeral py 2 2 hs = some hours)
    (hms : isoNumeral py 2 2 ms = some minutes) (hrest : rest = hs ++ ms ∨ rest = hs ++ ':' :: ms) :
    ∃ offset, isoZone py (c :: rest) = some offset := by
  have hlen : hs.length = 2 := le_antisymm (digit_of_numeral hhs).1.2 (digit_of_numeral hhs).1.1
  have hlen' : ms.length = 2 := le_antisymm (digit_of_numeral hms).1.2 (digit_of_numeral hms).1.1
  have hminutes : digits py 2 2 ms = some (minutes, []) := by
    rw [← digits_append hms (Or.inl hlen'), List.append_nil]
  have hcolon : ∀ cs, ms ≠ ':' :: cs := by
    rintro cs rfl
    exact mark_not_mem hpy hms (by decide) (by decide) List.mem_cons_self
  have hread : ∃ cs, digits py 2 2 rest = some (hours, cs) ∧ (cs = ms ∨ cs = ':' :: ms) := by
    rcases hrest with rfl | rfl
    · exact ⟨_, digits_append hhs (Or.inl hlen), Or.inl rfl⟩
    · exact ⟨_, digits_append hhs (Or.inl hlen), Or.inr rfl⟩
  obtain ⟨cs, hdigits, hcs⟩ := hread
  unfold isoZone
  split
  · rename_i heq
    cases heq
  · exact ⟨0, rfl⟩
  · rename_i heq
    obtain ⟨rfl, rfl⟩ := List.cons.inj heq
    simp only [hdigits, Option.bind_eq_bind, Option.bind_some]
    simp only [RustCore.isSign, Bool.or_eq_true, beq_iff_eq] at hsign
    rcases hcs with rfl | rfl
    · split
      · exact absurd rfl (hcolon _)
      · rw [hminutes]
        rcases hsign with rfl | rfl <;> exact ⟨_, rfl⟩
    · split
      · rename_i heq
        obtain ⟨-, rfl⟩ := List.cons.inj heq
        rw [hminutes]
        rcases hsign with rfl | rfl <;> exact ⟨_, rfl⟩
      · rename_i hne
        exact absurd rfl (hne _)

theorem IsoTime.strict_iff (hpy : py.AsciiDigits) {t : IsoTime} (year month day : ℕ) :
    t.Strict py ↔ ∃ c, t.civil py year month day = some c := by
  constructor
  · intro h
    obtain ⟨hour, hhour⟩ := numeral_iff.1 (h.numerals t.hour List.mem_cons_self)
    obtain ⟨minute, hminute⟩ :=
      numeral_iff.1 (h.numerals t.minute (List.mem_cons_of_mem _ List.mem_cons_self))
    obtain ⟨second, hsecond⟩ : ∃ v, (t.second.map (isoNumeral py 1 2)).getD (some 0) = some v := by
      cases hs : t.second with
      | none => exact ⟨0, rfl⟩
      | some s =>
        refine numeral_iff.1 (h.numerals s ?_)
        rw [IsoTime.numerals, hs]
        simp
    obtain ⟨n, hfraction⟩ : ∃ n,
        (t.fraction.map fun f => isoNumeral py 1 f.2.length f.2).getD (some 0) = some n := by
      cases hf : t.fraction with
      | none => exact ⟨0, rfl⟩
      | some f => exact numeral_iff.1 (h.fraction f hf)
    obtain ⟨offset, hzone⟩ : ∃ offset, isoZone py (tail t.zone) = some offset := by
      cases hz : t.zone with
      | none => exact ⟨0, rfl⟩
      | some z =>
        rcases h.zone z hz with rfl | ⟨hsign, hs, ms, hhs, hms, hrest⟩
        · exact ⟨0, rfl⟩
        · obtain ⟨hours, hhours⟩ := numeral_iff.1 hhs
          obtain ⟨minutes, hminutes⟩ := numeral_iff.1 hms
          exact isoZone_sign hpy hsign hhours hminutes hrest
    simp_all [IsoTime.civil]
  · rintro ⟨c, hc⟩
    refine ⟨fun part hpart => numeral_iff.2 (numeral_of_civil hc part hpart), ?_, ?_⟩
    · obtain ⟨_, _, _, n, _, -, -, -, hfraction, -⟩ := IsoTime.civil_spec hc
      intro f hf
      simp_all [numeral_iff]
    · obtain ⟨_, _, _, _, offset, -, -, -, -, hzone, -⟩ := IsoTime.civil_spec hc
      rintro ⟨mark, rest⟩ hz
      rw [hz] at hzone
      rcases isoZone_spec hzone with ⟨rfl, rfl, -⟩ | ⟨hs, ms, _, _, hhs, hms, hrest, hsign⟩
      · exact Or.inl rfl
      · refine Or.inr ⟨?_, hs, ms, numeral_iff.2 ⟨_, hhs⟩, numeral_iff.2 ⟨_, hms⟩, hrest⟩
        rcases hsign with ⟨rfl, -⟩ | ⟨rfl, -⟩ <;> rfl

theorem IsoText.strict_iff (hpy : py.AsciiDigits) {p : IsoText} :
    p.Strict py ↔ ∃ c, p.civil py = some c := by
  constructor
  · intro h
    obtain ⟨year, hyear⟩ := numeral_iff.1 h.year
    obtain ⟨month, hmonth⟩ := numeral_iff.1 h.month
    obtain ⟨day, hday⟩ := numeral_iff.1 h.day
    have htime : ∃ c, (p.time.map fun t => t.2.civil py year month day).getD
        (some ⟨year, month, day, 0, 0, 0, 0⟩) = some c := by
      cases ht : p.time with
      | none => exact ⟨_, rfl⟩
      | some t => exact (IsoTime.strict_iff hpy year month day).1 (h.time t ht)
    simp_all [IsoText.civil]
  · rintro ⟨c, hc⟩
    obtain ⟨year, month, day, hyear, hmonth, hday, htime⟩ := IsoText.civil_spec hc
    refine ⟨numeral_iff.2 ⟨year, hyear⟩, numeral_iff.2 ⟨month, hmonth⟩, numeral_iff.2 ⟨day, hday⟩,
      fun t ht => ?_⟩
    rw [ht, Option.map_some, Option.getD_some] at htime
    exact (IsoTime.strict_iff hpy year month day).2 ⟨c, htime⟩

end Shapes

/-! ### The agreement of the engines -/

/-- A date with characters that Python takes for digits or spaces, and Rust does not. -/
def Foreign (s : String) (p : IsoText) : Prop :=
  ¬p.Ascii ∨ (∃ c ∈ (trim s.toList).head?, isControl c = true) ∨
    ((∃ c ∈ (trim s.toList).getLast?, isControl c = true) ∧ p.EndsInNumeral)

section Agreement
variable {py : PyText} {json : Value → String} {s : String} {p : IsoText} {c : Civil}

theorem rust_at_control (h : ∃ c ∈ (trim s.toList).head?, isControl c = true) :
    RustCore.dateToEpoch json (.str s) = none := by
  obtain ⟨x, hx, hcontrol⟩ := h
  rw [rust_of_parts]
  cases hread : (isoParts (trim s.toList)).bind IsoText.instant with
  | none => rfl
  | some e =>
    obtain ⟨q, hq, hinstant⟩ := Option.bind_eq_some_iff.1 hread
    exact absurd (instant_head hq hinstant x hx) (control_unread hcontrol)

theorem rust_of_match (hp : isoParts (pyStrip s.toList) = some p)
    (hstart : ¬∃ c ∈ (trim s.toList).head?, isControl c = true)
    (hend : ¬((∃ c ∈ (trim s.toList).getLast?, isControl c = true) ∧ p.EndsInNumeral)) :
    RustCore.dateToEpoch json (.str s) = p.instant := by
  obtain ⟨hstrip, hclean⟩ := isoParts_iff.1 hp
  obtain ⟨post, htrim, hpost, hlast⟩ := trim_behind hstart
  rw [rust_of_parts, htrim]
  by_cases hnil : post = []
  · rw [hnil, List.append_nil, hp]
    rfl
  · have hbehind : ¬p.EndsInNumeral := fun h => hend ⟨hlast.1 hnil, h⟩
    obtain ⟨⟨mark, t⟩, ht, hafter⟩ : ∃ t ∈ p.time, t.2.fraction ≠ none ∨ t.2.zone ≠ none := by
      by_contra hnone
      refine hbehind fun t ht => ?_
      grind
    rw [hstrip, parts_behind ht hclean hpost, Option.bind_some]
    simp only [IsoText.instant, Option.map_some, Option.getD_some, extend_fields hpost hafter,
      Option.mem_def.1 ht]
    rfl

theorem rust_of_foreign (hpy : py.AsciiDigits) (hp : isoParts (pyStrip s.toList) = some p)
    (hcivil : p.civil py = some c) (hforeign : Foreign s p) :
    RustCore.dateToEpoch json (.str s) = none := by
  by_cases hstart : ∃ c ∈ (trim s.toList).head?, isControl c = true
  · exact rust_at_control hstart
  · by_cases hend : (∃ c ∈ (trim s.toList).getLast?, isControl c = true) ∧ p.EndsInNumeral
    · obtain ⟨hstrip, hclean⟩ := isoParts_iff.1 hp
      obtain ⟨post, htrim, hpost, hlast⟩ := trim_behind hstart
      have hne := hlast.2 hend.1
      rw [rust_of_parts]
      rw [hstrip] at htrim
      rw [htrim] at hend ⊢
      exact rust_behind_numeral hpy hcivil hclean hend.2 hpost hne hend.1
    · have hascii : ¬p.Ascii := hforeign.elim id fun h => (h.elim hstart hend).elim
      rw [rust_of_match hp hstart hend]
      cases hinstant : p.instant with
      | none => rfl
      | some e => exact absurd (ascii_of_instant hcivil hinstant) hascii

theorem rust_of_civil (hpy : py.AsciiDigits) (hp : isoParts (pyStrip s.toList) = some p)
    (hcivil : p.civil py = some c) (hforeign : ¬Foreign s p) :
    RustCore.dateToEpoch json (.str s) = if c.valid then some c.epoch else none := by
  obtain ⟨hascii, hends⟩ := not_or.1 hforeign
  obtain ⟨hstart, hend⟩ := not_or.1 hends
  rw [rust_of_match hp hstart hend]
  exact instant_of_civil hpy hcivil (not_not.1 hascii)

/-- A text that only the Rust core reads: taken apart at its separators it is a date, and the
regular expression asks for more. -/
def OnlyRust (py : PyText) (s : String) : Prop :=
  (∃ q, isoParts (trim s.toList) = some q ∧ q.Dated) ∧
    ∀ p, isoParts (pyStrip s.toList) = some p → ¬p.Strict py

def OnlyPython (py : PyText) (s : String) : Prop :=
  ∃ p c, isoParts (pyStrip s.toList) = some p ∧ p.civil py = some c ∧ c.valid = true ∧ Foreign s p

theorem onlyPython_iff (hp : isoParts (pyStrip s.toList) = some p) (hcivil : p.civil py = some c) :
    OnlyPython py s ↔ c.valid = true ∧ Foreign s p := by
  constructor
  · rintro ⟨p', c', hp', hcivil', hvalid, hforeign⟩
    simp_all
  · rintro ⟨hvalid, hforeign⟩
    exact ⟨p, c, hp, hcivil, hvalid, hforeign⟩

theorem isoMatch_eq_none (hpy : py.AsciiDigits) : isoMatch py (pyStrip s.toList) = none ↔
    ∀ p, isoParts (pyStrip s.toList) = some p → ¬p.Strict py := by
  rw [Option.eq_none_iff_forall_ne_some]
  grind [IsoText.strict_iff, isoMatch_iff]

theorem onlyRust_iff (json : Value → String) (hpy : py.AsciiDigits) : OnlyRust py s ↔
    isoMatch py (pyStrip s.toList) = none ∧ RustCore.dateToEpoch json (.str s) ≠ none := by
  rw [OnlyRust, ← isoMatch_eq_none hpy, and_comm, rust_of_parts]
  simp [Option.ne_none_iff_exists', dated_iff]

/-- Both read a text alike unless only one of them reads it. -/
theorem engines_agree_iff (json : Value → String) (s : String) (hpy : py.AsciiDigits) :
    dateToEpoch py (.str s) = RustCore.dateToEpoch json (.str s) ↔
      ¬OnlyRust py s ∧ ¬OnlyPython py s := by
  have hpython : dateToEpoch py (.str s) =
      (isoMatch py (pyStrip s.toList)).bind fun c => if c.valid then some c.epoch else none := rfl
  rw [hpython, onlyRust_iff json hpy]
  cases hmatch : isoMatch py (pyStrip s.toList) with
  | none =>
    have honly : ¬OnlyPython py s := by
      rintro ⟨p, c, hp, hcivil, -⟩
      have hc := (isoMatch_iff hpy).2 ⟨p, hp, hcivil⟩
      rw [hmatch] at hc
      cases hc
    grind
  | some c =>
    obtain ⟨p, hp, hcivil⟩ := (isoMatch_iff hpy).1 hmatch
    have hstrict : ¬(some c = none ∧ RustCore.dateToEpoch json (.str s) ≠ none) := by
      rintro ⟨hnone, -⟩
      cases hnone
    rw [Option.bind_some, and_iff_right hstrict, onlyPython_iff hp hcivil]
    by_cases hforeign : Foreign s p
    · rw [rust_of_foreign hpy hp hcivil hforeign, and_iff_left hforeign]
      simp
    · rw [rust_of_civil hpy hp hcivil hforeign]
      exact ⟨fun _ h => hforeign h.2, fun _ => rfl⟩

end Agreement

theorem engines_agree_ascii : dateToEpoch asciiText (.str "2026-01-01T10:20:30+05:30") =
    RustCore.dateToEpoch (fun _ => "") (.str "2026-01-01T10:20:30+05:30") ↔
      ¬OnlyRust asciiText "2026-01-01T10:20:30+05:30" ∧
        ¬OnlyPython asciiText "2026-01-01T10:20:30+05:30" :=
  engines_agree_iff (fun _ => "") "2026-01-01T10:20:30+05:30" ⟨fun _ _ _ => rfl⟩

/-- A month of three digits is a date to the Rust core alone, and a date behind a separator that
`str.strip` takes for a space is one to Python alone. -/
theorem engines_differ :
    dateToEpoch asciiText (.str "2026-001-01") = none ∧
      RustCore.dateToEpoch (fun _ => "") (.str "2026-001-01") = some 1767225600 ∧
      dateToEpoch asciiText (.str "\x1c2026-01-01") = some 1767225600 ∧
      RustCore.dateToEpoch (fun _ => "") (.str "\x1c2026-01-01") = none := by
  decide +kernel

end RuleMind
