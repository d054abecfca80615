/-
  What the Rust core reads of a text that the regular expression matches.
-/
import RuleMind.IsoMatch

namespace RuleMind

open Text Cut

/-! ### Numerals -/

section Numerals
variable {py : PyText}

variable {n : ℤ} {c : Char} {ds : List Char}

variable {cs : List Char} {min max v : ℕ} {zone : Option (Char × List Char)} {offset : ℤ}

theorem parseI64_chars (h : RustCore.parseI64 cs = some n) :
    cs ≠ [] ∧ ∀ c ∈ cs, c.isDigit = true ∨ RustCore.isSign c = true := by
  obtain ⟨hread, -⟩ := Option.filter_eq_some_iff.1 h
  constructor
  · rintro rfl
    cases hread
  · intro c hc
    rcases mem_of_sign rfl hc with rfl | rfl | hc
    · exact Or.inr rfl
    · exact Or.inr rfl
    · exact Or.inl (isDigit_of_readInt hread c hc)

theorem ascii_of_digit (h : c.isDigit = true) : c.toNat < 128 := by
  have hd : 48 ≤ c.toNat ∧ c.toNat ≤ 57 := by simpa [Char.isDigit, UInt32.le_iff_toNat_le] using h
  omega

theorem ascii_of_sign (h : RustCore.isSign c = true) : c.toNat < 128 := by
  simp only [RustCore.isSign, Bool.or_eq_true, beq_iff_eq] at h
  rcases h with rfl | rfl <;> decide

theorem isDigit_of_digitOf (hpy : py.AsciiDigits) (h : (digitOf py c).isSome)
    (hc : c.toNat < 128) : c.isDigit = true := by grind -ring -linarith [digitOf_mark]

theorem mapM_digits (h : ∀ c ∈ ds, c.isDigit = true) :
    ds.mapM (digitOf py) = some (ds.map fun c => c.toNat - 48) := by
  induction ds with
  | nil => rfl
  | cons d ds ih => simp_all [digitOf]

theorem digitsValue_lt (h : ∀ c ∈ ds, c.isDigit = true) (v : ℕ) :
    ds.foldl (fun n d => 10 * n + (d.toNat - 48)) v < (v + 1) * 10 ^ ds.length := by
  induction ds generalizing v with
  | nil => simp
  | cons d ds ih =>
    have hd : 48 ≤ d.toNat ∧ d.toNat ≤ 57 := by
      simpa [Char.isDigit, UInt32.le_iff_toNat_le] using h d List.mem_cons_self
    have hrest := ih (fun c hc => h c (List.mem_cons_of_mem _ hc)) (10 * v + (d.toNat - 48))
    rw [List.foldl_cons, List.length_cons, pow_succ]
    calc _ < (10 * v + (d.toNat - 48) + 1) * 10 ^ ds.length := hrest
      _ ≤ (v + 1) * 10 * 10 ^ ds.length := Nat.mul_le_mul_right _ (by omega)
      _ = (v + 1) * (10 ^ ds.length * 10) := by ring

theorem digitsValue_numeral
    (h : isoNumeral py min max ds = some v) (hdigits : ∀ c ∈ ds, c.isDigit = true) :
    digitsValue ds = v := by
  obtain ⟨hlen, -⟩ := digit_of_numeral h
  unfold isoNumeral at h
  rw [if_pos hlen, mapM_digits hdigits] at h
  have hfold : (ds.map fun c => c.toNat - 48).foldl (fun v d => 10 * v + d) 0 = v :=
    Option.some.inj h
  rw [List.foldl_map] at hfold
  exact hfold

theorem parseI64_numeral (hpy : py.AsciiDigits)
    (h : isoNumeral py min max ds = some v) (hmin : 0 < min) (hmax : max ≤ 4)
    (hascii : ∀ c ∈ ds, c.toNat < 128) : RustCore.parseI64 ds = some (v : ℤ) := by
  obtain ⟨⟨hlen, hlen'⟩, hsome⟩ := digit_of_numeral h
  have hdigits : ∀ c ∈ ds, c.isDigit = true :=
    fun c hc => isDigit_of_digitOf hpy (hsome c hc) (hascii c hc)
  have hv : digitsValue ds = v := digitsValue_numeral h hdigits
  have hlt : v < 10 ^ 4 := by
    have hbound := digitsValue_lt hdigits 0
    rw [show ds.foldl (fun n d => 10 * n + (d.toNat - 48)) 0 = v from hv, Nat.zero_add,
      Nat.one_mul] at hbound
    exact hbound.trans_le (Nat.pow_le_pow_right (by decide) (hlen'.trans hmax))
  have hne : ds ≠ [] := by
    rintro rfl
    simp only [List.length_nil] at hlen
    omega
  have hread : readInt ds = some (v : ℤ) := by
    unfold readInt readNat
    rw [sign_of_digit fun c hc => hdigits c (List.mem_of_mem_head? hc)]
    dsimp only
    rw [if_pos ⟨hne, List.all_eq_true.2 hdigits⟩, hv]
    rfl
  unfold RustCore.parseI64
  grind

theorem ascii_of_parseI64 (h : RustCore.parseI64 ds = some n) : ∀ c ∈ ds, c.toNat < 128 :=
  fun c hc => ((parseI64_chars h).2 c hc).elim ascii_of_digit ascii_of_sign

theorem utf8_of_ascii (h : ∀ c ∈ cs, c.toNat < 128) :
    (String.ofList cs).utf8ByteSize = cs.length := by
  induction cs with
  | nil => rfl
  | cons c cs ih =>
    have hc : c.utf8Size = 1 := by
      rw [Char.utf8Size_eq_one_iff, UInt32.le_iff_toNat_le]
      exact Nat.le_of_lt_succ (h c List.mem_cons_self)
    rw [String.ofList_cons, String.utf8ByteSize_append, String.utf8ByteSize_singleton, hc,
      ih fun d hd => h d (List.mem_cons_of_mem _ hd), List.length_cons, Nat.add_comm]

/-! ### Zones -/

theorem signedZone_sign (h : c ≠ 'Z') (rest : List Char) :
    signedZone (some (c, rest)) = some (c :: rest) := if_neg h

theorem offset_digits {rest hs ms : List Char} (hc : c = '+' ∨ c = '-')
    (hrest : rest = hs ++ ms ∨ rest = hs ++ ':' :: ms) :
    (c :: rest).filter Char.isDigit = (hs ++ ms).filter Char.isDigit := by
  have hsign : c.isDigit = false := by rcases hc with rfl | rfl <;> decide
  grind

theorem zoneOffset_civil (hpy : py.AsciiDigits) (h : isoZone py (tail zone) = some offset)
    (hascii : ∀ z ∈ zone, ∀ c ∈ z.2, c.toNat < 128) :
    RustCore.zoneOffset (signedZone zone) = some (-offset) := by
  cases zone with
  | none =>
    cases h
    rfl
  | some z =>
    obtain ⟨c, rest⟩ := z
    rcases isoZone_spec h with ⟨rfl, rfl, rfl⟩ | ⟨hs, ms, hours, minutes, hhs, hms, hrest, hsign⟩
    · rfl
    · have hc : c = '+' ∨ c = '-' := hsign.imp And.left And.left
      have hZ : c ≠ 'Z' := by rcases hc with rfl | rfl <;> decide
      have hmem : ∀ x, x ∈ hs ++ ms → x ∈ rest := by
        intro x hx
        rcases hrest with rfl | rfl
        · exact hx
        · rcases List.mem_append.1 hx with hx | hx
          · exact List.mem_append_left _ hx
          · exact List.mem_append_right _ (List.mem_cons_of_mem _ hx)
      have hdigits : ∀ x ∈ hs ++ ms, x.isDigit = true := by
        intro x hx
        refine isDigit_of_digitOf hpy ?_ (hascii _ rfl x (hmem x hx))
        rcases List.mem_append.1 hx with hx | hx
        · exact (digit_of_numeral hhs).2 x hx
        · exact (digit_of_numeral hms).2 x hx
      have hfilter : (c :: rest).filter Char.isDigit = hs ++ ms := by
        rw [offset_digits hc hrest, List.filter_eq_self.2 hdigits]
      have hhours : hs.length = 2 :=
        le_antisymm (digit_of_numeral hhs).1.2 (digit_of_numeral hhs).1.1
      have hminutes : ms.length = 2 :=
        le_antisymm (digit_of_numeral hms).1.2 (digit_of_numeral hms).1.1
      have hlen : ((c :: rest).filter Char.isDigit).length = 4 := by
        rw [hfilter, List.length_append, hhours, hminutes]
      have hvalue : digitsValue hs = hours :=
        digitsValue_numeral hhs fun x hx => hdigits x (List.mem_append_left _ hx)
      have hvalue' : digitsValue ms = minutes :=
        digitsValue_numeral hms fun x hx => hdigits x (List.mem_append_right _ hx)
      rw [signedZone_sign hZ, RustCore.zoneOffset]
      dsimp only
      rw [if_neg (not_not.2 hlen), hfilter, List.take_left' hhours, List.drop_left' hhours, hvalue,
        hvalue']
      grind

theorem ascii_of_zoneOffset (h : isoZone py (tail zone) = some offset)
    (hn : RustCore.zoneOffset (signedZone zone) = some n) :
    ∀ z ∈ zone, ∀ c ∈ z.2, c.toNat < 128 := by
  rintro ⟨c, rest⟩ hz x hx
  rw [hz] at h hn
  rcases isoZone_spec h with ⟨rfl, rfl, rfl⟩ | ⟨hs, ms, hours, minutes, hhs, hms, hrest, hsign⟩
  · cases hx
  · have hc : c = '+' ∨ c = '-' := hsign.imp And.left And.left
    have hZ : c ≠ 'Z' := by rcases hc with rfl | rfl <;> decide
    have hlen : ((c :: rest).filter Char.isDigit).length = 4 := by
      by_contra hlen
      rw [signedZone_sign hZ, RustCore.zoneOffset] at hn
      dsimp only at hn
      rw [if_pos hlen] at hn
      cases hn
    have htotal : (hs ++ ms).length = 4 := by
      have hhours := (digit_of_numeral hhs).1
      have hminutes := (digit_of_numeral hms).1
      rw [List.length_append]
      omega
    rw [offset_digits hc hrest, ← htotal, List.length_filter_eq_length_iff] at hlen
    have hmem : x ∈ hs ++ ms ∨ x = ':' := by
      rcases hrest with rfl | rfl
      · exact Or.inl hx
      · grind
    rcases hmem with hmem | rfl
    · exact ascii_of_digit (hlen x hmem)
    · decide

end Numerals

/-! ### What the Rust core reads -/

theorem fields_spec {t : IsoTime} {r : ℤ × ℤ × ℤ × ℤ} (h : t.fields = some r) :
    ∃ hour minute second offset, RustCore.parseI64 t.hour = some hour ∧
      RustCore.parseI64 t.minute = some minute ∧
      (t.second.map RustCore.parseI64).getD (some 0) = some second ∧
      RustCore.zoneOffset (signedZone t.zone) = some offset ∧
      r = (hour, minute, second, offset) := by
  obtain ⟨hour, hhour, h₁⟩ := Option.bind_eq_some_iff.1 h
  obtain ⟨minute, hminute, h₂⟩ := Option.bind_eq_some_iff.1 h₁
  obtain ⟨second, hsecond, h₃⟩ := Option.bind_eq_some_iff.1 h₂
  obtain ⟨offset, hoffset, h₄⟩ := Option.bind_eq_some_iff.1 h₃
  simp_all

theorem dateFields_spec {p : IsoText} {r : ℤ × ℤ × ℤ} (h : p.dateFields = some r) :
    (String.ofList p.year).utf8ByteSize = 4 ∧
      ∃ year month day, RustCore.parseI64 p.year = some year ∧
        RustCore.parseI64 p.month = some month ∧ RustCore.parseI64 p.day = some day ∧
        r = (year, month, day) := by
  unfold IsoText.dateFields at h
  split at h
  · cases h
  · rename_i hsize
    obtain ⟨year, hyear, h₁⟩ := Option.bind_eq_some_iff.1 h
    obtain ⟨month, hmonth, h₂⟩ := Option.bind_eq_some_iff.1 h₁
    obtain ⟨day, hday, h₃⟩ := Option.bind_eq_some_iff.1 h₂
    simp_all

theorem instant_spec {p : IsoText} {e : ℤ} (h : p.instant = some e) :
    ∃ year month day hour minute second offset, p.dateFields = some (year, month, day) ∧
      (p.time.map fun t => t.2.fields).getD (some (0, 0, 0, 0)) =
        some (hour, minute, second, offset) ∧
      RustCore.epoch year month day hour minute second offset = some e := by
  obtain ⟨⟨year, month, day⟩, hdate, h₁⟩ := Option.bind_eq_some_iff.1 h
  grind [Option.bind_eq_some_iff]

/-- Only the fraction may hold other characters than ASCII. -/
structure IsoTime.Ascii (t : IsoTime) : Prop where
  numerals : ∀ part ∈ t.numerals, ∀ c ∈ part, c.toNat < 128
  zone : ∀ z ∈ t.zone, ∀ c ∈ z.2, c.toNat < 128

structure IsoText.Ascii (p : IsoText) : Prop where
  date : ∀ part ∈ [p.year, p.month, p.day], ∀ c ∈ part, c.toNat < 128
  time : ∀ t ∈ p.time, t.2.Ascii

section Both
variable {py : PyText}

variable {c : Civil} {p : IsoText}

theorem ascii_of_instant {e : ℤ} (hcivil : p.civil py = some c)
    (h : p.instant = some e) : p.Ascii := by
  obtain ⟨year, month, day, hour, minute, second, offset, hdate, htime, -⟩ := instant_spec h
  obtain ⟨-, y, m, d, hy, hm, hd, -⟩ := dateFields_spec hdate
  obtain ⟨yn, mn, dn, -, -, -, htime'⟩ := IsoText.civil_spec hcivil
  constructor
  · intro part hpart
    simp only [List.mem_cons, List.not_mem_nil, or_false] at hpart
    rcases hpart with rfl | rfl | rfl
    · exact ascii_of_parseI64 hy
    · exact ascii_of_parseI64 hm
    · exact ascii_of_parseI64 hd
  · intro t ht
    rw [ht, Option.map_some, Option.getD_some] at htime htime'
    obtain ⟨h, m, s, o, hh, hm, hs, ho, -⟩ := fields_spec htime
    obtain ⟨hn, mn, sn, n, on, -, -, -, -, hzone, -⟩ := IsoTime.civil_spec htime'
    refine ⟨?_, ascii_of_zoneOffset hzone ho⟩
    intro part hpart
    rcases List.mem_cons.1 hpart with rfl | hpart
    · exact ascii_of_parseI64 hh
    · rcases List.mem_cons.1 hpart with rfl | hpart
      · exact ascii_of_parseI64 hm
      grind [ascii_of_parseI64]

theorem fields_of_civil (hpy : py.AsciiDigits) {t : IsoTime} {year month day : ℕ}
    (h : t.civil py year month day = some c) (hascii : t.Ascii) :
    t.fields = some ((c.hour : ℤ), (c.minute : ℤ), (c.second : ℤ), -c.offset) := by
  obtain ⟨hour, minute, second, n, offset, hhour, hminute, hsecond, -, hzone, rfl⟩ :=
    IsoTime.civil_spec h
  have hseconds : (t.second.map RustCore.parseI64).getD (some 0) = some (second : ℤ) := by
    cases hs : t.second with
    | none =>
      rw [hs] at hsecond
      cases hsecond
      rfl
    | some s =>
      rw [hs] at hsecond
      refine parseI64_numeral hpy hsecond (by decide) (by decide) (hascii.numerals s ?_)
      rw [IsoTime.numerals, hs]
      simp
  have hhours := parseI64_numeral hpy hhour (by decide) (by decide)
    (hascii.numerals t.hour List.mem_cons_self)
  have hminutes := parseI64_numeral hpy hminute (by decide) (by decide)
    (hascii.numerals t.minute (List.mem_cons_of_mem _ List.mem_cons_self))
  simp only [IsoTime.fields, hhours, hminutes, hseconds, zoneOffset_civil hpy hzone hascii.zone]
  rfl

theorem epoch_civil (c : Civil) : RustCore.epoch c.year c.month c.day c.hour c.minute c.second
    (-c.offset) = if c.valid then some c.epoch else none := by
  have hvalid : (1 ≤ (c.month : ℤ) ∧ (c.month : ℤ) ≤ 12 ∧ 1 ≤ (c.day : ℤ) ∧
      (c.day : ℤ) ≤ daysInMonth (c.year : ℤ).toNat (c.month : ℤ).toNat ∧ 0 ≤ (c.hour : ℤ) ∧
      (c.hour : ℤ) ≤ 23 ∧ 0 ≤ (c.minute : ℤ) ∧ (c.minute : ℤ) ≤ 59 ∧ 0 ≤ (c.second : ℤ) ∧
      (c.second : ℤ) ≤ 59) ↔ c.valid = true := by
    rw [Int.toNat_natCast, Int.toNat_natCast]
    simp only [Civil.valid, Bool.and_eq_true, decide_eq_true_eq]
    omega
  unfold RustCore.epoch
  by_cases h : c.valid = true
  · rw [if_pos (hvalid.2 h), if_pos h, Civil.epoch, sub_eq_add_neg]
  · rw [if_neg fun h' => h (hvalid.1 h'), if_neg h]

theorem instant_of_civil (hpy : py.AsciiDigits) (hcivil : p.civil py = some c) (hascii : p.Ascii) :
    p.instant = if c.valid then some c.epoch else none := by
  obtain ⟨year, month, day, hyear, hmonth, hday, htime⟩ := IsoText.civil_spec hcivil
  have hparts : (c.year = year ∧ c.month = month ∧ c.day = day) ∧
      (p.time.map fun t => t.2.fields).getD (some (0, 0, 0, 0)) =
        some ((c.hour : ℤ), (c.minute : ℤ), (c.second : ℤ), -c.offset) := by
    cases ht : p.time with
    | none => grind
    | some t =>
      rw [ht, Option.map_some, Option.getD_some] at htime
      refine ⟨?_, fields_of_civil hpy htime (hascii.time t ht)⟩
      obtain ⟨_, _, _, _, _, -, -, -, -, -, rfl⟩ := IsoTime.civil_spec htime
      exact ⟨rfl, rfl, rfl⟩
  obtain ⟨⟨rfl, rfl, rfl⟩, hfields⟩ := hparts
  have hyearAscii := hascii.date p.year List.mem_cons_self
  have hsize : (String.ofList p.year).utf8ByteSize = 4 := by
    rw [utf8_of_ascii hyearAscii]
    exact le_antisymm (digit_of_numeral hyear).1.2 (digit_of_numeral hyear).1.1
  have hdate : p.dateFields = some ((c.year : ℤ), (c.month : ℤ), (c.day : ℤ)) := by
    have hy := parseI64_numeral hpy hyear (by decide) le_rfl hyearAscii
    have hm := parseI64_numeral hpy hmonth (by decide) (by decide) (hascii.date p.month (by simp))
    have hd := parseI64_numeral hpy hday (by decide) (by decide) (hascii.date p.day (by simp))
    rw [IsoText.dateFields, if_neg (not_not.2 hsize), hy, hm, hd]
    rfl
  simp only [IsoText.instant, hdate, hfields]
  exact epoch_civil c

end Both

/-! ### What is behind a date -/

theorem pySpace_other {c : Char} (h : pySpace c = true) :
    c.isDigit = false ∧ RustCore.isSign c = false ∧ ∀ x ∈ [':', '.', 'Z'], c ≠ x := by
  have hne : ∀ x : Char, x.toNat < 0x1c ∨ 0x20 < x.toNat → x.toNat < 0x80 → 13 < x.toNat →
      c ≠ x := by
    rintro x hx hx' hx'' rfl
    simp only [pySpace, isSpace, Bool.or_eq_true, Bool.and_eq_true, decide_eq_true_eq,
      beq_iff_eq] at h
    omega
  refine ⟨?_, ?_, ?_⟩
  · by_contra hdigit
    have hd : 48 ≤ c.toNat ∧ c.toNat ≤ 57 := by
      simpa [Char.isDigit, UInt32.le_iff_toNat_le] using hdigit
    exact hne c (by omega) (by omega) (by omega) rfl
  · simp_all [RustCore.isSign]
  · simp_all

def IsoTime.extend (t : IsoTime) (post : List Char) : IsoTime :=
  match t.zone, t.fraction, t.second with
  | some (c, rest), _, _ => { t with zone := some (c, rest ++ post) }
  | none, some (c, ds), _ => { t with fraction := some (c, ds ++ post) }
  | none, none, some second => { t with second := some (second ++ post) }
  | none, none, none => { t with minute := t.minute ++ post }

section Behind
variable {t : IsoTime} {post : List Char}

theorem extend_text (t : IsoTime) (post : List Char) : (t.extend post).text = t.text ++ post := by
  obtain ⟨hour, minute, second, fraction, zone⟩ := t
  rw [IsoTime.text_eq, IsoTime.text_eq]
  rcases zone with _ | ⟨c, rest⟩
  · rcases fraction with _ | ⟨c, ds⟩
    · cases second <;> simp [IsoTime.extend, tail]
    · simp [IsoTime.extend, tail]
  · simp [IsoTime.extend, tail]

theorem not_mem_extended {x : Char} {cs : List Char} (hpost : ∀ c ∈ post, pySpace c = true)
    (hx : x ∈ [':', '.', 'Z']) (h : x ∉ cs) : x ∉ cs ++ post := by
  rw [List.mem_append, not_or]
  exact ⟨h, fun hmem => (pySpace_other (hpost x hmem)).2.2 x hx rfl⟩

theorem unsigned_extended {cs : List Char} (hpost : ∀ c ∈ post, pySpace c = true)
    (h : ∀ c ∈ cs, RustCore.isSign c = false) : ∀ c ∈ cs ++ post, RustCore.isSign c = false := by
  intro c hc
  rcases List.mem_append.1 hc with hc | hc
  · exact h c hc
  · exact (pySpace_other (hpost c hc)).2.1

theorem extend_clean (h : t.Clean) (hpost : ∀ c ∈ post, pySpace c = true) :
    (t.extend post).Clean := by
  have hbody : ∀ {body}, t.zone = none → body = t.body ++ post → ZoneCut body none := by
    rintro _ hzone rfl
    have hcut := h.zone
    rw [hzone] at hcut
    exact ⟨not_mem_extended hpost (by decide) hcut.noZ,
      fun _ => unsigned_extended hpost (hcut.unsigned rfl), fun z hz => by cases hz⟩
  have hclock : ∀ {cs}, cs = t.clock ++ post → '.' ∉ cs := by
    rintro _ rfl
    exact not_mem_extended hpost (by decide) h.clock
  have hnumeral : ∀ {part}, part ∈ t.numerals → ':' ∉ part ++ post :=
    fun hpart => not_mem_extended hpost (by decide) (h.numerals _ hpart)
  obtain ⟨hour, minute, second, fraction, zone⟩ := t
  rcases zone with _ | ⟨c, rest⟩
  · rcases fraction with _ | ⟨c, ds⟩
    · rcases second with _ | second
      · refine ⟨?_, hclock ?_, fun f hf => (by cases hf), hbody rfl ?_⟩
        · intro part hpart
          rcases List.mem_cons.1 hpart with rfl | hpart
          · exact h.numerals _ List.mem_cons_self
          · rw [List.mem_singleton.1 hpart]
            exact hnumeral (List.mem_cons_of_mem _ List.mem_cons_self)
        · rw [clock_eq, clock_eq]
          simp [IsoTime.extend, tail]
        simp [IsoTime.body, clock_eq, IsoTime.extend, tail]
      · refine ⟨?_, hclock ?_, fun f hf => (by cases hf), hbody rfl ?_⟩
        · intro part hpart
          rcases List.mem_cons.1 hpart with rfl | hpart
          · exact h.numerals _ List.mem_cons_self
          · rcases List.mem_cons.1 hpart with rfl | hpart
            · exact h.numerals _ (List.mem_cons_of_mem _ List.mem_cons_self)
            · rw [List.mem_singleton.1 hpart]
              exact hnumeral (List.mem_cons_of_mem _ (List.mem_cons_of_mem _ List.mem_cons_self))
        · rw [clock_eq, clock_eq]
          simp [IsoTime.extend, tail]
        simp [IsoTime.body, clock_eq, IsoTime.extend, tail]
    · refine ⟨h.numerals, h.clock, ?_, hbody rfl ?_⟩
      · intro f hf
        cases hf
        exact h.point (c, ds) rfl
      simp [IsoTime.body, clock_eq, IsoTime.extend, tail]
  · refine ⟨h.numerals, h.clock, h.point, h.zone.noZ, fun hnone => (by cases hnone), ?_⟩
    intro z hz
    cases hz
    rcases h.zone.mark _ rfl with hc | ⟨hsign, hZ, hrest⟩
    · exact Or.inl hc
    grind [not_mem_extended, unsigned_extended]

theorem parseI64_behind (hpost : ∀ c ∈ post, pySpace c = true) (hne : post ≠ [])
    (ds : List Char) : RustCore.parseI64 (ds ++ post) = none := by
  cases hparse : RustCore.parseI64 (ds ++ post) with
  | none => rfl
  | some n =>
    obtain ⟨c, rest, rfl⟩ := List.exists_cons_of_ne_nil hne
    obtain ⟨hdigit, hsign, -⟩ := pySpace_other (hpost c List.mem_cons_self)
    grind [parseI64_chars]

theorem extend_fields (hpost : ∀ c ∈ post, pySpace c = true)
    (h : t.fraction ≠ none ∨ t.zone ≠ none) : (t.extend post).fields = t.fields := by
  obtain ⟨hour, minute, second, fraction, zone⟩ := t
  rcases zone with _ | ⟨c, rest⟩
  · rcases fraction with _ | ⟨c, ds⟩
    · exact absurd rfl (h.resolve_right (not_not.2 rfl))
    · rfl
  · have hnone : post.filter Char.isDigit = [] := by
      rw [List.filter_eq_nil_iff]
      intro x hx
      rw [(pySpace_other (hpost x hx)).1]
      decide
    have hfilter : (rest ++ post).filter Char.isDigit = rest.filter Char.isDigit := by
      rw [List.filter_append, hnone, List.append_nil]
    have hoffset : RustCore.zoneOffset (signedZone (some (c, rest ++ post))) =
        RustCore.zoneOffset (signedZone (some (c, rest))) := by
      by_cases hc : c = 'Z'
      · rw [hc]
        rfl
      · grind [signedZone_sign, RustCore.zoneOffset]
    simp only [IsoTime.extend, IsoTime.fields, hoffset]

theorem extend_numeral (hpost : ∀ c ∈ post, pySpace c = true) (hne : post ≠ [])
    (hfraction : t.fraction = none) (hzone : t.zone = none) : (t.extend post).fields = none := by
  obtain ⟨hour, minute, second, fraction, zone⟩ := t
  cases hfraction
  cases hzone
  cases hfields : (IsoTime.extend ⟨hour, minute, second, none, none⟩ post).fields with
  | none => rfl
  | some r =>
    obtain ⟨h, m, s, o, -, hm, hs, -⟩ := fields_spec hfields
    cases second with
    | none => simp_all [IsoTime.extend, parseI64_behind]
    | some second => simp_all [IsoTime.extend, parseI64_behind]

end Behind

end RuleMind
