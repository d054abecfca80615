/-
  The texts Python reads numbers off: what `float` and `int` take off and change in a
  text first, and what `str` writes.
-/
import RuleMind.Value

namespace RuleMind

open Text

/-- `repr` of a double reads as it, and is no integer. -/
structure PyText.Reads (py : PyText) : Prop where
  reads : ∀ q, roundF64 q = some q → py.float (py.floatRepr q) = some (.finite q)
  marked : ∀ q, roundF64 q = some q → ∀ n : ℤ, py.floatRepr q ≠ n.repr

section Texts
variable (py : PyText)

/-! ### Plain texts -/

variable {cs : List Char} {s : String} {c : Char}

theorem dropUnderscores_plain (h : ∀ c ∈ cs, c ≠ '_') (p : Char) :
    dropUnderscores p cs = some cs := by
  induction cs generalizing p with
  | nil => rfl
  | cons c cs ih => simp_all [dropUnderscores]

theorem map_ascii (h : ∀ c ∈ cs, c.toNat < 127) : cs.map py.ascii = cs := by
  refine (List.map_congr_left fun c hc => ?_).trans (List.map_id _)
  simp only [PyText.ascii, h c hc, if_true, id]

theorem numeral_of_plain (h : ∀ c ∈ s.toList, c.toNat < 127 ∧ c ≠ '_' ∧ isSpace c = false) :
    py.numeral s = some s.toList := by
  simp_all [PyText.numeral, map_ascii, trim, trimBy_eq_self, dropUnderscores_plain]

theorem plain_of_isDigit (h : c.isDigit = true) : c.toNat < 127 ∧ c ≠ '_' ∧ isSpace c = false := by
  have hd : 48 ≤ c.toNat ∧ c.toNat ≤ 57 := by simpa [Char.isDigit, UInt32.le_iff_toNat_le] using h
  refine ⟨by omega, ?_, ?_⟩
  · rintro rfl
    exact absurd h (by decide)
  · simp only [isSpace, Bool.or_eq_false_iff, Bool.and_eq_false_iff, decide_eq_false_iff_not,
      beq_eq_false_iff_ne]
    omega

theorem plain_of_inDecimal (h : InDecimal c) : c.toNat < 127 ∧ c ≠ '_' ∧ isSpace c = false := by
  rcases h with hd | hmem
  · exact plain_of_isDigit hd
  · have hall : ∀ c ∈ ['+', '-', '.', 'e', 'E'], c.toNat < 127 ∧ c ≠ '_' ∧ isSpace c = false :=
      List.all_iff_forall_prop.1 (by decide)
    exact hall c hmem

theorem mem_repr_digits {n : ℤ} (h : c ∈ n.repr.toList) : c.isDigit = true ∨ c = '-' := by
  rw [Int.repr_eq_if] at h
  grind [Nat.toList_repr, isDigit_toDigits, String.toList_append]

theorem float_repr (n : ℤ) : py.float n.repr = some (ofDecimal (decide (n < 0)) n.natAbs) := by
  have hplain : py.numeral n.repr = some n.repr.toList := by
    refine numeral_of_plain py fun c hc => ?_
    rcases mem_repr_digits hc with hd | rfl
    · exact plain_of_isDigit hd
    · decide
  rw [PyText.float, hplain]
  exact readFloat_int n

theorem float_word (h : ∀ c ∈ s.toList, c.toNat < 127 ∧ c ≠ '_' ∧ isSpace c = false)
    (hread : readFloat s.toList = none) : py.float s = none := by
  rw [PyText.float, numeral_of_plain py h]
  exact hread

theorem float_of_bracket (hs : s.toList = c :: cs)
    (hc : c = '[' ∨ c = '{') : py.float s = none := by
  have hspace : isSpace c = false := by rcases hc with rfl | rfl <;> decide
  have hascii : py.ascii c = c := by rcases hc with rfl | rfl <;> rfl
  obtain ⟨ds, hds⟩ : ∃ ds, trim (c :: cs.map py.ascii) = c :: ds := by
    unfold trim trimBy
    rw [List.dropWhile_cons_of_neg (by simp [hspace]), List.reverse_cons, List.dropWhile_append]
    split
    · exact ⟨[], by simp [hspace]⟩
    · exact ⟨_, by rw [List.reverse_append]; rfl⟩
  have hnumeral : ∀ es, py.numeral s = some es → ∃ fs, es = c :: fs := by
    intro es hes
    rw [PyText.numeral, hs, List.map_cons, hascii, hds, dropUnderscores,
      if_neg (by rcases hc with rfl | rfl <;> decide)] at hes
    obtain ⟨fs, -, rfl⟩ := Option.map_eq_some_iff.1 hes
    exact ⟨fs, rfl⟩
  rw [PyText.float, Option.bind_eq_none_iff]
  intro es hes
  obtain ⟨fs, rfl⟩ := hnumeral es hes
  rcases hc with rfl | rfl <;> exact readFloat_eq_none (by decide) (by decide) (by decide) fs

theorem int_of_float (h : py.float s = none) : py.int s = none := by
  cases hint : py.int s with
  | none => rfl
  | some n =>
    obtain ⟨cs, hcs, hn⟩ := Option.bind_eq_some_iff.1 hint
    grind [readFloat_of_readInt, PyText.float]

/-! ### Spaces and case -/

theorem isSpace_toLower (c : Char) : isSpace c.toLower = isSpace c := by
  by_cases h : c.toNat < 65 ∨ 90 < c.toNat
  · rw [toLower_eq_self h]
  · have hfalse : ∀ n : ℕ, 65 ≤ n → n ≤ 122 → ∀ d : Char, d.toNat = n → isSpace d = false := by
      intro n h1 h2 d hd
      simp only [isSpace, hd, Bool.or_eq_false_iff, Bool.and_eq_false_iff,
        decide_eq_false_iff_not, beq_eq_false_iff_ne]
      omega
    rw [hfalse c.toNat (by omega) (by omega) c rfl, hfalse (c.toNat + 32) (by omega) (by omega)]
    rw [toNat_toLower, if_pos (by omega)]

theorem isSpace_ascii (c : Char) : isSpace (py.ascii c) = isSpace c := by
  unfold PyText.ascii
  split_ifs with h1 h2
  · rfl
  · rw [h2]
    decide
  · have hdigit : ∀ d : Fin 10, isSpace (Char.ofNat (48 + d)) = false := by decide
    have hc : isSpace c = false := by simpa using h2
    rw [hc]
    split
    · exact hdigit _
    · decide

theorem ascii_toLower (c : Char) : py.ascii c.toLower = (py.ascii c).toLower := by
  by_cases h : c.toNat < 127
  · have hlower : c.toLower.toNat < 127 := by
      rw [toNat_toLower]
      split_ifs <;> omega
    simp only [PyText.ascii, h, hlower, if_true]
  · have hself : c.toLower = c := toLower_eq_self (by omega)
    have hdigit : ∀ d : Fin 10, (Char.ofNat (48 + d)).toLower = Char.ofNat (48 + d) := by decide
    rw [hself]
    unfold PyText.ascii
    rw [if_neg h]
    split_ifs with h2
    · decide
    · split
      · exact (hdigit _).symm
      · decide

theorem dropUnderscores_lowerCase (p : Char) (cs : List Char) :
    dropUnderscores p.toLower (lowerCase cs) = (dropUnderscores p cs).map lowerCase := by
  induction cs generalizing p with
  | nil => rfl
  | cons c cs ih =>
    have hunder : c.toLower = '_' ↔ c = '_' := by
      simp only [← Char.toNat_inj, toNat_toLower]
      have : '_'.toNat = 95 := rfl
      split_ifs <;> omega
    have hhead : (lowerCase cs).head?.any Char.isDigit = cs.head?.any Char.isDigit := by
      cases cs with
      | nil => rfl
      | cons d ds => exact isDigit_toLower d
    show dropUnderscores p.toLower (c.toLower :: lowerCase cs) = _
    rw [dropUnderscores, dropUnderscores]
    simp only [hunder, isDigit_toLower, hhead]
    split_ifs with h1 h2
    · exact ih c
    · rfl
    · rw [ih c, Option.map_map, Option.map_map]
      rfl

theorem mem_of_dropUnderscores {p : Char} {ds : List Char}
    (h : dropUnderscores p cs = some ds) (hc : c ∈ cs) : c = '_' ∨ c ∈ ds := by
  induction cs generalizing p ds with
  | nil => cases hc
  | cons d cs ih =>
    rw [dropUnderscores] at h
    split_ifs at h with h1 h2
    · grind
    · obtain ⟨es, hes, rfl⟩ := Option.map_eq_some_iff.1 h
      grind

theorem numeral_eq (s : String) :
    py.numeral s = dropUnderscores '\x00' ((trim s.toList).map py.ascii) := by
  unfold PyText.numeral trim
  rw [trimBy_map]
  congr 3
  exact funext (isSpace_ascii py)

theorem ascii_lt_of_pySpace (h : pySpace c = true) : (py.ascii c).toNat < 33 := by
  have hsplit : isSpace c = true ∨ (0x1c ≤ c.toNat ∧ c.toNat ≤ 0x1f) := by simpa [pySpace] using h
  unfold PyText.ascii
  split_ifs with h1 h2
  · rcases hsplit with hs | hs
    · simp only [isSpace, Bool.or_eq_true, Bool.and_eq_true, decide_eq_true_eq, beq_iff_eq] at hs
      omega
    · omega
  · decide
  grind

theorem float_lower (s : String) : py.float (lower s) = py.float s := by
  have hlower : (lower s).toList = s.toList.map Char.toLower := by simp [lower]
  have hspace : isSpace ∘ Char.toLower = isSpace := funext isSpace_toLower
  have hascii : ((trim s.toList).map Char.toLower).map py.ascii =
      lowerCase ((trim s.toList).map py.ascii) := by
    rw [lowerCase, List.map_map, List.map_map]
    exact List.map_congr_left fun c _ => ascii_toLower py c
  have hnumeral : py.numeral (lower s) = (py.numeral s).map lowerCase := by
    rw [numeral_eq, numeral_eq, hlower, trim, trimBy_map, hspace, ← trim, hascii]
    exact dropUnderscores_lowerCase '\x00' _
  rw [PyText.float, PyText.float, hnumeral, Option.bind_map]
  exact congrArg _ (funext readFloat_lowerCase)

theorem float_lower_strip {x : F64} (h : py.float s = some x) :
    py.float (lower (String.ofList (pyStrip s.toList))) = some x := by
  rw [float_lower]
  obtain ⟨ds, hds, hx⟩ := Option.bind_eq_some_iff.1 h
  rw [numeral_eq] at hds
  have hcore : ∀ c ∈ trim s.toList, pySpace c = false := by
    intro c hc
    by_contra hspace
    have hlt := ascii_lt_of_pySpace py (by simpa using hspace)
    rcases mem_of_dropUnderscores hds (List.mem_map_of_mem hc) with heq | hmem
    · rw [heq] at hlt
      exact absurd hlt (by decide)
    · exact not_mem_of_readFloat hx hlt hmem
  have hstrip : pyStrip s.toList = trim s.toList :=
    trimBy_wider (fun c hc => by simp [pySpace, hc]) hcore
  have hnumeral : py.numeral (String.ofList (pyStrip s.toList)) = some ds := by
    have htrim : trim (trim s.toList) = trim s.toList := trimBy_idem isSpace _
    rw [numeral_eq, String.toList_ofList, hstrip, htrim, hds]
  rw [PyText.float, hnumeral]
  exact hx

end Texts

/-- An interpreter that writes the digits of a double; `n.0` as Python does, other numbers
    with an exponent. -/
def decimalPy : PyText := { asciiText with floatRepr := decimalText }

theorem decimalText_plain (q : ℚ) : ∀ c ∈ (decimalText q).toList,
    c.toNat < 127 ∧ c ≠ '_' ∧ isSpace c = false := by
  have hrepr : ∀ {n : ℤ}, ∀ c ∈ n.repr.toList, c.toNat < 127 ∧ c ≠ '_' ∧ isSpace c = false := by
    intro n c hc
    rcases mem_repr_digits hc with hd | rfl
    · exact plain_of_isDigit hd
    · decide
  have hword : ∀ c ∈ ['.', '0', 'e', '-'], c.toNat < 127 ∧ c ≠ '_' ∧ isSpace c = false :=
    List.all_iff_forall_prop.1 (by decide)
  intro c hc
  unfold decimalText at hc
  split at hc
  · grind -ring -linarith [String.toList_append]
  · rw [String.toList_append, String.toList_append, Nat.toList_repr] at hc
    grind -ring -linarith [plain_of_isDigit, isDigit_toDigits]

theorem decimalText_marked (q : ℚ) : ∃ c ∈ (decimalText q).toList, c = '.' ∨ c = 'e' := by
  unfold decimalText
  split
  · exact ⟨'.', by simp, Or.inl rfl⟩
  · exact ⟨'e', by simp, Or.inr rfl⟩

theorem decimalPy_reads : decimalPy.Reads := by
  constructor
  · intro q hq
    show (decimalPy.numeral (decimalText q)).bind readFloat = _
    rw [numeral_of_plain decimalPy (decimalText_plain q)]
    exact readFloat_decimalText hq
  · rintro q - n (heq : decimalText q = n.repr)
    obtain ⟨c, hc, hmark⟩ := decimalText_marked q
    rw [heq] at hc
    rcases mem_repr_digits hc with hd | rfl
    · rcases hmark with rfl | rfl
      · exact absurd hd (by decide)
      · exact absurd hd (by decide)
    · exact absurd hmark (by decide)

end RuleMind
