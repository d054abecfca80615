/-
  What the device reads as the server does.
-/
import RuleMind.DeviceFormula

namespace RuleMind.Formula

open Browser (spanDigits wordStart wordChar)

namespace Dart

/-! ### Reading the same tokens -/

/-- A text whose backslashes stand before what both read alike. -/
def plainEscapes : List Char → Bool
  | '\x5c' :: c :: cs => ['n', 'r', 't', '\x5c', '\x27', '\x22'].contains c && plainEscapes cs
  | _ :: cs => plainEscapes cs
  | [] => true

/-- What the device reads as the server does: a number with no underscore in its exponent, and a
    text of plain escapes. -/
def style : Style :=
  ⟨fun lit => '_' ∉ lit.dropWhile fun c => c != 'e' && c != 'E', fun lit => plainEscapes lit = true,
    True⟩

/-- A text, of what is written between its quotes. -/
def decode : List Char → List Char
  | '\x5c' :: c :: cs => escaped c :: decode cs
  | c :: cs => c :: decode cs
  | [] => []

def ofToken : Token → Token
  | .num lit => .num (lit.filter (· != '_'))
  | .str lit => .str (decode lit)
  | .name s => .name s
  | .op s => .op s

def AsciiName : Token → Prop
  | .name s => ∀ c ∈ s.toList, c.toNat < 128
  | _ => True

/-- No number runs into a name that starts with an underscore. -/
def Spaced (ts : List Token) : Prop :=
  ∀ lit s rest, .num lit :: .name s :: rest <:+ ts → s.toList.head? ≠ some '_'

variable {cs : List Char} {c : Char}

theorem moreDigits_spanNumber (h : (moreDigits cs).2.head? ≠ some '_') :
    spanNumber cs = moreDigits cs := by
  induction cs using moreDigits.induct with
  | case1 c cs hc ih =>
    rw [moreDigits, if_pos hc] at h ⊢
    rw [← ih h]
    simp [spanNumber, hc]
  | case2 c cs hc =>
    rw [moreDigits, if_neg hc] at h
    exact absurd rfl h
  | case3 c cs hne hc ih =>
    rw [moreDigits.eq_2 _ _ hne, if_pos hc] at h ⊢
    rw [← ih h]
    simp [spanNumber, hc]
  | case4 c cs hne hc => simp_all [moreDigits.eq_2, spanNumber]
  | case5 => rfl

theorem digitPart_spanNumber (h : (digitPart cs).2.head? ≠ some '_') :
    spanNumber cs = digitPart cs := by
  unfold digitPart at h ⊢
  split
  · next hs =>
    rw [if_pos hs] at h
    exact moreDigits_spanNumber h
  · next hs =>
    rw [if_neg hs] at h
    cases cs with
    | nil => rfl
    | cons c cs =>
      have hc : ¬c.isDigit = true := hs
      simp_all [spanNumber]

theorem fractionPart_pointPart (h : (fractionPart cs).2.head? ≠ some '_') :
    pointPart cs = fractionPart cs := by
  cases cs with
  | nil => rfl
  | cons c cs =>
    by_cases hc : c = '.'
    · subst hc
      rw [fractionPart] at h ⊢
      rw [pointPart, digitPart_spanNumber h]
    · simp [pointPart, fractionPart, hc]

theorem exponentPart_underscore (digits : List Char → List Char × List Char)
    (h : cs.head? = some '_') : exponentPart digits cs = ([], cs) := by
  cases cs with
  | nil => rfl
  | cons c cs => simp_all [exponentPart]

theorem fractionPart_underscore (h : cs.head? = some '_') : fractionPart cs = ([], cs) := by
  cases cs with
  | nil => rfl
  | cons c cs =>
    obtain rfl : c = '_' := Option.some.inj h
    rfl

theorem moreDigits_chars (cs : List Char) :
    ∀ c ∈ (moreDigits cs).1, c.isDigit = true ∨ c = '_' := by
  induction cs using moreDigits.induct with
  | case1 c cs hc ih => simp_all [moreDigits]
  | case2 c cs hc => simp [moreDigits, hc]
  | case3 c cs hne hc ih => simp_all [moreDigits.eq_2]
  | case4 c cs hne hc => simp [moreDigits.eq_2 _ _ hne, hc]
  | case5 => simp [moreDigits]

theorem digitPart_chars (cs : List Char) : ∀ c ∈ (digitPart cs).1, c.isDigit = true ∨ c = '_' := by
  unfold digitPart
  split
  · exact moreDigits_chars cs
  · simp

theorem fractionPart_chars (cs : List Char) :
    ∀ c ∈ (fractionPart cs).1, c.isDigit = true ∨ c = '_' ∨ c = '.' := by
  unfold fractionPart
  split
  · intro c hc
    obtain rfl | hc := List.mem_cons.1 hc
    · exact .inr (.inr rfl)
    · exact (digitPart_chars _ c hc).imp_right .inl
  · simp

theorem exponentPart_start (digits : List Char → List Char × List Char) (cs : List Char) :
    (exponentPart digits cs).1 = [] ∨
      ∃ c rest, (exponentPart digits cs).1 = c :: rest ∧ (c = 'e' ∨ c = 'E') := by
  unfold exponentPart
  grind

variable {r : List Char × List Char} {n : ℕ} {lit : List Char}

theorem scanNumber_eq (h : number cs = some r)
    (hplain : style.number r.1) (hnext : r.2.head? ≠ some '_') :
    scanNumber cs = (r.1.filter (· != '_'), r.2) := by
  unfold number at h
  simp only at h
  split at h
  · cases h
  cases h
  have hfraction : (fractionPart (digitPart cs).2).2.head? ≠ some '_' := fun hunder => hnext (by
    rw [exponentPart_underscore _ hunder]
    exact hunder)
  have hwhole : (digitPart cs).2.head? ≠ some '_' := fun hunder => hfraction (by
    rw [fractionPart_underscore hunder]
    exact hunder)
  have hexponent : '_' ∉ (exponentPart digitPart (fractionPart (digitPart cs).2).2).1 := by
    obtain hnil | ⟨c, rest, hcons, hc⟩ :=
      exponentPart_start digitPart (fractionPart (digitPart cs).2).2
    · simp [hnil]
    · have hbefore : ∀ c ∈ (digitPart cs).1 ++ (fractionPart (digitPart cs).2).1,
          (c != 'e' && c != 'E') = true := by
        intro c hc
        have hchar : c.isDigit = true ∨ c = '_' ∨ c = '.' := by
          obtain hc | hc := List.mem_append.1 hc
          · exact (digitPart_chars _ c hc).imp_right .inl
          · exact fractionPart_chars _ c hc
        rw [Bool.and_eq_true, bne_iff_ne, bne_iff_ne]
        constructor <;> rintro rfl <;> exact absurd hchar (by decide)
      have hdrop : ((digitPart cs).1 ++ (fractionPart (digitPart cs).2).1 ++ c :: rest).dropWhile
          (fun c => c != 'e' && c != 'E') = c :: rest := by
        rw [List.dropWhile_append_of_pos hbefore, List.dropWhile_cons_of_neg]
        obtain rfl | rfl := hc <;> decide
      have hafter : '_' ∉ ((digitPart cs).1 ++ (fractionPart (digitPart cs).2).1 ++
          (exponentPart digitPart (fractionPart (digitPart cs).2).2).1).dropWhile
            (fun c => c != 'e' && c != 'E') := hplain
      rw [hcons, hdrop] at hafter
      rw [hcons]
      exact hafter
  grind [scanNumber, digitPart_spanNumber, fractionPart_pointPart, exponentPart_span]

theorem scanText_eq {quote : Char}
    (h : quoted quote cs = some r) : scanText quote cs = some (decode r.1, r.2) := by
  induction cs using quoted.induct quote generalizing r with
  | case1 c cs ih =>
    rw [quoted, Option.map_eq_some_iff] at h
    obtain ⟨r', hr', rfl⟩ := h
    rw [scanText, ih hr']
    rfl
  | case2 cs hne =>
    rw [quoted.eq_2 _ _ _ hne, if_pos rfl] at h
    cases h
    rw [scanText.eq_2 _ _ _ hne, if_pos rfl]
    rfl
  | case3 c cs hne hc hnl =>
    rw [quoted.eq_2 _ _ _ hne, if_neg hc, if_pos hnl] at h
    cases h
  | case4 c cs hne hc hnl ih =>
    rw [quoted.eq_2 _ _ _ hne, if_neg hc, if_neg hnl, Option.map_eq_some_iff] at h
    obtain ⟨r', hr', rfl⟩ := h
    have hne' : ∀ c' cs', c = '\x5c' → r'.1 = c' :: cs' → False := by
      rintro c' cs' rfl hcons
      cases cs with
      | nil => cases hr'
      | cons d cs => exact hne d cs rfl rfl
    rw [scanText.eq_2 _ _ _ hne, if_neg hc, ih hr', decode.eq_2 _ _ hne']
    rfl
  | case5 => cases h

theorem simpleEscape_plain (h : ['n', 'r', 't', '\x5c', '\x27', '\x22'].contains c = true) :
    simpleEscape c = some [escaped c] := by
  simp only [List.contains_iff_mem, List.mem_cons, List.not_mem_nil, or_false] at h
  obtain rfl | rfl | rfl | rfl | rfl | rfl := h <;> rfl

theorem unescape_decode (hn : lit.length < n)
    (h : plainEscapes lit = true) : unescape n lit = some (decode lit) := by
  induction lit using decode.induct generalizing n with
  | case1 c cs ih =>
    obtain ⟨n, rfl⟩ := Nat.exists_eq_succ_of_ne_zero (Nat.ne_of_gt (Nat.zero_lt_of_lt hn))
    rw [plainEscapes, Bool.and_eq_true] at h
    grind -ring -linarith [unescape, decode, simpleEscape_plain]
  | case2 c cs hne ih =>
    obtain ⟨n, rfl⟩ := Nat.exists_eq_succ_of_ne_zero (Nat.ne_of_gt (Nat.zero_lt_of_lt hn))
    simp_all [plainEscapes.eq_2, unescape.eq_4, decode.eq_2]
  | case3 =>
    obtain ⟨n, rfl⟩ := Nat.exists_eq_succ_of_ne_zero (Nat.ne_of_gt (Nat.zero_lt_of_lt hn))
    rfl

theorem textValue_decode {s : String} (hplain : style.text lit)
    (h : textValue lit = some s) : String.ofList (decode lit) = s := by
  rw [textValue, unescape_decode (Nat.lt_succ_self _) hplain] at h
  exact Option.some.inj h

theorem literal_value (lit : List Char) : literal (lit.filter (· != '_')) = literalValue lit := by
  grind [literal, literalValue]

theorem find?_unique {α : Type} {p : α → Bool} {as bs : List α} (hmem : ∀ a, a ∈ as ↔ a ∈ bs)
    (hone : ∀ a ∈ as, ∀ b ∈ as, p a = true → p b = true → a = b) : as.find? p = bs.find? p := by
  cases ha : as.find? p with
  | none => grind -ring -linarith
  | some a =>
    obtain ⟨hmem_a, hpa⟩ := (⟨List.mem_of_find?_eq_some ha, List.find?_some ha⟩ : a ∈ as ∧ p a)
    cases hb : bs.find? p with
    | none => simp_all
    | some b => grind -ring -linarith

theorem operator_same (cs : List Char) : operator OPERATORS cs = operator Formula.OPERATORS cs := by
  have hsplit : OPERATORS = ["**", "//", "==", "!=", "<=", ">="] ++
      ["<", ">", "+", "-", "*", "/", "%", "(", ")", "[", "]", ","] := rfl
  have hsplit' : Formula.OPERATORS = ["**", "//", "==", "!=", "<=", ">="] ++
      ["(", ")", "[", "]", ",", "+", "-", "*", "/", "%", "<", ">"] := rfl
  have hsingle : ∀ o ∈ ["<", ">", "+", "-", "*", "/", "%", "(", ")", "[", "]", ","],
      o.toList.length = 1 := by decide
  rw [operator, operator, hsplit, hsplit', List.find?_append, List.find?_append]
  congr 2
  refine find?_unique (fun o => ?_) fun a ha b hb hpa hpb => ?_
  · simp only [List.mem_cons, List.not_mem_nil, or_false]
    tauto
  grind [List.prefix_iff_eq_take, String.toList_injective]

/-! ### Blanks -/

theorem layout_space (h : (isBlank c || isNewline c) = true) : isSpace c = true := by
  simp only [isBlank, isNewline, Bool.or_eq_true, beq_iff_eq] at h
  obtain (rfl | rfl) | rfl | rfl := h <;> decide

theorem isSpace_false (hlow : 33 ≤ c.toNat) (hhigh : c.toNat < 128) : ¬isSpace c = true := by
  simp only [isSpace, Bool.or_eq_true, Bool.and_eq_true, decide_eq_true_eq, List.contains_iff_mem,
    List.mem_cons, List.not_mem_nil, or_false]
  omega

theorem isDigit_space (h : c.isDigit = true) : ¬isSpace c = true := by
  simp only [Char.isDigit, ge_iff_le, Bool.and_eq_true, decide_eq_true_eq, UInt32.le_iff_toNat_le]
    at h
  exact isSpace_false (Nat.le_trans (by decide) h.1) (Nat.lt_of_le_of_lt h.2 (by decide))

theorem digit_space
    (h : (c.isDigit || (c == '.' && startsDigit cs)) = true) : ¬isSpace c = true := by
  rw [Bool.or_eq_true, Bool.and_eq_true, beq_iff_eq] at h
  obtain h | ⟨rfl, -⟩ := h
  · exact isDigit_space h
  · decide

theorem word_space (h : wordStart c = true) : ¬isSpace c = true := by
  change ((decide (c.val ≥ 'A'.val ∧ c.val ≤ 'Z'.val) ||
    (decide (c.val ≥ 'a'.val) && decide (c.val ≤ 'z'.val))) || c == '_') = true at h
  simp only [ge_iff_le, Bool.or_eq_true, Bool.and_eq_true, decide_eq_true_eq, beq_iff_eq,
    UInt32.le_iff_toNat_le] at h
  obtain (⟨hlow, hhigh⟩ | ⟨hlow, hhigh⟩) | rfl := h
  · exact isSpace_false (Nat.le_trans (by decide) hlow) (Nat.lt_of_le_of_lt hhigh (by decide))
  · exact isSpace_false (Nat.le_trans (by decide) hlow) (Nat.lt_of_le_of_lt hhigh (by decide))
  · decide

theorem operator_space {r : String × List Char}
    (h : operator Formula.OPERATORS (c :: cs) = some r) : ¬isSpace c = true := by
  obtain ⟨o, ho, -⟩ := Option.map_eq_some_iff.1 h
  have hprefix := List.find?_some ho
  have hfirst : ∀ o ∈ Formula.OPERATORS, ∀ d ∈ o.toList.head?, 33 ≤ d.toNat ∧ d.toNat < 128 := by
    simp [Formula.OPERATORS]
  have hne : ∀ o ∈ Formula.OPERATORS, o.toList ≠ [] := by decide
  have hmem := List.mem_of_find?_eq_some ho
  cases hlist : o.toList with
  | nil => exact absurd hlist (hne o hmem)
  | cons d ds =>
    rw [hlist, List.isPrefixOf_iff_prefix] at hprefix
    obtain rfl : d = c := (List.cons_prefix_cons.1 hprefix).1
    grind [isSpace_false]

theorem tokenize_layout (hn : cs.length < n)
    (h : (cs.all fun c => isBlank c || isNewline c) = true) : tokenize n cs = some [] := by
  induction n generalizing cs with
  | zero => omega
  | succ n ih =>
    cases cs with
    | nil => rfl
    | cons c cs =>
      rw [List.all_cons, Bool.and_eq_true] at h
      rw [tokenize, if_pos (layout_space h.1)]
      exact ih (Nat.lt_of_succ_lt_succ hn) h.2

section Lexing
variable {py : Python}

variable {cs : List Char} {ts : List Token}

theorem lex_underscore {n depth : ℕ}
    (hcs : cs.head? = some '_') (h : lex py n depth .within cs = some ts) :
    ∃ s ts', ts = .name s :: ts' ∧ s.toList.head? = some '_' := by
  cases n with
  | zero => cases h
  | succ n =>
    cases cs with
    | nil => cases hcs
    | cons c cs =>
      obtain rfl : c = '_' := Option.some.inj hcs
      have hstart : py.nameStart '_' = true := by simp [Python.nameStart]
      simp only [lex, show isBlank '_' = false by decide, show isNewline '_' = false by decide,
        show Char.isDigit '_' = false by decide, hstart] at h
      obtain ⟨ts', -, rfl⟩ := Option.map_eq_some_iff.1 h
      exact ⟨_, ts', rfl, by rw [String.toList_ofList]; rfl⟩

theorem wordChar_nameChar {c : Char} (h : wordChar c = true) : py.nameChar c = true := by
  rw [wordChar, Bool.or_eq_true] at h
  rw [Python.nameChar, Python.nameStart, Bool.or_eq_true, Bool.or_eq_true]
  obtain h | h := h
  · exact .inl (.inl (by rw [Bool.or_eq_true]; exact .inl h))
  · exact .inl (.inr h)

theorem word_ends (h : ∀ c ∈ cs.takeWhile py.nameChar, c.toNat < 128) :
    cs.takeWhile wordChar = cs.takeWhile py.nameChar ∧
      cs.dropWhile wordChar = cs.dropWhile py.nameChar := by
  induction cs with
  | nil => exact ⟨rfl, rfl⟩
  | cons c cs ih =>
    cases hc : py.nameChar c with
    | true =>
      rw [List.takeWhile_cons_of_pos hc] at h
      have hword : wordChar c = true := by
        rw [← @nameChar_ascii py c (h c List.mem_cons_self)]
        exact hc
      simp_all
    | false =>
      have hword : ¬wordChar c = true := fun hword => by
        rw [wordChar_nameChar hword] at hc
        cases hc
      simp_all

theorem Spaced.tail {t : Token} (h : Spaced (t :: ts)) : Spaced ts :=
  fun lit s rest hsuffix => h lit s rest (hsuffix.trans (List.suffix_cons _ _))

theorem tokenize_lex {n depth : ℕ} {place : Place}
    (h : lex py n depth place cs = some ts) (hn : cs.length < n)
    (hplain : ∀ t ∈ ts, style.allows t) (hascii : ∀ t ∈ ts, AsciiName t) (hspaced : Spaced ts) :
    tokenize n cs = some (ts.map ofToken) := by
  induction n generalizing depth place cs ts with
  | zero => cases h
  | succ n ih =>
    cases cs with
    | nil =>
      cases h
      rfl
    | cons c cs =>
      have hlen : cs.length < n := Nat.lt_of_succ_lt_succ hn
      -- what is left after a token is read alike
      have hrest : ∀ {depth rest t ts'}, rest.length < (c :: cs).length →
          lex py n depth .within rest = some ts' → ts = t :: ts' →
          tokenize n rest = some (ts'.map ofToken) := by
        intro depth rest t ts' hlen hlex hts
        subst hts
        simp only [List.length_cons] at hn hlen
        exact ih hlex (by omega) (fun t ht => hplain t (List.mem_cons_of_mem _ ht))
          (fun t ht => hascii t (List.mem_cons_of_mem _ ht)) hspaced.tail
      rw [lex] at h
      rw [tokenize]
      split at h
      · next hblank =>
        rw [if_pos (layout_space (by rw [hblank]; rfl))]
        exact ih h hlen hplain hascii hspaced
      next hblank =>
      split at h
      · next hnewline =>
        rw [if_pos (layout_space (by rw [hnewline, Bool.or_true]))]
        split at h
        · grind -ring -linarith [tokenize_layout]
        · exact ih h hlen hplain hascii hspaced
      next hnewline =>
      split at h
      · cases h
      split at h
      · next hdigit =>
        obtain ⟨r, hr, hts⟩ := Option.bind_eq_some_iff.1 h
        obtain ⟨ts', hlex, rfl⟩ := Option.map_eq_some_iff.1 hts
        have hnext : r.2.head? ≠ some '_' := by
          intro hunder
          obtain ⟨s, ts'', rfl, hs⟩ := lex_underscore hunder hlex
          exact hspaced _ _ _ (List.suffix_refl _) hs
        rw [if_neg (digit_space hdigit), if_pos hdigit,
          scanNumber_eq hr (hplain _ List.mem_cons_self) hnext,
          hrest (number_length hdigit hr) hlex rfl]
        rfl
      next hdigit =>
      split at h
      · next hquote =>
        split at h
        · cases h
        · obtain ⟨r, hr, hts⟩ := Option.bind_eq_some_iff.1 h
          obtain ⟨ts', hlex, rfl⟩ := Option.map_eq_some_iff.1 hts
          have hspace : ¬isSpace c = true := by obtain rfl | rfl := hquote <;> decide
          rw [if_neg hspace, if_neg hdigit, if_pos hquote, scanText_eq hr, Option.bind_some,
            hrest (Nat.lt_succ_of_le (quoted_suffix hr).length_le) hlex rfl]
          rfl
      next hquote =>
      split at h
      · next hname =>
        obtain ⟨ts', hlex, rfl⟩ := Option.map_eq_some_iff.1 h
        have hchars : ∀ d ∈ c :: cs.takeWhile py.nameChar, d.toNat < 128 := by
          have := hascii _ List.mem_cons_self
          rwa [AsciiName, String.toList_ofList] at this
        have hword : wordStart c = true := by
          rw [← @nameStart_ascii py c (hchars c List.mem_cons_self)]
          exact hname
        obtain ⟨htake, hdrop⟩ := word_ends fun d hd => hchars d (List.mem_cons_of_mem _ hd)
        rw [if_neg (word_space hword), if_neg hdigit, if_neg hquote, if_pos hword, htake, hdrop,
          hrest (Nat.lt_succ_of_le (List.dropWhile_suffix _).length_le) hlex rfl]
        rfl
      · next hname =>
        obtain ⟨r, hr, hts⟩ := Option.bind_eq_some_iff.1 h
        obtain ⟨ts', hlex, rfl⟩ := Option.map_eq_some_iff.1 hts
        have hword : ¬wordStart c = true := fun hword => hname (by
          rw [Python.nameStart, Bool.or_eq_true]
          exact .inl hword)
        rw [if_neg (operator_space hr), if_neg hdigit, if_neg hquote, if_neg hword,
          operator_same, hr, Option.bind_some, hrest (operator_length hr) hlex rfl]
        rfl

end Lexing

end Dart

/-! ### What follows what -/

def Goal.goesOn : Goal → Prop
  | .moreBools _ _ | .moreCompares _ _ _ | .moreBinary _ _ | .moreItems _ _ => True
  | _ => False

def Goal.isRule : Goal → Prop
  | .expression | .bools _ | .inversion | .comparison | .binary _ | .factor | .power | .atom => True
  | _ => False

/-- What stands after what is read is no call of it, and no comparison that the device refuses. -/
def Ends (rest : List Token) : Prop :=
  ∀ t ∈ [Token.op "(", .name "in", .name "is"], rest.head? ≠ some t

/-- A number that runs into a name runs into a keyword, before the rest. -/
def Joined (ts rest : List Token) : Prop :=
  ∀ lit s post, .num lit :: .name s :: post <:+ ts → rest.length ≤ post.length → s ∈ KEYWORDS

section Following
variable {style : Style} {d : ℕ} {goal : Goal} {ts ts₁ rest : List Token} {e : Expr}

theorem Reads.suffix (h : Reads style d goal ts e rest) : rest <:+ ts := by
  induction h with
  | ifExp _ _ _ ih₁ ih₂ ih₃ => grind [List.suffix_cons]
  | disjunction _ _ ih | noNot _ _ ih | noSign _ _ _ ih | noPower _ _ ih => exact ih
  | bools _ _ ih₁ ih₂ | comparison _ _ ih₁ ih₂ | binary _ _ ih₁ ih₂ | items _ _ _ ih₁ ih₂ =>
    exact ih₂.trans ih₁
  | nextBool _ _ ih₁ ih₂ | nextCompare _ _ ih₁ ih₂ | nextBinary _ _ _ ih₁ ih₂
  | nextItem _ _ _ ih₁ ih₂ => exact (ih₂.trans ih₁).trans (List.suffix_cons _ _)
  | lastBool | lastCompare | lastBinary => exact List.suffix_refl _
  | not _ ih | minus _ ih | plus _ ih | list _ ih => exact ih.trans (List.suffix_cons _ _)
  | power _ _ ih₁ ih₂ => exact (ih₂.trans (List.suffix_cons _ _)).trans ih₁
  | num | str | keyword | name | noItems | lastItem => exact List.suffix_cons _ _
  | call _ _ ih => exact ih.trans ((List.suffix_cons _ _).trans (List.suffix_cons _ _))
  | group _ ih => exact (List.suffix_cons _ _).trans (ih.trans (List.suffix_cons _ _))
  | lastComma => exact (List.suffix_cons _ _).trans (List.suffix_cons _ _)

variable {s o : String} {ts₂ : List Token}

theorem Reads.more_name (h : Reads style d goal ts e rest) (hmore : goal.goesOn)
    (hs : ts.head? = some (.name s)) : ts = rest ∨ s ∈ KEYWORDS ∧ s ≠ "in" ∧ s ≠ "is" := by
  cases h with
  | @nextBool _ op _ _ _ _ _ _ _ _ =>
    cases hs
    exact .inr (by cases op <;> decide)
  | lastBool | lastCompare | lastBinary => exact .inl rfl
  | nextCompare | nextBinary | nextItem | lastItem | lastComma => cases hs
  | _ => exact hmore.elim

theorem head_op {o' : String} (h : (Token.op o :: ts).head? = some (.op o')) : o = o' := by
  injection h with h
  injection h

theorem Reads.more_bracket (h : Reads style d goal ts e rest) (hmore : goal.goesOn)
    (hclose : ∀ close es, goal = .moreItems close es → close ≠ "(")
    (hs : ts.head? = some (.op "(")) : ts = rest := by
  cases h with
  | nextBool => cases hs
  | lastBool | lastCompare | lastBinary => rfl
  | @nextCompare _ _ _ _ op => exact absurd (head_op hs) (by cases op <;> decide)
  | @nextBinary _ _ _ op => exact absurd (head_op hs) (by cases op <;> decide)
  | nextItem | lastComma => exact absurd (head_op hs) (by decide)
  | lastItem => exact absurd (head_op hs) (hclose _ _ rfl)
  | _ => exact hmore.elim

theorem Reads.ends (h : Reads style d goal ts e rest) (hmore : goal.goesOn)
    (hclose : ∀ close es, goal = .moreItems close es → close ≠ "(") (hends : Ends rest) :
    Ends ts := by
  intro t ht hhead
  have hsame : ts = rest → False := fun hsame => hends t ht (hsame ▸ hhead)
  simp only [List.mem_cons, List.not_mem_nil, or_false] at ht
  obtain rfl | rfl | rfl := ht
  · exact hsame (h.more_bracket hmore hclose hhead)
  · exact (h.more_name hmore hhead).elim hsame fun h => h.2.1 rfl
  · exact (h.more_name hmore hhead).elim hsame fun h => h.2.2 rfl

theorem Reads.opens (h : Reads style d goal ts e rest) (hrule : goal.isRule) :
    ts.head? ≠ some (.op ")") := by
  induction h with
  | ifExp _ _ _ ih _ _ | power _ _ ih _ | comparison _ _ ih _ => exact ih trivial
  | disjunction _ _ ih | noNot _ _ ih | noSign _ _ _ ih | noPower _ _ ih => exact ih trivial
  | @bools _ op _ _ _ _ _ _ _ ih _ => exact ih (by cases op <;> trivial)
  | @binary _ lvl _ _ _ _ _ _ _ ih _ => exact ih (by cases lvl <;> trivial)
  | not | num | str | keyword | name | call => rintro ⟨⟩
  | minus | plus | group | list => exact fun h => absurd (head_op h) (by decide)
  | _ => exact hrule.elim

theorem joined_refl (rest : List Token) : Joined rest rest := by
  intro lit s post hsuffix hle
  grind

theorem Joined.cons (h : Joined ts rest) {t : Token} (ht : ∀ lit, t ≠ .num lit) :
    Joined (t :: ts) rest := by
  intro lit s post hsuffix hle
  obtain heq | hsuffix := List.suffix_cons_iff.1 hsuffix
  · exact absurd (List.cons.inj heq).1.symm (ht lit)
  · exact h lit s post hsuffix hle

theorem Joined.trans (h₁ : Joined ts ts₁) (h₂ : Joined ts₁ rest) (hsuffix : ts₁ <:+ ts)
    (hhead : ∀ s, ts₁.head? = some (.name s) → ts₁ = rest ∨ s ∈ KEYWORDS) : Joined ts rest := by
  intro lit s post hpost hle
  obtain hlt | hge := Nat.lt_or_ge post.length ts₁.length
  · obtain hlast | hlong := Nat.eq_or_lt_of_le (Nat.succ_le_of_lt hlt)
    · have hsame : ts₁ = .name s :: post :=
        (List.suffix_of_suffix_length_le hsuffix ((List.suffix_cons _ _).trans hpost)
          (by simp [← hlast])).eq_of_length (by simp [← hlast])
      grind
    · exact h₂ lit s post (List.suffix_of_suffix_length_le hpost hsuffix hlong) hle
  · exact h₁ lit s post hpost hge

theorem Joined.word (h₁ : Joined ts (.name s :: ts₂))
    (h₂ : Joined ts₂ rest) (hs : s ∈ KEYWORDS) (hsuffix : .name s :: ts₂ <:+ ts) :
    Joined ts rest :=
  h₁.trans (h₂.cons fun lit => by rintro ⟨⟩) hsuffix fun s' hs' => .inr (by cases hs'; exact hs)

theorem Joined.more (h₁ : Joined ts ts₁) (hr : Reads style d goal ts₁ e rest)
    (hmore : goal.goesOn) (h₂ : Joined ts₁ rest) (hsuffix : ts₁ <:+ ts) : Joined ts rest :=
  h₁.trans h₂ hsuffix fun _ hs => (hr.more_name hmore hs).imp_right fun h => h.1

theorem Joined.op (h₁ : Joined ts (.op o :: ts₂))
    (h₂ : Joined ts₂ rest) (hsuffix : .op o :: ts₂ <:+ ts) : Joined ts rest :=
  h₁.trans (h₂.cons fun lit => by rintro ⟨⟩) hsuffix fun _ hs => by cases hs

theorem Reads.joined (h : Reads style d goal ts e rest) : Joined ts rest := by
  induction h with
  | ifExp h₁ h₂ _ ih₁ ih₂ ih₃ =>
    exact ih₁.word (ih₂.word ih₃ (by decide) h₂.suffix) (by decide) h₁.suffix
  | disjunction _ _ ih | noNot _ _ ih | noSign _ _ _ ih | noPower _ _ ih => exact ih
  | bools h₁ h₂ ih₁ ih₂ | comparison h₁ h₂ ih₁ ih₂ | binary h₁ h₂ ih₁ ih₂
  | items _ h₁ h₂ ih₁ ih₂ => exact ih₁.more h₂ trivial ih₂ h₁.suffix
  | nextBool h₁ h₂ ih₁ ih₂ | nextCompare h₁ h₂ ih₁ ih₂ | nextBinary _ h₁ h₂ ih₁ ih₂
  | nextItem _ h₁ h₂ ih₁ ih₂ =>
    exact (ih₁.more h₂ trivial ih₂ h₁.suffix).cons fun lit => by rintro ⟨⟩
  | lastBool | lastCompare | lastBinary => exact joined_refl _
  | not _ ih | minus _ ih | plus _ ih | list _ ih => exact ih.cons fun lit => by rintro ⟨⟩
  | power h₁ _ ih₁ ih₂ => exact ih₁.op ih₂ h₁.suffix
  | num =>
    -- the name that it runs into is not taken
    intro lit s post hsuffix hle
    grind
  | str | keyword | name | noItems | lastItem => exact (joined_refl _).cons fun lit => by rintro ⟨⟩
  | call _ _ ih => exact (ih.cons fun lit => by rintro ⟨⟩).cons fun lit => by rintro ⟨⟩
  | group h ih => exact (ih.op (joined_refl _) h.suffix).cons fun lit => by rintro ⟨⟩
  | lastComma => exact ((joined_refl _).cons fun lit => by rintro ⟨⟩).cons fun lit => by rintro ⟨⟩

theorem Reads.spaced (h : Reads style d goal ts e []) : Dart.Spaced ts := by
  intro lit s post hsuffix hs
  have hplain : ∀ s ∈ KEYWORDS, s.toList.head? ≠ some '_' := by decide
  exact hplain s (h.joined lit s post hsuffix (Nat.zero_le _)) hs

theorem Reads.alone (h : Reads style d .atom ts e rest)
    (hstart : ∀ t ∈ [Token.op "-", .op "+", .name "not"], ts.head? ≠ some t)
    (hrest : rest = [] ∨ ∃ ts', rest = .op ")" :: ts') :
    Reads style (d + 9) .expression ts e rest := by
  have hhead : ∀ t, t ≠ .op ")" → rest.head? ≠ some t := by
    intro t ht
    obtain rfl | ⟨ts', rfl⟩ := hrest
    · rintro ⟨⟩
    · exact fun heq => ht (Option.some.inj heq).symm
  have hop : ∀ o, o ≠ ")" → rest.head? ≠ some (.op o) := fun o ho =>
    hhead _ fun heq => ho (by injection heq)
  have hname : ∀ s, rest.head? ≠ some (.name s) := fun s => hhead _ (by rintro ⟨⟩)
  have hfactor := h.toFactor (hstart _ (by simp)) (hstart _ (by simp)) (hop "**" (by decide))
  have hsum := hfactor.toSum (fun op _ => hop _ (by cases op <;> decide))
    fun op _ => hop _ (by cases op <;> decide)
  have hcomparison : Reads style (d + 5) .comparison ts e rest :=
    .comparison hsum (.lastCompare fun op => hop _ (by cases op <;> decide))
  exact .disjunction (hcomparison.toDisjunction (hstart _ (by simp)) (hname _) (hname _)) (hname _)

theorem Reads.inBrackets (h : Reads style d .expression ts e (.op ")" :: rest))
    (hrest : rest = [] ∨ ∃ ts', rest = .op ")" :: ts') :
    Reads style (d + 10) .expression (.op "(" :: ts) e rest :=
  (Reads.group h).alone (by simp) hrest

end Following

namespace Dart

/-! ### Trees -/

def keywordName : Value → Option String
  | .bool true => some "True"
  | .bool false => some "False"
  | .null => some "None"
  | _ => none

mutual

/-- A tree of the server, on the device: a keyword that is a constant is a name. -/
def asRead : Expr → Expr
  | .constant v => (keywordName v).elim (.constant v) .name
  | .name id => .name id
  | .binOp left op right => .binOp (asRead left) op (asRead right)
  | .unaryOp op operand => .unaryOp op (asRead operand)
  | .boolOp op values => .boolOp op (asReadAll values)
  | .compare left ops comparators => .compare (asRead left) ops (asReadAll comparators)
  | .ifExp test body orelse => .ifExp (asRead test) (asRead body) (asRead orelse)
  | .call func args => .call func (asReadAll args)
  | .list elts => .list (asReadAll elts)

def asReadAll : List Expr → List Expr
  | [] => []
  | e :: es => asRead e :: asReadAll es

end

theorem asReadAll_append (es : List Expr) (e : Expr) :
    asReadAll (es ++ [e]) = asReadAll es ++ [asRead e] := by
  induction es with
  | nil => rfl
  | cons e' es ih => rw [List.cons_append, asReadAll, ih, asReadAll, List.cons_append]

theorem asRead_boolExpr (op : BoolOp) (es : List Expr) :
    asRead (boolExpr op es) = boolExpr op (asReadAll es) := by
  cases es with
  | nil => rfl
  | cons e es => cases es <;> rfl

theorem asRead_compareExpr (left : Expr) (ops : List CmpOp) (es : List Expr) :
    asRead (compareExpr left ops es) = compareExpr (asRead left) ops (asReadAll es) := by
  cases ops <;> rfl

theorem asRead_literal (lit : List Char) :
    asRead (.constant (literalValue lit)) = .constant (literalValue lit) := by
  unfold literalValue
  simp only
  split <;> rfl

variable {s : String} {ts : List Token} {operand : Reader Expr}

variable {v : Value} {t' : Token} {word : String}

theorem asRead_keyword (h : keywordValue s = some v) : asRead (.constant v) = .name s := by
  obtain ⟨rfl, rfl⟩ | ⟨rfl, rfl⟩ | ⟨rfl, rfl⟩ := keyword_cases h <;> rfl

theorem ofToken_eq {t : Token} (ht : (∃ s, t' = .name s) ∨ ∃ o, t' = .op o)
    (h : ofToken t = t') : t = t' := by
  obtain ⟨s, rfl⟩ | ⟨o, rfl⟩ := ht
  · cases t <;> cases h
    rfl
  · cases t <;> cases h
    rfl

theorem head_ofToken (ht : (∃ s, t' = .name s) ∨ ∃ o, t' = .op o)
    (h : ts.head? ≠ some t') : (ts.map ofToken).head? ≠ some t' := by
  cases ts with
  | nil => exact h
  | cons t ts => exact fun heq => h (congrArg some (ofToken_eq ht (Option.some.inj heq)))

theorem noName (h : ts.head? ≠ some (.name word)) : eatName word (ts.map ofToken) = none :=
  eatName_none (head_ofToken (.inl ⟨_, rfl⟩) h)

theorem noOp {text : String} (h : ts.head? ≠ some (.op text)) :
    eatOp text (ts.map ofToken) = none :=
  eatOp_none (head_ofToken (.inr ⟨_, rfl⟩) h)

theorem noneOf {α : Type} {text : α → String} {ops : List α}
    (h : ∀ op ∈ ops, ts.head? ≠ some (.op (text op))) : eatAny text ops (ts.map ofToken) = none :=
  eatAny_none fun op hop => head_ofToken (.inr ⟨_, rfl⟩) (h op hop)

/-- The operand of a boolean operator, as the device reads it. -/
def boolOperand (n : ℕ) : BoolOp → Reader Expr
  | .or => parseAnd n
  | .and => parseNot n

def boolReader (n : ℕ) : BoolOp → Reader Expr
  | .or => parseOr n
  | .and => parseAnd n

def binOperand (n : ℕ) : Level → Reader Expr
  | .sum => parseTerm n
  | .term => parseUnary n

def binReader (n : ℕ) : Level → Reader Expr
  | .sum => parseArithmetic n
  | .term => parseTerm n

/-- The device reads a tree of the server off some tokens. -/
def Gives (reader : Reader Expr) (ts : List Token) (e : Expr) (rest : List Token) : Prop :=
  reader (ts.map ofToken) = some (asRead e, rest.map ofToken)

def Parses (n : ℕ) : Goal → List Token → Expr → List Token → Prop
  | .expression, ts, e, rest => Gives (parseExpression n) ts e rest
  | .bools op, ts, e, rest => Gives (boolReader n op) ts e rest
  | .moreBools op values, ts, e, rest => ∀ m, ts.length ≤ m →
    ((whileName op.word (boolOperand n op) m (asReadAll values) (ts.map ofToken)).map fun r =>
      (boolExpr op r.1, r.2)) = some (asRead e, rest.map ofToken)
  | .inversion, ts, e, rest => Gives (parseNot n) ts e rest
  | .comparison, ts, e, rest => Gives (parseComparison n) ts e rest
  | .moreCompares left ops comparators, ts, e, rest => ∀ m, ts.length ≤ m →
    ((whileCompare (parseArithmetic n) m ops (asReadAll comparators) (ts.map ofToken)).map
      fun r => (compareExpr (asRead left) r.1.1 r.1.2, r.2)) = some (asRead e, rest.map ofToken)
  | .binary lvl, ts, e, rest => Gives (binReader n lvl) ts e rest
  | .moreBinary lvl left, ts, e, rest => ∀ m, ts.length ≤ m →
    whileOp lvl.ops (binOperand n lvl) m (asRead left) (ts.map ofToken) =
      some (asRead e, rest.map ofToken)
  | .factor, ts, e, rest => Gives (parseUnary n) ts e rest
  | .power, ts, e, rest => Gives (parsePower n) ts e rest
  | .atom, ts, e, rest => Gives (parseAtom n) ts e rest
  | .items close, ts, e, rest => close = ")" ∨ close = "]" →
    ∀ es, e = .list es → itemsUpTo close (parseExpression n) (ts.map ofToken) =
      some (asReadAll es, rest.map ofToken)
  | .moreItems close elts, ts, e, rest => close = ")" ∨ close = "]" →
    ∀ es, e = .list es → ∀ m, ts.length < m →
      whileComma close (parseExpression n) m (asReadAll elts) (ts.map ofToken) =
        some (asReadAll es, rest.map ofToken)

theorem whileName_done (h : ts.head? ≠ some (.name word)) (m : ℕ) (values : List Expr) :
    whileName word operand m values (ts.map ofToken) = some (values, ts.map ofToken) := by
  cases m with
  | zero => rfl
  | succ m => rw [whileName, noName h]

theorem whileOp_done {ops : List BinOp}
    (h : ∀ op ∈ ops, ts.head? ≠ some (.op op.text)) (m : ℕ) (left : Expr) :
    whileOp ops operand m left (ts.map ofToken) = some (left, ts.map ofToken) := by
  cases m with
  | zero => rfl
  | succ m => rw [whileOp, noneOf h]

theorem whileCompare_done
    (h : ∀ op : CmpOp, ts.head? ≠ some (.op op.text)) (m : ℕ) (ops : List CmpOp)
    (comparators : List Expr) :
    whileCompare operand m ops comparators (ts.map ofToken) =
      some ((ops, comparators), ts.map ofToken) := by
  cases m with
  | zero => rfl
  | succ m => rw [whileCompare, noneOf fun op _ => h op]

theorem mem_comparisons (op : CmpOp) : op ∈ COMPARISONS := by
  cases op <;> decide

theorem not_reserved (h : s ∉ KEYWORDS) : s ∉ RESERVED := by
  simp_all [RESERVED, KEYWORDS]

theorem keyword_not_reserved (h : keywordValue s = some v) : s ∉ RESERVED := by
  obtain ⟨rfl, -⟩ | ⟨rfl, -⟩ | ⟨rfl, -⟩ := keyword_cases h <;> decide

section Rules
variable {n : ℕ} {op : BoolOp} {lvl : Level} {ts rest : List Token} {e : Expr}

theorem boolOperand_gives (h : Parses n op.operand ts e rest) :
    Gives (boolOperand n op) ts e rest := by
  cases op with
  | or => exact h
  | and => exact h

theorem binOperand_gives (h : Parses n lvl.operand ts e rest) :
    Gives (binOperand n lvl) ts e rest := by
  cases lvl with
  | sum => exact h
  | term => exact h

theorem boolReader_succ (n : ℕ) (op : BoolOp) (ts : List Token) :
    boolReader (n + 1) op ts = (boolOperand n op ts).bind fun node =>
      (whileName op.word (boolOperand n op) node.2.length [node.1] node.2).map fun r =>
        (boolExpr op r.1, r.2) := by
  cases op with
  | or => simp only [boolReader, boolOperand, parseOr, BoolOp.word, Option.bind_eq_bind,
      Option.map_eq_bind, Function.comp_def]
  | and => simp only [boolReader, boolOperand, parseAnd, BoolOp.word, Option.bind_eq_bind,
      Option.map_eq_bind, Function.comp_def]

theorem binReader_succ (n : ℕ) (lvl : Level) (ts : List Token) :
    binReader (n + 1) lvl ts = (binOperand n lvl ts).bind fun node =>
      whileOp lvl.ops (binOperand n lvl) node.2.length node.1 node.2 := by
  cases lvl with
  | sum => rfl
  | term => rfl

theorem ends_word {s : String} {rest : List Token} (h : s ≠ "in" ∧ s ≠ "is") :
    Ends (.name s :: rest) := by
  intro t ht
  grind

theorem ends_op {o : String} {rest : List Token} (h : o ≠ "(") : Ends (.op o :: rest) := by
  intro t ht
  grind

end Rules

theorem parser_reads {n : ℕ} {goal : Goal} {rest : List Token} {e : Expr}
    (h : Reads style n goal ts e rest) (hends : Ends rest) : Parses n goal ts e rest := by
  induction h with
  | ifExp h₁ h₂ _ ih₁ ih₂ ih₃ =>
    have hbody := ih₁ (ends_word (by decide))
    have htest := ih₂ (ends_word (by decide))
    have horelse := ih₃ hends
    show parseExpression _ _ = _
    simp only [Parses, Gives, boolReader, List.map_cons, ofToken] at hbody htest horelse
    simp only [parseExpression, hbody, htest, horelse, eatName_self, asRead, Option.bind_eq_bind,
      Option.bind_some]
  | disjunction _ hif ih =>
    have hbody := ih hends
    show parseExpression _ _ = _
    simp only [Parses, Gives, boolReader] at hbody
    simp only [parseExpression, hbody, noName hif, Option.bind_eq_bind, Option.bind_some]
  | bools h₁ h₂ ih₁ ih₂ =>
    have hoperand := boolOperand_gives (ih₁ (h₂.ends trivial (by rintro _ _ ⟨⟩) hends))
    have hloop := ih₂ hends _ (Nat.le_refl _)
    show boolReader _ _ _ = _
    rw [boolReader_succ, hoperand, Option.bind_some, List.length_map]
    exact hloop
  | nextBool h₁ h₂ ih₁ ih₂ =>
    intro m hm
    obtain ⟨m, rfl⟩ := Nat.exists_eq_succ_of_ne_zero (by rintro rfl; simp at hm : m ≠ 0)
    have hoperand := boolOperand_gives (ih₁ (h₂.ends trivial (by rintro _ _ ⟨⟩) hends))
    have hloop := ih₂ hends m (h₁.length_le.trans (Nat.le_of_succ_le_succ hm))
    rw [Gives] at hoperand
    rw [asReadAll_append] at hloop
    simp only [List.map_cons, ofToken, whileName, eatName_self, hoperand, Option.bind_eq_bind,
      Option.bind_some, hloop]
  | lastBool hop =>
    intro m _
    rw [whileName_done hop, asRead_boolExpr]
    rfl
  | not _ ih =>
    have hoperand := ih hends
    show parseNot _ _ = _
    simp only [Parses, Gives] at hoperand
    simp only [List.map_cons, ofToken, parseNot, eatName_self, hoperand, asRead,
      Option.bind_eq_bind, Option.bind_some]
  | noNot hnot _ ih =>
    show parseNot _ _ = _
    rw [parseNot, noName hnot]
    exact ih hends
  | comparison h₁ h₂ ih₁ ih₂ =>
    have hleft := ih₁ (h₂.ends trivial (by rintro _ _ ⟨⟩) hends)
    have hloop := ih₂ hends _ (Nat.le_refl _)
    show parseComparison _ _ = _
    simp only [Parses, Gives, binReader] at hleft
    obtain ⟨⟨chain, rest'⟩, hchain, hresult⟩ := Option.map_eq_some_iff.1 hloop
    obtain ⟨hexpr, rfl⟩ := Prod.mk.inj hresult
    rw [asReadAll] at hchain
    simp only [parseComparison, hleft, Option.bind_eq_bind, Option.bind_some, List.length_map,
      hchain, noName (hends _ (by simp : Token.name "in" ∈ _)),
      noName (hends _ (by simp : Token.name "is" ∈ _)), hexpr]
    rfl
  | nextCompare h₁ h₂ ih₁ ih₂ =>
    intro m hm
    obtain ⟨m, rfl⟩ := Nat.exists_eq_succ_of_ne_zero (by rintro rfl; simp at hm : m ≠ 0)
    have hoperand := ih₁ (h₂.ends trivial (by rintro _ _ ⟨⟩) hends)
    have hloop := ih₂ hends m (h₁.length_le.trans (Nat.le_of_succ_le_succ hm))
    simp only [Parses, Gives, binReader] at hoperand
    rw [asReadAll_append] at hloop
    simp only [List.map_cons, ofToken, whileCompare,
      eatAny_self cmpText_injective (mem_comparisons _), hoperand, Option.bind_eq_bind,
      Option.bind_some, hloop]
  | lastCompare hop =>
    intro m _
    rw [whileCompare_done hop, asRead_compareExpr]
    rfl
  | binary h₁ h₂ ih₁ ih₂ =>
    have hoperand := binOperand_gives (ih₁ (h₂.ends trivial (by rintro _ _ ⟨⟩) hends))
    have hloop := ih₂ hends _ (Nat.le_refl _)
    show binReader _ _ _ = _
    rw [binReader_succ, hoperand, Option.bind_some, List.length_map]
    exact hloop
  | nextBinary hop h₁ h₂ ih₁ ih₂ =>
    intro m hm
    obtain ⟨m, rfl⟩ := Nat.exists_eq_succ_of_ne_zero (by rintro rfl; simp at hm : m ≠ 0)
    have hoperand := binOperand_gives (ih₁ (h₂.ends trivial (by rintro _ _ ⟨⟩) hends))
    have hloop := ih₂ hends m (h₁.length_le.trans (Nat.le_of_succ_le_succ hm))
    rw [Gives] at hoperand
    simp only [List.map_cons, ofToken, whileOp, eatAny_self binText_injective hop, hoperand,
      Option.bind_eq_bind, Option.bind_some]
    exact hloop
  | lastBinary hop =>
    intro m _
    exact whileOp_done hop m _
  | minus _ ih =>
    have hoperand := ih hends
    show parseUnary _ _ = _
    simp only [Parses, Gives] at hoperand
    have hplus : ∀ ts, eatOp "+" (.op "-" :: ts) = none := fun ts => eatOp_none (by simp)
    simp only [List.map_cons, ofToken, parseUnary, hplus, eatOp_self, hoperand, asRead,
      Option.bind_eq_bind, Option.bind_some]
  | plus _ ih =>
    have hoperand := ih hends
    show parseUnary _ _ = _
    simp only [Parses, Gives] at hoperand
    simp only [List.map_cons, ofToken, parseUnary, eatOp_self, hoperand, asRead,
      Option.bind_eq_bind, Option.bind_some]
  | noSign hminus hplus _ ih =>
    show parseUnary _ _ = _
    rw [parseUnary, noOp hminus, noOp hplus]
    exact ih hends
  | power _ _ ih₁ ih₂ =>
    have hbase := ih₁ (ends_op (by decide))
    have hexponent := ih₂ hends
    show parsePower _ _ = _
    simp only [Parses, Gives, List.map_cons, ofToken] at hbase hexponent
    simp only [parsePower, hbase, hexponent, eatOp_self, asRead, Option.bind_eq_bind,
      Option.bind_some]
  | noPower _ hop ih =>
    have hbase := ih hends
    show parsePower _ _ = _
    simp only [Parses, Gives] at hbase
    simp only [parsePower, hbase, noOp hop, Option.bind_eq_bind, Option.bind_some]
  | num =>
    show parseAtom _ _ = _
    rw [List.map_cons, ofToken, parseAtom, literal_value, asRead_literal]
  | str hplain hs =>
    show parseAtom _ _ = _
    rw [List.map_cons, ofToken, parseAtom, textValue_decode hplain hs]
    rfl
  | keyword hv =>
    show parseAtom _ _ = _
    rw [List.map_cons, ofToken, parseAtom, if_neg (keyword_not_reserved hv),
      noOp (hends _ (by simp : Token.op "(" ∈ _)), asRead_keyword hv]
  | name hs hcall =>
    show parseAtom _ _ = _
    rw [List.map_cons, ofToken, parseAtom, if_neg (not_reserved hs), noOp hcall]
    rfl
  | call hs _ ih =>
    have hargs := ih hends (.inl rfl) _ rfl
    show parseAtom _ _ = _
    simp only [List.map_cons, ofToken, parseAtom, if_neg (not_reserved hs), eatOp_self, hargs,
      asRead, Option.bind_eq_bind, Option.bind_some]
  | group h ih =>
    have hinner := ih (ends_op (by decide))
    show parseAtom _ _ = _
    simp only [Parses, Gives, List.map_cons, ofToken] at hinner
    have hcomma : ∀ ts, eatOp "," (.op ")" :: ts) = none := fun ts => eatOp_none (by simp)
    simp only [List.map_cons, ofToken, parseAtom, if_pos, noOp (h.opens trivial), hinner, hcomma,
      eatOp_self, Option.bind_eq_bind, Option.bind_some]
  | list _ ih =>
    have helts := ih hends (.inr rfl) _ rfl
    show parseAtom _ _ = _
    simp only [List.map_cons, ofToken, parseAtom, helts, asRead, Option.bind_eq_bind,
      Option.bind_some]
    rfl
  | noItems =>
    rintro _ es ⟨⟩
    rw [List.map_cons, ofToken, itemsUpTo, eatOp_self]
    rfl
  | items hne h₁ h₂ ih₁ ih₂ =>
    intro hclose es hes
    have hitem := ih₁ (h₂.ends trivial
      (by rintro _ _ ⟨⟩; obtain rfl | rfl := hclose <;> decide) hends)
    have hloop := ih₂ hends hclose es hes _ (Nat.lt_succ_self _)
    simp only [Parses, Gives] at hitem
    simp only [itemsUpTo, noOp hne, hitem, Option.bind_eq_bind, Option.bind_some, List.length_map]
    exact hloop
  | nextItem hne h₁ h₂ ih₁ ih₂ =>
    intro hclose es hes m hm
    obtain ⟨m, rfl⟩ := Nat.exists_eq_succ_of_ne_zero (by rintro rfl; simp at hm : m ≠ 0)
    have hitem := ih₁ (h₂.ends trivial
      (by rintro _ _ ⟨⟩; obtain rfl | rfl := hclose <;> decide) hends)
    have hloop := ih₂ hends hclose es hes m
      (Nat.lt_of_le_of_lt h₁.length_le (Nat.lt_of_succ_lt_succ hm))
    simp only [Parses, Gives] at hitem
    rw [asReadAll_append] at hloop
    simp only [List.map_cons, ofToken, whileComma, eatOp_self, noOp hne, hitem,
      Option.bind_eq_bind, Option.bind_some]
    exact hloop
  | @lastItem _ close =>
    rintro hclose es ⟨⟩ m hm
    obtain ⟨m, rfl⟩ := Nat.exists_eq_succ_of_ne_zero (by rintro rfl; simp at hm : m ≠ 0)
    have hcomma : ∀ ts, eatOp "," (.op close :: ts) = none := fun ts =>
      eatOp_none fun h => by simp_all
    simp only [List.map_cons, ofToken, whileComma, hcomma, eatOp_self]
    rfl
  | lastComma =>
    rintro hclose es ⟨⟩ m hm
    obtain ⟨m, rfl⟩ := Nat.exists_eq_succ_of_ne_zero (by rintro rfl; simp at hm : m ≠ 0)
    simp only [List.map_cons, ofToken, whileComma, eatOp_self]

end Dart

end RuleMind.Formula
