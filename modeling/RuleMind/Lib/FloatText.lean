/-
  Decimal texts and the doubles they stand for.

  A double is the rational it denotes, an infinity or not a number.  `readFloat`
  is the grammar that C's, Python's and Rust's readers share: a sign, then `inf`,
  `infinity` or `nan` in any case, or digits with at most one point and an
  exponent; the value is rounded once, to nearest, ties to even.
-/
import Mathlib.Data.Bool.AllAny
import Mathlib.Data.Rat.Floor
import Mathlib.Data.List.TakeWhile
import Mathlib.Algebra.Order.Field.Power
import Mathlib.Data.Nat.Prime.Basic

namespace RuleMind.Text

/-! ### Doubles -/

inductive F64
  | finite (q : ℚ)
  | infinite (neg : Bool)
  | nan
  deriving DecidableEq

namespace F64

/-- The value, unless it is an infinity or not a number. -/
def toRat : F64 → Option ℚ
  | .finite q => some q
  | _ => none

end F64

def halfEven (q : ℚ) : ℤ :=
  let f := ⌊q⌋
  let r := q - f
  if r < 1 / 2 then f else if 1 / 2 < r then f + 1 else if f % 2 = 0 then f else f + 1

/-- The exponent of the binade of a positive rational. -/
def binade (q : ℚ) : ℤ :=
  let e : ℤ := (Nat.log2 q.num.natAbs : ℤ) - Nat.log2 q.den
  if (2 : ℚ) ^ e ≤ q then e else e - 1

/-- The double next to `q`; nothing beyond the range. -/
def roundF64 (q : ℚ) : Option ℚ :=
  if q = 0 then some 0
  else
    let ulp : ℚ := 2 ^ (max (binade |q|) (-1022) - 52)
    let r := halfEven (|q| / ulp) * ulp
    if (2 : ℚ) ^ (1024 : ℕ) ≤ r then none else some (if q < 0 then -r else r)

/-! ### Texts -/

def isSpace (c : Char) : Bool :=
  let n := c.toNat
  (9 ≤ n && n ≤ 13) || n == 0x20 || n == 0x85 || n == 0xa0 || n == 0x1680 ||
    (0x2000 ≤ n && n ≤ 0x200a) || n == 0x2028 || n == 0x2029 || n == 0x202f || n == 0x205f ||
    n == 0x3000

def trimBy (space : Char → Bool) (cs : List Char) : List Char :=
  ((cs.dropWhile space).reverse.dropWhile space).reverse

def trim (cs : List Char) : List Char := trimBy isSpace cs

def digitsValue (ds : List Char) : ℕ := ds.foldl (fun n d => 10 * n + (d.toNat - 48)) 0

def sign : List Char → Bool × List Char
  | '+' :: cs => (false, cs)
  | '-' :: cs => (true, cs)
  | cs => (false, cs)

def readNat (cs : List Char) : Option ℕ :=
  if cs ≠ [] ∧ cs.all Char.isDigit then some (digitsValue cs) else none

def readInt (cs : List Char) : Option ℤ :=
  let (neg, cs) := sign cs
  (readNat cs).map fun n => if neg then -n else n

def readExponent : List Char → Option ℤ
  | [] => some 0
  | c :: cs => if c = 'e' ∨ c = 'E' then readInt cs else none

def lowerCase (cs : List Char) : List Char := cs.map Char.toLower

/-- Digits with at most one point, and an exponent. -/
def readDecimal (cs : List Char) : Option ℚ :=
  let whole := cs.takeWhile Char.isDigit
  let rest := cs.dropWhile Char.isDigit
  let (fraction, rest) := match rest with
    | '.' :: rest => (rest.takeWhile Char.isDigit, rest.dropWhile Char.isDigit)
    | rest => ([], rest)
  if whole = [] ∧ fraction = [] then none
  else (readExponent rest).map fun e =>
    digitsValue (whole ++ fraction) * (10 : ℚ) ^ (e - (fraction.length : ℤ))

def readFloat (cs : List Char) : Option F64 :=
  let (neg, cs) := sign cs
  if lowerCase cs = "inf".toList ∨ lowerCase cs = "infinity".toList then some (.infinite neg)
  else if lowerCase cs = "nan".toList then some .nan
  else (readDecimal cs).map fun q =>
    match roundF64 (if neg then -q else q) with
    | some r => .finite r
    | none => .infinite neg

/-! ### Rounding -/

variable {q : ℚ} {cs ds : List Char} {p : Char → Bool} {c : Char} {n : ℤ}

theorem binade_spec (h : 0 < q) : (2 : ℚ) ^ binade q ≤ q ∧ q < 2 ^ (binade q + 1) := by
  have hnum : 0 < q.num := Rat.num_pos.2 h
  obtain ⟨n, hn⟩ : ∃ n : ℕ, q.num = n := ⟨q.num.natAbs, by omega⟩
  have hn0 : n ≠ 0 := by omega
  have hden : (0 : ℚ) < q.den := by exact_mod_cast q.pos
  have hlow : (2 : ℚ) ^ n.log2 ≤ n := by exact_mod_cast Nat.log2_self_le hn0
  have hhigh : (n : ℚ) < 2 ^ (n.log2 + 1) := by exact_mod_cast Nat.lt_log2_self
  have hdlow : (2 : ℚ) ^ q.den.log2 ≤ q.den := by exact_mod_cast Nat.log2_self_le q.den_nz
  have hdhigh : (q.den : ℚ) < 2 ^ (q.den.log2 + 1) := by exact_mod_cast Nat.lt_log2_self
  have habs : q.num.natAbs = n := by omega
  have hmul : q * q.den = n := by
    have := Rat.mul_den_eq_num q
    rw [hn] at this
    exact_mod_cast this
  have hlt : q < 2 ^ ((n.log2 : ℤ) - q.den.log2 + 1) := by
    refine lt_of_mul_lt_mul_right ?_ hden.le
    rw [hmul]
    calc (n : ℚ) < 2 ^ (n.log2 + 1) := hhigh
      _ = 2 ^ ((n.log2 : ℤ) - q.den.log2 + 1) * 2 ^ q.den.log2 := by
        rw [← zpow_natCast, ← zpow_natCast, ← zpow_add₀ (by norm_num)]
        congr 1
        push_cast
        ring
      _ ≤ 2 ^ ((n.log2 : ℤ) - q.den.log2 + 1) * q.den := by gcongr
  have hge : (2 : ℚ) ^ ((n.log2 : ℤ) - q.den.log2 - 1) ≤ q := by
    refine le_of_mul_le_mul_right ?_ hden
    rw [hmul]
    calc (2 : ℚ) ^ ((n.log2 : ℤ) - q.den.log2 - 1) * q.den
        ≤ 2 ^ ((n.log2 : ℤ) - q.den.log2 - 1) * 2 ^ (q.den.log2 + 1) := by gcongr
      _ = 2 ^ n.log2 := by
        rw [← zpow_natCast, ← zpow_natCast, ← zpow_add₀ (by norm_num)]
        congr 1
        push_cast
        ring
      _ ≤ n := hlow
  grind [binade]

theorem halfEven_int (n : ℤ) : halfEven n = n := by
  simp [halfEven]

theorem halfEven_bounds (x : ℚ) : ⌊x⌋ ≤ halfEven x ∧ halfEven x ≤ ⌊x⌋ + 1 := by
  unfold halfEven
  dsimp only
  split_ifs <;> omega

/-- The spacing of the doubles next to a positive rational. -/
def ulp (q : ℚ) : ℚ := 2 ^ (max (binade q) (-1022) - 52)

theorem ulp_pos (q : ℚ) : 0 < ulp q := zpow_pos (by norm_num) _

theorem significand_le (h : 0 < q) : halfEven (q / ulp q) ≤ 2 ^ 53 := by
  have hlt : q / ulp q < 2 ^ 53 := by
    rw [div_lt_iff₀ (ulp_pos q)]
    calc q < 2 ^ (binade q + 1) := (binade_spec h).2
      _ ≤ 2 ^ (max (binade q) (-1022) + 1) := by
        gcongr
        · norm_num
        · exact le_max_left _ _
      _ = 2 ^ 53 * ulp q := by grind [ulp, zpow_add₀]
  have hfloor : ⌊q / ulp q⌋ < 2 ^ 53 := by
    rw [Int.floor_lt]
    exact_mod_cast hlt
  have := (halfEven_bounds (q / ulp q)).2
  omega

theorem multiple_of_ulp (h : 0 < q) (hr : 0 < halfEven (q / ulp q) * ulp q) :
    ∃ z : ℤ, halfEven (q / ulp q) * ulp q = z * ulp (halfEven (q / ulp q) * ulp q) := by
  set m := halfEven (q / ulp q)
  set r : ℚ := m * ulp q with hrdef
  set e := max (binade q) (-1022) with he
  have hm : (m : ℚ) ≤ 2 ^ 53 := by exact_mod_cast significand_le h
  have hulp : ulp q = 2 ^ (e - 52) := rfl
  have hle : r ≤ 2 ^ (e + 1) := by
    calc r ≤ 2 ^ 53 * ulp q := by
          rw [hrdef]
          exact mul_le_mul_of_nonneg_right hm (ulp_pos q).le
      _ = 2 ^ (e + 1) := by grind [zpow_add₀]
  have hspec := binade_spec hr
  by_cases hcmp : max (binade r) (-1022) ≤ e
  · refine ⟨m * 2 ^ (e - max (binade r) (-1022)).toNat, ?_⟩
    have hexp : e - 52 = (e - max (binade r) (-1022)).toNat + (max (binade r) (-1022) - 52) := by
      rw [Int.toNat_of_nonneg (by omega)]
      ring
    have hulp' : ulp q = 2 ^ (e - max (binade r) (-1022)).toNat * ulp r := by
      rw [hulp, hexp, zpow_add₀ (by norm_num), zpow_natCast]
      rfl
    push_cast
    rw [mul_assoc, ← hulp']
  · -- the significand was rounded up to the next binade
    have hbig : e + 1 ≤ binade r := by
      have := le_max_right (binade q) (-1022)
      omega
    have hpow : (2 : ℚ) ^ (e + 1) ≤ 2 ^ binade r := zpow_le_zpow_right₀ (by norm_num) hbig
    have hr2 : r = 2 ^ (e + 1) := le_antisymm hle (hpow.trans hspec.1)
    have hbin : binade r = e + 1 := by
      have : (2 : ℚ) ^ binade r ≤ 2 ^ (e + 1) := hr2 ▸ hspec.1
      have := (zpow_le_zpow_iff_right₀ (by norm_num : (1 : ℚ) < 2)).1 this
      omega
    refine ⟨2 ^ 52, ?_⟩
    grind [ulp, zpow_add₀]

theorem roundF64_eq (q : ℚ) : roundF64 q = if q = 0 then some 0
    else if (2 : ℚ) ^ 1024 ≤ halfEven (|q| / ulp |q|) * ulp |q| then none
    else some (if q < 0 then -(halfEven (|q| / ulp |q|) * ulp |q|)
      else halfEven (|q| / ulp |q|) * ulp |q|) := rfl

variable {r : ℚ} {d : Char} {neg : Bool}

theorem roundF64_of_abs (h0 : r ≠ 0) (hround : halfEven (|r| / ulp |r|) * ulp |r| = |r|)
    (hbig : ¬ (2 : ℚ) ^ 1024 ≤ |r|) : roundF64 r = some r := by
  rw [roundF64_eq, if_neg h0, hround, if_neg hbig]
  simp_all [abs_of_neg]

theorem roundF64_idem (h : roundF64 q = some r) : roundF64 r = some r := by
  by_cases hr0 : r = 0
  · rw [roundF64_eq, if_pos hr0, hr0]
  by_cases hq0 : q = 0
  · rw [roundF64_eq, if_pos hq0] at h
    exact absurd (Option.some.inj h).symm hr0
  rw [roundF64_eq, if_neg hq0] at h
  set s : ℚ := halfEven (|q| / ulp |q|) * ulp |q| with hs
  by_cases hbig : (2 : ℚ) ^ 1024 ≤ s
  · rw [if_pos hbig] at h
    cases h
  rw [if_neg hbig] at h
  have hs0 : 0 ≤ s := by
    have hfloor : (0 : ℤ) ≤ ⌊|q| / ulp |q|⌋ :=
      Int.floor_nonneg.2 (div_nonneg (abs_nonneg q) (ulp_pos _).le)
    have hm : (0 : ℚ) ≤ halfEven (|q| / ulp |q|) := by
      exact_mod_cast hfloor.trans (halfEven_bounds _).1
    exact mul_nonneg hm (ulp_pos _).le
  have habs : |r| = s := by
    rw [← Option.some.inj h]
    split_ifs
    · rw [abs_neg, abs_of_nonneg hs0]
    · rw [abs_of_nonneg hs0]
  have hspos : 0 < s := by
    rw [← habs]
    exact abs_pos.2 hr0
  obtain ⟨z, hz⟩ := multiple_of_ulp (abs_pos.2 hq0) hspos
  grind [roundF64_of_abs, halfEven_int]

theorem readFloat_double (h : readFloat cs = some (.finite q)) : roundF64 q = some q := by
  unfold readFloat at h
  dsimp only at h
  split at h
  · cases h
  · split at h
    · cases h
    grind [Option.map_eq_some_iff, roundF64_idem]

/-! ### Trimming -/

theorem dropWhile_of_head (h : ∀ c ∈ cs.head?, p c = false) : cs.dropWhile p = cs := by
  cases cs with
  | nil => rfl
  | cons c cs => rw [List.dropWhile_cons_of_neg (by simp [h c rfl])]

theorem trimBy_parts {p : Char → Bool} {pre core post : List Char}
    (hpre : ∀ c ∈ pre, p c = true) (hpost : ∀ c ∈ post, p c = true)
    (hhead : ∀ c ∈ core.head?, p c = false) (hlast : ∀ c ∈ core.getLast?, p c = false) :
    trimBy p (pre ++ (core ++ post)) = core := by
  unfold trimBy
  rw [List.dropWhile_append_of_pos hpre]
  cases hc : core with
  | nil => grind [List.dropWhile_eq_nil_iff]
  | cons c cs =>
    rw [← hc]
    have hfirst : ∀ d ∈ (core ++ post).head?, p d = false := by
      intro d hd
      apply hhead
      rw [hc] at hd ⊢
      exact hd
    rw [dropWhile_of_head hfirst, List.reverse_append,
      List.dropWhile_append_of_pos fun c hc => hpost c (List.mem_reverse.1 hc),
      dropWhile_of_head (by rw [List.head?_reverse]; exact hlast), List.reverse_reverse]

theorem trimBy_exists (p : Char → Bool) (cs : List Char) :
    ∃ pre post, cs = pre ++ (trimBy p cs ++ post) ∧ (∀ c ∈ pre, p c = true) ∧
      (∀ c ∈ post, p c = true) ∧ (∀ c ∈ (trimBy p cs).head?, p c = false) ∧
      (∀ c ∈ (trimBy p cs).getLast?, p c = false) := by
  have hneg : ∀ {l : List Char}, ∀ c ∈ (l.dropWhile p).head?, p c = false := by
    intro l c hc
    have := List.head?_dropWhile_not p l
    rw [Option.mem_def.1 hc] at this
    simpa using this
  set rest := cs.dropWhile p with hrest
  have hsplit : rest = trimBy p cs ++ (rest.reverse.takeWhile p).reverse := by
    rw [trimBy, ← hrest, ← List.reverse_append, List.takeWhile_append_dropWhile,
      List.reverse_reverse]
  refine ⟨cs.takeWhile p, (rest.reverse.takeWhile p).reverse, ?_, ?_, ?_, ?_, ?_⟩
  · rw [← hsplit, hrest, List.takeWhile_append_dropWhile]
  · exact fun c hc => List.mem_takeWhile_imp hc
  · exact fun c hc => List.mem_takeWhile_imp (List.mem_reverse.1 hc)
  · intro c hc
    refine hneg (l := cs) c ?_
    rw [← hrest, hsplit]
    cases ht : trimBy p cs with
    | nil => rw [ht] at hc; cases hc
    | cons d ds => rw [ht] at hc; exact hc
  grind [trimBy]

theorem trimBy_idem (p : Char → Bool) (cs : List Char) : trimBy p (trimBy p cs) = trimBy p cs := by
  obtain ⟨pre, post, -, -, -, hhead, hlast⟩ := trimBy_exists p cs
  have h := @trimBy_parts p [] (trimBy p cs) [] (by simp) (by simp) hhead hlast
  rwa [List.nil_append, List.append_nil] at h

theorem trimBy_wider {q : Char → Bool} (hpq : ∀ c, p c = true → q c = true)
    (h : ∀ c ∈ trimBy p cs, q c = false) : trimBy q cs = trimBy p cs := by
  obtain ⟨pre, post, hcs, hpre, hpost, -, -⟩ := trimBy_exists p cs
  grind -ring -linarith [trimBy_parts]

theorem trimBy_map (p : Char → Bool) (f : Char → Char) (cs : List Char) :
    trimBy p (cs.map f) = (trimBy (p ∘ f) cs).map f := by
  unfold trimBy
  rw [List.dropWhile_map, ← List.map_reverse, List.dropWhile_map, List.map_reverse]

theorem trimBy_eq_self (h : ∀ c ∈ cs, p c = false) : trimBy p cs = cs := by
  have hparts := @trimBy_parts p [] cs [] (by simp) (by simp)
    (fun c hc => h c (List.mem_of_mem_head? hc)) (fun c hc => h c (List.mem_of_mem_getLast? hc))
  rwa [List.nil_append, List.append_nil] at hparts

/-! ### Reading integers -/

theorem readDecimal_digits (hne : cs ≠ []) (h : ∀ c ∈ cs, c.isDigit = true) :
    readDecimal cs = some (digitsValue cs : ℚ) := by
  have htake : cs.takeWhile Char.isDigit = cs := List.takeWhile_eq_self_iff.2 h
  have hdrop : cs.dropWhile Char.isDigit = [] := List.dropWhile_eq_nil_iff.2 h
  unfold readDecimal
  simp only [htake, hdrop]
  rw [if_neg (by simp [hne])]
  simp [readExponent]

theorem lowerCase_ne {word : List Char} (hc : c.isDigit = true)
    (hword : ∀ c ∈ word.head?, c.isDigit = false) : lowerCase (c :: cs) ≠ word := by
  rintro rfl
  have hlower : c.toLower = c := by
    have hd : 48 ≤ c.toNat ∧ c.toNat ≤ 57 := by
      simpa [Char.isDigit, UInt32.le_iff_toNat_le] using hc
    unfold Char.toLower
    split
    · rename_i hu
      simp [UInt32.le_iff_toNat_le] at hu
      have : c.toNat = c.val.toNat := rfl
      omega
    · rfl
  simp_all [lowerCase]

theorem sign_of_digit (h : ∀ c ∈ cs.head?, c.isDigit = true) : sign cs = (false, cs) := by
  unfold sign
  split
  · exact absurd (h '+' rfl) (by decide)
  · exact absurd (h '-' rfl) (by decide)
  · rfl

theorem isDigit_toDigits {n : ℕ} (h : c ∈ Nat.toDigits 10 n) : c.isDigit = true :=
  Nat.isDigit_of_mem_toDigits (by decide) (by decide) h

theorem digitsValue_toDigits (n : ℕ) : digitsValue (Nat.toDigits 10 n) = n :=
  Nat.ofDigitChars_toDigits (by decide) (by decide)

theorem sign_repr (n : ℤ) (tail : List Char) :
    sign (n.repr.toList ++ tail) = (decide (n < 0), Nat.toDigits 10 n.natAbs ++ tail) := by
  rw [Int.repr_eq_if]
  split
  · rename_i hn
    have habs : n.toNat = n.natAbs := by omega
    rw [Nat.toList_repr, habs, sign_of_digit]
    · simp [hn]
    · intro c hc
      cases hds : Nat.toDigits 10 n.natAbs with
      | nil => exact absurd hds Nat.toDigits_ne_nil
      | cons d ds =>
        rw [hds] at hc
        cases hc
        exact isDigit_toDigits (by rw [hds]; exact List.mem_cons_self)
  grind [String.toList_append, Nat.toList_repr, sign]

def ofDecimal (neg : Bool) (q : ℚ) : F64 :=
  match roundF64 (if neg then -q else q) with
  | some r => .finite r
  | none => .infinite neg

theorem readFloat_of_digit (hsign : sign cs = (neg, d :: ds)) (hd : d.isDigit = true) :
    readFloat cs = (readDecimal (d :: ds)).map (ofDecimal neg) := by
  have hword : ∀ word : List Char, (∀ c ∈ word.head?, c.isDigit = false) →
      lowerCase (d :: ds) ≠ word := fun word hw => lowerCase_ne hd hw
  unfold readFloat
  simp only [hsign]
  rw [if_neg (by
      rintro (hc | hc)
      · exact hword _ (by rintro _ ⟨⟩; rfl) hc
      · exact hword _ (by rintro _ ⟨⟩; rfl) hc),
    if_neg (hword _ (by rintro _ ⟨⟩; rfl))]
  rfl

theorem readFloat_repr (n : ℤ) (tail : List Char) :
    readFloat (n.repr.toList ++ tail) =
      (readDecimal (Nat.toDigits 10 n.natAbs ++ tail)).map (ofDecimal (decide (n < 0))) := by
  have hsign := sign_repr n tail
  cases hds : Nat.toDigits 10 n.natAbs with
  | nil => exact absurd hds Nat.toDigits_ne_nil
  | cons d ds => grind -ring -linarith [readFloat_of_digit, isDigit_toDigits]

theorem readFloat_int (n : ℤ) : readFloat n.repr.toList =
    some (ofDecimal (decide (n < 0)) n.natAbs) := by
  have h := readFloat_repr n []
  grind [readDecimal_digits, Nat.toDigits_ne_nil, isDigit_toDigits, digitsValue_toDigits]

theorem readFloat_eq_none (hdigit : c.isDigit = false) (hsign : c ∉ ['+', '-', '.'])
    (hword : c.toLower ∉ ['i', 'n']) (cs : List Char) : readFloat (c :: cs) = none := by
  simp only [List.mem_cons, List.not_mem_nil, or_false, not_or] at hsign hword
  have hs : sign (c :: cs) = (false, c :: cs) := by
    unfold sign
    split
    · rename_i h
      exact absurd (List.cons.inj h).1 hsign.1
    · rename_i h
      exact absurd (List.cons.inj h).1 hsign.2.1
    · rfl
  have hdecimal : readDecimal (c :: cs) = none := by
    have hdrop : (c :: cs).dropWhile Char.isDigit = c :: cs :=
      List.dropWhile_cons_of_neg (by simp [hdigit])
    unfold readDecimal
    rw [List.takeWhile_cons_of_neg (by simp [hdigit]), hdrop]
    dsimp only
    split
    · rename_i h
      exact absurd (List.cons.inj h).1 hsign.2.2
    · exact if_pos ⟨rfl, rfl⟩
  unfold readFloat
  simp only [hs, hdecimal]
  rw [if_neg, if_neg]
  · rfl
  · intro h
    exact hword.2 (List.cons.inj h).1
  · rintro (h | h)
    · exact hword.1 (List.cons.inj h).1
    · exact hword.1 (List.cons.inj h).1

/-! ### The characters of a number -/

theorem mem_of_sign (h : sign cs = (neg, ds)) (hc : c ∈ cs) : c = '+' ∨ c = '-' ∨ c ∈ ds := by
  unfold sign at h
  grind

def InDecimal (c : Char) : Prop := c.isDigit = true ∨ c ∈ ['+', '-', '.', 'e', 'E']

theorem readInt_eq_some (h : readInt cs = some n) :
    ∃ m : ℕ, readNat (sign cs).2 = some m ∧ n = if (sign cs).1 then -(m : ℤ) else m := by
  unfold readInt at h
  dsimp only at h
  cases hm : readNat (sign cs).2 with
  | none => rw [hm] at h; cases h
  | some m =>
    rw [hm] at h
    cases h
    exact ⟨m, rfl, rfl⟩

theorem isDigit_of_readInt (h : readInt cs = some n) :
    ∀ c ∈ (sign cs).2, c.isDigit = true := by grind [readInt_eq_some, readNat]

theorem inDecimal_of_readExponent {e : ℤ} (h : readExponent cs = some e) :
    ∀ c ∈ cs, InDecimal c := by
  cases cs with
  | nil => intro c hc; cases hc
  | cons d ds =>
    simp only [readExponent] at h
    split_ifs at h with hd
    have hall := isDigit_of_readInt h
    intro c hc
    rcases List.mem_cons.1 hc with rfl | hc
    · rcases hd with rfl | rfl
      · exact Or.inr (by decide)
      · exact Or.inr (by decide)
    · rcases mem_of_sign rfl hc with rfl | rfl | hc
      · exact Or.inr (by decide)
      · exact Or.inr (by decide)
      · exact Or.inl (hall c hc)

theorem inDecimal_of_readDecimal (h : readDecimal cs = some q) : ∀ c ∈ cs, InDecimal c := by
  intro c hc
  unfold readDecimal at h
  dsimp only at h
  rw [← List.takeWhile_append_dropWhile (p := Char.isDigit) (l := cs)] at hc
  rcases List.mem_append.1 hc with hc | hc
  · exact Or.inl (List.mem_takeWhile_imp hc)
  · split at h
    · rename_i rest hrest
      rw [hrest] at hc
      split_ifs at h
      obtain ⟨e, he, -⟩ := Option.map_eq_some_iff.1 h
      rcases List.mem_cons.1 hc with rfl | hc
      · exact Or.inr (by decide)
      · rw [← List.takeWhile_append_dropWhile (p := Char.isDigit) (l := rest)] at hc
        rcases List.mem_append.1 hc with hc | hc
        · exact Or.inl (List.mem_takeWhile_imp hc)
        · exact inDecimal_of_readExponent he c hc
    grind [Option.map_eq_some_iff, inDecimal_of_readExponent]

theorem inDecimal_of_readFloat (h : readFloat cs = some (.finite q)) : ∀ c ∈ cs, InDecimal c := by
  intro c hc
  unfold readFloat at h
  dsimp only at h
  split at h
  · cases h
  · split at h
    · cases h
    · obtain ⟨p, hp, -⟩ := Option.map_eq_some_iff.1 h
      rcases mem_of_sign rfl hc with rfl | rfl | hmem
      · exact .inr (by decide)
      · exact .inr (by decide)
      · exact inDecimal_of_readDecimal hp c hmem

theorem toNat_toLower (c : Char) :
    c.toLower.toNat = if 65 ≤ c.toNat ∧ c.toNat ≤ 90 then c.toNat + 32 else c.toNat := by
  have hval : c.toNat = c.val.toNat := rfl
  unfold Char.toLower
  split
  · rename_i h
    have h' : 65 ≤ c.val.toNat ∧ c.val.toNat ≤ 90 := by simpa [UInt32.le_iff_toNat_le] using h
    rw [if_pos (by omega)]
    show (c.val + 32).toNat = _
    rw [UInt32.toNat_add, hval]
    have : (32 : UInt32).toNat = 32 := rfl
    omega
  · simp_all [UInt32.le_iff_toNat_le]

theorem toLower_eq_self (h : c.toNat < 65 ∨ 90 < c.toNat) : c.toLower = c := by
  apply Char.toNat_inj.1
  rw [toNat_toLower, if_neg (by omega)]

theorem isDigit_iff (c : Char) : c.isDigit = true ↔ 48 ≤ c.toNat ∧ c.toNat ≤ 57 := by
  simp [Char.isDigit, UInt32.le_iff_toNat_le]

theorem isDigit_toLower (c : Char) : c.toLower.isDigit = c.isDigit := by
  rw [Bool.eq_iff_iff, isDigit_iff, isDigit_iff, toNat_toLower]
  split_ifs <;> omega

theorem toLower_eq_iff (hd : d.toNat < 65) : c.toLower = d ↔ c = d := by
  grind [Char.toNat_inj, toNat_toLower]

theorem not_mem_of_readFloat {x : F64} (h : readFloat cs = some x)
    (hc : c.toNat < 33) : c ∉ cs := by
  have hlower : c.toLower = c := toLower_eq_self (Or.inl (by omega))
  have hword : ∀ {ds word : List Char}, (∀ d ∈ word, 33 ≤ d.toNat) → lowerCase ds = word →
      c ∉ ds := by
    rintro ds word hw rfl hmem
    have := hw _ (List.mem_map_of_mem hmem)
    rw [hlower] at this
    omega
  have hdecimal : ¬ InDecimal c := by
    rintro (hd | hd)
    · have : 48 ≤ c.toNat ∧ c.toNat ≤ 57 := by simpa [Char.isDigit, UInt32.le_iff_toNat_le] using hd
      omega
    · have : ∀ d ∈ ['+', '-', '.', 'e', 'E'], 33 ≤ d.toNat := List.all_iff_forall_prop.1 (by decide)
      have := this c hd
      omega
  have hrest : c ∉ (sign cs).2 := by
    unfold readFloat at h
    dsimp only at h
    split at h
    · rename_i hw
      rcases hw with hw | hw
      · exact hword (List.all_iff_forall_prop.1 (by decide)) hw
      · exact hword (List.all_iff_forall_prop.1 (by decide)) hw
    · split at h
      · rename_i hw
        exact hword (List.all_iff_forall_prop.1 (by decide)) hw
      grind [Option.map_eq_some_iff, inDecimal_of_readDecimal]
  intro hmem
  rcases mem_of_sign rfl hmem with rfl | rfl | hmem
  · exact absurd hc (by decide)
  · exact absurd hc (by decide)
  · exact hrest hmem

/-! ### Numbers in lower case -/

theorem lowerCase_idem (cs : List Char) : lowerCase (lowerCase cs) = lowerCase cs := by
  unfold lowerCase
  rw [List.map_map]
  apply List.map_congr_left
  intro c _
  apply Char.toNat_inj.1
  rw [Function.comp, toNat_toLower c.toLower, toNat_toLower]
  split_ifs <;> omega

theorem sign_lowerCase (cs : List Char) :
    sign (lowerCase cs) = ((sign cs).1, lowerCase (sign cs).2) := by
  cases cs with
  | nil => rfl
  | cons c cs =>
    by_cases hp : c = '+'
    · subst hp
      rfl
    · by_cases hm : c = '-'
      · subst hm
        rfl
      · have hs : ∀ d ds, d ≠ '+' → d ≠ '-' → sign (d :: ds) = (false, d :: ds) := by
          intro d ds h1 h2
          unfold sign
          split
          · rename_i h
            exact absurd (List.cons.inj h).1 h1
          · rename_i h
            exact absurd (List.cons.inj h).1 h2
          · rfl
        rw [hs c cs hp hm]
        exact hs c.toLower _ (fun h => hp ((toLower_eq_iff (by decide)).1 h))
          (fun h => hm ((toLower_eq_iff (by decide)).1 h))

theorem takeWhile_lowerCase (cs : List Char) :
    (lowerCase cs).takeWhile Char.isDigit = cs.takeWhile Char.isDigit ∧
      (lowerCase cs).dropWhile Char.isDigit = lowerCase (cs.dropWhile Char.isDigit) := by
  have hcomp : Char.isDigit ∘ Char.toLower = Char.isDigit := funext isDigit_toLower
  unfold lowerCase
  rw [List.takeWhile_map, List.dropWhile_map, hcomp]
  refine ⟨?_, rfl⟩
  refine (List.map_congr_left fun c hc => ?_).trans (List.map_id _)
  have := (isDigit_iff c).1 (List.mem_takeWhile_imp hc)
  exact toLower_eq_self (by omega)

theorem readNat_lowerCase (cs : List Char) : readNat (lowerCase cs) = readNat cs := by
  have hall : (lowerCase cs).all Char.isDigit = cs.all Char.isDigit := by
    simp only [lowerCase, List.all_map]
    exact congrArg cs.all (funext isDigit_toLower)
  have hnil : lowerCase cs ≠ [] ↔ cs ≠ [] := by simp [lowerCase]
  unfold readNat
  simp only [hall, hnil]
  split_ifs with h
  · have hself : lowerCase cs = cs := by
      refine (List.map_congr_left fun c hc => ?_).trans (List.map_id _)
      have := (isDigit_iff c).1 (List.all_eq_true.1 h.2 c hc)
      exact toLower_eq_self (by omega)
    rw [hself]
  · rfl

theorem readExponent_lowerCase (cs : List Char) : readExponent (lowerCase cs) = readExponent cs := by
  cases cs with
  | nil => rfl
  | cons c cs =>
    have hc : (c.toLower = 'e' ∨ c.toLower = 'E') ↔ (c = 'e' ∨ c = 'E') := by
      simp only [← Char.toNat_inj, toNat_toLower]
      have he : 'e'.toNat = 101 := rfl
      have hE : 'E'.toNat = 69 := rfl
      split_ifs <;> omega
    have hint : readInt (lowerCase cs) = readInt cs := by
      unfold readInt
      rw [sign_lowerCase]
      simp only [readNat_lowerCase]
    show (if c.toLower = 'e' ∨ c.toLower = 'E' then readInt (lowerCase cs) else none) = _
    simp only [hc, hint]
    rfl

def fractionPart : List Char → List Char × List Char
  | '.' :: rest => (rest.takeWhile Char.isDigit, rest.dropWhile Char.isDigit)
  | rest => ([], rest)

theorem readDecimal_eq (cs : List Char) : readDecimal cs =
    if cs.takeWhile Char.isDigit = [] ∧ (fractionPart (cs.dropWhile Char.isDigit)).1 = [] then none
    else (readExponent (fractionPart (cs.dropWhile Char.isDigit)).2).map fun e =>
      digitsValue (cs.takeWhile Char.isDigit ++ (fractionPart (cs.dropWhile Char.isDigit)).1) *
        (10 : ℚ) ^ (e - ((fractionPart (cs.dropWhile Char.isDigit)).1.length : ℤ)) := rfl

theorem fractionPart_lowerCase (cs : List Char) :
    fractionPart (lowerCase cs) = ((fractionPart cs).1, lowerCase (fractionPart cs).2) := by
  cases cs with
  | nil => rfl
  | cons c cs =>
    have hother : ∀ d ds, d ≠ '.' → fractionPart (d :: ds) = ([], d :: ds) := by
      intro d ds hd
      unfold fractionPart
      split
      · rename_i h
        exact absurd (List.cons.inj h).1 hd
      · rfl
    by_cases hc : c = '.'
    · subst hc
      obtain ⟨htake, hdrop⟩ := takeWhile_lowerCase cs
      exact Prod.ext htake hdrop
    · rw [hother c cs hc]
      exact hother c.toLower _ fun h => hc ((toLower_eq_iff (by decide)).1 h)

theorem readDecimal_lowerCase (cs : List Char) : readDecimal (lowerCase cs) = readDecimal cs := by
  simp [takeWhile_lowerCase, readDecimal_eq, fractionPart_lowerCase, readExponent_lowerCase]

theorem readFloat_lowerCase (cs : List Char) : readFloat (lowerCase cs) = readFloat cs := by
  unfold readFloat
  rw [sign_lowerCase]
  simp only [lowerCase_idem, readDecimal_lowerCase]

theorem readFloat_of_readInt (h : readInt cs = some n) :
    ∃ x, readFloat cs = some x ∧ x.toRat = roundF64 n := by
  obtain ⟨m, hm, hn⟩ := readInt_eq_some h
  unfold readNat at hm
  split_ifs at hm with hall
  cases hm
  have hdigits : ∀ c ∈ (sign cs).2, c.isDigit = true := List.all_eq_true.1 hall.2
  refine ⟨ofDecimal (sign cs).1 (digitsValue (sign cs).2), ?_, ?_⟩
  · cases hds : (sign cs).2 with
    | nil => exact absurd hds hall.1
    | cons d ds =>
      rw [readFloat_of_digit (Prod.ext rfl hds) (hdigits d (by rw [hds]; exact List.mem_cons_self)),
        ← hds, readDecimal_digits hall.1 hdigits]
      rfl
  · have hcast : (if (sign cs).1 = true then -((digitsValue (sign cs).2 : ℕ) : ℚ)
        else (digitsValue (sign cs).2 : ℚ)) = n := by
      rw [hn]
      split_ifs <;> simp
    unfold ofDecimal
    rw [hcast]
    cases roundF64 n <;> rfl

/-! ### Writing doubles -/

theorem digitsValue_snoc (ds : List Char) (d : Char) :
    digitsValue (ds ++ [d]) = 10 * digitsValue ds + (d.toNat - 48) := by
  unfold digitsValue
  rw [List.foldl_append]
  rfl

theorem span_digits (h : ∀ c ∈ ds, c.isDigit = true) (hc : c.isDigit = false) (rest : List Char) :
    (ds ++ c :: rest).takeWhile Char.isDigit = ds ∧
      (ds ++ c :: rest).dropWhile Char.isDigit = c :: rest := by simp_all

theorem readDecimal_point (h : ∀ c ∈ ds, c.isDigit = true) :
    readDecimal (ds ++ ['.', '0']) = some (digitsValue ds : ℚ) := by
  obtain ⟨htake, hdrop⟩ := span_digits h (by decide : '.'.isDigit = false) ['0']
  unfold readDecimal
  simp only [htake, hdrop]
  rw [if_neg (by simp [show Char.isDigit '0' = true by decide])]
  simp [show Char.isDigit '0' = true by decide, readExponent, digitsValue_snoc]
  field_simp

theorem readDecimal_exponent (hne : ds ≠ []) (h : ∀ c ∈ ds, c.isDigit = true) (k : ℕ) :
    readDecimal (ds ++ 'e' :: '-' :: Nat.toDigits 10 k) = some ((digitsValue ds : ℚ) / 10 ^ k) := by
  obtain ⟨htake, hdrop⟩ := span_digits h (by decide : 'e'.isDigit = false)
    ('-' :: Nat.toDigits 10 k)
  have hnat : readNat (Nat.toDigits 10 k) = some k := by
    unfold readNat
    rw [if_pos ⟨Nat.toDigits_ne_nil, List.all_eq_true.2 fun c hc => isDigit_toDigits hc⟩,
      digitsValue_toDigits]
  unfold readDecimal
  simp_all [readExponent, readInt, sign, div_eq_mul_inv]

/-- The number of binary places of a dyadic rational. -/
def places (q : ℚ) : ℕ := Nat.log2 q.den

/-- A dyadic rational in decimal: `n.0`, or all its digits and an exponent. -/
def decimalText (q : ℚ) : String :=
  if q.den = 1 then q.num.repr ++ ".0"
  else (q.num * 5 ^ places q).repr ++ "e-" ++ (places q).repr

theorem den_of_roundF64 (h : roundF64 q = some q) : q.den = 2 ^ places q := by
  have hscaled : ∃ (z : ℤ) (e : ℤ), q = z * 2 ^ e := by
    unfold roundF64 at h
    dsimp only at h
    split_ifs at h with hzero hbig hneg
    · exact ⟨0, 0, by simpa using hzero⟩
    · exact ⟨-halfEven _, _, by rw [← Option.some.inj h]; push_cast; ring⟩
    · exact ⟨halfEven _, _, (Option.some.inj h).symm⟩
  obtain ⟨z, e, hq⟩ := hscaled
  have hquot : q = ((z * 2 ^ e.toNat : ℤ) : ℚ) / ((2 ^ (-e).toNat : ℤ) : ℚ) := by
    rw [hq, eq_div_iff (by positivity)]
    push_cast
    rw [mul_assoc, ← zpow_natCast, ← zpow_natCast, ← zpow_add₀ (by norm_num)]
    congr 2
    omega
  have hdvd : q.den ∣ 2 ^ (-e).toNat := by
    have := Rat.den_dvd (z * 2 ^ e.toNat) (2 ^ (-e).toNat)
    rw [Rat.divInt_eq_div, ← hquot] at this
    exact_mod_cast this
  grind [Nat.dvd_prime_pow, Nat.prime_two, places, Nat.log2_two_pow]

theorem ofDecimal_abs (h : roundF64 q = some q) : ofDecimal (decide (q < 0)) |q| = .finite q := by
  grind [abs_of_nonneg, ofDecimal]

theorem readFloat_decimalText (h : roundF64 q = some q) :
    readFloat (decimalText q).toList = some (.finite q) := by
  have hdigits : ∀ n : ℕ, ∀ c ∈ Nat.toDigits 10 n, c.isDigit = true := fun n c hc =>
    isDigit_toDigits hc
  unfold decimalText
  split_ifs with hint
  · have habs : ((q.num.natAbs : ℕ) : ℚ) = |q| := by
      rw [Nat.cast_natAbs, Int.cast_abs, Rat.coe_int_num_of_den_eq_one hint]
    have hneg : decide (q.num < 0) = decide (q < 0) := by simp
    rw [String.toList_append, readFloat_repr, show ".0".toList = ['.', '0'] from rfl,
      readDecimal_point (hdigits _), digitsValue_toDigits, habs, hneg]
    exact congrArg some (ofDecimal_abs h)
  · have habs : ((q.num * 5 ^ places q).natAbs : ℚ) / 10 ^ places q = |q| := by
      have hden := den_of_roundF64 h
      rw [Nat.cast_natAbs, Int.cast_abs]
      push_cast
      rw [abs_mul, abs_pow, show |(5 : ℚ)| = 5 by norm_num, show (10 : ℚ) = 5 * 2 by norm_num,
        mul_pow]
      have hq : |q| = |(q.num : ℚ)| / 2 ^ places q := by
        conv_lhs => rw [← Rat.num_div_den q, abs_div]
        rw [hden]
        simp
      rw [hq]
      field_simp
    have hneg : decide (q.num * 5 ^ places q < 0) = decide (q < 0) := by
      have hpos : (0 : ℤ) < 5 ^ places q := by positivity
      simp [mul_neg_iff, hpos, not_lt.2 hpos.le]
    rw [String.toList_append, String.toList_append, List.append_assoc, readFloat_repr,
      show "e-".toList = ['e', '-'] from rfl, Nat.toList_repr]
    simp only [List.cons_append, List.nil_append]
    rw [readDecimal_exponent Nat.toDigits_ne_nil (hdigits _), digitsValue_toDigits, habs, hneg]
    exact congrArg some (ofDecimal_abs h)

end RuleMind.Text

namespace RuleMind

open Text (F64)

/-! ### Comparing doubles -/

/-- `a != b` on floats. -/
def F64.ne : F64 → F64 → Bool
  | .nan, _ | _, .nan => true
  | a, b => a ≠ b

/-- `a > b` on floats. -/
def F64.gt : F64 → F64 → Bool
  | .finite a, .finite b => b < a
  | .infinite false, .finite _ | .infinite false, .infinite true | .finite _, .infinite true => true
  | _, _ => false

/-- `a <= b` on floats. -/
def F64.le (a b : F64) : Bool := !F64.ne a b || F64.gt b a

/-- A double among the rationals and the infinities; nothing for what is not a number. -/
def F64.order : F64 → Option (WithBot (WithTop ℚ))
  | .finite q => some (q : WithTop ℚ)
  | .infinite false => some (⊤ : WithTop ℚ)
  | .infinite true => some ⊥
  | .nan => none

variable {a b : F64} {t : WithBot (WithTop ℚ)}

theorem F64.order_eq_none : F64.order a = none ↔ a = .nan := by
  rcases a with _ | (_ | _) | _ <;> simp [F64.order]

theorem F64.order_inj (ha : F64.order a = some t) (hb : F64.order b = some t) : a = b := by
  rcases a with a | (_ | _) | _ <;> rcases b with b | (_ | _) | _ <;>
    simp only [F64.order, Option.some.injEq, reduceCtorEq] at ha hb <;> subst ha
  all_goals first | rfl | simpa using hb.symm

theorem F64.ne_of_order {s : WithBot (WithTop ℚ)} (ha : F64.order a = some s)
    (hb : F64.order b = some t) : F64.ne a b = true ↔ s ≠ t := by
  have hne : F64.ne a b = true ↔ a ≠ b := by
    rcases a with _ | _ | _ <;> rcases b with _ | _ | _ <;> simp_all [F64.ne, F64.order]
  rw [hne, not_iff_not]
  constructor
  · rintro rfl
    exact Option.some.inj (ha.symm.trans hb)
  · rintro rfl
    exact F64.order_inj ha hb

theorem F64.gt_of_order {s : WithBot (WithTop ℚ)} (ha : F64.order a = some s)
    (hb : F64.order b = some t) : F64.gt a b = true ↔ t < s := by
  have htop : ∀ q : ℚ, ((q : WithTop ℚ) : WithBot (WithTop ℚ)) < ⊤ := fun q =>
    WithBot.coe_lt_coe.2 (WithTop.coe_lt_top q)
  rcases a with a | (_ | _) | _ <;> rcases b with b | (_ | _) | _ <;>
    simp only [F64.order, Option.some.injEq, reduceCtorEq] at ha hb <;> subst ha hb <;>
    simp [F64.gt, htop]

end RuleMind
