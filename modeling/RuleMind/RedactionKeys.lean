/-
  Fields named by a key and something before it: the last words of a name, as `_key_tokens` and
  `_key_is_redacted` of `app/logic.py` read them.
-/
import Mathlib
import RuleMind.RedactionComplete

namespace RuleMind.Redaction

/-! ### Words -/

def runs (cs : List Char) : List (List Char) := (cs.splitOnP fun c => !c.isAlphanum).filter (· ≠ [])

theorem keyTokens_eq (key : String) :
    keyTokens key = (runs (camelSpaced key.toList)).map fun part => lower (String.ofList part) :=
  rfl

variable {c : Char} {k : String} {cs : List Char}

theorem runs_append (hc : c.isAlphanum = false) (as bs : List Char) :
    runs (as ++ c :: bs) = runs as ++ runs bs := by
  unfold runs
  rw [List.splitOnP_append_cons as bs (by simp [hc]), List.filter_append]

theorem runs_cons (hc : c.isAlphanum = true) (cs : List Char) :
    ∃ run rest, (cs.splitOnP fun c => !c.isAlphanum) = run :: rest ∧
      runs (c :: cs) = (c :: run) :: rest.filter (· ≠ []) := by
  obtain ⟨run, rest, h⟩ := List.exists_cons_of_ne_nil
    (List.splitOnP_ne_nil (fun c => !Char.isAlphanum c) cs)
  simp_all [runs, List.splitOnP_cons_eq_if_modifyHead]

theorem flatten_runs (cs : List Char) : (runs cs).flatten = cs.filter Char.isAlphanum := by
  have hsplit : ∀ cs : List Char,
      (cs.splitOnP fun c => !c.isAlphanum).flatten = cs.filter Char.isAlphanum := by
    intro cs
    induction cs with
    | nil => rfl
    | cons c cs ih =>
      rw [List.splitOnP_cons_eq_if_modifyHead]
      by_cases hc : c.isAlphanum = true
      · obtain ⟨run, rest, h⟩ := List.exists_cons_of_ne_nil
          (List.splitOnP_ne_nil (fun c => !Char.isAlphanum c) cs)
        simp_all
      · simp_all
  rw [runs, List.flatten_filter_ne_nil, hsplit]

def boundary (c d : Char) : Bool := (c.isLower || c.isDigit) && d.isUpper

theorem camelSpaced_append (as : List Char) (c d : Char) (cs : List Char) :
    camelSpaced (as ++ c :: d :: cs) =
      camelSpaced (as ++ [c]) ++
        if boundary c d then ' ' :: camelSpaced (d :: cs) else camelSpaced (d :: cs) := by
  induction as with
  | nil =>
    show (if boundary c d then _ else _) = _
    split <;> rfl
  | cons a as ih =>
    cases as with
    | nil =>
      show (if boundary a c then a :: ' ' :: camelSpaced (c :: d :: cs) else _) =
        (if boundary a c then _ else _) ++ _
      grind
    | cons b as =>
      show (if boundary a b then a :: ' ' :: camelSpaced (b :: (as ++ c :: d :: cs)) else _) =
        (if boundary a b then _ else _) ++ _
      split
      · exact congrArg (a :: ' ' :: ·) ih
      · exact congrArg (a :: ·) ih

theorem filter_camelSpaced (cs : List Char) :
    (camelSpaced cs).filter Char.isAlphanum = cs.filter Char.isAlphanum := by
  fun_induction camelSpaced cs with
  | case1 c d cs h ih => simp [List.filter_cons, ih]
  | case2 c d cs h ih => rw [List.filter_cons, ih, List.filter_cons (x := c)]
  | case3 cs h => rfl

/-! ### The words of a name that ends with a key -/

/-- `k` with a capital letter in front. -/
def capitalized (k : String) : String :=
  match k.toList with
  | [] => ""
  | c :: cs => String.ofList (c.toUpper :: cs)

/-- A name that is a key behind something else, as words of their own. -/
inductive FollowedBy (k : String) : String → Prop
  | snake {p : String} (hp : p ≠ "") : FollowedBy k (p ++ "_" ++ k)
  | camel {p : String} {before : List Char} {last c : Char} {cs : List Char}
      (hp : p.toList = before ++ [last]) (hlast : (last.isLower || last.isDigit) = true)
      (hk : k.toList = c :: cs) (hc : c.isAlpha = true) : FollowedBy k (p ++ capitalized k)

theorem camelSpaced_snake (as cs : List Char) :
    camelSpaced (as ++ '_' :: cs) = camelSpaced as ++ '_' :: camelSpaced cs := by
  have hfront : camelSpaced ('_' :: cs) = '_' :: camelSpaced cs := by
    cases cs with
    | nil => rfl
    | cons d cs => rfl
  rcases List.eq_nil_or_concat as with rfl | ⟨as, c, rfl⟩
  · exact hfront
  · have hboundary : boundary c '_' = false := Bool.and_false _
    rw [List.concat_eq_append, List.append_assoc]
    show camelSpaced (as ++ c :: '_' :: cs) = _
    rw [camelSpaced_append, hboundary, if_neg (by decide), hfront]

theorem keyTokens_snake (p k : String) :
    keyTokens (p ++ "_" ++ k) = keyTokens p ++ keyTokens k := by
  have hchars : (p ++ "_" ++ k).toList = p.toList ++ '_' :: k.toList := by
    rw [String.toList_append, String.toList_append, List.append_assoc]
    rfl
  simp [keyTokens_eq, camelSpaced_snake, runs_append, List.map_append]

theorem capitalized_eq (hk : k.toList = c :: cs) : (capitalized k).toList = c.toUpper :: cs := by
  rw [capitalized, hk]
  exact String.toList_ofList

theorem keyTokens_camel {p : String} {before : List Char} {last : Char}
    (hp : p.toList = before ++ [last]) (hlast : (last.isLower || last.isDigit) = true)
    (hk : k.toList = c :: cs) (hc : c.isAlpha = true) :
    keyTokens (p ++ capitalized k) = keyTokens p ++ keyTokens (capitalized k) := by
  have hboundary : boundary last c.toUpper = true := by
    rw [boundary, hlast, Char.isUpper_toUpper_eq_isAlpha, hc]
    rfl
  have hchars : (p ++ capitalized k).toList = before ++ last :: c.toUpper :: cs := by
    rw [String.toList_append, hp, capitalized_eq hk, List.append_assoc]
    rfl
  rw [keyTokens_eq, keyTokens_eq, keyTokens_eq, hchars, camelSpaced_append, hboundary, if_pos rfl,
    runs_append rfl, List.map_append, hp, capitalized_eq hk]

/-! ### The walk over the last words -/

section Walk
variable (tokens : List String)

/-- A run of at most `_MAX_KEY_TOKENS` last words is covered. -/
def Reached (words : List String) : Prop :=
  ∃ before run, words = before ++ run ∧ run ≠ [] ∧ run.length ≤ MAX_KEY_TOKENS ∧
    String.join run ∈ tokens

variable {tokens}

theorem keyIsRedacted_iff {strLower : String → String} {keys : List String} {key : String} :
    keyIsRedacted strLower keys tokens key = true ↔
      normalizeRedactKey strLower key ∈ keys ∨ Reached tokens (keyTokens key) := by
  simp only [keyIsRedacted, Bool.or_eq_true, decide_eq_true_eq, List.any_eq_true, List.mem_range]
  refine or_congr Iff.rfl ⟨?_, ?_⟩
  · rintro ⟨window, hwindow, hmem⟩
    have hle : window + 1 ≤ (keyTokens key).length := by omega
    refine ⟨(keyTokens key).take ((keyTokens key).length - (window + 1)), _,
      (List.take_append_drop _ _).symm, ?_, ?_, hmem⟩
    · grind [List.length_nil]
    · rw [List.length_drop]
      omega
  · rintro ⟨before, run, hwords, hrun, hlength, hmem⟩
    have hpos := List.length_pos_of_ne_nil hrun
    have htotal : (keyTokens key).length = before.length + run.length := by
      rw [hwords, List.length_append]
    refine ⟨run.length - 1, by omega, ?_⟩
    grind [List.drop_left]

variable {words : List String}

theorem Reached.behind (h : Reached tokens words) (front : List String) :
    Reached tokens (front ++ words) := by
  obtain ⟨before, run, rfl, hrun, hlength, hmem⟩ := h
  exact ⟨front ++ before, run, by rw [List.append_assoc], hrun, hlength, hmem⟩

theorem Reached.of_long {word : String} (hlong : ∀ token ∈ tokens, token.length < word.length)
    (h : Reached tokens (word :: words)) : Reached tokens words := by
  obtain ⟨before, run, hwords, hrun, hlength, hmem⟩ := h
  cases before with
  | nil => grind [String.join_cons, String.length_append]
  | cons first before =>
    rw [List.cons_append, List.cons.injEq] at hwords
    exact ⟨before, run, hwords.2, hrun, hlength, hmem⟩

theorem reached_all (hwords : words ≠ [])
    (hfew : words.length ≤ MAX_KEY_TOKENS) (hmem : String.join words ∈ tokens) :
    Reached tokens words :=
  ⟨[], words, rfl, hwords, hfew, hmem⟩

end Walk

/-! ### Keys of at most three words -/

theorem join_keyTokens (k : String) : String.join (keyTokens k) =
    lower (String.ofList (k.toList.filter Char.isAlphanum)) := by
  have hpart : ∀ part : List Char, (lower (String.ofList part)).toList = part.map Char.toLower :=
    fun part => by rw [lower, String.toList_ofList, String.toList_ofList]
  rw [← String.toList_inj, String.toList_join, hpart, ← filter_camelSpaced, ← flatten_runs,
    List.map_flatten, keyTokens_eq, List.flatMap_map, List.flatMap_def]
  simp only [hpart]

theorem isAlphanum_of_isAlpha (hc : c.isAlpha = true) : c.isAlphanum = true := by
  rw [Char.isAlphanum, hc, Bool.true_or]

theorem isDigit_of_isUpper (hc : c.isUpper = true) : c.isDigit = false := by
  grind [Char.isUpper, Char.isDigit]

theorem camelSpaced_capital (hc : c.isAlpha = true) (cs : List Char) :
    camelSpaced (c.toUpper :: cs) = c.toUpper :: camelSpaced cs := by
  cases cs with
  | nil => rfl
  | cons d cs => simp_all [camelSpaced, isDigit_of_isUpper]

theorem camelSpaced_cons (c : Char) (cs : List Char) :
    camelSpaced (c :: cs) = c :: camelSpaced cs ∨
      camelSpaced (c :: cs) = c :: ' ' :: camelSpaced cs := by
  cases cs with
  | nil => exact .inl rfl
  | cons d cs =>
    rw [camelSpaced]
    split
    · exact .inr rfl
    · exact .inl rfl

theorem keyTokens_capitalized (hk : k.toList = c :: cs) (hc : c.isAlpha = true) :
    keyTokens (capitalized k) ≠ [] ∧ (keyTokens (capitalized k)).length ≤ (keyTokens k).length ∧
      String.join (keyTokens (capitalized k)) = String.join (keyTokens k) := by
  have hupper : c.toUpper.isAlpha = true := by rw [Char.isAlpha_toUpper_eq_isAlpha, hc]
  obtain ⟨run, rest, hsplit, hruns⟩ := runs_cons (isAlphanum_of_isAlpha hupper) (camelSpaced cs)
  have hwords : runs (camelSpaced (capitalized k).toList) =
      (c.toUpper :: run) :: rest.filter (· ≠ []) := by
    rw [capitalized_eq hk, camelSpaced_capital hc, hruns]
  refine ⟨?_, ?_, ?_⟩
  · rw [keyTokens_eq, hwords]
    exact List.cons_ne_nil _ _
  · rw [keyTokens_eq, keyTokens_eq, hwords, List.length_map, List.length_map, List.length_cons, hk]
    obtain ⟨run', rest', hsplit', hruns'⟩ := runs_cons (isAlphanum_of_isAlpha hc) (camelSpaced cs)
    rw [hsplit, List.cons.injEq] at hsplit'
    obtain ⟨rfl, rfl⟩ := hsplit'
    rcases camelSpaced_cons c cs with h | h
    · rw [h, hruns', List.length_cons]
    · have hone : runs (c :: ' ' :: camelSpaced cs) = runs [c] ++ runs (camelSpaced cs) :=
        runs_append rfl [c] _
      obtain ⟨_, _, -, hfirst⟩ := runs_cons (isAlphanum_of_isAlpha hc) []
      have hrest : (rest.filter (· ≠ [])).length ≤ (runs (camelSpaced cs)).length := by
        rw [runs, hsplit]
        exact ((List.sublist_cons_self run rest).filter _).length_le
      grind
  · rw [join_keyTokens, join_keyTokens, capitalized_eq hk, hk,
      List.filter_cons_of_pos (isAlphanum_of_isAlpha hupper),
      List.filter_cons_of_pos (isAlphanum_of_isAlpha hc), lower, lower, String.toList_ofList,
      String.toList_ofList, List.map_cons, List.map_cons, Char.toLower_toUpper_eq_toLower]

section Mode
variable (py : PyText) (strLower : String → String) (env : Env) (extraKeys : List String)

/-- What the last words of a name are looked up in. -/
def coveredTokens : List String :=
  REDACTED_KEY_TOKENS.map (normalizeRedactKey strLower) ++ normalized strLower extraKeys

/-- In every output, at every depth, a field of this name holds the placeholder. -/
def FieldRedacted (field : String) : Prop :=
  ∀ v kvs, Within (.dict kvs) (redactPayload py strLower env extraKeys v) →
    ∀ w, (field, w) ∈ kvs → w = REDACTION_PLACEHOLDER

/-- Every field that is named by something and then the key is redacted. -/
def FollowersRedacted (k : String) : Prop :=
  ∀ field, FollowedBy k field → FieldRedacted py strLower env extraKeys field

/-- `str.lower` leaves the small letters of ASCII where they are. -/
def KeepsLower : Prop := ∀ s : String, (s.toList.filter Char.isLower).Sublist (strLower s).toList

variable {py strLower env extraKeys}

theorem fieldRedacted_iff {field : String} :
    FieldRedacted py strLower env extraKeys field ↔
      redactedKey py strLower env extraKeys field = true := by
  constructor
  · intro h
    by_contra hkey
    have hout : redactPayload py strLower env extraKeys (.dict [(field, .null)]) =
        .dict [(field, .null)] := by
      show Value.dict [(field, if redactedKey py strLower env extraKeys field then _ else _)] = _
      rw [if_neg hkey]
      rfl
    have hwithin : Within (.dict [(field, .null)])
        (redactPayload py strLower env extraKeys (.dict [(field, .null)])) := by
      rw [hout]
      exact .self
    cases h _ _ hwithin .null List.mem_cons_self
  · intro hkey v kvs hwithin w hmem
    exact entry_redacted hwithin hmem hkey

theorem redactedKey_iff (hmode : exactKeys strLower env = false) {field : String} :
    redactedKey py strLower env extraKeys field = true ↔
      normalizeRedactKey strLower field ∈ redactKeys strLower env ++ normalized strLower extraKeys ∨
        Reached (coveredTokens strLower extraKeys) (keyTokens field) := by
  rw [redactedKey, configOf, hmode]
  exact keyIsRedacted_iff

/-- A word of `n + 1` letters. -/
def longWord (n : ℕ) : String := String.ofList (List.replicate (n + 1) 'z')

theorem keyTokens_longWord (n : ℕ) : keyTokens (longWord n) = [longWord n] := by
  have hspaced : ∀ n, camelSpaced (List.replicate n 'z') = List.replicate n 'z' := by
    intro n
    induction n with
    | zero => rfl
    | succ n ih =>
      cases n with
      | zero => rfl
      | succ n => exact congrArg ('z' :: ·) ih
  have hruns : runs (List.replicate (n + 1) 'z') = [List.replicate (n + 1) 'z'] := by
    rw [runs, List.splitOnP_eq_singleton]
    · rfl
    · intro c hc
      rw [List.eq_of_mem_replicate hc]
      rfl
  rw [keyTokens_eq, longWord, String.toList_ofList, hspaced, hruns, List.map_singleton, lower,
    String.toList_ofList, List.map_replicate]
  rfl

theorem length_normalize (hlower : KeepsLower strLower) (n : ℕ) (rest : String) :
    n < (normalizeRedactKey strLower (longWord n ++ rest)).length := by
  have hkept := ((hlower (longWord n ++ rest)).filter fun c => c.isLower || c.isDigit).length_le
  have hletters : (List.replicate (n + 1) 'z').filter Char.isLower = List.replicate (n + 1) 'z' :=
    List.filter_replicate_of_pos rfl
  have hlong : (List.replicate (n + 1) 'z').filter (fun c => c.isLower || c.isDigit) =
      List.replicate (n + 1) 'z' := List.filter_replicate_of_pos rfl
  rw [String.toList_append, longWord, String.toList_ofList, List.filter_append, hletters,
    List.filter_append, hlong, List.length_append, List.length_replicate] at hkept
  rw [normalizeRedactKey, String.length_ofList, longWord]
  omega

theorem exists_longer (texts : List String) : ∃ n, ∀ t ∈ texts, t.length < n := by
  induction texts with
  | nil => exact ⟨0, by simp⟩
  | cons t texts ih =>
    obtain ⟨n, hn⟩ := ih
    refine ⟨n + t.length + 1, fun u hu => ?_⟩
    grind

theorem reached_of_redacted (hlower : KeepsLower strLower)
    (hmode : exactKeys strLower env = false) :
    ∃ n, ∀ rest words, keyTokens (longWord n ++ rest) = longWord n :: words →
      redactedKey py strLower env extraKeys (longWord n ++ rest) = true →
      Reached (coveredTokens strLower extraKeys) words := by
  obtain ⟨n, hn⟩ := exists_longer (redactKeys strLower env ++ normalized strLower extraKeys ++
    coveredTokens strLower extraKeys)
  have hlength : (longWord n).length = n + 1 := by
    rw [longWord, String.length_ofList, List.length_replicate]
  refine ⟨n, fun rest words hwords h => ?_⟩
  rcases (redactedKey_iff hmode).1 h with hmem | hreached
  · grind [length_normalize]
  · rw [hwords] at hreached
    refine hreached.of_long fun token htoken => ?_
    have := hn _ (List.mem_append_right _ htoken)
    omega

/-- **Names that end with a key.**  In the default mode, every field named by something and then a
    key's words is redacted exactly if a run of at most three of the key's last words is covered,
    with the key as it stands and, where it can be capitalised, with a capital in front. -/
theorem followed_redacted_iff (hlower : KeepsLower strLower)
    (hmode : exactKeys strLower env = false) (k : String) :
    FollowersRedacted py strLower env extraKeys k ↔
      Reached (coveredTokens strLower extraKeys) (keyTokens k) ∧
        (k.toList.head?.any Char.isAlpha = true →
          Reached (coveredTokens strLower extraKeys) (keyTokens (capitalized k))) := by
  constructor
  · intro h
    obtain ⟨n, hn⟩ := @reached_of_redacted py strLower env extraKeys hlower hmode
    have hreplicate : (longWord n).toList = List.replicate n 'z' ++ ['z'] := by
      rw [longWord, String.toList_ofList, List.replicate_succ']
    refine ⟨?_, fun hk => ?_⟩
    · have hp : longWord n ≠ "" := by
        intro hp
        have hchars := congrArg String.toList hp
        rw [hreplicate] at hchars
        exact List.append_ne_nil_of_right_ne_nil _ (by simp) hchars
      have hfield := fieldRedacted_iff.1 (h _ (.snake hp))
      rw [String.append_assoc] at hfield
      refine hn ("_" ++ k) (keyTokens k) ?_ hfield
      rw [← String.append_assoc, keyTokens_snake, keyTokens_longWord]
      rfl
    · cases hchars : k.toList with
      | nil =>
        rw [hchars] at hk
        cases hk
      | cons c cs =>
        rw [hchars] at hk
        have hfield := fieldRedacted_iff.1 (h _ (.camel hreplicate rfl hchars hk))
        refine hn (capitalized k) _ ?_ hfield
        rw [keyTokens_camel hreplicate rfl hchars hk, keyTokens_longWord]
        rfl
  · rintro ⟨hsnake, hcamel⟩ field hfield
    rw [fieldRedacted_iff, redactedKey_iff hmode]
    refine .inr ?_
    cases hfield with
    | snake hp =>
      rw [keyTokens_snake]
      exact hsnake.behind _
    | camel hp hlast hk hc =>
      rw [keyTokens_camel hp hlast hk hc]
      exact (hcamel (by rw [hk]; exact hc)).behind _

theorem reached_of_few_words {k : String}
    (hcustom : normalizeRedactKey strLower k ∈ normalized strLower extraKeys)
    (hplain : normalizeRedactKey strLower k = String.join (keyTokens k))
    (hfew : (keyTokens k).length ≤ MAX_KEY_TOKENS) :
    Reached (coveredTokens strLower extraKeys) (keyTokens k) ∧
      (k.toList.head?.any Char.isAlpha = true →
        Reached (coveredTokens strLower extraKeys) (keyTokens (capitalized k))) := by
  have hjoin : String.join (keyTokens k) ∈ coveredTokens strLower extraKeys :=
    List.mem_append_right _ (hplain ▸ hcustom)
  have hwords : keyTokens k ≠ [] := by
    intro hnil
    have hne := (List.mem_filter.1 hcustom).2
    rw [hplain, hnil, String.join_nil] at hne
    cases hne
  refine ⟨reached_all hwords hfew hjoin, fun hletter => ?_⟩
  cases hchars : k.toList with
  | nil =>
    rw [hchars] at hletter
    cases hletter
  | cons c cs =>
    rw [hchars] at hletter
    obtain ⟨hne, hle, hsame⟩ := keyTokens_capitalized hchars hletter
    exact reached_all hne (hle.trans hfew) (hsame ▸ hjoin)

end Mode

theorem lower_keepsLower : KeepsLower lower := by
  intro s
  have hkept : (s.toList.filter Char.isLower).map Char.toLower = s.toList.filter Char.isLower := by
    rw [List.map_congr_left, List.map_id]
    intro c hc
    exact Char.toLower_eq_of_not_isUpper (Char.not_isUpper_of_isLower (List.mem_filter.1 hc).2)
  rw [lower, String.toList_ofList, ← hkept]
  exact List.filter_sublist.map _

/-- A key of two words. -/
theorem account_no_followed : FollowersRedacted asciiText lower noEnv ["account_no"] "account_no" :=
  (followed_redacted_iff lower_keepsLower (by decide) "account_no").2
    (reached_of_few_words (by decide) (by decide) (by decide))

/-- A key of four words does not cover a field that ends with it. -/
theorem long_key_not_redacted :
    exactKeys lower noEnv = false ∧ ¬ FollowersRedacted asciiText lower noEnv
      ["loyalty_program_member_code"] "loyalty_program_member_code" := by
  have hfollowed : FollowedBy "loyalty_program_member_code"
      ("customer" ++ "_" ++ "loyalty_program_member_code") := .snake (by decide)
  refine ⟨by decide, fun h => ?_⟩
  have hkey := fieldRedacted_iff.1 (h _ hfollowed)
  rw [redactedKey, covers_eq_false (by decide +kernel) (by decide +kernel)] at hkey
  cases hkey

end RuleMind.Redaction
