/-
  The payloads of a batch, one a line: `batch_decide_jsonl` of `app/routers/runtime.py`, from the
  text of the body to the payloads and the errors.
-/
import RuleMind.Lib.Lines
import RuleMind.Lib.Raises
import RuleMind.Value

namespace RuleMind.BatchLines

open Lib RuleMind.Text

/-- What `json.loads` raises: a `JSONDecodeError`, or what is none. -/
inductive LoadError
  | decode (text : String)
  | other (text : String)
  deriving DecidableEq

structure ParseError where
  line : ℕ
  error : String
  deriving DecidableEq

structure Batch where
  payloads : List Value
  parseErrors : List ParseError

inductive Failure
  | http (status : ℕ) (detail : String)
  | raised (text : String)
  deriving DecidableEq

def payload : Value → Value
  | .dict kvs => .dict kvs
  | parsed => .dict [("_value", parsed)]

section Loop
variable (loads : List Char → Except LoadError Value) (maximum : ℕ)

/-- `SIMULATION_JSONL_MAX`. -/
def checkSize (batch : Batch) : Except Failure Batch :=
  if batch.payloads.length > maximum then
    .error (.http 413 ("JSONL exceeds " ++ toString maximum ++ " payloads."))
  else .ok batch

def readLine (n : ℕ) (line : List Char) (batch : Batch) : Except Failure Batch :=
  let stripped := pyStrip line
  if stripped = [] then .ok batch
  else
    match loads stripped with
    | .ok parsed => checkSize maximum { batch with payloads := batch.payloads ++ [payload parsed] }
    | .error (.decode text) =>
      checkSize maximum { batch with parseErrors := batch.parseErrors ++ [⟨n, text⟩] }
    | .error (.other text) => .error (.raised text)

def readLines : ℕ → List (List Char) → Batch → Except Failure Batch
  | _, [], batch => .ok batch
  | n, line :: lines, batch => do
    let batch ← readLine loads maximum n line batch
    readLines (n + 1) lines batch

/-- `batch_decide_jsonl` up to the run of the batch. -/
def batchDecideJsonl (body : List Char) : Except Failure Batch :=
  readLines loads maximum 1 (splitlines body) ⟨[], []⟩

/-! ### What is promised -/

def payloadOf (line : List Char) : Option Value :=
  if pyStrip line = [] then none
  else
    match loads (pyStrip line) with
    | .ok parsed => some (payload parsed)
    | .error _ => none

def errorOf (line : List Char) : Option String :=
  if pyStrip line = [] then none
  else
    match loads (pyStrip line) with
    | .error (.decode text) => some text
    | _ => none

/-- The errors of lines, numbered from `n` on. -/
def errorsFrom : ℕ → List (List Char) → List ParseError
  | _, [] => []
  | n, line :: lines =>
    ((errorOf loads line).map fun text => ⟨n, text⟩).toList ++ errorsFrom (n + 1) lines

/-- `json.loads` reads the line, or raises an error that is counted. -/
def Read (line : List Char) : Prop :=
  pyStrip line = [] ∨ ∀ text, loads (pyStrip line) ≠ .error (.other text)

/-- Each line by line feeds is blank, or one payload, or one error under its number. -/
def Framed (body : List Char) : Prop :=
  (∀ line ∈ feedLines body, Read loads line) ∧
    batchDecideJsonl loads maximum body =
      .ok ⟨(feedLines body).filterMap (payloadOf loads), errorsFrom loads 1 (feedLines body)⟩

/-- A text of the value without line feeds, of which `json.loads` makes the value unless it hits a
    limit. -/
structure Serialised (v : Value) (line : List Char) : Prop where
  oneLine : '\n' ∉ line
  solid : pyStrip line ≠ []
  reads : loads (pyStrip line) = .ok v ∨ ∃ text, loads (pyStrip line) = .error (.other text)

/-- No line is broken between two parts that are not blank, or before a line that does not parse;
    no limit of `json.loads` is hit, or of the size. -/
structure Unbroken (body : List Char) : Prop where
  parts : ∀ line ∈ feedLines body, (parts pySpace line).length ≤ 1
  numbers : ∀ i line, (feedLines body)[i]? = some line → (errorOf loads line).isSome →
    (∀ line' ∈ (feedLines body).take i, (splitlines (line' ++ ['\n'])).length = 1) ∧
    ∀ first ∈ (splitlines line).head?, ¬ Blank pySpace first
  read : ∀ line ∈ feedLines body, Read loads line
  few : ((feedLines body).filterMap (payloadOf loads)).length ≤ maximum

end Loop

/-! ### Lines -/

section Lines
variable {loads : List Char → Except LoadError Value} {maximum : ℕ}

theorem isBreak_space (c : Char) (h : isBreak c = true) : pySpace c = true := by
  simp only [isBreak, pySpace, isSpace, Bool.or_eq_true, Bool.and_eq_true, decide_eq_true_iff,
    beq_iff_eq] at h ⊢
  omega

variable {x y line : List Char} {n : ℕ} {batch : Batch} {lines : List (List Char)} {values : List
  Value}

theorem pyStrip_eq_nil : pyStrip x = [] ↔ Blank pySpace x := by
  constructor
  · intro h
    obtain ⟨pre, post, hx, hpre, hpost, -, -⟩ := trimBy_exists pySpace x
    have hnil : trimBy pySpace x = [] := h
    rw [hnil] at hx
    rw [hx]
    exact blank_append.2 ⟨hpre, hpost⟩
  · intro h
    have hparts := @trimBy_parts pySpace x [] [] h (by simp) (by simp) (by simp)
    rw [List.append_nil, List.append_nil] at hparts
    exact hparts

theorem pyStrip_spaces {pre post : List Char} (hpre : Blank pySpace pre)
    (hpost : Blank pySpace post) : pyStrip (pre ++ (x ++ post)) = pyStrip x := by
  obtain ⟨pre', post', hx, hpre', hpost', hhead, hlast⟩ := trimBy_exists pySpace x
  have hwhole : pre ++ (x ++ post) = (pre ++ pre') ++ (trimBy pySpace x ++ (post' ++ post)) := by
    conv_lhs => rw [hx]
    simp only [List.append_assoc]
  rw [hwhole]
  exact trimBy_parts (blank_append.2 ⟨hpre, hpre'⟩) (blank_append.2 ⟨hpost', hpost⟩) hhead hlast

theorem payloadOf_congr (h : pyStrip x = pyStrip y) : payloadOf loads x = payloadOf loads y := by
  rw [payloadOf, h, payloadOf]

theorem errorOf_congr (h : pyStrip x = pyStrip y) : errorOf loads x = errorOf loads y := by
  rw [errorOf, h, errorOf]

theorem payloadOf_blank (h : Blank pySpace x) : payloadOf loads x = none := by
  rw [payloadOf, if_pos (pyStrip_eq_nil.2 h)]

theorem errorOf_blank (h : Blank pySpace x) : errorOf loads x = none := by
  rw [errorOf, if_pos (pyStrip_eq_nil.2 h)]

theorem errorsFrom_append (n : ℕ) (xs ys : List (List Char)) :
    errorsFrom loads n (xs ++ ys) =
      errorsFrom loads n xs ++ errorsFrom loads (n + xs.length) ys := by
  induction xs generalizing n with
  | nil => rfl
  | cons x xs ih =>
    rw [List.cons_append, errorsFrom, errorsFrom, ih, List.append_assoc, List.length_cons,
      Nat.add_right_comm n 1, Nat.add_assoc n]

variable {xs : List (List Char)} {batch' : Batch} {m : ℕ}

theorem errorsFrom_none (n : ℕ) (h : ∀ x ∈ xs, errorOf loads x = none) :
    errorsFrom loads n xs = [] := by
  induction xs generalizing n with
  | nil => rfl
  | cons x xs ih => simp_all [errorsFrom]

theorem errorsFrom_blank (n : ℕ) (h : ∀ x ∈ xs, Blank pySpace x) : errorsFrom loads n xs = [] :=
  errorsFrom_none n fun x hx => errorOf_blank (h x hx)

theorem readLine_ok (hfew : batch.payloads.length ≤ maximum) :
    readLine loads maximum n line batch = .ok batch' ↔ Read loads line ∧
      (batch.payloads ++ (payloadOf loads line).toList).length ≤ maximum ∧
      batch' = ⟨batch.payloads ++ (payloadOf loads line).toList, batch.parseErrors ++
        ((errorOf loads line).map fun text => (⟨n, text⟩ : ParseError)).toList⟩ := by
  have hsize : ∀ b : Batch, checkSize maximum b = .ok batch' ↔
      b.payloads.length ≤ maximum ∧ batch' = b := by
    intro b
    rw [checkSize]
    split
    · simp_all
    · grind
  rw [readLine, Read, payloadOf, errorOf]
  by_cases hblank : pyStrip line = []
  · simp only [hblank, if_true, Option.map_none, Option.toList_none, List.append_nil, true_or,
      true_and]
    exact ⟨fun h => ⟨hfew, (Except.ok.inj h).symm⟩, fun h => by rw [h.2]⟩
  · grind

theorem readLines_ok (hfew : batch.payloads.length ≤ maximum) :
    readLines loads maximum n lines batch = .ok batch' ↔ (∀ line ∈ lines, Read loads line) ∧
      (batch.payloads ++ lines.filterMap (payloadOf loads)).length ≤ maximum ∧
      batch' = ⟨batch.payloads ++ lines.filterMap (payloadOf loads),
        batch.parseErrors ++ errorsFrom loads n lines⟩ := by
  induction lines generalizing n batch with
  | nil =>
    rw [readLines, errorsFrom, List.filterMap_nil, List.append_nil, List.append_nil]
    exact ⟨fun h => ⟨List.forall_mem_nil _, hfew, (Except.ok.inj h).symm⟩, fun h => by rw [h.2.2]⟩
  | cons line lines ih =>
    have hlist : (line :: lines).filterMap (payloadOf loads) =
        (payloadOf loads line).toList ++ lines.filterMap (payloadOf loads) := by
      rw [List.filterMap_cons]
      cases payloadOf loads line with
      | none => rfl
      | some v => rfl
    rw [readLines, bind_eq_ok, List.forall_mem_cons, hlist, errorsFrom, ← List.append_assoc,
      ← List.append_assoc]
    constructor
    · rintro ⟨batch₁, hline, hlines⟩
      obtain ⟨hread, hfew₁, rfl⟩ := (readLine_ok hfew).1 hline
      grind
    · rintro ⟨⟨hread, hreads⟩, hfew₂, rfl⟩
      have hfew₁ : (batch.payloads ++ (payloadOf loads line).toList).length ≤ maximum := by
        rw [List.length_append] at hfew₂
        omega
      exact ⟨_, (readLine_ok hfew).2 ⟨hread, hfew₁, rfl⟩, (ih hfew₁).2 ⟨hreads, hfew₂, rfl⟩⟩

/-! ### Lines by line feeds -/

def pieces (line : List Char) : List (List Char) := splitlines (line ++ ['\n'])

theorem filterMap_blank (h : ∀ line ∈ lines, Blank pySpace line) :
    lines.filterMap (payloadOf loads) = [] := by grind [List.filterMap_eq_nil_iff, payloadOf_blank]

theorem filter_blank (h : (lines.filter fun line => ¬ Blank pySpace line) = []) :
    ∀ line ∈ lines, Blank pySpace line := by simp_all

theorem pieces_one (h : (parts pySpace line).length ≤ 1) :
    (Blank pySpace line ∧ ∀ x ∈ pieces line, Blank pySpace x) ∨
    ∃ before part after, pieces line = before ++ part :: after ∧
      (∀ x ∈ before, Blank pySpace x) ∧ (∀ x ∈ after, Blank pySpace x) ∧
      ¬ Blank pySpace part ∧ pyStrip part = pyStrip line := by
  have hparts : ((pieces line).filter fun x => ¬ Blank pySpace x) = parts pySpace line :=
    parts_end pySpace line
  cases hcase : parts pySpace line with
  | nil => grind -ring -linarith [parts_eq_nil, isBreak_space, filter_blank]
  | cons part rest =>
    rw [hcase] at h hparts
    obtain rfl : rest = [] := List.length_eq_zero_iff.1 (by rw [List.length_cons] at h; omega)
    obtain ⟨before, after, hpieces, hbefore, hpart, hafter⟩ := List.filter_eq_cons_iff.1 hparts
    obtain ⟨pre, post, hline, hpre, hpost⟩ := one_part isBreak_space hcase
    refine .inr ⟨before, part, after, hpieces, ?_, filter_blank hafter, of_decide_eq_true hpart, ?_⟩
    · simp_all
    · rw [hline, pyStrip_spaces hpre hpost]

theorem pieces_payload (h : (parts pySpace line).length ≤ 1) :
    (pieces line).filterMap (payloadOf loads) = (payloadOf loads line).toList := by
  rcases pieces_one h with
    ⟨hblank, hpieces⟩ | ⟨before, part, after, hpieces, hbefore, hafter, -, hstrip⟩
  · rw [filterMap_blank hpieces, payloadOf_blank hblank]
    rfl
  · rw [hpieces, List.filterMap_append, List.filterMap_cons, filterMap_blank hbefore,
      filterMap_blank hafter, payloadOf_congr hstrip]
    grind

theorem read_congr (h : pyStrip x = pyStrip y) : Read loads x ↔ Read loads y := by
  rw [Read, h, Read]

theorem pieces_read (h : (parts pySpace line).length ≤ 1) :
    (∀ x ∈ pieces line, Read loads x) ↔ Read loads line := by
  have hblank : ∀ {x}, Blank pySpace x → Read loads x := fun h => .inl (pyStrip_eq_nil.2 h)
  rcases pieces_one h with
    ⟨hline, hpieces⟩ | ⟨before, part, after, hpieces, hbefore, hafter, -, hstrip⟩
  · simp_all
  · rw [hpieces, List.forall_mem_append, List.forall_mem_cons, read_congr hstrip]
    simp_all

theorem head_pieces (h : ¬ Blank pySpace line) : (splitlines line).head? = (pieces line).head? := by
  cases line with
  | nil => exact absurd (List.forall_mem_nil _) h
  | cons c cs =>
    rcases splitlines_end (c :: cs) with hend | hend
    · rw [pieces, hend]
    · rw [pieces, hend]
      cases hlines : splitlines (c :: cs) with
      | nil => exact absurd hlines (splitlines_ne_nil c cs)
      | cons first lines => rfl

theorem errorsFrom_line {rest : List (List Char)} (hnm : n ≤ m)
    (h : (parts pySpace line).length ≤ 1) :
    errorsFrom loads m (pieces line ++ rest) = errorsFrom loads n (line :: lines) ↔
      ((errorOf loads line).isSome → m = n ∧
        ∀ first ∈ (splitlines line).head?, ¬ Blank pySpace first) ∧
      errorsFrom loads (m + (pieces line).length) rest = errorsFrom loads (n + 1) lines := by
  rw [errorsFrom_append, errorsFrom]
  rcases pieces_one h with
    ⟨hblank, hpieces⟩ | ⟨before, part, after, hpieces, hbefore, hafter, hpart, hstrip⟩
  · simp_all [errorsFrom_blank, errorOf_blank]
  · have hline : ¬ Blank pySpace line := by
      rw [← pyStrip_eq_nil, ← hstrip, pyStrip_eq_nil]
      exact hpart
    have hfirst : (∀ first ∈ (splitlines line).head?, ¬ Blank pySpace first) ↔ before = [] := by
      rw [head_pieces hline, hpieces]
      cases before with
      | nil => simp_all
      | cons x before => simp_all
    have herrors : errorsFrom loads m (pieces line) =
        ((errorOf loads line).map fun text => ⟨m + before.length, text⟩).toList := by
      rw [hpieces, errorsFrom_append, errorsFrom_blank m hbefore, errorsFrom,
        errorsFrom_blank _ hafter, errorOf_congr hstrip, List.nil_append, List.append_nil]
    rw [herrors, hfirst]
    cases errorOf loads line with
    | none => simp
    | some text =>
      constructor
      · intro heq
        obtain ⟨herror, hrest⟩ := List.cons.inj heq
        have hnumber : m + before.length = n := congrArg ParseError.line herror
        grind -ring -linarith [List.length_eq_zero_iff]
      · simp_all

/-- The errors are numbered by lines if each line that does not parse stands first, after lines
    that are one. -/
theorem errorsFrom_pieces (hnm : n ≤ m) (hparts : ∀ line ∈ lines, (parts pySpace line).length ≤ 1) :
    errorsFrom loads m (lines.flatMap pieces) = errorsFrom loads n lines ↔
      ∀ i line, lines[i]? = some line → (errorOf loads line).isSome →
        m = n ∧ (∀ line' ∈ lines.take i, (pieces line').length = 1) ∧
        ∀ first ∈ (splitlines line).head?, ¬ Blank pySpace first := by
  induction lines generalizing n m with
  | nil => exact ⟨fun _ _ _ h => (by cases h), fun _ => rfl⟩
  | cons line lines ih =>
    obtain ⟨hline, hlines⟩ := List.forall_mem_cons.1 hparts
    have hpos : 1 ≤ (pieces line).length := by
      have hne : pieces line ≠ [] := by
        cases line with
        | nil => exact splitlines_ne_nil _ _
        | cons c cs => exact splitlines_ne_nil _ _
      exact List.length_pos_iff.2 hne
    rw [List.flatMap_cons, errorsFrom_line hnm hline, ih (by omega) hlines]
    constructor
    · rintro ⟨hfirst, hrest⟩ i line' hi hfails
      cases i with
      | zero => grind -ring -linarith
      | succ i =>
        obtain ⟨hnumber, hone, hleads⟩ := hrest i line' hi hfails
        exact ⟨by omega, List.forall_mem_cons.2 ⟨by omega, hone⟩, hleads⟩
    · intro h
      refine ⟨fun hfails => ?_, fun i line' hi hfails => ?_⟩
      · obtain ⟨hnumber, -, hleads⟩ := h 0 line rfl hfails
        exact ⟨hnumber, hleads⟩
      · obtain ⟨hnumber, hone, hleads⟩ := h (i + 1) line' hi hfails
        obtain ⟨hfirst, hone⟩ := List.forall_mem_cons.1 hone
        exact ⟨by omega, hone, hleads⟩

theorem count_read (n : ℕ) (h : ∀ line ∈ lines, Read loads line) :
    (lines.filterMap (payloadOf loads)).length + (errorsFrom loads n lines).length =
      lines.countP fun line => ¬ Blank pySpace line := by
  induction lines generalizing n with
  | nil => rfl
  | cons line lines ih =>
    obtain ⟨hline, hlines⟩ := List.forall_mem_cons.1 h
    have hone : (payloadOf loads line).toList.length + (errorOf loads line).toList.length =
        if Blank pySpace line then 0 else 1 := by
      rw [payloadOf, errorOf]
      by_cases hblank : pyStrip line = []
      · rw [if_pos hblank, if_pos hblank, if_pos (pyStrip_eq_nil.1 hblank)]
        rfl
      · rw [if_neg hblank, if_neg hblank, if_neg (mt pyStrip_eq_nil.2 hblank)]
        cases hloads : loads (pyStrip line) with
        | ok parsed => rfl
        | error e =>
          cases e with
          | decode text => rfl
          | other text => exact absurd hloads (hline.resolve_left hblank text)
    have hlist : ((line :: lines).filterMap (payloadOf loads)).length =
        (payloadOf loads line).toList.length + (lines.filterMap (payloadOf loads)).length := by
      rw [List.filterMap_cons]
      cases payloadOf loads line with
      | none => exact (Nat.zero_add _).symm
      | some v => exact Nat.add_comm _ 1
    have herrors : (errorsFrom loads n (line :: lines)).length =
        (errorOf loads line).toList.length + (errorsFrom loads (n + 1) lines).length := by
      rw [errorsFrom, List.length_append]
      cases errorOf loads line with
      | none => rfl
      | some text => rfl
    have hih := ih (n + 1) hlines
    rw [List.countP_cons, hlist, herrors]
    by_cases hblank : Blank pySpace line
    · rw [if_pos hblank] at hone
      rw [if_neg (by simpa using hblank)]
      omega
    · rw [if_neg hblank] at hone
      rw [if_pos (by simpa using hblank)]
      omega

theorem parts_of_count :
    (lines.countP fun line => ¬ Blank pySpace line) ≤
        ((lines.flatMap pieces).countP fun line => ¬ Blank pySpace line) ∧
      (((lines.flatMap pieces).countP fun line => ¬ Blank pySpace line) ≤
        (lines.countP fun line => ¬ Blank pySpace line) →
        ∀ line ∈ lines, (parts pySpace line).length ≤ 1) := by
  induction lines with
  | nil => exact ⟨Nat.le_refl 0, fun _ => List.forall_mem_nil _⟩
  | cons line lines ih =>
    obtain ⟨hle, hparts⟩ := ih
    have hline :
        ((pieces line).countP fun x => ¬ Blank pySpace x) = (parts pySpace line).length := by
      rw [← parts_end, List.countP_eq_length_filter]
      rfl
    have hone : (if Blank pySpace line then 0 else 1) ≤ (parts pySpace line).length := by
      split
      · exact Nat.zero_le _
      · rename_i hblank
        exact List.length_pos_iff.2 (mt (parts_eq_nil isBreak_space).1 hblank)
    rw [List.flatMap_cons, List.countP_append, List.countP_cons, hline, List.forall_mem_cons]
    by_cases hblank : Blank pySpace line
    · rw [if_pos hblank] at hone
      rw [if_neg (by simpa using hblank)]
      exact ⟨by omega, fun h => ⟨by omega, hparts (by omega)⟩⟩
    · rw [if_neg hblank] at hone
      rw [if_pos (by simpa using hblank)]
      exact ⟨by omega, fun h => ⟨by omega, hparts (by omega)⟩⟩

theorem pieces_body (body : List Char) : ∃ blank : List (List Char),
    (∀ x ∈ blank, Blank pySpace x) ∧
      (feedLines body).flatMap pieces = splitlines body ++ blank := by
  have hflat : (feedLines body).flatMap pieces = splitlines (body ++ ['\n']) :=
    (splitlines_flatMap body).symm
  rcases splitlines_end body with hend | hend
  · simp_all
  · exact ⟨[[]], List.forall_mem_singleton.2 (List.forall_mem_nil _), by rw [hflat, hend]⟩

theorem batchDecideJsonl_ok {body : List Char} :
    batchDecideJsonl loads maximum body = .ok batch ↔
      (∀ x ∈ (feedLines body).flatMap pieces, Read loads x) ∧
      (((feedLines body).flatMap pieces).filterMap (payloadOf loads)).length ≤ maximum ∧
      batch = ⟨((feedLines body).flatMap pieces).filterMap (payloadOf loads),
        errorsFrom loads 1 ((feedLines body).flatMap pieces)⟩ := by
  obtain ⟨blank, hblank, hpieces⟩ := pieces_body body
  have hread : ∀ x ∈ blank, Read loads x := fun x hx => .inl (pyStrip_eq_nil.2 (hblank x hx))
  rw [batchDecideJsonl, readLines_ok (Nat.zero_le maximum), hpieces, List.filterMap_append,
    filterMap_blank hblank, errorsFrom_append, errorsFrom_blank _ hblank, List.forall_mem_append,
    List.append_nil, List.append_nil, List.nil_append, List.nil_append]
  simp_all

theorem flatMap_payload (h : ∀ line ∈ lines, (parts pySpace line).length ≤ 1) :
    (lines.flatMap pieces).filterMap (payloadOf loads) = lines.filterMap (payloadOf loads) := by
  induction lines with
  | nil => rfl
  | cons line lines ih =>
    obtain ⟨hline, hlines⟩ := List.forall_mem_cons.1 h
    grind [pieces_payload]

/-- **A body is framed by its lines** if and only if none is broken and no limit is hit. -/
theorem framed_iff (body : List Char) :
    Framed loads maximum body ↔ Unbroken loads maximum body := by
  constructor
  · rintro ⟨hread, hresult⟩
    obtain ⟨hpieces, hfew, hbatch⟩ := batchDecideJsonl_ok.1 hresult
    have hpayloads : (feedLines body).filterMap (payloadOf loads) =
        ((feedLines body).flatMap pieces).filterMap (payloadOf loads) :=
      congrArg Batch.payloads hbatch
    have herrors : errorsFrom loads 1 (feedLines body) =
        errorsFrom loads 1 ((feedLines body).flatMap pieces) :=
      congrArg Batch.parseErrors hbatch
    have hcount := count_read 1 hpieces
    rw [← hpayloads, ← herrors, count_read 1 hread] at hcount
    have hparts := parts_of_count.2 hcount.symm.le
    refine ⟨hparts, fun i line hi hfails => ?_, hread, by rw [hpayloads]; exact hfew⟩
    exact ((errorsFrom_pieces (Nat.le_refl 1) hparts).1 herrors.symm i line hi hfails).2
  · rintro ⟨hparts, hnumbers, hread, hfew⟩
    refine ⟨hread, batchDecideJsonl_ok.2 ⟨fun x hx => ?_, ?_, ?_⟩⟩
    · grind [pieces_read]
    · rw [flatMap_payload hparts]
      exact hfew
    · have herrors := (errorsFrom_pieces (Nat.le_refl 1) hparts).2 fun i line hi hfails =>
        ⟨rfl, hnumbers i line hi hfails⟩
      rw [flatMap_payload hparts, herrors]

theorem feedLines_join (h : ∀ line ∈ lines, '\n' ∉ line)
    (hne : lines ≠ []) : feedLines (['\n'].intercalate lines) = lines :=
  List.splitOn_intercalate '\n' h hne

theorem payloads_serialised
    (h : List.Forall₂ (Serialised loads) values lines) (hread : ∀ line ∈ lines, Read loads line) :
    lines.filterMap (payloadOf loads) = values.map payload ∧
      ∀ line ∈ lines, errorOf loads line = none := by
  induction h with
  | nil => exact ⟨rfl, List.forall_mem_nil _⟩
  | @cons v line values lines hline _ ih =>
    obtain ⟨hfirst, hlines⟩ := List.forall_mem_cons.1 hread
    obtain ⟨hvalues, herrors⟩ := ih hlines
    have hloads : loads (pyStrip line) = .ok v := by
      rcases hline.reads with hloads | ⟨text, hother⟩
      · exact hloads
      · exact absurd hother (hfirst.resolve_left hline.solid text)
    have hpayload : payloadOf loads line = some (payload v) := by
      rw [payloadOf, if_neg hline.solid, hloads]
    have herror : errorOf loads line = none := by rw [errorOf, if_neg hline.solid, hloads]
    exact ⟨by rw [List.filterMap_cons, hpayload, List.map_cons, hvalues],
      List.forall_mem_cons.2 ⟨herror, herrors⟩⟩

theorem solid_of_serialised (h : List.Forall₂ (Serialised loads) values lines) :
    ∀ line ∈ lines, '\n' ∉ line ∧ ¬ Blank pySpace line := by
  induction h with
  | nil => exact List.forall_mem_nil _
  | cons hline _ ih =>
    exact List.forall_mem_cons.2 ⟨⟨hline.oneLine, mt pyStrip_eq_nil.2 hline.solid⟩, ih⟩

/-- **Values one a line** are the payloads if and only if no line is broken and no limit is hit. -/
theorem serialised_iff (h : List.Forall₂ (Serialised loads) values lines) :
    batchDecideJsonl loads maximum (['\n'].intercalate lines) = .ok ⟨values.map payload, []⟩ ↔
      (∀ line ∈ lines, (parts pySpace line).length ≤ 1) ∧ (∀ line ∈ lines, Read loads line) ∧
      values.length ≤ maximum := by
  by_cases hnil : lines = []
  · subst hnil
    cases h
    exact ⟨fun _ => ⟨List.forall_mem_nil _, List.forall_mem_nil _, Nat.zero_le _⟩, fun _ => rfl⟩
  have hserialised := solid_of_serialised h
  have hfeed := feedLines_join (fun line hline => (hserialised line hline).1) hnil
  constructor
  · intro hresult
    obtain ⟨hpieces, hfew, hbatch⟩ := batchDecideJsonl_ok.1 hresult
    rw [hfeed] at hpieces hfew hbatch
    have hpayloads : values.map payload =
        (lines.flatMap pieces).filterMap (payloadOf loads) := congrArg Batch.payloads hbatch
    have herrors : [] = errorsFrom loads 1 (lines.flatMap pieces) :=
      congrArg Batch.parseErrors hbatch
    have hall : (lines.countP fun line => ¬ Blank pySpace line) = lines.length :=
      List.countP_eq_length.2 fun line hline => decide_eq_true (hserialised line hline).2
    have hcount := count_read 1 hpieces
    rw [← hpayloads, ← herrors, List.length_map, List.length_nil, h.length_eq, Nat.add_zero]
      at hcount
    have hparts := parts_of_count.2 (by rw [hall, hcount])
    refine ⟨hparts, fun line hline => ?_, ?_⟩
    · exact (pieces_read (hparts line hline)).1 fun x hx =>
        hpieces x (List.mem_flatMap.2 ⟨line, hline, hx⟩)
    · rw [← hpayloads, List.length_map] at hfew
      exact hfew
  · rintro ⟨hparts, hread, hfew⟩
    obtain ⟨hpayloads, herrors⟩ := payloads_serialised h hread
    have hunbroken : Unbroken loads maximum (['\n'].intercalate lines) := by
      constructor
      · rw [hfeed]
        exact hparts
      · grind
      · rw [hfeed]
        exact hread
      · rw [hfeed, hpayloads, List.length_map]
        exact hfew
    have hresult := ((framed_iff _).2 hunbroken).2
    simp_all [errorsFrom_none]

end Lines

/-- **JSON lines are framed** as their line feeds have them if and only if `str.splitlines` breaks
    none elsewhere and no limit is hit: any body, and the values of any list one a line. -/
theorem jsonl_framed_iff (loads : List Char → Except LoadError Value) (maximum : ℕ) :
    (∀ body, Framed loads maximum body ↔ Unbroken loads maximum body) ∧
    ∀ values lines, List.Forall₂ (Serialised loads) values lines →
      (batchDecideJsonl loads maximum (['\n'].intercalate lines) =
        .ok ⟨values.map payload, []⟩ ↔
        (∀ line ∈ lines, (parts pySpace line).length ≤ 1) ∧
        (∀ line ∈ lines, Read loads line) ∧ values.length ≤ maximum) :=
  ⟨framed_iff, fun _ _ => serialised_iff⟩

/-- What `json.loads` makes of a string with a line separator, a number, and of nothing else. -/
def loadsSome (text : List Char) : Except LoadError Value :=
  if text = "\"a\u2028b\"".toList then .ok (.str "a\u2028b")
  else if text = "7".toList then .ok (.int 7)
  else .error (.decode "Expecting value: line 1 column 1 (char 0)")

theorem seven_framed : batchDecideJsonl loadsSome 50000 (['\n'].intercalate ["7".toList]) =
    .ok ⟨[.dict [("_value", .int 7)]], []⟩ := by
  have hlines : List.Forall₂ (Serialised loadsSome) [.int 7] ["7".toList] :=
    .cons ⟨by decide, by decide, .inl rfl⟩ .nil
  exact ((jsonl_framed_iff loadsSome 50000).2 _ _ hlines).2
    ⟨by decide, List.forall_mem_singleton.2 (.inr fun text h => by cases h), by decide⟩

/-- **A line separator in a string** makes two errors of a payload. -/
theorem separator_splits :
    List.Forall₂ (Serialised loadsSome) [.str "a\u2028b"] ["\"a\u2028b\"".toList] ∧
    batchDecideJsonl loadsSome 50000 (['\n'].intercalate ["\"a\u2028b\"".toList]) ≠
      .ok ⟨[.dict [("_value", .str "a\u2028b")]], []⟩ := by
  refine ⟨.cons ⟨by decide, by decide, .inl rfl⟩ .nil, fun h => ?_⟩
  have hresult : batchDecideJsonl loadsSome 50000
      (['\n'].intercalate ["\"a\u2028b\"".toList]) =
      .ok ⟨[], [⟨1, "Expecting value: line 1 column 1 (char 0)"⟩,
        ⟨2, "Expecting value: line 1 column 1 (char 0)"⟩]⟩ := rfl
  rw [hresult] at h
  cases h

end RuleMind.BatchLines
