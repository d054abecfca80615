/-
  `apply_response_mapping` of `app/connector_fetch.py`: each mapped field is read out of a
  response body by a path that may be spelled with or without its roots `$.` and `body.`.
-/
import RuleMind.Connectors
import RuleMind.JsonPath

namespace RuleMind.JsonPath

variable {σ ω : Type} (py : Interpreter σ ω) (typeName : Data σ → String)

/-- `view` -/
def view (body : Data σ) : Data σ := .dict [("body", body), ("response", body)]

def isNone [DecidableEq σ] : Thing σ ω → Bool
  | .data (.scalar s) => s = py.null
  | _ => false

def bodyRoot : List Char := ['b', 'o', 'd', 'y']
def responseRoot : List Char := ['r', 'e', 's', 'p', 'o', 'n', 's', 'e']

/-- The path under its root, as the loop over the mapping completes it. -/
def expressionOf (path : List Char) : List Char :=
  let expression := pyStrip path
  let expression :=
    if ['$', '.'] <+: expression then expression
    else ['$', '.'] ++ expression.dropWhile (· = '.')
  if ['$', '.'] ++ bodyRoot <+: expression ∨ ['$', '.'] ++ responseRoot <+: expression then
    expression
  else ['$', '.'] ++ bodyRoot ++ ['.'] ++ expression.drop 2

def readField (body : Data σ) (entry : String × Option String) :
    Except Connectors.Misconfigured (String × Thing σ ω) :=
  match entry.2.filter fun path => pyStrip path.toList ≠ [] with
  | some path => .ok (entry.1, resolveJsonpath py (expressionOf path.toList) (view body))
  | none => .error ⟨"malformed_response_mapping",
      "response_mapping['" ++ entry.1 ++ "'] must be a JSONPath string."⟩

def noFieldFound (fields : ℕ) : Connectors.Misconfigured :=
  ⟨"response_did_not_match_mapping",
    "None of the " ++ toString fields ++ " mapped field(s) were found in the response."⟩

/-- `apply_response_mapping` on the parsed mapping (`none` for a value that is no text) and the
parsed body. -/
def applyResponseMapping [DecidableEq σ] (mapping : List (String × Option String))
    (body : Data σ) :
    Except Connectors.Misconfigured (List (String × Thing σ ω)) :=
  if mapping.isEmpty then
    match body with
    | .dict [] => .error ⟨"empty_response_body",
        "Response was an empty JSON object, so the source has no data. If the partner signals " ++
        "'no record' this way, map it explicitly with a response_mapping."⟩
    | .dict kvs => .ok (kvs.map fun e => (e.1, .data e.2))
    | body => .error ⟨"unmapped_response_not_an_object",
        "Response is a " ++ typeName body ++ ", not a JSON object, and no response_mapping was " ++
        "configured to reshape it."⟩
  else do
    let payload ← mapping.mapM (readField py body)
    if payload.all fun e => isNone py e.2 then .error (noFieldFound payload.length) else .ok payload

/-! ### Spelled paths -/

def WellFormed : Segment → Prop
  | .key k => k ≠ [] ∧ ∀ c ∈ k, c ∉ ['.', '[', ']']
  | .index text => ∀ c ∈ text, c ∉ ['[', ']']

def renderTail : List Segment → List Char
  | [] => []
  | .key k :: rest => '.' :: (k ++ renderTail rest)
  | .index text :: rest => '[' :: (text ++ ']' :: renderTail rest)

/-- The steps as a path writes them: a dot before each key but the first. -/
def render : List Segment → List Char
  | .key k :: rest => k ++ renderTail rest
  | segments => renderTail segments

/-- The accepted forms `p`, `body.p`, `$.p` and `$.body.p`. -/
inductive Form
  | bare
  | body
  | root
  | rootBody
  deriving DecidableEq

def Form.lead : Form → List Char
  | .bare => []
  | .body => bodyRoot ++ ['.']
  | .root => ['$', '.']
  | .rootBody => ['$', '.'] ++ bodyRoot ++ ['.']

/-- A field of the mapping with a path that spells `segments`; a text that starts with `$.` is no
bare form. -/
structure Spelling where
  field : String
  path : String
  form : Form
  segments : List Segment
  nonempty : segments ≠ []
  wellFormed : ∀ s ∈ segments, WellFormed s
  head : .key bodyRoot ∉ segments.head? ∧ .key responseRoot ∉ segments.head?
  bare : form = .bare → ¬ ['$', '.'] <+: render segments
  spells : pyStrip path.toList = form.lead ++ render segments

variable (m : Spelling) (body : Data σ)

/-- The value at the path, `null` where there is none. -/
def Spelling.value : Thing σ ω := .data ((valueAt py body m.segments).getD py.none)

/-- What the claim promises: the value of each field, or the error where none is found. -/
def answer [DecidableEq σ] (mapping : List Spelling) (value : Spelling → Thing σ ω) :
    Except Connectors.Misconfigured (List (String × Thing σ ω)) :=
  if mapping.all fun m => isNone py (value m) then .error (noFieldFound mapping.length)
  else .ok (mapping.map fun m => (m.field, value m))

/-- The path is taken for one that already names its root. -/
def Spelling.shadowed : Bool :=
  (m.form = .bare ∨ m.form = .root) ∧
    (bodyRoot <+: render m.segments ∨ responseRoot <+: render m.segments)

/-- The keys that are not read off an object come to nothing; a path taken for a rooted one starts
at `None`, and Python's attributes of `None` happen to give the value. -/
def Spelling.Clear : Prop :=
  if m.shadowed then
    (walk py (.data py.none) m.segments.tail).getD (.data py.none) = m.value py body
  else Confined py body m.segments

/-! ### A spelled path is read back -/

theorem spelled_key {k : List Char} (hk : ∀ c ∈ k, c ∉ ['.', '[', ']']) (cs : List Char) :
    ∀ token, spelled token (k ++ cs) = spelled (token ++ k) cs := by
  induction k with
  | nil => simp
  | cons c k ih =>
    intro token
    obtain ⟨hc, hk⟩ := List.forall_mem_cons.1 hk
    simp only [List.mem_cons, not_or] at hc
    simp [spelled, hc, ih hk]

theorem spelledIndex_text {t : List Char} (ht : ∀ c ∈ t, c ∉ ['[', ']']) (cs : List Char) :
    ∀ text, spelledIndex text (t ++ ']' :: cs) = (spelled [] cs).map (.index (text ++ t) :: ·) := by
  induction t with
  | nil => simp [spelledIndex]
  | cons c t ih =>
    intro text
    obtain ⟨hc, ht⟩ := List.forall_mem_cons.1 ht
    simp only [List.mem_cons, not_or] at hc
    simp [spelledIndex, hc, ih ht]

theorem spelled_renderTail : ∀ (segments : List Segment), (∀ s ∈ segments, WellFormed s) →
    ∀ token, spelled token (renderTail segments) = some (keySegment token ++ segments)
  | [], _, token => by simp [renderTail, spelled]
  | .key k :: rest, h, token => by
    obtain ⟨⟨hne, hk⟩, hrest⟩ := List.forall_mem_cons.1 h
    simp [renderTail, spelled, spelled_key hk, spelled_renderTail rest hrest, keySegment, hne]
  | .index text :: rest, h, token => by
    obtain ⟨ht, hrest⟩ := List.forall_mem_cons.1 h
    simp [renderTail, spelled, spelledIndex_text ht, spelled_renderTail rest hrest, keySegment]

theorem spelled_render (segments : List Segment) (h : ∀ s ∈ segments, WellFormed s) :
    spelled [] (render segments) = some segments := by
  unfold render
  split
  · next k rest =>
    obtain ⟨⟨hne, hk⟩, hrest⟩ := List.forall_mem_cons.1 h
    simp [spelled_key hk, spelled_renderTail rest hrest, keySegment, hne]
  · simp [spelled_renderTail _ h, keySegment]

theorem spelled_body (cs : List Char) :
    spelled [] (bodyRoot ++ '.' :: cs) = (spelled [] cs).map (.key bodyRoot :: ·) := by
  rw [spelled_key (by simp [bodyRoot])]
  simp [spelled, keySegment, bodyRoot]

theorem render_head : ∃ c cs, render m.segments = c :: cs ∧ c ≠ '.' := by
  cases h : m.segments with
  | nil => exact absurd h m.nonempty
  | cons s rest =>
    have hs := m.wellFormed s (h ▸ List.mem_cons_self)
    cases s with
    | index text => exact ⟨_, _, rfl, by decide⟩
    | key k =>
      obtain ⟨hne, hk⟩ := hs
      cases k with
      | nil => exact absurd rfl hne
      | cons c k => exact ⟨c, _, rfl, fun hc => hk c List.mem_cons_self (by simp [hc])⟩

/-- The four forms end in two expressions. -/
theorem expression_eq : expressionOf m.path.toList =
    if m.shadowed then ['$', '.'] ++ render m.segments
    else ['$', '.'] ++ (bodyRoot ++ '.' :: render m.segments) := by
  obtain ⟨c, cs, hr, hc⟩ := render_head m
  have hbare := m.bare
  rw [expressionOf, m.spells]
  cases hf : m.form with
  | bare =>
    have hdrop : (render m.segments).dropWhile (· = '.') = render m.segments := by simp [hr, hc]
    simp [Spelling.shadowed, hf, Form.lead, hbare hf, hdrop, List.cons_prefix_cons]
  | root => simp [Spelling.shadowed, hf, Form.lead, List.cons_prefix_cons]
  | body => simp [Spelling.shadowed, hf, Form.lead, bodyRoot, List.cons_prefix_cons]
  | rootBody => simp [Spelling.shadowed, hf, Form.lead, bodyRoot, List.cons_prefix_cons]

/-! ### What a mapped field reads -/

theorem shadowed_key (h : m.shadowed) : ∃ k rest, m.segments = .key k :: rest := by
  cases hs : m.segments with
  | nil => exact absurd hs m.nonempty
  | cons s rest =>
    cases s with
    | key k => exact ⟨k, rest, rfl⟩
    | index text => simp [Spelling.shadowed, hs, render, renderTail, bodyRoot, responseRoot] at h

theorem readField_eq : readField py body (m.field, some m.path) =
    .ok (m.field, resolveJsonpath py (expressionOf m.path.toList) (view body)) := by
  obtain ⟨c, cs, hr, -⟩ := render_head m
  have h : pyStrip m.path.toList ≠ [] := by simp [m.spells, hr]
  simp [readField, Option.filter, h]

theorem field_iff : resolveJsonpath py (expressionOf m.path.toList) (view body) = m.value py body ↔
    m.Clear py body := by
  rw [resolve_eq, expression_eq, Spelling.Clear]
  split
  · next hs =>
    obtain ⟨k, rest, hm⟩ := shadowed_key m hs
    have hk : k ≠ bodyRoot ∧ k ≠ responseRoot := by simpa [hm] using m.head
    have hb : String.ofList k ≠ "body" := fun h => hk.1 (String.ofList_injective h)
    have hr : String.ofList k ≠ "response" := fun h => hk.2 (String.ofList_injective h)
    rw [List.cons_append, List.cons_append, List.nil_append, position,
      spelled_render _ m.wellFormed, hm]
    simp [readStep, resolveAttr, view, List.lookup_cons, beq_eq_false_iff_ne.2 hb,
      beq_eq_false_iff_ne.2 hr]
  · rw [List.cons_append, List.cons_append, List.nil_append, position, spelled_body,
      spelled_render _ m.wellFormed]
    have h := walk_iff py (.key bodyRoot :: m.segments) (view body)
    simpa [view, bodyRoot, valueAt, Confined, Spelling.value] using h

theorem answer_iff [DecidableEq σ] (mapping : List Spelling) (f g : Spelling → Thing σ ω) :
    answer py mapping f = answer py mapping g ↔ ∀ m ∈ mapping, f m = g m := by
  constructor
  · intro h m hm
    unfold answer at h
    split at h <;> split at h
    · next hf hg =>
      have none_eq : ∀ t : Thing σ ω, isNone py t → t = .data py.none := by
        intro t ht
        unfold isNone at ht
        split at ht
        · exact congrArg (fun s => Thing.data (.scalar s)) (of_decide_eq_true ht)
        · cases ht
      rw [none_eq _ (List.all_eq_true.1 hf m hm), none_eq _ (List.all_eq_true.1 hg m hm)]
    · cases h
    · cases h
    · have := List.map_inj_left.1 (Except.ok.inj h) m hm
      exact (Prod.mk.inj this).2
  · intro h
    have hall : (mapping.all fun m => isNone py (f m)) = mapping.all fun m => isNone py (g m) := by
      rw [Bool.eq_iff_iff, List.all_eq_true, List.all_eq_true]
      exact forall₂_congr fun m hm => by rw [h m hm]
    have hmap : (mapping.map fun m => (m.field, f m)) = mapping.map fun m => (m.field, g m) :=
      List.map_congr_left fun m hm => by rw [h m hm]
    rw [answer, answer, hall, hmap]

theorem mapM_readField (mapping : List Spelling) :
    (mapping.map fun m => (m.field, some m.path)).mapM (readField py body) = .ok (mapping.map
      fun m => (m.field, resolveJsonpath py (expressionOf m.path.toList) (view body))) := by
  induction mapping with
  | nil => rfl
  | cons m mapping ih =>
    rw [List.map_cons, List.mapM_cons, readField_eq, ih]
    rfl

/-- A mapping of spelled paths gives each field the value at its path, and raises exactly when
there is none, if and only if each of its paths is clear. -/
theorem mapping_reads_iff [DecidableEq σ] (kvs : List (String × Data σ))
    (mapping : List Spelling) (h : mapping ≠ []) : applyResponseMapping py typeName
        (mapping.map fun m => (m.field, some m.path)) (.dict kvs) =
      answer py mapping (·.value py (.dict kvs)) ↔ ∀ m ∈ mapping, m.Clear py (.dict kvs) := by
  have hrun : applyResponseMapping py typeName
      (mapping.map fun m => (m.field, some m.path)) (.dict kvs) = answer py mapping
        fun m => resolveJsonpath py (expressionOf m.path.toList) (view (.dict kvs)) := by
    unfold applyResponseMapping
    rw [if_neg (by simpa using h), mapM_readField]
    simp [answer, bind, Except.bind, Function.comp_def]
  rw [hrun, answer_iff]
  exact forall₂_congr fun m _ => field_iff py m _

/-! ### A body mass -/

def massBody : List (String × Data (Option ℤ)) :=
  [("bodyMass", .scalar (some 71)), ("n", .scalar (some 7))]

def massPath : Spelling where
  field := "mass"
  path := "bodyMass"
  form := .bare
  segments := [.key "bodyMass".toList]
  nonempty := by simp
  wellFormed := by simp [WellFormed]
  head := by decide
  bare _ := by decide
  spells := by decide

def countPath : Spelling where
  field := "n"
  path := "$.n"
  form := .root
  segments := [.key "n".toList]
  nonempty := by simp
  wellFormed := by simp [WellFormed]
  head := by decide
  bare _ := by decide
  spells := by decide

theorem mapping_reads_count : applyResponseMapping wholeNumbers (fun _ => "dict")
    [("n", some "$.n")] (.dict massBody) = .ok [("n", .data (.scalar (some 7)))] :=
  (mapping_reads_iff wholeNumbers (fun _ => "dict") massBody [countPath] (by simp)).2
    fun m hm => by
      rw [List.mem_singleton.1 hm, Spelling.Clear, if_neg (by decide)]
      trivial

/-- The body holds the mass that the path names, and the mapping is refused. -/
theorem body_prefix_misread :
    massPath.value wholeNumbers (.dict massBody) = (.data (.scalar (some 71)) : Thing _ String) ∧
    applyResponseMapping wholeNumbers (fun _ => "dict") [("mass", some "bodyMass")]
      (.dict massBody) = .error (noFieldFound 1) :=
  ⟨rfl, rfl⟩

/-! ### Every place has a path -/

theorem walk_valueAt {v : Data σ} : ∀ (segments : List Segment) {context : Data σ},
    valueAt py context segments = some v →
    walk py (.data context : Thing σ ω) segments = some (.data v)
  | [], context, h => by
    cases h
    rfl
  | .key k :: rest, context, h => by
    cases context with
    | dict kvs =>
      obtain ⟨w, hw, hrest⟩ := Option.bind_eq_some_iff.1 h
      simpa [readStep, resolveAttr, hw] using walk_valueAt rest hrest
    | scalar s => cases h
    | list vs => cases h
  | .index text :: rest, context, h => by
    cases context with
    | list vs =>
      obtain ⟨w, hw, hrest⟩ := Option.bind_eq_some_iff.1 h
      simpa [readStep, readIndex, hw] using walk_valueAt rest hrest
    | scalar s => cases h
    | dict kvs => cases h

end RuleMind.JsonPath
