/-
  The audit hash chain (`app/audit_chain.py`).

  The digest (SHA-256) is a parameter.
-/
import RuleMind.Lib.JsonText
import Mathlib.Data.List.Chain

namespace RuleMind.Audit

open Lib (Json)

/-! ### Rows -/

/-- The fields of `CHAINED_FIELDS`. -/
structure Content where
  id : Option String
  tenantId : Option String
  eventType : Option String
  entityType : Option String
  entityId : Option String
  detail : Option String
  metadata : Json
  userId : Option String
  ipAddress : Option String
  createdAt : Option String
  seq : Option Int
  prevHash : Option String

/-- An event as `_audit_event_to_dict` hands it to the walk. -/
structure Row extends Content where
  hash : Option String
  metadataUndecryptable : Bool

def GENESIS_HASH : String := String.ofList (List.replicate 64 '0')

def textOrNull : Option String → Json
  | none => .scalar .null
  | some s => .str s

def intOrNull : Option Int → Json
  | none => .scalar .null
  | some n => .scalar (.int n)

def CHAINED_FIELDS : List String :=
  ["id", "tenant_id", "event_type", "entity_type", "entity_id", "detail", "metadata", "user_id",
    "ip_address", "created_at", "seq", "prev_hash"]

/-- `{key: event.get(key) for key in CHAINED_FIELDS}`. -/
def Content.subset (c : Content) : List (String × Json) :=
  [("id", textOrNull c.id), ("tenant_id", textOrNull c.tenantId),
    ("event_type", textOrNull c.eventType), ("entity_type", textOrNull c.entityType),
    ("entity_id", textOrNull c.entityId), ("detail", textOrNull c.detail),
    ("metadata", c.metadata), ("user_id", textOrNull c.userId),
    ("ip_address", textOrNull c.ipAddress), ("created_at", textOrNull c.createdAt),
    ("seq", intOrNull c.seq), ("prev_hash", textOrNull c.prevHash)]

def canonicalPayload (c : Content) : String := Json.dumps (.obj c.subset)

/-- Equal chained fields, up to the order of keys in the metadata. -/
def Content.Same (a b : Content) : Prop :=
  { a with metadata := a.metadata.norm } = { b with metadata := b.metadata.norm }

theorem subset_keys (c : Content) : c.subset.map Prod.fst = CHAINED_FIELDS := rfl

theorem norm_textOrNull (o : Option String) : (textOrNull o).norm = textOrNull o := by
  cases o <;> rfl

theorem norm_intOrNull (o : Option Int) : (intOrNull o).norm = intOrNull o := by
  cases o <;> rfl

theorem textOrNull_inj {o p : Option String} : textOrNull o = textOrNull p ↔ o = p := by
  cases o <;> cases p <;> simp [textOrNull]

theorem intOrNull_inj {o p : Option Int} : intOrNull o = intOrNull p ↔ o = p := by
  cases o <;> cases p <;> simp [intOrNull]

/-- **The canonical text determines the fields.** -/
theorem canonicalPayload_inj {a b : Content} :
    canonicalPayload a = canonicalPayload b ↔ a.Same b := by
  have hnorm : ∀ c : Content, Json.normFields c.subset =
      Content.subset { c with metadata := c.metadata.norm } := by
    intro c
    simp [Content.subset, Json.normFields, norm_textOrNull, norm_intOrNull]
  rw [canonicalPayload, canonicalPayload, Json.dumps_inj, Json.norm, Json.norm, hnorm, hnorm,
    Json.obj.injEq, Content.Same]
  refine ⟨fun h => ?_, fun h => by rw [h]⟩
  have hsub := Json.sortKeys_inj ((subset_keys _).trans (subset_keys _).symm)
    (subset_keys _ ▸ by decide) h
  simp only [Content.subset, List.cons.injEq, Prod.mk.injEq, true_and, and_true, textOrNull_inj,
    intOrNull_inj] at hsub
  simp_all

theorem Content.Same.prevHash {a b : Content} (h : a.Same b) : a.prevHash = b.prevHash := by
  unfold Content.Same at h
  have hprev := congrArg Content.prevHash h
  exact hprev

/-! ### The walk -/

inductive Reason
  | unchainedRowAfterChainStart
  | chainDoesNotStartAtGenesis
  | prevHashMismatch (expected found : Option String)
  | seqGap (expected : Int) (found : Option Int)
  | metadataUndecryptable
  | contentHashMismatch (expected found : String)
  deriving DecidableEq, Repr

structure Break where
  id : Option String
  seq : Option Int
  reason : Reason
  deriving DecidableEq, Repr

/-- The locals of `verify`. -/
structure Walk where
  preChain : ℕ
  verified : ℕ
  breaks : List Break
  expectedPrev : Option String
  expectedSeq : Option Int
  head : Option String
  chainStarted : Bool

def Walk.init : Walk := ⟨0, 0, [], none, none, none, false⟩

def Row.broken (r : Row) (reason : Reason) : Break := ⟨r.id, r.seq, reason⟩

/-- `event.get("hash")` where it is not falsy. -/
def Row.stored (r : Row) : Option String := r.hash.filter (· ≠ "")

section Verify
variable (digest : String → String)

def computeHash (c : Content) : String := digest (canonicalPayload c)

/-- The checks on how a chained row joins what was walked before. -/
def linkBreaks (w : Walk) (r : Row) : List Break :=
  if w.chainStarted then
    (if r.prevHash ≠ w.expectedPrev then
      [r.broken (.prevHashMismatch w.expectedPrev r.prevHash)] else []) ++
    (match w.expectedSeq with
      | some n => if r.seq ≠ some n then [r.broken (.seqGap n r.seq)] else []
      | none => [])
  else if r.prevHash ≠ some GENESIS_HASH ∧ w.preChain = 0 then
    [r.broken .chainDoesNotStartAtGenesis]
  else []

def contentBreaks (r : Row) (stored : String) : List Break :=
  if r.metadataUndecryptable then [r.broken .metadataUndecryptable]
  else if computeHash digest r.toContent ≠ stored then
    [r.broken (.contentHashMismatch (computeHash digest r.toContent) stored)]
  else []

def walk (w : Walk) (r : Row) : Walk :=
  match r.stored with
  | none =>
    if w.chainStarted then
      { w with breaks := w.breaks ++ [r.broken .unchainedRowAfterChainStart] }
    else { w with preChain := w.preChain + 1 }
  | some stored =>
    let content := contentBreaks digest r stored
    { preChain := w.preChain
      verified := if content = [] then w.verified + 1 else w.verified
      breaks := w.breaks ++ linkBreaks w r ++ content
      expectedPrev := some stored
      expectedSeq := r.seq.map (· + 1)
      head := some stored
      chainStarted := true }

structure Report where
  ok : Bool
  verified : ℕ
  preChain : ℕ
  breaks : List Break
  head : Option String

def verify (events : List Row) : Report :=
  let w := events.foldl (walk digest) Walk.init
  ⟨w.breaks.isEmpty, w.verified, w.preChain, w.breaks, w.head⟩

/-! ### What a walk without a break has checked -/

/-- A chained row whose hash is the hash of its content. -/
structure SelfConsistent (r : Row) : Prop where
  readable : r.metadataUndecryptable = false
  hash : r.stored = some (computeHash digest r.toContent)

end Verify

/-- Row `b` stands directly behind row `a` in a chain. -/
structure Follows (a b : Row) : Prop where
  prevHash : b.prevHash = a.stored
  seq : ∀ n, a.seq = some n → b.seq = some (n + 1)

/-- Rows that are consistent one by one and joined to each other. -/
structure Intact (digest : String → String) (rows : List Row) : Prop where
  consistent : ∀ r ∈ rows, SelfConsistent digest r
  joined : rows.IsChain Follows

def Row.isChained (r : Row) : Bool := r.stored.isSome

section Walks
variable {digest : String → String}

variable {r : Row}

theorem contentBreaks_eq_nil {stored : String} (hs : r.stored = some stored) :
    contentBreaks digest r stored = [] ↔ SelfConsistent digest r := by
  unfold contentBreaks
  split
  · next h => simp only [List.cons_ne_nil, false_iff]; exact fun hc => by simp [hc.readable] at h
  · next h =>
    split
    · next hne =>
      simp only [List.cons_ne_nil, false_iff]
      exact fun hc => hne (Option.some.inj (hc.hash.symm.trans hs))
    · next heq =>
      simp only [true_iff]
      exact ⟨by simpa using h, by rw [hs, not_not.1 heq]⟩

theorem linkBreaks_eq_nil {w : Walk} {a : Row} (hstart : w.chainStarted = true)
    (hprev : w.expectedPrev = a.stored) (hseq : w.expectedSeq = a.seq.map (· + 1)) :
    linkBreaks w r = [] ↔ Follows a r := by
  unfold linkBreaks
  rw [if_pos hstart, hprev, hseq, List.append_eq_nil_iff]
  refine ⟨fun ⟨h₁, h₂⟩ => ⟨?_, ?_⟩, fun h => ⟨?_, ?_⟩⟩
  · by_contra hne
    rw [if_pos hne] at h₁
    cases h₁
  · grind
  · rw [if_neg (not_not.2 h.prevHash)]
  · cases hn : a.seq with
    | none => rfl
    | some n => simp [h.seq n hn]

theorem foldl_started (rows : List Row) : ∀ (w : Walk) (a : Row), w.chainStarted = true →
    w.expectedPrev = a.stored → w.expectedSeq = a.seq.map (· + 1) →
    ((rows.foldl (walk digest) w).breaks = [] ↔
      w.breaks = [] ∧ (∀ r ∈ rows, SelfConsistent digest r) ∧ (a :: rows).IsChain Follows) := by
  induction rows with
  | nil => intro w a _ _ _; simp
  | cons r rows ih =>
    intro w a hstart hprev hseq
    rw [List.foldl_cons]
    cases hs : r.stored with
    | none =>
      have hw : walk digest w r =
          { w with breaks := w.breaks ++ [r.broken .unchainedRowAfterChainStart] } := by
        simp [walk, hs, hstart]
      rw [ih (walk digest w r) a (by rw [hw]; exact hstart) (by rw [hw]; exact hprev)
        (by rw [hw]; exact hseq), hw]
      refine ⟨fun h => by simp at h, fun h => ?_⟩
      have := (h.2.1 r List.mem_cons_self).hash
      rw [hs] at this
      cases this
    | some stored =>
      rw [ih _ r (by simp [walk, hs]) (by simp [walk, hs]) (by simp [walk, hs])]
      simp only [walk, hs, List.append_eq_nil_iff, linkBreaks_eq_nil hstart hprev hseq,
        contentBreaks_eq_nil hs, List.forall_mem_cons, List.isChain_cons_cons]
      tauto

def chained (rows : List Row) : List Row := rows.dropWhile fun r => !r.isChained

/-- A first row that is chained must anchor to `GENESIS_HASH`. -/
def Anchored (rows : List Row) : Prop :=
  ∀ r, rows.head? = some r → r.isChained = true → r.prevHash = some GENESIS_HASH

theorem chained_eq_self {rows : List Row} (hr : rows.head? = some r)
    (hc : r.isChained = true) : chained rows = rows := by
  obtain ⟨rest, rfl⟩ := List.head?_eq_some_iff.1 hr
  simp [chained, hc]

theorem foldl_leading (rows : List Row) : ∀ n : ℕ,
    ((rows.foldl (walk digest) { Walk.init with preChain := n }).breaks = [] ↔
      Intact digest (chained rows) ∧ (n = 0 → Anchored rows)) := by
  induction rows with
  | nil =>
    intro n
    simp only [List.foldl_nil, Walk.init, chained, List.dropWhile_nil, true_iff]
    exact ⟨⟨by simp, List.isChain_nil⟩, fun _ r hr => by cases hr⟩
  | cons r rows ih =>
    intro n
    rw [List.foldl_cons]
    cases hs : r.stored with
    | none =>
      have hw : walk digest { Walk.init with preChain := n } r =
          { Walk.init with preChain := n + 1 } := by
        simp [walk, hs, Walk.init]
      have hdrop : chained (r :: rows) = chained rows := by simp [chained, Row.isChained, hs]
      rw [hw, ih (n + 1), hdrop]
      refine and_congr_right fun _ => ⟨fun _ _ q hq hch => ?_, fun _ h => by cases h⟩
      simp_all [Row.isChained]
    | some stored =>
      have hdrop : chained (r :: rows) = r :: rows := by simp [chained, Row.isChained, hs]
      have hlink : linkBreaks { Walk.init with preChain := n } r = [] ↔
          (n = 0 → Anchored (r :: rows)) := by
        simp only [linkBreaks, Walk.init, Anchored, List.head?_cons, Option.some.injEq,
          forall_eq', Row.isChained, hs, Option.isSome_some, forall_const]
        by_cases hn : n = 0 <;> by_cases hg : r.prevHash = some GENESIS_HASH <;> simp [hn, hg]
      rw [foldl_started rows _ r (by simp [walk, hs]) (by simp [walk, hs]) (by simp [walk, hs]),
        hdrop, ← hlink]
      simp only [walk, hs, List.append_eq_nil_iff, contentBreaks_eq_nil hs]
      constructor
      · rintro ⟨⟨⟨-, hl⟩, hc⟩, hrest, hchain⟩
        exact ⟨⟨List.forall_mem_cons.2 ⟨hc, hrest⟩, hchain⟩, hl⟩
      · rintro ⟨⟨hall, hchain⟩, hl⟩
        obtain ⟨hc, hrest⟩ := List.forall_mem_cons.1 hall
        exact ⟨⟨⟨rfl, hl⟩, hc⟩, hrest, hchain⟩

/-- **What `ok` says.**  From the first chained row on the rows are intact; and
    that row anchors to `GENESIS_HASH`, if it is the first row of all. -/
theorem verify_ok_iff (rows : List Row) :
    (verify digest rows).ok = true ↔ Intact digest (chained rows) ∧ Anchored rows := by
  have h := @foldl_leading digest rows 0
  simp only [forall_const] at h
  rw [← h]
  exact List.isEmpty_iff

/-- The rows in front of `r`, nearest first, down to the anchor. -/
def Back (digest : String → String) : Row → List Row → Prop
  | r, [] => r.prevHash = some GENESIS_HASH
  | r, a :: rest => r.prevHash = a.stored ∧ SelfConsistent digest a ∧ Back digest a rest

theorem back_append (l : List Row) : ∀ (a r : Row) (rest : List Row), Back digest a rest →
    (∀ b ∈ a :: l, SelfConsistent digest b) →
    (a :: (l ++ [r])).IsChain (fun a b => b.prevHash = a.stored) →
    Back digest r (l.reverse ++ a :: rest) := by
  induction l with
  | nil =>
    intro a r rest ha hall hchain
    exact ⟨(List.isChain_cons_cons.1 hchain).1, hall a List.mem_cons_self, ha⟩
  | cons b l ih =>
    intro a r rest ha hall hchain
    rw [List.cons_append, List.isChain_cons_cons] at hchain
    have hb : Back digest b (a :: rest) := ⟨hchain.1, hall a List.mem_cons_self, ha⟩
    simp_all

theorem back_of_chain {l rest : List Row} (hall : ∀ b ∈ l ++ r :: rest, SelfConsistent digest b)
    (hchain : (l ++ r :: rest).IsChain fun a b => b.prevHash = a.stored)
    (ha : ∀ q, (l ++ r :: rest).head? = some q → q.prevHash = some GENESIS_HASH) :
    Back digest r l.reverse := by
  cases l with
  | nil => exact ha r rfl
  | cons a l =>
    have hpre : (a :: (l ++ [r])).IsChain fun a b => b.prevHash = a.stored := by
      rw [show a :: l ++ r :: rest = (a :: (l ++ [r])) ++ rest by simp] at hchain
      exact hchain.left_of_append
    have hback := back_append l a r [] (ha a rfl)
      (fun b hb => hall b (List.mem_append_left _ hb)) hpre
    rwa [List.reverse_cons]

/-! ### Tampering -/

/-- A chain as `add_audit_event` writes it: numbered from 1, each row with the
    hash of its content and its predecessor's hash, the first one anchored. -/
structure Honest (digest : String → String) (chain : List Row) : Prop where
  seq : ∀ (i : ℕ) r, chain[i]? = some r → r.seq = some ((i : Int) + 1)
  consistent : ∀ r ∈ chain, SelfConsistent digest r
  linked : chain.IsChain fun a b => b.prevHash = a.stored
  anchored : ∀ r, chain.head? = some r → r.prevHash = some GENESIS_HASH

/-- Row `b` is row `a`, content and stored hash. -/
def Row.Same (b a : Row) : Prop := b.hash = a.hash ∧ b.toContent.Same a.toContent

/-- `rows` still has an untouched row `r` of the chain, and in front of it a row
    of the chain is missing as it was: edited, blanked or removed. -/
def Altered (chain rows : List Row) : Prop :=
  ∃ (before : List Row) (r : Row) (after front back : List Row),
    chain = before ++ r :: after ∧ rows = front ++ r :: back ∧
    ∃ a ∈ before, ∀ b ∈ front, ¬ b.Same a

/-- No two of the rows hash alike with different canonical texts. -/
def CollisionFree (digest : String → String) (rows : List Row) : Prop :=
  ∀ a ∈ rows, ∀ b ∈ rows, computeHash digest a.toContent = computeHash digest b.toContent →
    canonicalPayload a.toContent = canonicalPayload b.toContent

theorem SelfConsistent.hash_eq (h : SelfConsistent digest r) :
    r.hash = some (computeHash digest r.toContent) := by
  have hs := h.hash
  unfold Row.stored at hs
  exact (Option.filter_eq_some_iff.1 hs).1

/-- Two rows that name the same predecessor have the same rows behind them, all
    the way to the anchor. -/
theorem back_same (ys : List Row) : ∀ (xs : List Row) (r q : Row), r.prevHash = q.prevHash →
    Back digest r xs → Back digest q ys →
    (∀ a ∈ ys, computeHash digest a.toContent ≠ GENESIS_HASH) → CollisionFree digest (ys ++ xs) →
    ∀ a ∈ ys, ∃ b ∈ xs, b.Same a := by
  induction ys with
  | nil => intro xs r q _ _ _ _ _ a ha; cases ha
  | cons y ys ih =>
    intro xs r q hprev hr hq hgen hfree
    obtain ⟨hqy, hy, hback⟩ := hq
    have hry : r.prevHash = some (computeHash digest y.toContent) := by rw [hprev, hqy, hy.hash]
    cases xs with
    | nil =>
      have hr : r.prevHash = some GENESIS_HASH := hr
      grind
    | cons x xs =>
      obtain ⟨hrx, hx, hbackx⟩ := hr
      have hhash : computeHash digest x.toContent = computeHash digest y.toContent := by
        rw [hrx, hx.hash] at hry
        exact Option.some.inj hry
      have hsame : x.toContent.Same y.toContent :=
        canonicalPayload_inj.1 (hfree x (by simp) y (by simp) hhash)
      have hxy : x.Same y := ⟨by rw [hx.hash_eq, hy.hash_eq, hhash], hsame⟩
      have hrest := ih xs x y hsame.prevHash hbackx hback
        (fun a ha => hgen a (List.mem_cons_of_mem _ ha)) (fun a ha b hb => hfree a ?_ b ?_)
      · intro a ha
        rcases List.mem_cons.1 ha with rfl | ha
        · exact ⟨x, List.mem_cons_self, hxy⟩
        · obtain ⟨b, hb, hba⟩ := hrest a ha
          exact ⟨b, List.mem_cons_of_mem _ hb, hba⟩
      · simp only [List.mem_append, List.mem_cons] at ha ⊢; tauto
      grind

theorem verify_of_head_chained {chain rows : List Row} (hc : Honest digest chain)
    (ha : Altered chain rows) (hfree : CollisionFree digest (chain ++ rows))
    (hgen : ∀ r ∈ chain, computeHash digest r.toContent ≠ GENESIS_HASH)
    (hhead : ∃ r, rows.head? = some r ∧ r.isChained = true) :
    (verify digest rows).ok = false := by
  obtain ⟨before, r, after, front, back, rfl, rfl, a, ha, hmissing⟩ := ha
  obtain ⟨h, hh, hhc⟩ := hhead
  rw [← Bool.not_eq_true, verify_ok_iff]
  rintro ⟨hintact, hanch⟩
  rw [chained_eq_self hh hhc] at hintact
  have hrows := back_of_chain hintact.consistent (hintact.joined.imp fun a b hab => hab.prevHash)
    (fun q hq => hanch q hq (Option.some.inj (hh.symm.trans hq) ▸ hhc))
  have hchain := back_of_chain hc.consistent hc.linked hc.anchored
  obtain ⟨b, hb, hba⟩ := back_same before.reverse front.reverse r r rfl hrows hchain
    (fun q hq => hgen q (List.mem_append_left _ (List.mem_reverse.1 hq)))
    (fun x hx y hy => hfree x (by simp at hx ⊢; tauto) y (by simp at hy ⊢; tauto))
    a (List.mem_reverse.2 ha)
  exact hmissing b (List.mem_reverse.1 hb) hba

end Walks

/-- **When tampering is detected.**  In front of an untouched row of an honest
    chain a row was edited, blanked or removed.  `verify` answers `ok = false`
    exactly if the sequence opens with a chained row, or its rows from the first
    chained one on are not intact. -/
theorem verify_detects_iff (digest : String → String) {chain rows : List Row}
    (hc : Honest digest chain) (ha : Altered chain rows)
    (hfree : CollisionFree digest (chain ++ rows))
    (hgen : ∀ r ∈ chain, computeHash digest r.toContent ≠ GENESIS_HASH) :
    (verify digest rows).ok = false ↔
      (∃ r, rows.head? = some r ∧ r.isChained = true) ∨ ¬ Intact digest (chained rows) := by
  constructor
  · intro hok
    by_contra hcon
    rw [not_or, not_not] at hcon
    grind -ring -linarith [Anchored, verify_ok_iff]
  · rintro (hhead | hnot)
    · exact verify_of_head_chained hc ha hfree hgen hhead
    · rw [← Bool.not_eq_true, verify_ok_iff]
      exact fun h => hnot h.1

/-! ### Two rows of one tenant -/

def event (id detail createdAt : String) (seq : Int) (prevHash : String) : Content :=
  ⟨some id, some "t", some "login", none, none, some detail, .obj [], none, none, some createdAt,
    some seq, some prevHash⟩

/-- The SHA-256 of the three canonical texts below. -/
def hash₁ : String := "0d9fa258e3b128451df545ffbce4295498ce900c8f8e5612053020d68e832a23"
def hash₂ : String := "915598f8221f0cb46d4f3d2c5f984f68f0d4a3464d1e0c7c615a24a4a620478a"
def hash₃ : String := "27c5a2d61a52242b40a2e88b268ab8b2dd1359d0ee5044aa580c8e1814a3fdc7"

def first : Content := event "a1" "first" "2024-01-01T00:00:00Z" 1 GENESIS_HASH
def second : Content := event "a2" "second" "2024-01-01T00:00:01Z" 2 hash₁
def edited : Content := event "a1" "edited" "2024-01-01T00:00:00Z" 1 GENESIS_HASH

def sha256 (text : String) : String :=
  if text = canonicalPayload first then hash₁
  else if text = canonicalPayload second then hash₂
  else if text = canonicalPayload edited then hash₃
  else ""

theorem payload_ne {a b : Content} (h : a.id ≠ b.id ∨ a.detail ≠ b.detail) :
    canonicalPayload a ≠ canonicalPayload b := by
  grind [canonicalPayload_inj, Content.Same]

theorem computeHash_first : computeHash sha256 first = hash₁ := by
  rw [computeHash, sha256, if_pos rfl]

theorem computeHash_second : computeHash sha256 second = hash₂ := by
  rw [computeHash, sha256, if_neg (payload_ne (by decide)), if_pos rfl]

theorem computeHash_edited : computeHash sha256 edited = hash₃ := by
  rw [computeHash, sha256, if_neg (payload_ne (by decide)), if_neg (payload_ne (by decide)),
    if_pos rfl]

def twoRows : List Row := [⟨first, some hash₁, false⟩, ⟨second, some hash₂, false⟩]

theorem twoRows_honest : Honest sha256 twoRows where
  seq := by
    intro i r hr
    match i with
    | 0 | 1 => cases hr; rfl
    | _ + 2 => cases hr
  consistent := by
    intro r hr
    simp only [twoRows, List.mem_cons, List.not_mem_nil, or_false] at hr
    rcases hr with rfl | rfl
    · exact ⟨rfl, by rw [computeHash_first]; decide +kernel⟩
    · exact ⟨rfl, by rw [computeHash_second]; decide +kernel⟩
  linked := by
    refine List.isChain_cons_cons.2 ⟨?_, List.isChain_singleton _⟩
    decide +kernel
  anchored := by
    rintro r hr
    cases hr
    rfl

/-- The first row's detail is edited; its hash is left, or taken away. -/
def editedRows (hash : Option String) : List Row :=
  [⟨edited, hash, false⟩, ⟨second, some hash₂, false⟩]

theorem editedRows_altered (hash : Option String) : Altered twoRows (editedRows hash) := by
  refine ⟨[⟨first, some hash₁, false⟩], ⟨second, some hash₂, false⟩, [], [⟨edited, hash, false⟩],
    [], rfl, rfl, _, List.mem_cons_self, ?_⟩
  intro b hb hsame
  rw [List.mem_singleton.1 hb] at hsame
  exact payload_ne (a := edited) (b := first) (by decide) (canonicalPayload_inj.2 hsame.2)

theorem sha256_collisionFree (hash : Option String) :
    CollisionFree sha256 (twoRows ++ editedRows hash) := by
  have hne : hash₁ ≠ hash₂ ∧ hash₁ ≠ hash₃ ∧ hash₂ ≠ hash₃ := by decide +kernel
  have hcontent : ∀ r ∈ twoRows ++ editedRows hash,
      r.toContent = first ∨ r.toContent = second ∨ r.toContent = edited := by
    intro r hr
    simp only [twoRows, editedRows, List.cons_append, List.nil_append, List.mem_cons,
      List.not_mem_nil, or_false] at hr
    rcases hr with rfl | rfl | rfl | rfl <;> simp
  intro a ha b hb h
  grind [computeHash_first, computeHash_second, computeHash_edited]

theorem twoRows_not_genesis : ∀ r ∈ twoRows, computeHash sha256 r.toContent ≠ GENESIS_HASH := by
  intro r hr
  simp only [twoRows, List.mem_cons, List.not_mem_nil, or_false] at hr
  rcases hr with rfl | rfl
  · rw [computeHash_first]; decide +kernel
  · rw [computeHash_second]; decide +kernel

/-- With its hash left in place the edit is found. -/
theorem edited_row_detected : (verify sha256 (editedRows (some hash₁))).ok = false :=
  (verify_detects_iff sha256 twoRows_honest (editedRows_altered _) (sha256_collisionFree _)
    twoRows_not_genesis).2 (.inl ⟨_, rfl, by decide +kernel⟩)

/-- With its hash taken away the edited row counts as one from before the chain,
    and the row behind it need not anchor to anything. -/
theorem blanked_rows_verify : Honest sha256 twoRows ∧ Altered twoRows (editedRows none) ∧
    CollisionFree sha256 (twoRows ++ editedRows none) ∧
    (∀ r ∈ twoRows, computeHash sha256 r.toContent ≠ GENESIS_HASH) ∧
    (verify sha256 (editedRows none)).ok = true := by
  refine ⟨twoRows_honest, editedRows_altered _, sha256_collisionFree _, twoRows_not_genesis, ?_⟩
  rw [verify_ok_iff]
  refine ⟨⟨?_, List.isChain_singleton _⟩, ?_⟩
  · intro r hr
    rw [List.mem_singleton.1 hr]
    exact twoRows_honest.consistent _ (by simp [twoRows])
  · rintro r hr hc
    cases hr
    cases hc

end RuleMind.Audit
