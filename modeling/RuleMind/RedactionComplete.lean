/-
  What a redaction leaves of a payload, at every depth of it: `redact_payload` of
  `app/logic.py`.
-/
import RuleMind.PiiRedaction

namespace RuleMind.Redaction

/-! ### At every depth -/

/-- `Within w v`: at some depth of `v` there is `w`. -/
inductive Within (w : Value) : Value → Prop
  | self : Within w w
  | field {kvs : List (String × Value)} {kv : String × Value} (hmem : kv ∈ kvs)
      (h : Within w kv.2) : Within w (.dict kvs)
  | item {vs : List Value} {v : Value} (hmem : v ∈ vs) (h : Within w v) : Within w (.list vs)

def isLeaf : Value → Bool
  | .dict _ | .list _ => false
  | _ => true

mutual

/-- Outside the covered names, two payloads have the same names and lengths, and leaves in the
    relation `leaf`. -/
inductive AlikeOutside (covers : String → Bool) (leaf : Value → Value → Prop) :
    Value → Value → Prop
  | dict {kvs kvs' : List (String × Value)} (h : FieldsAlike covers leaf kvs kvs') :
      AlikeOutside covers leaf (.dict kvs) (.dict kvs')
  | list {vs vs' : List Value} (h : ItemsAlike covers leaf vs vs') :
      AlikeOutside covers leaf (.list vs) (.list vs')
  | leaf {v w : Value} (hv : isLeaf v = true) (hw : isLeaf w = true) (h : leaf v w) :
      AlikeOutside covers leaf v w

inductive FieldsAlike (covers : String → Bool) (leaf : Value → Value → Prop) :
    List (String × Value) → List (String × Value) → Prop
  | nil : FieldsAlike covers leaf [] []
  | covered {key : String} {v w : Value} {kvs kvs' : List (String × Value)}
      (hkey : covers key = true) (h : FieldsAlike covers leaf kvs kvs') :
      FieldsAlike covers leaf ((key, v) :: kvs) ((key, w) :: kvs')
  | field {key : String} {v w : Value} {kvs kvs' : List (String × Value)}
      (hkey : covers key = false) (hv : AlikeOutside covers leaf v w)
      (h : FieldsAlike covers leaf kvs kvs') :
      FieldsAlike covers leaf ((key, v) :: kvs) ((key, w) :: kvs')

inductive ItemsAlike (covers : String → Bool) (leaf : Value → Value → Prop) :
    List Value → List Value → Prop
  | nil : ItemsAlike covers leaf [] []
  | cons {v w : Value} {vs vs' : List Value} (hv : AlikeOutside covers leaf v w)
      (h : ItemsAlike covers leaf vs vs') : ItemsAlike covers leaf (v :: vs) (w :: vs')

end

section Output
variable (c : Config)

def LeafRedacted (v w : Value) : Prop :=
  if c.sensitive v = true then w = REDACTION_PLACEHOLDER else w = v

variable {c}

variable {kvs : List (String × Value)} {w v : Value}

variable {kv : String × Value} {vs : List Value}

theorem mem_redactFields :
    kv ∈ redactFields c kvs ↔ ∃ v, (kv.1, v) ∈ kvs ∧
      kv.2 = if c.covers kv.1 then REDACTION_PLACEHOLDER else redactWith c v := by
  induction kvs with
  | nil => simp [redactFields]
  | cons x kvs ih => grind [redactFields]

theorem mem_redactItems : w ∈ redactItems c vs ↔ ∃ v ∈ vs, w = redactWith c v := by
  induction vs with
  | nil => simp [redactItems]
  | cons v vs ih => rw [redactItems, List.mem_cons, ih, List.exists_mem_cons_iff]

theorem redactWith_leaf (hv : isLeaf v = true) :
    redactWith c v = if c.sensitive v then REDACTION_PLACEHOLDER else v := by
  refine redactWith_scalar ?_ ?_ c
  · rintro kvs rfl
    cases hv
  · rintro vs rfl
    cases hv

theorem leafRedacted (hv : isLeaf v = true) :
    isLeaf (redactWith c v) = true ∧ LeafRedacted c v (redactWith c v) := by
  rw [redactWith_leaf hv, LeafRedacted]
  split
  · exact ⟨rfl, rfl⟩
  · exact ⟨hv, rfl⟩

theorem dict_of_redacted
    (h : Value.dict kvs = redactWith c v) : ∃ kvs', kvs = redactFields c kvs' := by
  by_cases hv : isLeaf v = true
  · have hout := (leafRedacted (c := c) hv).1
    rw [← h] at hout
    cases hout
  · cases v with
    | dict kvs' => exact ⟨kvs', by simpa [redactWith] using h⟩
    | list vs => cases h
    | _ => exact absurd rfl hv

theorem list_of_redacted (h : Value.list vs = redactWith c v) : ∃ vs', vs = redactItems c vs' := by
  by_cases hv : isLeaf v = true
  · have hout := (leafRedacted (c := c) hv).1
    rw [← h] at hout
    cases hout
  · cases v with
    | list vs' => exact ⟨vs', by simpa [redactWith] using h⟩
    | dict kvs => cases h
    | _ => exact absurd rfl hv

theorem within_redacted {out : Value} (h : Within w out) :
    ∀ v, out = redactWith c v → ∃ v', w = redactWith c v' := by
  induction h with
  | self => exact fun v hv => ⟨v, hv⟩
  | field hmem h ih =>
    intro v hv
    obtain ⟨kvs', rfl⟩ := dict_of_redacted hv
    obtain ⟨v', -, hkv⟩ := mem_redactFields.1 hmem
    split at hkv
    · exact ih _ (hkv.trans (redactWith_placeholder c).symm)
    · exact ih _ hkv
  | item hmem h ih =>
    intro v hv
    obtain ⟨vs', rfl⟩ := list_of_redacted hv
    grind [mem_redactItems]

theorem entry_redacted (h : Within (.dict kvs) (redactWith c v)) (hmem : kv ∈ kvs)
    (hkey : c.covers kv.1 = true) : kv.2 = REDACTION_PLACEHOLDER := by
  obtain ⟨v', hv'⟩ := within_redacted h v rfl
  obtain ⟨kvs', rfl⟩ := dict_of_redacted hv'
  simp_all [mem_redactFields]

theorem redacted_not_sensitive (v : Value) : c.sensitive (redactWith c v) = false := by
  by_cases hv : isLeaf v = true
  · rw [redactWith_leaf hv]
    split
    · exact c.placeholder
    · simpa using ‹¬ c.sensitive v = true›
  · cases v with
    | dict kvs => exact c.dict _
    | list vs => exact c.list _
    | _ => exact absurd rfl hv

theorem leaf_redacted (h : Within w (redactWith c v)) : c.sensitive w = false := by
  obtain ⟨v', rfl⟩ := within_redacted h v rfl
  exact redacted_not_sensitive v'

mutual

theorem redactWith_alike (c : Config) (v : Value) :
    AlikeOutside c.covers (LeafRedacted c) v (redactWith c v) := by
  match v with
  | .dict kvs => exact .dict (redactFields_alike c kvs)
  | .list vs => exact .list (redactItems_alike c vs)
  | .null | .bool _ | .int _ | .float _ | .inf _ | .str _ =>
    exact .leaf rfl (leafRedacted rfl).1 (leafRedacted rfl).2

theorem redactFields_alike (c : Config) (kvs : List (String × Value)) :
    FieldsAlike c.covers (LeafRedacted c) kvs (redactFields c kvs) := by
  match kvs with
  | [] => exact .nil
  | (key, v) :: kvs =>
    rw [redactFields]
    by_cases hkey : c.covers key = true
    · rw [if_pos hkey]
      exact .covered hkey (redactFields_alike c kvs)
    · rw [if_neg hkey]
      exact .field (by simpa using hkey) (redactWith_alike c v) (redactFields_alike c kvs)

theorem redactItems_alike (c : Config) (vs : List Value) :
    ItemsAlike c.covers (LeafRedacted c) vs (redactItems c vs) := by
  match vs with
  | [] => exact .nil
  | v :: vs => exact .cons (redactWith_alike c v) (redactItems_alike c vs)

end

mutual

theorem redactWith_eq_of_alike {v w : Value} (h : AlikeOutside c.covers Eq v w) :
    redactWith c v = redactWith c w := by
  cases h with
  | dict h => rw [redactWith, redactWith, redactFields_eq_of_alike h]
  | list h => rw [redactWith, redactWith, redactItems_eq_of_alike h]
  | leaf _ _ h => rw [h]

theorem redactFields_eq_of_alike {kvs kvs' : List (String × Value)}
    (h : FieldsAlike c.covers Eq kvs kvs') : redactFields c kvs = redactFields c kvs' := by
  cases h with
  | nil => rfl
  | covered hkey h =>
    rw [redactFields, redactFields, redactFields_eq_of_alike h, if_pos hkey, if_pos hkey]
  | field hkey hv h =>
    rw [redactFields, redactFields, redactFields_eq_of_alike h, redactWith_eq_of_alike hv]

theorem redactItems_eq_of_alike {vs vs' : List Value} (h : ItemsAlike c.covers Eq vs vs') :
    redactItems c vs = redactItems c vs' := by
  cases h with
  | nil => rfl
  | cons hv h => rw [redactItems, redactItems, redactItems_eq_of_alike h, redactWith_eq_of_alike hv]

end

end Output

/-! ### The redaction of a workspace -/

section Payload
variable (py : PyText) (strLower : String → String) (env : Env) (extraKeys : List String)

/-- The names that `redact_payload` covers, by the whole key or by its last words. -/
def redactedKey (key : String) : Bool := (configOf py strLower env extraKeys).covers key

/-- A leaf in the output of `redact_payload`. -/
def redactedLeaf (v w : Value) : Prop :=
  if valueIsSensitive py (valueScanMode strLower env) v = true then w = REDACTION_PLACEHOLDER
  else w = v

/-- What is to hold of the redaction of a payload. -/
structure Complete (v : Value) : Prop where
  /-- An entry whose name is redacted holds the placeholder. -/
  entries : ∀ kvs, Within (.dict kvs) (redactPayload py strLower env extraKeys v) →
    ∀ kv ∈ kvs, redactedKey py strLower env extraKeys kv.1 = true → kv.2 = REDACTION_PLACEHOLDER
  /-- Nothing that is left looks sensitive. -/
  leaves : ∀ w, Within w (redactPayload py strLower env extraKeys v) →
    valueIsSensitive py (valueScanMode strLower env) w = false
  /-- All else is as in the payload. -/
  others : AlikeOutside (redactedKey py strLower env extraKeys) (redactedLeaf py strLower env) v
    (redactPayload py strLower env extraKeys v)
  /-- Redacting again changes nothing. -/
  again : redactPayload py strLower env extraKeys (redactPayload py strLower env extraKeys v) =
    redactPayload py strLower env extraKeys v
  /-- What is under redacted names does not show. -/
  blind : ∀ w, AlikeOutside (redactedKey py strLower env extraKeys) Eq v w →
    redactPayload py strLower env extraKeys w = redactPayload py strLower env extraKeys v

/-- **Redaction is complete and stable.** -/
theorem redaction_complete (v : Value) : Complete py strLower env extraKeys v where
  entries _ h _ hmem hkey := entry_redacted h hmem hkey
  leaves _ h := leaf_redacted h
  others := redactWith_alike _ v
  again := redactWith_idem _ v
  blind _ h := (redactWith_eq_of_alike h).symm

end Payload

end RuleMind.Redaction
