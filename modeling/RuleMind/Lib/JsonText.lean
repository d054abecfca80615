/-
  JSON values and their compact text with sorted keys.

  `dumps` is the text of `json.dumps(…, sort_keys=True, separators=(",", ":"),
  ensure_ascii=False)`.  A value prints to a text that no other value's text
  extends by a comma or a closing bracket (`print_append_inj`), so that two values
  of one text are equal up to the order of keys (`dumps_inj`).

  A float is given by its text, which determines it.
-/
import Mathlib.Data.List.Sort
import Std.Data.String.ToInt

namespace Lib

/-- The text of a float: `repr`, `NaN`, `Infinity` or `-Infinity`. -/
structure FloatText where
  text : List Char
  chars : ∀ c ∈ text, c.isDigit ∨ c ∈ ['-', '+', '.', 'e', 'N', 'a', 'I', 'n', 'f', 'i', 't', 'y']
  marked : ∃ c ∈ text, c ∈ ['.', 'e', 'N', 'I']
  deriving DecidableEq

/-- The values that print without brackets or quotes. -/
inductive Scalar
  | null
  | bool (b : Bool)
  | int (n : Int)
  | float (t : FloatText)
  deriving DecidableEq

inductive Json
  | scalar (s : Scalar)
  | str (s : String)
  | arr (vs : List Json)
  | obj (kvs : List (String × Json))

namespace Json

/-! ### Text -/

def hexDigit (n : ℕ) : Char := "0123456789abcdef".toList.getD n '0'

/-- One character of a string, between the quotes. -/
def escape (c : Char) : List Char :=
  if c = '"' then ['\\', '"']
  else if c = '\\' then ['\\', '\\']
  else if c = '\n' then ['\\', 'n']
  else if c = '\r' then ['\\', 'r']
  else if c = '\t' then ['\\', 't']
  else if c = '\x08' then ['\\', 'b']
  else if c = '\x0c' then ['\\', 'f']
  else if c.toNat < 32 then ['\\', 'u', '0', '0', hexDigit (c.toNat / 16), hexDigit (c.toNat % 16)]
  else [c]

def body (s : List Char) : List Char := s.flatMap escape

def quote (s : String) : List Char := '"' :: (body s.toList ++ ['"'])

end Json

def Scalar.text : Scalar → List Char
  | .null => "null".toList
  | .bool true => "true".toList
  | .bool false => "false".toList
  | .int n => n.repr.toList
  | .float t => t.text

namespace Json

mutual

def print : Json → List Char
  | .scalar s => s.text
  | .str s => quote s
  | .arr [] => ['[', ']']
  | .arr (v :: vs) => '[' :: (print v ++ printItems vs)
  | .obj [] => ['{', '}']
  | .obj ((k, v) :: kvs) => '{' :: (quote k ++ ':' :: (print v ++ printFields kvs))

def printItems : List Json → List Char
  | [] => [']']
  | v :: vs => ',' :: (print v ++ printItems vs)

def printFields : List (String × Json) → List Char
  | [] => ['}']
  | (k, v) :: kvs => ',' :: (quote k ++ ':' :: (print v ++ printFields kvs))

end

def sortKeys (kvs : List (String × Json)) : List (String × Json) :=
  kvs.insertionSort fun a b => a.1 ≤ b.1

mutual

/-- The value with the keys of every object in order. -/
def norm : Json → Json
  | .scalar s => .scalar s
  | .str s => .str s
  | .arr vs => .arr (normItems vs)
  | .obj kvs => .obj (sortKeys (normFields kvs))

def normItems : List Json → List Json
  | [] => []
  | v :: vs => norm v :: normItems vs

def normFields : List (String × Json) → List (String × Json)
  | [] => []
  | (k, v) :: kvs => (k, norm v) :: normFields kvs

end

def dumps (v : Json) : String := String.ofList (print (norm v))

/-! ### Strings delimit themselves -/

theorem hexDigit_inj {m n : ℕ} (hm : m < 16) (hn : n < 16) (h : hexDigit m = hexDigit n) :
    m = n := by
  have : ∀ m n : Fin 16, hexDigit m = hexDigit n → m = n := by decide
  exact congrArg Fin.val (this ⟨m, hm⟩ ⟨n, hn⟩ h)

def unescape : Char → Char
  | 'n' => '\n'
  | 'r' => '\r'
  | 't' => '\t'
  | 'b' => '\x08'
  | 'f' => '\x0c'
  | c => c

theorem escape_cases (c : Char) :
    (escape c = [c] ∧ c ≠ '\\' ∧ c ≠ '"') ∨
    (∃ e, escape c = ['\\', e] ∧ unescape e = c ∧ e ≠ 'u') ∨
    (escape c = ['\\', 'u', '0', '0', hexDigit (c.toNat / 16), hexDigit (c.toNat % 16)] ∧
      c.toNat < 32) := by
  by_cases hshort : c ∈ ['"', '\\', '\n', '\r', '\t', '\x08', '\x0c']
  · refine .inr (.inl ?_)
    simp only [List.mem_cons, List.not_mem_nil, or_false] at hshort
    rcases hshort with rfl | rfl | rfl | rfl | rfl | rfl | rfl
    · exact ⟨'"', rfl, rfl, by decide⟩
    · exact ⟨'\\', rfl, rfl, by decide⟩
    · exact ⟨'n', rfl, rfl, by decide⟩
    · exact ⟨'r', rfl, rfl, by decide⟩
    · exact ⟨'t', rfl, rfl, by decide⟩
    · exact ⟨'b', rfl, rfl, by decide⟩
    · exact ⟨'f', rfl, rfl, by decide⟩
  · simp only [List.mem_cons, List.not_mem_nil, or_false, not_or] at hshort
    obtain ⟨hquote, hslash, hn, hr, ht, hb, hf⟩ := hshort
    rw [escape, if_neg hquote, if_neg hslash, if_neg hn, if_neg hr, if_neg ht, if_neg hb, if_neg hf]
    split
    · exact .inr (.inr ⟨rfl, ‹_›⟩)
    · exact .inl ⟨rfl, hslash, hquote⟩

variable {c : Char} {x y : List Char}

theorem escape_append_inj {d : Char} (h : escape c ++ x = escape d ++ y) : c = d ∧ x = y := by
  rcases escape_cases c with ⟨hc, hcb, -⟩ | ⟨e, hc, hec, heu⟩ | ⟨hc, hc32⟩ <;>
    rcases escape_cases d with ⟨hd, hdb, -⟩ | ⟨f, hd, hfd, hfu⟩ | ⟨hd, hd32⟩ <;>
    rw [hc, hd] at h <;>
    simp only [List.cons_append, List.nil_append, List.cons.injEq, true_and] at h
  · exact h
  · exact absurd h.1 hcb
  · exact absurd h.1 hcb
  · exact absurd h.1.symm hdb
  · exact ⟨by rw [← hec, ← hfd, h.1], h.2⟩
  · exact absurd h.1 heu
  · exact absurd h.1.symm hdb
  · exact absurd h.1.symm hfu
  · refine ⟨Char.toNat_inj.1 ?_, h.2.2⟩
    have h₁ := hexDigit_inj (by omega) (by omega) h.1
    have h₂ := hexDigit_inj (by omega) (by omega) h.2.1
    omega

theorem escape_append_ne_quote (c : Char) (x y : List Char) : escape c ++ x ≠ '"' :: y := by
  grind -ring -linarith [escape_cases]

theorem body_append_inj {s t : List Char} (h : body s ++ '"' :: x = body t ++ '"' :: y) :
    s = t ∧ x = y := by
  induction s generalizing t with
  | nil =>
    cases t with
    | nil => exact ⟨rfl, (List.cons.inj h).2⟩
    | cons d t =>
      rw [body, body, List.flatMap_cons, List.append_assoc] at h
      exact absurd h.symm (escape_append_ne_quote d _ _)
  | cons c s ih =>
    cases t with
    | nil =>
      rw [body, body, List.flatMap_cons, List.append_assoc] at h
      exact absurd h (escape_append_ne_quote c _ _)
    | cons d t =>
      simp only [body, List.flatMap_cons, List.append_assoc] at h
      obtain ⟨rfl, hrest⟩ := escape_append_inj h
      obtain ⟨rfl, rfl⟩ := ih hrest
      exact ⟨rfl, rfl⟩

theorem quote_append_inj {s t : String} (h : quote s ++ x = quote t ++ y) : s = t ∧ x = y := by
  simp only [quote, List.cons_append, List.append_assoc, List.nil_append, List.cons.injEq,
    true_and] at h
  exact (body_append_inj h).imp_left String.toList_inj.1

/-! ### Scalars end at a delimiter -/

/-- What follows a value: nothing, a comma or a closing bracket. -/
def Delim : List Char → Prop
  | [] => True
  | c :: _ => c = ',' ∨ c = ']' ∨ c = '}'

def Plain (c : Char) : Prop := c ∉ [',', ']', '}', '"', '[', '{']

instance (c : Char) : Decidable (Plain c) := inferInstanceAs (Decidable (c ∉ _))

theorem plain_of_all {cs : List Char} (h : cs.all (fun c => decide (Plain c)) = true)
    (hc : c ∈ cs) : Plain c :=
  of_decide_eq_true (List.all_eq_true.1 h c hc)

theorem Plain.not_delim (h : Plain c) : ¬ Delim (c :: x) := by
  rintro (rfl | rfl | rfl) <;> exact absurd h (by decide)

theorem token_append_inj {a b : List Char} (ha : ∀ c ∈ a, Plain c) (hb : ∀ c ∈ b, Plain c)
    (hx : Delim x) (hy : Delim y) (h : a ++ x = b ++ y) : a = b ∧ x = y := by
  induction a generalizing b with
  | nil =>
    cases b with
    | nil => exact ⟨rfl, h⟩
    | cons d b =>
      rw [List.nil_append] at h
      rw [h] at hx
      exact absurd hx (hb d List.mem_cons_self).not_delim
  | cons c a ih =>
    cases b with
    | nil =>
      rw [List.nil_append] at h
      rw [← h] at hy
      exact absurd hy (ha c List.mem_cons_self).not_delim
    | cons d b => grind

theorem plain_of_isDigit (h : c.isDigit = true) : Plain c := by
  intro hc
  simp only [List.mem_cons, List.not_mem_nil, or_false] at hc
  rcases hc with rfl | rfl | rfl | rfl | rfl | rfl <;> exact absurd h (by decide)

theorem mem_repr {n : Int} (h : c ∈ n.repr.toList) : c.isDigit = true ∨ c = '-' := by
  rw [Int.repr_eq_if] at h
  split at h
  · rw [Nat.toList_repr] at h
    exact .inl (Nat.isDigit_of_mem_toDigits (by decide) (by decide) h)
  · rw [String.toList_append, List.mem_append] at h
    rcases h with h | h
    · exact .inr (by simpa using h)
    · rw [Nat.toList_repr] at h
      exact .inl (Nat.isDigit_of_mem_toDigits (by decide) (by decide) h)

theorem text_plain (s : Scalar) : ∀ c ∈ s.text, Plain c := by
  intro c hc
  match s with
  | .null | .bool true | .bool false => exact plain_of_all (by decide) hc
  | .int n =>
    rcases mem_repr hc with hd | rfl
    · exact plain_of_isDigit hd
    · decide
  | .float t =>
    rcases t.chars c hc with hd | hm
    · exact plain_of_isDigit hd
    · exact plain_of_all (by decide) hm

theorem text_ne_nil (s : Scalar) : s.text ≠ [] := by
  match s with
  | .null | .bool true | .bool false => unfold Scalar.text; decide
  | .int n =>
    intro h
    exact absurd (String.toList_inj.1 (h.trans String.toList_empty.symm)) (by
      rw [Int.repr_eq_if]; split <;> simp)
  | .float t =>
    obtain ⟨c, hc, -⟩ := t.marked
    exact List.ne_nil_of_mem hc

theorem not_mem_number (hc : c = 'u' ∨ c = 'l') :
    (∀ n, c ∉ (Scalar.int n).text) ∧ ∀ t, c ∉ (Scalar.float t).text := by
  refine ⟨fun n h => ?_, fun t h => ?_⟩
  · rcases mem_repr h with h | h <;> rcases hc with rfl | rfl <;> exact absurd h (by decide)
  · rcases t.chars c h with h | h <;> rcases hc with rfl | rfl <;> exact absurd h (by decide)

theorem text_int_ne_float (n : Int) (t : FloatText) : (Scalar.int n).text ≠ (Scalar.float t).text := by
  intro h
  obtain ⟨c, hc, hm⟩ := t.marked
  have hc : c ∈ n.repr.toList := (congrArg (c ∈ ·) h).mpr hc
  simp only [List.mem_cons, List.not_mem_nil, or_false] at hm
  rcases mem_repr hc with h | h <;> rcases hm with rfl | rfl | rfl | rfl <;>
    exact absurd h (by decide)

theorem text_inj {s t : Scalar} (h : s.text = t.text) : s = t := by
  have hword : ∀ (c : Char) (a b : Scalar), c = 'u' ∨ c = 'l' → c ∈ a.text → a.text = b.text →
      (∀ n, b ≠ .int n) ∧ ∀ x, b ≠ .float x := by
    intro c a b hc ha hab
    rw [hab] at ha
    exact ⟨fun n hb => (not_mem_number hc).1 n (hb ▸ ha), fun x hb => (not_mem_number hc).2 x (hb ▸ ha)⟩
  have hnull := hword 'u' .null
  have htrue := hword 'u' (.bool true)
  have hfalse := hword 'l' (.bool false)
  match s, t with
  | .null, .null | .bool true, .bool true | .bool false, .bool false => rfl
  | .null, .bool true | .null, .bool false | .bool true, .null | .bool true, .bool false
  | .bool false, .null | .bool false, .bool true => exact absurd h (by decide)
  | .null, .int n => exact absurd rfl ((hnull _ (.inl rfl) (by decide) h).1 n)
  | .null, .float x => exact absurd rfl ((hnull _ (.inl rfl) (by decide) h).2 x)
  | .bool true, .int n => exact absurd rfl ((htrue _ (.inl rfl) (by decide) h).1 n)
  | .bool true, .float x => exact absurd rfl ((htrue _ (.inl rfl) (by decide) h).2 x)
  | .bool false, .int n => exact absurd rfl ((hfalse _ (.inr rfl) (by decide) h).1 n)
  | .bool false, .float x => exact absurd rfl ((hfalse _ (.inr rfl) (by decide) h).2 x)
  | .int n, .null => exact absurd rfl ((hnull _ (.inl rfl) (by decide) h.symm).1 n)
  | .float x, .null => exact absurd rfl ((hnull _ (.inl rfl) (by decide) h.symm).2 x)
  | .int n, .bool true => exact absurd rfl ((htrue _ (.inl rfl) (by decide) h.symm).1 n)
  | .float x, .bool true => exact absurd rfl ((htrue _ (.inl rfl) (by decide) h.symm).2 x)
  | .int n, .bool false => exact absurd rfl ((hfalse _ (.inr rfl) (by decide) h.symm).1 n)
  | .float x, .bool false => exact absurd rfl ((hfalse _ (.inr rfl) (by decide) h.symm).2 x)
  | .int n, .int m => rw [Int.repr_injective (String.toList_inj.1 h)]
  | .int n, .float x => exact absurd h (text_int_ne_float n x)
  | .float x, .int n => exact absurd h.symm (text_int_ne_float n x)
  | .float ⟨x, _, _⟩, .float ⟨y, _, _⟩ =>
    obtain rfl : x = y := h
    rfl

/-! ### Values -/

theorem delim_items (vs : List Json) (x : List Char) : Delim (printItems vs ++ x) := by
  cases vs with
  | nil => exact .inr (.inl rfl)
  | cons v vs => exact .inl rfl

theorem delim_fields (kvs : List (String × Json)) (x : List Char) :
    Delim (printFields kvs ++ x) := by
  match kvs with
  | [] => exact .inr (.inr rfl)
  | (k, v) :: kvs => exact .inl rfl

inductive Shape
  | scalar
  | str
  | arr
  | obj
  deriving DecidableEq

def shape : Json → Shape
  | .scalar _ => .scalar
  | .str _ => .str
  | .arr _ => .arr
  | .obj _ => .obj

def Shape.opens : Shape → Char → Prop
  | .scalar, c => Plain c
  | .str, c => c = '"'
  | .arr, c => c = '['
  | .obj, c => c = '{'

theorem print_opens (v : Json) : ∃ c cs, print v = c :: cs ∧ v.shape.opens c := by
  match v with
  | .scalar s =>
    cases hs : s.text with
    | nil => exact absurd hs (text_ne_nil s)
    | cons c cs => exact ⟨c, cs, by rw [print, hs], text_plain s c (hs ▸ List.mem_cons_self)⟩
  | .str s => exact ⟨_, _, rfl, rfl⟩
  | .arr [] | .arr (_ :: _) => exact ⟨_, _, by rw [print], rfl⟩
  | .obj [] | .obj ((_, _) :: _) => exact ⟨_, _, by rw [print], rfl⟩

theorem shape_eq {v w : Json} (h : print v ++ x = print w ++ y) : v.shape = w.shape := by
  obtain ⟨c, cs, hv, hvc⟩ := print_opens v
  obtain ⟨d, ds, hw, hwd⟩ := print_opens w
  rw [hv, hw, List.cons_append, List.cons_append, List.cons.injEq] at h
  obtain ⟨rfl, -⟩ := h
  cases hsv : v.shape <;> cases hsw : w.shape <;> rw [hsv] at hvc <;> rw [hsw] at hwd <;>
    first
    | rfl
    | (simp only [Shape.opens] at hvc hwd
       subst_vars
       first
       | exact absurd hvc (by decide)
       | exact absurd hwd (by decide))

mutual

/-- **Values delimit themselves.**  Up to a delimiter, a text is the text of one value. -/
theorem print_append_inj : ∀ {v w : Json} {x y : List Char}, Delim x → Delim y →
    print v ++ x = print w ++ y → v = w ∧ x = y
  | .scalar s, .scalar t, x, y, hx, hy, h => by
    grind [print, token_append_inj, text_plain, text_inj]
  | .str s, .str t, x, y, _, _, h => by
    rw [print, print] at h
    exact (quote_append_inj h).imp_left (congrArg Json.str)
  | .arr [], .arr [], x, y, _, _, h => by simpa [print] using h
  | .arr [], .arr (w :: ws), x, y, _, _, h => by
    obtain ⟨c, cs, hw, hwc⟩ := print_opens w
    rw [print, print, hw] at h
    obtain ⟨rfl, -⟩ := List.cons.inj (List.cons.inj h).2
    cases hs : w.shape <;> rw [hs] at hwc <;> simp [Shape.opens, Plain] at hwc
  | .arr (v :: vs), .arr [], x, y, _, _, h => by
    obtain ⟨c, cs, hv, hvc⟩ := print_opens v
    rw [print, print, hv] at h
    obtain ⟨rfl, -⟩ := List.cons.inj (List.cons.inj h).2
    cases hs : v.shape <;> rw [hs] at hvc <;> simp [Shape.opens, Plain] at hvc
  | .arr (v :: vs), .arr (w :: ws), x, y, _, _, h => by
    rw [print, print, List.cons_append, List.cons_append, List.cons.injEq, List.append_assoc,
      List.append_assoc] at h
    obtain ⟨rfl, htail⟩ := print_append_inj (delim_items vs x) (delim_items ws y) h.2
    obtain ⟨rfl, rfl⟩ := printItems_append_inj htail
    exact ⟨rfl, rfl⟩
  | .obj [], .obj [], x, y, _, _, h => by simpa [print] using h
  | .obj [], .obj ((k, w) :: ws), x, y, _, _, h => by simp [print, quote] at h
  | .obj ((k, v) :: vs), .obj [], x, y, _, _, h => by simp [print, quote] at h
  | .obj ((k, v) :: vs), .obj ((l, w) :: ws), x, y, _, _, h => by
    rw [print, print, List.cons_append, List.cons_append, List.cons.injEq, List.append_assoc,
      List.append_assoc] at h
    obtain ⟨rfl, hval⟩ := quote_append_inj h.2
    rw [List.cons_append, List.cons_append, List.cons.injEq, List.append_assoc,
      List.append_assoc] at hval
    obtain ⟨rfl, htail⟩ := print_append_inj (delim_fields vs x) (delim_fields ws y) hval.2
    obtain ⟨rfl, rfl⟩ := printFields_append_inj htail
    exact ⟨rfl, rfl⟩
  | .scalar _, .str _, _, _, _, _, h | .scalar _, .arr _, _, _, _, _, h
  | .scalar _, .obj _, _, _, _, _, h | .str _, .scalar _, _, _, _, _, h
  | .str _, .arr _, _, _, _, _, h | .str _, .obj _, _, _, _, _, h
  | .arr _, .scalar _, _, _, _, _, h | .arr _, .str _, _, _, _, _, h
  | .arr _, .obj _, _, _, _, _, h | .obj _, .scalar _, _, _, _, _, h
  | .obj _, .str _, _, _, _, _, h | .obj _, .arr _, _, _, _, _, h => by
    exact absurd (shape_eq h) (by simp [shape])

theorem printItems_append_inj : ∀ {vs ws : List Json} {x y : List Char},
    printItems vs ++ x = printItems ws ++ y → vs = ws ∧ x = y
  | [], [], x, y, h => by simpa [printItems] using h
  | [], w :: ws, x, y, h => by simp [printItems] at h
  | v :: vs, [], x, y, h => by simp [printItems] at h
  | v :: vs, w :: ws, x, y, h => by
    rw [printItems, printItems, List.cons_append, List.cons_append, List.cons.injEq,
      List.append_assoc, List.append_assoc] at h
    obtain ⟨rfl, htail⟩ := print_append_inj (delim_items vs x) (delim_items ws y) h.2
    obtain ⟨rfl, rfl⟩ := printItems_append_inj htail
    exact ⟨rfl, rfl⟩

theorem printFields_append_inj : ∀ {vs ws : List (String × Json)} {x y : List Char},
    printFields vs ++ x = printFields ws ++ y → vs = ws ∧ x = y
  | [], [], x, y, h => by simpa [printFields] using h
  | [], (_, _) :: ws, x, y, h => by simp [printFields] at h
  | (_, _) :: vs, [], x, y, h => by simp [printFields] at h
  | (k, v) :: vs, (l, w) :: ws, x, y, h => by
    rw [printFields, printFields, List.cons_append, List.cons_append, List.cons.injEq,
      List.append_assoc, List.append_assoc] at h
    obtain ⟨rfl, hval⟩ := quote_append_inj h.2
    rw [List.cons_append, List.cons_append, List.cons.injEq, List.append_assoc,
      List.append_assoc] at hval
    obtain ⟨rfl, htail⟩ := print_append_inj (delim_fields vs x) (delim_fields ws y) hval.2
    obtain ⟨rfl, rfl⟩ := printFields_append_inj htail
    exact ⟨rfl, rfl⟩

end

theorem eq_of_keys_of_subset : ∀ {l m : List (String × Json)}, l.map Prod.fst = m.map Prod.fst →
    (l.map Prod.fst).Nodup → l ⊆ m → l = m
  | [], [], _, _, _ => rfl
  | [], _ :: _, hk, _, _ => by simp at hk
  | _ :: _, [], hk, _, _ => by simp at hk
  | p :: l, q :: m, hk, hn, hs => by
    simp only [List.map_cons, List.cons.injEq] at hk
    rw [List.map_cons, List.nodup_cons] at hn
    have hfirst : ∀ r ∈ m, r.1 ≠ p.1 := fun r hr he => hn.1 (hk.2 ▸ he ▸ List.mem_map_of_mem hr)
    have hp : p = q := by
      rcases List.mem_cons.1 (hs List.mem_cons_self) with hp | hp
      · exact hp
      · exact absurd rfl (hfirst p hp)
    have hl : l ⊆ m := fun r hr => by grind
    rw [hp, eq_of_keys_of_subset hk.2 hn.2 hl]

theorem sortKeys_inj {l m : List (String × Json)} (hk : l.map Prod.fst = m.map Prod.fst)
    (hn : (l.map Prod.fst).Nodup) (h : sortKeys l = sortKeys m) : l = m := by
  grind [eq_of_keys_of_subset, sortKeys, List.perm_insertionSort]

theorem dumps_inj {v w : Json} : dumps v = dumps w ↔ norm v = norm w := by
  refine ⟨fun h => ?_, fun h => by rw [dumps, dumps, h]⟩
  have hp := String.ofList_injective h
  refine (print_append_inj (x := []) (y := []) trivial trivial ?_).1
  rw [List.append_nil, List.append_nil, hp]

end Json

end Lib
