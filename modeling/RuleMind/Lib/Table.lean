/-
  Finite maps written entry by entry, as a dictionary is in a loop over another
  one's items.

  `upsert g b a` goes through the entries of `b` and writes each into `a`, what is
  written depending on what `a` held under the key.  `lookup_upsert` says what
  every key holds afterwards: an entry is written once, so the order of the loop
  does not matter.
-/
import Mathlib.Data.List.AList

namespace RuleMind

abbrev Table (κ α : Type) := AList fun _ : κ => α

namespace Table
variable {κ α β : Type} [DecidableEq κ]

/-- Two tables with the same entries, in any order. -/
def Same (a b : Table κ α) : Prop := ∀ k, a.lookup k = b.lookup k

theorem Same.refl (a : Table κ α) : Same a a := fun _ => rfl

/-- `for k, v in b.items(): a[k] = g(k, v, a.get(k))`. -/
def upsert (g : κ → β → Option α → α) (b : Table κ β) (a : Table κ α) : Table κ α :=
  b.foldl (fun out k v => out.insert k (g k v (out.lookup k))) a

theorem lookup_foldl_upsert (g : κ → β → Option α → α) {l : List (Sigma fun _ : κ => β)}
    (hl : l.NodupKeys) (a : Table κ α) (k : κ) :
    (l.foldl (fun out e => out.insert e.1 (g e.1 e.2 (out.lookup e.1))) a).lookup k =
      match l.dlookup k with
      | some v => some (g k v (a.lookup k))
      | none => a.lookup k := by
  induction l generalizing a with
  | nil => rfl
  | cons e l ih =>
    obtain ⟨key, v⟩ := e
    rw [List.nodupKeys_cons] at hl
    rw [List.foldl_cons, ih hl.2]
    by_cases h : k = key
    · subst h
      rw [List.dlookup_cons_eq, List.dlookup_eq_none.2 hl.1, AList.lookup_insert]
    · simp_all

theorem lookup_upsert (g : κ → β → Option α → α) (b : Table κ β) (a : Table κ α) (k : κ) :
    (upsert g b a).lookup k =
      match b.lookup k with
      | some v => some (g k v (a.lookup k))
      | none => a.lookup k :=
  lookup_foldl_upsert g b.nodupKeys a k

end Table

end RuleMind
