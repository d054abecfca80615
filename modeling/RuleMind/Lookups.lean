/-
  The approximate lookups of `app/excel_functions.py`: `VLOOKUP`, `HLOOKUP`, `MATCH` with
  `INDEX`, `LOOKUP` and `XLOOKUP`, each with a loop of its own over the keys.
-/
import Mathlib.Data.Int.Notation
import Mathlib.Data.List.Pairwise
import Mathlib.Data.Nat.Basic
import Mathlib.Order.Lattice

namespace RuleMind.Lookups

/-- A Python value: `None`, a number, a list, or a value that no number is compared with. -/
inductive Cell (κ ρ : Type)
  | none
  | num (k : κ)
  | value (r : ρ)
  | list (cells : List (Cell κ ρ))

variable {κ ρ : Type} [LinearOrder κ]

mutual
/-- `_flat` of one argument. -/
def flatCell : Cell κ ρ → List (Cell κ ρ)
  | .list cells => flat cells
  | c => [c]

/-- `_flat` -/
def flat : List (Cell κ ρ) → List (Cell κ ρ)
  | [] => []
  | c :: cs => flatCell c ++ flat cs
end

/-- `cell <= x`; `none` for a `TypeError`. -/
def le (x : κ) : Cell κ ρ → Option Bool
  | .num k => some (k ≤ x)
  | _ => none

def ge (x : κ) : Cell κ ρ → Option Bool
  | .num k => some (x ≤ k)
  | _ => none

def eq (x : κ) : Cell κ ρ → Bool
  | .num k => k = x
  | _ => false

def cellsOf : Cell κ ρ → List (Cell κ ρ)
  | .list cells => cells
  | _ => []

/-- The loop of an approximate scan: the last index whose test holds, up to the first that fails;
what cannot be tested is passed over. -/
def lastMatch {α : Type} (test : α → Option Bool) : ℕ → Option ℕ → List α → Option ℕ
  | _, last, [] => last
  | i, last, v :: vs =>
    match test v with
    | some true => lastMatch test (i + 1) (some i) vs
    | some false => last
    | none => lastMatch test (i + 1) last vs

/-- `last_match`, unless it is `None`. -/
def found (error : String) : Option (Cell κ ρ) → Except String (Cell κ ρ)
  | some .none | none => .error error
  | some c => .ok c

def VLOOKUP (x : κ) (table : List (Cell κ ρ)) (colIndexNum : ℕ) (rangeLookup : Bool) :
    Except String (Cell κ ρ) :=
  let col := colIndexNum - 1
  let key row := if (cellsOf row).length ≤ col then none else (cellsOf row).head?
  if rangeLookup then
    let last := lastMatch (fun row => (key row).bind (le x)) 0 none table
    found "VLOOKUP: no match found" ((last.bind (table[·]?)).bind fun row => (cellsOf row)[col]?)
  else match table.find? fun row => (key row).any (eq x) with
    | some row => ((cellsOf row)[col]?).elim (.error "list index out of range") .ok
    | none => .error "VLOOKUP: no exact match found"

def HLOOKUP (x : κ) (table : List (Cell κ ρ)) (rowIndexNum : ℕ) (rangeLookup : Bool) :
    Except String (Cell κ ρ) :=
  match table, table[rowIndexNum - 1]? with
  | first :: _, some row =>
    let header := match first with
      | .list cells => cells
      | _ => table
    let pick (i : ℕ) : Except String (Cell κ ρ) := match row with
      | .list cells => (cells[i]?).elim (.error "list index out of range") .ok
      | row => .ok row
    if rangeLookup then
      (lastMatch (le x) 0 none header).elim (.error "HLOOKUP: no match found") pick
    else (header.findIdx? (eq x)).elim (.error "HLOOKUP: no exact match found") pick
  | _, _ => .error "HLOOKUP: row index out of range"

/-- `INDEX` of a list with a positive row number and no column. -/
def INDEX (array : List (Cell κ ρ)) (rowNum : ℕ) : Except String (Cell κ ρ) :=
  (array[rowNum - 1]?).elim (.error "list index out of range") .ok

def MATCH (x : κ) (lookup : List (Cell κ ρ)) (matchType : ℤ) : Except String ℕ :=
  let position :=
    if matchType = 0 then (flat lookup).findIdx? (eq x)
    else if matchType = 1 then lastMatch (le x) 0 none (flat lookup)
    else if matchType = -1 then lastMatch (ge x) 0 none (flat lookup)
    else none
  (position.map (· + 1)).elim (.error "MATCH: no match found") .ok

def LOOKUP (x : κ) (lookup result : List (Cell κ ρ)) : Except String (Cell κ ρ) :=
  found "LOOKUP: no match found" ((lastMatch (le x) 0 none (flat lookup)).bind ((flat result)[·]?))

/-- The loop of `XLOOKUP`: the first index whose test holds. -/
def firstMatch (test : ℕ → Option Bool) : List ℕ → Except String (Option ℕ)
  | [] => .ok none
  | i :: is =>
    match test i with
    | some true => .ok (some i)
    | some false => firstMatch test is
    | none => .error "not supported between instances"

/-- `XLOOKUP`; `wildcard` is its regular-expression match on the texts. -/
def XLOOKUP (wildcard : κ → Cell κ ρ → Bool) (x : κ) (lookup result : List (Cell κ ρ))
    (ifNotFound : Cell κ ρ) (matchMode searchMode : ℤ) : Except String (Cell κ ρ) := do
  let indices := List.range (flat lookup).length
  let test (i : ℕ) : Option Bool := (flat lookup)[i]?.bind fun c =>
    if matchMode = 0 then some (eq x c)
    else if matchMode = -1 then le x c
    else if matchMode = 1 then ge x c
    else some (matchMode = 2 && wildcard x c)
  match ← firstMatch test (if 0 ≤ searchMode then indices else indices.reverse) with
  | some i => .ok ((flat result)[i]?.getD ifNotFound)
  | none => found "XLOOKUP: no match found" (some ifNotFound)

/-! ### The neighbour -/

/-- A table of bands: ascending keys, each with a result. -/
structure Table (κ ρ : Type) [LinearOrder κ] where
  keys : List κ
  results : List (Cell κ ρ)
  ascending : keys.Pairwise (· < ·)
  length : results.length = keys.length
  nonNull : .none ∉ results

variable (t : Table κ ρ) (x : κ) (wildcard : κ → Cell κ ρ → Bool)

def Table.header : List (Cell κ ρ) := t.keys.map .num

/-- The five lookups of `x`. -/
def Table.lookups : List (Except String (Cell κ ρ)) :=
  [VLOOKUP x ((t.keys.zip t.results).map fun e => .list [.num e.1, e.2]) 2 true,
    HLOOKUP x [.list t.header, .list t.results] 2 true, LOOKUP x t.header t.results,
    (MATCH x t.header 1).bind (INDEX t.results),
    XLOOKUP wildcard x t.header t.results .none (-1) 1]

/-- The key at `i` is the greatest one not exceeding `x`. -/
def Table.IsBand (i : ℕ) : Prop := ∃ k, t.keys[i]? = some k ∧ k ≤ x ∧ ∀ l ∈ t.keys, l ≤ x → l ≤ k

/-- Every lookup gives the result of the band of `x`, and below every key each of them raises. -/
def Table.Agrees : Prop :=
  (∀ i r, t.IsBand x i → t.results[i]? = some r → ∀ l ∈ t.lookups x wildcard, l = .ok r) ∧
    ((∀ k ∈ t.keys, x < k) → ∀ l ∈ t.lookups x wildcard, ∃ error, l = .error error)

/-- The result at the key's position, and the first one, once nested results are laid flat. -/
def Table.Level : Prop :=
  ∀ i r, t.IsBand x i → t.results[i]? = some r →
    (flat t.results)[i]? = some r ∧ (flat t.results)[0]? = some r

theorem lastMatch_map {α : Type} (test : α → Option Bool) (vs : List α) : ∀ i last,
    lastMatch test i last vs = lastMatch id i last (vs.map test) := by
  induction vs with
  | nil => simp [lastMatch]
  | cons v vs ih => intro i last; cases h : test v <;> simp [lastMatch, h, ih]

theorem lastMatch_below {keys : List κ} (h : ∀ k ∈ keys, x < k) (i : ℕ) (last : Option ℕ) :
    lastMatch id i last (keys.map fun k => some (decide (k ≤ x))) = last := by
  cases keys with
  | nil => rfl
  | cons k keys => simp [lastMatch, not_le.2 (h k List.mem_cons_self)]

/-- The scan of ascending keys ends at the greatest one not exceeding `x`. -/
theorem lastMatch_band {keys : List κ} (hasc : keys.Pairwise (· < ·)) : ∀ {i : ℕ} {k : κ},
    keys[i]? = some k → k ≤ x → (∀ l ∈ keys, l ≤ x → l ≤ k) → ∀ first last,
    lastMatch id first last (keys.map fun k => some (decide (k ≤ x))) = some (first + i) := by
  induction keys with
  | nil => intro i k hk; simp at hk
  | cons l keys ih =>
    intro i k hk hkx hmax first last
    obtain ⟨hl, hasc⟩ := List.pairwise_cons.1 hasc
    cases i with
    | zero =>
      obtain rfl : l = k := by simpa using hk
      have habove : ∀ m ∈ keys, x < m := fun m hm =>
        lt_of_not_ge fun hmx => (hl m hm).not_ge (hmax m (List.mem_cons_of_mem _ hm) hmx)
      simp [lastMatch, hkx, lastMatch_below x habove]
    | succ i =>
      have hk : keys[i]? = some k := by simpa using hk
      have hlx : l ≤ x := (hl k (List.mem_of_getElem? hk)).le.trans hkx
      have := ih hasc hk hkx (fun m hm => hmax m (List.mem_cons_of_mem _ hm)) (first + 1)
        (some first)
      simp only [List.map_cons, lastMatch, hlx, decide_true, id_eq, this]
      congr 1
      omega

theorem flat_header {κ : Type} (keys : List κ) :
    flat (keys.map .num : List (Cell κ ρ)) = keys.map .num := by
  induction keys with
  | nil => rfl
  | cons k keys ih => simp [flat, flatCell, ih]

theorem firstMatch_false {test : ℕ → Option Bool} {is : List ℕ}
    (h : ∀ i ∈ is, test i = some false) : firstMatch test is = .ok none := by
  induction is with
  | nil => rfl
  | cons i is ih =>
    obtain ⟨hi, his⟩ := List.forall_mem_cons.1 h
    simp [firstMatch, hi, ih his]

section
variable {t x}

theorem Table.flat_header : flat t.header = t.header := Lookups.flat_header t.keys

theorem Table.scan_header (i : ℕ) (last : Option ℕ) : lastMatch (le x) i last t.header =
    lastMatch id i last (t.keys.map fun k => some (decide (k ≤ x))) := by
  rw [lastMatch_map, header, List.map_map]
  rfl

theorem Table.scan_rows (col : ℕ) (hcol : col = 1) (i : ℕ) (last : Option ℕ) :
    lastMatch (fun row : Cell κ ρ =>
        (if (cellsOf row).length ≤ col then none else (cellsOf row).head?).bind (le x)) i last
        ((t.keys.zip t.results).map fun e => .list [.num e.1, e.2]) =
      lastMatch id i last (t.keys.map fun k => some (decide (k ≤ x))) := by
  subst hcol
  have hkeys : (t.keys.zip t.results).map Prod.fst = t.keys :=
    List.map_fst_zip (Nat.le_of_eq t.length.symm)
  rw [lastMatch_map, List.map_map, ← congrArg (List.map _) hkeys, List.map_map]
  rfl

theorem Table.band_lookup {i : ℕ} (h : t.IsBand x i) :
    lastMatch id 0 none (t.keys.map fun k => some (decide (k ≤ x))) = some i := by
  obtain ⟨k, hk, hkx, hmax⟩ := h
  simpa using lastMatch_band x t.ascending hk hkx hmax 0 none

/-- In its band a lookup finds the result, but for what flattening moves and for `XLOOKUP`, which
stops at the first key. -/
theorem Table.lookups_band {i : ℕ} {r : Cell κ ρ} (h : t.IsBand x i) (hr : t.results[i]? = some r) :
    (∀ l ∈ t.lookups x wildcard, l = .ok r) ↔
      (flat t.results)[i]? = some r ∧ (flat t.results)[0]? = some r := by
  have hscan := band_lookup h
  have hne : r ≠ .none := fun hr' => t.nonNull (hr' ▸ List.mem_of_getElem? hr)
  have hfound : ∀ (error : String) (c : Option (Cell κ ρ)), found error c = .ok r ↔ c = some r := by
    intro error c
    match c with
    | none => simp [found]
    | some .none => simpa [found] using hne.symm
    | some (.num _) | some (.value _) | some (.list _) => simp [found]
  obtain ⟨k, hk, hkx, -⟩ := h
  have hzip : (t.keys.zip t.results)[i]? = some (k, r) := List.getElem?_zip_eq_some.2 ⟨hk, hr⟩
  have hfirst : firstMatch (fun j => t.header[j]?.bind (le x)) (List.range t.header.length) =
      .ok (some 0) := by
    cases hkeys : t.keys with
    | nil => simp [hkeys] at hk
    | cons k₀ keys =>
      have hk₀ : k₀ ≤ x := by
        have hasc := (List.pairwise_cons.1 (hkeys ▸ t.ascending)).1
        rw [hkeys] at hk
        cases i with
        | zero => simpa [Option.some.inj hk] using hkx
        | succ i => exact (hasc k (List.mem_of_getElem? (by simpa using hk))).le.trans hkx
      simp [header, hkeys, List.range_succ_eq_map, firstMatch, le, hk₀]
  have hx : XLOOKUP wildcard x t.header t.results .none (-1) 1 =
      .ok ((flat t.results)[0]?.getD .none) := by
    simp [XLOOKUP, flat_header, hfirst, bind, Except.bind]
  have hv : VLOOKUP x ((t.keys.zip t.results).map fun e => .list [.num e.1, e.2]) 2 true =
      .ok r := by
    simp only [VLOOKUP, if_true, scan_rows _ rfl, hscan]
    simp [hzip, cellsOf, hfound]
  have hh : HLOOKUP x [.list t.header, .list t.results] 2 true = .ok r := by
    simp [HLOOKUP, scan_header, hscan, hr]
  have hm : (MATCH x t.header 1).bind (INDEX t.results) = .ok r := by
    simp [MATCH, flat_header, scan_header, hscan, INDEX, hr, Except.bind]
  have hl : LOOKUP x t.header t.results = .ok r ↔ (flat t.results)[i]? = some r := by
    rw [LOOKUP, flat_header, scan_header, hscan, hfound]
    rfl
  have hz : (flat t.results)[0]?.getD .none = r ↔ (flat t.results)[0]? = some r := by
    cases (flat t.results)[0]? <;> simp [hne.symm]
  simp [lookups, hv, hh, hm, hl, hx, hz]

theorem Table.lookups_below (h : ∀ k ∈ t.keys, x < k) :
    ∀ l ∈ t.lookups x wildcard, ∃ error, l = .error error := by
  have hscan := lastMatch_below x h 0 none
  have hfirst : firstMatch (fun j => t.header[j]?.bind (le x)) (List.range t.header.length) =
      .ok none := by
    refine firstMatch_false fun j hj => ?_
    have hj : j < t.keys.length := by simpa [header] using hj
    simp [header, hj, le, not_le.2 (h _ (List.getElem_mem hj))]
  simp [lookups, VLOOKUP, HLOOKUP, LOOKUP, MATCH, XLOOKUP, scan_rows, scan_header, flat_header,
    hscan, hfirst, found, bind, Except.bind]

end

/-- The five approximate lookups agree on every band of `x`, and all raise below the keys, exactly
when flattening the results keeps the one of the band and it is the first of them. -/
theorem lookups_agree_iff : t.Agrees x wildcard ↔ t.Level x := by
  refine ⟨fun h i r hi hr => (Table.lookups_band wildcard hi hr).1 (h.1 i r hi hr),
    fun h => ⟨?_, ?_⟩⟩
  · exact fun i r hi hr => (Table.lookups_band wildcard hi hr).2 (h i r hi hr)
  · exact fun hx => Table.lookups_below wildcard hx

/-- A low and a high tariff. -/
def tariff : Table ℕ String where
  keys := [0, 10]
  results := [.value "low", .value "high"]
  ascending := by decide
  length := rfl
  nonNull := by simp

/-- In the high band `XLOOKUP` gives the low tariff. -/
theorem tariff_disagrees : tariff.IsBand 15 1 ∧
    tariff.lookups 15 (fun _ _ => false) =
      [.ok (.value "high"), .ok (.value "high"), .ok (.value "high"), .ok (.value "high"),
        .ok (.value "low")] :=
  ⟨⟨10, rfl, by decide, by decide⟩, rfl⟩

end RuleMind.Lookups
