/-
  The lines of a text: as `str.splitlines` has them, and by line feeds alone.

  `splitlines` breaks a text at ten characters and at a carriage return with its line
  feed.  Each line by line feeds is a run of its lines (`splitlines_flatMap`), and where
  only one of these is not blank, it is the line but for spaces (`one_part`).
-/
import Mathlib.Data.List.Basic

namespace Lib

/-- Line feed, vertical tab, form feed, carriage return, the separators of files, groups and
    records, next line, and the separators of lines and paragraphs. -/
def isBreak (c : Char) : Bool :=
  let n := c.toNat
  (10 ≤ n && n ≤ 13) || (0x1c ≤ n && n ≤ 0x1e) || n == 0x85 || n == 0x2028 || n == 0x2029

def splitlines : List Char → List (List Char)
  | [] => []
  | '\r' :: '\n' :: cs => [] :: splitlines cs
  | c :: cs =>
    if isBreak c then [] :: splitlines cs
    else
      match splitlines cs with
      | [] => [[c]]
      | line :: lines => (c :: line) :: lines

example : splitlines "a\r\nb\u2028\n".toList = ["a".toList, "b".toList, []] := by decide

variable {x y : List Char} {c : Char}

theorem splitlines_cons (h : ¬ (c = '\r' ∧ x.head? = some '\n')) : splitlines (c :: x) =
    if isBreak c then [] :: splitlines x
    else
      match splitlines x with
      | [] => [[c]]
      | line :: lines => (c :: line) :: lines := by
  rw [splitlines]
  intro cs hc hx
  exact h ⟨hc, by rw [hx]; rfl⟩

theorem splitlines_ne_nil (c : Char) (x : List Char) : splitlines (c :: x) ≠ [] := by
  by_cases hspecial : c = '\r' ∧ x.head? = some '\n'
  · obtain ⟨rfl, hhead⟩ := hspecial
    obtain ⟨x, rfl⟩ := List.head?_eq_some_iff.1 hhead
    exact List.cons_ne_nil _ _
  · rw [splitlines_cons hspecial]
    grind

theorem splitlines_newline : ∀ x y : List Char,
    splitlines (x ++ '\n' :: y) = splitlines (x ++ ['\n']) ++ splitlines y
  | [], _ => rfl
  | c :: x, y => by
    by_cases hspecial : c = '\r' ∧ x.head? = some '\n'
    · obtain ⟨rfl, hhead⟩ := hspecial
      obtain ⟨x, rfl⟩ := List.head?_eq_some_iff.1 hhead
      show [] :: splitlines (x ++ '\n' :: y) = ([] :: splitlines (x ++ ['\n'])) ++ splitlines y
      rw [splitlines_newline x y]
      rfl
    · cases x with
      | nil =>
        by_cases hc : c = '\r'
        · subst hc
          rfl
        grind [splitlines_cons, isBreak, splitlines]
      | cons d x =>
        have hfeed : ∀ z, splitlines (c :: d :: x ++ z) = if isBreak c then
            [] :: splitlines (d :: x ++ z)
          else
            match splitlines (d :: x ++ z) with
            | [] => [[c]]
            | line :: lines => (c :: line) :: lines := fun z => splitlines_cons hspecial
        rw [hfeed, hfeed, splitlines_newline (d :: x) y]
        grind [splitlines_ne_nil]

theorem splitlines_first : ∀ {x line : List Char} {lines : List (List Char)},
    splitlines x = line :: lines → ∃ sep rest, x = line ++ (sep ++ rest) ∧
      (∀ c ∈ sep, isBreak c = true) ∧ splitlines rest = lines
  | [], _, _, h => by cases h
  | c :: x, line, lines, h => by
    by_cases hspecial : c = '\r' ∧ x.head? = some '\n'
    · obtain ⟨rfl, hhead⟩ := hspecial
      obtain ⟨x, rfl⟩ := List.head?_eq_some_iff.1 hhead
      cases h
      exact ⟨['\r', '\n'], x, rfl, by simp [isBreak], rfl⟩
    · rw [splitlines_cons hspecial] at h
      split at h
      · rename_i hbreak
        cases h
        exact ⟨[c], x, rfl, List.forall_mem_singleton.2 hbreak, rfl⟩
      · split at h
        · rename_i hnil
          cases h
          cases x with
          | nil => exact ⟨[], [], rfl, List.forall_mem_nil _, rfl⟩
          | cons d x => exact absurd hnil (splitlines_ne_nil d x)
        · rename_i line' lines' hlines
          cases h
          obtain ⟨sep, rest, rfl, hsep, hrest⟩ := splitlines_first hlines
          exact ⟨sep, rest, rfl, hsep, hrest⟩

section Blank
variable {space : Char → Bool}

def Blank (space : Char → Bool) (x : List Char) : Prop := ∀ c ∈ x, space c = true

instance (space : Char → Bool) (x : List Char) : Decidable (Blank space x) :=
  List.decidableBAll (space · = true) x

def parts (space : Char → Bool) (x : List Char) : List (List Char) :=
  (splitlines x).filter fun line => ¬ Blank space line

theorem blank_append : Blank space (x ++ y) ↔ Blank space x ∧ Blank space y :=
  List.forall_mem_append

theorem parts_first (hspace : ∀ c, isBreak c = true → space c = true) {line : List Char}
    {lines : List (List Char)} (h : splitlines x = line :: lines) : ∃ sep rest,
      x = line ++ (sep ++ rest) ∧ Blank space sep ∧ splitlines rest = lines ∧
      parts space x = if Blank space line then parts space rest else line :: parts space rest := by
  obtain ⟨sep, rest, hx, hsep, hrest⟩ := splitlines_first h
  refine ⟨sep, rest, hx, fun c hc => hspace c (hsep c hc), hrest, ?_⟩
  rw [parts, h, List.filter_cons, parts, hrest]
  simp

theorem eq_nil_of_splitlines (h : splitlines x = []) : x = [] := by
  cases x with
  | nil => rfl
  | cons c x => exact absurd h (splitlines_ne_nil c x)

theorem parts_eq_nil (hspace : ∀ c, isBreak c = true → space c = true) :
    parts space x = [] ↔ Blank space x := by
  induction hlines : splitlines x generalizing x with
  | nil =>
    obtain rfl := eq_nil_of_splitlines hlines
    exact ⟨fun _ => List.forall_mem_nil _, fun _ => rfl⟩
  | cons line lines ih =>
    obtain ⟨sep, rest, rfl, hsep, hrest, hparts⟩ := parts_first hspace hlines
    rw [hparts, blank_append, blank_append, ← ih hrest]
    split
    · rename_i hblank
      exact ⟨fun h => ⟨hblank, hsep, h⟩, fun h => h.2.2⟩
    · rename_i hblank
      exact ⟨fun h => (by cases h), fun h => absurd h.1 hblank⟩

/-- **Where one line is not blank**, it is the text but for spaces. -/
theorem one_part (hspace : ∀ c, isBreak c = true → space c = true) {part : List Char}
    (h : parts space x = [part]) :
    ∃ pre post, x = pre ++ (part ++ post) ∧ Blank space pre ∧ Blank space post := by
  induction hlines : splitlines x generalizing x with
  | nil =>
    obtain rfl := eq_nil_of_splitlines hlines
    cases h
  | cons line lines ih =>
    obtain ⟨sep, rest, rfl, hsep, hrest, hparts⟩ := parts_first hspace hlines
    rw [hparts] at h
    split at h
    · rename_i hblank
      obtain ⟨pre, post, rfl, hpre, hpost⟩ := ih h hrest
      grind [blank_append]
    · obtain ⟨rfl, hnil⟩ := List.cons.inj h
      refine ⟨[], sep ++ rest, rfl, List.forall_mem_nil _, ?_⟩
      exact blank_append.2 ⟨hsep, (parts_eq_nil hspace).1 hnil⟩

end Blank

/-! ### Line feeds -/

def feedLines (x : List Char) : List (List Char) := x.splitOn '\n'

theorem intercalate_feed {lines : List (List Char)} (h : lines ≠ []) :
    ['\n'].intercalate lines ++ ['\n'] = lines.flatMap (· ++ ['\n']) := by
  induction lines with
  | nil => exact absurd rfl h
  | cons line lines ih =>
    cases lines with
    | nil => rw [List.intercalate_singleton, List.flatMap_singleton]
    | cons line' lines => simp_all

theorem splitlines_flatMap (x : List Char) : splitlines (x ++ ['\n']) =
    (feedLines x).flatMap fun line => splitlines (line ++ ['\n']) := by
  have hjoin : x ++ ['\n'] = (feedLines x).flatMap (· ++ ['\n']) := by
    rw [feedLines, ← intercalate_feed (List.splitOn_ne_nil _ _), List.intercalate_splitOn]
  rw [hjoin]
  induction feedLines x with
  | nil => rfl
  | cons line lines ih =>
    rw [List.flatMap_cons, List.flatMap_cons, ← ih, List.append_assoc, List.singleton_append,
      splitlines_newline]

theorem splitlines_end : ∀ x : List Char,
    splitlines (x ++ ['\n']) = splitlines x ∨ splitlines (x ++ ['\n']) = splitlines x ++ [[]]
  | [] => .inr rfl
  | c :: x => by
    by_cases hspecial : c = '\r' ∧ x.head? = some '\n'
    · obtain ⟨rfl, hhead⟩ := hspecial
      obtain ⟨x, rfl⟩ := List.head?_eq_some_iff.1 hhead
      rcases splitlines_end x with h | h
      · exact .inl (congrArg ([] :: ·) h)
      · exact .inr (congrArg ([] :: ·) h)
    · cases x with
      | nil =>
        by_cases hc : c = '\r'
        · subst hc
          exact .inl rfl
        · rw [List.cons_append, List.nil_append, splitlines_cons fun h => hc h.1,
            splitlines_cons hspecial]
          split
          · exact .inr rfl
          · exact .inl rfl
      | cons d x =>
        have hfeed : splitlines (c :: d :: x ++ ['\n']) = if isBreak c then
            [] :: splitlines (d :: x ++ ['\n'])
          else
            match splitlines (d :: x ++ ['\n']) with
            | [] => [[c]]
            | line :: lines => (c :: line) :: lines := splitlines_cons hspecial
        rw [hfeed, splitlines_cons hspecial]
        rcases splitlines_end (d :: x) with h | h
        · rw [h]
          exact .inl rfl
        · rw [h]
          split
          · exact .inr rfl
          · grind

theorem parts_end (space : Char → Bool) (x : List Char) :
    parts space (x ++ ['\n']) = parts space x := by
  rcases splitlines_end x with h | h
  · rw [parts, h, parts]
  · rw [parts, h, List.filter_append, parts]
    simp [Blank]

end Lib
