/-
  Computations that may raise, run to their end: a sequence returns if each of its
  steps does.
-/
import Mathlib.Data.List.Forall2

namespace RuleMind

variable {ε α β : Type}

variable {f : α → Except ε β} {x : Except ε α} {a : α} {as : List α} {bs : List β} {γ : Type}

variable {b : β} {e : ε} {R : α → β → Prop}

theorem bind_eq_ok : (x >>= f) = .ok b ↔ ∃ a, x = .ok a ∧ f a = .ok b := by
  cases x with
  | error e => simp [bind, Except.bind]
  | ok a => simp [bind, Except.bind]

theorem bind_eq_error : (x >>= f) = .error e ↔ x = .error e ∨ ∃ a, x = .ok a ∧ f a = .error e := by
  cases x with
  | error e' => simp [bind, Except.bind]
  | ok a => simp [bind, Except.bind]

theorem map_eq_ok {f : α → β} : x.map f = .ok b ↔ ∃ a, x = .ok a ∧ f a = b := by
  cases x with
  | error e => simp [Except.map]
  | ok a => simp [Except.map]

theorem mapError_eq_ok {ε' : Type} {f : ε → ε'} : x.mapError f = .ok a ↔ x = .ok a := by
  cases x with
  | error e => simp [Except.mapError]
  | ok b => simp [Except.mapError]

theorem toOption_eq_some : x.toOption = some a ↔ x = .ok a := by
  cases x with
  | error e => simp [Except.toOption]
  | ok b => simp [Except.toOption]

theorem mapM_eq_ok : as.mapM f = .ok bs ↔ List.Forall₂ (fun a b => f a = .ok b) as bs := by
  induction as generalizing bs with
  | nil =>
    rw [List.mapM_nil, List.forall₂_nil_left_iff]
    constructor
    · intro h
      cases h
      rfl
    · rintro rfl
      rfl
  | cons a as ih =>
    rw [List.mapM_cons, bind_eq_ok, List.forall₂_cons_left_iff]
    constructor
    · rintro ⟨b, hb, h⟩
      obtain ⟨bs', hbs, hret⟩ := bind_eq_ok.1 h
      cases hret
      exact ⟨b, bs', hb, ih.1 hbs, rfl⟩
    · rintro ⟨b, bs', hb, hbs, rfl⟩
      exact ⟨b, hb, bind_eq_ok.2 ⟨bs', ih.2 hbs, rfl⟩⟩

theorem mapM_exists (h : ∀ a ∈ as, ∃ b, f a = .ok b) : ∃ bs, as.mapM f = .ok bs := by
  induction as with
  | nil => exact ⟨[], rfl⟩
  | cons a as ih =>
    obtain ⟨b, hb⟩ := h a List.mem_cons_self
    obtain ⟨bs, hbs⟩ := ih fun a ha => h a (List.mem_cons_of_mem _ ha)
    exact ⟨b :: bs, mapM_eq_ok.2 (.cons hb (mapM_eq_ok.1 hbs))⟩

theorem mapM_eq_error (h : as.mapM f = .error e) : ∃ a ∈ as, f a = .error e := by
  induction as with
  | nil => cases h
  | cons a as ih =>
    rw [List.mapM_cons] at h
    rcases bind_eq_error.1 h with h | ⟨b, -, h⟩
    · exact ⟨a, List.mem_cons_self, h⟩
    · rcases bind_eq_error.1 h with h | ⟨bs, -, h⟩
      · simp_all
      · cases h

theorem mapM_of_ok {g : α → β} (h : ∀ a ∈ as, f a = .ok (g a)) :
    as.mapM f = .ok (as.map g) := by simp_all [mapM_eq_ok]

theorem mem_left_of_forall₂ (h : List.Forall₂ R as bs) (ha : a ∈ as) : ∃ b ∈ bs, R a b := by
  induction h with
  | nil => cases ha
  | @cons c d as bs hhead _ ih => grind

theorem pairwise_of_forall₂ {P : α → α → Prop} {Q : β → β → Prop}
    (h : List.Forall₂ R as bs) (hq : bs.Pairwise Q)
    (hp : ∀ a ∈ as, ∀ a' ∈ as, ∀ b b', R a b → R a' b' → Q b b' → P a a') : as.Pairwise P := by
  induction h with
  | nil => exact List.Pairwise.nil
  | @cons a b as bs hhead htail ih =>
    obtain ⟨hb, hq⟩ := List.pairwise_cons.1 hq
    refine List.Pairwise.cons ?_ (ih hq fun x hx y hy =>
      hp x (List.mem_cons_of_mem _ hx) y (List.mem_cons_of_mem _ hy))
    intro a' ha'
    obtain ⟨b', hb', hr⟩ := mem_left_of_forall₂ htail ha'
    grind

theorem mapM_mem (h : as.mapM f = .ok bs) :
    (∀ a ∈ as, ∃ b ∈ bs, f a = .ok b) ∧ (∀ b ∈ bs, ∃ a ∈ as, f a = .ok b) := by
  have hall := mapM_eq_ok.1 h
  refine ⟨fun a ha => mem_left_of_forall₂ hall ha, fun b hb => ?_⟩
  exact mem_left_of_forall₂ (List.Forall₂.flip hall) hb

theorem mapM_flatMap {h : β → Except ε γ} {g : α → List β} :
    (as.flatMap g).mapM h = (as.mapM fun a => (g a).mapM h).map List.flatten := by
  induction as with
  | nil => rfl
  | cons a as ih =>
    rw [List.flatMap_cons, List.mapM_append, List.mapM_cons, ih]
    cases (g a).mapM h with
    | error e => rfl
    | ok bs =>
      cases as.mapM fun a => (g a).mapM h with
      | error e => rfl
      | ok bss => rfl

theorem mapM_congr {g : α → Except ε β} (h : ∀ a ∈ as, f a = g a) : as.mapM f = as.mapM g := by
  induction as with
  | nil => rfl
  | cons a as ih => simp_all

theorem mapM_map_ok {k : β → γ} :
    (as.mapM fun a => (f a).map k) = (as.mapM f).map (List.map k) := by
  induction as with
  | nil => rfl
  | cons a as ih =>
    rw [List.mapM_cons, List.mapM_cons, ih]
    cases f a with
    | error e => rfl
    | ok b =>
      cases as.mapM f with
      | error e => rfl
      | ok bs => rfl

theorem mapM_forall₂ {f : α → Except ε γ} {g : β → Except ε γ}
    (h : List.Forall₂ (fun a b => g b = f a) as bs) :
    bs.mapM g = as.mapM f := by
  induction h with
  | nil => rfl
  | cons hhead _ ih => rw [List.mapM_cons, List.mapM_cons, hhead, ih]

end RuleMind
