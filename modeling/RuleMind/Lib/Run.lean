/-
  Runs of a guarded step function.

  `step s a` is the state after action `a`, or `none` where `a` is not enabled.
  A run is judged step by step: `Reach step ok s₀ s` says that `s` is reached
  from `s₀` by enabled steps that all meet the side condition `ok`, which reads
  the state before the step and the action.  `exec` computes a run from its list
  of actions, and `reach_exec` turns a computed run into a `Reach`.
-/
import Mathlib.Data.List.Basic

namespace Lib

universe u v
variable {S : Type u} {A : Type v}

/-- The states reached from `s₀` by steps that all meet `ok`. -/
inductive Reach (step : S → A → Option S) (ok : S → A → Prop) (s₀ : S) : S → Prop
  | start : Reach step ok s₀ s₀
  | next {s a s'} : Reach step ok s₀ s → ok s a → step s a = some s' → Reach step ok s₀ s'

/-- The states reached from `s₀` by any enabled steps. -/
abbrev Reachable (step : S → A → Option S) : S → S → Prop := Reach step fun _ _ => True

variable {step : S → A → Option S} {ok : S → A → Prop}

/-- **The invariant rule.**  What holds at the start and is kept by every step
    that meets `ok` holds in every state reached. -/
theorem Reach.invariant {I : S → Prop} {s₀ s : S} (h₀ : I s₀)
    (hs : ∀ s a s', I s → ok s a → step s a = some s' → I s')
    (h : Reach step ok s₀ s) : I s := by
  induction h with
  | start => exact h₀
  | next _ hok hstep ih => exact hs _ _ _ ih hok hstep

theorem Reach.trans {s₀ s₁ s₂ : S} (h₁ : Reach step ok s₀ s₁) (h₂ : Reach step ok s₁ s₂) :
    Reach step ok s₀ s₂ := by
  induction h₂ with
  | start => exact h₁
  | next _ hok hstep ih => exact .next ih hok hstep

theorem Reach.mono {ok' : S → A → Prop} {s₀ s : S} (hok : ∀ s a, ok s a → ok' s a)
    (h : Reach step ok s₀ s) : Reach step ok' s₀ s := by
  induction h with
  | start => exact .start
  | next _ ha hstep ih => exact .next ih (hok _ _ ha) hstep

/-- The state after a list of actions, `none` if one of them is not enabled. -/
def exec (step : S → A → Option S) (s : S) : List A → Option S
  | [] => some s
  | a :: as => (step s a).bind fun s' => exec step s' as

/-- Every step of the run of `as` from `s` meets `ok`. -/
def Along (step : S → A → Option S) (ok : S → A → Prop) (s : S) : List A → Prop
  | [] => True
  | a :: as => ok s a ∧ (step s a).elim True fun s' => Along step ok s' as

instance Along.decidable [∀ s a, Decidable (ok s a)] :
    ∀ (as : List A) (s : S), Decidable (Along step ok s as)
  | [], _ => .isTrue trivial
  | a :: as, s =>
    match h : step s a with
    | none => decidable_of_iff (ok s a) (by simp [Along, h])
    | some s' =>
      have := Along.decidable as s'
      decidable_of_iff (ok s a ∧ Along step ok s' as) (by simp [Along, h])

theorem Along.cons {s s' : S} {a : A} {as : List A} (hok : ok s a) (hs : step s a = some s')
    (h : Along step ok s' as) : Along step ok s (a :: as) := by
  refine ⟨hok, ?_⟩
  rw [hs]
  exact h

theorem Along.of_forall {as : List A} (h : ∀ a ∈ as, ∀ s, ok s a) (s : S) : Along step ok s as := by
  induction as generalizing s with
  | nil => exact trivial
  | cons a as ih =>
    refine ⟨h a List.mem_cons_self s, ?_⟩
    cases step s a with
    | none => trivial
    | some s' => exact ih (fun b hb => h b (List.mem_cons_of_mem _ hb)) s'

theorem Along.append {as bs : List A} {s s' : S} (h : Along step ok s as)
    (hs : exec step s as = some s') (h' : Along step ok s' bs) : Along step ok s (as ++ bs) := by
  induction as generalizing s with
  | nil =>
    cases Option.some.inj hs
    exact h'
  | cons a as ih =>
    obtain ⟨t, ht, hs⟩ := Option.bind_eq_some_iff.1 hs
    have hrest := h.2
    rw [ht] at hrest
    exact .cons h.1 ht (ih hrest hs)

theorem reach_exec : ∀ {as : List A} {s s' : S}, exec step s as = some s' →
    Along step ok s as → Reach step ok s s'
  | [], s, s', h, _ => by
    cases Option.some.inj h
    exact .start
  | a :: as, s, s', h, hok => by
    obtain ⟨t, ht, h⟩ := Option.bind_eq_some_iff.1 h
    have hrest := hok.2
    rw [ht] at hrest
    exact (Reach.next .start hok.1 ht).trans (reach_exec h hrest)

theorem along_true : ∀ (as : List A) (s : S), Along step (fun _ _ => True) s as
  | [], _ => trivial
  | a :: as, s => by
    refine ⟨trivial, ?_⟩
    cases step s a with
    | none => trivial
    | some s' => exact along_true as s'

theorem reachable_exec {as : List A} {s s' : S} (h : exec step s as = some s') :
    Reachable step s s' :=
  reach_exec h (along_true as s)

end Lib
