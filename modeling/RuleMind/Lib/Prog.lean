/-
  Programs over a state that may raise: what was written before an exception stays
  written, as in a language with mutable objects.

  `Respects R m`: `m` cannot tell states apart that `R` relates.  It raises or
  returns the same on both and leaves them related.  `Preserves P m`: what `m`
  leaves has `P` if the state before had it, also after an exception.  `Moves R m`:
  what `m` leaves is related to the state before, for a preorder `R`.  The rules
  follow the constructs a program is made of.
-/
import Mathlib.Order.Defs.Unbundled

namespace RuleMind

/-- A program over states `σ`, raising `ε`, returning `α`. -/
def Prog (σ ε α : Type) : Type := σ → Except ε α × σ

namespace Prog
variable {σ ε α β : Type}

instance : Monad (Prog σ ε) where
  pure a := fun s => (.ok a, s)
  bind m f := fun s =>
    match m s with
    | (.ok a, s') => f a s'
    | (.error e, s') => (.error e, s')

def raise (e : ε) : Prog σ ε α := fun s => (.error e, s)

def attempt (m : Prog σ ε α) : Prog σ ε (Except ε α) := fun s => (.ok (m s).1, (m s).2)

def gets (f : σ → α) : Prog σ ε α := fun s => (.ok (f s), s)

def modify (f : σ → σ) : Prog σ ε Unit := fun s => (.ok (), f s)

/-- A step of the outside world: a result, and what it leaves. -/
def step (f : σ → α × σ) : Prog σ ε α := fun s => (.ok (f s).1, (f s).2)

def ofExcept (x : Except ε α) : Prog σ ε α := fun s => (x, s)

/-- A program run on a changed state; what it leaves is reconciled with the state before. -/
def bracket (enter : σ → σ) (leave : σ → σ → σ) (m : Prog σ ε α) : Prog σ ε α :=
  fun s => ((m (enter s)).1, leave s (m (enter s)).2)

theorem bind_apply (m : Prog σ ε α) (f : α → Prog σ ε β) (s : σ) :
    (m >>= f) s = match m s with
      | (.ok a, s') => f a s'
      | (.error e, s') => (.error e, s') := rfl

variable {m : Prog σ ε α} {f : α → Prog σ ε β} {s : σ}

theorem bind_ok {s' : σ} {a : α} (h : m s = (.ok a, s')) : (m >>= f) s = f a s' := by
  rw [bind_apply, h]

theorem bind_error {s' : σ} {e : ε} (h : m s = (.error e, s')) : (m >>= f) s = (.error e, s') := by
  rw [bind_apply, h]

theorem bind_eq_ok {b : β} {t : σ}
    (h : (m >>= f) s = (.ok b, t)) : ∃ a s', m s = (.ok a, s') ∧ f a s' = (.ok b, t) := by
  rw [bind_apply] at h
  grind

instance : LawfulMonad (Prog σ ε) := by
  refine LawfulMonad.mk' _ ?_ ?_ ?_
  · intro α m
    funext s
    show (m >>= _) s = m s
    rw [bind_apply]
    cases hm : m s with
    | mk r s' => cases r <;> rfl
  · intros
    rfl
  · intro α β γ m f g
    funext s
    rw [bind_apply, bind_apply, bind_apply]
    cases hm : m s with
    | mk r s' => cases r <;> rfl

/-! ### Programs that cannot tell related states apart -/

section Respects
variable {R : σ → σ → Prop}

def Respects (R : σ → σ → Prop) (m : Prog σ ε α) : Prop :=
  ∀ s t, R s t → (m s).1 = (m t).1 ∧ R (m s).2 (m t).2

namespace Respects

theorem pure (a : α) : Respects R (Pure.pure a : Prog σ ε α) := fun _ _ h => ⟨rfl, h⟩

theorem raise (e : ε) : Respects R (raise e : Prog σ ε α) := fun _ _ h => ⟨rfl, h⟩

theorem ofExcept (x : Except ε α) : Respects R (ofExcept x : Prog σ ε α) := fun _ _ h => ⟨rfl, h⟩

theorem bind {m : Prog σ ε α} {f : α → Prog σ ε β} (hm : Respects R m)
    (hf : ∀ a, Respects R (f a)) : Respects R (m >>= f) := by
  intro s t h
  obtain ⟨hr, hs⟩ := hm s t h
  rw [bind_apply, bind_apply]
  cases hms : m s with
  | mk r s' =>
    cases hmt : m t with
    | mk r' t' =>
      rw [hms, hmt] at hr hs
      have hr : r = r' := hr
      subst hr
      cases r with
      | ok a => exact hf a s' t' hs
      | error e => exact ⟨rfl, hs⟩

theorem attempt {m : Prog σ ε α} (hm : Respects R m) : Respects R m.attempt := by
  intro s t h
  obtain ⟨hr, hs⟩ := hm s t h
  exact ⟨congrArg Except.ok hr, hs⟩

theorem gets {f : σ → α} (hf : ∀ s t, R s t → f s = f t) : Respects R (gets f : Prog σ ε α) :=
  fun s t h => ⟨congrArg Except.ok (hf s t h), h⟩

theorem modify {f : σ → σ} (hf : ∀ s t, R s t → R (f s) (f t)) :
    Respects R (modify f : Prog σ ε Unit) :=
  fun s t h => ⟨rfl, hf s t h⟩

theorem step {f : σ → α × σ} (hf : ∀ s t, R s t → (f s).1 = (f t).1 ∧ R (f s).2 (f t).2) :
    Respects R (step f : Prog σ ε α) :=
  fun s t h => ⟨congrArg Except.ok (hf s t h).1, (hf s t h).2⟩

theorem bracket {enter : σ → σ} {leave : σ → σ → σ} {m : Prog σ ε α}
    (he : ∀ s t, R s t → R (enter s) (enter t)) (hm : Respects R m)
    (hl : ∀ s t s' t', R s t → R s' t' → R (leave s s') (leave t t')) :
    Respects R (bracket enter leave m) := by
  intro s t h
  obtain ⟨hr, hs⟩ := hm _ _ (he s t h)
  exact ⟨hr, hl s t _ _ h hs⟩

theorem ite {p : Prop} [Decidable p] {m n : Prog σ ε α} (hm : Respects R m) (hn : Respects R n) :
    Respects R (if p then m else n) := by
  split
  · exact hm
  · exact hn

end Respects

end Respects

namespace Preserves
variable {P : σ → Prop}

end Preserves

/-! ### Programs that move along a preorder -/

def Moves (R : σ → σ → Prop) (m : Prog σ ε α) : Prop := ∀ s, R s (m s).2

namespace Moves
variable {R : σ → σ → Prop} [IsPreorder σ R]

theorem pure (a : α) : Moves R (Pure.pure a : Prog σ ε α) := fun s => refl s

theorem raise (e : ε) : Moves R (raise e : Prog σ ε α) := fun s => refl s

theorem ofExcept (x : Except ε α) : Moves R (ofExcept x : Prog σ ε α) := fun s => refl s

theorem gets (f : σ → α) : Moves R (gets f : Prog σ ε α) := fun s => refl s

theorem bind {m : Prog σ ε α} {f : α → Prog σ ε β} (hm : Moves R m) (hf : ∀ a, Moves R (f a)) :
    Moves R (m >>= f) := by
  intro s
  have hs := hm s
  rw [bind_apply]
  cases hms : m s with
  | mk r s' =>
    rw [hms] at hs
    cases r with
    | ok a => exact trans_of R hs (hf a s')
    | error e => exact hs

omit [IsPreorder σ R] in
theorem attempt {m : Prog σ ε α} (hm : Moves R m) : Moves R m.attempt := hm

omit [IsPreorder σ R] in
theorem ite {p : Prop} [Decidable p] {m n : Prog σ ε α} (hm : Moves R m) (hn : Moves R n) :
    Moves R (if p then m else n) := by
  split
  · exact hm
  · exact hn

end Moves

end Prog

end RuleMind
