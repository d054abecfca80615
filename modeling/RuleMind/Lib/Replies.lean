/-
  Machines that reply: each call changes the state and has an answer.

  Two machines are compared by the replies of whole runs.  States that are related, and stay so
  with equal replies, are not told apart by any run whose calls meet the side condition.
-/

namespace Lib

universe u v w x
variable {S : Type u} {T : Type v} {A : Type w} {B : Type x}

def replies (step : S → A → B × S) : S → List A → List B
  | _, [] => []
  | s, a :: as => (step s a).1 :: replies step (step s a).2 as

/-- Every call of a run meets `ok`, which reads the state before it. -/
def Throughout (step : S → A → B × S) (ok : S → A → Prop) : S → List A → Prop
  | _, [] => True
  | s, a :: as => ok s a ∧ Throughout step ok (step s a).2 as

instance Throughout.decidable (step : S → A → B × S) (ok : S → A → Prop)
    [∀ s a, Decidable (ok s a)] : ∀ (s : S) (as : List A), Decidable (Throughout step ok s as)
  | _, [] => inferInstanceAs (Decidable True)
  | s, a :: as =>
    have := Throughout.decidable step ok (step s a).2 as
    inferInstanceAs (Decidable (ok s a ∧ Throughout step ok (step s a).2 as))

/-- **The simulation rule.**  Related states give equal replies. -/
theorem replies_eq {step : S → A → B × S} {step' : T → A → B × T} {ok : S → A → Prop}
    {R : S → T → Prop}
    (hstep : ∀ s t a, R s t → ok s a →
      (step s a).1 = (step' t a).1 ∧ R (step s a).2 (step' t a).2) :
    ∀ {as : List A} {s : S} {t : T}, R s t → Throughout step ok s as →
      replies step s as = replies step' t as
  | [], _, _, _, _ => rfl
  | a :: as, s, t, hrel, hok => by
    obtain ⟨hreply, hnext⟩ := hstep s t a hrel hok.1
    rw [replies, replies, hreply, replies_eq hstep hnext hok.2]

end Lib
