import NostrPubsub.ToMathlib.Mealy

/-!
# Lifetimes of keys in a machine

A machine whose states hold keys that come and go. Beside the run, every key that is held has the
calls since it was last added and what they returned. `Mealy.lifetime_invariant` is the induction for
what these calls say about the key.
-/

namespace Mealy

variable {σ ι ο κ : Type*} (step : ι → σ → ο × σ) (holds : σ → κ → Prop)
  [∀ s, DecidablePred (holds s)]

/-- One call, with the calls of the lifetimes of the keys that are held after it. -/
def recordStep (i : ι) (s : σ × (κ → List (ι × ο))) : ο × (σ × (κ → List (ι × ο))) :=
  let (out, next) := step i s.1
  (out, next, fun k =>
    if holds next k then
      if holds s.1 k then s.2 k ++ [(i, out)] else [(i, out)]
    else [])

/-- The calls of the lifetimes after a run, from a state that holds no key. -/
def lifetimes (s : σ) (inputs : List ι) : κ → List (ι × ο) :=
  (after (recordStep step holds) (s, fun _ => []) inputs).2

theorem fst_after_recordStep (s : σ × (κ → List (ι × ο))) (inputs : List ι) :
    (after (recordStep step holds) s inputs).1 = after step s.1 inputs := by
  induction inputs generalizing s with
  | nil => rfl
  | cons i rest ih => exact ih _

/-- The calls of the lifetimes, one call further. -/
theorem lifetimes_concat (s : σ) (inputs : List ι) (i : ι) (k : κ) :
    lifetimes step holds s (inputs ++ [i]) k =
      if holds (step i (after step s inputs)).2 k then
        if holds (after step s inputs) k then
          lifetimes step holds s inputs k ++ [(i, (step i (after step s inputs)).1)]
        else [(i, (step i (after step s inputs)).1)]
      else [] := by
  have hfst := fst_after_recordStep step holds (s, fun _ => []) inputs
  rw [lifetimes, after_concat]
  simp only [recordStep, hfst]
  rfl

/-- What holds of a key when it is added, and is carried over every call while it is held, holds of
every key that is held after a run. -/
theorem lifetime_invariant {I : List (ι × ο) → κ → σ → Prop} {s : σ} (hinit : ∀ k, ¬holds s k)
    (hborn : ∀ i s k, ¬holds s k → holds (step i s).2 k → I [(i, (step i s).1)] k (step i s).2)
    (hkept : ∀ i s k calls, holds s k → holds (step i s).2 k → I calls k s →
      I (calls ++ [(i, (step i s).1)]) k (step i s).2)
    (inputs : List ι) {k : κ} (hk : holds (after step s inputs) k) :
    I (lifetimes step holds s inputs k) k (after step s inputs) := by
  induction inputs using List.reverseRecOn generalizing k with
  | nil => exact absurd hk (hinit k)
  | append_singleton inputs i ih =>
    rw [after_concat] at hk ⊢
    rw [lifetimes_concat, if_pos hk]
    by_cases hold : holds (after step s inputs) k
    · rw [if_pos hold]
      exact hkept i _ k _ hold hk (ih hold)
    · rw [if_neg hold]
      exact hborn i _ k hold hk

end Mealy
