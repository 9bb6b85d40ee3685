import Mathlib.Data.List.Induction
import Mathlib.Order.Basic

/-!
# Runs of deterministic machines

A machine is a step function `ι → σ → ο × σ`: an input takes a state to an output and the
next state. This file runs one over a list of inputs and packages the inductions that
statements about whole runs need:

- `Mealy.invariant`: what every step preserves holds after every run;
- `Mealy.history`: the same for a property of the state and of the inputs so far;
- `Mealy.clocked_invariant`: the same for runs whose clock readings never decrease, with a
  property that may depend on the last reading.
-/

namespace Mealy

variable {σ ι ο : Type*} (step : ι → σ → ο × σ)

/-- The state after a list of inputs. -/
def after (s : σ) (inputs : List ι) : σ := inputs.foldl (fun s i => (step i s).2) s

/-- The outputs of a run, one for each input. -/
def outputs : σ → List ι → List ο
  | _, [] => []
  | s, i :: rest => (step i s).1 :: outputs (step i s).2 rest

@[simp]
theorem after_nil (s : σ) : after step s [] = s := rfl

@[simp]
theorem after_cons (s : σ) (i : ι) (rest : List ι) :
    after step s (i :: rest) = after step (step i s).2 rest := rfl

theorem after_append (s : σ) (a b : List ι) :
    after step s (a ++ b) = after step (after step s a) b := List.foldl_append

theorem after_concat (s : σ) (inputs : List ι) (i : ι) :
    after step s (inputs ++ [i]) = (step i (after step s inputs)).2 := by
  rw [after_append, after_cons, after_nil]

@[simp]
theorem outputs_nil (s : σ) : outputs step s [] = [] := rfl

@[simp]
theorem outputs_cons (s : σ) (i : ι) (rest : List ι) :
    outputs step s (i :: rest) = (step i s).1 :: outputs step (step i s).2 rest := rfl

theorem outputs_append (s : σ) (a b : List ι) :
    outputs step s (a ++ b) = outputs step s a ++ outputs step (after step s a) b := by
  induction a generalizing s with
  | nil => rfl
  | cons i rest ih => rw [List.cons_append, outputs_cons, ih, outputs_cons, List.cons_append,
      after_cons]

theorem outputs_concat (s : σ) (inputs : List ι) (i : ι) :
    outputs step s (inputs ++ [i])
      = outputs step s inputs ++ [(step i (after step s inputs)).1] := by
  rw [outputs_append, outputs_cons, outputs_nil]

/-- An output comes from the input at its place. -/
theorem exists_of_outputs_eq {s : σ} {inputs : List ι} {a rest : List ο} {o : ο}
    (h : outputs step s inputs = a ++ o :: rest) :
    ∃ before i later, inputs = before ++ i :: later ∧ outputs step s before = a
      ∧ (step i (after step s before)).1 = o
      ∧ outputs step (step i (after step s before)).2 later = rest := by
  induction a generalizing s inputs with
  | nil =>
    cases inputs with
    | nil => cases h
    | cons i later =>
      rw [outputs_cons, List.nil_append, List.cons.injEq] at h
      exact ⟨[], i, later, rfl, rfl, h.1, h.2⟩
  | cons first others ih =>
    cases inputs with
    | nil => cases h
    | cons i inputs =>
      rw [outputs_cons, List.cons_append, List.cons.injEq] at h
      obtain ⟨before, j, later, rfl, hbefore, hj, hlater⟩ := ih h.2
      exact ⟨i :: before, j, later, rfl, by rw [outputs_cons, hbefore, h.1], hj, hlater⟩

/-- Related states of two machines that answer the inputs of a kind alike give the same outputs. -/
theorem outputs_eq_of_related {σ' : Type*} {step' : ι → σ' → ο × σ'} {R : σ → σ' → Prop}
    {P : ι → Prop} (hstep : ∀ i s s', P i → R s s' →
      (step i s).1 = (step' i s').1 ∧ R (step i s).2 (step' i s').2)
    {s : σ} {s' : σ'} (h : R s s') {inputs : List ι} (hinputs : ∀ i ∈ inputs, P i) :
    outputs step s inputs = outputs step' s' inputs := by
  induction inputs generalizing s s' with
  | nil => rfl
  | cons i rest ih =>
    obtain ⟨hi, hrest⟩ := List.forall_mem_cons.mp hinputs
    obtain ⟨hout, hnext⟩ := hstep i s s' hi h
    rw [outputs_cons, outputs_cons, hout, ih hnext hrest]

/-! ## Invariants -/

variable {step}

/-- What every step preserves holds after every run. -/
theorem invariant {I : σ → Prop} (hstep : ∀ i s, I s → I (step i s).2) {s : σ} (h : I s)
    (inputs : List ι) : I (after step s inputs) := by
  induction inputs generalizing s with
  | nil => exact h
  | cons i rest ih => exact ih (hstep i s h)

/-- A property of the inputs so far and the state they lead to holds along a run if it holds
at its start and is carried over every further input. -/
theorem history {s : σ} {I : List ι → σ → Prop} (hinit : I [] s)
    (hstep : ∀ inputs i, I inputs (after step s inputs) →
      I (inputs ++ [i]) (step i (after step s inputs)).2)
    (inputs : List ι) : I inputs (after step s inputs) := by
  induction inputs using List.reverseRecOn with
  | nil => exact hinit
  | append_singleton inputs i ih =>
    rw [after_concat]
    exact hstep inputs i ih

/-! ## Clocks -/

/-- The last clock reading after a list of inputs, starting from `c`. An input without a
clock keeps it. -/
def lastClock (clock : ι → Option ℕ) (c : ℕ) (inputs : List ι) : ℕ :=
  inputs.foldl (fun c i => (clock i).getD c) c

/-- The clock readings of the inputs never decrease, from `c` on. -/
def ClockedFrom (clock : ι → Option ℕ) : ℕ → List ι → Prop
  | _, [] => True
  | c, i :: rest => c ≤ (clock i).getD c ∧ ClockedFrom clock ((clock i).getD c) rest

variable {clock : ι → Option ℕ}

theorem clockedFrom_append {c : ℕ} {a b : List ι} :
    ClockedFrom clock c (a ++ b)
      ↔ ClockedFrom clock c a ∧ ClockedFrom clock (lastClock clock c a) b := by
  induction a generalizing c with
  | nil => simp [ClockedFrom, lastClock]
  | cons i rest ih =>
    simp only [List.cons_append, ClockedFrom, lastClock, List.foldl_cons, and_assoc] at ih ⊢
    rw [ih]

/-- Nondecreasing readings, stated on the list of readings. -/
theorem clockedFrom_of_pairwise {c : ℕ} {inputs : List ι}
    (h : (inputs.filterMap clock).Pairwise (· ≤ ·)) (hc : ∀ t ∈ inputs.filterMap clock, c ≤ t) :
    ClockedFrom clock c inputs := by
  induction inputs generalizing c with
  | nil => trivial
  | cons i rest ih =>
    cases hi : clock i with
    | none =>
      rw [List.filterMap_cons_none hi] at h hc
      exact ⟨by simp [hi], by simpa [hi] using ih h hc⟩
    | some t =>
      rw [List.filterMap_cons_some hi] at h hc
      obtain ⟨hhead, htail⟩ := List.pairwise_cons.mp h
      refine ⟨by simpa [hi] using hc t List.mem_cons_self, ?_⟩
      simpa [hi] using ih htail hhead

/-- The last reading is not after a bound of all of them. -/
theorem lastClock_le {c bound : ℕ} {inputs : List ι} (hc : c ≤ bound)
    (h : ∀ t ∈ inputs.filterMap clock, t ≤ bound) : lastClock clock c inputs ≤ bound := by
  induction inputs generalizing c with
  | nil => exact hc
  | cons i rest ih =>
    refine ih ?_ fun t ht => h t ?_
    · change (clock i).getD c ≤ bound
      cases hi : clock i with
      | none => exact hc
      | some t => exact h t (List.mem_filterMap.mpr ⟨i, List.mem_cons_self, hi⟩)
    · obtain ⟨j, hj, hjt⟩ := List.mem_filterMap.mp ht
      exact List.mem_filterMap.mpr ⟨j, List.mem_cons_of_mem i hj, hjt⟩

/-- What every step preserves while the clock does not go back holds after every run whose
clock does not go back. -/
theorem clocked_invariant {I : ℕ → σ → Prop}
    (hstep : ∀ c i s, I c s → c ≤ (clock i).getD c → I ((clock i).getD c) (step i s).2)
    {c : ℕ} {s : σ} (h : I c s) {inputs : List ι} (hclock : ClockedFrom clock c inputs) :
    I (lastClock clock c inputs) (after step s inputs) := by
  induction inputs generalizing c s with
  | nil => exact h
  | cons i rest ih => exact ih (hstep c i s h hclock.1) hclock.2

end Mealy
