import Mathlib.Order.Basic

/-!
# Segments along a line

A list of elements that each end at a point and start where the one before ended. `List.Along` says
something about every element and its start. What holds along two lists holds along their
concatenation, the second starting at `List.lastStop` of the first.
-/

namespace List

variable {α β : Type*} (stop : α → β)

/-- Every element has the property together with its start. -/
def Along (P : β → α → Prop) : (start : β) → List α → Prop
  | _, [] => True
  | start, a :: l => P start a ∧ Along P (stop a) l

/-- Where the last element stops. -/
def lastStop : (start : β) → List α → β
  | start, [] => start
  | _, a :: l => lastStop (stop a) l

variable {stop} {P Q : β → α → Prop} {start : β}

@[simp]
theorem along_nil : Along stop P start [] := trivial

@[simp]
theorem lastStop_nil : lastStop stop start [] = start := rfl

@[simp]
theorem lastStop_cons (a : α) (l : List α) :
    lastStop stop start (a :: l) = lastStop stop (stop a) l := rfl

@[simp]
theorem along_cons {a : α} {l : List α} :
    Along stop P start (a :: l) ↔ P start a ∧ Along stop P (stop a) l := Iff.rfl

@[simp]
theorem lastStop_append (l l' : List α) :
    lastStop stop start (l ++ l') = lastStop stop (lastStop stop start l) l' := by
  induction l generalizing start with
  | nil => rfl
  | cons a l ih => exact ih

theorem along_append {l l' : List α} :
    Along stop P start (l ++ l') ↔
      Along stop P start l ∧ Along stop P (lastStop stop start l) l' := by
  induction l generalizing start with
  | nil => simp
  | cons a l ih => simp [ih, and_assoc]

theorem Along.mono (hPQ : ∀ start a, P start a → Q start a) {l : List α}
    (h : Along stop P start l) : Along stop Q start l := by
  induction l generalizing start with
  | nil => trivial
  | cons a l ih => exact ⟨hPQ _ _ h.1, ih h.2⟩

/-- Two properties at once. -/
theorem Along.and {l : List α} (h : Along stop P start l) (h' : Along stop Q start l) :
    Along stop (fun start a => P start a ∧ Q start a) start l := by
  induction l generalizing start with
  | nil => trivial
  | cons a l ih => exact ⟨⟨h.1, h'.1⟩, ih h.2 h'.2⟩

/-- Elements that do not go back stop at or after their start. -/
theorem Along.le_lastStop [Preorder β] {l : List α}
    (h : Along stop (fun start a => start ≤ stop a) start l) : start ≤ lastStop stop start l := by
  induction l generalizing start with
  | nil => exact le_rfl
  | cons a l ih => exact h.1.trans (ih h.2)

/-- Elements that do not go back lie between the start and the last stop. -/
theorem Along.within [Preorder β] {l : List α}
    (h : Along stop (fun start a => start ≤ stop a) start l) :
    Along stop (fun s a => start ≤ s ∧ s ≤ stop a ∧ stop a ≤ lastStop stop start l) start l := by
  induction l generalizing start with
  | nil => exact trivial
  | cons a l ih =>
    refine ⟨⟨le_rfl, h.1, h.2.le_lastStop⟩, (ih h.2).mono fun s b hb => ?_⟩
    exact ⟨h.1.trans hb.1, hb.2⟩

end List
