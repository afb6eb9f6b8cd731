import Mathlib.Logic.Function.Basic

/-!
# Runs of a step function

A run takes one action after the other.  What each step keeps, the run keeps;
where a step keeps it only under a condition, the condition is asked of every
step of the run, in the state that step starts from.
-/

namespace Stepping

variable {σ α : Type}

def run (step : σ → α → σ) (actions : List α) (start : σ) : σ :=
  actions.foldl step start

/-- Every step of the run meets the condition where it is taken. -/
def Meets (step : σ → α → σ) (condition : σ → α → Prop) :
    List α → σ → Prop
  | [], _ => True
  | action :: rest, start =>
      condition start action ∧ Meets step condition rest (step start action)

instance decidableMeets (step : σ → α → σ) (condition : σ → α → Prop)
    [∀ state action, Decidable (condition state action)] :
    (actions : List α) → (start : σ) → Decidable (Meets step condition actions start)
  | [], _ => inferInstanceAs (Decidable True)
  | action :: rest, start =>
      have := decidableMeets step condition rest (step start action)
      inferInstanceAs (Decidable (condition start action ∧
        Meets step condition rest (step start action)))

section

variable {step : σ → α → σ} {condition : σ → α → Prop}

@[simp]
theorem run_nil (start : σ) : run step [] start = start := rfl

@[simp]
theorem run_cons (action : α) (rest : List α) (start : σ) :
    run step (action :: rest) start = run step rest (step start action) := rfl

theorem run_append (first second : List α) (start : σ) :
    run step (first ++ second) start = run step second (run step first start) :=
  List.foldl_append ..

theorem meets_append {first second : List α} {start : σ} :
    Meets step condition (first ++ second) start ↔
      Meets step condition first start ∧
        Meets step condition second (run step first start) := by
  induction first generalizing start with
  | nil => simp [Meets]
  | cons action first ih => simp only [List.cons_append, Meets, ih, run_cons, and_assoc]

/-- A condition on the actions alone. -/
theorem meets_of_forall {condition : α → Prop} {actions : List α}
    (hactions : ∀ action ∈ actions, condition action) (start : σ) :
    Meets step (fun _ => condition) actions start := by
  induction actions generalizing start with
  | nil => trivial
  | cons action rest ih =>
    obtain ⟨haction, hrest⟩ := List.forall_mem_cons.mp hactions
    exact ⟨haction, ih hrest _⟩

/-- What every step keeps where its condition is met holds after the run. -/
theorem Meets.invariant {inv : σ → Prop}
    (hstep : ∀ state action, condition state action → inv state →
      inv (step state action))
    {actions : List α} {start : σ} (hmeets : Meets step condition actions start)
    (hstart : inv start) : inv (run step actions start) := by
  induction actions generalizing start with
  | nil => exact hstart
  | cons action rest ih =>
    obtain ⟨haction, hrest⟩ := hmeets
    exact ih hrest (hstep start action haction hstart)

/-- Two conditions that come to the same where the invariant holds are met by the
same runs, if one of them lets every step keep the invariant. -/
theorem meets_congr {inv : σ → Prop} {property : σ → α → Prop}
    (hstep : ∀ state action, condition state action → inv state →
      inv (step state action))
    (hiff : ∀ state action, inv state →
      (property state action ↔ condition state action))
    (actions : List α) {start : σ} (hstart : inv start) :
    Meets step property actions start ↔ Meets step condition actions start := by
  induction actions generalizing start with
  | nil => exact Iff.rfl
  | cons action rest ih =>
    rw [Meets, Meets, hiff start action hstart]
    exact and_congr_right fun haction => ih (hstep start action haction hstart)

/-- What every step keeps holds after the run. -/
theorem run_invariant {inv : σ → Prop}
    (hstep : ∀ state action, inv state → inv (step state action))
    (actions : List α) {start : σ} (hstart : inv start) :
    inv (run step actions start) := by
  induction actions generalizing start with
  | nil => exact hstart
  | cons action rest ih => exact ih (hstep start action hstart)

/-- A reflexive and transitive relation that every step respects relates the
ends of a run. -/
theorem run_related {rel : σ → σ → Prop} (hrefl : ∀ state, rel state state)
    (htrans : ∀ {first second third}, rel first second → rel second third →
      rel first third)
    (hstep : ∀ state action, rel state (step state action))
    (actions : List α) (start : σ) : rel start (run step actions start) := by
  induction actions generalizing start with
  | nil => exact hrefl start
  | cons action rest ih => exact htrans (hstep start action) (ih _)

end

end Stepping
