import Mathlib.Logic.Function.Iterate

/-! Runs of a deterministic machine under an arbitrary finite schedule of actions.
A guard constrains each action in the state it is taken from, so that a property of
runs can be stated for exactly the schedules that meet it. -/
namespace Machine

variable {σ α : Type} (step : σ → α → σ)

def run : List α → σ → σ
  | [], s => s
  | a :: rest, s => run rest (step s a)

/-- Every action of the schedule meets the guard in the state it is taken from. -/
def Along (guard : σ → α → Prop) : List α → σ → Prop
  | [], _ => True
  | a :: rest, s => guard s a ∧ Along guard rest (step s a)

instance alongDecidable (guard : σ → α → Prop) [∀ s a, Decidable (guard s a)] :
    (schedule : List α) → (s : σ) → Decidable (Along step guard schedule s)
  | [], _ => .isTrue trivial
  | a :: rest, s =>
    have := alongDecidable guard rest (step s a)
    inferInstanceAs (Decidable (guard s a ∧ _))

variable {step}

@[simp] theorem run_nil (s : σ) : run step [] s = s := rfl

@[simp] theorem run_cons (a : α) (rest : List α) (s : σ) :
    run step (a :: rest) s = run step rest (step s a) := rfl

theorem run_append (first second : List α) (s : σ) :
    run step (first ++ second) s = run step second (run step first s) := by
  induction first generalizing s with
  | nil => rfl
  | cons a rest ih => exact ih (step s a)

theorem along_append {guard : σ → α → Prop} (first second : List α) (s : σ) :
    Along step guard (first ++ second) s ↔
      Along step guard first s ∧ Along step guard second (run step first s) := by
  induction first generalizing s with
  | nil => simp [Along]
  | cons a rest ih => simp only [List.cons_append,Along,ih,run_cons,and_assoc]

theorem Along.imp {weak strong : σ → α → Prop} (le : ∀ s a, strong s a → weak s a)
    {schedule : List α} {s : σ} (holds : Along step strong schedule s) :
    Along step weak schedule s := by
  induction schedule generalizing s with
  | nil => trivial
  | cons a rest ih => exact ⟨le _ _ holds.1,ih holds.2⟩

/-- What the guarded steps preserve may be used to meet another guard. -/
theorem Along.of_invariant {guard weak : σ → α → Prop} (invariant : σ → Prop)
    (preserved : ∀ s a, invariant s → guard s a → invariant (step s a))
    (meets : ∀ s a, invariant s → guard s a → weak s a) {schedule : List α} {s : σ} (valid : invariant s)
    (holds : Along step guard schedule s) : Along step weak schedule s := by
  induction schedule generalizing s with
  | nil => trivial
  | cons a rest ih => exact ⟨meets s a valid holds.1,ih (preserved s a valid holds.1) holds.2⟩

theorem along_trivial (schedule : List α) (s : σ) : Along step (fun _ _ => True) schedule s := by
  induction schedule generalizing s with
  | nil => trivial
  | cons a rest ih => exact ⟨trivial,ih _⟩

/-- What each guarded step preserves, a guarded run preserves. -/
theorem run_invariant {guard : σ → α → Prop} (invariant : σ → Prop)
    (preserved : ∀ s a, invariant s → guard s a → invariant (step s a))
    (schedule : List α) (s : σ) (valid : invariant s) (guarded : Along step guard schedule s) :
    invariant (run step schedule s) := by
  induction schedule generalizing s with
  | nil => exact valid
  | cons a rest ih => exact ih _ (preserved s a valid guarded.1) guarded.2

/-- The unguarded case: a property kept by every step is kept by every run. -/
theorem run_invariant_always (invariant : σ → Prop)
    (preserved : ∀ s a, invariant s → invariant (step s a))
    (schedule : List α) (s : σ) (valid : invariant s) : invariant (run step schedule s) := by
  induction schedule generalizing s with
  | nil => exact valid
  | cons a rest ih => exact ih _ (preserved s a valid)

/-- A machine that from every state of some rank reaches the goal in one step, or falls to a
lower rank, reaches the goal. -/
theorem reaches {ρ : Type} {lt : ρ → ρ → Prop} (founded : WellFounded lt) (next : σ → σ) (goal : σ → Prop)
    (ranked : ρ → σ → Prop)
    (progress : ∀ r s, ranked r s → goal (next s) ∨ ∃ r', lt r' r ∧ ranked r' (next s))
    (r : ρ) (s : σ) (start : ranked r s) : ∃ n, goal (next^[n] s) := by
  induction r using founded.induction generalizing s with
  | _ r ih =>
    rcases progress r s start with done | ⟨r',lower,again⟩
    · exact ⟨1,done⟩
    · obtain ⟨n,reached⟩ := ih r' lower (next s) again
      exact ⟨n + 1,reached⟩

end Machine
