import Noissh.Machine

/-! Forward simulation. One machine simulates another when, from related states, it answers
every guarded step of the other by steps of its own, and the states are related again. -/
namespace Machine

variable {σ α τ β υ γ : Type}

/-- From related states each step that meets its guard is answered by steps that meet theirs. -/
structure Simulates (step : σ → α → σ) (guard : σ → α → Prop) (step' : τ → β → τ) (guard' : τ → β → Prop)
    (related : σ → τ → Prop) : Prop where
  answer : ∀ (s : σ) (t : τ) (a : α), related s t → guard s a →
    ∃ actions, Along step' guard' actions t ∧ related (step s a) (run step' actions t)

variable {step : σ → α → σ} {guard : σ → α → Prop} {step' : τ → β → τ} {guard' : τ → β → Prop}
  {step'' : υ → γ → υ} {guard'' : υ → γ → Prop} {related : σ → τ → Prop} {related' : τ → υ → Prop}

/-- What is answered step by step is answered as a whole. -/
theorem Simulates.run (sim : Simulates step guard step' guard' related) (schedule : List α) {s : σ} {t : τ}
    (start : related s t) (guarded : Along step guard schedule s) :
    ∃ actions, Along step' guard' actions t ∧ related (run step schedule s) (run step' actions t) := by
  induction schedule generalizing s t with
  | nil => exact ⟨[],trivial,start⟩
  | cons a rest ih =>
    obtain ⟨first,allowed,next⟩ := sim.answer s t a start guarded.1
    obtain ⟨later,allowed',last⟩ := ih next guarded.2
    refine ⟨first ++ later,(along_append first later t).mpr ⟨allowed,allowed'⟩,?_⟩
    rw [run_append]
    exact last

/-- Simulations compose. -/
theorem Simulates.trans (sim : Simulates step guard step' guard' related)
    (sim' : Simulates step' guard' step'' guard'' related') :
    Simulates step guard step'' guard'' (fun s u => ∃ t, related s t ∧ related' t u) where
  answer s u a both allowed := by
    obtain ⟨t,near,far⟩ := both
    obtain ⟨actions,between,next⟩ := sim.answer s t a near allowed
    obtain ⟨last,allowed',next'⟩ := sim'.run actions far between
    exact ⟨last,allowed',_,next,next'⟩

variable {ω : Type}

/-- What is seen at each step, from the state before it and its action. -/
def observed (step : σ → α → σ) (look : σ → α → List ω) : List α → σ → List ω
  | [], _ => []
  | a :: rest, s => look s a ++ observed step look rest (step s a)

@[simp] theorem observed_nil (look : σ → α → List ω) (s : σ) : observed step look [] s = [] := rfl

@[simp] theorem observed_cons (look : σ → α → List ω) (a : α) (rest : List α) (s : σ) :
    observed step look (a :: rest) s = look s a ++ observed step look rest (step s a) := rfl

/-- What each guarded step preserves, with what it shows, a run preserves with all it shows. -/
theorem run_observed (look : σ → α → List ω) (invariant : List ω → σ → Prop)
    (preserved : ∀ seen s a, invariant seen s → guard s a → invariant (seen ++ look s a) (step s a))
    (schedule : List α) (seen : List ω) (s : σ) (valid : invariant seen s) (guarded : Along step guard schedule s) :
    invariant (seen ++ observed step look schedule s) (run step schedule s) := by
  induction schedule generalizing seen s with
  | nil =>
    rw [observed_nil,List.append_nil]
    exact valid
  | cons a rest ih =>
    rw [observed_cons,← List.append_assoc]
    exact ih _ _ (preserved seen s a valid guarded.1) guarded.2

/-- The unguarded case. -/
theorem run_observed_always (look : σ → α → List ω) (invariant : List ω → σ → Prop)
    (preserved : ∀ seen s a, invariant seen s → invariant (seen ++ look s a) (step s a))
    (schedule : List α) (seen : List ω) (s : σ) (valid : invariant seen s) :
    invariant (seen ++ observed step look schedule s) (run step schedule s) :=
  run_observed look invariant (fun seen s a here _ => preserved seen s a here) schedule seen s valid (along_trivial schedule s)

theorem run_eq_foldl (schedule : List α) (s : σ) : run step schedule s = schedule.foldl step s := by
  induction schedule generalizing s with
  | nil => rfl
  | cons a rest ih => exact ih (step s a)

end Machine
