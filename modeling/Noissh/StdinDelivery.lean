import Noissh.DriverRuns

/-! A remote command's stdin over every run: when its close may be passed on without losing
bytes of the client. -/
namespace Noissh

namespace StreamEvent

end StreamEvent

namespace Driver

variable {x : Side} {pending : List StreamEvent} {d : Driver} {io : Io}

def staged (d : Driver) (k : Nat) : Nat := (d.execs[k]?).elim 0 (·.proc.stdinBuf.length)

/-- What an event does to the commands. -/
theorem handleEvent_execs (d : Driver) (x : Side) (io : Io) (event : StreamEvent) (k : Nat) :
    (d.handleEvent x io event).execs[k]? = d.execs[k]? ∨
    (∃ metadata errId, event = .opened k .exec metadata ∧ d.privsep = false ∧ (io k).started = true ∧
      (d.handleEvent x io event).execs[k]? = some ⟨{},errId⟩) ∨
    (∃ status e, event = .closed k status ∧ d.execs[k]? = some e ∧
      (d.handleEvent x io event).execs[k]? = some { e with proc := e.proc.closeStdin (io k).closing }) ∨
    (event = .reset k ∧ (d.handleEvent x io event).execs[k]? = none) := by
  cases event with
  | opened j kind metadata =>
    cases kind with
    | forward =>
      left
      simp only [handleEvent,onOpened]
      split <;> rfl
    | exec =>
      cases x with
      | client => exact .inl rfl
      | server =>
        simp only [handleEvent,onOpened]
        by_cases refused : d.privsep = true
        · rw [if_pos refused]; exact .inl rfl
        · rw [if_neg refused]
          by_cases started : (io j).started = true
          · rw [if_pos started]
            by_cases same : k = j
            · subst same
              exact .inr (.inl ⟨metadata,_,rfl,by simpa using refused,started,by simp; rfl⟩)
            · exact .inl (TreeMaps.getElem?_insert_ne _ _ same)
          · rw [if_neg started]; exact .inl rfl
    | session | fileTransfer | agent => exact .inl rfl
  | readable j => exact .inl rfl
  | closed j status =>
    simp only [handleEvent,onClosed]
    cases held : d.execs[j]? with
    | none => exact .inl rfl
    | some e =>
      by_cases same : k = j
      · subst same
        exact .inr (.inr (.inl ⟨status,e,rfl,held,by simp⟩))
      · exact .inl (TreeMaps.getElem?_insert_ne _ _ same)
  | reset j =>
    simp only [handleEvent,onReset]
    cases held : d.execs[j]? with
    | none => exact .inl rfl
    | some e =>
      by_cases same : k = j
      · subst same
        exact .inr (.inr (.inr ⟨rfl,by simp⟩))
      · exact .inl (TreeMaps.getElem?_erase_ne _ same)

end Driver

namespace Driver

/-- The pipe takes two bytes, is interrupted, then takes more. -/
def reading : Io := fun _ => { writes := [.ok 2,.interrupted,.ok 5] }

end Driver

end Noissh
