import Noissh.Keystrokes

/-! The keystrokes of the interactive loop: what is read of the local terminal, less the escape
sequences (`src/status.rs`), is typed at the client. -/
namespace Noissh

namespace EscapeKeys

/-- `Ctrl-^` -/
def escapeKey : UInt8 := 0x1e

structure InputOutcome where
  forward : Bytes := []
  quit : Bool := false
  deriving DecidableEq, Repr

/-- A byte is a command after the prefix, or the prefix, or is forwarded. -/
def processByte (s : Bool × InputOutcome) (b : UInt8) : Bool × InputOutcome :=
  if s.1 then
    if b = 0x2e ∨ b = 0x71 then (false,{ s.2 with quit := true })
    else if b = escapeKey then (false,{ s.2 with forward := s.2.forward ++ [escapeKey] })
    else (false,s.2)
  else if b = escapeKey then (true,s.2)
  else (false,{ s.2 with forward := s.2.forward ++ [b] })

def processInput (pending : Bool) (input : Bytes) : Bool × InputOutcome := input.foldl processByte (pending,{})

/-- The loop reads until the terminal has nothing more: `calls` are the calls of `type_input`. -/
structure Reading where
  pending : Bool := false
  calls : List Bytes := []
  quit : Bool := false
  deriving DecidableEq, Repr

def readOnce (r : Reading) (input : Bytes) : Reading :=
  let (pending,outcome) := processInput r.pending input
  { pending
    calls := if outcome.forward.isEmpty then r.calls else r.calls ++ [outcome.forward]
    quit := r.quit || outcome.quit }

def readAll (reads : List Bytes) : Reading := reads.foldl readOnce {}

/-- What keystrokes say: what is to be forwarded, whether to quit, and whether a prefix waits for its
command. -/
inductive Says : Bytes → InputOutcome → Bool → Prop
  | nil : Says [] {} false
  | waits : Says [escapeKey] {} true
  | plain {b : UInt8} {input : Bytes} {out : InputOutcome} {pending : Bool} (key : b ≠ escapeKey) :
    Says input out pending → Says (b :: input) { out with forward := b :: out.forward } pending
  | literal {input : Bytes} {out : InputOutcome} {pending : Bool} :
    Says input out pending → Says (escapeKey :: escapeKey :: input) { out with forward := escapeKey :: out.forward } pending
  | quit {b : UInt8} {input : Bytes} {out : InputOutcome} {pending : Bool} (command : b = 0x2e ∨ b = 0x71) :
    Says input out pending → Says (escapeKey :: b :: input) { out with quit := true } pending
  | dropped {b : UInt8} {input : Bytes} {out : InputOutcome} {pending : Bool} (command : b ≠ 0x2e ∧ b ≠ 0x71 ∧ b ≠ escapeKey) :
    Says input out pending → Says (escapeKey :: b :: input) out pending

/-- More output after some. -/
def InputOutcome.append (first second : InputOutcome) : InputOutcome :=
  ⟨first.forward ++ second.forward,first.quit || second.quit⟩

theorem processByte_out (pending : Bool) (out : InputOutcome) (b : UInt8) :
    processByte (pending,out) b = ((processByte (pending,{}) b).1,out.append (processByte (pending,{}) b).2) := by
  unfold processByte InputOutcome.append
  dsimp only
  split
  · split
    · simp
    · split <;> simp
  · split <;> simp

theorem foldl_out (input : Bytes) (pending : Bool) (out : InputOutcome) :
    input.foldl processByte (pending,out) = ((processInput pending input).1,out.append (processInput pending input).2) := by
  induction input generalizing pending out with
  | nil => simp [processInput,InputOutcome.append]
  | cons b rest ih =>
    rw [processInput,List.foldl_cons,List.foldl_cons,processByte_out,ih,ih _ (processByte (pending,{}) b).2]
    simp [InputOutcome.append,List.append_assoc,Bool.or_assoc]

theorem processInput_cons (pending : Bool) (b : UInt8) (input : Bytes) :
    processInput pending (b :: input) =
      ((processInput (processByte (pending,{}) b).1 input).1,
        (processByte (pending,{}) b).2.append (processInput (processByte (pending,{}) b).1 input).2) := by
  rw [processInput,List.foldl_cons]
  exact foldl_out input _ _

theorem processInput_append (pending : Bool) (first second : Bytes) :
    processInput pending (first ++ second) =
      ((processInput (processInput pending first).1 second).1,
        (processInput pending first).2.append (processInput (processInput pending first).1 second).2) := by
  rw [processInput,List.foldl_append]
  exact foldl_out second _ _

/-- Keystrokes, alone and after a prefix that was read before. -/
theorem both_said (input : Bytes) :
    Says input (processInput false input).2 (processInput false input).1 ∧
      Says (escapeKey :: input) (processInput true input).2 (processInput true input).1 := by
  induction input with
  | nil => exact ⟨.nil,.waits⟩
  | cons b rest ih =>
    obtain ⟨alone,after⟩ := ih
    rw [processInput_cons,processInput_cons]
    constructor
    · by_cases key : b = escapeKey
      · subst key
        exact after
      · simp only [processByte,Bool.false_eq_true,if_false,key]
        exact .plain key alone
    · by_cases command : b = 0x2e ∨ b = 0x71
      · simp only [processByte,if_true,command]
        exact .quit command alone
      · by_cases key : b = escapeKey
        · subst key
          exact .literal alone
        · simp only [processByte,if_true,if_neg command,if_neg key]
          exact .dropped ⟨fun dot => command (.inl dot),fun q => command (.inr q),key⟩ alone

/-- However the keystrokes are split into reads, the calls and the wish to quit are those of all of
them at once. -/
theorem readAll_eq (reads : List Bytes) :
    ((readAll reads).pending,InputOutcome.mk (readAll reads).calls.flatten (readAll reads).quit) =
      processInput false reads.flatten := by
  have all : ∀ (reads : List Bytes) (r : Reading) (before : Bytes),
      (r.pending,InputOutcome.mk r.calls.flatten r.quit) = processInput false before →
      ((reads.foldl readOnce r).pending,InputOutcome.mk (reads.foldl readOnce r).calls.flatten (reads.foldl readOnce r).quit) =
        processInput false (before ++ reads.flatten) := by
    intro reads
    induction reads with
    | nil =>
      intro r before same
      rw [List.flatten_nil,List.append_nil]
      exact same
    | cons input rest ih =>
      intro r before same
      rw [List.foldl_cons,List.flatten_cons,← List.append_assoc]
      refine ih _ _ ?_
      rw [processInput_append,← same]
      simp only [readOnce,InputOutcome.append]
      by_cases silent : (processInput r.pending input).2.forward.isEmpty = true
      · rw [if_pos silent,List.isEmpty_iff.mp silent,List.append_nil]
      · rw [if_neg silent,List.flatten_append,List.flatten_singleton]
  exact all reads {} [] rfl

end EscapeKeys

namespace Stack

open EscapeKeys

variable {snow : Snow} {em : Emulator} {login : Login} {sid : SessionId} {keys : Side → NoiseSession snow}
    {s : Stack snow em login}

/-- The bytes of each call that types at the client. -/
def typedCalls (schedule : List Action) : List Bytes := schedule.filterMap fun a =>
  match a with
  | .client (.typeInput bytes) => some bytes
  | _ => none

theorem run_typed (schedule : List Action) (s : Stack snow em login) :
    (s.run sid schedule).typed = s.typed ++ (typedCalls schedule).flatten := by
  induction schedule generalizing s with
  | nil => exact (List.append_nil _).symm
  | cons a rest ih =>
    refine (ih (s.step sid a)).trans ?_
    have next : (s.step sid a).typed = s.typed ++ (typedCalls [a]).flatten := by
      cases a with
      | client x => cases x <;> simp [step,typedBy,typedCalls]
      | server x => simp [step,typedBy,typedCalls]
    rw [next,List.append_assoc,← List.flatten_append,typedCalls,typedCalls,typedCalls,
      ← List.filterMap_append,List.singleton_append]

theorem Begun.untyped {s : Stack snow em login} (begun : s.Begun sid) : s.typed = [] := by
  cases begun
  rfl

/-- However a session's keystrokes are split into reads, its shell is typed what they say, each byte
once and in order, and nothing of the escape sequences among them; and the client keeps what the
shell has not been typed. -/
theorem keys_through (begun : s.Begun sid) (paired : Paired keys) (schedule : List Action)
    (guarded : Machine.Along (step sid) (fun s a => s.Ideal sid keys a ∧ s.keepsTyping sid a = true) schedule s)
    (reads : List Bytes) (typed : typedCalls schedule = (readAll reads).calls) :
    ∃ said pending, Says reads.flatten said pending ∧ (readAll reads).quit = said.quit ∧ (readAll reads).pending = pending ∧
      let e := s.run sid schedule
      e.client.shell.inputTx.buffer = said.forward.drop e.client.shell.inputTx.base ∧
        ∀ y, e.server.sessions[sid]? = some y → y.typed <+: said.forward := by
  have meant := (both_said reads.flatten).1
  rw [← readAll_eq] at meant
  refine ⟨_,_,meant,rfl,rfl,?_⟩
  obtain ⟨t,c,typing⟩ := begun.types paired schedule guarded
  obtain ⟨kept,given⟩ := typing.through
  have all : (s.run sid schedule).typed = (readAll reads).calls.flatten := by
    rw [run_typed,begun.untyped,typed,List.nil_append]
  rw [all] at kept given
  exact ⟨kept,fun y there => (given y there).1⟩

/-- What is read of the terminal for `talk`: a prefix and a key it drops, then the keys typed. -/
theorem keys_through_talk :
    ∃ said pending, Says [0x1e,0x78,0x61,0x62,0x04] said pending ∧ (readAll [[0x1e],[0x78,0x61,0x62],[0x04]]).quit = said.quit ∧
      (readAll [[0x1e],[0x78,0x61,0x62],[0x04]]).pending = pending ∧
      let e := sampleStart.run sampleId talk
      e.client.shell.inputTx.buffer = said.forward.drop e.client.shell.inputTx.base ∧
        ∀ y, e.server.sessions[sampleId]? = some y → y.typed <+: said.forward :=
  keys_through sampleStart_begun sampleKeys_paired talk (by decide +kernel) [[0x1e],[0x78,0x61,0x62],[0x04]] (by decide +kernel)

end Stack
end Noissh
