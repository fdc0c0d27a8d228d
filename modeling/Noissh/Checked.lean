import Noissh.Splice

/-! Word arithmetic and slices that fail instead of wrapping or reading out of range, and the
bounds under which they return. -/
namespace Checked

open Splice

variable {α β : Type}

/-- The sum of two `w`-bit words. -/
def add (w a b : Nat) : Option Nat := if a + b < 2^w then some (a + b) else none

def mul (w a b : Nat) : Option Nat := if a * b < 2^w then some (a * b) else none

def sub (a b : Nat) : Option Nat := if b ≤ a then some (a - b) else none

/-- A word cast to `w` bits, none of which may be lost. -/
def cast (w a : Nat) : Option Nat := if a < 2^w then some a else none

/-- The elements `lo ..< hi`. -/
def slice (l : List α) (lo hi : Nat) : Option (List α) :=
  if lo ≤ hi ∧ hi ≤ l.length then some ((l.drop lo).take (hi - lo)) else none

/-- What is left without the first `n` elements. -/
def drain (l : List α) (n : Nat) : Option (List α) := if n ≤ l.length then some (l.drop n) else none

/-- Overwrite the elements `lo ..< hi` with as many others. -/
def copy (l : List α) (lo hi : Nat) (data : List α) : Option (List α) :=
  if lo ≤ hi ∧ hi ≤ l.length ∧ hi - lo = data.length then some (splice l lo data) else none

theorem add_some {w a b : Nat} (fits : a + b < 2^w) : add w a b = some (a + b) := if_pos fits

theorem mul_some {w a b : Nat} (fits : a * b < 2^w) : mul w a b = some (a * b) := if_pos fits

theorem sub_some {a b : Nat} (le : b ≤ a) : sub a b = some (a - b) := if_pos le

theorem cast_some {w a : Nat} (fits : a < 2^w) : cast w a = some a := if_pos fits

theorem slice_some {l : List α} {lo hi : Nat} (ordered : lo ≤ hi) (fits : hi ≤ l.length) :
    slice l lo hi = some ((l.drop lo).take (hi - lo)) := if_pos ⟨ordered,fits⟩

theorem drain_some {l : List α} {n : Nat} (fits : n ≤ l.length) : drain l n = some (l.drop n) := if_pos fits

theorem copy_some {l data : List α} {pos : Nat} (fits : pos + data.length ≤ l.length) :
    copy l pos (pos + data.length) data = some (splice l pos data) :=
  if_pos ⟨Nat.le_add_right _ _,fits,Nat.add_sub_cancel_left _ _⟩

/-- A loop without state returns if every round does. -/
theorem mapM_some {f : α → Option β} {g : α → β} {l : List α} (each : ∀ a ∈ l, f a = some (g a)) :
    l.mapM f = some (l.map g) := by
  induction l with
  | nil => rfl
  | cons a rest ih =>
    rw [List.mapM_cons,each a (.head _),ih fun b member => each b (.tail _ member)]
    rfl

theorem foldlM_some {f : β → α → Option β} {g : β → α → β} {l : List α} {b : β}
    (each : ∀ a ∈ l, ∀ b, f b a = some (g b a)) : l.foldlM f b = some (l.foldl g b) := by
  induction l generalizing b with
  | nil => rfl
  | cons a rest ih =>
    rw [List.foldlM_cons,each a (.head _)]
    exact ih fun c member => each c (.tail _ member)

section Loop

variable {f : β → α → Option β} {l : List α} {b : β} {P : β → Prop}

/-- A loop that returns keeps what every round keeps. -/
theorem foldlM_keeps {out : β} (looped : l.foldlM f b = some out)
    (round : ∀ a ∈ l, ∀ now next, f now a = some next → P now → P next) (start : P b) : P out := by
  induction l generalizing b with
  | nil =>
    cases looped
    exact start
  | cons a rest ih =>
    rw [List.foldlM_cons] at looped
    obtain ⟨next,first,later⟩ := Option.bind_eq_some_iff.mp looped
    exact ih later (fun c member => round c (.tail _ member)) (round a (.head _) b next first start)

/-- A loop returns if every round does from where the rounds before it end. -/
theorem foldlM_returns (round : ∀ a ∈ l, ∀ now, P now → ∃ next, f now a = some next ∧ P next) (start : P b) :
    ∃ out, l.foldlM f b = some out := by
  induction l generalizing b with
  | nil => exact ⟨b,rfl⟩
  | cons a rest ih =>
    obtain ⟨next,first,there⟩ := round a (.head _) b start
    obtain ⟨out,later⟩ := ih (fun c member => round c (.tail _ member)) there
    refine ⟨out,?_⟩
    rw [List.foldlM_cons,first]
    exact later

end Loop

end Checked
