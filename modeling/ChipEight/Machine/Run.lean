import ChipEight.Machine.Step

/-!
# Runs

Steps one after the other, up to the first fault. A run knows the machine it has come to, what is
left of the random bytes, all that was reported, how many steps were carried out and the fault
that ended it. `Machine.update` runs what the clock says is due.
-/

namespace ChipEight

structure Run where
  machine : Machine
  entropy : List UInt8
  events : Array Event
  completed : Nat
  fault : Option Fault

namespace Run

def start (machine : Machine) (entropy : List UInt8) : Run where
  machine := machine
  entropy := entropy
  events := #[]
  completed := 0
  fault := none

def step (r : Run) : Run :=
  let outcome := r.machine.step r.entropy
  { machine := outcome.machine
    entropy := outcome.entropy
    events := r.events ++ outcome.events
    completed := if outcome.fault.isNone then r.completed + 1 else r.completed
    fault := outcome.fault }

/-- Up to `n` more steps, none after a fault. -/
def steps : Nat → Run → Run
  | 0, r => r
  | n + 1, r => if r.fault.isSome then r else steps n r.step

theorem steps_of_fault {r : Run} (h : r.fault.isSome) (n : Nat) : r.steps n = r := by
  cases n with
  | zero => rfl
  | succ n => simp [steps, h]

/-- A run goes on where it has stopped. -/
theorem steps_add (r : Run) (n k : Nat) : r.steps (n + k) = (r.steps n).steps k := by
  induction n generalizing r with
  | zero => simp [steps]
  | succ n ih =>
    rw [Nat.add_right_comm]
    by_cases h : r.fault.isSome
    · simp [steps_of_fault h]
    · simp [steps, h, ih]

end Run

namespace Machine

/-- Up to `n` steps, none after a fault. -/
def run (m : Machine) (entropy : List UInt8) (n : Nat) : Run :=
  (Run.start m entropy).steps n

/-- Accounts for the time up to `now` and runs the steps that are due. The clock has moved on even
if a fault keeps some of them from running. -/
def update (m : Machine) (now : Reading) (entropy : List UInt8) : Run :=
  { m with clock := m.clock.advance now }.run entropy (m.clock.stepsDue now)

end Machine
end ChipEight
