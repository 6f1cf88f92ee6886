import ChipEight.Proofs.Reachable
import ChipEight.Proofs.SameButClock

/-!
# Machines in lockstep

Two machines can differ in parts that do not show. A relation between machines is in lockstep if
related machines show the same and stay related, whatever one of the few things is that can happen
to a machine (`Machine.Lockstep`). Runs, sessions and requests are made up of these, so related
machines give the same answers and the same reports throughout (`Machine.Lockstep.apply`,
`Rig.Alike.after`).

Three requests look behind what shows: one takes the latched key, one takes the saved bytes, and
one puts other bytes in their place. What becomes of these depends on the relation.
-/

namespace ChipEight

/-! ## Relations in lockstep -/

/-- The same fault and the same reports, with related machines. -/
structure Outcome.Alike (R : Machine → Machine → Prop) (o o' : Outcome) : Prop where
  machine : R o.machine o'.machine
  fault : o'.fault = o.fault
  entropy : o'.entropy = o.entropy
  events : o'.events = o.events

/-- What is carried out leaves related machines and the same reports, or breaks off in related
machines. -/
inductive Effect.Alike (R : Machine → Machine → Prop) :
    Except Machine Effect → Except Machine Effect → Prop where
  | ok {m m' : Machine} {entropy : List UInt8} {events : List Event} (h : R m m') :
    Alike R (.ok ⟨m, entropy, events⟩) (.ok ⟨m', entropy, events⟩)
  | error {m m' : Machine} (h : R m m') : Alike R (.error m) (.error m')

/-- Steps are alike if the same word is fetched from the same place and what is carried out is
alike. -/
theorem Machine.step_alike {R : Machine → Machine → Prop} {m m' : Machine} {entropy : List UInt8}
    (h : R m m') (hpc : m'.registers.pc = m.registers.pc) (hword : m'.nextWord = m.nextWord)
    (hcarry : Effect.Alike R (m.carryOut entropy) (m'.carryOut entropy)) :
    (m.step entropy).Alike R (m'.step entropy) := by
  rw [step_eq, step_eq, hpc, hword]
  split
  · generalize m.carryOut entropy = a, m'.carryOut entropy = b at hcarry
    cases hcarry with
    | ok hm => exact ⟨hm, rfl, rfl, rfl⟩
    | error hm => exact ⟨hm, rfl, rfl, rfl⟩
  · exact ⟨h, rfl, rfl, rfl⟩

/-- Related machines show the same and stay related. -/
structure Machine.Lockstep (R : Machine → Machine → Prop) : Prop where
  clock : ∀ {m m' : Machine}, R m m' → m'.clock = m.clock
  memory : ∀ {m m' : Machine}, R m m' → m'.memory = m.memory
  isHeld : ∀ {m m' : Machine} code, R m m' → m'.keypad.isHeld code = m.keypad.isHeld code
  withClock : ∀ {m m' : Machine} c, R m m' → R (m.withClock c) (m'.withClock c)
  withProgram : ∀ {m m' : Machine} program, program.size ≤ Memory.maxProgramSize → R m m' →
    R { m with program } { m' with program }
  reset : ∀ {m m' : Machine} now, R m m' →
    R (m.reset now).1 (m'.reset now).1 ∧ (m'.reset now).2 = (m.reset now).2
  press : ∀ {m m' : Machine} code, R m m' → R (m.press code) (m'.press code)
  release : ∀ {m m' : Machine} code, R m m' → R (m.release code) (m'.release code)
  beginWait : ∀ {m m' : Machine}, R m m' →
    R { m with keypad := m.keypad.beginWait } { m' with keypad := m'.keypad.beginWait }
  releaseAll : ∀ {m m' : Machine}, R m m' →
    R { m with keypad := .idle } { m' with keypad := .idle }
  displayFrame : ∀ {m m' : Machine}, R m m' →
    m'.displayFrame.1 = m.displayFrame.1 ∧ R m.displayFrame.2 m'.displayFrame.2
  step : ∀ {m m' : Machine} entropy, R m m' → (m.step entropy).Alike R (m'.step entropy)

variable {R : Machine → Machine → Prop} {d : Nat}

/-! ## Runs -/

structure Run.Alike (R : Machine → Machine → Prop) (r r' : Run) : Prop where
  machine : R r.machine r'.machine
  entropy : r'.entropy = r.entropy
  events : r'.events = r.events
  completed : r'.completed = r.completed
  fault : r'.fault = r.fault

namespace Machine.Lockstep

variable (hR : Machine.Lockstep R)

include hR

/-- Runs that are alike stay so in a step. -/
theorem runStep {r r' : Run} (h : r.Alike R r') : r.step.Alike R r'.step := by
  have ho := hR.step r.entropy h.machine
  unfold Run.step
  rw [h.entropy, h.events, h.completed]
  refine ⟨ho.machine, ho.entropy, ?_, ?_, ho.fault⟩
  · simp only [ho.events]
  · simp only [ho.fault]

/-- Runs that are alike stay so in any number of steps. -/
theorem runSteps (n : Nat) {r r' : Run} (h : r.Alike R r') :
    (r.steps n).Alike R (r'.steps n) := by
  induction n generalizing r r' with
  | zero => exact h
  | succ n ih =>
    rw [Run.steps_succ, Run.steps_succ, h.fault]
    split
    · exact h
    · exact ih (hR.runStep h)

theorem run {m m' : Machine} (h : R m m') (entropy : List UInt8) (n : Nat) :
    (m.run entropy n).Alike R (m'.run entropy n) :=
  hR.runSteps n ⟨h, rfl, rfl, rfl, rfl⟩

theorem update {m m' : Machine} (h : R m m') (now : Reading) (entropy : List UInt8) :
    (m.update now entropy).Alike R (m'.update now entropy) := by
  unfold Machine.update
  rw [hR.clock h]
  exact hR.run (hR.withClock (m.clock.advance now) h) entropy _

theorem attach {m m' : Machine} (h : R m m') (now : Reading) :
    R (m.attach now) (m'.attach now) := by
  unfold Machine.attach
  rw [hR.clock h]
  exact hR.withClock (m.clock.attach now) h

end Machine.Lockstep

/-! ## Sessions -/

structure Session.Alike (R : Machine → Machine → Prop) (s s' : Session) : Prop where
  machine : R s.machine s'.machine
  maxSteps : s'.maxSteps = s.maxSteps
  executed : s'.executed = s.executed

structure Round.Alike (R : Machine → Machine → Prop) (a a' : Round) : Prop where
  session : a.session.Alike R a'.session
  entropy : a'.entropy = a.entropy
  events : a'.events = a.events
  frames : a'.frames = a.frames

structure Script.Alike (R : Machine → Machine → Prop) (t t' : Script) : Prop where
  session : t.session.Alike R t'.session
  time : t'.time = t.time
  entropy : t'.entropy = t.entropy
  recorder : t'.recorder = t.recorder
  events : t'.events = t.events

theorem Script.run_nil (t : Script) :
    t.run [] =
      if t.session.isDone then ({ t with events := t.events.push t.session.closing }, .done)
      else (t, .timeExhausted) :=
  rfl

/-- A script that is not done goes on with a turn. -/
theorem Script.run_cons (t : Script) (delta : Nat) (deltas : List Nat) :
    t.run (delta :: deltas) =
      if t.session.isDone then ({ t with events := t.events.push t.session.closing }, .done)
      else match t.turn delta with
        | (t, none) => t.run deltas
        | (t, some ending) => (t, ending) :=
  rfl

section Cons

variable {t : Script} {delta : Nat} {deltas : List Nat} (hdone : ¬ t.session.isDone = true)

include hdone

/-- After a turn that is not the last a script goes on with the rest of its time. -/
theorem Script.run_cons_of_none (h : (t.turn delta).2 = none) :
    t.run (delta :: deltas) = (t.turn delta).1.run deltas := by
  rw [run_cons, if_neg hdone]
  generalize t.turn delta = turned at h ⊢
  rcases turned with ⟨next, ending⟩
  obtain rfl : ending = none := h
  rfl

/-- A script ends with the turn that has an ending. -/
theorem Script.run_cons_of_some {ending : Ending} (h : (t.turn delta).2 = some ending) :
    t.run (delta :: deltas) = ((t.turn delta).1, ending) := by
  rw [run_cons, if_neg hdone]
  generalize t.turn delta = turned at h ⊢
  rcases turned with ⟨next, ending'⟩
  obtain rfl : ending' = some ending := h
  rfl

end Cons

theorem Session.Alike.isDone {s s' : Session} (h : s.Alike R s') : s'.isDone = s.isDone := by
  unfold Session.isDone
  rw [h.maxSteps, h.executed]

theorem Script.Alike.close {t t' : Script} (h : t.Alike R t') :
    Script.Alike R { t with events := t.events.push t.session.closing }
      { t' with events := t'.events.push t'.session.closing } := by
  refine ⟨h.session, h.time, h.entropy, h.recorder, ?_⟩
  simp only [h.events, Session.closing, h.session.executed]

namespace Machine.Lockstep

variable (hR : Machine.Lockstep R)

include hR

/-- Sessions that are alike stay so in a round. -/
theorem round {s s' : Session} (h : s.Alike R s') (now : Reading) (entropy : List UInt8) :
    (s.round now entropy).Alike R (s'.round now entropy) := by
  have hrun := hR.update h.machine now entropy
  unfold Session.round Session.conclude
  simp only [hrun.fault, hrun.completed]
  split
  · exact ⟨⟨hrun.machine, h.maxSteps, h.executed⟩, hrun.entropy, hrun.events, rfl⟩
  · split
    · exact ⟨⟨hrun.machine, h.maxSteps, h.executed⟩, hrun.entropy, hrun.events, rfl⟩
    · obtain ⟨hframe, hmachine⟩ := hR.displayFrame hrun.machine
      refine ⟨⟨hmachine, h.maxSteps, ?_⟩, hrun.entropy, hrun.events, ?_⟩
      · simp only [h.executed]
      · simp only [hframe, debugFrame, hR.memory hmachine]

/-- Scripts that are alike stay so in a turn, and end with it for the same reason if they do. -/
theorem turn {t t' : Script} (h : t.Alike R t') (delta : Nat) :
    (t.turn delta).1.Alike R (t'.turn delta).1 ∧ (t'.turn delta).2 = (t.turn delta).2 := by
  have hround := hR.round h.session (t.time.later delta) t.entropy
  unfold Script.turn
  simp only [h.time, h.entropy, h.events, h.recorder, hround.frames, hround.events,
    hround.entropy]
  split
  · exact ⟨⟨hround.session, rfl, rfl, rfl, rfl⟩, rfl⟩
  · split
    · exact ⟨⟨hround.session, rfl, rfl, rfl, rfl⟩, rfl⟩
    · exact ⟨⟨hround.session, rfl, rfl, rfl, rfl⟩, rfl⟩

/-- Scripts that are alike come to alike sessions and to the same ending. -/
theorem scriptRun (deltas : List Nat) {t t' : Script} (h : t.Alike R t') :
    (t.run deltas).1.Alike R (t'.run deltas).1 ∧ (t'.run deltas).2 = (t.run deltas).2 := by
  induction deltas generalizing t t' with
  | nil =>
    rw [Script.run_nil, Script.run_nil, h.session.isDone]
    split
    · exact ⟨h.close, rfl⟩
    · exact ⟨h, rfl⟩
  | cons delta deltas ih =>
    rw [Script.run_cons, Script.run_cons, h.session.isDone]
    split
    · exact ⟨h.close, rfl⟩
    · obtain ⟨hturn, hending⟩ := hR.turn h delta
      generalize t.turn delta = a, t'.turn delta = a' at hturn hending
      obtain ⟨next, ending⟩ := a
      obtain ⟨next', ending'⟩ := a'
      obtain rfl : ending' = ending := hending
      cases ending' with
      | none => exact ih hturn
      | some ending => exact ⟨hturn, rfl⟩

/-- Scripts of alike machines start alike. -/
theorem scriptStart {m m' : Machine} (h : R m m') (maxSteps : UInt64) (entropy : List UInt8)
    (recorder : Recorder) :
    (Script.start m maxSteps entropy recorder).Alike R
      (Script.start m' maxSteps entropy recorder) := by
  have hattach := hR.attach h 0
  refine ⟨⟨hattach, rfl, rfl⟩, rfl, rfl, rfl, ?_⟩
  simp only [Script.start, Session.opening, Session.start, hR.clock hattach]

end Machine.Lockstep

/-! ## Requests

The keypads of two rigs may have different numbers. A handle on the one is then matched by the
handle on the other whose number is as much larger.
-/

def Handle.shift (h : Handle) (d : Nat) : Handle :=
  ⟨h.keypad + d⟩

/-- The same request to a rig whose keypads have numbers larger by `d`. -/
def Request.shift (d : Nat) : Request → Request
  | .pressBy h code => .pressBy (h.shift d) code
  | .releaseBy h code => .releaseBy (h.shift d) code
  | q => q

theorem Request.shift_zero (q : Request) : q.shift 0 = q := by
  cases q <;> rfl

/-- Whether a request keeps to what shows: it neither takes the latched key nor hands a saved state
out or in. -/
def Request.IsFair : Request → Prop
  | .takePress | .save | .restore _ => False
  | _ => True

/-- Rigs with related machines and the same surroundings. -/
structure Rig.Alike (R : Machine → Machine → Prop) (d : Nat) (r r' : Rig) : Prop where
  machine : R r.machine r'.machine
  now : r'.now = r.now
  entropy : r'.entropy = r.entropy
  keypad : r'.keypad = r.keypad + d

structure Response.Alike (R : Machine → Machine → Prop) (d : Nat) (a a' : Response) : Prop where
  reply : a'.reply = a.reply
  events : a'.events = a.events
  rig : a.rig.Alike R d a'.rig

namespace Rig.Alike

variable {r r' : Rig} (h : r.Alike R d r')

include h

theorem quiet (reply : Reply) : (r.quiet reply).Alike R d (r'.quiet reply) :=
  ⟨rfl, rfl, h⟩

theorem withMachine {m m' : Machine} (hm : R m m') :
    (r.withMachine m).Alike R d (r'.withMachine m') :=
  ⟨hm, h.now, h.entropy, h.keypad⟩

theorem afterRun {run run' : Run} (hrun : run.Alike R run') :
    (r.afterRun run).Alike R d (r'.afterRun run') :=
  ⟨hrun.machine, h.now, hrun.entropy, h.keypad⟩

/-- What is done through a handle, if it is one on the keypads in use, leaves the rigs alike. -/
theorem throughHandle (handle : Handle) (change : Keypad → Keypad)
    (hm : R { r.machine with keypad := change r.machine.keypad }
      { r'.machine with keypad := change r'.machine.keypad }) :
    (r.throughHandle handle change).Alike R d (r'.throughHandle (handle.shift d) change) := by
  have hiff : (handle.shift d).keypad = r'.keypad ↔ handle.keypad = r.keypad := by
    rw [h.keypad]
    exact Nat.add_right_cancel_iff
  unfold Rig.throughHandle
  by_cases hown : handle.keypad = r.keypad
  · rw [if_pos hown, if_pos (hiff.2 hown)]
    exact h.withMachine hm
  · rw [if_neg hown, if_neg (mt hiff.1 hown)]
    exact h

end Rig.Alike

namespace Machine.Lockstep

variable (hR : Machine.Lockstep R) {r r' : Rig} (h : r.Alike R d r')

include hR h

/-- Loading a program into both machines, or failing to, leaves them alike. -/
theorem load (program : Array UInt8) :
    (r.apply (.load program)).Alike R d (r'.apply (.load program)) := by
  by_cases hle : program.size ≤ Memory.maxProgramSize
  · obtain ⟨hreset, -⟩ := hR.reset r.now (hR.withProgram program hle h.machine)
    rw [r.apply_load_of_le hle, r'.apply_load_of_le hle, h.now]
    exact ⟨rfl, rfl, h.withMachine hreset⟩
  · rw [r.apply_load_of_lt (Nat.not_le.1 hle), r'.apply_load_of_lt (Nat.not_le.1 hle)]
    exact h.quiet _

/-- Driving both machines leaves them alike. -/
theorem drive (maxSteps : UInt64) (deltas : List Nat) (recorder : Recorder) :
    (r.apply (.drive maxSteps deltas recorder)).Alike R d
      (r'.apply (.drive maxSteps deltas recorder)) := by
  obtain ⟨hrun, hending⟩ :=
    hR.scriptRun deltas (hR.scriptStart h.machine maxSteps r.entropy recorder)
  rw [Rig.apply_drive, Rig.apply_drive, h.entropy, h.now]
  refine ⟨?_, ?_, hR.attach hrun.session.machine r.now, rfl, hrun.entropy, h.keypad⟩
  · simp only [hending, hrun.session.executed, hrun.recorder]
  · simp only [hrun.events]

/-- Related rigs answer every request alike that keeps to what shows. -/
theorem apply (q : Request) (hq : q.IsFair) :
    (r.apply q).Alike R d (r'.apply (q.shift d)) := by
  have hclock := hR.clock h.machine
  cases q with
  | load program => exact hR.load h program
  | reset =>
    obtain ⟨hreset, hevents⟩ := hR.reset r.now h.machine
    change (r.apply .reset).Alike R d (r'.apply .reset)
    rw [Rig.apply_reset, Rig.apply_reset, h.now]
    exact ⟨rfl, hevents, h.withMachine hreset⟩
  | press code => exact (h.withMachine (hR.press code h.machine)).quiet _
  | release code => exact (h.withMachine (hR.release code h.machine)).quiet _
  | pressBy handle code =>
    exact (h.throughHandle handle (·.press code) (hR.press code h.machine)).quiet _
  | releaseBy handle code =>
    exact (h.throughHandle handle (·.release code) (hR.release code h.machine)).quiet _
  | isHeld code => exact ⟨congrArg Reply.truth (hR.isHeld code h.machine), rfl, h⟩
  | step =>
    have hstep := hR.step r.entropy h.machine
    change (r.apply .step).Alike R d (r'.apply .step)
    rw [Rig.apply_step, Rig.apply_step, h.entropy, hstep.fault]
    exact ⟨rfl, hstep.events, hstep.machine, h.now, hstep.entropy, h.keypad⟩
  | run n =>
    have hrun := hR.run h.machine r.entropy n
    change (r.apply (.run n)).Alike R d (r'.apply (.run n))
    rw [Rig.apply_run, Rig.apply_run, h.entropy, hrun.completed, hrun.fault,
      hrun.events]
    exact ⟨rfl, rfl, h.afterRun hrun⟩
  | update =>
    have hrun := hR.update h.machine r.now r.entropy
    change (r.apply .update).Alike R d (r'.apply .update)
    rw [Rig.apply_update, Rig.apply_update, h.now, h.entropy, hrun.completed,
      hrun.fault, hrun.events]
    exact ⟨rfl, rfl, h.afterRun hrun⟩
  | wait nanos =>
    exact ⟨rfl, rfl, h.machine, congrArg (·.later nanos) h.now, h.entropy, h.keypad⟩
  | attach start => exact ⟨rfl, rfl, hR.attach h.machine start, rfl, h.entropy, h.keypad⟩
  | advanceClock =>
    refine ⟨congrArg Reply.count (by rw [hclock, h.now]), rfl, h.withMachine ?_⟩
    rw [hclock, h.now]
    exact hR.withClock _ h.machine
  | resetClock =>
    refine ⟨rfl, rfl, h.withMachine ?_⟩
    rw [hclock, h.now]
    exact hR.withClock _ h.machine
  | tick n =>
    refine ⟨rfl, rfl, h.withMachine ?_⟩
    rw [hclock]
    exact hR.withClock _ h.machine
  | displayFrame =>
    obtain ⟨hframe, hmachine⟩ := hR.displayFrame h.machine
    exact ⟨congrArg (fun bytes => Reply.frame (.display bytes)) hframe, rfl,
      h.withMachine hmachine⟩
  | debugFrame =>
    refine ⟨congrArg (fun bytes => Reply.frame (.debug bytes)) ?_, rfl, h⟩
    rw [debugFrame, hR.memory h.machine]
    rfl
  | beginWait => exact (h.withMachine (hR.beginWait h.machine)).quiet _
  | releaseAll => exact (h.withMachine (hR.releaseAll h.machine)).quiet _
  | drive maxSteps deltas recorder => exact hR.drive h maxSteps deltas recorder
  | takePress | save | restore bytes => exact hq.elim

end Machine.Lockstep

/-- Restoring makes rigs alike, as far as what they restore is. -/
theorem Rig.Alike.restore_of_ok {r r' : Rig} (h : r.Alike R d r') {bytes bytes' : List UInt8}
    {m m' : Machine} (hread : Machine.restore r.now bytes = .ok m)
    (hread' : Machine.restore r.now bytes' = .ok m') (hm : R m m') :
    (r.apply (.restore bytes)).Alike R d (r'.apply (.restore bytes')) := by
  have hkeypad : r'.keypad + 1 = r.keypad + 1 + d := by rw [h.keypad, Nat.add_right_comm]
  rw [← h.now] at hread'
  rw [r.apply_restore_of_ok hread, r'.apply_restore_of_ok hread']
  exact ⟨rfl, rfl, hm, h.now, h.entropy, hkeypad⟩

/-- Restoring bytes in both rigs leaves them alike if what is restored is alike to itself. -/
theorem Rig.Alike.restore {r r' : Rig} (h : r.Alike R d r') {bytes : List UInt8}
    (hrefl : ∀ m, Machine.restore r.now bytes = .ok m → R m m) :
    (r.apply (.restore bytes)).Alike R d (r'.apply (.restore bytes)) := by
  cases hread : Machine.restore r.now bytes with
  | ok m => exact h.restore_of_ok hread hread (hrefl m hread)
  | error cause =>
    have hread' : Machine.restore r'.now bytes = .error cause := by rw [h.now, hread]
    rw [r.apply_restore_of_error hread, r'.apply_restore_of_error hread']
    exact h.quiet _

/-! ## Histories -/

/-- What every request of a kind keeps alike, every history of them keeps alike, with the same
replies and the same log. -/
theorem Rig.Alike.after {C : Request → Prop}
    (hC : ∀ {r r' : Rig} (q : Request), C q → r.Alike R d r' →
      (r.apply q).Alike R d (r'.apply (q.shift d)))
    {r r' : Rig} (h : r.Alike R d r') {qs : List Request} (hqs : ∀ q ∈ qs, C q) :
    r'.replies (qs.map (·.shift d)) = r.replies qs ∧
      r'.log (qs.map (·.shift d)) = r.log qs ∧
        (r.after qs).Alike R d (r'.after (qs.map (·.shift d))) := by
  induction qs generalizing r r' with
  | nil => exact ⟨rfl, rfl, h⟩
  | cons q qs ih =>
    have hfirst := hC q (hqs q List.mem_cons_self) h
    obtain ⟨hreplies, hlog, hafter⟩ := ih hfirst.rig fun p hp => hqs p (List.mem_cons_of_mem q hp)
    refine ⟨?_, ?_, hafter⟩
    · simp only [List.map_cons, Rig.replies, hfirst.reply, hreplies]
    · simp only [List.map_cons, Rig.log, hfirst.events, hlog]

end ChipEight
