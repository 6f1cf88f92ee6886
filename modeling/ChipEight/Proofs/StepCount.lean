import ChipEight.Proofs.Publication
import ChipEight.Proofs.RandomBytes

/-!
# What a session counts

The log of a session tells of every step that its updates have carried out
(`Machine.Sound.logged_update`), so the count that the session keeps can be held against it. A round
counts the steps of its update if that runs into no fault (`Script.turn_of_none`), and none if it
does (`Script.turn_of_fault`). So the count is right at every end but one: where an update has
faulted halfway, it falls short by the steps that this update has carried out
(`Rig.Reachable.drive_counts`).
-/

namespace ChipEight

/-! ## Steps on record -/

namespace Run

/-- The log of the run tells of each step that it has carried out, and of no other. -/
def Logged (r : Run) : Prop :=
  (executed r.events.toList).length = r.completed

variable {r : Run}

/-- A step of a sound machine counts if it can fetch anything. -/
theorem completed_step (h : r.machine.Sound) :
    r.step.completed =
      r.completed + if Machine.fetchable r.machine.registers.pc then 1 else 0 := by
  unfold step
  simp only [h.fault_step r.entropy]
  split
  · rfl
  · rfl

theorem Logged.step (hr : r.Logged) (h : r.machine.Sound) : r.step.Logged := by
  unfold Logged at hr ⊢
  rw [events_step, executed_append, List.length_append, executed_step, hr, completed_step h]
  split
  · rfl
  · rfl

/-- As long as a sound machine runs, its log holds as many instructions as are counted. -/
theorem Logged.steps (n : Nat) {r : Run} (hr : r.Logged) (h : r.machine.Sound) :
    (r.steps n).Logged := by
  induction n generalizing r with
  | zero => exact hr
  | succ n ih =>
    rw [steps_succ]
    split
    · exact hr
    · exact ih (hr.step h) (Machine.step_sound r.entropy h)

theorem completed_step_le (r : Run) : r.step.completed ≤ r.completed + 1 := by
  unfold step
  dsimp only
  split
  · exact Nat.le_refl _
  · exact Nat.le_succ _

/-- Of the steps that are asked for at most all are carried out. -/
theorem completed_steps_le (n : Nat) (r : Run) : (r.steps n).completed ≤ r.completed + n := by
  induction n generalizing r with
  | zero => exact Nat.le_refl _
  | succ n ih =>
    rw [steps_succ]
    split
    · exact Nat.le_add_right _ _
    · have hrest := ih r.step
      have hfirst := r.completed_step_le
      omega

end Run

namespace Machine

theorem completed_update_le (m : Machine) (now : Reading) (entropy : List UInt8) :
    (m.update now entropy).completed ≤ m.clock.stepsDue now :=
  (Run.completed_steps_le _ _).trans_eq (Nat.zero_add _)

namespace Sound

variable {m : Machine} (h : m.Sound) (now : Reading) (entropy : List UInt8)

include h

theorem logged_update : (m.update now entropy).Logged :=
  Run.Logged.steps (r := .start _ entropy) _ rfl (kept_sound.advance now h)

theorem completed_update_lt : (m.update now entropy).completed < UInt64.size :=
  Nat.lt_of_le_of_lt (m.completed_update_le now entropy) (h.clock.exact now).stepsDue_lt

theorem exists_halted_of_update {now : Reading} {entropy : List UInt8} {fault : Fault}
    (hfault : (m.update now entropy).fault = some fault) : ∃ pc, fault = .halted pc := by
  cases fault with
  | halted pc => exact ⟨pc, rfl⟩
  | stackOutOfRange => exact absurd hfault ((kept_sound.advance now h).run entropy _).2

end Sound

end Machine

/-! ## Rounds -/

namespace Session

variable {s : Session} {now : Reading} {entropy : List UInt8}

/-- A round leaves the machine of its update, from which a frame may have been taken. -/
theorem machine_round (s : Session) (now : Reading) (entropy : List UInt8) :
    (s.round now entropy).session.machine = (s.machine.update now entropy).machine ∨
      (s.round now entropy).session.machine =
        (s.machine.update now entropy).machine.displayFrame.2 := by
  unfold round conclude
  dsimp only
  split
  · exact .inl rfl
  · split
    · exact .inl rfl
    · exact .inr rfl

/-- A round keeps the machine of a session sound. -/
theorem sound_round (h : s.machine.Sound) (now : Reading) (entropy : List UInt8) :
    (s.round now entropy).session.machine.Sound := by
  have hupdate := Machine.kept_sound.update now entropy h
  rcases s.machine_round now entropy with hround | hround
  · rw [hround]
    exact hupdate
  · rw [hround]
    exact Machine.kept_sound.displayFrame hupdate

/-- A round accounts for its time, whatever the program does to the timers. -/
theorem clock_round (s : Session) (now : Reading) (entropy : List UInt8) :
    ∃ delay sound, (s.round now entropy).session.machine.clock =
      { s.machine.clock.advance now with delay, sound } := by
  have hupdate : ∃ delay sound, (s.machine.update now entropy).machine.clock =
      { s.machine.clock.advance now with delay, sound } := Run.clock_steps _ _
  rcases s.machine_round now entropy with hround | hround
  · rw [hround]
    exact hupdate
  · rw [hround]
    exact hupdate

/-- A round that runs into no fault counts the steps of its update. -/
theorem round_of_none (h : (s.machine.update now entropy).fault = none) :
    (∃ frames, (s.round now entropy).frames = .ok frames) ∧
      (s.round now entropy).session.executed =
        s.executed + UInt64.ofNat (s.machine.update now entropy).completed := by
  by_cases hidle : (s.machine.update now entropy).completed = 0
  · rw [round_of_idle h hidle, hidle]
    exact ⟨⟨_, rfl⟩, (UInt64.add_zero s.executed).symm⟩
  · rw [round_of_busy h hidle]
    exact ⟨⟨_, rfl⟩, rfl⟩

end Session

namespace Script

/-- However a round ends, it leaves the same of a session, but for the frames that were written. -/
theorem exists_turn_fst (t : Script) (delta : Nat) :
    let round := t.session.round (t.time.later delta) t.entropy
    ∃ recorder, (t.turn delta).1 =
      { session := round.session
        time := t.time.later delta
        entropy := round.entropy
        recorder
        events := t.events ++ round.events } := by
  unfold turn
  dsimp only
  split
  · exact ⟨_, rfl⟩
  · split
    · exact ⟨_, rfl⟩
    · exact ⟨_, rfl⟩

theorem session_turn (t : Script) (delta : Nat) :
    (t.turn delta).1.session =
      (t.session.round (t.time.later delta) t.entropy).session := by
  rcases t.exists_turn_fst delta with ⟨recorder, hturn⟩
  rw [hturn]

theorem time_turn (t : Script) (delta : Nat) : (t.turn delta).1.time = t.time.later delta := by
  rcases t.exists_turn_fst delta with ⟨recorder, hturn⟩
  rw [hturn]

/-- The run of the update that the next round asks for. -/
def nextRun (t : Script) (delta : Nat) : Run :=
  t.session.machine.update (t.time.later delta) t.entropy

/-- The runs of the updates that a session asks for until it comes to its end. -/
def updates (t : Script) : List Nat → List Run
  | [] => []
  | delta :: deltas =>
    if t.session.isDone then []
    else if (t.turn delta).2.isSome then [t.nextRun delta]
    else t.nextRun delta :: (t.turn delta).1.updates deltas

variable {t : Script} {delta : Nat} {deltas : List Nat}

theorem updates_of_isDone (hdone : t.session.isDone = true) : t.updates deltas = [] := by
  cases deltas with
  | nil => rfl
  | cons delta deltas => exact if_pos hdone

theorem updates_cons_of_none (hdone : ¬ t.session.isDone = true) (h : (t.turn delta).2 = none) :
    t.updates (delta :: deltas) = t.nextRun delta :: (t.turn delta).1.updates deltas := by
  rw [updates, if_neg hdone, h]
  rfl

theorem updates_cons_of_some (hdone : ¬ t.session.isDone = true) {ending : Ending}
    (h : (t.turn delta).2 = some ending) : t.updates (delta :: deltas) = [t.nextRun delta] := by
  rw [updates, if_neg hdone, h]
  rfl

/-- A round whose update faults is the last, and counts nothing. -/
theorem turn_of_fault {fault : Fault} (h : (t.nextRun delta).fault = some fault) :
    (t.turn delta).2 = some (.faulted fault) ∧
      (t.turn delta).1.session.executed = t.session.executed := by
  have hround := Session.round_of_fault h
  rw [turn_of_error (congrArg Round.frames hround), hround]
  exact ⟨rfl, rfl⟩

/-- A round whose update does not fault counts the steps of the update, and it does not end in a
fault. -/
theorem turn_of_none (h : (t.nextRun delta).fault = none) :
    (∀ fault, (t.turn delta).2 ≠ some (.faulted fault)) ∧
      (t.turn delta).1.session.executed =
        t.session.executed + UInt64.ofNat (t.nextRun delta).completed := by
  rcases Session.round_of_none h with ⟨⟨frames, hframes⟩, hexecuted⟩
  constructor
  · intro fault hending
    rw [turn_of_ok hframes] at hending
    dsimp only at hending
    split at hending
    · cases hending
    · cases hending
  · rw [session_turn]
    exact hexecuted

/-- A round adds to the log the steps of its update. -/
theorem length_executed_turn (h : t.session.machine.Sound) (delta : Nat) :
    (executed (t.turn delta).1.events.toList).length =
      (executed t.events.toList).length + (t.nextRun delta).completed := by
  have hlogged : (executed (t.nextRun delta).events.toList).length = (t.nextRun delta).completed :=
    h.logged_update (t.time.later delta) t.entropy
  rw [events_turn, Session.events_round, executed_append, List.length_append, ← hlogged]
  rfl

theorem sound_turn (h : t.session.machine.Sound) (delta : Nat) :
    (t.turn delta).1.session.machine.Sound := by
  rw [session_turn]
  exact Session.sound_round h _ _

/-! ## Sessions -/

/-- How the count and the log of a session from `t` on have grown by the updates with these runs. A
session that does not end in a fault has counted them all, and one that does all but the last. -/
structure Tally (t : Script) (runs : List Run) (outcome : Script × Ending) : Prop where
  logged : (executed outcome.1.events.toList).length =
    (executed t.events.toList).length + (runs.map Run.completed).sum
  whole : (∀ fault, outcome.2 ≠ .faulted fault) →
    (∀ run ∈ runs, run.fault = none) ∧
      outcome.1.session.executed =
        t.session.executed + UInt64.ofNat (runs.map Run.completed).sum
  cut : ∀ fault, outcome.2 = .faulted fault →
    (∃ pc, fault = .halted pc) ∧
      ∃ counted cut, runs = counted ++ [cut] ∧ (∀ run ∈ counted, run.fault = none) ∧
        cut.fault = some fault ∧ cut.completed < UInt64.size ∧
        outcome.1.session.executed =
          t.session.executed + UInt64.ofNat (counted.map Run.completed).sum

namespace Tally

/-- A session that comes to its end before the next round. -/
theorem nil {last : Script} {ending : Ending}
    (hlogged : executed last.events.toList = executed t.events.toList)
    (hexecuted : last.session.executed = t.session.executed)
    (hending : ∀ fault, ending ≠ .faulted fault) : t.Tally [] (last, ending) where
  logged := congrArg List.length hlogged
  whole _ := ⟨fun _ hrun => absurd hrun List.not_mem_nil,
    hexecuted.trans (UInt64.add_zero _).symm⟩
  cut fault h := absurd h (hending fault)

variable (h : t.session.machine.Sound)

include h

/-- The account of a turn that runs into a fault. -/
theorem fault {fault : Fault} (hfault : (t.nextRun delta).fault = some fault) :
    t.Tally [t.nextRun delta] ((t.turn delta).1, .faulted fault) where
  logged := t.length_executed_turn h delta
  whole hending := absurd rfl (hending fault)
  cut fault' hending := by
    obtain rfl : fault = fault' := Ending.faulted.inj hending
    refine ⟨h.exists_halted_of_update hfault, [], t.nextRun delta, rfl,
      fun _ hrun => absurd hrun List.not_mem_nil, hfault, h.completed_update_lt _ _, ?_⟩
    exact (turn_of_fault hfault).2.trans (UInt64.add_zero _).symm

/-- One more round, without a fault, in front. -/
theorem cons {runs : List Run} {outcome : Script × Ending}
    (hfault : (t.nextRun delta).fault = none) (hrest : (t.turn delta).1.Tally runs outcome) :
    t.Tally (t.nextRun delta :: runs) outcome where
  logged := by
    rw [hrest.logged, length_executed_turn h, List.map_cons, List.sum_cons, Nat.add_assoc]
  whole hending := by
    rcases hrest.whole hending with ⟨hnone, hexecuted⟩
    refine ⟨List.forall_mem_cons.2 ⟨hfault, hnone⟩, ?_⟩
    rw [hexecuted, (turn_of_none hfault).2, List.map_cons, List.sum_cons, UInt64.ofNat_add,
      UInt64.add_assoc]
  cut fault hending := by
    rcases hrest.cut fault hending with
      ⟨hhalted, counted, cut, rfl, hnone, hcut, hlt, hexecuted⟩
    refine ⟨hhalted, t.nextRun delta :: counted, cut, rfl,
      List.forall_mem_cons.2 ⟨hfault, hnone⟩, hcut, hlt, ?_⟩
    rw [hexecuted, (turn_of_none hfault).2, List.map_cons, List.sum_cons, UInt64.ofNat_add,
      UInt64.add_assoc]

end Tally

theorem tally_close (t : Script) :
    t.Tally [] ({ t with events := t.events.push t.session.closing }, .done) := by
  refine .nil ?_ rfl fun fault => Ending.noConfusion
  rw [Array.toList_push, executed_append]
  exact List.append_nil _

/-- From any script on, a session keeps these accounts. -/
theorem tally_run (deltas : List Nat) {t : Script} (h : t.session.machine.Sound) :
    t.Tally (t.updates deltas) (t.run deltas) := by
  induction deltas generalizing t with
  | nil =>
    rw [run_nil]
    split
    · exact t.tally_close
    · exact .nil rfl rfl fun fault => Ending.noConfusion
  | cons delta deltas ih =>
    by_cases hdone : t.session.isDone = true
    · rw [run_cons, if_pos hdone, updates_of_isDone hdone]
      exact t.tally_close
    · cases hfault : (t.nextRun delta).fault with
      | some fault =>
        have hending := (turn_of_fault hfault).1
        rw [run_cons_of_some hdone hending, updates_cons_of_some hdone hending]
        exact .fault h hfault
      | none =>
        cases hending : (t.turn delta).2 with
        | none =>
          rw [run_cons_of_none hdone hending, updates_cons_of_none hdone hending]
          exact .cons h hfault (ih (sound_turn h delta))
        | some ending =>
          -- a frame could not be written, and the steps are counted by then
          rw [run_cons_of_some hdone hending, updates_cons_of_some hdone hending]
          refine .cons h hfault (.nil rfl rfl ?_)
          rintro fault rfl
          exact (turn_of_none hfault).1 fault hending

/-- The updates carry out no more than comes due in the time of the session. -/
theorem sum_completed_updates_le (deltas : List Nat) {t : Script} (h : t.session.machine.Sound)
    (hcur : t.session.machine.clock.lastReading = t.time)
    (hT : t.time.toNat + deltas.sum < UInt64.size) :
    ((t.updates deltas).map Run.completed).sum ≤ t.session.machine.clock.stepsIn deltas.sum := by
  induction deltas generalizing t with
  | nil => exact Nat.zero_le _
  | cons delta deltas ih =>
    rw [List.sum_cons] at hT ⊢
    have hkeeps := Clock.advance_keeps h.clock (t.time.later delta)
    have helapsed : t.session.machine.clock.elapsed (t.time.later delta) = delta :=
      Rig.elapsed_later (r := ⟨t.session.machine, t.time, t.entropy, 0⟩) hcur
        (show t.time.toNat + delta < UInt64.size by omega)
    rw [helapsed] at hkeeps
    have hfirst : (t.nextRun delta).completed ≤
        t.session.machine.clock.stepsDue (t.time.later delta) := Machine.completed_update_le _ _ _
    rw [hkeeps.stepsIn_add]
    by_cases hdone : t.session.isDone = true
    · rw [updates_of_isDone hdone]
      exact Nat.zero_le _
    · cases hending : (t.turn delta).2 with
      | some ending =>
        rw [updates_cons_of_some hdone hending, List.map_singleton, List.sum_singleton]
        exact hfirst.trans (Nat.le_add_right _ _)
      | none =>
        rcases t.session.clock_round (t.time.later delta) t.entropy with ⟨delay, sound, hclock⟩
        rw [← session_turn] at hclock
        have hcur' : (t.turn delta).1.session.machine.clock.lastReading =
            (t.turn delta).1.time := by
          rw [hclock, time_turn]
          rfl
        have hnow : (t.turn delta).1.time.toNat = t.time.toNat + delta := by
          rw [time_turn]
          exact Reading.toNat_later (by omega)
        have hrest := ih (sound_turn h delta) hcur' (by omega)
        rw [hclock] at hrest
        rw [updates_cons_of_none hdone hending, List.map_cons, List.sum_cons]
        exact Nat.add_le_add hfirst hrest

end Script

/-- What is left out of a 64-bit count shows, as long as it is less than the whole range. -/
theorem ofNat_eq_ofNat_add_iff {n k : Nat} (hk : k < UInt64.size) :
    UInt64.ofNat n = UInt64.ofNat (n + k) ↔ k = 0 := by
  have hk' : k < 18446744073709551616 := hk
  rw [← UInt64.toNat_inj, UInt64.toNat_ofNat', UInt64.toNat_ofNat']
  omega

namespace Rig

/-- **Step counts.** Driving a machine ends with a count, and with a log that tells of each step
that the updates have carried out. At any end but a fault none of the updates has faulted, and the
count is the number of these steps. At a fault the last update alone has faulted: the count is the
number of the steps before it, which is right only if it has faulted at its first step. A count has
64 bits, which is enough for the steps of any time that the source can tell without wrapping. -/
theorem Reachable.drive_counts {r : Rig} (h : r.Reachable) (maxSteps : UInt64)
    (deltas : List Nat) (recorder : Recorder) :
    let runs := (Script.start r.machine maxSteps r.entropy recorder).updates deltas
    let response := r.apply (.drive maxSteps deltas recorder)
    let completed := (executed response.events).length
    ∃ ending count written, response.reply = .drove ending count written ∧
      completed = (runs.map Run.completed).sum ∧
      (deltas.sum < UInt64.size → completed < UInt64.size) ∧
      ((∀ fault, ending ≠ .faulted fault) →
        (∀ run ∈ runs, run.fault = none) ∧ count = UInt64.ofNat completed) ∧
      ∀ fault, ending = .faulted fault →
        (∃ pc, fault = .halted pc) ∧
          ∃ counted cut, runs = counted ++ [cut] ∧
            (∀ run ∈ counted, run.fault = none) ∧ cut.fault = some fault ∧
            count = UInt64.ofNat (counted.map Run.completed).sum ∧
            (count = UInt64.ofNat completed ↔ cut.completed = 0) := by
  intro runs response completed
  have hsound : (r.machine.attach 0).Sound := Machine.kept_sound.attach 0 h.sound
  have htally := Script.tally_run deltas
    (t := .start r.machine maxSteps r.entropy recorder) hsound
  have hcompleted : completed = (runs.map Run.completed).sum :=
    htally.logged.trans (Nat.zero_add _)
  refine ⟨_, _, _, rfl, hcompleted, fun hT => ?_, fun hending => ?_, fun fault hending => ?_⟩
  · have hle := Script.sum_completed_updates_le deltas
      (t := .start r.machine maxSteps r.entropy recorder) hsound rfl ((Nat.zero_add _).trans_lt hT)
    rw [hcompleted]
    exact Nat.lt_of_le_of_lt hle (Clock.stepsIn_lt hsound.clock hT)
  · rcases htally.whole hending with ⟨hnone, hcount⟩
    rw [hcompleted]
    exact ⟨hnone, hcount.trans (UInt64.zero_add _)⟩
  · rcases htally.cut fault hending with
      ⟨hhalted, counted, cut, hruns, hnone, hcut, hlt, hcount⟩
    have hcount' := hcount.trans (UInt64.zero_add _)
    have hsum : completed = (counted.map Run.completed).sum + cut.completed := by
      rw [hcompleted]
      unfold runs
      rw [hruns, List.map_append, List.sum_append, List.map_singleton, List.sum_singleton]
    refine ⟨hhalted, counted, cut, hruns, hnone, hcut, hcount', ?_⟩
    rw [hcount', hsum]
    exact ofNat_eq_ofNat_add_iff hlt

/-- The first update carries out one step, and the second faults after one more. -/
theorem Reachable.drive_counts_cut :
    let r := (Rig.start 1000 .standard 0 []).after [.load #[0x60, 0x2A, 0x11, 0x00]]
    let recorder := Recorder.empty true 0
    let runs := (Script.start r.machine 0 r.entropy recorder).updates [1000000, 5000000]
    let response := r.apply (.drive 0 [1000000, 5000000] recorder)
    r.Reachable ∧ executed response.events = [0x602A, 0x1100] ∧
      ∃ count written, response.reply = .drove (.faulted (.halted 0x100)) count written ∧
        count = 1 ∧ ∃ counted cut, runs = counted ++ [cut] ∧ cut.completed ≠ 0 := by
  intro r recorder runs response
  have h : r.Reachable := Rig.Reachable.after (.start ..) (by simp [Request.IsPlain])
  have hwords : executed response.events = [0x602A, 0x1100] := by decide +kernel
  let outcome := (Script.start r.machine 0 r.entropy recorder).run [1000000, 5000000]
  have hending : outcome.2 = .faulted (.halted 0x100) := by decide +kernel
  have hcount : outcome.1.session.executed = 1 := by decide +kernel
  have hdrove : response.reply =
      .drove outcome.2 outcome.1.session.executed outcome.1.recorder := rfl
  rcases h.drive_counts 0 [1000000, 5000000] recorder with
    ⟨ending, count, written, hreply, -, -, -, hcut⟩
  obtain ⟨rfl, rfl, rfl⟩ := Reply.drove.inj (hdrove.symm.trans hreply)
  rcases hcut _ hending with ⟨-, counted, cut, hruns, -, -, -, hright⟩
  refine ⟨h, hwords, _, _, hending ▸ hreply, hcount, counted, cut, hruns, fun hzero => ?_⟩
  have hwrong := hright.2 hzero
  rw [hcount, hwords] at hwrong
  exact absurd hwrong (by decide)

/-- A jump out of program memory is carried out, and the next of the hundred steps that are due
faults: the one that was carried out is not counted. -/
theorem drive_halted_uncounted :
    let r := (Rig.start 100 .standard 0 []).after [.load #[0x11, 0x00]]
    let recorder := Recorder.empty true 0
    let runs := (Script.start r.machine 0 r.entropy recorder).updates [1000000000]
    let response := r.apply (.drive 0 [1000000000] recorder)
    r.Reachable ∧ runs.map Run.completed = [1] ∧ executed response.events = [0x1100] ∧
      ∃ count written, response.reply = .drove (.faulted (.halted 0x100)) count written ∧
        count.toNat ≠ (executed response.events).length := by
  intro r recorder runs response
  have h : r.Reachable := Rig.Reachable.after (.start ..) (by simp [Request.IsPlain])
  have hruns : runs.map Run.completed = [1] := by decide +kernel
  have hwords : executed response.events = [0x1100] := by decide +kernel
  let outcome := (Script.start r.machine 0 r.entropy recorder).run [1000000000]
  have hending : outcome.2 = .faulted (.halted 0x100) := by decide +kernel
  have hcount : outcome.1.session.executed = 0 := by decide +kernel
  have hdrove : response.reply =
      .drove outcome.2 outcome.1.session.executed outcome.1.recorder := rfl
  refine ⟨h, hruns, hwords, _, _, hending ▸ hdrove, ?_⟩
  rw [hcount, hwords]
  decide

end Rig
end ChipEight
