import ChipEight.Proofs.Batching
import ChipEight.Proofs.History
import ChipEight.Proofs.SameButPacking

/-!
# What a session publishes

A session asks for the same updates as a host that moves the time and updates the machine round
after round. After each update it has executed the steps that have come due so far, and it has
published two frames for each update that ran any steps: the pixels and the memory that the update
has left (`Rig.Follows.turn_of_takes`). It goes on like this until the steps reach the limit, a
frame cannot be written, an update faults or there is no more time (`Rig.Reachable.publication`).
Taking the frames does not disturb the rounds, since it does not show when a screen is packed.
-/

namespace ChipEight

/-! ## Frames -/

namespace Machine

/-- The frames of a machine: the pixels, and after them the memory. -/
def frames (m : Machine) : List Frame :=
  [.display m.screen.grid.frame, .debug m.debugFrame]

/-- The first frame shows the pixels of the machine and the second, behind its mark, all of the
memory. -/
structure IsShownBy (m : Machine) (display : Vector UInt8 257) (debug : Vector UInt8 4097) :
    Prop where
  display : m.screen.grid.IsShownBy display
  mark : debug[0] = 0xFF
  memory : ∀ a (_ : a < 4096), debug[a + 1] = m.memory.bytes[a]

/-- The frames of a machine show its pixels and its memory. -/
theorem isShownBy_frames (m : Machine) : m.IsShownBy m.screen.grid.frame m.debugFrame where
  display := m.screen.grid.isShownBy_frame
  mark := by
    have hfirst : m.debugFrame[0] = #v[(0xFF : UInt8)][0] := Vector.getElem_append_left (by decide)
    exact hfirst
  memory a ha := by
    have hbehind : m.debugFrame[a + 1] = m.memory.bytes[a + 1 - 1] :=
      Vector.getElem_append_right (by omega) (by omega)
    simpa using hbehind

end Machine

/-! ## Recorders -/

namespace Recorder

/-- Frames that a recorder which fails at the `failAt`th can take. -/
def Takes (failAt : Nat) (frames : List Frame) : Prop :=
  failAt = 0 ∨ frames.length < failAt

/-- The recorder keeps frames and has written these, each with a flush. -/
structure HasWritten (failAt : Nat) (frames : List Frame) (rec : Recorder) : Prop where
  keeps : rec.keeps = true
  failAt : rec.failAt = failAt
  written : rec.frames.toList = frames
  flushes : rec.flushes = frames.length

variable {rec : Recorder} {failAt : Nat} {written : List Frame}

/-- The next frame is written unless it is the one at which the recorder fails. -/
theorem HasWritten.publish (h : rec.HasWritten failAt written) (frame : Frame) :
    rec.publish frame =
      if written.length + 1 = failAt then none
      else some { rec with frames := rec.frames.push frame, flushes := rec.flushes + 1 } := by
  have hsize : rec.frames.size = written.length := by rw [← h.written, Array.length_toList]
  unfold Recorder.publish
  rw [h.keeps, h.failAt, hsize]
  rfl

theorem HasWritten.push (h : rec.HasWritten failAt written) (frame : Frame) :
    HasWritten failAt (written ++ [frame])
      { rec with frames := rec.frames.push frame, flushes := rec.flushes + 1 } where
  keeps := h.keeps
  failAt := h.failAt
  written := by rw [Array.toList_push, h.written]
  flushes := by rw [h.flushes, List.length_append, List.length_singleton]

/-- Frames that a recorder can take are all written. -/
theorem HasWritten.publishAll_of_takes (frames : List Frame) {rec : Recorder}
    {written : List Frame} (h : rec.HasWritten failAt written)
    (htakes : Takes failAt (written ++ frames)) :
    (rec.publishAll frames).2 = true ∧
      (rec.publishAll frames).1.HasWritten failAt (written ++ frames) := by
  induction frames generalizing rec written with
  | nil => exact ⟨rfl, by rwa [List.append_nil]⟩
  | cons frame frames ih =>
    have hroom : written.length + 1 ≠ failAt := by
      rcases htakes with hzero | hlt
      · omega
      · rw [List.length_append, List.length_cons] at hlt
        omega
    unfold publishAll
    rw [h.publish, if_neg hroom]
    rw [List.append_cons] at htakes ⊢
    exact ih (h.push frame) htakes

/-- Of frames that a recorder cannot take, those before the one it fails at are written. -/
theorem HasWritten.publishAll_of_fails (frames : List Frame) {rec : Recorder}
    {written : List Frame} (h : rec.HasWritten failAt written) (hlt : written.length < failAt)
    (hle : failAt ≤ (written ++ frames).length) :
    (rec.publishAll frames).2 = false ∧
      (rec.publishAll frames).1.HasWritten failAt ((written ++ frames).take (failAt - 1)) := by
  induction frames generalizing rec written with
  | nil =>
    rw [List.append_nil] at hle
    omega
  | cons frame frames ih =>
    unfold publishAll
    rw [h.publish]
    by_cases hfull : written.length + 1 = failAt
    · have hwritten : failAt - 1 = written.length := by omega
      rw [if_pos hfull, hwritten, List.take_left]
      exact ⟨rfl, h⟩
    · rw [if_neg hfull]
      rw [List.append_cons] at hle ⊢
      refine ih (h.push frame) ?_ hle
      rw [List.length_append, List.length_singleton]
      omega

end Recorder

/-! ## Rounds, one after the other -/

theorem updatesAfter_append (deltas deltas' : List Nat) :
    updatesAfter (deltas ++ deltas') = updatesAfter deltas ++ updatesAfter deltas' :=
  List.flatMap_append

namespace Rig

/-- The rig once the first `k` rounds are over. -/
def roundsBy (r : Rig) (deltas : List Nat) (k : Nat) : Rig :=
  r.after (updatesAfter (deltas.take k))

/-- The steps that have come due by the `k`th round. -/
def stepsBy (r : Rig) (deltas : List Nat) (k : Nat) : Nat :=
  (r.machine.clock.cpuDebt.toNat + r.machine.clock.rate.toNat * (deltas.take k).sum) / 1000000000

/-- The frames of the first `k` rounds. A round in which no steps came due has none. -/
def framesBy (r : Rig) (deltas : List Nat) (k : Nat) : List Frame :=
  (List.range k).flatMap fun i =>
    if r.stepsBy deltas i < r.stepsBy deltas (i + 1) then (r.roundsBy deltas (i + 1)).machine.frames
    else []

/-- The step limit is reached by the `k`th round. -/
def ReachesLimit (r : Rig) (deltas : List Nat) (maxSteps : UInt64) (k : Nat) : Prop :=
  maxSteps ≠ 0 ∧ maxSteps.toNat ≤ r.stepsBy deltas k

theorem stepsBy_eq (r : Rig) (deltas : List Nat) (k : Nat) :
    r.stepsBy deltas k = r.machine.clock.stepsIn (deltas.take k).sum := by
  unfold stepsBy Clock.stepsIn
  rw [Nat.mul_comm]

theorem framesBy_succ (r : Rig) (deltas : List Nat) (k : Nat) :
    r.framesBy deltas (k + 1) = r.framesBy deltas k ++
      if r.stepsBy deltas k < r.stepsBy deltas (k + 1) then
        (r.roundsBy deltas (k + 1)).machine.frames
      else [] := by
  unfold framesBy
  rw [List.range_succ, List.flatMap_append, List.flatMap_singleton]

section Rounds

variable {r : Rig} {deltas : List Nat} {k : Nat} (h : r.Reachable) (hcur : r.Current)
  (hT : r.now.toNat + deltas.sum < UInt64.size)

theorem roundsBy_succ (hk : k < deltas.length) :
    r.roundsBy deltas (k + 1) = (r.roundsBy deltas k).round deltas[k] := by
  unfold roundsBy
  rw [← List.take_append_getElem hk, updatesAfter_append, after_append]
  rfl

include h in
theorem Reachable.roundsBy (deltas : List Nat) (k : Nat) : (r.roundsBy deltas k).Reachable := by
  refine h.after fun q hq => ?_
  rcases List.mem_flatMap.1 hq with ⟨delta, -, hround⟩
  rcases List.mem_pair.1 hround with rfl | rfl
  · trivial
  · trivial

include h hcur hT

/-- The rounds keep the books: the clock is up to date, and has granted what has come due. -/
theorem roundsBy_keeps (hk : k ≤ deltas.length) :
    (r.roundsBy deltas k).Current ∧
      (r.roundsBy deltas k).now.toNat = r.now.toNat + (deltas.take k).sum ∧
      Clock.Keeps r.machine.clock (deltas.take k).sum (r.roundsBy deltas k).machine.clock
        (r.stepsBy deltas k) := by
  induction k with
  | zero =>
    have hrefl := Clock.Keeps.refl h.sound.clock
    have hzero : r.stepsBy deltas 0 = 0 := (r.stepsBy_eq deltas 0).trans hrefl.steps.symm
    rw [hzero]
    exact ⟨hcur, rfl, hrefl⟩
  | succ k ih =>
    rcases ih (Nat.le_of_succ_le hk) with ⟨hcur', hnow, hkeeps⟩
    have hall := List.sum_take_add_sum_drop deltas (k + 1)
    rw [List.sum_take_succ _ _ hk] at hall
    have hdelta : (r.roundsBy deltas k).now.toNat + deltas[k] < UInt64.size := by omega
    have hsum := hkeeps.trans (round_keeps (h.roundsBy deltas k) hcur' hdelta)
    rw [stepsBy_eq, List.sum_take_succ _ _ hk, roundsBy_succ hk]
    refine ⟨round_current .., ?_, ⟨hsum.rate, rfl, hsum.cpuDebt, hsum.timerDebt⟩⟩
    exact (Reading.toNat_later hdelta).trans (by rw [hnow, Nat.add_assoc])

/-- One more round grants what has come due since. -/
theorem stepsBy_succ (hk : k < deltas.length) :
    r.stepsBy deltas (k + 1) = r.stepsBy deltas k +
      (r.roundsBy deltas k).machine.clock.stepsDue ((r.roundsBy deltas k).now.later deltas[k]) := by
  rcases roundsBy_keeps h hcur hT (Nat.le_of_lt hk) with ⟨hcur', hnow, hkeeps⟩
  have hall := List.sum_take_add_sum_drop deltas (k + 1)
  rw [List.sum_take_succ _ _ hk] at hall
  have hdelta : (r.roundsBy deltas k).now.toNat + deltas[k] < UInt64.size := by omega
  rw [stepsBy_eq, List.sum_take_succ _ _ hk]
  exact (hkeeps.trans (round_keeps (h.roundsBy deltas k) hcur' hdelta)).steps.symm

omit hcur in
theorem stepsBy_lt (k : Nat) : r.stepsBy deltas k < UInt64.size := by
  have hall := List.sum_take_add_sum_drop deltas k
  rw [stepsBy_eq]
  exact Clock.stepsIn_lt h.sound.clock (by omega)

end Rounds

end Rig

/-! ## Sessions -/

namespace Session

variable {s : Session} {now : Reading} {entropy : List UInt8}

/-- A round that runs into a fault has nothing to publish. -/
theorem round_of_fault {fault : Fault} (h : (s.machine.update now entropy).fault = some fault) :
    s.round now entropy =
      ⟨{ s with machine := (s.machine.update now entropy).machine },
        (s.machine.update now entropy).entropy, (s.machine.update now entropy).events,
        .error fault⟩ := by
  unfold round conclude
  simp only [h]

/-- A round without steps has no frames. -/
theorem round_of_idle (h : (s.machine.update now entropy).fault = none)
    (hidle : (s.machine.update now entropy).completed = 0) :
    s.round now entropy =
      ⟨{ s with machine := (s.machine.update now entropy).machine },
        (s.machine.update now entropy).entropy, (s.machine.update now entropy).events, .ok []⟩ := by
  unfold round conclude
  simp only [h, hidle, if_pos]

/-- A round with steps counts them and has the two frames of what they leave. -/
theorem round_of_busy (h : (s.machine.update now entropy).fault = none)
    (hbusy : (s.machine.update now entropy).completed ≠ 0) :
    s.round now entropy =
      ⟨{ s with
          machine := (s.machine.update now entropy).machine.displayFrame.2
          executed := s.executed + UInt64.ofNat (s.machine.update now entropy).completed },
        (s.machine.update now entropy).entropy, (s.machine.update now entropy).events,
        .ok [.display (s.machine.update now entropy).machine.displayFrame.1,
          .debug (s.machine.update now entropy).machine.displayFrame.2.debugFrame]⟩ := by
  unfold round conclude
  simp only [h, if_neg hbusy]

/-- A round that runs into a fault has no frames and counts no steps. -/
theorem round_sameButPacking_of_fault {m : Machine} (h : m.SameButPacking s.machine)
    {fault : Fault} (hfault : (m.update now entropy).fault = some fault) :
    (s.round now entropy).frames = .error fault ∧
      (s.round now entropy).session.executed = s.executed := by
  have hrun := Machine.sameButPacking_lockstep.update h now entropy
  rw [round_of_fault (hrun.fault.trans hfault)]
  exact ⟨rfl, rfl⟩

/-- A round that runs into no fault counts the steps of the update and has the frames of what the
update leaves, if there are any steps; it does not matter what was packed before. -/
theorem round_sameButPacking {m : Machine} (h : m.SameButPacking s.machine)
    (hfault : (m.update now entropy).fault = none) :
    let run := m.update now entropy
    let round := s.round now entropy
    run.machine.SameButPacking round.session.machine ∧
      round.session.maxSteps = s.maxSteps ∧
      round.session.executed = s.executed + UInt64.ofNat run.completed ∧
      round.entropy = run.entropy ∧
      round.frames = .ok (if 0 < run.completed then run.machine.frames else []) := by
  intro run round
  have hrun := Machine.sameButPacking_lockstep.update h now entropy
  have hfault' := hrun.fault.trans hfault
  rcases Nat.eq_zero_or_pos run.completed with hidle | hbusy
  · have hround := round_of_idle hfault' (hrun.completed.trans hidle)
    unfold round
    rw [hround, hidle]
    refine ⟨hrun.machine, rfl, ?_, hrun.entropy, rfl⟩
    exact (UInt64.add_zero s.executed).symm
  · have hbusy' : (s.machine.update now entropy).completed ≠ 0 := by
      rw [hrun.completed]
      exact Nat.ne_of_gt hbusy
    have hround := round_of_busy hfault' hbusy'
    have hafter := hrun.machine.afterFrame
    have hmemory := Machine.sameButPacking_lockstep.memory hafter
    unfold round
    rw [hround, if_pos hbusy]
    refine ⟨hafter, rfl, by rw [hrun.completed], hrun.entropy, ?_⟩
    rw [hrun.machine.displayFrame_fst, Machine.debugFrame, hmemory]
    rfl

theorem isDone_iff : s.isDone = true ↔ s.maxSteps ≠ 0 ∧ s.maxSteps.toNat ≤ s.executed.toNat := by
  unfold isDone
  rw [Bool.and_eq_true, bne_iff_ne, decide_eq_true_eq, UInt64.le_iff_toNat_le]

end Session

namespace Script

variable {t : Script} {delta : Nat}

/-- A turn whose round runs into a fault ends the script with it. -/
theorem turn_of_error {fault : Fault}
    (h : (t.session.round (t.time.later delta) t.entropy).frames = .error fault) :
    t.turn delta =
      ({ session := (t.session.round (t.time.later delta) t.entropy).session
         time := t.time.later delta
         entropy := (t.session.round (t.time.later delta) t.entropy).entropy
         recorder := t.recorder
         events := t.events ++ (t.session.round (t.time.later delta) t.entropy).events },
        some (.faulted fault)) := by
  unfold turn
  simp only [h]

/-- A turn hands the frames of its round to the recorder, and ends the script if one cannot be
written. -/
theorem turn_of_ok {frames : List Frame}
    (h : (t.session.round (t.time.later delta) t.entropy).frames = .ok frames) :
    t.turn delta =
      ({ session := (t.session.round (t.time.later delta) t.entropy).session
         time := t.time.later delta
         entropy := (t.session.round (t.time.later delta) t.entropy).entropy
         recorder := (t.recorder.publishAll frames).1
         events := t.events ++ (t.session.round (t.time.later delta) t.entropy).events },
        if (t.recorder.publishAll frames).2 then none else some .sinkFailed) := by
  unfold turn
  simp only [h]
  rcases t.recorder.publishAll frames with ⟨recorder, written⟩
  cases written with
  | true => rfl
  | false => rfl

end Script

namespace Rig

/-- A session of the machine, on the time source and the random bytes of the rig. -/
def session (r : Rig) (maxSteps : UInt64) (recorder : Recorder) : Script :=
  let session := Session.start r.machine maxSteps
  { session, time := r.now, entropy := r.entropy, recorder, events := #[session.opening] }

theorem session_attach (r : Rig) (maxSteps : UInt64) (recorder : Recorder) :
    (r.apply (.attach 0)).rig.session maxSteps recorder =
      Script.start r.machine maxSteps r.entropy recorder :=
  rfl

/-- The session has gone through the first `k` rounds without coming to an end, and they have come
to what the rounds of the rig come to. -/
structure Follows (r : Rig) (deltas : List Nat) (maxSteps : UInt64) (failAt k : Nat) (t : Script) :
    Prop where
  machine : (r.roundsBy deltas k).machine.SameButPacking t.session.machine
  time : t.time = (r.roundsBy deltas k).now
  entropy : t.entropy = (r.roundsBy deltas k).entropy
  limit : t.session.maxSteps = maxSteps
  executed : t.session.executed.toNat = r.stepsBy deltas k
  recorder : t.recorder.HasWritten failAt (r.framesBy deltas k)
  takes : Recorder.Takes failAt (r.framesBy deltas k)
  unlimited : ∀ i < k, ¬ r.ReachesLimit deltas maxSteps i
  faultless : ∀ i < k, ∀ delta, deltas[i]? = some delta →
    ((r.roundsBy deltas i).roundRun delta).fault = none

/-- How a session ends after `k` rounds, having written some frames: all those of the rounds, unless
one of the last round cannot be written. -/
inductive Ends (r : Rig) (deltas : List Nat) (maxSteps : UInt64) (failAt : Nat) :
    Nat → List Frame → Ending → Prop where
  | done {k : Nat} (takes : Recorder.Takes failAt (r.framesBy deltas k))
    (limit : r.ReachesLimit deltas maxSteps k) :
    Ends r deltas maxSteps failAt k (r.framesBy deltas k) .done
  | timeExhausted {k : Nat} (takes : Recorder.Takes failAt (r.framesBy deltas k))
    (unlimited : ¬ r.ReachesLimit deltas maxSteps k) (last : k = deltas.length) :
    Ends r deltas maxSteps failAt k (r.framesBy deltas k) .timeExhausted
  | sinkFailed {k : Nat} (before : (r.framesBy deltas k).length < failAt)
    (after : failAt ≤ (r.framesBy deltas (k + 1)).length) :
    Ends r deltas maxSteps failAt (k + 1) ((r.framesBy deltas (k + 1)).take (failAt - 1))
      .sinkFailed
  | faulted {k delta : Nat} {fault : Fault} (takes : Recorder.Takes failAt (r.framesBy deltas k))
    (unlimited : ¬ r.ReachesLimit deltas maxSteps k) (next : deltas[k]? = some delta)
    (halts : ((r.roundsBy deltas k).roundRun delta).fault = some fault) :
    Ends r deltas maxSteps failAt k (r.framesBy deltas k) (.faulted fault)

/-- The session has come to its end after `j` rounds, and no earlier. It has executed the steps of
these rounds and flushed after each frame that it has written. -/
structure Concludes (r : Rig) (deltas : List Nat) (maxSteps : UInt64) (failAt j : Nat)
    (outcome : Script × Ending) : Prop where
  unlimited : ∀ i < j, ¬ r.ReachesLimit deltas maxSteps i
  faultless : ∀ i < j, ∀ delta, deltas[i]? = some delta →
    ((r.roundsBy deltas i).roundRun delta).fault = none
  executed : outcome.1.session.executed.toNat = r.stepsBy deltas j
  flushes : outcome.1.recorder.flushes = outcome.1.recorder.frames.size
  ends : r.Ends deltas maxSteps failAt j outcome.1.recorder.frames.toList outcome.2

namespace Follows

variable {r : Rig} {deltas : List Nat} {maxSteps : UInt64} {failAt k : Nat} {t : Script}

/-- A session starts before the first round. -/
theorem start (h : r.Reachable) :
    r.Follows deltas maxSteps failAt 0 (r.session maxSteps (.empty true failAt)) where
  machine := by
    rcases History.exists_rig_eq_iff.2 h with ⟨history, rfl⟩
    exact .refl history.faithful
  time := rfl
  entropy := rfl
  limit := rfl
  executed := by
    have hzero := (Clock.Keeps.refl h.sound.clock).steps
    exact hzero.trans (r.stepsBy_eq deltas 0).symm
  recorder := ⟨rfl, rfl, rfl, rfl⟩
  takes := Nat.eq_zero_or_pos failAt
  unlimited _ hi := absurd hi (Nat.not_lt_zero _)
  faultless _ hi := absurd hi (Nat.not_lt_zero _)

variable (hf : r.Follows deltas maxSteps failAt k t)

include hf

theorem isDone_iff : t.session.isDone = true ↔ r.ReachesLimit deltas maxSteps k := by
  rw [Session.isDone_iff, hf.limit, hf.executed]
  rfl

/-- A session ends in a round whose update faults, with what it has executed and written before. -/
theorem turn_of_fault (hk : k < deltas.length) {fault : Fault}
    (hfault : ((r.roundsBy deltas k).roundRun deltas[k]).fault = some fault) :
    (t.turn deltas[k]).2 = some (.faulted fault) ∧
      (t.turn deltas[k]).1.session.executed = t.session.executed ∧
      (t.turn deltas[k]).1.recorder = t.recorder := by
  unfold roundRun at hfault
  rw [← hf.time, ← hf.entropy] at hfault
  rcases Session.round_sameButPacking_of_fault hf.machine hfault with ⟨hframes, hexecuted⟩
  rw [Script.turn_of_error hframes]
  exact ⟨rfl, hexecuted, rfl⟩

theorem unlimited_succ (hopen : ¬ r.ReachesLimit deltas maxSteps k) :
    ∀ i < k + 1, ¬ r.ReachesLimit deltas maxSteps i := by
  intro i hi
  rcases Nat.lt_succ_iff_lt_or_eq.1 hi with hlt | rfl
  · exact hf.unlimited i hlt
  · exact hopen

/-- One more round without a fault. -/
theorem faultless_succ (hk : k < deltas.length)
    (hfault : ((r.roundsBy deltas k).roundRun deltas[k]).fault = none) :
    ∀ i < k + 1, ∀ delta, deltas[i]? = some delta →
      ((r.roundsBy deltas i).roundRun delta).fault = none := by
  intro i hi delta hdelta
  rcases Nat.lt_succ_iff_lt_or_eq.1 hi with hlt | rfl
  · exact hf.faultless i hlt delta hdelta
  · obtain rfl := Option.some.inj ((List.getElem?_eq_getElem hk).symm.trans hdelta)
    exact hfault

section

variable (h : r.Reachable) (hcur : r.Current) (hT : r.now.toNat + deltas.sum < UInt64.size)
  (hk : k < deltas.length)
  (hfault : ((r.roundsBy deltas k).roundRun deltas[k]).fault = none)

include h hcur hT hfault

/-- A round without a fault counts the steps that have come due and has frames for them, if there
are any. -/
theorem round_of_none :
    let round := t.session.round (t.time.later deltas[k]) t.entropy
    (r.roundsBy deltas (k + 1)).machine.SameButPacking round.session.machine ∧
      round.session.maxSteps = maxSteps ∧
      round.session.executed.toNat = r.stepsBy deltas (k + 1) ∧
      round.entropy = (r.roundsBy deltas (k + 1)).entropy ∧
      ∃ frames, round.frames = .ok frames ∧
        r.framesBy deltas (k + 1) = r.framesBy deltas k ++ frames := by
  have hsteps := stepsBy_succ h hcur hT hk
  have hlt : r.stepsBy deltas (k + 1) < 18446744073709551616 := stepsBy_lt h hT (k + 1)
  have hframes := r.framesBy_succ deltas k
  rw [← roundRun_completed hfault] at hsteps
  have hbusy : r.stepsBy deltas k < r.stepsBy deltas (k + 1) ↔
      0 < ((r.roundsBy deltas k).roundRun deltas[k]).completed := by omega
  simp only [hbusy, roundsBy_succ hk] at hframes
  have hrun : (r.roundsBy deltas k).roundRun deltas[k] =
      (r.roundsBy deltas k).machine.update (t.time.later deltas[k]) t.entropy := by
    rw [hf.time, hf.entropy]
    rfl
  rcases Session.round_sameButPacking hf.machine (hrun ▸ hfault) with
    ⟨hmachine, hlimit, hexecuted, hentropy, hpublished⟩
  rw [← hrun] at hmachine hexecuted hentropy hpublished
  rw [roundsBy_succ hk]
  refine ⟨hmachine, hlimit.trans hf.limit, ?_, hentropy, _, hpublished, hframes⟩
  have hbefore := hf.executed
  rw [hexecuted, UInt64.toNat_add, UInt64.toNat_ofNat']
  omega

/-- If the frames of the round can be written, the session goes on. -/
theorem turn_of_takes (hopen : ¬ r.ReachesLimit deltas maxSteps k)
    (htakes : Recorder.Takes failAt (r.framesBy deltas (k + 1))) :
    (t.turn deltas[k]).2 = none ∧
      r.Follows deltas maxSteps failAt (k + 1) (t.turn deltas[k]).1 := by
  rcases hf.round_of_none h hcur hT hk hfault with
    ⟨hmachine, hlimit, hexecuted, hentropy, frames, hpublished, hframes⟩
  rcases hf.recorder.publishAll_of_takes frames (hframes ▸ htakes) with ⟨hall, hwritten⟩
  rw [Script.turn_of_ok hpublished, if_pos hall]
  refine ⟨rfl, hmachine, ?_, hentropy, hlimit, hexecuted, ?_, htakes, hf.unlimited_succ hopen,
    hf.faultless_succ hk hfault⟩
  · rw [hf.time, roundsBy_succ hk]
    rfl
  · rw [hframes]
    exact hwritten

/-- If one of the frames of the round cannot be written, the session ends there, with the steps of
the round counted. -/
theorem turn_of_not_takes (hfails : ¬ Recorder.Takes failAt (r.framesBy deltas (k + 1))) :
    (t.turn deltas[k]).2 = some .sinkFailed ∧
      (t.turn deltas[k]).1.session.executed.toNat = r.stepsBy deltas (k + 1) ∧
      (t.turn deltas[k]).1.recorder.HasWritten failAt
        ((r.framesBy deltas (k + 1)).take (failAt - 1)) ∧
      (r.framesBy deltas k).length < failAt ∧
      failAt ≤ (r.framesBy deltas (k + 1)).length := by
  rcases hf.round_of_none h hcur hT hk hfault with
    ⟨-, -, hexecuted, -, frames, hpublished, hframes⟩
  unfold Recorder.Takes at hfails
  have hlt : (r.framesBy deltas k).length < failAt := by
    rcases hf.takes with hzero | hlt
    · exact absurd (.inl hzero) hfails
    · exact hlt
  have hle : failAt ≤ (r.framesBy deltas (k + 1)).length := by omega
  rcases hf.recorder.publishAll_of_fails frames hlt (hframes ▸ hle) with ⟨hcut, hwritten⟩
  rw [Script.turn_of_ok hpublished, hcut, hframes]
  exact ⟨rfl, hexecuted, hwritten, hlt, hframes ▸ hle⟩

end

/-- A session that ends before the next round. -/
theorem concludes {outcome : Script × Ending}
    (hsession : outcome.1.session.executed = t.session.executed)
    (hrecorder : outcome.1.recorder = t.recorder)
    (hends : r.Ends deltas maxSteps failAt k (r.framesBy deltas k) outcome.2) :
    r.Concludes deltas maxSteps failAt k outcome where
  unlimited := hf.unlimited
  faultless := hf.faultless
  executed := by rw [hsession, hf.executed]
  flushes := by rw [hrecorder, hf.recorder.flushes, ← hf.recorder.written, Array.length_toList]
  ends := by rwa [hrecorder, hf.recorder.written]

/-- From any round on, a session comes to an end. -/
theorem run (h : r.Reachable) (hcur : r.Current) (hT : r.now.toNat + deltas.sum < UInt64.size)
    (hk : k ≤ deltas.length) :
    ∃ j ≤ deltas.length, r.Concludes deltas maxSteps failAt j (t.run (deltas.drop k)) := by
  -- by induction on the number of rounds that are left
  generalize hn : deltas.length - k = n
  induction n generalizing k t with
  | zero =>
    have hlast : k = deltas.length := by omega
    have hnil : deltas.drop k = [] := List.drop_of_length_le (Nat.le_of_sub_eq_zero hn)
    refine ⟨k, hk, ?_⟩
    rw [hnil, Script.run_nil]
    by_cases hdone : t.session.isDone
    · rw [if_pos hdone]
      exact hf.concludes rfl rfl (.done hf.takes (hf.isDone_iff.1 hdone))
    · rw [if_neg hdone]
      exact hf.concludes rfl rfl (.timeExhausted hf.takes (mt hf.isDone_iff.2 hdone) hlast)
  | succ n ih =>
    have hlt : k < deltas.length := by omega
    rw [List.drop_eq_getElem_cons hlt]
    by_cases hdone : t.session.isDone
    · rw [Script.run_cons, if_pos hdone]
      exact ⟨k, hk, hf.concludes rfl rfl (.done hf.takes (hf.isDone_iff.1 hdone))⟩
    · have hopen := mt hf.isDone_iff.2 hdone
      cases hfault : ((r.roundsBy deltas k).roundRun deltas[k]).fault with
      | some fault =>
        rcases hf.turn_of_fault hlt hfault with ⟨hending, hexecuted, hrecorder⟩
        rw [Script.run_cons_of_some hdone hending]
        have hends := Ends.faulted hf.takes hopen (List.getElem?_eq_getElem hlt) hfault
        exact ⟨k, hk, hf.concludes hexecuted hrecorder hends⟩
      | none =>
        by_cases htakes : Recorder.Takes failAt (r.framesBy deltas (k + 1))
        · rcases hf.turn_of_takes h hcur hT hlt hfault hopen htakes with ⟨hending, hnext⟩
          rw [Script.run_cons_of_none hdone hending]
          exact ih hnext hlt (by omega)
        · rcases hf.turn_of_not_takes h hcur hT hlt hfault htakes with
            ⟨hending, hexecuted, hwritten, hbefore, hafter⟩
          rw [Script.run_cons_of_some hdone hending]
          refine ⟨k + 1, hlt, hf.unlimited_succ hopen, hf.faultless_succ hlt hfault, hexecuted,
            ?_, ?_⟩
          · rw [hwritten.flushes, ← hwritten.written, Array.length_toList]
          · rw [hwritten.written]
            exact .sinkFailed hbefore hafter

end Follows

/-- A session comes to an end, and what it has executed and written by then are the steps and the
frames of the rounds. -/
theorem Reachable.concludes {r : Rig} (h : r.Reachable) (hcur : r.Current) {deltas : List Nat}
    (hT : r.now.toNat + deltas.sum < UInt64.size) (maxSteps : UInt64) (failAt : Nat) :
    ∃ j ≤ deltas.length, r.Concludes deltas maxSteps failAt j
      ((r.session maxSteps (.empty true failAt)).run deltas) :=
  (Follows.start h).run h hcur hT (Nat.zero_le _)

/-- Driving a machine is a session on a new time source, which starts at zero. -/
theorem Reachable.concludes_drive {r : Rig} (h : r.Reachable) {deltas : List Nat}
    (hT : deltas.sum < UInt64.size) (maxSteps : UInt64) (failAt : Nat) :
    ∃ j ≤ deltas.length, ∃ outcome,
      (r.apply (.attach 0)).rig.Concludes deltas maxSteps failAt j outcome ∧
      (r.apply (.drive maxSteps deltas (.empty true failAt))).reply =
        .drove outcome.2 outcome.1.session.executed outcome.1.recorder := by
  have hattached : (r.apply (.attach 0)).rig.Reachable := h.apply (.attach 0) trivial
  have hzero : (r.apply (.attach 0)).rig.now.toNat + deltas.sum < UInt64.size := by
    change 0 + deltas.sum < UInt64.size
    rwa [Nat.zero_add]
  rcases hattached.concludes rfl hzero maxSteps failAt with ⟨j, hj, hconcludes⟩
  rw [session_attach] at hconcludes
  exact ⟨j, hj, _, hconcludes, rfl⟩

/-- **Sessions.** On a rig whose clock has accounted for the current reading, a session goes through
the rounds of its time, and so does driving the machine, on a time source of its own. By the `k`th
round it has executed the steps that have come due by then, and written the frames of the rounds in
which there were any, two for each: the pixels and the memory that the round has left. It ends with
the first round that reaches the limit, unless before that a frame cannot be written, an update
faults or no time is left; a frame that cannot be written is not there, nor is any after it, but the
steps of its round count. -/
theorem Reachable.publication {r : Rig} (h : r.Reachable) (hcur : r.Current) (deltas : List Nat)
    (hT : r.now.toNat + deltas.sum < UInt64.size) (maxSteps : UInt64) (failAt : Nat) :
    (∃ j ≤ deltas.length, r.Concludes deltas maxSteps failAt j
      ((r.session maxSteps (.empty true failAt)).run deltas)) ∧
    (∃ j ≤ deltas.length, ∃ outcome,
      (r.apply (.attach 0)).rig.Concludes deltas maxSteps failAt j outcome ∧
      (r.apply (.drive maxSteps deltas (.empty true failAt))).reply =
        .drove outcome.2 outcome.1.session.executed outcome.1.recorder) ∧
    ∀ k, ∃ display debug,
      (r.roundsBy deltas k).machine.frames = [.display display, .debug debug] ∧
      (r.roundsBy deltas k).machine.IsShownBy display debug := by
  have htime : deltas.sum < UInt64.size := by omega
  refine ⟨h.concludes hcur hT maxSteps failAt, h.concludes_drive htime maxSteps failAt, ?_⟩
  intro k
  exact ⟨_, _, rfl, Machine.isShownBy_frames _⟩

/-- The second round is idle, and the memory that the third has left cannot be written. -/
theorem Reachable.publication_cut :
    let r := (Rig.start 1000 .standard 7 []).after [.load #[0xD0, 0x05, 0x12, 0x00]]
    let deltas := [2500000, 400000, 600000]
    let outcome := (r.session 0 (.empty true 4)).run deltas
    r.Reachable ∧ r.Current ∧ r.now.toNat + deltas.sum < UInt64.size ∧
      outcome.2 = .sinkFailed ∧ outcome.1.session.executed = 3 ∧
      outcome.1.recorder.frames.size = 3 ∧
      ∃ j ≤ 3, r.Concludes deltas 0 4 j outcome := by
  intro r deltas outcome
  have h : r.Reachable := Rig.Reachable.after (.start ..) (by simp [Request.IsPlain])
  have hcur : r.machine.clock.lastReading = r.now := by decide +kernel
  have hT : r.now.toNat + deltas.sum < UInt64.size := by decide +kernel
  have hending : outcome.2 = .sinkFailed := by decide +kernel
  have hexecuted : outcome.1.session.executed = 3 := by decide +kernel
  have hsize : outcome.1.recorder.frames.size = 3 := by decide +kernel
  exact ⟨h, hcur, hT, hending, hexecuted, hsize, (h.publication hcur deltas hT 0 4).1⟩

end Rig
end ChipEight
