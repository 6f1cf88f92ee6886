import ChipEight.Command.Run
import ChipEight.Proofs.Publication
import ChipEight.Proofs.RandomBytes

/-!
# The loop of the command

A command drives its session in the world it runs in. It asks for the time once in each round and
for a random byte whenever a step takes one, it reports as it goes, and it hands on one frame after
the other. A stage is a world that follows a script: its time, its random bytes and its recorder
are those of a scripted session. On a stage the loop of the command is the scripted session, round
by round and up to the same ending (`Command.Stage.drive_eq_run`), so whatever holds of scripted
sessions holds of the loop. A step does not see whether all random bytes are there or only the one
that was asked for (`Machine.step_handed`).
-/

namespace ChipEight

/-! ## Random bytes, one at a time -/

namespace Machine

/-- The steps that take a byte are those that have a mask for it. -/
theorem takesRandom_eq (m : Machine) : m.takesRandom = m.mask?.isSome := by
  unfold takesRandom mask?
  cases fetchable m.registers.pc <;> rfl

/-- What the next step is handed of the bytes that are there: the first, if it takes one. -/
def handed (m : Machine) (entropy : List UInt8) : List UInt8 :=
  if m.takesRandom then entropy.head?.toList else []

/-- What the next step leaves of the bytes that are there. -/
def kept (m : Machine) (entropy : List UInt8) : List UInt8 :=
  if m.takesRandom then entropy.tail else entropy

/-- A step does the same whether all bytes are there or only what it is handed. -/
theorem step_handed (m : Machine) (entropy : List UInt8) :
    m.step entropy = { m.step (m.handed entropy) with entropy := m.kept entropy } := by
  unfold handed kept
  rw [takesRandom_eq]
  cases hmask : m.mask? with
  | none => exact step_withSource hmask [] entropy
  | some nn =>
    obtain ⟨hf, x, hi⟩ := mask?_eq_some_iff.1 hmask
    rw [Option.isSome_some, if_pos rfl, if_pos rfl, step_random hf hi, step_random hf hi]
    cases entropy <;> rfl

end Machine

theorem Run.step_handed (r : Run) (entropy : List UInt8) :
    { r with entropy : Run }.step =
      { { r with entropy := r.machine.handed entropy : Run }.step with
        entropy := r.machine.kept entropy } := by
  unfold step
  dsimp only
  rw [r.machine.step_handed entropy]

namespace Session

/-- A round has left what its run has left. -/
theorem entropy_conclude (s : Session) (run : Run) : (s.conclude run).entropy = run.entropy := by
  unfold conclude
  split
  · rfl
  · split <;> rfl

/-- What a round comes to does not depend on the bytes that its run has left. -/
theorem conclude_withEntropy (s : Session) (run : Run) (entropy : List UInt8) :
    s.conclude { run with entropy } = { s.conclude run with entropy } := by
  unfold conclude
  dsimp only
  split
  · rfl
  · split <;> rfl

end Session

namespace Command

/-! ## Stages -/

/-- A world that follows a script: by how much the time is still going to move, what it is, the
random bytes that are left, the recorder, and what has been logged. -/
structure Stage where
  deltas : List Nat
  time : Reading
  entropy : List UInt8
  recorder : Recorder
  log : List Event

namespace Stage

/-- Moves the time by the next entry of the script, and tells it. After the last entry the time
stands still. -/
def tell (s : Stage) : Reading × Stage :=
  let time := s.time.later (s.deltas.headD 0)
  (time, { s with deltas := s.deltas.tail, time })

def takeByte (s : Stage) : Option UInt8 × Stage :=
  (s.entropy.head?, { s with entropy := s.entropy.tail })

def note (e : Event) (s : Stage) : Stage :=
  { s with log := s.log ++ [e] }

/-- Hands a frame to the recorder. That it cannot be written has the given cause. -/
def hand (cause : SystemError) (frame : Frame) (s : Stage) : Except SystemError Unit × Stage :=
  match s.recorder.publish frame with
  | some recorder => (.ok (), { s with recorder })
  | none => (.error cause, s)

def publish (cause : SystemError) (frame : Frame) : StateM Stage (Except SystemError Unit) :=
  modifyGet (hand cause frame)

/-- The stage as surroundings of a command. It has no files. -/
def surroundings (cause : SystemError) : Surroundings (StateM Stage) where
  read _ := return .error .notFound
  write _ _ := return .error .notFound
  publisher _ := return .ok (publish cause)
  now := modifyGet tell
  pause := return ()
  random := modifyGet takeByte
  log e := modify (note e)

/-- Rounds of a session on a stage. -/
abbrev drive (cause : SystemError) (detail rounds : Nat) (session : Session) :
    StateM Stage (Session × Except Failure Unit) :=
  Command.drive (surroundings cause) detail (publish cause) rounds session

theorem run_bind {α β : Type} (action : StateM Stage α) (next : α → StateM Stage β) (s : Stage) :
    (action >>= next).run s = (next (action.run s).1).run (action.run s).2 :=
  rfl

/-- The events that the wanted detail admits. -/
def admitted (detail : Nat) (events : List Event) : List Event :=
  events.filter (·.level.detail ≤ detail)

theorem admitted_append (detail : Nat) (l l' : List Event) :
    admitted detail (l ++ l') = admitted detail l ++ admitted detail l' :=
  List.filter_append ..

variable (cause : SystemError) (s : Stage)

/-! ## What the loop asks for -/

/-- What is reported is logged as far as the wanted detail admits it. -/
theorem run_report (detail : Nat) (events : List Event) :
    (report (surroundings cause) detail events).run s =
      ((), { s with log := s.log ++ admitted detail events }) := by
  induction events generalizing s with
  | nil => exact congrArg (fun log => ((), { s with log })) (List.append_nil _).symm
  | cons e events ih =>
    change (report (surroundings cause) detail events).run
      ((if e.level.detail ≤ detail then (surroundings cause).log e else pure ()).run s).2 = _
    rw [ih]
    by_cases h : e.level.detail ≤ detail
    · have hadmit : admitted detail (e :: events) = e :: admitted detail events :=
        List.filter_cons_of_pos (decide_eq_true h)
      rw [if_pos h, hadmit, List.append_cons]
      rfl
    · have hdrop : admitted detail (e :: events) = admitted detail events :=
        List.filter_cons_of_neg fun hd => h (of_decide_eq_true hd)
      rw [if_neg h, hdrop]
      rfl

/-- Frames go to the recorder of the stage. -/
theorem run_publishAll (frames : List Frame) :
    (publishAll (publish cause) frames).run s =
      (if (s.recorder.publishAll frames).2 then .ok () else .error cause,
        { s with recorder := (s.recorder.publishAll frames).1 }) := by
  induction frames generalizing s with
  | nil => rfl
  | cons frame frames ih =>
    have hfirst : (publish cause frame).run s = hand cause frame s := rfl
    unfold publishAll Recorder.publishAll
    rw [run_bind, hfirst]
    unfold hand
    cases s.recorder.publish frame with
    | none => rfl
    | some recorder => exact ih { s with recorder }

/-- What is asked for before a step is what the step is handed of the bytes of the stage. -/
theorem run_supply (machine : Machine) :
    (supply (surroundings cause) machine).run s =
      (machine.handed s.entropy, { s with entropy := machine.kept s.entropy }) := by
  unfold supply Machine.handed Machine.kept
  cases machine.takesRandom <;> rfl

/-- The steps are those of a run that has all bytes of the stage from the start. -/
theorem run_steps (n : Nat) (r : Run) :
    let whole := { r with entropy := s.entropy : Run }.steps n
    ∃ entropy, (steps (surroundings cause) n r).run s =
      ({ whole with entropy }, { s with entropy := whole.entropy }) := by
  induction n generalizing r s with
  | zero => exact ⟨r.entropy, rfl⟩
  | succ n ih =>
    unfold steps
    rw [Run.steps_succ]
    by_cases hfault : r.fault.isSome
    · rw [if_pos hfault, if_pos hfault]
      exact ⟨r.entropy, rfl⟩
    · rw [if_neg hfault, if_neg hfault, run_bind, run_supply, r.step_handed]
      exact ih { s with entropy := r.machine.kept s.entropy } _

theorem run_update (machine : Machine) (now : Reading) :
    ∃ entropy, (update (surroundings cause) machine now).run s =
      ({ machine.update now s.entropy with entropy },
        { s with entropy := (machine.update now s.entropy).entropy }) :=
  s.run_steps cause _ _

/-! ## The loop -/

/-- What the command makes of the ending of a session. -/
def result : Ending → Except Failure Unit
  | .done | .timeExhausted => .ok ()
  | .faulted fault => .error (.fault fault)
  | .sinkFailed => .error (.system cause)

/-- The stage after a round, before its frames are handed on. -/
def afterRound (detail : Nat) (round : Round) : Stage :=
  { s.tell.2 with entropy := round.entropy, log := s.log ++ admitted detail round.events.toList }

variable {session : Session} (detail : Nat)

/-- A session that is done is closed. -/
theorem run_drive_of_isDone (rounds : Nat) (h : session.isDone = true) :
    (drive cause detail rounds session).run s =
      ((session, .ok ()), { s with log := s.log ++ admitted detail [session.closing] }) := by
  unfold drive Command.drive
  rw [if_pos h, run_bind, run_report]
  rfl

theorem run_drive_zero (h : ¬ session.isDone = true) :
    (drive cause detail 0 session).run s = ((session, .ok ()), s) := by
  unfold drive Command.drive
  rw [if_neg h]
  rfl

/-- A round of the loop moves the time, goes through the round of the session, logs what it reports
and hands on its frames. After that the loop goes on, unless there was a fault or a frame could not
be written. -/
theorem run_drive_succ (rounds : Nat) (h : ¬ session.isDone = true) :
    let round := session.round s.tell.1 s.entropy
    (drive cause detail (rounds + 1) session).run s =
      match round.frames with
      | .error fault => ((round.session, .error (.fault fault)), s.afterRound detail round)
      | .ok frames =>
        let s' := { s.afterRound detail round with recorder := (s.recorder.publishAll frames).1 }
        if (s.recorder.publishAll frames).2 then (drive cause detail rounds round.session).run s'
        else ((round.session, .error (.system cause)), s') := by
  intro round
  have hnow : (surroundings cause).now.run s = s.tell := rfl
  rcases s.tell.2.run_update cause session.machine s.tell.1 with ⟨entropy, hupdate⟩
  have hround : session.conclude
      { session.machine.update s.tell.1 s.tell.2.entropy with entropy := entropy } =
        { round with entropy } := session.conclude_withEntropy _ entropy
  have hafter : { s.tell.2 with
      entropy := (session.machine.update s.tell.1 s.tell.2.entropy).entropy
      log := s.tell.2.log ++ admitted detail round.events.toList } = s.afterRound detail round := by
    unfold afterRound round Session.round
    rw [Session.entropy_conclude]
    rfl
  unfold drive
  rw [Command.drive, if_neg h]
  dsimp only at hround hafter ⊢
  rw [run_bind, hnow, run_bind, hupdate]
  dsimp only
  rw [hround, run_bind, run_report]
  dsimp only
  rw [hafter]
  cases round.frames with
  | error fault => rfl
  | ok frames =>
    dsimp only
    rw [run_bind, run_publishAll]
    have hrecorder : (s.afterRound detail round).recorder = s.recorder := rfl
    rw [hrecorder]
    cases (s.recorder.publishAll frames).2 with
    | false => rfl
    | true => cases frames <;> rfl

/-- The stage has come to where the script has come. What has been logged are the reports of the
script that the wanted detail admits. -/
structure Abreast (detail : Nat) (s : Stage) (t : Script) : Prop where
  time : s.time = t.time
  entropy : s.entropy = t.entropy
  recorder : s.recorder = t.recorder
  log : s.log = admitted detail t.events.toList

namespace Abreast

variable {detail : Nat} {s : Stage} {t : Script} (h : s.Abreast detail t) (cause : SystemError)

include h

/-- What the stage has logged is still what the script has reported after some more events. -/
theorem log_append (events : Array Event) :
    s.log ++ admitted detail events.toList = admitted detail (t.events ++ events).toList := by
  rw [Array.toList_append, admitted_append, h.log]

theorem drive_of_isDone (rounds : Nat) (hdone : t.session.isDone = true) :
    ∃ s', (drive cause detail rounds t.session).run s = ((t.session, .ok ()), s') ∧
      s'.Abreast detail { t with events := t.events.push t.session.closing } := by
  refine ⟨_, s.run_drive_of_isDone cause detail rounds hdone, h.time, h.entropy, h.recorder, ?_⟩
  rw [Array.toList_push, admitted_append, h.log]

/-- In a round the loop does what a turn of the script does. If the turn is the last one, the loop
ends with the result that the ending stands for, and else it goes on from there. -/
theorem drive_succ {delta : Nat} {deltas : List Nat} (hdeltas : s.deltas = delta :: deltas)
    (rounds : Nat) (hopen : ¬ t.session.isDone = true) :
    ∃ s', s'.deltas = deltas ∧ s'.Abreast detail (t.turn delta).1 ∧
      (drive cause detail (rounds + 1) t.session).run s =
        match (t.turn delta).2 with
        | none => (drive cause detail rounds (t.turn delta).1.session).run s'
        | some ending => (((t.turn delta).1.session, result cause ending), s') := by
  have hnow : s.tell.1 = t.time.later delta := by
    unfold tell
    rw [h.time, hdeltas]
    rfl
  have hleft : s.tell.2.deltas = deltas := congrArg List.tail hdeltas
  have hloop := s.run_drive_succ cause detail rounds hopen
  rw [hnow, h.entropy, h.recorder] at hloop
  dsimp only at hloop
  have hlog := h.log_append (t.session.round (t.time.later delta) t.entropy).events
  generalize hround : t.session.round (t.time.later delta) t.entropy = round at hloop hlog
  cases hframes : round.frames with
  | error fault =>
    rw [hframes] at hloop
    rw [Script.turn_of_error (hround ▸ hframes), hround]
    exact ⟨s.afterRound detail round, hleft, ⟨hnow, rfl, h.recorder, hlog⟩, hloop⟩
  | ok frames =>
    rw [hframes] at hloop
    dsimp only at hloop
    rw [Script.turn_of_ok (hround ▸ hframes), hround]
    refine ⟨{ s.afterRound detail round with recorder := (t.recorder.publishAll frames).1 },
      hleft, ⟨hnow, rfl, rfl, hlog⟩, hloop.trans ?_⟩
    cases (t.recorder.publishAll frames).2 <;> rfl

end Abreast

/-- **The loop.** On a stage that is abreast of a script, the loop of the command, with a round for
each entry of the script, comes to the session that the script comes to, with the result that its
ending stands for, and leaves the stage abreast of it. -/
theorem drive_eq_run {cause : SystemError} {detail : Nat} {s : Stage} {t : Script}
    (h : s.Abreast detail t) :
    let outcome := t.run s.deltas
    ∃ s', (drive cause detail s.deltas.length t.session).run s =
        ((outcome.1.session, result cause outcome.2), s') ∧ s'.Abreast detail outcome.1 := by
  intro outcome
  unfold outcome
  generalize hdeltas : s.deltas = deltas
  induction deltas generalizing s t with
  | nil =>
    rw [Script.run_nil]
    by_cases hdone : t.session.isDone = true
    · rw [if_pos hdone]
      exact h.drive_of_isDone cause _ hdone
    · rw [if_neg hdone]
      exact ⟨s, s.run_drive_zero cause detail hdone, h⟩
  | cons delta deltas ih =>
    by_cases hdone : t.session.isDone = true
    · rw [Script.run_cons, if_pos hdone]
      exact h.drive_of_isDone cause _ hdone
    · rcases h.drive_succ cause hdeltas deltas.length hdone with
        ⟨s', hleft, hturn, hloop⟩
      cases hending : (t.turn delta).2 with
      | some ending =>
        rw [hending] at hloop
        rw [Script.run_cons_of_some hdone hending]
        exact ⟨s', hloop, hturn⟩
      | none =>
        rw [hending] at hloop
        rw [Script.run_cons_of_none hdone hending]
        rcases ih hturn hleft with ⟨last, hrest, hlast⟩
        exact ⟨last, hloop.trans hrest, hlast⟩

/-- The opening of a session is reported, and then the loop goes on to its end. -/
def play (cause : SystemError) (detail : Nat) (session : Session) :
    StateM Stage (Session × Except Failure Unit) := do
  report (surroundings cause) detail [session.opening]
  drive cause detail (← get).deltas.length session

/-- The loop from its opening on is the script from its start on. -/
theorem play_eq_run (cause : SystemError) (detail : Nat) (session : Session) (s : Stage)
    (hlog : s.log = []) :
    let t : Script := ⟨session, s.time, s.entropy, s.recorder, #[session.opening]⟩
    let outcome := t.run s.deltas
    ∃ s', (play cause detail session).run s =
        ((outcome.1.session, result cause outcome.2), s') ∧ s'.Abreast detail outcome.1 := by
  intro t outcome
  have hopened : Abreast detail { s with log := s.log ++ admitted detail [session.opening] } t :=
    ⟨rfl, rfl, rfl, by rw [hlog]; rfl⟩
  unfold play
  rw [run_bind, run_report]
  exact drive_eq_run hopened

end Stage
end Command

namespace Rig

open Command

/-- A machine that is driven through a scripted session goes through the loop of the command, on a
stage whose time starts at zero: the reply tells how the loop has ended, and the rig and the log are
what it has left. -/
theorem drive_eq_loop (r : Rig) (maxSteps : UInt64) (deltas : List Nat) (recorder : Recorder)
    (cause : SystemError) (detail : Nat) :
    let response := r.apply (.drive maxSteps deltas recorder)
    ∃ last ending s,
      (Stage.play cause detail (.start (r.machine.attach 0) maxSteps)).run
          ⟨deltas, 0, r.entropy, recorder, []⟩ = ((last, Stage.result cause ending), s) ∧
        response.reply = .drove ending last.executed s.recorder ∧
        response.rig = { r with machine := last.machine.attach r.now, entropy := s.entropy } ∧
        s.log = Stage.admitted detail response.events := by
  intro response
  rcases Stage.play_eq_run cause detail (.start (r.machine.attach 0) maxSteps)
    ⟨deltas, 0, r.entropy, recorder, []⟩ rfl with ⟨s, hloop, hs⟩
  refine ⟨_, _, s, hloop, ?_, ?_, hs.log⟩
  · rw [hs.recorder]
    rfl
  · rw [hs.entropy]
    rfl

/-- On a rig whose clock has accounted for the current reading, the loop of the command publishes
what a session publishes: the frames of the rounds, up to the first that ends it. -/
theorem Reachable.concludes_loop {r : Rig} (h : r.Reachable) (hcur : r.Current)
    {deltas : List Nat} (hT : r.now.toNat + deltas.sum < UInt64.size) (maxSteps : UInt64)
    (failAt : Nat) (cause : SystemError) (detail : Nat) :
    ∃ j ≤ deltas.length, ∃ outcome, r.Concludes deltas maxSteps failAt j outcome ∧
      ∃ s, (Stage.play cause detail (.start r.machine maxSteps)).run
          ⟨deltas, r.now, r.entropy, .empty true failAt, []⟩ =
            ((outcome.1.session, Stage.result cause outcome.2), s) ∧
        s.recorder = outcome.1.recorder := by
  rcases h.concludes hcur hT maxSteps failAt with ⟨j, hj, hconcludes⟩
  rcases Stage.play_eq_run cause detail (.start r.machine maxSteps)
    ⟨deltas, r.now, r.entropy, .empty true failAt, []⟩ rfl with ⟨s, hloop, hs⟩
  exact ⟨j, hj, _, hconcludes, s, hloop, hs.recorder⟩

end Rig
end ChipEight
