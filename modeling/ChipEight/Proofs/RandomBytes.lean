import Mathlib.Data.List.Forall2
import ChipEight.Proofs.Lockstep

/-!
# Random bytes

One instruction takes a random byte, and lets through what its mask leaves of it. Which bytes there
are is therefore not seen except through the masks. Two sources that come to the same under the
masks of the bytes that are taken, one after the other, lead to the same answers and the same states
(`Rig.randomness_masked`). The source is followed with `Taken`: what is left of it is told from the
reports, since each of them that has a mask stands for one byte.
-/

namespace ChipEight

/-! ## Masks -/

/-- The masks of the random bytes that were asked for, as the reports have it. -/
def masks (events : List Event) : List UInt8 :=
  (executed events).filterMap fun word => (Instruction.ofWord? word).bind Instruction.mask?

theorem masks_append (l l' : List Event) : masks (l ++ l') = masks l ++ masks l' := by
  unfold masks
  rw [executed_append, List.filterMap_append]

/-- The bytes of two sources are the same under these masks. A source that has run out gives
zeros. -/
def SameThrough (masks : List UInt8) (e e' : List UInt8) : Prop :=
  ∀ j nn, masks[j]? = some nn → e.getD j 0 &&& nn = e'.getD j 0 &&& nn

theorem sameThrough_iff {l e e' : List UInt8} :
    SameThrough l e e' ↔ ∀ j (_ : j < l.length), e.getD j 0 &&& l[j] = e'.getD j 0 &&& l[j] := by
  constructor
  · exact fun h j hj => h j l[j] (List.getElem?_eq_getElem hj)
  · intro h j nn hnn
    obtain ⟨hj, rfl⟩ := List.getElem?_eq_some_iff.1 hnn
    exact h j hj

instance (l e e' : List UInt8) : Decidable (SameThrough l e e') :=
  decidable_of_iff _ sameThrough_iff.symm

namespace SameThrough

variable {l l' e e' : List UInt8}

theorem refl (l e : List UInt8) : SameThrough l e e :=
  fun _ _ _ => rfl

theorem of_append (h : SameThrough (l ++ l') e e') : SameThrough l e e' := by
  intro j nn hj
  have hlt : j < l.length := (List.getElem?_eq_some_iff.1 hj).1
  refine h j nn ?_
  rw [List.getElem?_append_left hlt, hj]

theorem drop (h : SameThrough (l ++ l') e e') :
    SameThrough l' (e.drop l.length) (e'.drop l.length) := by
  intro j nn hj
  have hboth := h (l.length + j) nn (by
    rw [List.getElem?_append_right (Nat.le_add_right ..), Nat.add_sub_cancel_left, hj])
  simpa only [List.getD_eq_getElem?_getD, List.getElem?_drop] using hboth

theorem of_prefix {events events' : List Event} (hp : events <+: events')
    (h : SameThrough (masks events') e e') : SameThrough (masks events) e e' := by
  obtain ⟨more, rfl⟩ := hp
  rw [masks_append] at h
  exact h.of_append

end SameThrough

/-- The same has been done with two sources, `e` and `e'`. The reports `l` and `l'` differ only in
that a source may have run out, and they have one mask for each byte that was taken; what is left
of the sources is `f` and `f'`. -/
structure Taken (e e' : List UInt8) (l l' : List Event) (f f' : List UInt8) : Prop where
  left : f = e.drop (masks l).length
  left' : f' = e'.drop (masks l).length
  reports : l'.filter (· != .noEntropy) = l.filter (· != .noEntropy)

namespace Taken

variable {e e' f f' g g' : List UInt8} {l l' k k' : List Event}

theorem nil (e e' : List UInt8) : Taken e e' [] [] e e' :=
  ⟨rfl, rfl, rfl⟩

theorem of_masks_eq_nil (h : masks l = []) : Taken e e' l l e e' := by
  refine ⟨?_, ?_, rfl⟩
  · rw [h]
    rfl
  · rw [h]
    rfl

theorem append (h : Taken e e' l l' f f') (h' : Taken f f' k k' g g') :
    Taken e e' (l ++ k) (l' ++ k') g g' := by
  refine ⟨?_, ?_, ?_⟩
  · rw [h'.left, h.left, List.drop_drop, masks_append, List.length_append]
  · rw [h'.left', h.left', List.drop_drop, masks_append, List.length_append]
  · rw [List.filter_append, List.filter_append, h.reports, h'.reports]

theorem sameThrough (h : Taken e e' l l' f f') (hsame : SameThrough (masks (l ++ k)) e e') :
    SameThrough (masks k) f f' := by
  rw [masks_append] at hsame
  rw [h.left, h.left']
  exact hsame.drop

end Taken

/-! ## Steps -/

/-- What is carried out, with another source left. -/
def Effect.withSource (entropy : List UInt8) : Except Machine Effect → Except Machine Effect
  | .ok effect => .ok { effect with entropy }
  | .error broken => .error broken

namespace Machine

/-- An instruction without a mask does not look at the source. -/
theorem execute_withSource (m : Machine) (e e' : List UInt8) {i : Instruction}
    (h : i.mask? = none) : m.execute e' i = Effect.withSource e' (m.execute e i) := by
  cases i with
  | ret =>
    simp only [execute]
    split
    · rfl
    · cases m.registers.ret <;> rfl
  | call nnn =>
    simp only [execute]
    split
    · rfl
    · cases m.registers.call (UInt64.ofNat nnn.val) <;> rfl
  | awaitKey x =>
    rw [execute_awaitKey, execute_awaitKey]
    obtain ⟨hmode, he⟩ | ⟨hmode, hnone, he⟩ | ⟨hmode, key, hsome, he⟩ := m.awaitKey_cases e x
    · rw [he, awaitKey_of_running hmode]
      rfl
    · rw [he, awaitKey_of_none hmode hnone]
      rfl
    · rw [he, awaitKey_of_some hmode hsome]
      rfl
  | random x nn => cases h
  | _ => rfl

/-- The mask of the random byte that the next step takes, if it takes one. -/
def mask? (m : Machine) : Option UInt8 :=
  if fetchable m.registers.pc then m.instruction?.bind Instruction.mask? else none

/-- A step reports the mask of the byte that it takes, if it takes one. -/
theorem masks_step (m : Machine) (entropy : List UInt8) :
    masks (m.step entropy).events = m.mask?.toList := by
  unfold masks mask?
  rw [executed_step]
  split
  · unfold instruction?
    rw [List.filterMap_cons, List.filterMap_nil]
    cases (Instruction.ofWord? m.nextWord).bind Instruction.mask? <;> rfl
  · rfl

/-- A step that takes no byte does not look at the source. -/
theorem step_withSource {m : Machine} (h : m.mask? = none) (e e' : List UInt8) :
    m.step e' = { m.step e with entropy := e' } := by
  cases hf : fetchable m.registers.pc with
  | false =>
    rw [step_of_not_fetchable hf, step_of_not_fetchable hf]
  | true =>
    have hcarry : m.carryOut e' = Effect.withSource e' (m.carryOut e) := by
      cases hi : m.instruction? with
      | none =>
        rw [carryOut_of_none hi, carryOut_of_none hi]
        rfl
      | some i =>
        rw [carryOut_of_some hi, carryOut_of_some hi]
        refine m.recorded.execute_withSource e e' ?_
        rw [mask?, if_pos hf, hi] at h
        exact h
    rw [step_eq, step_eq, if_pos hf, if_pos hf, hcarry]
    cases m.carryOut e with
    | ok effect => rfl
    | error broken => rfl

/-- A step has a mask if it fetches an instruction that takes a random byte. -/
theorem mask?_eq_some_iff {m : Machine} {nn : UInt8} :
    m.mask? = some nn ↔
      fetchable m.registers.pc = true ∧ ∃ x, m.instruction? = some (.random x nn) := by
  unfold mask?
  constructor
  · intro h
    split at h
    · next hf =>
      obtain ⟨i, hi, hnn⟩ := Option.bind_eq_some_iff.1 h
      cases i with
      | random x nn' =>
        cases hnn
        exact ⟨hf, x, hi⟩
      | _ => cases hnn
    · cases h
  · rintro ⟨hf, x, hi⟩
    rw [if_pos hf, hi]
    rfl

/-- A step that takes a random byte puts it, masked, into a register. Where there is none it says so
and takes a zero. -/
theorem step_random {m : Machine} {x : Reg} {nn : UInt8} (hf : fetchable m.registers.pc = true)
    (hi : m.instruction? = some (.random x nn)) (entropy : List UInt8) :
    m.step entropy =
      ⟨none,
        { m with
          registers := ((m.registers.record m.nextWord).put x (entropy.headD 0 &&& nn)).next },
        entropy.tail,
        .fetched m.registers.pc m.nextWord :: if entropy.isEmpty then [.noEntropy] else []⟩ :=
  step_of_ok hf (carryOut_of_some hi entropy)

end Machine

structure Outcome.SameButSource (e e' : List UInt8) (o o' : Outcome) : Prop where
  fault : o'.fault = o.fault
  machine : o'.machine = o.machine
  taken : Taken e e' o.events o'.events o.entropy o'.entropy

/-- A step comes to the same with two sources that are the same under its mask. -/
theorem Machine.step_sameButSource {m : Machine} {e e' : List UInt8}
    (h : SameThrough (masks (m.step e).events) e e') :
    (m.step e).SameButSource e e' (m.step e') := by
  have hmasks : masks (m.step e).events = m.mask?.toList := m.masks_step e
  cases hmask : m.mask? with
  | none =>
    rw [hmask] at hmasks
    have hleft : (m.step e).entropy = e := by rw [step_withSource hmask e e]
    rw [step_withSource hmask e e']
    refine ⟨rfl, rfl, ?_⟩
    rw [hleft]
    exact .of_masks_eq_nil hmasks
  | some nn =>
    rw [hmask] at hmasks
    obtain ⟨hf, x, hi⟩ := mask?_eq_some_iff.1 hmask
    have hbyte : e.headD 0 &&& nn = e'.headD 0 &&& nn := by
      have hfirst := h 0 nn (by rw [hmasks]; rfl)
      cases e <;> cases e' <;> exact hfirst
    have hmissing : ∀ entropy : List UInt8,
        (if entropy.isEmpty then [Event.noEntropy] else []).filter (· != .noEntropy) = [] := by
      intro entropy
      cases entropy <;> rfl
    rw [step_random hf hi] at hmasks
    rw [step_random hf hi, step_random hf hi, hbyte]
    refine ⟨rfl, rfl, ⟨?_, ?_, ?_⟩⟩
    · rw [hmasks]
      exact List.drop_one.symm
    · rw [hmasks]
      exact List.drop_one.symm
    · rw [List.filter_cons, List.filter_cons, hmissing, hmissing]

/-! ## Runs -/

/-- Two runs that have come to the same, each with its own source. -/
structure Run.SameButSource (e e' : List UInt8) (r r' : Run) : Prop where
  machine : r'.machine = r.machine
  completed : r'.completed = r.completed
  fault : r'.fault = r.fault
  taken : Taken e e' r.events.toList r'.events.toList r.entropy r'.entropy

namespace Run.SameButSource

variable {e e' : List UInt8} {r r' : Run} (h : r.SameButSource e e' r')

include h

/-- A run comes to the same in a step with two sources that are the same under the masks of its
reports. -/
theorem step (hsame : SameThrough (masks r.step.events.toList) e e') :
    r.step.SameButSource e e' r'.step := by
  rw [events_step] at hsame
  have ho := Machine.step_sameButSource (h.taken.sameThrough hsame)
  refine ⟨?_, ?_, ?_, ?_⟩
  · unfold Run.step
    rw [h.machine]
    exact ho.machine
  · unfold Run.step
    simp only [h.machine, h.completed, ho.fault]
  · unfold Run.step
    rw [h.machine]
    exact ho.fault
  · rw [events_step, events_step, h.machine]
    have hentropy : r'.step.entropy = (r.machine.step r'.entropy).entropy := by
      rw [← h.machine]
      rfl
    rw [hentropy]
    exact h.taken.append ho.taken

/-- A run comes to the same in any number of steps with two sources that are the same under the
masks of its reports. -/
theorem steps (n : Nat) (hsame : SameThrough (masks (r.steps n).events.toList) e e') :
    (r.steps n).SameButSource e e' (r'.steps n) := by
  induction n generalizing r r' with
  | zero => exact h
  | succ n ih =>
    rw [steps_succ] at hsame
    rw [steps_succ, steps_succ, h.fault]
    split
    · exact h
    · next hfault =>
      rw [if_neg hfault] at hsame
      exact ih (h.step (hsame.of_prefix (events_prefix_steps n _))) hsame

end Run.SameButSource

namespace Machine

theorem run_sameButSource {m : Machine} {e e' : List UInt8} {n : Nat}
    (h : SameThrough (masks (m.run e n).events.toList) e e') :
    (m.run e n).SameButSource e e' (m.run e' n) := by
  have hstart : (Run.start m e).SameButSource e e' (Run.start m e') := ⟨rfl, rfl, rfl, .nil e e'⟩
  exact hstart.steps n h

end Machine

/-! ## Sessions -/

structure Round.SameButSource (e e' : List UInt8) (a a' : Round) : Prop where
  session : a'.session = a.session
  frames : a'.frames = a.frames
  taken : Taken e e' a.events.toList a'.events.toList a.entropy a'.entropy

/-- Two scripted sessions that have come to the same, each with its own source. -/
structure Script.SameButSource (e e' : List UInt8) (t t' : Script) : Prop where
  session : t'.session = t.session
  time : t'.time = t.time
  recorder : t'.recorder = t.recorder
  taken : Taken e e' t.events.toList t'.events.toList t.entropy t'.entropy

/-- A round reports what its update reports. -/
theorem Session.events_round (s : Session) (now : Reading) (entropy : List UInt8) :
    (s.round now entropy).events = (s.machine.update now entropy).events := by
  unfold round conclude
  dsimp only
  split
  · rfl
  · split <;> rfl

/-- A round comes to the same with two sources that are the same under the masks of its reports. -/
theorem Session.round_sameButSource {s : Session} {now : Reading} {e e' : List UInt8}
    (h : SameThrough (masks (s.round now e).events.toList) e e') :
    (s.round now e).SameButSource e e' (s.round now e') := by
  rw [events_round] at h
  have hrun : (s.machine.update now e).SameButSource e e' (s.machine.update now e') :=
    Machine.run_sameButSource h
  unfold round conclude
  simp only [hrun.fault, hrun.completed, hrun.machine]
  split
  · exact ⟨rfl, rfl, hrun.taken⟩
  · split
    · exact ⟨rfl, rfl, hrun.taken⟩
    · exact ⟨rfl, rfl, hrun.taken⟩

/-- A turn adds the reports of its round. -/
theorem Script.events_turn (t : Script) (delta : Nat) :
    (t.turn delta).1.events.toList =
      t.events.toList ++ (t.session.round (t.time.later delta) t.entropy).events.toList := by
  rw [← Array.toList_append]
  unfold turn
  dsimp only
  split
  · rfl
  · split <;> rfl

/-- Sessions only ever add to the reports. -/
theorem Script.events_prefix_run (deltas : List Nat) (t : Script) :
    t.events.toList <+: (t.run deltas).1.events.toList := by
  have hclose : ∀ t : Script,
      t.events.toList <+: (t.events.push t.session.closing).toList := by
    intro t
    rw [Array.toList_push]
    exact List.prefix_append ..
  induction deltas generalizing t with
  | nil =>
    rw [run_nil]
    split
    · exact hclose t
    · exact List.prefix_rfl
  | cons delta deltas ih =>
    by_cases hdone : t.session.isDone = true
    · rw [run_cons, if_pos hdone]
      exact hclose t
    · have hturn : t.events.toList <+: (t.turn delta).1.events.toList := by
        rw [events_turn]
        exact List.prefix_append ..
      cases hending : (t.turn delta).2 with
      | none =>
        rw [run_cons_of_none hdone hending]
        exact hturn.trans (ih _)
      | some ending =>
        rw [run_cons_of_some hdone hending]
        exact hturn

namespace Script.SameButSource

variable {e e' : List UInt8} {t t' : Script} (h : t.SameButSource e e' t')

include h

/-- A turn comes to the same with two sources that are the same under the masks of the reports. -/
theorem turn {delta : Nat} (hsame : SameThrough (masks (t.turn delta).1.events.toList) e e') :
    (t.turn delta).1.SameButSource e e' (t'.turn delta).1 ∧
      (t'.turn delta).2 = (t.turn delta).2 := by
  rw [events_turn] at hsame
  have hround := Session.round_sameButSource (h.taken.sameThrough hsame)
  have htaken := h.taken.append hround.taken
  rw [← Array.toList_append, ← Array.toList_append] at htaken
  unfold Script.turn
  simp only [h.session, h.time, h.recorder, hround.frames, hround.session]
  split
  · exact ⟨⟨rfl, rfl, rfl, htaken⟩, rfl⟩
  · split
    · exact ⟨⟨rfl, rfl, rfl, htaken⟩, rfl⟩
    · exact ⟨⟨rfl, rfl, rfl, htaken⟩, rfl⟩

theorem isDone : t'.session.isDone = t.session.isDone :=
  congrArg Session.isDone h.session

/-- Reporting the end of a session takes no byte. -/
theorem close :
    Script.SameButSource e e' { t with events := t.events.push t.session.closing }
      { t' with events := t'.events.push t'.session.closing } := by
  refine ⟨h.session, h.time, h.recorder, ?_⟩
  have hclosing : Taken t.entropy t'.entropy [t.session.closing] [t.session.closing] t.entropy
      t'.entropy := .of_masks_eq_nil rfl
  rw [Array.toList_push, Array.toList_push, h.session]
  exact h.taken.append hclosing

/-- A script comes to the same, and to the same ending, with two sources that are the same under the
masks of its reports. -/
theorem run (deltas : List Nat)
    (hsame : SameThrough (masks (t.run deltas).1.events.toList) e e') :
    (t.run deltas).1.SameButSource e e' (t'.run deltas).1 ∧
      (t'.run deltas).2 = (t.run deltas).2 := by
  induction deltas generalizing t t' with
  | nil =>
    rw [run_nil, run_nil, h.isDone]
    split
    · exact ⟨h.close, rfl⟩
    · exact ⟨h, rfl⟩
  | cons delta deltas ih =>
    by_cases hend : t.session.isDone = true
    · rw [run_cons, run_cons, h.isDone, if_pos hend, if_pos hend]
      exact ⟨h.close, rfl⟩
    · have hend' : ¬ t'.session.isDone = true := h.isDone ▸ hend
      cases hending : (t.turn delta).2 with
      | none =>
        rw [run_cons_of_none hend hending] at hsame
        obtain ⟨hturn, hending'⟩ := h.turn (hsame.of_prefix (events_prefix_run deltas _))
        rw [run_cons_of_none hend hending, run_cons_of_none hend' (hending'.trans hending)]
        exact ih hturn hsame
      | some ending =>
        rw [run_cons_of_some hend hending] at hsame
        obtain ⟨hturn, hending'⟩ := h.turn hsame
        rw [run_cons_of_some hend hending, run_cons_of_some hend' (hending'.trans hending)]
        exact ⟨hturn, rfl⟩

end Script.SameButSource

/-! ## Requests -/

def Rig.withSource (r : Rig) (entropy : List UInt8) : Rig :=
  { r with entropy }

/-- The same reply and the same reports, except that a source may have run out. The rigs differ at
most in the random bytes that are left. -/
structure Response.SameButSource (a a' : Response) : Prop where
  reply : a'.reply = a.reply
  events : a'.events.filter (· != .noEntropy) = a.events.filter (· != .noEntropy)
  rig : a'.rig = a.rig.withSource a'.rig.entropy

namespace Rig

/-- The responses of a rig to the same request with one source and another. -/
structure AppliesAlike (e e' : List UInt8) (a a' : Response) : Prop where
  same : a.SameButSource a'
  taken : Taken e e' a.events a'.events a.rig.entropy a'.rig.entropy

variable {r : Rig} {e' : List UInt8}

/-- Most requests neither take a byte nor look at the source. -/
theorem appliesAlike_of_withSource {q : Request} (hmasks : masks (r.apply q).events = [])
    (h : ∀ entropy, (r.withSource entropy).apply q =
      ⟨(r.apply q).reply, (r.apply q).rig.withSource entropy, (r.apply q).events⟩) :
    AppliesAlike r.entropy e' (r.apply q) ((r.withSource e').apply q) := by
  have hleft : (r.apply q).rig.entropy = r.entropy :=
    congrArg (fun a => a.rig.entropy) (h r.entropy)
  rw [h]
  refine ⟨⟨rfl, rfl, rfl⟩, ?_⟩
  rw [hleft]
  exact .of_masks_eq_nil hmasks

theorem throughHandle_withSource (r : Rig) (entropy : List UInt8) (handle : Handle)
    (change : Keypad → Keypad) :
    (r.withSource entropy).throughHandle handle change =
      (r.throughHandle handle change).withSource entropy := by
  unfold throughHandle
  change (if handle.keypad = r.keypad then _ else _) = _
  split <;> rfl

/-- Loading a program takes no byte. -/
theorem appliesAlike_load (program : Array UInt8) :
    AppliesAlike r.entropy e' (r.apply (.load program))
      ((r.withSource e').apply (.load program)) := by
  by_cases hle : program.size ≤ Memory.maxProgramSize
  · refine appliesAlike_of_withSource ?_ fun entropy => ?_
    · rw [r.apply_load_of_le hle]
      rfl
    · rw [r.apply_load_of_le hle, apply_load_of_le _ hle]
      rfl
  · have hlt := Nat.not_le.1 hle
    refine appliesAlike_of_withSource ?_ fun entropy => ?_
    · rw [r.apply_load_of_lt hlt]
      rfl
    · rw [r.apply_load_of_lt hlt, apply_load_of_lt _ hlt]
      rfl

/-- Restoring bytes takes no random byte. -/
theorem appliesAlike_restore (bytes : List UInt8) :
    AppliesAlike r.entropy e' (r.apply (.restore bytes))
      ((r.withSource e').apply (.restore bytes)) := by
  cases hread : Machine.restore r.now bytes with
  | ok m =>
    refine appliesAlike_of_withSource ?_ fun entropy => ?_
    · rw [r.apply_restore_of_ok hread]
      rfl
    · rw [r.apply_restore_of_ok hread, (r.withSource entropy).apply_restore_of_ok hread]
      rfl
  | error cause =>
    refine appliesAlike_of_withSource ?_ fun entropy => ?_
    · rw [r.apply_restore_of_error hread]
      rfl
    · rw [r.apply_restore_of_error hread, (r.withSource entropy).apply_restore_of_error hread]
      rfl

/-- Two sources that come to the same under the masks lead to the same response. -/
theorem appliesAlike (q : Request) (h : SameThrough (masks (r.apply q).events) r.entropy e') :
    AppliesAlike r.entropy e' (r.apply q) ((r.withSource e').apply q) := by
  cases q with
  | load program => exact appliesAlike_load program
  | reset =>
    refine appliesAlike_of_withSource ?_ fun _ => rfl
    rw [apply_reset, Machine.reset_snd]
    split <;> rfl
  | pressBy handle code =>
    exact appliesAlike_of_withSource rfl fun entropy =>
      congrArg (·.quiet .done) (r.throughHandle_withSource entropy handle _)
  | releaseBy handle code =>
    exact appliesAlike_of_withSource rfl fun entropy =>
      congrArg (·.quiet .done) (r.throughHandle_withSource entropy handle _)
  | step =>
    have hstep : (r.machine.step r.entropy).SameButSource r.entropy e' (r.machine.step e') :=
      Machine.step_sameButSource h
    rw [apply_step, apply_step]
    refine ⟨⟨?_, hstep.taken.reports, ?_⟩, hstep.taken⟩
    · simp only [withSource, hstep.fault]
    · simp only [withSource, hstep.machine]
  | run n =>
    have hrun : (r.machine.run r.entropy n).SameButSource r.entropy e' (r.machine.run e' n) :=
      Machine.run_sameButSource h
    rw [apply_run, apply_run]
    refine ⟨⟨?_, hrun.taken.reports, ?_⟩, hrun.taken⟩
    · simp only [withSource, hrun.completed, hrun.fault]
    · simp only [withSource, afterRun, hrun.machine]
  | update =>
    have hrun : (r.machine.update r.now r.entropy).SameButSource r.entropy e'
        (r.machine.update r.now e') := Machine.run_sameButSource h
    rw [apply_update, apply_update]
    refine ⟨⟨?_, hrun.taken.reports, ?_⟩, hrun.taken⟩
    · simp only [withSource, hrun.completed, hrun.fault]
    · simp only [withSource, afterRun, hrun.machine]
  | restore bytes => exact appliesAlike_restore bytes
  | drive maxSteps deltas recorder =>
    have hstart : (Script.start r.machine maxSteps r.entropy recorder).SameButSource r.entropy e'
        (Script.start r.machine maxSteps e' recorder) :=
      ⟨rfl, rfl, rfl, .of_masks_eq_nil rfl⟩
    obtain ⟨hrun, hending⟩ := hstart.run deltas h
    rw [apply_drive, apply_drive]
    refine ⟨⟨?_, hrun.taken.reports, ?_⟩, hrun.taken⟩
    · simp only [withSource, hending, hrun.session, hrun.recorder]
    · simp only [withSource, hrun.session]
  | _ => exact appliesAlike_of_withSource rfl fun _ => rfl

/-- A request takes one byte for each mask. -/
theorem entropy_apply (r : Rig) (q : Request) :
    (r.apply q).rig.entropy = r.entropy.drop (masks (r.apply q).events).length :=
  (appliesAlike q (.refl _ r.entropy)).taken.left

theorem entropy_after (r : Rig) (qs : List Request) :
    (r.after qs).entropy = r.entropy.drop (masks (r.log qs)).length := by
  induction qs generalizing r with
  | nil => rfl
  | cons q qs ih =>
    unfold after log
    rw [ih, entropy_apply, List.drop_drop, masks_append, List.length_append]

/-- All requests are answered alike from two sources that are the same under the masks of the log.
-/
theorem responses_withSource {qs : List Request}
    (h : SameThrough (masks (r.log qs)) r.entropy e') :
    List.Forall₂ Response.SameButSource (r.responses qs) ((r.withSource e').responses qs) := by
  induction qs generalizing r e' with
  | nil => exact .nil
  | cons q qs ih =>
    unfold log at h
    have hfirst := appliesAlike q (h.of_prefix (List.prefix_append ..))
    have hrest := ih (hfirst.taken.sameThrough h)
    rw [← hfirst.same.rig] at hrest
    exact .cons hfirst.same hrest

/-- **Randomness is masked.** Take a rig, and the same rig with another source of random bytes. If
the two sources are the same under the masks of the bytes that the one rig takes, the other gives
the same replies and reports and goes through the same states. Each executed instruction that asks
for a random byte takes one, and nothing else does. If there is none left, the instruction goes
on with a zero and a warning. -/
theorem randomness_masked (r : Rig) (entropy : List UInt8) (qs : List Request) :
    (SameThrough (masks (r.log qs)) r.entropy entropy →
      List.Forall₂ Response.SameButSource (r.responses qs) ((r.withSource entropy).responses qs)) ∧
    ((r.after qs).entropy = r.entropy.drop (masks (r.log qs)).length ∧
      ∀ (m : Machine) (e : List UInt8), masks (m.step e).events = m.mask?.toList) ∧
    ∀ (m : Machine) (x : Reg) (nn : UInt8), Machine.fetchable m.registers.pc = true →
      m.instruction? = some (.random x nn) →
      let o := m.step []
      m.mask? = some nn ∧ o.fault = none ∧ o.machine.registers.get x = 0 ∧
        o.machine.registers.pc = m.registers.pc + 2 ∧
        o.events = [.fetched m.registers.pc m.nextWord, .noEntropy] ∧
        Event.noEntropy.level = .warn := by
  refine ⟨responses_withSource, ⟨r.entropy_after qs, Machine.masks_step⟩, fun m x nn hf hi => ?_⟩
  intro o
  have ho : o = _ := Machine.step_random hf hi []
  have hzero : o.machine.registers.get x = 0 &&& nn := by
    rw [ho]
    exact Vector.getElem_set_self ..
  refine ⟨Machine.mask?_eq_some_iff.2 ⟨hf, x, hi⟩, ?_, ?_, ?_, ?_, rfl⟩
  · rw [ho]
  · rw [hzero, UInt8.zero_and]
  · rw [ho]
    rfl
  · rw [ho]
    rfl

/-- The masks let through the lower half of a byte, nothing and everything. For the last byte the
one source has run out, where the other has a zero. -/
theorem randomness_masked_thrice :
    let r := (Rig.start 500 .standard 0 [0x12, 0x34]).after
      [.load #[0xC1, 0x0F, 0xC2, 0x00, 0xC3, 0xFF, 0xF3, 0x55]]
    let entropy := [0xF2, 0x99, 0x00, 0x56]
    let qs := [.press 3, .run 2, .wait 4000000, .update, .displayFrame]
    let m := (r.after [.run 2]).machine
    (SameThrough (masks (r.log qs)) r.entropy entropy ∧
      List.Forall₂ Response.SameButSource (r.responses qs) ((r.withSource entropy).responses qs)) ∧
    ((r.after qs).entropy = r.entropy.drop 3 ∧ masks (r.log qs) = [0x0F, 0x00, 0xFF]) ∧
    Machine.fetchable m.registers.pc = true ∧ m.instruction? = some (.random 3 0xFF) ∧
      (m.step []).events = [.fetched 0x204 0xC3FF, .noEntropy] := by
  intro r entropy qs m
  obtain ⟨hsame, ⟨hleft, -⟩, hempty⟩ := r.randomness_masked entropy qs
  have hmasks : masks (r.log qs) = [0x0F, 0x00, 0xFF] := by decide +kernel
  have hthrough : SameThrough (masks (r.log qs)) r.entropy entropy := by
    rw [hmasks]
    decide +kernel
  have hf : Machine.fetchable m.registers.pc = true := by decide +kernel
  have hi : m.instruction? = some (.random 3 0xFF) := by decide +kernel
  obtain ⟨-, -, -, -, hevents, -⟩ := hempty m 3 0xFF hf hi
  have hfetched : [Event.fetched m.registers.pc m.nextWord, .noEntropy] =
      [.fetched 0x204 0xC3FF, .noEntropy] := by decide +kernel
  rw [hmasks] at hleft
  exact ⟨⟨hthrough, hsame hthrough⟩, ⟨hleft, hmasks⟩, hf, hi, hevents.trans hfetched⟩

end Rig
end ChipEight
