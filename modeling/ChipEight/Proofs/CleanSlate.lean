import ChipEight.Proofs.Canonical
import ChipEight.Proofs.DisplayFrame
import ChipEight.Proofs.Resemblance
import ChipEight.Proofs.Soundness

/-!
# Loading leaves nothing of the past

A machine that loads a program is in all respects as a new machine that loads it, but for how often
its frame was packed and for what is in the packed frame, which is out of date. Two machines that
differ in this only are in lockstep (`Machine.sameButStale_lockstep`), so nobody who asks can tell
them apart (`History.load_erases`). Their saved states do differ, and may be put in files and taken
up again later; a `Bench` has the files, so that each of the two machines finds its own there.
-/

namespace ChipEight

/-! ## Machines that differ in what is stale -/

/-- The screens differ at most in how often they were packed, and in a packed copy that is out of
date. -/
structure Screen.SameButStale (s s' : Screen) : Prop where
  grid : s'.grid = s.grid
  dirty : s'.dirty = s.dirty
  mark : s'.packed[0]? = s.packed[0]?
  packed : s.dirty = false → s'.packed = s.packed

namespace Screen

theorem SameButStale.refl (s : Screen) : s.SameButStale s :=
  ⟨rfl, rfl, rfl, fun _ => rfl⟩

/-- Screens that differ in a frame which will be packed afresh stay so. -/
theorem sameButStale_lockstep : Screen.Lockstep SameButStale where
  grid h := h.grid
  redraw grid h := ⟨rfl, rfl, h.mark, fun hclean => Bool.noConfusion hclean⟩
  refresh {s s'} h := by
    have hpacked : s'.refresh.packed = s.refresh.packed := by
      unfold refresh
      rw [h.dirty]
      split
      · have hmark : s'.packed[0] = s.packed[0] :=
          Option.some.inj (by simpa using h.mark)
        simp only [repack, hmark, h.grid]
      · next hclean => exact h.packed (Bool.eq_false_iff.2 hclean)
    refine ⟨hpacked, ?_, ?_, ?_, fun _ => hpacked⟩
    · rw [grid_refresh, grid_refresh, h.grid]
    · rw [dirty_refresh, dirty_refresh]
    · rw [hpacked]

end Screen

namespace Machine

/-- The machines differ at most in what is stale about their screens. Their program is one that can
be saved. -/
structure SameButStale (m m' : Machine) : Prop where
  resembles : m.Resembles Screen.SameButStale (fun _ => True) m'
  saves : m.program.size < UInt64.size

/-- What may differ between machines that are the same but for a stale frame. -/
theorem SameButStale.eq {m m' : Machine} (h : m.SameButStale m') :
    m' = { m with
      screen := { m.screen with
        packed := m'.screen.packed
        packCount := m'.screen.packCount } } := by
  have hscreen : m'.screen = { m.screen with
      packed := m'.screen.packed
      packCount := m'.screen.packCount } := by
    simp only [← h.resembles.screen.grid, ← h.resembles.screen.dirty]
  rw [← hscreen]
  exact h.resembles.rest.trans (by rw [h.resembles.keypad]; rfl)

theorem SameButStale.program_eq {m m' : Machine} (h : m.SameButStale m') :
    m'.program = m.program := by
  rw [h.resembles.rest]
  rfl

theorem resembles_sameButStale :
    Machine.Lockstep (Resembles Screen.SameButStale fun _ => True) :=
  resembles_lockstep Screen.sameButStale_lockstep trivial

/-- Machines that differ in a frame which will be packed afresh stay so in all that can happen to
them. -/
theorem sameButStale_lockstep : Machine.Lockstep SameButStale where
  clock h := resembles_sameButStale.clock h.resembles
  memory h := resembles_sameButStale.memory h.resembles
  isHeld code h := resembles_sameButStale.isHeld code h.resembles
  withClock c h := ⟨resembles_sameButStale.withClock c h.resembles, h.saves⟩
  withProgram program hle h :=
    ⟨resembles_sameButStale.withProgram program hle h.resembles, Nat.lt_of_le_of_lt hle (by decide)⟩
  reset now h := by
    obtain ⟨hmachine, hevents⟩ := resembles_sameButStale.reset now h.resembles
    refine ⟨⟨hmachine, ?_⟩, hevents⟩
    rw [reset_fst]
    exact h.saves
  press code h := ⟨resembles_sameButStale.press code h.resembles, h.saves⟩
  release code h := ⟨resembles_sameButStale.release code h.resembles, h.saves⟩
  beginWait h := ⟨resembles_sameButStale.beginWait h.resembles, h.saves⟩
  releaseAll h := ⟨resembles_sameButStale.releaseAll h.resembles, h.saves⟩
  displayFrame h := by
    obtain ⟨hframe, hmachine⟩ := resembles_sameButStale.displayFrame h.resembles
    exact ⟨hframe, hmachine, h.saves⟩
  step entropy h := by
    obtain ⟨hmachine, hfault, hentropy, hevents⟩ :=
      resembles_sameButStale.step entropy h.resembles
    refine ⟨⟨hmachine, ?_⟩, hfault, hentropy, hevents⟩
    rw [program_step]
    exact h.saves

/-- The states that such machines save are restored to such machines. -/
theorem SameButStale.restored {m m' : Machine} (h : m.SameButStale m') (now : Reading) :
    (m.snapshot.machine now).SameButStale (m'.snapshot.machine now) := by
  obtain ⟨⟨hrest, hs, -, -⟩, hsaves⟩ := h
  refine ⟨⟨?_, ⟨hs.grid, hs.dirty, hs.mark, hs.packed⟩, rfl, fun _ => rfl⟩, hsaves⟩
  rw [hrest]
  rfl

end Machine

/-- Bytes that are the same, or that were saved by machines which differ only in what is stale. -/
inductive SavedAlike : List UInt8 → List UInt8 → Prop where
  | same (bytes : List UInt8) : SavedAlike bytes bytes
  | saved {m m' : Machine} (h : m.SameButStale m') : SavedAlike m.save m'.save

/-- Restoring what was saved alike leaves rigs alike. -/
theorem Rig.Alike.restore_saved {d : Nat} {r r' : Rig} (h : r.Alike Machine.SameButStale d r')
    {bytes bytes' : List UInt8} (hbytes : SavedAlike bytes bytes') :
    (r.apply (.restore bytes)).Alike Machine.SameButStale d (r'.apply (.restore bytes')) := by
  cases hbytes with
  | same =>
    exact h.restore fun m hm => ⟨.refl .refl m, Machine.program_size_of_restore hm⟩
  | saved hm =>
    exact h.restore_of_ok (Machine.restore_save r.now hm.saves)
      (Machine.restore_save r.now (hm.program_eq ▸ hm.saves)) (hm.restored r.now)

/-- Rigs whose machines differ only in what is stale answer all requests alike, unless they are
asked for their states. -/
theorem Rig.Alike.apply_sameButStale {d : Nat} {r r' : Rig} (h : r.Alike Machine.SameButStale d r')
    {q : Request} (hq : q ≠ .save) :
    (r.apply q).Alike Machine.SameButStale d (r'.apply (q.shift d)) := by
  cases q with
  | takePress =>
    refine ⟨?_, rfl, h.withMachine (Machine.sameButStale_lockstep.beginWait h.machine)⟩
    exact congrArg (fun k : Keypad => Reply.key k.latch) h.machine.resembles.keypad
  | save => exact absurd rfl hq
  | restore bytes => exact h.restore_saved (.same bytes)
  | _ => exact Machine.sameButStale_lockstep.apply h _ trivial

/-! ## Files -/

/-- A rig, and the files its states are saved in. -/
structure Bench where
  rig : Rig
  files : String → List UInt8

/-- What can be done at a bench. -/
inductive Errand where
  | ask (q : Request)
  | save (file : String)
  | restore (file : String)

/-- The same errand at a bench whose keypads have numbers larger by `d`. -/
def Errand.shift (d : Nat) : Errand → Errand
  | ask q => ask (q.shift d)
  | e => e

/-- A reply that does not tell the bytes of a state. -/
def Reply.sealed : Reply → Reply
  | .state _ => .state []
  | reply => reply

namespace Bench

/-- What the rig is asked for. -/
def request (b : Bench) : Errand → Request
  | .ask q => q
  | .save _ => .save
  | .restore file => .restore (b.files file)

def run (b : Bench) (e : Errand) : Response × Bench :=
  let response := b.rig.apply (b.request e)
  let files := match e with
    | .save file => fun other => if other = file then b.rig.machine.save else b.files other
    | _ => b.files
  (response, ⟨response.rig, files⟩)

/-- The sealed replies to errands, and all that is reported meanwhile. -/
def answers (b : Bench) : List Errand → List (Reply × List Event)
  | [] => []
  | e :: es => ((b.run e).1.reply.sealed, (b.run e).1.events) :: (b.run e).2.answers es

/-- The rigs differ only in what is stale, and so do the files. -/
structure SameButStale (d : Nat) (b b' : Bench) : Prop where
  rig : b.rig.Alike Machine.SameButStale d b'.rig
  files : ∀ file, SavedAlike (b.files file) (b'.files file)

variable {d : Nat} {b b' : Bench}

/-- Benches that are the same but for stale frames stay so in an errand, with the same answer. -/
theorem SameButStale.run (h : b.SameButStale d b') (e : Errand) :
    (b'.run (e.shift d)).1.reply.sealed = (b.run e).1.reply.sealed ∧
      (b'.run (e.shift d)).1.events = (b.run e).1.events ∧
        (b.run e).2.SameButStale d (b'.run (e.shift d)).2 := by
  cases e with
  | ask q =>
    by_cases hq : q = .save
    · -- the bytes differ, and the seal hides them
      subst hq
      exact ⟨rfl, rfl, h⟩
    · have halike := h.rig.apply_sameButStale hq
      exact ⟨congrArg Reply.sealed halike.reply, halike.events, halike.rig, h.files⟩
  | save file =>
    refine ⟨rfl, rfl, h.rig, fun other => ?_⟩
    change SavedAlike (if other = file then b.rig.machine.save else b.files other)
      (if other = file then b'.rig.machine.save else b'.files other)
    split
    · exact .saved h.rig.machine
    · exact h.files other
  | restore file =>
    have halike := h.rig.restore_saved (h.files file)
    exact ⟨congrArg Reply.sealed halike.reply, halike.events, halike.rig, h.files⟩

/-- Benches that are the same but for stale frames answer all errands alike. -/
theorem SameButStale.answers (h : b.SameButStale d b') (es : List Errand) :
    b'.answers (es.map (·.shift d)) = b.answers es := by
  induction es generalizing b b' with
  | nil => rfl
  | cons e es ih =>
    obtain ⟨hreply, hevents, hnext⟩ := h.run e
    rw [List.map_cons, Bench.answers, Bench.answers, hreply, hevents, ih hnext]

end Bench

/-! ## Loading -/

/-- A sound clock that is reset is one that was started at its rate and reset. -/
theorem Clock.reset_start {c : Clock} (h : c.Sound) (now : Reading) :
    (Clock.start c.rate now).reset now = c.reset now := by
  have hrate : (Clock.start c.rate now).rate = c.rate := by
    have hpos := h.rate_pos
    have hle := h.rate_le
    refine UInt32.toNat_inj.1 ?_
    rw [toNat_rate_start]
    omega
  unfold reset
  rw [hrate]

namespace Machine

/-- In a machine that is reset there is nothing in memory but the font and the program. -/
theorem memory_reset {m : Machine} (now : Reading) (h : m.program.size ≤ Memory.maxProgramSize)
    (a : Nat) (ha : a < 4096) :
    (m.reset now).1.memory.bytes[a] =
      if h : a < 80 then Memory.font[a]
      else if a < 0x200 then 0 else m.program.getD (a - 0x200) 0 := by
  rw [reset_fst, Memory.install_of_le _ h]
  change (tabulate _)[a] = _
  rw [getElem_tabulate]
  simp only [Memory.blank, getElem_tabulate]
  by_cases hfont : a < 80
  · have hlow : a < 0x200 := by omega
    simp [hfont, hlow]
  · simp [hfont]

theorem reset_snd_of_le {m : Machine} (now : Reading)
    (h : m.program.size ≤ Memory.maxProgramSize) : (m.reset now).2 = [.reset] := by
  rw [reset_snd, Memory.install_of_le _ h]

/-- A reset makes machines the same up to what is stale, if they have what it keeps in common. -/
theorem reset_sameButStale (m m' : Machine) (now : Reading)
    (hdialect : m'.registers.dialect = m.registers.dialect)
    (hclock : m'.clock.reset now = m.clock.reset now)
    (hmark : m'.screen.packed[0]? = m.screen.packed[0]?) (hprogram : m'.program = m.program)
    (hfits : m.program.size ≤ Memory.maxProgramSize) :
    (m.reset now).1.SameButStale (m'.reset now).1 := by
  rw [reset_fst, reset_fst, hdialect, hclock, hprogram]
  -- both screens are marked as changed, so nothing is asked of what was packed
  refine ⟨⟨rfl, ⟨rfl, rfl, hmark, fun hclean => Bool.noConfusion hclean⟩, rfl, fun _ => rfl⟩, ?_⟩
  exact Nat.lt_of_le_of_lt hfits (by decide)

end Machine

namespace History

/-- A new rig in the same surroundings, with a machine that was built as the one at hand was. -/
def fresh (h : History) : Rig :=
  .start h.rig.machine.clock.rate h.rig.machine.registers.dialect h.rig.now h.rig.entropy

/-- Loading a program leaves any rig as it leaves a fresh one, but for a stale frame. -/
theorem load_alike (h : History) {program : Array UInt8}
    (hle : program.size ≤ Memory.maxProgramSize) :
    (h.fresh.apply (.load program)).Alike Machine.SameButStale h.rig.keypad
      (h.rig.apply (.load program)) := by
  have hmachine := Machine.reset_sameButStale { h.fresh.machine with program }
    { h.rig.machine with program } h.rig.now rfl
    (Clock.reset_start h.reachable.sound.clock h.rig.now).symm h.faithful.mark rfl hle
  rw [h.fresh.apply_load_of_le hle, h.rig.apply_load_of_le hle]
  exact ⟨rfl, rfl, hmachine, rfl, rfl, (Nat.zero_add h.rig.keypad).symm⟩

/-- **Loading and resetting erase the past.** A machine that has loaded a program that fits is the
same as a new one that has, but for the number of frames packed and the packed frame, which is out
of date; the font and the program are all that is in its memory, and no errands tell the two apart.
A program that does not fit is refused, and nothing changes. A reset does what loading the program
that was loaded last would do, and nothing goes wrong in it. -/
theorem load_erases (h : History) :
    (∀ program : Array UInt8, program.size ≤ 3584 →
      let loading := h.rig.apply (.load program)
      let first := h.fresh.apply (.load program)
      loading.reply = .done ∧ first.reply = .done ∧ loading.events = first.events ∧
      loading.rig.machine.screen.dirty = true ∧
      loading.rig.machine = { first.rig.machine with
        screen := { first.rig.machine.screen with
          packed := loading.rig.machine.screen.packed
          packCount := loading.rig.machine.screen.packCount } } ∧
      (∀ a (_ : a < 4096), loading.rig.machine.memory.bytes[a] =
        if h : a < 80 then Memory.font[a]
        else if a < 0x200 then 0 else program.getD (a - 0x200) 0) ∧
      ∀ files errands,
        (Bench.mk loading.rig files).answers (errands.map (·.shift h.rig.keypad)) =
          (Bench.mk first.rig files).answers errands) ∧
    (∀ program : Array UInt8, 3584 < program.size →
      h.rig.apply (.load program) = ⟨.oversize ⟨program.size⟩, h.rig, []⟩) ∧
    h.rig.machine.program = h.lastLoaded ∧ h.lastLoaded.size ≤ 3584 ∧
    (h.rig.apply .reset).rig = (h.rig.apply (.load h.lastLoaded)).rig ∧
    (h.rig.apply .reset).events = [.reset] := by
  have hprogram := h.program_rig
  have hfits := h.reachable.program_fits
  refine ⟨?_, ?_, hprogram, hprogram ▸ hfits, ?_, ?_⟩
  · intro program hle loading first
    have halike := h.load_alike hle
    have hmachine : loading.rig.machine = ({ h.rig.machine with program }.reset h.rig.now).1 := by
      simp only [loading, h.rig.apply_load_of_le hle]
      rfl
    have hfirst : first.reply = .done := by
      simp only [first, h.fresh.apply_load_of_le hle]
    refine ⟨halike.reply.trans hfirst, hfirst, halike.events, ?_, halike.rig.machine.eq, ?_, ?_⟩
    · rw [hmachine, Machine.reset_fst]
      rfl
    · intro a ha
      rw [hmachine]
      exact Machine.memory_reset (m := { h.rig.machine with program }) h.rig.now hle a ha
    · intro files errands
      exact Bench.SameButStale.answers ⟨halike.rig, fun file => .same (files file)⟩ errands
  · intro program hlt
    exact h.rig.apply_load_of_lt hlt
  · rw [← hprogram, h.rig.apply_load_of_le hfits]
    rfl
  · exact Machine.reset_snd_of_le h.rig.now hfits

/-- The machine has drawn, and waits for a key that is already latched. -/
theorem load_erases_awaiting :
    let drawn := ((start 700 .standard 5 []).ask (.load #[0xD0, 0x05, 0xF0, 0x0A]) trivial).ask
      (.run 2) trivial
    let h := (drawn.ask .displayFrame trivial).ask (.press 3) trivial
    let program := #[0xC1, 0xFF, 0xD0, 0x15]
    let errands := [.ask .displayFrame, .save "early", .ask (.run 2), .restore "early", .ask .update]
    h.rig.machine.registers.mode = .awaitingKey ∧ h.rig.machine.keypad.latch = some 3 ∧
      program.size ≤ 3584 ∧
      (Bench.mk (h.rig.apply (.load program)).rig fun _ => []).answers
        (errands.map (·.shift h.rig.keypad)) =
          (Bench.mk (h.fresh.apply (.load program)).rig fun _ => []).answers errands ∧
      3584 < (Array.replicate 3585 (0 : UInt8)).size ∧
      h.rig.apply (.load (Array.replicate 3585 0)) = ⟨.oversize ⟨3585⟩, h.rig, []⟩ := by
  intro drawn h program errands
  have hsize : (Array.replicate 3585 (0 : UInt8)).size = 3585 := Array.size_replicate
  obtain ⟨hload, hover, -⟩ := h.load_erases
  obtain ⟨-, -, -, -, -, -, hlater⟩ := hload program (by decide)
  have hrefused := hover (Array.replicate 3585 0) (by omega)
  rw [hsize] at hrefused
  exact ⟨by decide +kernel, by decide +kernel, by decide, hlater _ errands, by omega, hrefused⟩

end History
end ChipEight
