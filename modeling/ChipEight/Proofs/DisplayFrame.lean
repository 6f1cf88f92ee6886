import ChipEight.Proofs.History
import ChipEight.Proofs.SameButClock

/-!
# Display frames are fresh

The screen packs its grid only when a frame is asked for and the grid may have changed since the
last one. `Screen.Faithful` says what makes this invisible but for the count of packings: the
packed copy is that of the grid unless the screen is marked as changed, and it is marked exactly
if it was redrawn since the last frame. Whether it was is told from the past alone, for a screen
by itself by what was done to it (`Screen.Act.stale`), for a machine by what was asked of it and
which words were executed (`History.stale`).
-/

namespace ChipEight

/-! ## What a frame shows -/

/-- The bits of a number that was put together from bits. -/
theorem testBit_foldr_bits (bits : List Bool) (i : Nat) :
    (bits.foldr (fun (b : Bool) n => n * 2 + b.toNat) 0).testBit i =
      bits[i]?.getD false := by
  induction bits generalizing i with
  | nil => simp
  | cons b bits ih =>
    cases i with
    | zero => cases b <;> simp [Nat.testBit_zero]
    | succ i =>
      have hhalf (n : Nat) : (n * 2 + b.toNat) / 2 = n := by
        have hb := b.toNat_lt
        omega
      rw [List.foldr_cons, Nat.testBit_succ, hhalf, ih, List.getElem?_cons_succ]

namespace Grid

/-- The bits of a packed byte are eight pixels, the leftmost in the highest bit. -/
theorem testBit_packedByte (g : Grid) (k : Fin 256) (j : Fin 8) {c : Cell}
    (hc : c.val = k.val * 8 + j.val) :
    (g.packedByte k).toNat.testBit (7 - j.val) = g.lit[c] := by
  let lit (b : Fin 8) : Bool := g.lit[k.val * 8 + b.val]
  have hfold : (g.packedByte k).toNat =
      (((List.finRange 8).map lit).reverse.foldr (fun (b : Bool) n => n * 2 + b.toNat) 0) %
        2 ^ 8 := by
    rw [← List.foldl_eq_foldr_reverse, List.foldl_map]
    exact UInt8.toNat_ofNat'
  have hlt : 7 - j.val < ((List.finRange 8).map lit).reverse.length := by
    simp only [List.length_reverse, List.length_map, List.length_finRange]
    omega
  have hplace : 8 - 1 - (7 - j.val) = j.val := by omega
  rw [hfold, Nat.testBit_mod_two_pow, testBit_foldr_bits,
    List.getElem?_eq_getElem hlt, Option.getD_some, List.getElem_reverse, List.getElem_map,
    List.getElem_finRange]
  have hlow : 7 - j.val < 8 := by omega
  simp [lit, hlow, hplace, hc]

/-- The frame that is packed from the grid. -/
def frame (g : Grid) : Vector UInt8 257 :=
  (#v[Screen.displayMark] ++ g.packed : Vector UInt8 (1 + 256))

/-- Behind its mark the frame has eight pixels to a byte, row by row and the leftmost in the highest
bit. -/
structure IsShownBy (g : Grid) (frame : Vector UInt8 257) : Prop where
  mark : frame[0]? = some 0x01
  pixel : ∀ x y (_ : x < 64) (_ : y < 32),
    frame[1 + 8 * y + x / 8].toNat.testBit (7 - x % 8) =
      g.pixel (UInt64.ofNat x) (UInt64.ofNat y)

theorem frame_zero (g : Grid) : g.frame[0]? = some Screen.displayMark := by
  have hfirst : g.frame[0] = #v[Screen.displayMark][0] := Vector.getElem_append_left (by decide)
  exact Vector.getElem?_eq_some_iff.2 ⟨by decide, hfirst⟩

theorem frame_succ (g : Grid) {k : Nat} (hk : k < 256) :
    g.frame[k + 1] = g.packedByte ⟨k, hk⟩ := by
  have hbehind : g.frame[k + 1] = g.packed[k + 1 - 1] :=
    Vector.getElem_append_right (by omega) (by omega)
  simpa [packed] using hbehind

/-- The frame that is packed from a grid shows its pixels. -/
theorem isShownBy_frame (g : Grid) : g.IsShownBy g.frame where
  mark := g.frame_zero
  pixel x y hx hy := by
    have hbyte := g.frame_succ (k := 8 * y + x / 8) (by omega)
    have hcell : (Cell.at (UInt64.ofNat x) (UInt64.ofNat y)).val =
        (8 * y + x / 8) * 8 + x % 8 := by
      simp only [Cell.at, UInt64.toNat_ofNat']
      omega
    have hbit := g.testBit_packedByte ⟨8 * y + x / 8, by omega⟩ ⟨x % 8, by omega⟩ hcell
    have hplace : 8 * y + x / 8 + 1 = 1 + 8 * y + x / 8 := by omega
    simp only [← hbyte, hplace] at hbit
    exact hbit

end Grid

/-! ## Screens -/

namespace Screen

/-- What makes it invisible that the grid is packed only now and then, `stale` being whether the
screen was redrawn since the last frame. -/
structure Faithful (s : Screen) (stale : Bool) : Prop where
  mark : s.packed[0]? = some displayMark
  dirty : s.dirty = stale
  packed : s.dirty = false → s.packed = s.grid.frame

namespace Faithful

theorem blank : Screen.blank.Faithful true where
  mark := rfl
  dirty := rfl
  packed h := Bool.noConfusion h

variable {s : Screen} {stale : Bool} (h : s.Faithful stale)

include h

theorem redraw (grid : Grid) : Faithful { s with grid, dirty := true } true where
  mark := h.mark
  dirty := rfl
  packed hclean := Bool.noConfusion hclean

theorem recount (packCount : UInt64) : Faithful { s with packCount } stale where
  mark := h.mark
  dirty := h.dirty
  packed := h.packed

/-- A frame that is taken is packed from the grid, be it now or before. -/
theorem packed_refresh : s.refresh.packed = s.grid.frame := by
  unfold refresh
  split
  · obtain ⟨_, hmark⟩ := Vector.getElem?_eq_some_iff.1 h.mark
    simp only [repack, hmark]
    rfl
  · next hclean => exact h.packed (Bool.eq_false_iff.2 hclean)

theorem refresh : s.refresh.Faithful false where
  mark := by rw [h.packed_refresh, Grid.frame_zero]
  dirty := s.dirty_refresh
  packed _ := by rw [h.packed_refresh, grid_refresh]

theorem packCount_refresh : s.refresh.packCount = s.packCount + if stale then 1 else 0 := by
  rw [← h.dirty]
  unfold Screen.refresh
  split
  · rfl
  · exact (UInt64.add_zero s.packCount).symm

end Faithful

/-- What can be done to a screen by itself. -/
inductive Act where
  | drawByte (x y : UInt64) (data : UInt8)
  | drawSprite (x y : UInt64) (rows : List UInt8)
  | clear
  | displayFrame
  /-- What is kept of the screen is taken up again. -/
  | restore

/-- Whether the screen was redrawn since the last frame, from whether it was so before. -/
def Act.stale (before : Bool) : Act → Bool
  | drawByte .. | drawSprite .. | clear => true
  | displayFrame => false
  | restore => before

def act (s : Screen) : Act → Screen
  | .drawByte x y data => (s.drawByte x y data).1
  | .drawSprite x y rows => (s.drawSprite x y rows).1
  | .clear => s.clear
  | .displayFrame => s.displayFrame.2
  | .restore => { s with packCount := 0 }

/-- A screen stays faithful in every act, and is stale as the act says. -/
theorem Faithful.act {s : Screen} {stale : Bool} (h : s.Faithful stale) (a : Act) :
    (s.act a).Faithful (a.stale stale) := by
  cases a with
  | drawByte x y data => exact h.redraw _
  | drawSprite x y rows => exact h.redraw _
  | clear => exact h.redraw _
  | displayFrame => exact h.refresh
  | restore => exact h.recount 0

theorem Faithful.acts {s : Screen} {stale : Bool} (h : s.Faithful stale) (acts : List Act) :
    (acts.foldl Screen.act s).Faithful (acts.foldl Act.stale stale) := by
  induction acts generalizing s stale with
  | nil => exact h
  | cons a acts ih => exact ih (h.act a)

end Screen

/-! ## Machines -/

/-- Whether the screen counts as redrawn by an instruction. -/
def Instruction.redraws : Instruction → Bool
  | .clearScreen | .draw .. => true
  | _ => false

/-- Whether one of the words that were executed redraws the screen. -/
def redrawn (events : List Event) : Bool :=
  (executed events).any fun word => (Instruction.ofWord? word).any Instruction.redraws

theorem redrawn_append (l l' : List Event) : redrawn (l ++ l') = (redrawn l || redrawn l') := by
  unfold redrawn
  rw [executed_append, List.any_append]

/-- A step redraws if it fetches an instruction that does. -/
theorem redrawn_step (m : Machine) (entropy : List UInt8) :
    redrawn (m.step entropy).events =
      (Machine.fetchable m.registers.pc && m.instruction?.any Instruction.redraws) := by
  unfold redrawn
  rw [executed_step]
  split
  · next hf => simp [hf, Machine.instruction?]
  · next hf => simp [hf]

namespace Screen.Faithful

variable {stale : Bool}

/-- An instruction keeps a screen faithful, and makes it stale if it redraws. -/
theorem execute {m : Machine} (h : m.screen.Faithful stale) (entropy : List UInt8)
    (i : Instruction) : (Machine.left (m.execute entropy i)).screen.Faithful (i.redraws || stale) := by
  rw [Machine.screen_execute]
  cases i with
  | clearScreen => exact h.redraw _
  | draw x y n => exact h.redraw _
  | _ => exact h

/-- A step keeps a screen faithful, and makes it stale if its report says that something was
redrawn. -/
theorem step {m : Machine} (h : m.screen.Faithful stale) (entropy : List UInt8) :
    (m.step entropy).machine.screen.Faithful (redrawn (m.step entropy).events || stale) := by
  rw [redrawn_step, Machine.machine_step]
  split
  · next hf =>
    rw [hf, Bool.true_and]
    unfold Machine.carryOut
    split
    · next i hi =>
      rw [hi]
      exact execute (m := m.recorded) h entropy i
    · next hi =>
      rw [hi]
      exact h
  · next hf =>
    rw [Bool.eq_false_iff.2 hf]
    exact h

/-- Steps keep a screen faithful, and make it stale if their reports say that something was redrawn.
-/
theorem steps (n : Nat) {r : Run} (h : r.machine.screen.Faithful (redrawn r.events.toList || stale)) :
    (r.steps n).machine.screen.Faithful (redrawn (r.steps n).events.toList || stale) := by
  induction n generalizing r with
  | zero => exact h
  | succ n ih =>
    rw [Run.steps_succ]
    split
    · exact h
    · have hstep := h.step r.entropy
      -- what the step has executed joins what was executed before it
      rw [← Bool.or_assoc, Bool.or_comm (redrawn _) (redrawn _), ← redrawn_append,
        ← Run.events_step] at hstep
      exact ih hstep

end Screen.Faithful

/-- Whether the screen was redrawn since the last frame once a request is answered, from whether
it was so before. -/
def Rig.stale (r : Rig) (before : Bool) : Request → Bool
  | .load program => program.size ≤ Memory.maxProgramSize || before
  | .reset => true
  | .displayFrame => false
  | q => redrawn (r.apply q).events || before

/-- Every request keeps the screen faithful, and it is stale as the request says. -/
theorem Screen.Faithful.apply {r : Rig} {stale : Bool} (h : r.machine.screen.Faithful stale)
    {q : Request} (hq : q.IsPlain) :
    (r.apply q).rig.machine.screen.Faithful (r.stale stale q) := by
  cases q with
  | load program =>
    have hstale : r.stale stale (.load program) =
        (decide (program.size ≤ Memory.maxProgramSize) || stale) := rfl
    rw [hstale]
    by_cases hle : program.size ≤ Memory.maxProgramSize
    · rw [r.apply_load_of_le hle, decide_eq_true hle]
      change (({ r.machine with program } : Machine).reset r.now).1.screen.Faithful true
      rw [Machine.reset_fst]
      exact h.redraw _
    · rw [r.apply_load_of_lt (Nat.not_le.1 hle), decide_eq_false hle]
      exact h
  | reset =>
    change (r.machine.reset r.now).1.screen.Faithful true
    rw [Machine.reset_fst]
    exact h.redraw _
  | pressBy handle code | releaseBy handle code =>
    exact r.throughHandle_machine (P := fun m => m.screen.Faithful stale) handle _ fun _ => h
  | step => exact h.step r.entropy
  | run n => exact Screen.Faithful.steps n (r := .start r.machine r.entropy) h
  | update => exact Screen.Faithful.steps _ (r := .start _ r.entropy) h
  | displayFrame => exact h.refresh
  | restore bytes | drive maxSteps deltas recorder => exact hq.elim
  | _ => exact h

/-! ## Histories -/

/-- Whether a frame that is asked for now has to be packed: there was none yet, or the screen was
redrawn since the last one. What is restored is what it was when it was saved. -/
def History.stale : History → Bool
  | start .. => true
  | feed past _ => past.stale
  | ask past q _ => past.rig.stale past.stale q
  | restore _ saved => saved.stale

/-- The screen of a rig is faithful whatever the rig has been through. -/
theorem History.faithful (h : History) : h.rig.machine.screen.Faithful h.stale := by
  induction h with
  | start rate dialect now entropy => exact .blank
  | feed past entropy ih => exact ih
  | ask past q hq ih => exact ih.apply hq
  | restore past saved _ ih =>
    rw [machine_restore]
    exact ih.recount 0

/-- What a screen gives to whoever asks for its frame now. -/
structure Screen.Delivers (s : Screen) (stale : Bool) : Prop where
  mark : s.packed[0]? = some 0x01
  packed : s.dirty = false → s.packed = s.grid.frame
  frame : s.grid.IsShownBy s.displayFrame.1
  packCount : s.displayFrame.2.packCount = s.packCount + if stale then 1 else 0

/-- A faithful screen delivers the frame of its grid, and packs it only if it is stale. -/
theorem Screen.Faithful.delivers {s : Screen} {stale : Bool} (h : s.Faithful stale) :
    s.Delivers stale where
  mark := h.mark
  packed := h.packed
  frame := by
    change s.grid.IsShownBy s.refresh.packed
    rw [h.packed_refresh]
    exact s.grid.isShownBy_frame
  packCount := h.packCount_refresh

/-- **Display frames are always fresh.** Whatever was done to a screen by itself or to a machine
with all its parts: unless the screen is marked as changed, the packed copy is that of the grid,
and whoever asks for a frame gets one that shows the grid. It is packed for the occasion exactly if
the screen was redrawn since the last one or there was none yet. -/
theorem display_frame_fresh :
    (∀ acts : List Screen.Act,
      (acts.foldl Screen.act .blank).Delivers (acts.foldl Screen.Act.stale true)) ∧
    (∀ h : History,
      let screen := h.rig.machine.screen
      let asking := h.rig.apply .displayFrame
      screen.Delivers h.stale ∧
      asking.reply = .frame (.display screen.displayFrame.1) ∧
      asking.rig.machine.screen = screen.displayFrame.2) ∧
    ∀ past saved : History, (past.restore saved).rig.machine.screen.packCount = 0 := by
  refine ⟨?_, ?_, ?_⟩
  · intro acts
    exact (Screen.Faithful.blank.acts acts).delivers
  · intro h screen asking
    exact ⟨h.faithful.delivers, rfl, rfl⟩
  · intro past saved
    rw [History.machine_restore]
    rfl

end ChipEight
