import ChipEight.Proofs.DisplayFrame
import ChipEight.Proofs.Resemblance

/-!
# Machines that differ in their packing

A packed copy that is not marked as out of date is the one of the grid. While this is so it does not
show when a screen was packed, nor whether it was: machines with such screens that differ in nothing
else are in lockstep (`Machine.sameButPacking_lockstep`), so a frame may be taken from one of them
and not from the other (`Machine.SameButPacking.afterFrame`).
-/

namespace ChipEight

/-- The pixels are the same, and where a packed copy counts it is the one of the grid. -/
structure Screen.SameButPacking (s s' : Screen) : Prop where
  grid : s'.grid = s.grid
  faithful : ∃ stale, s.Faithful stale
  faithful' : ∃ stale, s'.Faithful stale

/-- Screens that differ in when they were packed stay so. -/
theorem Screen.sameButPacking_lockstep : Screen.Lockstep SameButPacking where
  grid h := h.grid
  redraw grid h := by
    rcases h with ⟨-, ⟨stale, hs⟩, ⟨stale', hs'⟩⟩
    exact ⟨rfl, ⟨true, hs.redraw grid⟩, ⟨true, hs'.redraw grid⟩⟩
  refresh h := by
    rcases h with ⟨hgrid, ⟨stale, hs⟩, ⟨stale', hs'⟩⟩
    refine ⟨?_, ?_, ⟨false, hs.refresh⟩, ⟨false, hs'.refresh⟩⟩
    · rw [hs.packed_refresh, hs'.packed_refresh, hgrid]
    · rw [grid_refresh, grid_refresh, hgrid]

namespace Machine

/-- The machines differ at most in what is packed of their screens. -/
abbrev SameButPacking : Machine → Machine → Prop :=
  Resembles Screen.SameButPacking fun _ => True

theorem sameButPacking_lockstep : Machine.Lockstep SameButPacking :=
  resembles_lockstep Screen.sameButPacking_lockstep trivial

theorem SameButPacking.refl {m : Machine} {stale : Bool} (h : m.screen.Faithful stale) :
    m.SameButPacking m :=
  ⟨rfl, ⟨rfl, ⟨stale, h⟩, ⟨stale, h⟩⟩, rfl, fun _ => rfl⟩

/-- What may differ between machines that are the same but for packing. -/
theorem SameButPacking.eq {m m' : Machine} (h : m.SameButPacking m') :
    m' = { m with
      screen := { m.screen with
        packed := m'.screen.packed
        dirty := m'.screen.dirty
        packCount := m'.screen.packCount } } := by
  have hscreen : m'.screen = { m.screen with
      packed := m'.screen.packed
      dirty := m'.screen.dirty
      packCount := m'.screen.packCount } := by
    simp only [← h.screen.grid]
  rw [← hscreen]
  exact h.rest.trans (by rw [h.keypad]; rfl)

/-- The frame that is taken from either machine is the one of the grid. -/
theorem SameButPacking.displayFrame_fst {m m' : Machine} (h : m.SameButPacking m') :
    m'.displayFrame.1 = m.screen.grid.frame := by
  rcases h.screen with ⟨hgrid, -, ⟨stale, hs⟩⟩
  rw [← hgrid]
  exact hs.packed_refresh

/-- It does not show that a frame was taken. -/
theorem SameButPacking.afterFrame {m m' : Machine} (h : m.SameButPacking m') :
    m.SameButPacking m'.displayFrame.2 := by
  rcases h with ⟨hrest, ⟨hgrid, hs, ⟨stale, hs'⟩⟩, hheld, hlatch⟩
  refine ⟨?_, ⟨m'.screen.grid_refresh.trans hgrid, hs, ⟨false, hs'.refresh⟩⟩, hheld, hlatch⟩
  unfold displayFrame
  rw [hrest]
  rfl

end Machine
end ChipEight
