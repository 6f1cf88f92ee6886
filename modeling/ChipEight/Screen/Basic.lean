import ChipEight.Screen.Grid

/-!
# Screen

The pixel grid and a packed copy of it, ready to be shipped to a display. The copy is rebuilt only
when it is asked for and the grid has changed since. Its first byte marks the frame and is never
written again.
-/

namespace ChipEight

/-- The grid, its packed copy, whether the copy is out of date, and how often it was rebuilt. -/
structure Screen where
  grid : Grid
  packed : Vector UInt8 257
  dirty : Bool
  packCount : UInt64
  deriving DecidableEq

namespace Screen

/-- The byte that marks a display frame. -/
abbrev displayMark : UInt8 := 0x01

/-- A dark screen whose frame has not been packed yet. -/
def blank : Screen where
  grid := .dark
  packed := (Vector.replicate 257 0).set 0 displayMark
  dirty := true
  packCount := 0

/-- Inverts pixels, and tells whether a lit one went off. The screen counts as changed even when
there is nothing to invert. -/
def invert (s : Screen) (cells : List Cell) : Screen × Bool :=
  let (grid, hit) := s.grid.invert cells
  ({ s with grid, dirty := true }, hit)

def drawByte (s : Screen) (x y : UInt64) (data : UInt8) : Screen × Bool :=
  s.invert (Cell.ofByte x y data)

def drawSprite (s : Screen) (x y : UInt64) (rows : List UInt8) : Screen × Bool :=
  s.invert (Cell.ofSprite x y rows)

def clear (s : Screen) : Screen :=
  { s with grid := .dark, dirty := true }

def pixel (s : Screen) (x y : UInt64) : Bool :=
  s.grid.pixel x y

/-- Packs the grid behind the byte that is there already. -/
def repack (s : Screen) : Screen :=
  { s with
    packed := (#v[s.packed[0]] ++ s.grid.packed : Vector UInt8 (1 + 256))
    packCount := s.packCount + 1 }

/-- The display frame, which is `packed` of the screen that results. -/
def refresh (s : Screen) : Screen :=
  if s.dirty then { s.repack with dirty := false } else s

/-- The display frame and the screen after it was taken. -/
def displayFrame (s : Screen) : Vector UInt8 257 × Screen :=
  (s.refresh.packed, s.refresh)

@[simp] theorem dirty_refresh (s : Screen) : s.refresh.dirty = false := by
  unfold refresh
  split <;> simp_all

@[simp] theorem grid_refresh (s : Screen) : s.refresh.grid = s.grid := by
  unfold refresh repack
  split <;> rfl

end Screen
end ChipEight
