import ChipEight.Basic

/-!
# The pixel grid

Sixty-four columns and thirty-two rows of pixels that are lit or not. Columns and rows wrap, so
any pair of coordinates names a cell. A sprite is drawn by inverting, one after the other, the
cells its set bits fall on; `Grid.invert` also tells whether one of them was lit when its turn
came.
-/

namespace ChipEight

/-- A pixel's place in the grid, counted row by row. -/
abbrev Cell := Fin 2048

/-- The cell at a column and a row, each taken modulo the size of the grid. -/
def Cell.at (x y : UInt64) : Cell :=
  ⟨y.toNat % 32 * 64 + x.toNat % 64, by omega⟩

/-- The cells that the set bits of a row of sprite data fall on. The highest bit is leftmost. -/
def Cell.ofByte (x y : UInt64) (data : UInt8) : List Cell :=
  (List.range 8).filterMap fun b =>
    if data.toNat.testBit (7 - b) then some (Cell.at (x + UInt64.ofNat b) y) else none

/-- The cells that a sprite falls on, row after row. -/
def Cell.ofSprite (x y : UInt64) : List UInt8 → List Cell
  | [] => []
  | data :: rows => Cell.ofByte x y data ++ Cell.ofSprite x (y + 1) rows

structure Grid where
  lit : Vector Bool 2048
  deriving DecidableEq

namespace Grid

def dark : Grid :=
  ⟨Vector.replicate 2048 false⟩

def pixel (g : Grid) (x y : UInt64) : Bool :=
  g.lit[Cell.at x y]

def flip (g : Grid) (c : Cell) : Grid :=
  ⟨g.lit.set c (!g.lit[c])⟩

/-- Inverts pixels one after the other, and tells whether a lit one went off. -/
def invert (g : Grid) (cells : List Cell) : Grid × Bool :=
  cells.foldl (fun (g, hit) c => (g.flip c, hit || g.lit[c])) (g, false)

/-- Eight pixels of a row in one byte, the leftmost in the highest bit. -/
def packedByte (g : Grid) (k : Fin 256) : UInt8 :=
  let lit (b : Fin 8) : Bool := g.lit.get ⟨k.val * 8 + b.val, by omega⟩
  UInt8.ofNat ((List.finRange 8).foldl (fun acc b => acc * 2 + (lit b).toNat) 0)

def packed (g : Grid) : Vector UInt8 256 :=
  tabulate g.packedByte

end Grid
end ChipEight
