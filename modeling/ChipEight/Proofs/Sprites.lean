import Mathlib.Algebra.Ring.Parity
import Mathlib.Data.List.Flatten
import Mathlib.Data.List.Nodup
import ChipEight.Screen.Basic

/-!
# Sprites

To draw is to invert, so the picture is a matter of parity: a pixel is lit if an odd number of set
bits have landed on it since the screen was last cleared. Columns and rows wrap, and a sprite taller
than the screen lands on itself; all of that is in the count (`Sprite.landings`), which knows
nothing of the order in which pixels were inverted. Whether a sprite has switched a pixel off is
another matter, as this is asked of each pixel when its turn comes. It comes to asking the screen
before if no pixel has two turns, and that is so up to a height of 32 rows (`Cell.nodup_ofSprite`).
-/

namespace ChipEight

/-! ## Grids -/

namespace Grid

variable (g : Grid)

theorem eq_of_lit {g g' : Grid} (h : ∀ c, g.lit.get c = g'.lit.get c) : g = g' := by
  cases g
  cases g'
  refine congrArg Grid.mk (Vector.ext fun k hk => ?_)
  exact h ⟨k, hk⟩

/-- Flipping a cell inverts it and no other. -/
theorem lit_flip (c d : Cell) :
    (g.flip c).lit.get d = (g.lit.get d ^^ decide (c = d)) := by
  have hset : (g.flip c).lit.get d = if c.val = d.val then !g.lit.get c else g.lit.get d :=
    Vector.getElem_set c.isLt d.isLt
  rw [hset]
  by_cases h : c = d
  · rw [h, if_pos rfl, decide_eq_true rfl, Bool.xor_true]
  · rw [if_neg fun he => h (Fin.ext he), decide_eq_false h, Bool.xor_false]

/-- A pixel's turn to be inverted, with what was hit so far. -/
def turn (p : Grid × Bool) (c : Cell) : Grid × Bool :=
  (p.1.flip c, p.2 || p.1.lit.get c)

theorem invert_eq_foldl (cells : List Cell) : g.invert cells = cells.foldl turn (g, false) :=
  rfl

theorem foldl_turn (cells : List Cell) (hit : Bool) :
    cells.foldl turn (g, hit) = ((g.invert cells).1, hit || (g.invert cells).2) := by
  induction cells generalizing g hit with
  | nil => rw [invert_eq_foldl, List.foldl_nil, List.foldl_nil, Bool.or_false]
  | cons c cells ih =>
    rw [invert_eq_foldl, List.foldl_cons, List.foldl_cons, turn, turn, ih, ih, Bool.false_or,
      Bool.or_assoc]

theorem invert_cons (c : Cell) (cells : List Cell) :
    g.invert (c :: cells) =
      (((g.flip c).invert cells).1, g.lit.get c || ((g.flip c).invert cells).2) :=
  (g.flip c).foldl_turn cells (false || g.lit.get c)

theorem invert_append (l l' : List Cell) :
    g.invert (l ++ l') =
      (((g.invert l).1.invert l').1, (g.invert l).2 || ((g.invert l).1.invert l').2) := by
  rw [invert_eq_foldl, List.foldl_append, ← invert_eq_foldl, foldl_turn]

/-- Inverting a pixel is undone by inverting it again. -/
theorem lit_invert (cells : List Cell) (c : Cell) :
    (g.invert cells).1.lit.get c = (g.lit.get c ^^ decide (Odd (cells.count c))) := by
  induction cells generalizing g with
  | nil => simp [invert]
  | cons d cells ih =>
    rw [invert_cons, ih, lit_flip, List.count_cons]
    by_cases h : d = c
    · have hodd : decide (Odd (cells.count c + 1)) = !decide (Odd (cells.count c)) := by
        simp only [Nat.odd_add_one, decide_not]
      rw [h, if_pos (beq_self_eq_true c), hodd, decide_eq_true rfl, Bool.xor_assoc, Bool.true_xor]
    · rw [if_neg (mt eq_of_beq h), decide_eq_false h, Bool.xor_false, Nat.add_zero]

/-- The order in which pixels are inverted does not show, nor does a pair of turns. -/
theorem invert_congr {l l' : List Cell} (h : ∀ c, Odd (l.count c) ↔ Odd (l'.count c)) :
    (g.invert l).1 = (g.invert l').1 := by
  refine eq_of_lit fun c => ?_
  rw [lit_invert, lit_invert, decide_eq_decide.2 (h c)]

/-- If no pixel has two turns, a lit one has gone off exactly if one of them was lit before. -/
theorem hit_invert_iff {cells : List Cell} (h : cells.Nodup) :
    (g.invert cells).2 = true ↔ ∃ c ∈ cells, g.lit.get c = true := by
  induction cells generalizing g with
  | nil => simp [invert]
  | cons c cells ih =>
    obtain ⟨hc, hrest⟩ := List.nodup_cons.1 h
    rw [invert_cons, Bool.or_eq_true, ih _ hrest, List.exists_mem_cons_iff]
    refine or_congr_right (exists_congr fun d => and_congr_right fun hd => ?_)
    -- inverting `c` changes no pixel that still has its turn
    have hne : c ≠ d := fun he => hc (he ▸ hd)
    rw [lit_flip, decide_eq_false hne, Bool.xor_false]

end Grid

/-! ## The bits of a sprite -/

/-- Whether a bit of a sprite is set and lands on a pixel. The sprite has its upper left corner at
`x` and `y`; its rows are counted from above, and the bits of a row from the left. -/
def Sprite.lands (x y : UInt64) (rows : List UInt8) (px py : UInt64) (r b : Nat) : Bool :=
  (rows.getD r 0).toNat.testBit (7 - b) &&
    (x + UInt64.ofNat b) % 64 == px % 64 && (y + UInt64.ofNat r) % 32 == py % 32

/-- How many set bits of a sprite land on a pixel. -/
def Sprite.landings (x y : UInt64) (rows : List UInt8) (px py : UInt64) : Nat :=
  ((List.range rows.length).map fun r =>
    (List.range 8).countP fun b => lands x y rows px py r b).sum

namespace Cell

theorem mod_eq_mod_iff {a b n : UInt64} :
    a % n = b % n ↔ a.toNat % n.toNat = b.toNat % n.toNat := by
  rw [← UInt64.toNat_inj, UInt64.toNat_mod, UInt64.toNat_mod]

/-- Where a sum of coordinates runs over, the screen has wrapped many times. -/
theorem toNat_add_ofNat_mod (a : UInt64) (k : Nat) {n : UInt64} (h : n.toNat ∣ 2 ^ 64) :
    ((a + UInt64.ofNat k) % n).toNat = (a.toNat + k) % n.toNat := by
  rw [UInt64.toNat_mod, UInt64.toNat_add, UInt64.toNat_ofNat', Nat.mod_mod_of_dvd _ h, Nat.add_mod,
    Nat.mod_mod_of_dvd _ h, ← Nat.add_mod]

theorem add_ofNat_zero (a : UInt64) : a + UInt64.ofNat 0 = a :=
  UInt64.add_zero a

theorem add_one_add_ofNat (a : UInt64) (k : Nat) :
    a + 1 + UInt64.ofNat k = a + UInt64.ofNat (k + 1) := by
  rw [UInt64.ofNat_add, UInt64.add_assoc, UInt64.add_comm 1]
  rfl

theorem at_eq_at_iff {x y px py : UInt64} :
    Cell.at x y = Cell.at px py ↔ x % 64 = px % 64 ∧ y % 32 = py % 32 := by
  have hcolumn : x % 64 = px % 64 ↔ x.toNat % 64 = px.toNat % 64 := mod_eq_mod_iff
  have hrow : y % 32 = py % 32 ↔ y.toNat % 32 = py.toNat % 32 := mod_eq_mod_iff
  rw [hcolumn, hrow, Cell.at, Cell.at, Fin.mk.injEq]
  omega

theorem exists_at_eq (c : Cell) : ∃ px py, Cell.at px py = c := by
  refine ⟨UInt64.ofNat (c.val % 64), UInt64.ofNat (c.val / 64), Fin.ext ?_⟩
  simp only [Cell.at, UInt64.toNat_ofNat']
  omega

/-- A sprite is its rows, each one further down. -/
theorem ofSprite_eq (x y : UInt64) (rows : List UInt8) :
    Cell.ofSprite x y rows =
      (List.range rows.length).flatMap fun r =>
        Cell.ofByte x (y + UInt64.ofNat r) (rows.getD r 0) := by
  induction rows generalizing y with
  | nil => rfl
  | cons data rows ih =>
    simp only [ofSprite, ih, List.length_cons, List.range_succ_eq_map, List.flatMap_cons,
      List.flatMap_map, List.getD_cons_zero, List.getD_cons_succ, Nat.succ_eq_add_one,
      add_one_add_ofNat, add_ofNat_zero]

/-- A sprite put together from two falls on the cells of the first and, further down, on those of
the second. -/
theorem ofSprite_append (x y : UInt64) (a b : List UInt8) :
    Cell.ofSprite x y (a ++ b) =
      Cell.ofSprite x y a ++ Cell.ofSprite x (y + UInt64.ofNat a.length) b := by
  induction a generalizing y with
  | nil =>
    rw [List.nil_append, List.length_nil, add_ofNat_zero]
    rfl
  | cons data a ih =>
    simp only [List.cons_append, ofSprite, ih, List.append_assoc, List.length_cons,
      add_one_add_ofNat]

theorem mem_ofByte_iff {x y : UInt64} {data : UInt8} {c : Cell} :
    c ∈ Cell.ofByte x y data ↔
      ∃ b < 8, data.toNat.testBit (7 - b) = true ∧ Cell.at (x + UInt64.ofNat b) y = c := by
  simp only [ofByte, List.mem_filterMap, List.mem_range, Option.ite_none_right_eq_some,
    Option.some.injEq]

/-- The cells of a row are in different columns. -/
theorem nodup_ofByte (x y : UInt64) (data : UInt8) : (Cell.ofByte x y data).Nodup := by
  refine List.pairwise_filterMap.2 (List.nodup_range.imp_of_mem ?_)
  intro b b' hb hb' hne c hc c' hc' he
  simp only [Option.ite_none_right_eq_some, Option.some.injEq] at hc hc'
  rw [← hc.2, ← hc'.2, at_eq_at_iff] at he
  have hcolumn : (x.toNat + b) % 64 = (x.toNat + b') % 64 := by
    have hmod := congrArg UInt64.toNat he.1
    rwa [toNat_add_ofNat_mod _ _ (by decide), toNat_add_ofNat_mod _ _ (by decide)] at hmod
  rw [List.mem_range] at hb hb'
  omega

/-- The rows of a sprite that is no taller than the screen are all different. -/
theorem nodup_ofSprite (x y : UInt64) {rows : List UInt8} (h : rows.length ≤ 32) :
    (Cell.ofSprite x y rows).Nodup := by
  rw [ofSprite_eq, List.nodup_flatMap]
  refine ⟨fun r _ => nodup_ofByte .., List.nodup_range.imp_of_mem ?_⟩
  intro r r' hr hr' hne c hc hc'
  obtain ⟨b, -, -, rfl⟩ := mem_ofByte_iff.1 hc
  obtain ⟨b', -, -, he⟩ := mem_ofByte_iff.1 hc'
  have hrow : (y.toNat + r') % 32 = (y.toNat + r) % 32 := by
    have hmod := congrArg UInt64.toNat (at_eq_at_iff.1 he).2
    rwa [toNat_add_ofNat_mod _ _ (by decide), toNat_add_ofNat_mod _ _ (by decide)] at hmod
  rw [List.mem_range] at hr hr'
  omega

/-- The cells of a sprite are counted by its bits. -/
theorem count_ofSprite (x y : UInt64) (rows : List UInt8) (px py : UInt64) :
    (Cell.ofSprite x y rows).count (Cell.at px py) = Sprite.landings x y rows px py := by
  rw [ofSprite_eq, List.count_flatMap, Sprite.landings]
  refine congrArg List.sum (List.map_congr_left fun r _ => ?_)
  rw [Function.comp_apply, ofByte, List.count, List.countP_filterMap]
  refine List.countP_congr fun b _ => ?_
  unfold Sprite.lands
  cases (rows.getD r 0).toNat.testBit (7 - b) with
  | false => simp
  | true => simp [at_eq_at_iff]

end Cell

/-! ## Drawing on a screen -/

/-- Whether a set bit of a sprite lands on a pixel. -/
def Sprite.Covers (x y : UInt64) (rows : List UInt8) (px py : UInt64) : Prop :=
  ∃ r < rows.length, ∃ b < 8, lands x y rows px py r b = true

theorem Cell.mem_ofSprite_iff {x y : UInt64} {rows : List UInt8} {px py : UInt64} :
    Cell.at px py ∈ Cell.ofSprite x y rows ↔ Sprite.Covers x y rows px py := by
  simp only [ofSprite_eq, List.mem_flatMap, List.mem_range, mem_ofByte_iff, at_eq_at_iff,
    Sprite.Covers, Sprite.lands, Bool.and_eq_true, beq_iff_eq, and_assoc]

/-- Up to a height of 32 rows no two bits of a sprite land on one pixel. -/
theorem Sprite.odd_landings_iff {rows : List UInt8} (h : rows.length ≤ 32) {x y px py : UInt64} :
    Odd (landings x y rows px py) ↔ Covers x y rows px py := by
  have hle := List.nodup_iff_count_le_one.1 (Cell.nodup_ofSprite x y h) (Cell.at px py)
  rw [← Cell.mem_ofSprite_iff, ← List.count_pos_iff, ← Cell.count_ofSprite, Nat.odd_iff]
  omega

namespace Screen

theorem pixel_eq (s : Screen) (px py : UInt64) : s.pixel px py = s.grid.lit.get (Cell.at px py) :=
  rfl

/-- A row by itself is a sprite of one row. -/
theorem drawByte_eq (s : Screen) (x y : UInt64) (data : UInt8) :
    s.drawByte x y data = s.drawSprite x y [data] := by
  rw [drawByte, drawSprite, Cell.ofSprite, Cell.ofSprite, List.append_nil]

/-- A sprite may be drawn in two parts. -/
theorem drawSprite_append (s : Screen) (x y : UInt64) (a b : List UInt8) :
    s.drawSprite x y (a ++ b) =
      let upper := s.drawSprite x y a
      let lower := upper.1.drawSprite x (y + UInt64.ofNat a.length) b
      (lower.1, upper.2 || lower.2) := by
  simp only [drawSprite, invert, Cell.ofSprite_append, Grid.invert_append]

theorem pixel_drawSprite (s : Screen) (x y : UInt64) (rows : List UInt8) (px py : UInt64) :
    (s.drawSprite x y rows).1.pixel px py =
      (s.pixel px py ^^ decide (Odd (Sprite.landings x y rows px py))) := by
  rw [← Cell.count_ofSprite]
  exact s.grid.lit_invert _ _

theorem pixel_drawSprite_ne_iff {s : Screen} {x y : UInt64} {rows : List UInt8} {px py : UInt64} :
    (s.drawSprite x y rows).1.pixel px py ≠ s.pixel px py ↔
      Odd (Sprite.landings x y rows px py) := by
  rw [pixel_drawSprite]
  by_cases h : Odd (Sprite.landings x y rows px py) <;> simp [h]

/-- A sprite that is no taller than the screen switches a pixel off exactly if it covers one that is
lit. -/
theorem hit_drawSprite_iff {s : Screen} {x y : UInt64} {rows : List UInt8}
    (h : rows.length ≤ 32) :
    (s.drawSprite x y rows).2 = true ↔
      ∃ px py, Sprite.Covers x y rows px py ∧ s.pixel px py = true := by
  refine (s.grid.hit_invert_iff (Cell.nodup_ofSprite x y h)).trans ⟨?_, ?_⟩
  · rintro ⟨c, hc, hlit⟩
    obtain ⟨px, py, rfl⟩ := c.exists_at_eq
    exact ⟨px, py, Cell.mem_ofSprite_iff.1 hc, hlit⟩
  · rintro ⟨px, py, hcovers, hlit⟩
    exact ⟨Cell.at px py, Cell.mem_ofSprite_iff.2 hcovers, hlit⟩

end Screen
end ChipEight
