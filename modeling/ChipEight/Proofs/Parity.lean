import Mathlib.Data.List.Perm.Lattice
import ChipEight.Proofs.DisplayFrame
import ChipEight.Proofs.Sprites

/-!
# The picture is a matter of parity

A pixel is lit exactly if an odd number of set bits have landed on it since the screen was last
cleared (`Screen.pixel_acts`); to look at a pixel leaves no trace. As counts are added up in any
order, draws may change places, and two equal ones cancel, whatever was drawn between them
(`Screen.parity_law`).
-/

namespace ChipEight

namespace Screen

/-- The number of set bits that have landed on a pixel since the screen was last cleared, from the
number before. -/
def Act.landed (px py : UInt64) (before : Nat) : Act → Nat
  | drawByte x y data => before + Sprite.landings x y [data] px py
  | drawSprite x y rows => before + Sprite.landings x y rows px py
  | clear => 0
  | displayFrame | restore => before

theorem decide_odd_add (m n : Nat) :
    decide (Odd (m + n)) = (decide (Odd m) ^^ decide (Odd n)) := by
  by_cases hm : Odd m <;> by_cases hn : Odd n <;> simp [Nat.odd_add, hm, hn, ← Nat.not_odd_iff_even]

/-- A pixel is lit after an act if it has been hit an odd number of times since the last clearing.
-/
theorem pixel_act {s : Screen} {px py : UInt64} {n : Nat} (h : s.pixel px py = decide (Odd n))
    (a : Act) : (s.act a).pixel px py = decide (Odd (a.landed px py n)) := by
  cases a with
  | drawByte x y data =>
    change (s.drawByte x y data).1.pixel px py = decide (Odd (n + Sprite.landings x y [data] px py))
    rw [drawByte_eq, pixel_drawSprite, h, decide_odd_add]
  | drawSprite x y rows =>
    change (s.drawSprite x y rows).1.pixel px py = decide (Odd (n + Sprite.landings x y rows px py))
    rw [pixel_drawSprite, h, decide_odd_add]
  | clear => exact Vector.getElem_replicate _
  | displayFrame => rw [act, displayFrame, pixel_eq, grid_refresh]; exact h
  | restore => exact h

theorem pixel_acts {s : Screen} {px py : UInt64} {n : Nat} (h : s.pixel px py = decide (Odd n))
    (acts : List Act) :
    (acts.foldl act s).pixel px py = decide (Odd (acts.foldl (Act.landed px py) n)) := by
  induction acts generalizing s n with
  | nil => exact h
  | cons a acts ih => exact ih (pixel_act h a)

/-! ## Draws in another order -/

/-- The cells that an act inverts. -/
def Act.cells : Act → List Cell
  | drawByte x y data => Cell.ofByte x y data
  | drawSprite x y rows => Cell.ofSprite x y rows
  | clear | displayFrame | restore => []

theorem grid_act {a : Act} (h : a ≠ .clear) (s : Screen) :
    (s.act a).grid = (s.grid.invert a.cells).1 := by
  cases a with
  | clear => exact absurd rfl h
  | displayFrame => exact s.grid_refresh
  | _ => rfl

theorem grid_act_congr {s s' : Screen} (h : s'.grid = s.grid) (a : Act) :
    (s'.act a).grid = (s.act a).grid := by
  by_cases ha : a = .clear
  · rw [ha]
    rfl
  · rw [grid_act ha, grid_act ha, h]

/-- What is drawn does not depend on what is packed. -/
theorem grid_acts_congr {s s' : Screen} (h : s'.grid = s.grid) (acts : List Act) :
    (acts.foldl act s').grid = (acts.foldl act s).grid := by
  induction acts generalizing s s' with
  | nil => exact h
  | cons a acts ih => exact ih (grid_act_congr h a)

theorem grid_acts {acts : List Act} (h : .clear ∉ acts) (s : Screen) :
    (acts.foldl act s).grid = (s.grid.invert (acts.flatMap Act.cells)).1 := by
  induction acts generalizing s with
  | nil => rfl
  | cons a acts ih =>
    obtain ⟨ha, hrest⟩ := not_or.1 (mt List.mem_cons.2 h)
    rw [List.foldl_cons, ih hrest, grid_act (Ne.symm ha), List.flatMap_cons, Grid.invert_append]

/-- The picture after a new screen has been through some acts. -/
def picture (acts : List Act) : Grid :=
  (acts.foldl act .blank).grid

/-- Between two clears a picture depends on how often each pixel is inverted. -/
theorem picture_congr {acts acts' : List Act} (h : .clear ∉ acts) (h' : .clear ∉ acts')
    (hcount : ∀ c, Odd ((acts'.flatMap Act.cells).count c) ↔ Odd ((acts.flatMap Act.cells).count c))
    (before after : List Act) :
    picture (before ++ acts' ++ after) = picture (before ++ acts ++ after) := by
  simp only [picture, List.foldl_append]
  refine grid_acts_congr ?_ after
  rw [grid_acts h, grid_acts h']
  exact Grid.invert_congr _ hcount

theorem picture_perm {acts acts' : List Act} (h : .clear ∉ acts) (hperm : acts.Perm acts')
    (before after : List Act) :
    picture (before ++ acts' ++ after) = picture (before ++ acts ++ after) := by
  refine picture_congr h (mt hperm.mem_iff.2 h) (fun c => ?_) before after
  rw [(hperm.flatMap_right Act.cells).count_eq c]

/-- What is drawn twice, without clearing between, is as if it had not been drawn. -/
theorem picture_twice {acts : List Act} (h : .clear ∉ acts) {a : Act} (ha : a ≠ .clear)
    (before after : List Act) :
    picture (before ++ (a :: acts ++ [a]) ++ after) = picture (before ++ acts ++ after) := by
  refine picture_congr h ?_ (fun c => ?_) before after
  · simp [h, ha.symm]
  · have htwice : ((a :: acts ++ [a]).flatMap Act.cells).count c =
        (acts.flatMap Act.cells).count c + 2 * a.cells.count c := by
      simp only [List.flatMap_append, List.flatMap_cons, List.flatMap_nil, List.append_nil,
        List.count_append]
      omega
    rw [htwice, Nat.odd_add]
    exact iff_of_eq (by simp)

/-! ## The law -/

/-- **Parity.** Whatever is done to a new screen, a pixel is lit exactly if an odd number of set bits
have landed on it since the last clear. So acts may change places as long as none of them is a
clear, and an act that is done twice, with no clear in between, is as good as not done. A sprite of
at most 32 rows reports a hit exactly if it inverts a pixel that was lit, and any sprite is drawn
like its upper and its lower part one after the other. -/
theorem parity_law :
    (∀ (acts : List Act) (px py : UInt64),
      (acts.foldl act .blank).pixel px py = true ↔ Odd (acts.foldl (Act.landed px py) 0)) ∧
    (∀ before acts acts' after : List Act, .clear ∉ acts → acts.Perm acts' →
      picture (before ++ acts' ++ after) = picture (before ++ acts ++ after)) ∧
    (∀ (before acts after : List Act) (a : Act), .clear ∉ acts → a ≠ .clear →
      picture (before ++ (a :: acts ++ [a]) ++ after) = picture (before ++ acts ++ after)) ∧
    (∀ (s : Screen) (x y : UInt64) (rows : List UInt8), rows.length ≤ 32 →
      ((s.drawSprite x y rows).2 = true ↔
        ∃ px py, (s.drawSprite x y rows).1.pixel px py ≠ s.pixel px py ∧
          s.pixel px py = true)) ∧
    ∀ (s : Screen) (x y : UInt64) (a b : List UInt8),
      s.drawSprite x y (a ++ b) =
        let upper := s.drawSprite x y a
        let lower := upper.1.drawSprite x (y + UInt64.ofNat a.length) b
        (lower.1, upper.2 || lower.2) := by
  refine ⟨?_, ?_, ?_, ?_, drawSprite_append⟩
  · intro acts px py
    have hdark : Screen.blank.pixel px py = decide (Odd 0) := Vector.getElem_replicate _
    rw [pixel_acts hdark, decide_eq_true_iff]
  · exact fun before acts acts' after h hperm => picture_perm h hperm before after
  · exact fun before acts after a h ha => picture_twice h ha before after
  · intro s x y rows hrows
    simp only [hit_drawSprite_iff hrows, pixel_drawSprite_ne_iff, Sprite.odd_landings_iff hrows]

/-- A sprite and a row reach over the edges and change places, a sprite that is taller than the
screen cancels around them, and where the sprite meets the row it switches a pixel off. -/
theorem parity_law_wrapped :
    let corner : Act := .drawSprite 0xFFFFFFFFFFFFFFFF 0xFFFFFFFFFFFFFFFF [0xF0, 0x90]
    let row : Act := .drawByte 62 0 0xFF
    let tall : Act := .drawSprite 0 0 (List.replicate 33 0x80)
    let acts := [corner, .displayFrame, row]
    let s := Screen.blank.act row
    (.clear ∉ acts ∧ acts.Perm acts.reverse ∧
      picture ([tall] ++ acts.reverse ++ [.clear, corner]) =
        picture ([tall] ++ acts ++ [.clear, corner])) ∧
    (tall ≠ .clear ∧ picture ([] ++ (tall :: acts ++ [tall]) ++ []) = picture ([] ++ acts ++ [])) ∧
    [0xF0, 0x90].length ≤ 32 ∧
      ∃ px py, (s.drawSprite 63 0 [0xF0, 0x90]).1.pixel px py ≠ s.pixel px py ∧
        s.pixel px py = true := by
  intro corner row tall acts s
  have hclear : .clear ∉ acts := by simp [acts, corner, row]
  have hswap : acts.Perm acts.reverse := acts.reverse_perm.symm
  have hmeets : (s.drawSprite 63 0 [0xF0, 0x90]).2 = true := by decide +kernel
  obtain ⟨-, hperm, htwice, hhit, -⟩ := parity_law
  exact ⟨⟨hclear, hswap, hperm _ _ _ _ hclear hswap⟩, ⟨nofun, htwice _ _ _ _ hclear nofun⟩,
    by decide, (hhit _ _ _ _ (by decide)).1 hmeets⟩

end Screen
end ChipEight
