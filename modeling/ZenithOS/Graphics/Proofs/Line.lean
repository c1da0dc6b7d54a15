/-
The points of a line.

# The walk

Let `w` and `d` be the distances of the end points along the two axes and
`n` the longer one. After `k` steps the loop is at the `k`-th of the
`n + 1` points of `linePoint`: along either axis it has made `k * w / n`
and `k * d / n` steps, `rounded`, and with `i` and `j` of them
the error term is `(j + 1) * w - (i + 1) * d` (`lineErr`).

So the two comparisons of the loop are those of the rounding
(`lineErr_steps`), in all octants alike: the longer axis, whose steps are
not rounded, always moves, the other one when half a pixel is passed. The
term stays within three times the length of the line (`lineErr_bounds`),
and the loop meets the end point at step `n` and not before.
-/
import ZenithOS.Graphics.Draw
import ZenithOS.Lib.Rounding

namespace ZenithOS.Graphics

open Lib

variable {σ : Type} {visit : Int → Int → σ → σ} {w d k : Nat} {x0 y0 x1 y1 : Int}

-- ============================================================ one step

theorem checked_of {v : Int} (h : IsInt v) : checked v = some v := if_pos h

/-- A round of the loop in which nothing overflows. -/
theorem drawLineLoop_succ {dx dy sx sy x y e : Int} {fuel : Nat} {s : σ}
    (hne : ¬ (x = x1 ∧ y = y1)) (htwice : IsInt (2 * e)) (hx : IsInt (x + sx))
    (hy : IsInt (y + sy)) (hdy : IsInt (e + dy)) (hdx : IsInt (e + dx))
    (hboth : IsInt (e + dy + dx)) :
    drawLineLoop visit dx dy sx sy x1 y1 (fuel + 1) x y e s
      = drawLineLoop visit dx dy sx sy x1 y1 fuel
        (if dy ≤ 2 * e then x + sx else x) (if 2 * e ≤ dx then y + sy else y)
        (e + (if dy ≤ 2 * e then dy else 0) + if 2 * e ≤ dx then dx else 0) (visit x y s) := by
  rw [drawLineLoop, if_neg hne, checked_of htwice]
  by_cases hcolumn : dy ≤ 2 * e
  · by_cases hrow : 2 * e ≤ dx
    · simp [hcolumn, hrow, checked_of hx, checked_of hy, checked_of hdy, checked_of hboth]
    · simp [hcolumn, hrow, checked_of hx, checked_of hdy]
  · by_cases hrow : 2 * e ≤ dx
    · simp [hcolumn, hrow, checked_of hy, checked_of hdx]
    · simp [hcolumn, hrow]

-- ======================================================= the error term

/-- `err` after `k` steps. -/
def lineErr (w d k : Nat) : Int :=
  (rounded d (max w d) k + 1) * w - (rounded w (max w d) k + 1) * d

/-- With the axes exchanged, the term changes its sign. -/
theorem lineErr_swap (w d k : Nat) : lineErr d w k = -lineErr w d k := by
  unfold lineErr
  rw [max_comm]
  ring

/-- The comparisons of the loop decide the next steps. -/
theorem lineErr_steps (hk : k < max w d) :
    rounded w (max w d) (k + 1)
        = (if -(d : Int) ≤ 2 * lineErr w d k then rounded w (max w d) k + 1
          else rounded w (max w d) k)
      ∧ rounded d (max w d) (k + 1)
        = if 2 * lineErr w d k ≤ w then rounded d (max w d) k + 1
          else rounded d (max w d) k := by
  wlog hle : d ≤ w generalizing w d
  · obtain ⟨hrow, hcolumn⟩ := this (max_comm w d ▸ hk) (Nat.le_of_not_le hle)
    rw [max_comm, lineErr_swap] at hrow hcolumn
    have hdown : -(w : Int) ≤ 2 * -lineErr w d k ↔ 2 * lineErr w d k ≤ w := by omega
    have hright : 2 * -lineErr w d k ≤ d ↔ -(d : Int) ≤ 2 * lineErr w d k := by omega
    simp only [hdown, hright] at hrow hcolumn
    exact ⟨hcolumn, hrow⟩
  · unfold lineErr
    rw [Nat.max_eq_left hle] at hk ⊢
    have hn : 0 < w := by omega
    have hlt := lt_rounded (a := d) (k := k) hn
    rw [rounded_all hn, rounded_all hn, rounded_succ hn hle]
    generalize rounded d w k = j at *
    have hj : (2 * j + 1) * w = 2 * (j * w) + w := by ring
    have hk1 := add_one_mul k d
    have hj1 := add_one_mul j w
    zify at hlt hj hk1 hj1
    refine ⟨?_, ?_⟩
    · rw [if_pos]
      omega
    · congr 1
      rw [eq_iff_iff]
      zify
      omega

/-- The error term stays small. -/
theorem lineErr_bounds (hk : k < max w d) :
    -3 * (max w d : Int) ≤ 2 * lineErr w d k ∧ 2 * lineErr w d k ≤ 3 * (max w d : Int) := by
  wlog hle : d ≤ w generalizing w d
  · have h := this (max_comm w d ▸ hk) (Nat.le_of_not_le hle)
    rw [max_comm, lineErr_swap] at h
    omega
  · unfold lineErr
    rw [Nat.max_eq_left hle] at hk ⊢
    have hn : 0 < w := by omega
    have hlo := rounded_le d w k
    have hlt := lt_rounded (a := d) (k := k) hn
    rw [rounded_all hn]
    generalize rounded d w k = j at *
    have hk1 := add_one_mul k d
    have hj1 := add_one_mul j w
    zify at hlo hlt hk1 hj1
    omega

-- =========================================================== the points

/-- `sx` and `sy`. -/
def lineSign (a b : Int) : Int := if a < b then 1 else -1

theorem lineSign_mul (a b : Int) : lineSign a b * (b - a).natAbs = b - a := by
  unfold lineSign
  split_ifs
  · omega
  · omega

theorem abs_lineSign (a b : Int) : |lineSign a b| = 1 := by
  unfold lineSign
  split_ifs <;> rfl

/-- The place along one axis after `i` steps. -/
def lineAt (a b : Int) (i : Nat) : Int := a + lineSign a b * i

/-- The walk ends at the end point. -/
theorem lineAt_end (a b : Int) : lineAt a b (b - a).natAbs = b := by
  unfold lineAt
  rw [lineSign_mul]
  omega

/-- Each round has a place of its own. -/
theorem lineAt_inj {a b : Int} {i j : Nat} (h : lineAt a b i = lineAt a b j) : i = j := by
  unfold lineAt lineSign at h
  split_ifs at h
  · omega
  · omega

theorem lineAt_succ (a b : Int) (i : Nat) :
    lineAt a b (i + 1) = lineAt a b i + lineSign a b := by
  unfold lineAt
  push_cast
  ring

/-- Between the end points, and one step further, nothing overflows. -/
theorem lineAt_isInt {a b : Int} {i : Nat} (ha : |a| ≤ 2 ^ 28) (hb : |b| ≤ 2 ^ 28)
    (hi : i ≤ (b - a).natAbs) : IsInt (lineAt a b i + lineSign a b) := by
  rw [abs_le] at ha hb
  unfold IsInt lineAt lineSign
  split_ifs
  · omega
  · omega

/-- The length of the line along its longer axis. -/
def lineLength (x0 y0 x1 y1 : Int) : Nat := max (x1 - x0).natAbs (y1 - y0).natAbs

/-- The point after `k` steps. -/
def linePoint (x0 y0 x1 y1 : Int) (k : Nat) : Int × Int :=
  (lineAt x0 x1 (rounded (x1 - x0).natAbs (lineLength x0 y0 x1 y1) k),
    lineAt y0 y1 (rounded (y1 - y0).natAbs (lineLength x0 y0 x1 y1) k))

/-- The pixels of the line, in order. -/
def linePoints (x0 y0 x1 y1 : Int) : List (Int × Int) :=
  (List.range (lineLength x0 y0 x1 y1 + 1)).map (linePoint x0 y0 x1 y1)

theorem linePoint_zero (x0 y0 x1 y1 : Int) : linePoint x0 y0 x1 y1 0 = (x0, y0) := by
  unfold linePoint lineAt
  rw [rounded_zero, rounded_zero]
  simp

theorem linePoint_last (x0 y0 x1 y1 : Int) :
    linePoint x0 y0 x1 y1 (lineLength x0 y0 x1 y1) = (x1, y1) := by
  unfold linePoint
  rcases Nat.eq_zero_or_pos (lineLength x0 y0 x1 y1) with hzero | hpos
  · -- a single point
    have hw : (x1 - x0).natAbs = 0 := by
      unfold lineLength at hzero
      omega
    have hd : (y1 - y0).natAbs = 0 := by
      unfold lineLength at hzero
      omega
    rw [hzero, rounded_zero, rounded_zero]
    have hx := lineAt_end x0 x1
    have hy := lineAt_end y0 y1
    rw [hw] at hx
    rw [hd] at hy
    rw [hx, hy]
  · rw [rounded_self hpos, rounded_self hpos, lineAt_end, lineAt_end]

/-- The walk meets the end point at its last step only. -/
theorem linePoint_ne_last (hk : k < lineLength x0 y0 x1 y1) :
    ¬ ((linePoint x0 y0 x1 y1 k).1 = x1 ∧ (linePoint x0 y0 x1 y1 k).2 = y1) := by
  rintro ⟨hx, hy⟩
  have hw := lineAt_inj (hx.trans (lineAt_end x0 x1).symm)
  have hd := lineAt_inj (hy.trans (lineAt_end y0 y1).symm)
  have hn : 0 < lineLength x0 y0 x1 y1 := by omega
  rcases Nat.le_total (y1 - y0).natAbs (x1 - x0).natAbs with hle | hle
  · have hlen : lineLength x0 y0 x1 y1 = (x1 - x0).natAbs := Nat.max_eq_left hle
    rw [hlen] at hk hn hw
    rw [rounded_all hn] at hw
    omega
  · have hlen : lineLength x0 y0 x1 y1 = (y1 - y0).natAbs := Nat.max_eq_right hle
    rw [hlen] at hk hn hd
    rw [rounded_all hn] at hd
    omega

-- ============================================================= the loop

/-- From its `k`-th point the loop visits the rest of the line. -/
theorem drawLineLoop_spec (hx0 : |x0| ≤ 2 ^ 28) (hy0 : |y0| ≤ 2 ^ 28) (hx1 : |x1| ≤ 2 ^ 28)
    (hy1 : |y1| ≤ 2 ^ 28) (visit : Int → Int → σ → σ) {rest fuel : Nat}
    (hrest : k + rest = lineLength x0 y0 x1 y1) (hfuel : rest < fuel) (s : σ) :
    drawLineLoop visit (x1 - x0).natAbs (-(y1 - y0).natAbs) (lineSign x0 x1) (lineSign y0 y1)
        x1 y1 fuel (linePoint x0 y0 x1 y1 k).1 (linePoint x0 y0 x1 y1 k).2
        (lineErr (x1 - x0).natAbs (y1 - y0).natAbs k) s
      = some (((List.range' k (rest + 1)).map (linePoint x0 y0 x1 y1)).foldl
        (fun s p => visit p.1 p.2 s) s) := by
  induction rest generalizing k fuel s with
  | zero =>
      obtain ⟨fuel, rfl⟩ : ∃ n, fuel = n + 1 := ⟨fuel - 1, by omega⟩
      obtain rfl : k = lineLength x0 y0 x1 y1 := by omega
      rw [drawLineLoop, linePoint_last, if_pos ⟨rfl, rfl⟩]
      simp [linePoint_last]
  | succ rest ih =>
      obtain ⟨fuel, rfl⟩ : ∃ n, fuel = n + 1 := ⟨fuel - 1, by omega⟩
      have hk : k < lineLength x0 y0 x1 y1 := by omega
      have hshort : rest < fuel := by omega
      have hnext := ih (k := k + 1) (by omega) hshort
        (visit (linePoint x0 y0 x1 y1 k).1 (linePoint x0 y0 x1 y1 k).2 s)
      -- neither axis is walked beyond its end
      have hw : rounded (x1 - x0).natAbs (lineLength x0 y0 x1 y1) k ≤ (x1 - x0).natAbs :=
        (rounded_mono (Nat.le_of_lt hk)).trans_eq (rounded_self (by omega))
      have hd : rounded (y1 - y0).natAbs (lineLength x0 y0 x1 y1) k ≤ (y1 - y0).natAbs :=
        (rounded_mono (Nat.le_of_lt hk)).trans_eq (rounded_self (by omega))
      obtain ⟨hcolumn, hrow⟩ := lineErr_steps hk
      obtain ⟨hlo, hhi⟩ := lineErr_bounds hk
      have hwlen : (x1 - x0).natAbs ≤ 2 ^ 29 := by
        rw [abs_le] at hx0 hx1
        omega
      have hdlen : (y1 - y0).natAbs ≤ 2 ^ 29 := by
        rw [abs_le] at hy0 hy1
        omega
      rw [drawLineLoop_succ (linePoint_ne_last hk) (by unfold IsInt; omega)
        (lineAt_isInt hx0 hx1 hw) (lineAt_isInt hy0 hy1 hd) (by unfold IsInt; omega)
        (by unfold IsInt; omega) (by unfold IsInt; omega)]
      rw [List.range'_succ, List.map_cons, List.foldl_cons, ← hnext]
      congr 1
      · -- the column
        unfold linePoint lineLength
        dsimp only
        rw [hcolumn]
        split_ifs
        · rw [lineAt_succ]
        · rfl
      · -- the row
        unfold linePoint lineLength
        dsimp only
        rw [hrow]
        split_ifs
        · rw [lineAt_succ]
        · rfl
      · -- the error term
        conv_rhs => unfold lineErr
        rw [hcolumn, hrow]
        split_ifs
        all_goals
          unfold lineErr
          push_cast
          ring

/-- The loop visits the points of the line in order, and ends. -/
theorem drawLineWith_spec (hx0 : |x0| ≤ 2 ^ 28) (hy0 : |y0| ≤ 2 ^ 28) (hx1 : |x1| ≤ 2 ^ 28)
    (hy1 : |y1| ≤ 2 ^ 28) (visit : Int → Int → σ → σ) {fuel : Nat}
    (hfuel : (linePoints x0 y0 x1 y1).length ≤ fuel) (s : σ) :
    drawLineWith visit fuel x0 y0 x1 y1 s
      = some ((linePoints x0 y0 x1 y1).foldl (fun s p => visit p.1 p.2 s) s) := by
  rw [linePoints, List.length_map, List.length_range] at hfuel
  have hshort : lineLength x0 y0 x1 y1 < fuel := by omega
  have hloop := drawLineLoop_spec (k := 0) hx0 hy0 hx1 hy1 visit (Nat.zero_add _) hshort s
  rw [linePoint_zero, ← List.range_eq_range', ← linePoints] at hloop
  rw [abs_le] at hx0 hy0 hx1 hy1
  have habs : ∀ v : Int, -2 ^ 31 < v → IsInt v → absInt v = some (v.natAbs : Int) := by
    intro v hlow hv
    unfold absInt
    unfold IsInt at hv
    by_cases hneg : v < 0
    · rw [if_pos hneg, checked_of (by unfold IsInt; omega)]
      congr 1
      omega
    · rw [if_neg hneg]
      congr 1
      omega
  have hwidth : IsInt (x1 - x0) := by
    unfold IsInt
    omega
  have hheight : IsInt (y1 - y0) := by
    unfold IsInt
    omega
  have hdy : IsInt (-((y1 - y0).natAbs : Int)) := by
    unfold IsInt
    omega
  have herr : IsInt ((x1 - x0).natAbs + -((y1 - y0).natAbs : Int)) := by
    unfold IsInt
    omega
  have hfirst : lineErr (x1 - x0).natAbs (y1 - y0).natAbs 0
      = (x1 - x0).natAbs + -((y1 - y0).natAbs : Int) := by
    unfold lineErr
    rw [rounded_zero, rounded_zero]
    push_cast
    ring
  rw [hfirst] at hloop
  simp only [drawLineWith, checked_of hwidth, checked_of hheight, habs _ (by omega) hwidth,
    habs _ (by omega) hheight, Option.bind_eq_bind, Option.bind_some, checked_of hdy,
    checked_of herr]
  exact hloop

-- ============================================================= the line

/-- A walk along the line from `(x0, y0)` to `(x1, y1)`. -/
structure FollowsLine (x0 y0 x1 y1 : Int) (points : List (Int × Int)) : Prop where
  length : points.length = max (x1 - x0).natAbs (y1 - y0).natAbs + 1
  first : points.head? = some (x0, y0)
  last : points.getLast? = some (x1, y1)
  /-- a step is by one along the longer axis, by at most one along the other -/
  step : ∀ (k : Nat) (p q : Int × Int), points[k]? = some p → points[k + 1]? = some q →
    if |y1 - y0| ≤ |x1 - x0| then |q.1 - p.1| = 1 ∧ |q.2 - p.2| ≤ 1
    else |q.2 - p.2| = 1 ∧ |q.1 - p.1| ≤ 1
  /-- no point is more than one half from the line, along the shorter axis -/
  near : ∀ p ∈ points,
    if |y1 - y0| ≤ |x1 - x0| then
      |(p.2 : ℚ) - (y0 + (y1 - y0) * (p.1 - x0) / (x1 - x0))| ≤ 1 / 2
    else |(p.1 : ℚ) - (x0 + (x1 - x0) * (p.2 - y0) / (y1 - y0))| ≤ 1 / 2

theorem lineAt_step (a b : Int) (i : Nat) : |lineAt a b (i + 1) - lineAt a b i| = 1 := by
  rw [lineAt_succ, add_sub_cancel_left]
  exact abs_lineSign a b

/-- The other coordinate moves by at most one. -/
theorem lineAt_rounded_step {n : Nat} (a b : Int) (hn : 0 < n) (hlen : (b - a).natAbs ≤ n) :
    |lineAt a b (rounded (b - a).natAbs n (k + 1)) - lineAt a b (rounded (b - a).natAbs n k)|
      ≤ 1 := by
  rw [rounded_succ hn hlen]
  split_ifs
  · exact le_of_eq (lineAt_step a b _)
  · simp

/-- After `k` steps along one axis, the rounded place along the other. -/
theorem lineAt_near (a b c e : Int) (hn : 0 < (b - a).natAbs) :
    |(lineAt c e (rounded (e - c).natAbs (b - a).natAbs k) : ℚ)
        - (c + (e - c) * ((lineAt a b k : ℚ) - a) / (b - a))| ≤ 1 / 2 := by
  have hclose := rounded_close (a := (e - c).natAbs) (k := k) hn
  generalize rounded (e - c).natAbs (b - a).natAbs k = j at *
  have hcross : lineSign c e * j * (b - a) - (e - c) * (lineSign a b * k)
      = lineSign c e * lineSign a b * (j * (b - a).natAbs - k * (e - c).natAbs) := by
    conv_lhs => rw [← lineSign_mul a b, ← lineSign_mul c e]
    ring
  have hhalf : |2 * (lineSign c e * j * (b - a) - (e - c) * (lineSign a b * k))| ≤ |b - a| := by
    rw [hcross, mul_left_comm, abs_mul, abs_mul, abs_lineSign, abs_lineSign, Int.abs_eq_natAbs]
    simpa using hclose
  have h := abs_sub_div_le_half (by omega) hhalf
  unfold lineAt
  push_cast at h ⊢
  convert h using 2
  ring

theorem linePoints_get {p : Int × Int} :
    (linePoints x0 y0 x1 y1)[k]? = some p
      ↔ k ≤ lineLength x0 y0 x1 y1 ∧ linePoint x0 y0 x1 y1 k = p := by
  simp only [linePoints, List.getElem?_eq_some_iff, List.length_map, List.length_range,
    List.getElem_map, List.getElem_range, exists_prop, Nat.lt_succ_iff]

/-- One step along the longer axis, at most one along the other. -/
theorem linePoints_step {p q : Int × Int} (hp : (linePoints x0 y0 x1 y1)[k]? = some p)
    (hq : (linePoints x0 y0 x1 y1)[k + 1]? = some q) :
    if |y1 - y0| ≤ |x1 - x0| then |q.1 - p.1| = 1 ∧ |q.2 - p.2| ≤ 1
    else |q.2 - p.2| = 1 ∧ |q.1 - p.1| ≤ 1 := by
  obtain ⟨-, rfl⟩ := linePoints_get.mp hp
  obtain ⟨hk, rfl⟩ := linePoints_get.mp hq
  unfold linePoint
  unfold lineLength at *
  split_ifs with hle
  all_goals rw [Int.abs_eq_natAbs, Int.abs_eq_natAbs, Nat.cast_le] at hle
  · rw [Nat.max_eq_left hle] at *
    have hn : 0 < (x1 - x0).natAbs := by omega
    refine ⟨?_, lineAt_rounded_step y0 y1 hn hle⟩
    dsimp only
    rw [rounded_all hn, rounded_all hn, lineAt_step]
  · rw [Nat.max_eq_right (by omega)] at *
    have hn : 0 < (y1 - y0).natAbs := by omega
    refine ⟨?_, lineAt_rounded_step x0 x1 hn (by omega)⟩
    dsimp only
    rw [rounded_all hn, rounded_all hn, lineAt_step]

/-- Every point is within half a pixel of the line. -/
theorem linePoints_near {p : Int × Int} (hp : p ∈ linePoints x0 y0 x1 y1) :
    if |y1 - y0| ≤ |x1 - x0| then
      |(p.2 : ℚ) - (y0 + (y1 - y0) * (p.1 - x0) / (x1 - x0))| ≤ 1 / 2
    else |(p.1 : ℚ) - (x0 + (x1 - x0) * (p.2 - y0) / (y1 - y0))| ≤ 1 / 2 := by
  obtain ⟨k, hk⟩ := List.getElem?_of_mem hp
  obtain ⟨hlen, rfl⟩ := linePoints_get.mp hk
  rcases Nat.eq_zero_or_pos (lineLength x0 y0 x1 y1) with hzero | hpos
  · -- a single point
    obtain rfl : k = 0 := by omega
    have hx : x1 = x0 := by
      unfold lineLength at hzero
      omega
    have hy : y1 = y0 := by
      unfold lineLength at hzero
      omega
    rw [linePoint_zero, hx, hy]
    simp
  · unfold linePoint
    unfold lineLength at *
    split_ifs with hle
    all_goals rw [Int.abs_eq_natAbs, Int.abs_eq_natAbs, Nat.cast_le] at hle
    · rw [Nat.max_eq_left hle] at *
      dsimp only
      rw [rounded_all hpos]
      exact lineAt_near x0 x1 y0 y1 hpos
    · rw [Nat.max_eq_right (by omega)] at *
      dsimp only
      rw [rounded_all hpos]
      exact lineAt_near y0 y1 x0 x1 hpos

/-- The points follow the line from end to end. -/
theorem linePoints_follow (x0 y0 x1 y1 : Int) :
    FollowsLine x0 y0 x1 y1 (linePoints x0 y0 x1 y1) where
  length := by simp [linePoints, lineLength]
  first := by simp [linePoints, List.range_succ_eq_map, linePoint_zero]
  last := by simp [linePoints, List.range_succ, linePoint_last]
  step _ _ _ := linePoints_step
  near _ := linePoints_near

/-- `draw_line` visits the points of a walk along the line, and ends. -/
theorem draw_line_follows (x0 y0 x1 y1 : Int) (hx0 : |x0| ≤ 2 ^ 28) (hy0 : |y0| ≤ 2 ^ 28)
    (hx1 : |x1| ≤ 2 ^ 28) (hy1 : |y1| ≤ 2 ^ 28) :
    ∃ points, FollowsLine x0 y0 x1 y1 points
      ∧ (∀ (σ : Type) (visit : Int → Int → σ → σ) (fuel : Nat) (s : σ), points.length ≤ fuel →
        drawLineWith visit fuel x0 y0 x1 y1 s
          = some (points.foldl (fun s p => visit p.1 p.2 s) s))
      ∧ ∀ (f : Framebuffer) (color : BitVec 32) (fuel : Nat) (m : Mem), points.length ≤ fuel →
        drawLine f fuel x0 y0 x1 y1 color m
          = some (points.foldl
            (fun m p => drawPixel f (sizeOfInt p.1) (sizeOfInt p.2) color m) m) := by
  refine ⟨linePoints x0 y0 x1 y1, linePoints_follow x0 y0 x1 y1, ?_, ?_⟩
  · intro σ visit fuel s hfuel
    exact drawLineWith_spec hx0 hy0 hx1 hy1 visit hfuel s
  · intro f color fuel m hfuel
    exact drawLineWith_spec hx0 hy0 hx1 hy1 _ hfuel m

/-- A line of four points, to the left. -/
theorem draw_line_follows_left :
    drawLineWith (fun x y visited => visited ++ [(x, y)]) 4 0 0 (-3) 2 []
        = some [(0, 0), (-1, 1), (-2, 1), (-3, 2)]
      ∧ FollowsLine 0 0 (-3) 2 [(0, 0), (-1, 1), (-2, 1), (-3, 2)] := by
  have hrun : drawLineWith (fun x y visited => visited ++ [(x, y)]) 4 0 0 (-3) 2 []
      = some [(0, 0), (-1, 1), (-2, 1), (-3, 2)] := by rfl
  obtain ⟨points, hfollows, hvisit, -⟩ := draw_line_follows 0 0 (-3) 2 (by decide) (by decide)
    (by decide) (by decide)
  have hpoints := hvisit _ (fun x y visited => visited ++ [(x, y)]) 4 []
    (le_of_eq hfollows.length)
  rw [hrun, List.foldl_append_eq_append] at hpoints
  have heq : points = [(0, 0), (-1, 1), (-2, 1), (-3, 2)] := by
    simpa [← List.flatMap_def] using hpoints.symm
  exact ⟨hrun, heq ▸ hfollows⟩

end ZenithOS.Graphics
