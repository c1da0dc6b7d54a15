/-
Tilings: a region cut into tiles, each a header of `w` units followed by
its payload. A tile is free or in use.

`span` is the length of a run of tiles and `used` the payloads in use,
by address. Cutting a free tile in two or joining two free neighbours
moves boundaries but not the payloads in use, so the clients' view of a
tiling is `used`: `used_join`, `used_cut` and `used_coalesce` say that it
stays, `used_take` and `used_release` how it changes.
-/
import Mathlib.Data.List.Chain
import Mathlib.Data.List.Infix
import Mathlib.Data.List.Nodup

namespace ZenithOS.Lib

/-- A tile: its payload's length, and whether it is free. -/
structure Tile where
  size : Nat
  free : Bool
  deriving DecidableEq, Repr

variable (w : Nat)

/-- The length of a run of tiles, headers included. -/
def span : List Tile → Nat
  | [] => 0
  | t :: ts => w + t.size + span ts

/-- The payloads in use of the tiles from `a` on: address and length. -/
def used : Nat → List Tile → List (Nat × Nat)
  | _, [] => []
  | a, t :: ts =>
      (if t.free then [] else [(a + w, t.size)]) ++ used (a + w + t.size) ts

/-- Join neighbouring free tiles, from the left. -/
def coalesce : List Tile → List Tile
  | [] => []
  | [t] => [t]
  | t :: t' :: ts =>
      if t.free ∧ t'.free then coalesce (⟨t.size + w + t'.size, t.free⟩ :: ts)
      else t :: coalesce (t' :: ts)
  termination_by ts => ts.length

/-- The free space at the end: the last tile if it is free, header
included. -/
def tailRoom : List Tile → Nat
  | [] => 0
  | [t] => if t.free then w + t.size else 0
  | _ :: t :: ts => tailRoom (t :: ts)

variable {w} {a p n x : Nat} {t t' : Tile} {ts l r : List Tile}

-- ================================================================= lengths

@[simp] theorem span_append : span w (l ++ r) = span w l + span w r := by
  induction l with
  | nil => simp [span]
  | cons t l ih => simp only [List.cons_append, span, ih]; omega

/-- Every tile takes a header's room. -/
theorem length_mul_le_span (ts : List Tile) : w * ts.length ≤ span w ts := by
  induction ts with
  | nil => simp [span]
  | cons t ts ih =>
      rw [List.length_cons, Nat.mul_add, Nat.mul_one, span]
      omega

-- ======================================================== payloads in use

/-- The payloads in use of two parts. -/
theorem used_append : used w a (l ++ r) = used w a l ++ used w (a + span w l) r := by
  induction l generalizing a with
  | nil => simp [used, span]
  | cons t l ih =>
      rw [List.cons_append, used, used, ih, List.append_assoc, span]
      have hshift : a + w + t.size + span w l = a + (w + t.size + span w l) := by omega
      rw [hshift]

/-- A payload in use lies inside the run. -/
theorem used_bounds (h : (p, n) ∈ used w a ts) : a + w ≤ p ∧ p + n ≤ a + span w ts := by
  induction ts generalizing a with
  | nil => cases h
  | cons t ts ih =>
      rw [used, List.mem_append] at h
      rw [span]
      cases h with
      | inl hhead =>
          split_ifs at hhead
          · cases hhead
          · rw [List.mem_singleton, Prod.mk.injEq] at hhead
            omega
      | inr htail =>
          have hb := ih htail
          omega

/-- A payload in use is that of a tile. -/
theorem mem_used : (p, n) ∈ used w a ts
    ↔ ∃ l r, ts = l ++ ⟨n, false⟩ :: r ∧ p = a + span w l + w := by
  induction ts generalizing a with
  | nil => simp [used]
  | cons t ts ih =>
      rw [used, List.mem_append, ih]
      constructor
      · intro h
        cases h with
        | inl hhead =>
            split_ifs at hhead with hfree
            · cases hhead
            · rw [List.mem_singleton, Prod.mk.injEq] at hhead
              obtain ⟨rfl, rfl⟩ := hhead
              refine ⟨[], ts, ?_, by simp [span]⟩
              rw [List.nil_append, show t = ⟨t.size, false⟩ from by
                cases t; simpa using hfree]
        | inr htail =>
            obtain ⟨l, r, rfl, rfl⟩ := htail
            exact ⟨t :: l, r, rfl, by rw [span]; omega⟩
      · intro h
        obtain ⟨l, r, heq, rfl⟩ := h
        cases l with
        | nil =>
            obtain ⟨rfl, rfl⟩ := List.cons.inj heq
            exact .inl (by simp [span])
        | cons t' l =>
            obtain ⟨rfl, rfl⟩ := List.cons.inj heq
            exact .inr ⟨l, r, rfl, by rw [span]; omega⟩

/-- Two payloads in use are the same or apart. -/
theorem used_apart {u v : Nat × Nat} (hu : u ∈ used w a ts) (hv : v ∈ used w a ts) :
    u = v ∨ u.1 + u.2 + w ≤ v.1 ∨ v.1 + v.2 + w ≤ u.1 := by
  induction ts generalizing a with
  | nil => cases hu
  | cons t ts ih =>
      have hhead : ∀ u ∈ (if t.free then [] else [(a + w, t.size)]),
          u = (a + w, t.size) := by
        intro u hu
        split_ifs at hu
        · cases hu
        · exact List.mem_singleton.mp hu
      rw [used, List.mem_append] at hu hv
      cases hu with
      | inl hu =>
          cases hv with
          | inl hv => exact .inl ((hhead u hu).trans (hhead v hv).symm)
          | inr hv =>
              have hb := used_bounds (p := v.1) (n := v.2) hv
              rw [hhead u hu]
              exact .inr (.inl (by dsimp only; omega))
      | inr hu =>
          cases hv with
          | inl hv =>
              have hb := used_bounds (p := u.1) (n := u.2) hu
              rw [hhead v hv]
              exact .inr (.inr (by dsimp only; omega))
          | inr hv => exact ih hu hv

/-- The payloads in use have different addresses. -/
theorem used_nodup (hw : 0 < w) (a : Nat) (ts : List Tile) :
    ((used w a ts).map Prod.fst).Nodup := by
  induction ts generalizing a with
  | nil => exact List.nodup_nil
  | cons t ts ih =>
      rw [used]
      split_ifs
      · exact ih _
      · rw [List.singleton_append, List.map_cons, List.nodup_cons]
        refine ⟨?_, ih _⟩
        intro hmem
        obtain ⟨u, hu, heq⟩ := List.mem_map.mp hmem
        have hb := used_bounds (p := u.1) (n := u.2) hu
        dsimp only at heq
        omega

/-- A payload in use does not meet a tile's header. -/
theorem used_header_apart (h : (p, n) ∈ used w a (l ++ t :: r)) :
    p + n ≤ a + span w l ∨ a + span w l + w ≤ p := by
  rw [used_append, List.mem_append] at h
  cases h with
  | inl hl => exact .inl (used_bounds hl).2
  | inr hr => exact .inr (used_bounds hr).1

/-- Payloads lie in order. -/
theorem used_sorted (hw : 0 < w) (a : Nat) (ts : List Tile) :
    (used w a ts).Pairwise fun u v => u.1 < v.1 := by
  induction ts generalizing a with
  | nil => exact List.Pairwise.nil
  | cons t ts ih =>
      rw [used]
      split_ifs
      · exact ih _
      · rw [List.singleton_append, List.pairwise_cons]
        refine ⟨?_, ih _⟩
        intro v hv
        have hb := used_bounds (p := v.1) (n := v.2) hv
        dsimp only
        omega

/-- Payloads in use come by address: the same set is the same list. -/
theorem used_eq_of_mem_iff (hw : 0 < w) {us : List Tile}
    (h : ∀ u, u ∈ used w a ts ↔ u ∈ used w a us) : used w a ts = used w a us := by
  have hperm : (used w a ts).Perm (used w a us) :=
    (List.perm_ext_iff_of_nodup (used_nodup hw a ts).of_map (used_nodup hw a us).of_map).mpr h
  refine List.Perm.eq_of_pairwise ?_ (used_sorted hw a ts) (used_sorted hw a us) hperm
  intro u v _ _ huv hvu
  exact absurd (Nat.lt_trans huv hvu) (Nat.lt_irrefl _)

-- ============================================================== operations

/-- Joining free tiles uses nothing. -/
theorem used_join : used w a (l ++ ⟨n, true⟩ :: ⟨p, true⟩ :: r)
    = used w a (l ++ ⟨n + w + p, true⟩ :: r) := by
  rw [used_append, used_append]
  have hshift : a + span w l + w + n + w + p = a + span w l + w + (n + w + p) := by omega
  simp [used, hshift]

/-- Taking a tile adds its payload. -/
theorem used_take : used w a (l ++ ⟨n, false⟩ :: r)
    = used w a l ++ (a + span w l + w, n) :: used w (a + span w l + w + n) r := by
  rw [used_append]
  simp [used]

/-- Releasing a tile takes its payload away. -/
theorem used_release : used w a (l ++ ⟨n, true⟩ :: r)
    = used w a l ++ used w (a + span w l + w + n) r := by
  rw [used_append]
  simp [used]

/-- Joining two tiles keeps the span. -/
theorem span_join (l r : List Tile) (n p : Nat) (f g h : Bool) :
    span w (l ++ ⟨n, f⟩ :: ⟨p, g⟩ :: r) = span w (l ++ ⟨n + w + p, h⟩ :: r) := by
  simp only [span_append, span]
  omega

theorem coalesce_cons_free (n p : Nat) (ts : List Tile) :
    coalesce w (⟨n, true⟩ :: ⟨p, true⟩ :: ts) = coalesce w (⟨n + w + p, true⟩ :: ts) := by
  rw [coalesce, if_pos ⟨rfl, rfl⟩]

theorem coalesce_cons_stop (t t' : Tile) (ts : List Tile) (h : ¬ (t.free ∧ t'.free)) :
    coalesce w (t :: t' :: ts) = t :: coalesce w (t' :: ts) := by
  rw [coalesce, if_neg h]

/-- Coalescing keeps the payloads in use. -/
theorem used_coalesce (a : Nat) (ts : List Tile) :
    used w a (coalesce w ts) = used w a ts ∧ span w (coalesce w ts) = span w ts := by
  induction ts using coalesce.induct (w := w) generalizing a with
  | case1 => simp [coalesce]
  | case2 t => simp [coalesce]
  | case3 t t' ts h ih =>
      obtain ⟨n, f⟩ := t
      obtain ⟨p, g⟩ := t'
      obtain ⟨rfl, rfl⟩ : f = true ∧ g = true := h
      rw [coalesce_cons_free]
      exact ⟨(ih a).1.trans (used_join (l := [])).symm,
        (ih a).2.trans (span_join [] ts n p true true true).symm⟩
  | case4 t t' ts h ih =>
      rw [coalesce_cons_stop t t' ts h, used, used, span, span, (ih _).1, (ih a).2]
      exact ⟨rfl, rfl⟩

/-- What holds of lengths, and is kept by joining, holds after
coalescing. -/
theorem forall_coalesce {P : Nat → Prop} (hjoin : ∀ n p, P n → P p → P (n + w + p))
    (ts : List Tile) (h : ∀ t ∈ ts, P t.size) : ∀ t ∈ coalesce w ts, P t.size := by
  induction ts using coalesce.induct (w := w) with
  | case1 => simp [coalesce]
  | case2 t => simpa [coalesce] using h
  | case3 t t' ts hfree ih =>
      rw [coalesce, if_pos hfree]
      apply ih
      intro u hu
      cases List.mem_cons.mp hu with
      | inl heq =>
          rw [heq]
          exact hjoin _ _ (h t (by simp)) (h t' (by simp))
      | inr hmem => exact h u (by simp [hmem])
  | case4 t t' ts hfree ih =>
      rw [coalesce, if_neg hfree]
      intro u hu
      cases List.mem_cons.mp hu with
      | inl heq => exact heq ▸ h t (by simp)
      | inr hmem => exact ih (fun v hv => h v (List.mem_cons_of_mem t hv)) u hmem

theorem coalesce_ne_nil (h : ts ≠ []) : coalesce w ts ≠ [] := by
  induction ts using coalesce.induct (w := w) with
  | case1 => exact absurd rfl h
  | case2 t => simp [coalesce]
  | case3 t t' ts hfree ih =>
      rw [coalesce, if_pos hfree]
      exact ih (by simp)
  | case4 t t' ts hfree ih =>
      rw [coalesce, if_neg hfree]
      simp

/-- The room at the end is that of the last tile. -/
theorem tailRoom_snoc (l : List Tile) (t : Tile) :
    tailRoom w (l ++ [t]) = if t.free then w + t.size else 0 := by
  induction l with
  | nil => rfl
  | cons u l ih =>
      cases l with
      | nil => rfl
      | cons u' l => exact ih

/-- Coalescing loses no free space at the end. -/
theorem tailRoom_coalesce (ts : List Tile) : tailRoom w ts ≤ tailRoom w (coalesce w ts) := by
  induction ts using coalesce.induct (w := w) with
  | case1 => simp [coalesce]
  | case2 t => simp [coalesce]
  | case3 t t' ts hfree ih =>
      rw [coalesce, if_pos hfree]
      refine Nat.le_trans ?_ ih
      cases ts with
      | nil =>
          simp only [tailRoom, hfree.1, hfree.2, if_true]
          omega
      | cons u ts => exact Nat.le_refl _
  | case4 t t' ts hfree ih =>
      rw [coalesce_cons_stop t t' ts hfree]
      obtain ⟨u, us, heq⟩ := List.exists_cons_of_ne_nil
        (coalesce_ne_nil (w := w) (List.cons_ne_nil t' ts))
      rw [heq] at ih ⊢
      exact ih

/-- Enough free space at the end is a free tile that fits. -/
theorem exists_fit_of_tailRoom (h : n + w ≤ tailRoom w ts) (hpos : 0 < n + w) :
    ∃ t ∈ ts, t.free = true ∧ n ≤ t.size := by
  induction ts with
  | nil =>
      rw [tailRoom] at h
      omega
  | cons t ts ih =>
      cases ts with
      | nil =>
          rw [tailRoom] at h
          split_ifs at h with hfree
          · exact ⟨t, by simp, hfree, by omega⟩
          · omega
      | cons u ts =>
          obtain ⟨t', ht', hfit⟩ := ih h
          exact ⟨t', List.mem_cons_of_mem t ht', hfit⟩

-- ================================================================ canonical

/-- No two neighbours are both free. -/
def Canonical (ts : List Tile) : Prop :=
  ts.IsChain fun t t' => ¬ (t.free = true ∧ t'.free = true)

theorem canonical_cons :
    Canonical (t :: ts) ↔ (∀ t' ∈ ts.head?, ¬ (t.free = true ∧ t'.free = true)) ∧ Canonical ts :=
  List.isChain_cons

/-- Two canonical parts are one where no free tiles meet. -/
theorem canonical_append : Canonical (l ++ r) ↔ Canonical l ∧ Canonical r
    ∧ ∀ t ∈ l.getLast?, ∀ t' ∈ r.head?, ¬ (t.free = true ∧ t'.free = true) :=
  List.isChain_append

theorem Canonical.left (h : Canonical (l ++ r)) : Canonical l := (canonical_append.mp h).1

theorem Canonical.right (h : Canonical (l ++ r)) : Canonical r := (canonical_append.mp h).2.1

/-- What follows a free tile is in use. -/
theorem Canonical.free_cons (h : Canonical (⟨n, true⟩ :: ts)) :
    ts = [] ∨ ∃ k r, ts = ⟨k, false⟩ :: r := by
  cases ts with
  | nil => exact .inl rfl
  | cons t ts =>
      obtain ⟨k, f⟩ := t
      have hlink := (canonical_cons.mp h).1 ⟨k, f⟩ rfl
      cases f with
      | false => exact .inr ⟨k, ts, rfl⟩
      | true => exact absurd ⟨rfl, rfl⟩ hlink

/-- Only the flags matter at the front. -/
theorem Canonical.resize (h : Canonical (⟨n, true⟩ :: ts)) (f : Bool) :
    Canonical (⟨p, f⟩ :: ts) := by
  rw [canonical_cons] at h ⊢
  refine ⟨?_, h.2⟩
  intro t' ht' hboth
  exact h.1 t' ht' ⟨rfl, hboth.2⟩

/-- A free tile becomes one in use. -/
theorem Canonical.take (h : Canonical (l ++ ⟨n, true⟩ :: r)) :
    Canonical (l ++ ⟨p, false⟩ :: r) := by
  obtain ⟨hl, hr, -⟩ := canonical_append.mp h
  refine canonical_append.mpr ⟨hl, hr.resize false, ?_⟩
  intro t _ t' ht' hboth
  obtain rfl : ⟨p, false⟩ = t' := Option.some.inj ht'
  cases hboth.2

/-- A free tile is cut in two and the first part taken. -/
theorem Canonical.cut (h : Canonical (l ++ ⟨n, true⟩ :: r)) {k : Nat} :
    Canonical (l ++ ⟨p, false⟩ :: ⟨k, true⟩ :: r) := by
  have htake := h.take (p := p)
  obtain ⟨hl, hr, hlink⟩ := canonical_append.mp htake
  refine canonical_append.mpr ⟨hl, ?_, hlink⟩
  refine canonical_cons.mpr ⟨?_, h.right.resize true⟩
  intro t' _ hboth
  cases hboth.1

/-- A tile next to one in use may become free. -/
theorem Canonical.snoc_free (h : Canonical (l ++ [⟨n, false⟩])) :
    Canonical (l ++ [⟨n, false⟩, ⟨p, true⟩]) := by
  obtain ⟨hl, -, hlink⟩ := canonical_append.mp h
  refine canonical_append.mpr ⟨hl, ?_, hlink⟩
  refine canonical_cons.mpr ⟨?_, List.isChain_singleton _⟩
  intro t' _ hboth
  cases hboth.1

/-- The size of a free last tile does not matter. -/
theorem Canonical.snoc_resize (h : Canonical (l ++ [⟨n, true⟩])) :
    Canonical (l ++ [⟨p, true⟩]) := by
  obtain ⟨hl, -, hlink⟩ := canonical_append.mp h
  refine canonical_append.mpr ⟨hl, List.isChain_singleton _, ?_⟩
  intro t ht t' ht' hboth
  exact hlink t ht ⟨n, true⟩ rfl ⟨hboth.1, rfl⟩

/-- The free tile `⟨n, true⟩` after a canonical run with no free tile at
its end. -/
theorem Canonical.join (hl : Canonical l) (hr : Canonical (⟨n, true⟩ :: r))
    (hlast : ∀ t ∈ l.getLast?, t.free = false) : Canonical (l ++ ⟨n, true⟩ :: r) := by
  refine canonical_append.mpr ⟨hl, hr, ?_⟩
  intro t ht t' _ hboth
  rw [hlast t ht] at hboth
  cases hboth.1

/-- The first tile stays free or in use. -/
theorem coalesce_head (t : Tile) (ts : List Tile) :
    ∃ n us, coalesce w (t :: ts) = ⟨n, t.free⟩ :: us := by
  induction ts generalizing t with
  | nil => exact ⟨t.size, [], by rw [coalesce]⟩
  | cons t' ts ih =>
      rw [coalesce]
      split_ifs with hfree
      · exact ih ⟨t.size + w + t'.size, t.free⟩
      · exact ⟨t.size, _, rfl⟩

/-- After coalescing no two free tiles meet. -/
theorem canonical_coalesce (ts : List Tile) : Canonical (coalesce w ts) := by
  induction ts using coalesce.induct (w := w) with
  | case1 =>
      rw [coalesce]
      exact List.isChain_nil
  | case2 t =>
      rw [coalesce]
      exact List.isChain_singleton t
  | case3 t t' ts hfree ih =>
      rw [coalesce, if_pos hfree]
      exact ih
  | case4 t t' ts hfree ih =>
      obtain ⟨n, us, heq⟩ := coalesce_head (w := w) t' ts
      rw [coalesce, if_neg hfree]
      refine canonical_cons.mpr ⟨?_, ih⟩
      intro u hu
      rw [heq] at hu
      obtain rfl : ⟨n, t'.free⟩ = u := Option.some.inj hu
      exact hfree

theorem span_eq_zero (hw : 0 < w) (h : span w ts = 0) : ts = [] := by
  cases ts with
  | nil => rfl
  | cons t ts =>
      rw [span] at h
      omega

theorem used_cons_free (n : Nat) (ts : List Tile) :
    used w a (⟨n, true⟩ :: ts) = used w (a + w + n) ts := by
  rw [used, if_pos rfl, List.nil_append]

theorem used_cons_taken (n : Nat) (ts : List Tile) :
    used w a (⟨n, false⟩ :: ts) = (a + w, n) :: used w (a + w + n) ts := by
  rw [used, if_neg Bool.false_ne_true, List.singleton_append]

/-- A first tile in use is seen. -/
theorem used_ne_of_free (hw : 0 < w) (k : Nat) (us : List Tile) :
    used w a (⟨n, false⟩ :: ts) ≠ used w a (⟨k, true⟩ :: us) := by
  intro heq
  rw [used_cons_taken, used_cons_free] at heq
  have hmem : (a + w, n) ∈ used w (a + w + k) us := by
    rw [← heq]
    exact List.mem_cons_self
  have hb := used_bounds hmem
  omega

/-- A canonical tiling is determined by its extent and its payloads in
use. -/
theorem Canonical.unique (hw : 0 < w) {us : List Tile} (h : Canonical ts) (h' : Canonical us)
    (hspan : span w ts = span w us) (hused : used w a ts = used w a us) : ts = us := by
  induction ts generalizing a us with
  | nil => exact (span_eq_zero hw hspan.symm).symm
  | cons t ts ih =>
      obtain ⟨n, f⟩ := t
      cases us with
      | nil => exact absurd (span_eq_zero hw hspan) (List.cons_ne_nil _ ts)
      | cons u us =>
          obtain ⟨k, g⟩ := u
          have htail := (canonical_cons.mp h).2
          have htail' := (canonical_cons.mp h').2
          cases f with
          | false =>
              cases g with
              | true => exact absurd hused (used_ne_of_free hw k us)
              | false =>
                  rw [used_cons_taken, used_cons_taken] at hused
                  injection hused with hhead hrest
                  injection hhead with _ hsize
                  subst hsize
                  simp only [span] at hspan
                  rw [ih htail htail' (by omega) hrest]
          | true =>
              cases g with
              | false => exact absurd hused.symm (used_ne_of_free hw n ts)
              | true =>
                  -- the next tile in use, or the end, fixes the size
                  have hsize : n = k := by
                    rw [used_cons_free, used_cons_free] at hused
                    simp only [span] at hspan
                    rcases h.free_cons with rfl | ⟨n', r, rfl⟩
                    · rcases h'.free_cons with rfl | ⟨k', r', rfl⟩
                      · simp only [span] at hspan
                        omega
                      · rw [used_cons_taken] at hused
                        cases hused
                    · rcases h'.free_cons with rfl | ⟨k', r', rfl⟩
                      · rw [used_cons_taken] at hused
                        cases hused
                      · rw [used_cons_taken, used_cons_taken] at hused
                        injection hused with hhead _
                        injection hhead with haddr _
                        omega
                  subst hsize
                  rw [used_cons_free, used_cons_free] at hused
                  simp only [span] at hspan
                  rw [ih htail htail' (by omega) hused]

/-- With nothing in use it is one free tile. -/
theorem Canonical.eq_single (h : Canonical ts) (hne : ts ≠ []) (hused : used w a ts = []) :
    ts = [⟨span w ts - w, true⟩] := by
  cases ts with
  | nil => exact absurd rfl hne
  | cons t ts =>
      obtain ⟨n, f⟩ := t
      cases f with
      | false =>
          rw [used_cons_taken] at hused
          cases hused
      | true =>
          rcases h.free_cons with rfl | ⟨k, r, rfl⟩
          · have hsize : span w [⟨n, true⟩] - w = n := by
              simp only [span]
              omega
            rw [hsize]
          · rw [used_cons_free, used_cons_taken] at hused
            cases hused

-- ============================================================== client view

/-- `x` is outside the run, or in a payload in use. -/
def Untouched (w a : Nat) (ts : List Tile) (x : Nat) : Prop :=
  x < a ∨ a + span w ts ≤ x ∨ ∃ u ∈ used w a ts, u.1 ≤ x ∧ x < u.1 + u.2

/-- What is untouched depends on the span and the payloads. -/
theorem Untouched.of_eq (hspan : span w r = span w l) (hused : used w a r = used w a l)
    (h : Untouched w a l x) : Untouched w a r x := by
  unfold Untouched at h ⊢
  rw [hspan, hused]
  exact h

/-- What the tiles of a run's end leave alone. -/
theorem Untouched.suffix (h : Untouched w a (l ++ r) x) :
    Untouched w (a + span w l) r x := by
  rcases h with hlt | hge | ⟨u, hu, hlo, hhi⟩
  · exact .inl (by omega)
  · rw [span_append] at hge
    exact .inr (.inl (by omega))
  · rw [used_append, List.mem_append] at hu
    cases hu with
    | inl hl =>
        have hb := used_bounds (p := u.1) (n := u.2) hl
        exact .inl (by omega)
    | inr hr => exact .inr (.inr ⟨u, hr, hlo, hhi⟩)

theorem Untouched.tail (h : Untouched w a (t :: ts) x) :
    Untouched w (a + w + t.size) ts x := by
  have hsuffix := Untouched.suffix (l := [t]) h
  rwa [show a + span w [t] = a + w + t.size by simp only [span]; omega] at hsuffix

/-- No header is. -/
theorem not_untouched_header (hlo : a + span w l ≤ x) (hhi : x < a + span w l + w) :
    ¬ Untouched w a (l ++ t :: r) x := by
  intro h
  rcases h with hlt | hge | ⟨u, hu, hlo', hhi'⟩
  · omega
  · rw [span_append, span] at hge
    omega
  · rw [used_append, List.mem_append, used, List.mem_append] at hu
    obtain ⟨p, n⟩ := u
    rcases hu with hl | hhead | htail
    · have hb := used_bounds hl
      dsimp only at hlo' hhi'
      omega
    · split_ifs at hhead
      · cases hhead
      · rw [List.mem_singleton, Prod.mk.injEq] at hhead
        dsimp only at hlo' hhi'
        omega
    · have hb := used_bounds htail
      dsimp only at hlo' hhi'
      omega

/-- Nor is the payload of a free tile. -/
theorem not_untouched_free (hlo : a + span w l ≤ x)
    (hhi : x < a + span w l + w + n) : ¬ Untouched w a (l ++ ⟨n, true⟩ :: r) x := by
  intro h
  rcases h with hlt | hge | ⟨u, hu, hlo', hhi'⟩
  · omega
  · rw [span_append, span] at hge
    dsimp only at hge
    omega
  · rw [used_release, List.mem_append] at hu
    obtain ⟨p, m⟩ := u
    dsimp only at hlo' hhi'
    cases hu with
    | inl hl =>
        have hb := used_bounds hl
        omega
    | inr hr =>
        have hb := used_bounds hr
        omega

end ZenithOS.Lib
