/-
Whether `kprintf` stops.

One round goes past one character or one directive (`kprintfBody_cases`).
A directive of which the format has only the beginning is completed with
the terminating NUL, and the next round reads behind the array. So the
loop ends on the formats that are `Whole`, and on no other.
-/
import ZenithOS.Stdio.Printf

namespace ZenithOS.Stdio

open Lib Klib

variable {args : VaList} {c : Byte} {rest fmt : List Byte} {s s' r : Printf} {m n : Nat}

-- =============================================================== rounds

@[simp] theorem took_fmt (str rest : List Byte) (s : Printf) : (took str rest s).fmt = rest := rfl
@[simp] theorem literal_fmt (c : Byte) (rest : List Byte) (s : Printf) :
    (literal c rest s).fmt = rest := rfl

@[simp] theorem shortDirective_fmt (args : VaList) (c : Byte) (rest : List Byte) (s : Printf) :
    (shortDirective args c rest s).fmt = rest := by
  unfold shortDirective
  dsimp only
  split_ifs <;> rfl

/-- Behind `%l` one character is gone past. -/
theorem longTail_cases (h : longTail args fmt s = some s') : ∃ c, fmt = c :: s'.fmt := by
  cases fmt with
  | nil => cases h
  | cons c rest =>
      refine ⟨c, ?_⟩
      unfold longTail at h
      dsimp only at h
      split_ifs at h <;> · cases h; simp

/-- Behind `%l` any character will do. -/
theorem longTail_isSome (c : Byte) (rest : List Byte) (s : Printf) :
    ∃ s', longTail args (c :: rest) s = some s' ∧ s'.fmt = rest := by
  unfold longTail
  dsimp only
  split_ifs <;> exact ⟨_, rfl, by simp⟩

/-- What one round goes past: a character or a directive. -/
inductive Lexeme : List Byte → Prop
  | char {c : Byte} (hc : c ≠ percent) : Lexeme [c]
  | short {c : Byte} (hc : c ≠ charL) : Lexeme [percent, c]
  | long {c : Byte} (hc : c ≠ charL) : Lexeme [percent, charL, c]
  | longLong (c : Byte) : Lexeme [percent, charL, charL, c]

theorem Lexeme.ne_nil {l : List Byte} (h : Lexeme l) : l ≠ [] := by
  cases h <;> simp

/-- What is gone past behind `%`. -/
theorem directive_cases (h : directive args fmt s = some s') :
    ∃ l, Lexeme (percent :: l) ∧ fmt = l ++ s'.fmt := by
  cases fmt with
  | nil => cases h
  | cons c rest =>
      unfold directive at h
      dsimp only at h
      by_cases hl : c = charL
      · rw [if_neg (by rw [hl]; decide), if_neg (by rw [hl]; decide), if_neg (by rw [hl]; decide),
          if_pos hl] at h
        cases rest with
        | nil => cases h
        | cons d rest =>
            unfold longDirective at h
            dsimp only at h
            by_cases hll : d = charL
            · rw [if_pos hll] at h
              obtain ⟨e, he⟩ := longTail_cases h
              exact ⟨[charL, charL, e], .longLong e, by rw [hl, hll, he]; rfl⟩
            · rw [if_neg hll] at h
              obtain ⟨e, he⟩ := longTail_cases h
              obtain ⟨hde, hrest⟩ := List.cons.inj he
              exact ⟨[charL, d], .long hll, by rw [hl, hrest]; rfl⟩
      · have hfmt : s'.fmt = rest := by
          split_ifs at h <;> · cases h; simp
        exact ⟨[c], .short hl, by rw [hfmt]; rfl⟩

/-- One round goes past a character or a directive. -/
theorem kprintfBody_cases (h : kprintfBody args c rest s = some s') :
    ∃ l, Lexeme l ∧ c :: rest = l ++ s'.fmt := by
  unfold kprintfBody at h
  by_cases hc : c = percent
  · rw [if_pos hc] at h
    obtain ⟨l, hl, hrest⟩ := directive_cases h
    exact ⟨percent :: l, hl, by rw [hc, hrest]; rfl⟩
  · rw [if_neg hc] at h
    cases h
    exact ⟨[c], .char hc, rfl⟩

/-- Where a character or a directive stands there is a round. -/
theorem kprintfBody_of_lexeme (args : VaList) {l : List Byte} (h : Lexeme l)
    (hrest : c :: rest = l ++ fmt) (s : Printf) :
    ∃ s', kprintfBody args c rest s = some s' ∧ s'.fmt = fmt := by
  unfold kprintfBody
  cases h with
  | char hc =>
      obtain ⟨rfl, rfl⟩ := List.cons.inj hrest
      rw [if_neg hc]
      exact ⟨_, rfl, rfl⟩
  | short hc =>
      obtain ⟨rfl, rfl⟩ := List.cons.inj hrest
      rw [if_pos rfl]
      change ∃ s', directive args (_ :: fmt) s = some s' ∧ _
      unfold directive
      dsimp only
      rw [if_neg hc]
      split_ifs <;> exact ⟨_, rfl, by simp⟩
  | long hc =>
      obtain ⟨rfl, rfl⟩ := List.cons.inj hrest
      rw [if_pos rfl]
      change ∃ s', longDirective args (_ :: fmt) s = some s' ∧ _
      unfold longDirective
      dsimp only
      rw [if_neg hc]
      exact longTail_isSome _ _ s
  | longLong d =>
      obtain ⟨rfl, rfl⟩ := List.cons.inj hrest
      rw [if_pos rfl]
      exact longTail_isSome _ _ s

-- ================================================================ loop

/-- The loop comes to its end. -/
def Returns (args : VaList) (s r : Printf) : Prop := ∃ rounds, kprintfLoop args rounds s = some r

/-- At the NUL the loop ends. -/
theorem returns_end (hfmt : s.fmt = 0#8 :: rest) : Returns args s s := by
  refine ⟨1, ?_⟩
  unfold kprintfLoop
  rw [hfmt]
  rfl

/-- One round, and the rest. -/
theorem Returns.round (hfmt : s.fmt = c :: rest) (hc : c ≠ 0#8)
    (hbody : kprintfBody args c rest s = some s') (h : Returns args s' r) : Returns args s r := by
  obtain ⟨rounds, hrounds⟩ := h
  refine ⟨rounds + 1, ?_⟩
  unfold kprintfLoop
  rw [hfmt]
  dsimp only
  rw [if_neg hc, hbody]
  exact hrounds

/-- A loop that comes to its end is at its end or makes a round. -/
theorem Returns.cases (h : Returns args s r) :
    (∃ rest, s.fmt = 0#8 :: rest ∧ r = s) ∨
      ∃ c rest s', s.fmt = c :: rest ∧ c ≠ 0#8 ∧ kprintfBody args c rest s = some s' ∧
        Returns args s' r := by
  obtain ⟨rounds, hrounds⟩ := h
  cases rounds with
  | zero => cases hrounds
  | succ rounds =>
      unfold kprintfLoop at hrounds
      cases hfmt : s.fmt with
      | nil => rw [hfmt] at hrounds; cases hrounds
      | cons c rest =>
          rw [hfmt] at hrounds
          dsimp only at hrounds
          by_cases hc : c = 0#8
          · rw [if_pos hc] at hrounds
            exact .inl ⟨rest, by rw [hc], (Option.some.inj hrounds).symm⟩
          · rw [if_neg hc] at hrounds
            obtain ⟨s', hbody, hloop⟩ := Option.bind_eq_some_iff.mp hrounds
            exact .inr ⟨c, rest, s', rfl, hc, hbody, rounds, hloop⟩

theorem Returns.fmt_ne_nil (h : Returns args s r) : s.fmt ≠ [] := by
  rcases h.cases with ⟨rest, hfmt, -⟩ | ⟨c, rest, -, hfmt, -⟩
  · simp [hfmt]
  · simp [hfmt]

/-- A call returns one thing. -/
theorem Returns.unique {r' : Printf} (h : Returns args s r) (h' : Returns args s r') : r = r' := by
  obtain ⟨rounds, hrounds⟩ := h
  induction rounds generalizing s with
  | zero => cases hrounds
  | succ rounds ih =>
      rcases h'.cases with ⟨rest, hfmt, rfl⟩ | ⟨c, rest, s', hfmt, hc, hbody, hloop⟩
      · unfold kprintfLoop at hrounds
        rw [hfmt] at hrounds
        exact (Option.some.inj hrounds).symm
      · unfold kprintfLoop at hrounds
        rw [hfmt] at hrounds
        dsimp only at hrounds
        rw [if_neg hc, hbody] at hrounds
        exact ih hloop hrounds

-- ============================================================= stopping

/-- A format that has no directive cut off by its end: at most two `l`s
and then one character stand behind a `%`. -/
inductive Whole : List Byte → Prop
  | nil : Whole []
  | append {l fmt : List Byte} (hl : Lexeme l) (h : Whole fmt) : Whole (l ++ fmt)

/-- A format that is whole ends. -/
theorem Whole.returns (h : Whole fmt) (args : VaList) (hnul : 0#8 ∉ fmt)
    (hfmt : s.fmt = fmt ++ [0#8]) :
    ∃ r, Returns args s r := by
  induction h generalizing s with
  | nil => exact ⟨s, returns_end hfmt⟩
  | @append l fmt hl h ih =>
      rw [List.append_assoc] at hfmt
      obtain ⟨c, l', rfl⟩ := List.exists_cons_of_ne_nil hl.ne_nil
      obtain ⟨s', hbody, hs'⟩ := kprintfBody_of_lexeme args hl (List.cons_append ..) s
      obtain ⟨r, hr⟩ := ih (fun hmem => hnul (List.mem_append_right _ hmem)) hs'
      have hc : c ≠ 0#8 := by
        rintro rfl
        exact hnul List.mem_cons_self
      exact ⟨r, hr.round hfmt hc hbody⟩

/-- Only such a format does within its array. -/
theorem Returns.whole (h : Returns args s r) (hnul : 0#8 ∉ fmt) (hfmt : s.fmt = fmt ++ [0#8]) :
    Whole fmt := by
  obtain ⟨rounds, hrounds⟩ := h
  induction rounds generalizing s fmt with
  | zero => cases hrounds
  | succ rounds ih =>
      cases fmt with
      | nil => exact .nil
      | cons c fmt =>
          have hc : c ≠ 0#8 := by
            rintro rfl
            exact hnul List.mem_cons_self
          unfold kprintfLoop at hrounds
          rw [hfmt] at hrounds
          dsimp only [List.cons_append] at hrounds
          rw [if_neg hc] at hrounds
          obtain ⟨s', hbody, hloop⟩ := Option.bind_eq_some_iff.mp hrounds
          obtain ⟨l, hl, hsplit⟩ := kprintfBody_cases hbody
          rcases List.eq_nil_or_concat s'.fmt with hend | ⟨x, y, hx⟩
          · -- The round went past the NUL: the next one reads behind it.
            exact absurd hend (Returns.fmt_ne_nil ⟨rounds, hloop⟩)
          · rw [hx, List.concat_eq_append, ← List.append_assoc, ← List.cons_append] at hsplit
            obtain ⟨hfmt', hy⟩ := List.append_inj' hsplit rfl
            have hy := (List.singleton_inj.mp hy).symm
            rw [hfmt'] at hnul ⊢
            refine .append hl (ih (fun hmem => hnul (List.mem_append_right _ hmem)) ?_ hloop)
            rw [hx, hy, List.concat_eq_append]

/-- `kprintf` comes to the end of its format without reading behind its
NUL exactly when no directive is cut off. -/
theorem kprintf_stops_iff (args : VaList) (hnul : 0#8 ∉ fmt) :
    (∃ rounds s, kprintf args fmt rounds = some s) ↔ Whole fmt := by
  constructor
  · rintro ⟨rounds, s, h⟩
    exact Returns.whole ⟨rounds, h⟩ hnul rfl
  · intro h
    obtain ⟨r, rounds, hr⟩ := h.returns args (s := ⟨fmt ++ [0#8], 0, []⟩) hnul rfl
    exact ⟨rounds, r, hr⟩

/-- Arguments that are all `v`. -/
def sameArgs (v : BitVec 64) : VaList := ⟨fun _ => v, fun _ => [], stackBuffer⟩

/-- "n%u%llx" is whole, and printed to its end. -/
theorem kprintf_stops_iff_directive :
    ∃ rounds s, kprintf (sameArgs 5#64) [110#8, percent, charU, percent, charL, charL, charX] rounds
      = some s :=
  (kprintf_stops_iff (sameArgs 5#64) (by decide)).mpr
    (.append (.char (by decide)) (.append (.short (by decide)) (.append (.longLong charX) .nil)))

/-- "%" is not: the loop reads behind the NUL. -/
theorem kprintf_reads_past_nul :
    ¬ ∀ (args : VaList) (fmt : List Byte), 0#8 ∉ fmt →
      ∃ rounds s, kprintf args fmt rounds = some s := by
  intro h
  obtain ⟨rounds, s, hs⟩ := h (sameArgs 0#64) [percent] (by decide)
  rcases Returns.cases ⟨rounds, hs⟩ with ⟨rest, hfmt, -⟩ | ⟨c, rest, s', hfmt, -, hbody, hloop⟩
  · simp [percent] at hfmt
  · obtain ⟨rfl, rfl⟩ := List.cons.inj hfmt
    cases hbody
    exact hloop.fmt_ne_nil rfl

end ZenithOS.Stdio
