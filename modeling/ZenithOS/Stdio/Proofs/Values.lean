/-
What `kprintf` prints for the values it is given.

# Formats

A format of literal text and integer directives is a list of `Piece`s:
`spell` is the format string, `expected` the text it stands for, each
directive replaced by the numeral of its own argument.

# What is printed instead

A directive with a width is printed as it stands, and its argument is
left to the next directive. Without widths the arguments are the right
ones, but `%lu` and `%llu` lose digits: they read half of their argument.
What is printed for a piece is then never longer than what is expected
(`printed_length_le`), which is why two differences cannot make up for
each other and the condition of `kprintf_prints_iff` is exact.

What `%d` prints for the most negative number C does not say. The results
are about values for which it does (`Defined`).
-/
import ZenithOS.Stdio.Proofs.Printf

namespace ZenithOS.Stdio

open Lib Klib

-- ============================================================== formats

/-- The integer directives. -/
inductive Conv
  | d | u | x | lx | llx | lu | llu | p
  deriving DecidableEq, Repr

/-- The directive behind its `%` and width. -/
def Conv.spell : Conv → List Byte
  | d => [charD]
  | u => [charU]
  | x => [charX]
  | lx => [charL, charX]
  | llx => [charL, charL, charX]
  | lu => [charL, charU]
  | llu => [charL, charL, charU]
  | p => [charP]

/-- A literal character, or a directive with a width to be filled with
zeros. -/
inductive Piece
  | text (c : Byte)
  | conv (width : Option Nat) (k : Conv)
  deriving DecidableEq, Repr

/-- `'0'`. -/
def zeroChar : Byte := 48#8

/-- The flag and the width. -/
def spellWidth : Option Nat → List Byte
  | none => []
  | some w => zeroChar :: decimal w

/-- The piece as it stands in a format. -/
def Piece.spell : Piece → List Byte
  | text c => [c]
  | conv width k => percent :: (spellWidth width ++ k.spell)

/-- The format of the pieces. -/
def spell (ps : List Piece) : List Byte := ps.flatMap Piece.spell

/-- Literal text has no `%` and no NUL. -/
def Piece.WellFormed : Piece → Prop
  | text c => c ≠ percent ∧ c ≠ 0#8
  | conv _ _ => True

instance : ∀ p : Piece, Decidable p.WellFormed
  | .text _ => inferInstanceAs (Decidable (_ ∧ _))
  | .conv _ _ => isTrue trivial

-- =============================================================== values

/-- The sign or the `0x` in front of the digits. -/
def Conv.lead (k : Conv) (v : BitVec 64) : List Byte :=
  match k with
  | d => if (v.setWidth 32).toInt < 0 then [minus] else []
  | p => [zeroChar, charX]
  | _ => []

/-- The digits of the argument `v`, an `int` or `unsigned int` being its
low half. -/
def Conv.digits (k : Conv) (v : BitVec 64) : List Byte :=
  match k with
  | d => decimal (v.setWidth 32).toInt.natAbs
  | u => decimal (v.setWidth 32).toNat
  | x => hex (v.setWidth 32).toNat
  | lx | llx | p => hex v.toNat
  | lu | llu => decimal v.toNat

/-- The numeral of `v`, filled with zeros up to the width. -/
def Conv.numeral (k : Conv) (width : Nat) (v : BitVec 64) : List Byte :=
  k.lead v
    ++ List.replicate (width - (k.lead v).length - (k.digits v).length) zeroChar
    ++ k.digits v

/-- The text that the pieces stand for, from argument `n` on. -/
def expected (args : VaList) : List Piece → Nat → List Byte
  | [], _ => []
  | .text c :: ps, n => c :: expected args ps n
  | .conv width k :: ps, n =>
      k.numeral (width.getD 0) (args.word n) ++ expected args ps (n + 1)

/-- The number of directives. -/
def convCount : List Piece → Nat
  | [] => 0
  | .text _ :: ps => convCount ps
  | .conv _ _ :: ps => convCount ps + 1

/-- What C says how to print: the code negates an `int`. -/
def Conv.Defined (k : Conv) (v : BitVec 64) : Prop :=
  k = .d → v.setWidth 32 ≠ BitVec.intMin 32

/-- All the values are for C to print. -/
def Defined (args : VaList) : List Piece → Nat → Prop
  | [], _ => True
  | .text _ :: ps, n => Defined args ps n
  | .conv _ k :: ps, n => k.Defined (args.word n) ∧ Defined args ps (n + 1)

/-- The values a directive prints in full. -/
def Conv.InRange (k : Conv) (v : BitVec 64) : Prop :=
  match k with
  | lu | llu => v.toNat < 2 ^ 32
  | _ => True

instance : ∀ (k : Conv) (v : BitVec 64), Decidable (k.InRange v)
  | .lu, _ | .llu, _ => inferInstanceAs (Decidable (_ < _))
  | .d, _ | .u, _ | .x, _ | .lx, _ | .llx, _ | .p, _ => isTrue trivial

/-- No directive has a width, and every value is in range for its own. -/
def Printable (args : VaList) : List Piece → Nat → Prop
  | [], _ => True
  | .text _ :: ps, n => Printable args ps n
  | .conv width k :: ps, n => width = none ∧ k.InRange (args.word n) ∧ Printable args ps (n + 1)

-- ========================================================= as it prints

/-- What a directive without a width prints. -/
def Conv.printed (overflowed : Buffer) (k : Conv) (v : BitVec 64) : List Byte :=
  match k with
  | d =>
      if v.setWidth 32 = BitVec.intMin 32 then bufferString 16 overflowed
      else k.lead v ++ k.digits v
  | lu | llu => decimal (v.setWidth 32).toNat
  | _ => k.lead v ++ k.digits v

/-- What is printed for the pieces, from argument `n` on. -/
def printed (args : VaList) : List Piece → Nat → List Byte
  | [], _ => []
  | .text c :: ps, n => c :: printed args ps n
  | .conv none k :: ps, n =>
      k.printed args.overflowed (args.word n) ++ printed args ps (n + 1)
  | .conv (some w) k :: ps, n => spellWidth (some w) ++ k.spell ++ printed args ps n

/-- The arguments taken. -/
def taken : List Piece → Nat
  | [] => 0
  | .text _ :: ps | .conv (some _) _ :: ps => taken ps
  | .conv none _ :: ps => taken ps + 1

variable {args : VaList} {ps : List Piece} {s r : Printf} {rest cs : List Byte} {m n : Nat}

/-- The low half is no greater. -/
theorem low_toNat_le (v : BitVec 64) : (v.setWidth 32).toNat ≤ v.toNat := by
  rw [BitVec.toNat_setWidth]
  exact Nat.mod_le _ _

/-- One round for a directive without a width. -/
theorem directive_spell (k : Conv) (rest : List Byte) (s : Printf) :
    directive args (k.spell ++ rest) s
      = some (took (k.printed args.overflowed (vaArg args s)) rest s) := by
  have hlow : (((vaArg args s).setWidth 32).setWidth 64).toNat
      = ((vaArg args s).setWidth 32).toNat :=
    BitVec.toNat_setWidth_of_le (by decide)
  cases k with
  | d =>
      change some (took (bufferString 16 _) rest s) = _
      by_cases hmin : (vaArg args s).setWidth 32 = BitVec.intMin 32
      · rw [Conv.printed, if_pos hmin, hmin, intToString_intMin]
      · rw [Conv.printed, if_neg hmin, intToString_spec _ hmin]
        rfl
  | u =>
      change some (took (bufferString 16 _) rest s) = _
      rw [uintToString_spec]
      rfl
  | x =>
      change some (took (bufferString 17 _) rest s) = _
      rw [uint64ToHex_spec, hlow]
      rfl
  | lx | llx =>
      change some (took (bufferString 17 _) rest s) = _
      rw [uint64ToHex_spec]
      rfl
  | lu | llu =>
      change some (took (bufferString 16 _) rest s) = _
      rw [uintToString_spec]
      rfl
  | p =>
      change some (took (_ ++ bufferString 17 _) rest s) = _
      rw [uint64ToHex_spec]
      rfl

/-- Literal text is printed as it stands. -/
theorem Returns.text (hcs : ∀ c ∈ cs, (Piece.text c).WellFormed) (hfmt : s.fmt = cs ++ rest)
    (h : Returns args ⟨rest, s.argc, s.out ++ cs⟩ r) : Returns args s r := by
  induction cs generalizing s with
  | nil =>
      rw [List.append_nil] at h
      obtain ⟨fmt, argc, out⟩ := s
      obtain rfl : fmt = rest := hfmt
      exact h
  | cons c cs ih =>
      obtain ⟨⟨hpercent, hnul⟩, hrest⟩ := List.forall_mem_cons.mp hcs
      apply Returns.round hfmt hnul (if_neg hpercent)
      apply ih hrest rfl
      rw [List.append_cons] at h
      exact h

theorem decimal_wellFormed (w : Nat) : ∀ c ∈ decimal w, (Piece.text c).WellFormed := by
  intro c hc
  obtain ⟨d, hd, rfl⟩ := mem_numeral (by decide) hc
  clear hc
  revert d
  decide

theorem Conv.spell_wellFormed (k : Conv) : ∀ c ∈ k.spell, (Piece.text c).WellFormed := by
  cases k <;> decide

/-- What the loop prints for the pieces and the arguments it takes. -/
theorem returns_printed (args : VaList) (hps : ∀ p ∈ ps, p.WellFormed)
    (hfmt : s.fmt = spell ps ++ [0#8]) :
    Returns args s ⟨[0#8], s.argc + taken ps, s.out ++ printed args ps s.argc⟩ := by
  induction ps generalizing s with
  | nil =>
      obtain ⟨fmt, argc, out⟩ := s
      obtain rfl : fmt = [0#8] := hfmt
      rw [printed, List.append_nil]
      exact returns_end rfl
  | cons p ps ih =>
      obtain ⟨hp, hrest⟩ := List.forall_mem_cons.mp hps
      cases p with
      | text c =>
          apply Returns.round hfmt hp.2 (if_neg hp.1)
          have hrun := ih (s := literal c (spell ps ++ [0#8]) s) hrest rfl
          rw [printed, List.append_cons]
          exact hrun
      | conv width k =>
          rw [spell, List.flatMap_cons, ← spell, List.append_assoc] at hfmt
          cases width with
          | none =>
              apply Returns.round hfmt (by decide) (directive_spell k _ s)
              have hrun := ih (s := took (k.printed args.overflowed (vaArg args s))
                (spell ps ++ [0#8]) s) hrest rfl
              rw [printed, ← List.append_assoc, taken, Nat.add_comm (taken ps), ← Nat.add_assoc]
              exact hrun
          | some w =>
              have hfmt : s.fmt
                  = percent :: zeroChar :: (decimal w ++ k.spell ++ (spell ps ++ [0#8])) := by
                rw [hfmt]
                simp [Piece.spell, spellWidth]
              have htext : ∀ c ∈ decimal w ++ k.spell, (Piece.text c).WellFormed := fun c hc =>
                (List.mem_append.mp hc).elim (decimal_wellFormed w c) (k.spell_wellFormed c)
              have hrun := ih (s := ⟨spell ps ++ [0#8], s.argc,
                s.out ++ [zeroChar] ++ (decimal w ++ k.spell)⟩) hrest rfl
              have hout : s.out ++ printed args (.conv (some w) k :: ps) s.argc
                  = s.out ++ [zeroChar] ++ (decimal w ++ k.spell) ++ printed args ps s.argc := by
                simp [printed, spellWidth]
              -- The `0` is printed for the directive and the rest as text.
              have hzero : ∀ rest, kprintfBody args percent (zeroChar :: rest) s
                  = some (literal zeroChar rest s) := fun _ => rfl
              apply Returns.round hfmt (by decide) (hzero _)
              apply Returns.text htext rfl
              rw [hout]
              exact hrun

-- ============================================================== lengths

/-- Without a width nothing is filled. -/
theorem Conv.numeral_zero (k : Conv) (v : BitVec 64) :
    k.numeral 0 v = k.lead v ++ k.digits v := by
  simp [Conv.numeral]

/-- What a directive prints is not longer than the numeral. -/
theorem Conv.printed_length_le (overflowed : Buffer) {k : Conv} {v : BitVec 64}
    (hdef : k.Defined v) : (k.printed overflowed v).length ≤ (k.numeral 0 v).length := by
  rw [k.numeral_zero]
  cases k with
  | d =>
      unfold Conv.printed
      dsimp only
      rw [if_neg (hdef rfl)]
  | lu | llu => exact decimal_length_mono (low_toNat_le v)
  | u | x | lx | llx | p => exact Nat.le_refl _

/-- It is the numeral for the values in range only. -/
theorem Conv.printed_eq_iff (overflowed : Buffer) {k : Conv} {v : BitVec 64}
    (hdef : k.Defined v) : k.printed overflowed v = k.numeral 0 v ↔ k.InRange v := by
  have hlow : (v.setWidth 32).toNat = v.toNat ↔ v.toNat < 2 ^ 32 := by
    rw [BitVec.toNat_setWidth]
    omega
  rw [k.numeral_zero]
  cases k with
  | d =>
      unfold Conv.printed Conv.InRange
      dsimp only
      rw [if_neg (hdef rfl)]
      exact ⟨fun _ => trivial, fun _ => rfl⟩
  | lu | llu => exact ⟨fun h => hlow.mp (decimal_inj h), fun h => congrArg decimal (hlow.mpr h)⟩
  | u | x | lx | llx | p => exact ⟨fun _ => trivial, fun _ => rfl⟩

/-- No directive takes more than one argument. -/
theorem taken_le (ps : List Piece) : taken ps ≤ convCount ps := by
  induction ps with
  | nil => exact Nat.le_refl _
  | cons p ps ih =>
      rcases p with c | ⟨_ | w, k⟩
      · exact ih
      · exact Nat.succ_le_succ ih
      · exact Nat.le_succ_of_le ih

/-- Where every directive takes its argument none has a width. -/
theorem width_none_of_taken (h : taken ps = convCount ps) {w : Nat} {k : Conv} :
    .conv (some w) k ∉ ps := by
  induction ps with
  | nil => simp
  | cons p ps ih =>
      have hle := taken_le ps
      rcases p with c | ⟨_ | w', k'⟩
      · simpa using ih h
      · simpa using ih (Nat.succ.inj h)
      · simp only [taken, convCount] at h
        omega

/-- Where every directive takes its argument, no more is printed than should
be. -/
theorem printed_length_le (h : taken ps = convCount ps) (hdef : Defined args ps n) :
    (printed args ps n).length ≤ (expected args ps n).length := by
  induction ps generalizing n with
  | nil => exact Nat.le_refl _
  | cons p ps ih =>
      rcases p with c | ⟨_ | w, k⟩
      · exact Nat.succ_le_succ (ih h hdef)
      · have hrest := ih (Nat.succ.inj h) hdef.2
        have hpiece := Conv.printed_length_le args.overflowed hdef.1
        rw [printed, expected, List.length_append, List.length_append, Option.getD_none]
        omega
      · exact absurd List.mem_cons_self (width_none_of_taken h)

/-- The printed text is the expected one only piece by piece. -/
theorem printable_of_printed (h : taken ps = convCount ps) (hdef : Defined args ps n)
    (heq : printed args ps n = expected args ps n) : Printable args ps n := by
  induction ps generalizing n with
  | nil => trivial
  | cons p ps ih =>
      rcases p with c | ⟨_ | w, k⟩
      · exact ih h hdef (List.cons.inj heq).2
      · have hrest := printed_length_le (Nat.succ.inj h) hdef.2
        have hpiece := Conv.printed_length_le args.overflowed hdef.1
        have hlen := congrArg List.length heq
        rw [printed, expected, Option.getD_none] at heq hlen
        rw [List.length_append, List.length_append] at hlen
        obtain ⟨hk, hps⟩ := List.append_inj heq (by omega)
        exact ⟨rfl, (Conv.printed_eq_iff args.overflowed hdef.1).mp hk,
          ih (Nat.succ.inj h) hdef.2 hps⟩
      · exact absurd List.mem_cons_self (width_none_of_taken h)

/-- Such values are printed as they should be. -/
theorem Printable.printed_eq (h : Printable args ps n) (hdef : Defined args ps n) :
    taken ps = convCount ps ∧ printed args ps n = expected args ps n := by
  induction ps generalizing n with
  | nil => exact ⟨rfl, rfl⟩
  | cons p ps ih =>
      rcases p with c | ⟨width, k⟩
      · obtain ⟨htaken, heq⟩ := ih h hdef
        exact ⟨htaken, by rw [printed, expected, heq]⟩
      · obtain ⟨rfl, hk, hps⟩ := h
        obtain ⟨htaken, heq⟩ := ih hps hdef.2
        refine ⟨by rw [taken, convCount, htaken], ?_⟩
        rw [printed, expected, heq, (Conv.printed_eq_iff _ hdef.1).mpr hk, Option.getD_none]

-- =============================================================== values

/-- What the loop prints. -/
theorem kprintf_printed (args : VaList) (hps : ∀ p ∈ ps, p.WellFormed) :
    Returns args ⟨spell ps ++ [0#8], 0, []⟩ ⟨[0#8], taken ps, printed args ps 0⟩ := by
  have hrun := returns_printed args (s := ⟨spell ps ++ [0#8], 0, []⟩) hps rfl
  dsimp only at hrun
  rw [Nat.zero_add, List.nil_append] at hrun
  exact hrun

/-- Only such values are. -/
theorem printable_of_prints (hps : ∀ p ∈ ps, p.WellFormed) (hdef : Defined args ps 0)
    (h : ∃ rounds s, kprintf args (spell ps) rounds = some s ∧ s.out = expected args ps 0 ∧
      s.argc = convCount ps) : Printable args ps 0 := by
  obtain ⟨rounds, s, hs, hout, hargc⟩ := h
  obtain rfl := (kprintf_printed args hps).unique ⟨rounds, hs⟩
  exact printable_of_printed hargc hdef hout

/-- `kprintf` prints the text a format stands for and takes one argument
for each directive exactly when no directive has a width and no value is
out of range. -/
theorem kprintf_prints_iff (args : VaList) (hps : ∀ p ∈ ps, p.WellFormed)
    (hdef : Defined args ps 0) :
    (∃ rounds s, kprintf args (spell ps) rounds = some s ∧ s.out = expected args ps 0 ∧
        s.argc = convCount ps)
      ↔ Printable args ps 0 := by
  constructor
  · exact printable_of_prints hps hdef
  · intro h
    obtain ⟨htaken, heq⟩ := h.printed_eq hdef
    obtain ⟨rounds, hs⟩ := kprintf_printed args hps
    exact ⟨rounds, _, hs, heq, htaken⟩

/-- -5, an address and 42. -/
def threeArgs : VaList :=
  ⟨fun n => [0xFFFFFFFB#64, 0xFFFF900000000020#64, 42#64].getD n 0#64, fun _ => [], stackBuffer⟩

/-- "n%d%lx%lu" -/
def threePieces : List Piece :=
  [.text 110#8, .conv none .d, .conv none .lx, .conv none .lu]

/-- All three are printed. -/
theorem kprintf_prints_iff_count :
    ∃ rounds s, kprintf threeArgs (spell threePieces) rounds = some s
      ∧ s.out = expected threeArgs threePieces 0 ∧ s.argc = 3 := by
  have hdef : Defined threeArgs threePieces 0 := ⟨fun _ => by decide, nofun, nofun, trivial⟩
  have hprintable : Printable threeArgs threePieces 0 :=
    ⟨rfl, trivial, rfl, trivial, rfl, by decide, trivial⟩
  exact (kprintf_prints_iff threeArgs (by decide) hdef).mpr hprintable

/-- "%lu" does not print 2^32. -/
theorem kprintf_loses_values :
    ¬ ∀ (args : VaList) (ps : List Piece), (∀ p ∈ ps, p.WellFormed) → Defined args ps 0 →
      ∃ rounds s, kprintf args (spell ps) rounds = some s ∧ s.out = expected args ps 0 ∧
        s.argc = convCount ps := by
  intro h
  have hdef : Defined (sameArgs 4294967296#64) [.conv none .lu] 0 := ⟨nofun, trivial⟩
  have hword := printable_of_prints (by decide) hdef
    (h (sameArgs 4294967296#64) [.conv none .lu] (by decide) hdef)
  exact absurd hword.2.1 (by decide)

end ZenithOS.Stdio
