import Mathlib.Logic.Function.Iterate

/-!
# Reflected cyclic redundancy checks

`step poly` is one bit of a reflected CRC of width `w`, whose register shifts to the right and takes
up the polynomial when it shifts out a one. It is linear (`step_xor`), which has two uses: the CRC
itself is linear (`crc_xor`), and the eight steps of a byte are the eight steps of the low byte of
the register plus a shift of the rest (`steps_split`), so that a table of 256 entries replaces them
(`byteStep_eq`). With a polynomial of full degree no step loses anything (`step_injective`), so that
two strings which differ within a window no wider than the register have different CRCs
(`crc_window`).
-/

namespace Lib.Crc

variable {w : Nat} (poly : BitVec w)

/-- One bit. -/
def step (c : BitVec w) : BitVec w :=
  if c.getLsbD 0 then (c >>> 1) ^^^ poly else c >>> 1

/-- One byte: eight bits from the register with the byte added to its low end. -/
def byteStep (c : BitVec w) (byte : BitVec 8) : BitVec w :=
  (step poly)^[8] (c ^^^ byte.setWidth w)

/-- The CRC of `bytes`, with initial value 0 and without a final addition. -/
def crc (bytes : List (BitVec 8)) : BitVec w :=
  bytes.foldl (byteStep poly) 0

/-- The entry of the table for a byte. -/
def entry (byte : BitVec 8) : BitVec w :=
  (step poly)^[8] (byte.setWidth w)

/-! ## Linearity -/

theorem step_xor (a b : BitVec w) : step poly (a ^^^ b) = step poly a ^^^ step poly b := by
  unfold step
  simp only [BitVec.getLsbD_xor, BitVec.ushiftRight_xor_distrib]
  cases a.getLsbD 0 <;> cases b.getLsbD 0
  · rfl
  · simp only [Bool.false_xor, if_true, Bool.false_eq_true, if_false, BitVec.xor_assoc]
  · simp only [Bool.xor_false, if_true, Bool.false_eq_true, if_false]
    ac_rfl
  · -- the two polynomials cancel
    have hcancel : ∀ x y : BitVec w, x ^^^ poly ^^^ (y ^^^ poly) = x ^^^ y := fun x y => by
      rw [BitVec.xor_comm y poly, BitVec.xor_assoc, ← BitVec.xor_assoc poly, BitVec.xor_self,
        BitVec.zero_xor]
    simp only [Bool.xor_self, if_true, Bool.false_eq_true, if_false, hcancel]

theorem steps_xor (n : Nat) (a b : BitVec w) :
    (step poly)^[n] (a ^^^ b) = (step poly)^[n] a ^^^ (step poly)^[n] b := by
  induction n generalizing a b with
  | zero => rfl
  | succ n ih => simp only [Function.iterate_succ_apply, step_xor, ih]

theorem byteStep_xor (a b : BitVec w) (x y : BitVec 8) :
    byteStep poly (a ^^^ b) (x ^^^ y) = byteStep poly a x ^^^ byteStep poly b y := by
  have hsum : a ^^^ b ^^^ (x ^^^ y).setWidth w =
      (a ^^^ x.setWidth w) ^^^ (b ^^^ y.setWidth w) := by
    rw [BitVec.setWidth_xor]
    ac_rfl
  rw [byteStep, hsum, steps_xor]
  rfl

theorem foldl_xor (a b : BitVec w) {xs ys : List (BitVec 8)} (h : xs.length = ys.length) :
    (List.zipWith (· ^^^ ·) xs ys).foldl (byteStep poly) (a ^^^ b) =
      xs.foldl (byteStep poly) a ^^^ ys.foldl (byteStep poly) b := by
  induction xs generalizing ys a b with
  | nil =>
    obtain rfl := List.length_eq_zero_iff.1 h.symm
    rfl
  | cons x xs ih =>
    cases ys with
    | nil => cases h
    | cons y ys =>
      simp only [List.zipWith_cons_cons, List.foldl_cons, byteStep_xor]
      exact ih _ _ (Nat.succ.inj h)

/-- The CRC of a sum is the sum of the CRCs. -/
theorem crc_xor {xs ys : List (BitVec 8)} (h : xs.length = ys.length) :
    crc poly (List.zipWith (· ^^^ ·) xs ys) = crc poly xs ^^^ crc poly ys := by
  have := foldl_xor poly 0 0 h
  rwa [BitVec.xor_self] at this

/-! ## The table -/

/-- A register whose low bits are clear only shifts. -/
theorem steps_of_clear {c : BitVec w} {n : Nat} (h : ∀ i < n, c.getLsbD i = false) :
    (step poly)^[n] c = c >>> n := by
  induction n with
  | zero => exact (BitVec.ushiftRight_zero c).symm
  | succ n ih =>
    have hlow : (c >>> n).getLsbD 0 = false := by
      rw [BitVec.getLsbD_ushiftRight]
      exact h n (Nat.lt_succ_self n)
    rw [Function.iterate_succ_apply', ih fun i hi => h i (Nat.lt_succ_of_lt hi), step, hlow,
      if_neg Bool.false_ne_true, BitVec.shiftRight_add]

theorem getLsbD_low (c : BitVec w) (n i : Nat) :
    ((c.setWidth n).setWidth w).getLsbD i = (decide (i < n) && c.getLsbD i) := by
  rw [BitVec.getLsbD_setWidth, BitVec.getLsbD_setWidth]
  by_cases hi : i < w
  · rw [decide_eq_true hi, Bool.true_and]
  · rw [decide_eq_false hi, Bool.false_and, BitVec.getLsbD_of_ge c i (by omega), Bool.and_false]

/-- `n` steps of `c` are those of its `n` low bits, and a shift of the others. -/
theorem steps_split (n : Nat) (c : BitVec w) :
    (step poly)^[n] c = (step poly)^[n] ((c.setWidth n).setWidth w) ^^^ c >>> n := by
  obtain ⟨low, hlow⟩ : ∃ low, low = (c.setWidth n).setWidth w := ⟨_, rfl⟩
  have hbit : ∀ i, low.getLsbD i = (decide (i < n) && c.getLsbD i) := fun i => by
    rw [hlow, getLsbD_low]
  have hsum : c = low ^^^ (c ^^^ low) := by
    rw [BitVec.xor_comm c low, ← BitVec.xor_assoc, BitVec.xor_self, BitVec.zero_xor]
  have hclear : ∀ i < n, (c ^^^ low).getLsbD i = false := fun i hi => by
    rw [BitVec.getLsbD_xor, hbit, decide_eq_true hi, Bool.true_and, Bool.xor_self]
  have hshift : (c ^^^ low) >>> n = c >>> n := by
    refine BitVec.eq_of_getLsbD_eq fun i _ => ?_
    rw [BitVec.getLsbD_ushiftRight, BitVec.getLsbD_ushiftRight, BitVec.getLsbD_xor, hbit,
      decide_eq_false (by omega), Bool.false_and, Bool.xor_false]
  rw [← hlow]
  conv => lhs; rw [hsum]
  rw [steps_xor, steps_of_clear poly hclear, hshift]

/-- **A byte from the table.** -/
theorem byteStep_eq (hw : 8 ≤ w) (c : BitVec w) (byte : BitVec 8) :
    byteStep poly c byte = entry poly (c.setWidth 8 ^^^ byte) ^^^ c >>> 8 := by
  have hlow : (c ^^^ byte.setWidth w).setWidth 8 = c.setWidth 8 ^^^ byte := by
    rw [BitVec.setWidth_xor, BitVec.setWidth_setWidth_of_le byte hw, BitVec.setWidth_eq]
  have hhigh : (c ^^^ byte.setWidth w) >>> 8 = c >>> 8 := by
    refine BitVec.eq_of_getLsbD_eq fun i _ => ?_
    rw [BitVec.getLsbD_ushiftRight, BitVec.getLsbD_ushiftRight, BitVec.getLsbD_xor,
      BitVec.getLsbD_setWidth, BitVec.getLsbD_of_ge byte (8 + i) (by omega), Bool.and_false,
      Bool.xor_false]
  rw [byteStep, steps_split, hlow, hhigh]
  rfl

/-! ## Differences within a window -/

section
variable {poly}

/-- The polynomial has the degree of the register. -/
def FullDegree (poly : BitVec w) : Prop := 0 < w ∧ poly.getLsbD (w - 1) = true

theorem eq_zero_of_step (hpoly : FullDegree poly) {c : BitVec w} (h : step poly c = 0#w) :
    c = 0#w := by
  obtain ⟨hw, htop⟩ := hpoly
  have hbit : ∀ i, (step poly c).getLsbD i = false := fun i => by rw [h, BitVec.getLsbD_zero]
  have htopc : (c >>> 1).getLsbD (w - 1) = false := by
    rw [BitVec.getLsbD_ushiftRight, BitVec.getLsbD_of_ge c _ (by omega)]
  cases h0 : c.getLsbD 0 with
  | true =>
    -- the highest bit comes from the polynomial
    have hlast := hbit (w - 1)
    rw [step, h0, if_pos rfl, BitVec.getLsbD_xor, htop, htopc] at hlast
    cases hlast
  | false =>
    refine BitVec.eq_of_getLsbD_eq fun i _ => ?_
    rw [BitVec.getLsbD_zero]
    cases i with
    | zero => exact h0
    | succ i =>
      have hshift := hbit i
      rw [step, h0, if_neg Bool.false_ne_true, BitVec.getLsbD_ushiftRight] at hshift
      rwa [Nat.add_comm 1 i] at hshift

theorem eq_of_xor_eq_zero {a b : BitVec w} (h : a ^^^ b = 0#w) : a = b := by
  have hb := congrArg (· ^^^ b) h
  simpa [BitVec.xor_assoc] using hb

/-- No step loses anything. -/
theorem step_injective (hpoly : FullDegree poly) : Function.Injective (step poly) := by
  intro a b hab
  refine eq_of_xor_eq_zero (eq_zero_of_step hpoly ?_)
  rw [step_xor, hab, BitVec.xor_self]

theorem foldl_injective (hpoly : FullDegree poly) (bytes : List (BitVec 8)) {a b : BitVec w}
    (h : bytes.foldl (byteStep poly) a = bytes.foldl (byteStep poly) b) : a = b := by
  induction bytes generalizing a b with
  | nil => exact h
  | cons x bytes ih =>
    have hstep := (step_injective hpoly).iterate 8 (ih h)
    have hxor := congrArg (· ^^^ x.setWidth w) hstep
    simpa [BitVec.xor_assoc] using hxor

/-- Eight steps back, when nothing is in the highest byte. -/
theorem shiftLeft_of_steps (hpoly : FullDegree poly) {c d : BitVec w} (h : (step poly)^[8] c = d)
    (hd : ∀ i, w ≤ i + 8 → d.getLsbD i = false) : c = d <<< 8 := by
  refine (step_injective hpoly).iterate 8 (h.trans ?_)
  have hclear : ∀ i < 8, (d <<< 8).getLsbD i = false := fun i hi => by
    rw [BitVec.getLsbD_shiftLeft, decide_eq_true hi]
    simp
  rw [steps_of_clear poly hclear]
  refine BitVec.eq_of_getLsbD_eq fun i hi => ?_
  rw [BitVec.getLsbD_ushiftRight, BitVec.getLsbD_shiftLeft]
  by_cases hi8 : w ≤ i + 8
  · rw [hd i hi8, decide_eq_false (by omega)]
    rfl
  · rw [decide_eq_true (by omega), decide_eq_false (by omega), Nat.add_sub_cancel_left]
    rfl

/-- A register that some bytes clear has nothing beyond them. -/
theorem high_clear_of_foldl (hpoly : FullDegree poly) (bytes : List (BitVec 8)) {c : BitVec w}
    (hw : 8 * bytes.length ≤ w) (h : bytes.foldl (byteStep poly) c = 0#w) :
    ∀ i, 8 * bytes.length ≤ i → c.getLsbD i = false := by
  induction bytes generalizing c with
  | nil =>
    intro i _
    rw [show c = 0#w from h, BitVec.getLsbD_zero]
  | cons x bytes ih =>
    rw [List.length_cons] at hw
    have hd := ih (by omega) h
    have hsum := shiftLeft_of_steps hpoly (rfl : (step poly)^[8] (c ^^^ x.setWidth w) = _)
      fun i hi => hd i (by omega)
    intro i hi
    rw [List.length_cons] at hi
    have hbit := congrArg (BitVec.getLsbD · i) hsum
    rw [BitVec.getLsbD_xor, BitVec.getLsbD_setWidth, BitVec.getLsbD_of_ge x i (by omega),
      Bool.and_false, Bool.xor_false] at hbit
    rw [hbit, BitVec.getLsbD_shiftLeft]
    have hprev := hd (i - 8) (by omega)
    rw [byteStep] at hprev
    rw [hprev, Bool.and_false]

/-- From a clear register only zeros lead back to it. -/
theorem zeros_of_foldl (hpoly : FullDegree poly) (bytes : List (BitVec 8))
    (hw : 8 * bytes.length ≤ w) (h : bytes.foldl (byteStep poly) 0#w = 0#w) :
    ∀ x ∈ bytes, x = 0#8 := by
  induction bytes with
  | nil => exact fun x hx => absurd hx List.not_mem_nil
  | cons x bytes ih =>
    rw [List.length_cons] at hw
    have hd := high_clear_of_foldl hpoly bytes (by omega) h
    have hsum := shiftLeft_of_steps hpoly (rfl : (step poly)^[8] (0#w ^^^ x.setWidth w) = _)
      fun i hi => hd i (by omega)
    have hx : x = 0#8 := by
      refine BitVec.eq_of_getLsbD_eq fun i hi => ?_
      have hbit := congrArg (BitVec.getLsbD · i) hsum
      rw [BitVec.zero_xor, BitVec.getLsbD_setWidth, BitVec.getLsbD_shiftLeft, decide_eq_true hi,
        decide_eq_true (show i < w by omega)] at hbit
      rw [BitVec.getLsbD_zero]
      simpa using hbit
    have hzero : byteStep poly (0#w) 0#8 = 0#w := by
      have hsame : 0#w ^^^ (0#8).setWidth w = 0#w := by simp
      rw [byteStep, hsame, steps_of_clear poly fun i _ => BitVec.getLsbD_zero]
      simp
    rw [List.foldl_cons, hx, hzero] at h
    intro y hy
    rcases List.mem_cons.1 hy with rfl | hy
    · exact hx
    · exact ih (by omega) h y hy

theorem eq_of_zipWith_zero {xs ys : List (BitVec 8)} (hlen : xs.length = ys.length)
    (h : ∀ z ∈ List.zipWith (· ^^^ ·) xs ys, z = 0#8) : xs = ys := by
  induction xs generalizing ys with
  | nil => exact (List.eq_nil_of_length_eq_zero hlen.symm).symm
  | cons x xs ih =>
    cases ys with
    | nil => cases hlen
    | cons y ys =>
      have hxy : x = y := eq_of_xor_eq_zero (h _ (.head _))
      rw [hxy, ih (Nat.succ.inj hlen) fun z hz => h z (.tail _ hz)]

/-- **Differences within a window.** -/
theorem crc_window (hpoly : FullDegree poly) (before behind : List (BitVec 8))
    {xs ys : List (BitVec 8)} (hlen : xs.length = ys.length) (hw : 8 * xs.length ≤ w)
    (h : crc poly (before ++ xs ++ behind) = crc poly (before ++ ys ++ behind)) : xs = ys := by
  rw [crc, crc, List.foldl_append, List.foldl_append, List.foldl_append, List.foldl_append] at h
  have hmid := foldl_injective hpoly behind h
  have hxor := foldl_xor poly (before.foldl (byteStep poly) 0) (before.foldl (byteStep poly) 0) hlen
  rw [hmid, BitVec.xor_self, BitVec.xor_self] at hxor
  refine eq_of_zipWith_zero hlen (zeros_of_foldl hpoly _ ?_ hxor)
  rw [List.length_zipWith]
  omega

end

end Lib.Crc
