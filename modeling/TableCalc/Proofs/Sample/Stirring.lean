/-
The random source never gets stuck, and it loses nothing. One state only stays as it is when it is
stirred, the one that is all zeros (`stir_eq_self_iff`). No seed gives that state, and no other
state is stirred into it, for stirring can be undone (`unstir`): so it never comes up, however many
numbers are drawn and in whichever way.

# Undoing a stir

The word `d` has been rotated last, which the rest of the turn makes good. It then gives back `a`.
The word `b` takes more: what is left in `b` and `c` together is `b` overlaid with itself, 17 bits
further up. Overlaying twice is to overlay once at twice the distance, so after four times nothing
of a word meets itself any more (`overlay_four_times`), and three more times bring back `b`. The
rest is exclusive or with words already known.
-/

import Mathlib
import TableCalc.Proofs.Number.Fraction
import TableCalc.Sample.Random

namespace TableCalc.Sample

variable {x j k : UInt64}

-- =============================================================== rotations

/-- Rotating a word is rotating its bits. -/
theorem toBitVec_rotateLeft (x k : UInt64) :
    (rotateLeft x k).toBitVec = x.toBitVec.rotateLeft k.toNat := by
  have hk := k.toNat_lt
  have hup : x.toBitVec <<< (k.toBitVec % 64) = x.toBitVec <<< (k.toNat % 64) := rfl
  have hdown : x.toBitVec >>> ((64 - k).toBitVec % 64) = x.toBitVec >>> ((64 - k).toNat % 64) := rfl
  have hsub : (64 - k).toNat = (2 ^ 64 - k.toNat + 64) % 2 ^ 64 := UInt64.toNat_sub ..
  rw [BitVec.rotateLeft_def, rotateLeft, UInt64.toBitVec_or, UInt64.toBitVec_shiftLeft,
    UInt64.toBitVec_shiftRight, hup, hdown]
  by_cases hwhole : k.toNat % 64 = 0
  · -- the second shift is by nothing on the one side and by all bits on the other
    have hnone : (64 - k).toNat % 64 = 0 := by omega
    rw [hwhole, hnone, BitVec.ushiftRight_eq_zero le_rfl]
    simp
  · have hrest : (64 - k).toNat % 64 = 64 - k.toNat % 64 := by omega
    rw [hrest]

/-- Two rotations that make a full turn undo each other. -/
theorem rotateLeft_rotateLeft (h : j.toNat + k.toNat = 64) : rotateLeft (rotateLeft x j) k = x := by
  apply UInt64.toBitVec_inj.mp
  rw [toBitVec_rotateLeft, toBitVec_rotateLeft]
  ext i hi
  simp only [BitVec.getElem_rotateLeft]
  split_ifs
  all_goals
    congr 1
    omega

-- ================================================================ overlays

/-- A word overlaid with itself, `k` bits further up. -/
def overlay (k x : UInt64) : UInt64 := x ^^^ (x <<< k)

/-- Of what is shifted once, the two copies cancel. -/
theorem overlay_overlay (k x : UInt64) : overlay k (overlay k x) = x ^^^ (x <<< k <<< k) := by
  rw [overlay, overlay, UInt64.shiftLeft_xor, ← xor_assoc, xor_cancel_right]

/-- Two shifts that reach over the whole word leave nothing of it. -/
theorem shiftLeft_shiftLeft_eq_zero (hk : k.toNat < 64) (h : 64 ≤ k.toNat + k.toNat) :
    x <<< k <<< k = 0 := by
  have hmod : (k.toBitVec % 64).toNat = k.toNat := Nat.mod_eq_of_lt hk
  apply UInt64.toBitVec_inj.mp
  rw [UInt64.toBitVec_shiftLeft, UInt64.toBitVec_shiftLeft, BitVec.shiftLeft_eq',
    BitVec.shiftLeft_eq', hmod, ← BitVec.shiftLeft_add, BitVec.shiftLeft_eq_zero h]
  rfl

theorem overlay_four_times (x : UInt64) :
    overlay 17 (overlay 17 (overlay 17 (overlay 17 x))) = x := by
  have htwice (y : UInt64) : overlay 17 (overlay 17 y) = overlay 34 y := by
    rw [overlay_overlay, ← UInt64.shiftLeft_add_of_toNat_lt (by decide)]
    rfl
  rw [htwice, htwice, overlay_overlay, shiftLeft_shiftLeft_eq_zero (by decide) (by decide),
    xor_zero]

namespace Random

-- ================================================================ stirring

/-- The state that is all zeros. -/
def zero : Random := ⟨0, 0, 0, 0⟩

/-- The state before it was stirred. -/
def unstir (r : Random) : Random :=
  let d := rotateLeft r.d 19
  let a := r.a ^^^ d
  let b := overlay 17 (overlay 17 (overlay 17 (r.b ^^^ r.c)))
  let c := r.b ^^^ b
  ⟨a, b, c ^^^ a, d ^^^ b⟩

theorem unstir_stir (r : Random) : r.stir.unstir = r := by
  obtain ⟨a, b, c, d⟩ := r
  have hturn : rotateLeft (rotateLeft (d ^^^ b) 45) 19 = d ^^^ b := rotateLeft_rotateLeft rfl
  have hoverlay : b ^^^ (c ^^^ a) ^^^ (c ^^^ a ^^^ b <<< 17) = overlay 17 b := by
    rw [← xor_assoc, xor_cancel_right]
    rfl
  simp only [stir, unstir, hturn, hoverlay, overlay_four_times, xor_cancel_right,
    xor_xor_cancel_comm]

theorem stir_unstir (r : Random) : r.unstir.stir = r := by
  obtain ⟨a, b, c, d⟩ := r
  have hturn : rotateLeft (rotateLeft d 19) 45 = d := rotateLeft_rotateLeft rfl
  have hoverlay := overlay_four_times (b ^^^ c)
  simp only [stir, unstir]
  -- all that matters of the old `b` is what its overlay is
  generalize overlay 17 (overlay 17 (overlay 17 (b ^^^ c))) = old at hoverlay ⊢
  have hold : old ^^^ old <<< 17 = b ^^^ c := hoverlay
  rw [xor_cancel_right, xor_cancel_right, hturn, xor_cancel_right, xor_xor_cancel_comm_assoc,
    xor_assoc, hold, xor_cancel_left]

theorem stir_bijective : Function.Bijective stir :=
  Function.bijective_iff_has_inverse.mpr ⟨unstir, unstir_stir, stir_unstir⟩

/-- Stirring changes every state but one. If `a` stays, then `d` and `b` cancel, so `d` has become
zero by a rotation of zero; that takes `b` along, and with `b` the words `a` and `c`. -/
theorem stir_eq_self_iff {r : Random} : r.stir = r ↔ r = zero := by
  obtain ⟨a, b, c, d⟩ := r
  constructor
  · intro h
    simp only [stir, mk.injEq, xor_left_eq_self_iff, xor_assoc] at h
    obtain ⟨hdb, hca, hab, hturn⟩ := h
    rw [hdb] at hturn
    have hd : d = 0 := hturn.symm.trans (by decide)
    rw [hd, zero_xor] at hdb
    rw [hdb, UInt64.zero_shiftLeft, xor_zero] at hab
    rw [hab, xor_zero] at hca
    rw [hab, hdb, hca, hd]
    rfl
  · intro h
    rw [h]
    decide

/-- No other state is stirred into zeros. -/
theorem stir_eq_zero_iff {r : Random} : r.stir = zero ↔ r = zero := by
  have hzero : zero.stir = zero := stir_eq_self_iff.mpr rfl
  rw [← hzero, stir_bijective.injective.eq_iff, hzero]

-- =================================================================== seeds

/-- The factor of the congruence has an inverse, so a step can be undone. -/
theorem spread_injective : Function.Injective spread := by
  have hinverse : (6364136223846793005 : UInt64) * 13877824140714322085 = 1 := by decide
  have hundo : Function.LeftInverse (fun y => (y - 1) * 13877824140714322085) spread := by
    intro x
    show (x * 6364136223846793005 + 1 - 1) * 13877824140714322085 = x
    rw [UInt64.add_sub_cancel, UInt64.mul_assoc, hinverse, UInt64.mul_one]
  exact hundo.injective

/-- The first word alone tells the seed. -/
theorem ofSeed_injective : Function.Injective ofSeed := by
  intro seed seed' h
  exact spread_injective (congrArg a h)

/-- A word of zero is followed by a word of one. -/
theorem ofSeed_ne_zero (seed : UInt64) : ofSeed seed ≠ zero := by
  intro h
  have hfirst : spread seed = 0 := congrArg a h
  have hsecond : spread (spread seed) = 0 := congrArg b h
  rw [hfirst] at hsecond
  exact absurd hsecond (by decide)

end Random

-- =================================================================== calls

/-- A call that draws from the source. -/
inductive Call : Type 1 where
  | word
  | unit
  | pick {α : Type} (items : List α) (nonempty : items ≠ [])

/-- The state that a call leaves. -/
def Call.next : Call → Random → Random
  | .word, r => (draw.run r).2
  | .unit, r => (drawUnit.run r).2
  | .pick items nonempty, r => ((Sample.pick items nonempty).run r).2

/-- The state after some calls. -/
def afterCalls (calls : List Call) (r : Random) : Random :=
  calls.foldl (fun r call => call.next r) r

theorem afterCalls_cons (call : Call) (calls : List Call) (r : Random) :
    afterCalls (call :: calls) r = afterCalls calls (call.next r) := rfl

/-- Whatever is drawn, the source is stirred once. -/
theorem Call.next_eq_stir (call : Call) (r : Random) : call.next r = r.stir := by
  cases call with
  | word => rfl
  | unit => rfl
  | pick items nonempty => rfl

theorem afterCalls_eq_iterate (calls : List Call) (r : Random) :
    afterCalls calls r = Random.stir^[calls.length] r := by
  induction calls generalizing r with
  | nil => rfl
  | cons call calls ih =>
      rw [afterCalls_cons, ih, call.next_eq_stir]
      rfl

theorem afterCalls_injective (calls : List Call) : Function.Injective (afterCalls calls) := by
  have hiterate : afterCalls calls = Random.stir^[calls.length] :=
    funext (afterCalls_eq_iterate calls)
  rw [hiterate]
  exact Random.stir_bijective.injective.iterate _

/-- A state that is not all zeros is followed by such states only. -/
theorem afterCalls_ne_zero {r : Random} (hr : r ≠ .zero) (calls : List Call) :
    afterCalls calls r ≠ .zero := by
  induction calls generalizing r with
  | nil => exact hr
  | cons call calls ih =>
      rw [afterCalls_cons, call.next_eq_stir]
      exact ih (mt Random.stir_eq_zero_iff.mp hr)

-- =============================================================== fractions

/-- The number drawn from 0 to 1 is the upper 53 bits as a fraction, with nothing rounded. -/
theorem rational?_drawUnit (r : Random) : Number.rational? (drawUnit.run r).1
    = some (((draw.run r).1 >>> 11).toNat / 2 ^ 53 : ℚ) := by
  have hdrawn : (drawUnit.run r).1
      = Number.nearest false ((draw.run r).1 >>> 11).toNat (Nat.pow 2 53) := rfl
  have hunit (n : ℕ) : (n : ℚ) = n * 2 ^ (-53 : ℤ) * (Nat.pow 2 53 : ℕ) := by
    rw [Nat.pow_eq, zpow_neg]
    push_cast
    field_simp
  rw [hdrawn, Number.rational?_nearest false (toNat_shiftRight_lt _) (by decide) (by decide)
    (by decide) (hunit _), div_eq_mul_inv]
  simp

/-- What is drawn is the double that comes of turning the upper bits and `2 ^ 53` into doubles and
dividing one by the other. -/
theorem drawUnit_eq_div (r : Random) : (drawUnit.run r).1
    = ((draw.run r).1 >>> 11).toFloat / ((1 : UInt64) <<< 53).toFloat :=
  (Number.toFloat_div_two_pow (toNat_shiftRight_lt _)).symm

/-- The source never gets stuck. From no seed and by no calls does it come to the state of zeros,
the one state that stirring leaves as it is. Seeds and states that differ stay apart: each seed has
a state of its own, and each state comes from exactly one. A number drawn from 0 to 1 is exactly the
fraction it is meant to be. -/
theorem source_never_stuck :
    (∀ (seed : UInt64) (calls : List Call), afterCalls calls (.ofSeed seed) ≠ .zero
      ∧ (afterCalls calls (.ofSeed seed)).stir ≠ afterCalls calls (.ofSeed seed))
    ∧ (∀ seed, Random.ofSeed seed ≠ .zero) ∧ Function.Injective Random.ofSeed
    ∧ (Function.Bijective fun r => (draw.run r).2) ∧ (draw.run .zero).2 = .zero
    ∧ (∀ calls r, afterCalls calls r = Random.stir^[calls.length] r)
    ∧ (∀ calls, Function.Injective (afterCalls calls))
    ∧ ∀ r, ∃ u : ℚ, Number.rational? (drawUnit.run r).1 = some u
      ∧ u = ((draw.run r).1 >>> 11).toNat / 2 ^ 53 ∧ 0 ≤ u ∧ u < 1
      ∧ (drawUnit.run r).1 = ((draw.run r).1 >>> 11).toFloat / ((1 : UInt64) <<< 53).toFloat := by
  refine ⟨?_, Random.ofSeed_ne_zero, Random.ofSeed_injective, Random.stir_bijective,
    Random.stir_eq_zero_iff.mpr rfl, afterCalls_eq_iterate, afterCalls_injective, ?_⟩
  · intro seed calls
    have hne := afterCalls_ne_zero (Random.ofSeed_ne_zero seed) calls
    exact ⟨hne, mt Random.stir_eq_self_iff.mp hne⟩
  · intro r
    have hlt : (((draw.run r).1 >>> 11).toNat : ℚ) < 2 ^ 53 := by
      exact_mod_cast toNat_shiftRight_lt (draw.run r).1
    refine ⟨_, rational?_drawUnit r, rfl, by positivity, ?_, drawUnit_eq_div r⟩
    rwa [div_lt_one (by positivity)]

end TableCalc.Sample
