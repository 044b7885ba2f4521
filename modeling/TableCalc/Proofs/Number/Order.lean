/-
The order of doubles. Core compares two doubles by cases: which of them are infinite, which are
zero, what their signs are, and only then by exponent and significand. All of these cases are one
comparison of ranks. The rank of a double is a triple of whole numbers in lexicographic order, so
that on what is a number the tests of core are those of a linear order: `==` is equality of ranks
(`beq_iff_rank`), and `<` is the order of ranks (`lt_iff_rank`). The two zeros have one rank.
-/

import Mathlib
import TableCalc.Proofs.Number.Double

namespace TableCalc.Number

open Float.Model

/-- Ranks, ordered by their first part, then by their second, then by their third. -/
abbrev Rank := ℤ ×ₗ ℤ ×ₗ ℤ

/-- Where a number taken apart stands among the others. The negative ones are mirrored; what is not
a number stands nowhere and gets any rank. -/
def unpackedRank : UnpackedFloat → Rank
  | .infinity .negative => toLex (-2, toLex (0, 0))
  | .finite .negative m e _ => toLex (-1, toLex (-e, -m))
  | .zero _ => toLex (0, toLex (0, 0))
  | .finite .positive m e _ => toLex (1, toLex (e, m))
  | .infinity .positive => toLex (2, toLex (0, 0))
  | .notANumber => toLex (0, toLex (0, 0))

/-- Where a double stands among the others. -/
def rank (x : Float) : Rank := unpackedRank x.toModel.unpack

section Unpacked

variable {u v : UnpackedFloat}

-- only two finite numbers of one sign are left to exponent and significand

theorem unpacked_beq_iff (hu : u.isNaN = false) (hv : v.isNaN = false) :
    u.beq v = true ↔ unpackedRank u = unpackedRank v := by
  unfold UnpackedFloat.beq
  rcases u with (_ | _) | _ | s | ⟨_ | _, m, e, hm⟩
  all_goals
    rcases v with (_ | _) | _ | s' | ⟨_ | _, m', e', hm'⟩
    all_goals
      simp_all +decide [UnpackedFloat.compare, unpackedRank, UnpackedFloat.isNaN,
        Ordering.then_eq_eq]

theorem unpacked_lt_iff (hu : u.isNaN = false) (hv : v.isNaN = false) :
    u.lt v = true ↔ unpackedRank u < unpackedRank v := by
  unfold UnpackedFloat.lt
  rcases u with (_ | _) | _ | s | ⟨_ | _, m, e, hm⟩
  all_goals
    rcases v with (_ | _) | _ | s' | ⟨_ | _, m', e', hm'⟩
    all_goals
      simp_all +decide [UnpackedFloat.compare, unpackedRank, UnpackedFloat.isNaN,
        Ordering.then_eq_lt, Ordering.then_eq_gt, compare_lt_iff_lt, compare_gt_iff_gt,
        Prod.Lex.toLex_lt_toLex]

end Unpacked

variable {x y : Float}

theorem beq_iff_rank (hx : x.isNaN = false) (hy : y.isNaN = false) :
    (x == y) = true ↔ rank x = rank y :=
  unpacked_beq_iff hx hy

theorem lt_iff_rank (hx : x.isNaN = false) (hy : y.isNaN = false) : x < y ↔ rank x < rank y :=
  decide_eq_true_iff.trans (unpacked_lt_iff hx hy)

end TableCalc.Number
