/-
Numerals in writing, and what reading makes of them. A `Literal` is a numeral as it is written out:
an optional minus, digits, possibly a point with digits after it, possibly an exponent with its
sign. The scanner reads a literal whole and hands back its numeral (`scan_text`); so a cell that is
a literal is a number by the lenient reading and by the strict one (`WritesFinite.number?`,
`WritesFinite.wholeNumber?`), and a finite one if its exact value is below the limit of the doubles.

The scanner's three lookaheads never come into play: each piece of a literal is followed by a
character that cannot go on with it.
-/

import Mathlib
import TableCalc.Cell
import TableCalc.Number.Layout
import TableCalc.Proofs.Number.Nearest

namespace TableCalc.Number

-- ================================================================ literals

/-- A numeral as it is written. Without digits after the point there is no point. -/
structure Literal where
  negative : Bool
  whole : List Char
  fraction : List Char
  /-- Whether the exponent is negative, and its digits; `none` without one. -/
  exponent : Option (Bool × List Char)
  whole_ne_nil : whole ≠ []
  whole_digits : ∀ c ∈ whole, c.isDigit = true
  fraction_digits : ∀ c ∈ fraction, c.isDigit = true
  exponent_ne_nil : ∀ e ∈ exponent, e.2 ≠ []
  exponent_digits : ∀ e ∈ exponent, ∀ c ∈ e.2, c.isDigit = true

namespace Literal

/-- The point and the digits after it. -/
def fractionText (l : Literal) : List Char := if l.fraction = [] then [] else '.' :: l.fraction

/-- The exponent, with its mark and its sign. -/
def exponentText (l : Literal) : List Char :=
  match l.exponent with
  | none => []
  | some (down, ds) => 'e' :: (if down then '-' else '+') :: ds

/-- The text of a literal. -/
def text (l : Literal) : List Char :=
  sign l.negative ++ (l.whole ++ (l.fractionText ++ l.exponentText))

/-- The power of ten that the exponent writes. -/
def power (l : Literal) : Int :=
  match l.exponent with
  | none => 0
  | some (down, ds) => if down then -(valueOf ds : Int) else valueOf ds

/-- The numeral of a literal. -/
def numeral (l : Literal) : Numeral :=
  .decimal l.negative (valueOf (l.whole ++ l.fraction)) (l.power - l.fraction.length)

/-- The exact magnitude that a literal denotes. -/
def magnitude (l : Literal) : ℚ :=
  valueOf (l.whole ++ l.fraction) * 10 ^ (l.power - l.fraction.length)

end Literal

-- ================================================================== digits

theorem isDigit_iff {c : Char} : c.isDigit = true ↔ 48 ≤ c.toNat ∧ c.toNat ≤ 57 := by
  rw [Char.isDigit, Bool.and_eq_true, decide_eq_true_eq, decide_eq_true_eq]
  exact and_congr UInt32.le_iff_toNat_le UInt32.le_iff_toNat_le

theorem isBlank_of_isDigit {c : Char} (h : c.isDigit = true) : Text.isBlank c = false := by
  have hbounds := isDigit_iff.mp h
  simp only [Text.isBlank, Bool.or_eq_false_iff, Bool.and_eq_false_iff, decide_eq_false_iff_not,
    beq_eq_false_iff_ne]
  omega

/-- Digits are taken up to what is no digit. -/
theorem takeDigits_append {ds r : List Char} (hds : ∀ c ∈ ds, c.isDigit = true)
    (hr : ∀ c ∈ r.head?, c.isDigit = false) : takeDigits (ds ++ r) = (ds, r) := by
  induction ds with
  | nil =>
      cases r with
      | nil => rfl
      | cons c r =>
          have hc : c.isDigit = false := hr c rfl
          simp [takeDigits, hc]
  | cons c ds ih =>
      have hc := hds c List.mem_cons_self
      have htail := ih fun d hd => hds d (List.mem_cons_of_mem c hd)
      rw [takeDigits, Prod.mk.injEq] at htail
      simp [takeDigits, hc, htail]

-- ================================================================ scanning

namespace Literal

variable (l : Literal)

/-- What follows the digits before the point is no digit. -/
theorem head?_rest : ∀ c ∈ (l.fractionText ++ l.exponentText).head?, c.isDigit = false := by
  intro c hc
  unfold fractionText exponentText at hc
  split at hc
  · split at hc
    · cases hc
    · cases hc
      rfl
  · cases hc
    rfl

/-- What follows the digits after the point is no digit. -/
theorem head?_exponentText : ∀ c ∈ l.exponentText.head?, c.isDigit = false := by
  intro c hc
  unfold exponentText at hc
  split at hc
  · cases hc
  · cases hc
    rfl

theorem takeFraction_text :
    takeFraction l.whole (l.fractionText ++ l.exponentText) = (l.fraction, l.exponentText) := by
  unfold fractionText
  split
  case isTrue hnone =>
    rw [hnone, List.nil_append]
    unfold exponentText
    split
    · rfl
    · rfl
  case isFalse hsome =>
    have hdigits := takeDigits_append l.fraction_digits l.head?_exponentText
    rw [List.cons_append, takeFraction, hdigits]
    simp [hsome]

theorem takeExponent_text : takeExponent l.exponentText = (l.power, []) := by
  unfold exponentText power
  cases he : l.exponent with
  | none => rfl
  | some e =>
      obtain ⟨down, ds⟩ := e
      have hne : ds.isEmpty = false := List.isEmpty_eq_false_iff.mpr (l.exponent_ne_nil _ he)
      have hdigits : takeDigits ds = (ds, []) := by
        have htaken := takeDigits_append (r := []) (l.exponent_digits _ he) nofun
        rwa [List.append_nil] at htaken
      cases down with
      | true => simp [takeExponent, takeSign, hdigits, hne]
      | false => simp [takeExponent, takeSign, hdigits, hne]

theorem takeDecimal_text : takeDecimal (l.whole ++ (l.fractionText ++ l.exponentText)) =
    some (valueOf (l.whole ++ l.fraction), l.power - l.fraction.length, []) := by
  have hne : l.whole.isEmpty = false := List.isEmpty_eq_false_iff.mpr l.whole_ne_nil
  have hdigits := takeDigits_append l.whole_digits l.head?_rest
  simp only [takeDecimal, hdigits, l.takeFraction_text, l.takeExponent_text, hne, Bool.false_and,
    Bool.false_eq_true, if_false]

/-- The digits of a literal start with a digit, which is neither white space, nor a sign, nor the
first letter of a word. -/
theorem exists_whole : ∃ c r, l.whole = c :: r ∧ c.isDigit = true := by
  obtain ⟨c, r, hcons⟩ := List.exists_cons_of_ne_nil l.whole_ne_nil
  exact ⟨c, r, hcons, l.whole_digits c (hcons ▸ List.mem_cons_self)⟩

theorem takeSign_text : takeSign (Text.trimStart l.text) =
    (l.negative, l.whole ++ (l.fractionText ++ l.exponentText)) := by
  obtain ⟨c, r, hcons, hc⟩ := l.exists_whole
  unfold text
  cases l.negative with
  | true => rfl
  | false =>
      have hblank := isBlank_of_isDigit hc
      have hminus : c ≠ '-' := by
        rintro rfl
        cases hc
      have hplus : c ≠ '+' := by
        rintro rfl
        cases hc
      simp [sign, Text.trimStart, takeSign, hcons, hblank, hminus, hplus]

theorem dropWord?_text :
    dropWord? "Infinity".toList (l.whole ++ (l.fractionText ++ l.exponentText)) = none := by
  obtain ⟨c, r, hcons, hc⟩ := l.exists_whole
  have hword : "Infinity".toList = 'I' :: "nfinity".toList := by decide
  have hletter : 'I' ≠ c := by
    rintro rfl
    cases hc
  rw [hword, hcons, List.cons_append, dropWord?, if_neg hletter]

/-- A literal is read whole, as its numeral. -/
theorem scan_text : Numeral.scan l.text = some (l.numeral, []) := by
  simp only [Numeral.scan, l.takeSign_text, l.dropWord?_text, l.takeDecimal_text, Option.map_some]
  rfl

/-- A literal is written with digits and four other characters. -/
theorem isDigit_or_mem_of_mem_text {c : Char} (hc : c ∈ l.text) :
    c.isDigit = true ∨ c ∈ ['-', '+', '.', 'e'] := by
  unfold text at hc
  rcases List.mem_append.mp hc with hc | hc
  · unfold sign at hc
    split at hc
    · exact .inr (List.mem_singleton.mp hc ▸ by simp)
    · cases hc
  rcases List.mem_append.mp hc with hc | hc
  · exact .inl (l.whole_digits c hc)
  rcases List.mem_append.mp hc with hc | hc
  · unfold fractionText at hc
    split at hc
    · cases hc
    · rcases List.mem_cons.mp hc with rfl | hc
      · exact .inr (by simp)
      · exact .inl (l.fraction_digits c hc)
  · unfold exponentText at hc
    split at hc
    case h_1 => cases hc
    case h_2 down ds he =>
      rcases List.mem_cons.mp hc with rfl | hc
      · exact .inr (by simp)
      rcases List.mem_cons.mp hc with rfl | hc
      · exact .inr (by cases down <;> simp)
      · exact .inl (l.exponent_digits _ he c hc)

/-- A literal has no white space in it. -/
theorem isBlank_of_mem_text {c : Char} (hc : c ∈ l.text) : Text.isBlank c = false := by
  rcases l.isDigit_or_mem_of_mem_text hc with hc | hc
  · exact isBlank_of_isDigit hc
  · have hmarks : ['-', '+', '.', 'e'].all (fun c => !Text.isBlank c) = true := by decide
    simpa using List.all_eq_true.mp hmarks c hc

theorem trim_text : Text.trim l.text = l.text := by
  have hkeep : ∀ s : List Char, s ⊆ l.text → s.dropWhile Text.isBlank = s := by
    intro s hs
    cases s with
    | nil => rfl
    | cons c r =>
        have hc := l.isBlank_of_mem_text (hs List.mem_cons_self)
        rw [List.dropWhile_cons, hc]
        rfl
  have hstart : Text.trimStart l.text = l.text := hkeep _ (List.Subset.refl _)
  rw [Text.trim, hstart, Text.trimEnd, hkeep _ (List.reverse_subset.mpr (List.Subset.refl _)),
    List.reverse_reverse]

/-- A literal below the limit has a finite double. -/
theorem isFinite_value (h : l.magnitude < limit) : l.numeral.value.isFinite = true :=
  isFinite_nearestDecimal l.negative h

end Literal

-- ================================================================== cells

/-- A text that is a literal, and of a finite double. -/
def WritesFinite (s : List Char) : Prop := ∃ l : Literal, l.text = s ∧ l.magnitude < limit

variable {raw : String}

theorem WritesFinite.number? (h : WritesFinite raw.toList) :
    ∃ x, Cell.number? raw = some x ∧ x.isFinite = true := by
  obtain ⟨l, htext, hlimit⟩ := h
  refine ⟨l.numeral.value, ?_, l.isFinite_value hlimit⟩
  rw [Cell.number?, ← htext, l.scan_text]
  rfl

theorem WritesFinite.wholeNumber? (h : WritesFinite raw.toList) :
    ∃ x, Cell.wholeNumber? raw = some x ∧ x.isFinite = true := by
  obtain ⟨l, htext, hlimit⟩ := h
  refine ⟨l.numeral.value, ?_, l.isFinite_value hlimit⟩
  rw [Cell.wholeNumber?, ← htext, l.trim_text, l.scan_text]

theorem WritesFinite.isNumeric (h : WritesFinite raw.toList) : Cell.isNumeric raw = true := by
  obtain ⟨x, hx, hfinite⟩ := h.number?
  rw [Cell.isNumeric, hx, Bool.or_eq_true]
  exact .inr hfinite

end TableCalc.Number
