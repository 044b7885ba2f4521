/-
The texts that are numerals, and that the scanner takes the longest one of them. The grammar is a
type of trees: a `Spelling` is white space, an optional sign and a body, which is `Infinity` or a
mantissa with an optional exponent. What a tree spells is its `text`, what it means its `numeral`.

Two facts carry the rest. Whatever the scanner takes is the text of a spelling
(`exists_spelling_of_scan`). And in front of any text the scanner takes all of a spelling, possibly
more (`scan_text_append`): each piece leaves an end of what follows the piece. So a text without a
spelling at its front is the only one that it refuses (`scan_eq_none_iff`), and what it takes is
the longest spelling there is (`exists_longest_of_scan`).
-/

import Mathlib
import TableCalc.Proofs.Number.Exact
import TableCalc.Proofs.Number.Layout

namespace TableCalc.Number

-- ============================================================= the grammar

/-- Digits, one at least. -/
structure Digits where
  list : List Char
  ne_nil : list ≠ []
  isDigit : ∀ c ∈ list, c.isDigit = true

/-- A sign, or none. -/
inductive Sign where
  | absent
  | plus
  | minus

namespace Sign

def text : Sign → List Char
  | absent => []
  | plus => ['+']
  | minus => ['-']

def negative : Sign → Bool
  | minus => true
  | _ => false

end Sign

/-- The digits of a decimal: `D+`, `D+ . D*` or `. D+`. -/
inductive Mantissa where
  | whole (ds : Digits)
  | pointed (ds : Digits) (fs : List Char) (isDigit : ∀ c ∈ fs, c.isDigit = true)
  | fraction (fs : Digits)

namespace Mantissa

def text : Mantissa → List Char
  | whole ds => ds.list
  | pointed ds fs _ => ds.list ++ '.' :: fs
  | fraction fs => '.' :: fs.list

/-- The digits before the point. -/
def before : Mantissa → List Char
  | whole ds => ds.list
  | pointed ds _ _ => ds.list
  | fraction _ => []

/-- The digits behind the point. -/
def behind : Mantissa → List Char
  | whole _ => []
  | pointed _ fs _ => fs
  | fraction fs => fs.list

end Mantissa

/-- An exponent: a mark, an optional sign, and digits. -/
structure Exponent where
  mark : Char
  isMark : mark = 'e' ∨ mark = 'E'
  sign : Sign
  digits : Digits

namespace Exponent

/-- What stands behind the mark. -/
def unmarked (e : Exponent) : List Char := e.sign.text ++ e.digits.list

def power (e : Exponent) : Int :=
  if e.sign.negative then -(valueOf e.digits.list : Int) else valueOf e.digits.list

/-- The text of an exponent that may be left out. -/
def textOf : Option Exponent → List Char
  | none => []
  | some e => e.mark :: e.unmarked

/-- The power of an exponent that may be left out. -/
def powerOf : Option Exponent → Int
  | none => 0
  | some e => e.power

end Exponent

/-- What stands behind the sign of a numeral. -/
inductive Body where
  | infinity
  | decimal (mantissa : Mantissa) (exponent : Option Exponent)

def Body.text : Body → List Char
  | infinity => ['I', 'n', 'f', 'i', 'n', 'i', 't', 'y']
  | decimal mantissa exponent => mantissa.text ++ Exponent.textOf exponent

theorem Body.infinity_text : Body.infinity.text = "Infinity".toList := by decide

/-- A numeral as it may be spelt. -/
structure Spelling where
  blanks : List Char
  isBlank : ∀ c ∈ blanks, Text.isBlank c = true
  sign : Sign
  body : Body

namespace Spelling

def text (s : Spelling) : List Char := s.blanks ++ (s.sign.text ++ s.body.text)

def numeral (s : Spelling) : Numeral :=
  match s.body with
  | .infinity => .infinity s.sign.negative
  | .decimal m e =>
    .decimal s.sign.negative (valueOf (m.before ++ m.behind)) (Exponent.powerOf e - m.behind.length)

/-- A text begins with the spelling, and with no longer one. -/
def LongestIn (s : Spelling) (t : List Char) : Prop :=
  s.text <+: t ∧ ∀ s' : Spelling, s'.text <+: t → s'.text <+: s.text

end Spelling

-- ====================================================== what a piece takes

/-- Digits and what follows them make up the text. -/
theorem takeDigits_eq {s ds r : List Char} (h : takeDigits s = (ds, r)) :
    ds ++ r = s ∧ ∀ c ∈ ds, c.isDigit = true := by
  cases h
  exact ⟨List.takeWhile_append_dropWhile, fun c hc => List.mem_takeWhile_imp hc⟩

theorem exists_sign (s : List Char) :
    ∃ sign : Sign, sign.text ++ (takeSign s).2 = s ∧ (takeSign s).1 = sign.negative := by
  unfold takeSign
  split
  · exact ⟨.minus, rfl, rfl⟩
  · exact ⟨.plus, rfl, rfl⟩
  · exact ⟨.absent, rfl, rfl⟩

/-- The digits around a point are a mantissa, unless there are none. -/
theorem exists_mantissa {s whole t fraction r : List Char} (hwhole : takeDigits s = (whole, t))
    (hfraction : takeFraction whole t = (fraction, r)) (hsome : ¬ (whole = [] ∧ fraction = [])) :
    ∃ m : Mantissa, m.text ++ r = s ∧ m.before = whole ∧ m.behind = fraction := by
  obtain ⟨hsplit, hdigits⟩ := takeDigits_eq hwhole
  unfold takeFraction at hfraction
  split at hfraction
  case h_1 u =>
    obtain ⟨fs, v, htail⟩ : ∃ fs v, takeDigits u = (fs, v) := ⟨_, _, rfl⟩
    obtain ⟨hjoined, hisDigit⟩ := takeDigits_eq htail
    by_cases hnil : whole = []
    · by_cases hlone : fs = []
      · simp [htail, hnil, hlone] at hfraction
        simp [hnil, hfraction] at hsome
      · simp [htail, hlone] at hfraction
        refine ⟨.fraction ⟨fs, hlone, hisDigit⟩, ?_, hnil.symm, hfraction.1⟩
        simp [Mantissa.text, ← hsplit, hnil, ← hjoined, hfraction]
    · simp [htail, hnil] at hfraction
      refine ⟨.pointed ⟨whole, hnil, hdigits⟩ fs hisDigit, ?_, rfl, hfraction.1⟩
      simp [Mantissa.text, ← hsplit, ← hjoined, hfraction]
  case h_2 =>
    obtain ⟨rfl, rfl⟩ := Prod.mk.inj hfraction
    have hne : whole ≠ [] := fun hnil => hsome ⟨hnil, rfl⟩
    exact ⟨.whole ⟨whole, hne, hdigits⟩, hsplit, rfl, rfl⟩

/-- Where an exponent is taken it is one, with its power; where none is, no digits follow a mark. -/
theorem takeExponent_cases (s : List Char) :
    (takeExponent s = (0, s)
      ∧ ∀ c r, s = c :: r → c = 'e' ∨ c = 'E' → (takeDigits (takeSign r).2).1 = [])
    ∨ ∃ (e : Exponent) (r : List Char), s = e.mark :: (e.unmarked ++ r)
      ∧ takeExponent s = (e.power, r) ∧ (takeSign (e.unmarked ++ r)).2 = e.digits.list ++ r
      ∧ takeDigits (e.digits.list ++ r) = (e.digits.list, r) := by
  cases s with
  | nil => exact .inl ⟨rfl, nofun⟩
  | cons c t =>
      by_cases hmark : c = 'e' ∨ c = 'E'
      case neg =>
        refine .inl ⟨by simp [takeExponent, hmark], ?_⟩
        rintro c r ⟨⟩ hc
        exact absurd hc hmark
      case pos =>
        obtain ⟨sign, hsign, hnegative⟩ := exists_sign t
        obtain ⟨ds, r, htaken⟩ : ∃ ds r, takeDigits (takeSign t).2 = (ds, r) := ⟨_, _, rfl⟩
        obtain ⟨hjoined, hdigits⟩ := takeDigits_eq htaken
        by_cases hnil : ds = []
        · refine .inl ⟨by simp [takeExponent, hmark, htaken, hnil], ?_⟩
          rintro c r ⟨⟩ -
          rw [htaken, hnil]
        · refine .inr ⟨⟨c, hmark, sign, ds, hnil, hdigits⟩, r, ?_, ?_, ?_, ?_⟩
          · simp [Exponent.unmarked, hjoined, hsign]
          · simp [takeExponent, hmark, htaken, hnil, Exponent.power, hnegative]
          · simp [Exponent.unmarked, hjoined, hsign]
          · rw [hjoined, htaken]

/-- What is taken as an exponent is one, with its power, or nothing. -/
theorem exists_exponent (s : List Char) : ∃ e : Option Exponent,
    Exponent.textOf e ++ (takeExponent s).2 = s ∧ (takeExponent s).1 = Exponent.powerOf e := by
  rcases takeExponent_cases s with ⟨hnone, -⟩ | ⟨e, r, rfl, htaken, -⟩
  · exact ⟨none, by rw [hnone]; rfl, by rw [hnone]; rfl⟩
  · exact ⟨some e, by rw [htaken]; rfl, by rw [htaken]; rfl⟩

/-- What is taken as a decimal is a mantissa and an exponent. -/
theorem exists_decimal {s rest : List Char} {digits : Nat} {exponent : Int}
    (h : takeDecimal s = some (digits, exponent, rest)) :
    ∃ (m : Mantissa) (e : Option Exponent), m.text ++ (Exponent.textOf e ++ rest) = s
      ∧ digits = valueOf (m.before ++ m.behind)
      ∧ exponent = Exponent.powerOf e - m.behind.length := by
  obtain ⟨whole, t, hwhole⟩ : ∃ whole t, takeDigits s = (whole, t) := ⟨_, _, rfl⟩
  obtain ⟨fraction, r, hfraction⟩ : ∃ fraction r, takeFraction whole t = (fraction, r) :=
    ⟨_, _, rfl⟩
  simp only [takeDecimal, hwhole, hfraction] at h
  split at h
  case isTrue => cases h
  case isFalse hsome =>
    obtain ⟨e, htext, hpower⟩ := exists_exponent r
    obtain ⟨m, hmantissa, rfl, rfl⟩ := exists_mantissa hwhole hfraction (by simpa using hsome)
    injection h with h
    simp only [Prod.mk.injEq] at h
    obtain ⟨rfl, rfl, rfl⟩ := h
    exact ⟨m, e, by rw [htext, hmantissa], rfl, by rw [hpower]⟩

theorem dropWord?_eq_some {word s rest : List Char} :
    dropWord? word s = some rest ↔ word ++ rest = s := by
  induction word generalizing s with
  | nil => simp [dropWord?, eq_comm]
  | cons w word ih =>
      cases s with
      | nil => simp [dropWord?]
      | cons c s =>
          by_cases hc : w = c
          · simp [dropWord?, hc, ih]
          · simp [dropWord?, hc]

/-- What the scanner takes is the text of a spelling of the numeral that it reads. -/
theorem exists_spelling_of_scan {s rest : List Char} {n : Numeral}
    (h : Numeral.scan s = some (n, rest)) :
    ∃ sp : Spelling, sp.text ++ rest = s ∧ sp.numeral = n := by
  have hblanks : s.takeWhile Text.isBlank ++ Text.trimStart s = s := List.takeWhile_append_dropWhile
  have hisBlank : ∀ c ∈ s.takeWhile Text.isBlank, Text.isBlank c = true :=
    fun c hc => List.mem_takeWhile_imp hc
  obtain ⟨sign, hsign, hnegative⟩ := exists_sign (Text.trimStart s)
  simp only [Numeral.scan] at h
  split at h
  case h_1 rest' hword =>
    cases h
    refine ⟨⟨_, hisBlank, sign, .infinity⟩, ?_, ?_⟩
    · rw [Spelling.text, Body.infinity_text, List.append_assoc, List.append_assoc,
        dropWord?_eq_some.mp hword, hsign, hblanks]
    · rw [Spelling.numeral, hnegative]
  case h_2 =>
    obtain ⟨⟨digits, exponent, rest'⟩, hdecimal, hread⟩ := Option.map_eq_some_iff.mp h
    cases hread
    obtain ⟨m, e, htext, rfl, rfl⟩ := exists_decimal hdecimal
    refine ⟨⟨_, hisBlank, sign, .decimal m e⟩, ?_, ?_⟩
    · rw [Spelling.text, Body.text, List.append_assoc, List.append_assoc, List.append_assoc, htext,
        hsign, hblanks]
    · rw [Spelling.numeral, hnegative]

-- =================================================== what a piece leaves

/-- Digits in front are taken with those that follow. -/
theorem takeDigits_digits_append {ds : List Char} (hds : ∀ c ∈ ds, c.isDigit = true)
    (r : List Char) : takeDigits (ds ++ r) = (ds ++ (takeDigits r).1, (takeDigits r).2) := by
  unfold takeDigits
  rw [List.takeWhile_append_of_pos hds, List.dropWhile_append_of_pos hds]

theorem takeDigits_suffix (s : List Char) : (takeDigits s).2 <:+ s := List.dropWhile_suffix _

theorem takeFraction_suffix (whole s : List Char) : (takeFraction whole s).2 <:+ s := by
  unfold takeFraction
  split
  case h_1 r =>
    simp only
    split
    · exact List.suffix_refl _
    · exact (takeDigits_suffix r).trans (List.suffix_cons ..)
  case h_2 => exact List.suffix_refl _

theorem takeExponent_suffix (s : List Char) : (takeExponent s).2 <:+ s := by
  obtain ⟨e, htext, -⟩ := exists_exponent s
  exact ⟨_, htext⟩

/-- A sign is taken off what does not begin with one. -/
theorem takeSign_append (sign : Sign) {c : Char} (r : List Char) (hminus : c ≠ '-')
    (hplus : c ≠ '+') : takeSign (sign.text ++ c :: r) = (sign.negative, c :: r) := by
  cases sign with
  | absent => simp [Sign.text, Sign.negative, takeSign, hminus, hplus]
  | plus => rfl
  | minus => rfl

theorem ne_of_isDigit {c d : Char} (hc : c.isDigit = true) (hd : d.isDigit = false) : c ≠ d := by
  intro heq
  rw [heq, hd] at hc
  cases hc

theorem Digits.exists_cons (ds : Digits) : ∃ c r, ds.list = c :: r ∧ c.isDigit = true := by
  obtain ⟨c, r, hcons⟩ := List.exists_cons_of_ne_nil ds.ne_nil
  exact ⟨c, r, hcons, ds.isDigit c (hcons ▸ List.mem_cons_self)⟩

/-- An exponent is taken with the digits that follow it. -/
theorem takeExponent_append (e : Exponent) (r : List Char) :
    takeExponent (Exponent.textOf (some e) ++ r) =
      (if e.sign.negative then -(valueOf (e.digits.list ++ (takeDigits r).1) : Int)
        else valueOf (e.digits.list ++ (takeDigits r).1), (takeDigits r).2) := by
  obtain ⟨c, t, hcons, hc⟩ := e.digits.exists_cons
  have hsign : takeSign (e.sign.text ++ (e.digits.list ++ r))
      = (e.sign.negative, e.digits.list ++ r) := by
    rw [hcons, List.cons_append]
    exact takeSign_append e.sign _ (ne_of_isDigit hc rfl) (ne_of_isDigit hc rfl)
  have hdigits := takeDigits_digits_append e.digits.isDigit r
  have hne := e.digits.ne_nil
  simp [Exponent.textOf, Exponent.unmarked, takeExponent, e.isMark, hsign, hdigits, hne]

/-- Behind a point, and next to digits on either side of it, digits are taken with those that
follow. -/
theorem takeFraction_append {whole fraction : List Char} (hfraction : ∀ c ∈ fraction, c.isDigit = true)
    (hne : ¬ (whole = [] ∧ fraction = [])) (r : List Char) :
    takeFraction whole ('.' :: (fraction ++ r))
      = (fraction ++ (takeDigits r).1, (takeDigits r).2) := by
  have hdigits := takeDigits_digits_append hfraction r
  have hsome : ¬ (whole = [] ∧ fraction = [] ∧ (takeDigits r).1 = []) := fun h => hne ⟨h.1, h.2.1⟩
  simp [takeFraction, hdigits, hsome]

/-- A mantissa is taken in front of any text, possibly with more digits. -/
theorem takeFraction_mantissa (m : Mantissa) (r : List Char) : ∃ whole t fraction rest,
    takeDigits (m.text ++ r) = (whole, t) ∧ takeFraction whole t = (fraction, rest)
      ∧ ¬ (whole = [] ∧ fraction = []) ∧ rest <:+ r := by
  cases m with
  | whole ds =>
      refine ⟨_, _, _, _, takeDigits_digits_append ds.isDigit r, rfl, ?_, ?_⟩
      · simp [ds.ne_nil]
      · exact (takeFraction_suffix ..).trans (takeDigits_suffix r)
  | pointed ds fraction hfraction =>
      have hwhole : takeDigits ((Mantissa.pointed ds fraction hfraction).text ++ r)
          = (ds.list, '.' :: (fraction ++ r)) := by
        rw [Mantissa.text, List.append_assoc, List.cons_append]
        exact takeDigits_append ds.isDigit (by simp)
      have hne : ¬ (ds.list = [] ∧ fraction = []) := fun h => ds.ne_nil h.1
      refine ⟨_, _, _, _, hwhole, takeFraction_append hfraction hne r, ?_, takeDigits_suffix r⟩
      simp [ds.ne_nil]
  | fraction ds =>
      have hwhole : takeDigits ((Mantissa.fraction ds).text ++ r) = ([], '.' :: (ds.list ++ r)) := rfl
      have hne : ¬ (([] : List Char) = [] ∧ ds.list = []) := fun h => ds.ne_nil h.2
      refine ⟨_, _, _, _, hwhole, takeFraction_append ds.isDigit hne r, ?_, takeDigits_suffix r⟩
      simp [ds.ne_nil]

/-- What ends a mantissa: nothing, or an exponent mark. -/
def EndsMantissa (r : List Char) : Prop := ∀ c ∈ r.head?, c = 'e' ∨ c = 'E'

theorem endsMantissa_exponent (e : Exponent) (r : List Char) :
    EndsMantissa (Exponent.textOf (some e) ++ r) := by
  simpa [EndsMantissa, Exponent.textOf] using e.isMark

theorem endsMantissa_textOf (e : Option Exponent) : EndsMantissa (Exponent.textOf e) := by
  cases e with
  | none => simp [EndsMantissa, Exponent.textOf]
  | some e => simpa using endsMantissa_exponent e []

theorem EndsMantissa.takeDigits {r : List Char} (hr : EndsMantissa r) :
    takeDigits r = ([], r) := by
  cases r with
  | nil => rfl
  | cons c r =>
      have hc : c.isDigit = false := by
        rcases hr c rfl with rfl | rfl
        · rfl
        · rfl
      simp [Number.takeDigits, hc]

theorem EndsMantissa.takeFraction {r : List Char} (hr : EndsMantissa r) (whole : List Char) :
    takeFraction whole r = ([], r) := by
  cases r with
  | nil => rfl
  | cons c r =>
      have hc : c ≠ '.' := by
        rcases hr c rfl with rfl | rfl
        · decide
        · decide
      simp [Number.takeFraction, hc]

/-- Before what ends it a mantissa is taken exactly. -/
theorem takeFraction_mantissa_of_ends (m : Mantissa) {r : List Char} (hr : EndsMantissa r) :
    ∃ t, takeDigits (m.text ++ r) = (m.before, t) ∧ takeFraction m.before t = (m.behind, r) := by
  cases m with
  | whole ds =>
      refine ⟨r, ?_, hr.takeFraction _⟩
      simpa [Mantissa.text, Mantissa.before, hr.takeDigits] using
        takeDigits_digits_append ds.isDigit r
  | pointed ds fs hfs =>
      have hne : ¬ (ds.list = [] ∧ fs = []) := fun h => ds.ne_nil h.1
      refine ⟨'.' :: (fs ++ r), ?_, ?_⟩
      · rw [Mantissa.text, List.append_assoc, List.cons_append]
        exact takeDigits_append ds.isDigit (by simp)
      · simpa [Mantissa.before, Mantissa.behind, hr.takeDigits] using takeFraction_append hfs hne r
  | fraction fs =>
      have hne : ¬ (([] : List Char) = [] ∧ fs.list = []) := fun h => fs.ne_nil h.2
      refine ⟨'.' :: (fs.list ++ r), rfl, ?_⟩
      simpa [Mantissa.before, Mantissa.behind, hr.takeDigits] using
        takeFraction_append fs.isDigit hne r

theorem Mantissa.some_digit (m : Mantissa) : ¬ (m.before = [] ∧ m.behind = []) := by
  cases m with
  | whole ds => exact fun h => ds.ne_nil h.1
  | pointed ds fs hfs => exact fun h => ds.ne_nil h.1
  | fraction fs => exact fun h => fs.ne_nil h.2

/-- A decimal is taken in front of any text, possibly with more digits or an exponent. -/
theorem takeDecimal_append (m : Mantissa) (e : Option Exponent) (r : List Char) :
    ∃ taken, takeDecimal (m.text ++ (Exponent.textOf e ++ r)) = some taken ∧ taken.2.2 <:+ r := by
  cases e with
  | none =>
      obtain ⟨whole, t, fraction, u, hwhole, hfraction, hsome, hu⟩ := takeFraction_mantissa m r
      refine ⟨(valueOf (whole ++ fraction), (takeExponent u).1 - fraction.length,
        (takeExponent u).2), ?_, (takeExponent_suffix u).trans hu⟩
      simp [takeDecimal, Exponent.textOf, hwhole, hfraction, hsome]
  | some e =>
      obtain ⟨t, hwhole, hfraction⟩ := takeFraction_mantissa_of_ends m (endsMantissa_exponent e r)
      have hsome : ¬ (m.before.isEmpty && m.behind.isEmpty) = true := by simpa using m.some_digit
      simp only [takeDecimal, hwhole, hfraction, if_neg hsome, takeExponent_append]
      exact ⟨_, rfl, takeDigits_suffix r⟩

/-- A text that is a decimal is taken whole. -/
theorem takeDecimal_decimal (m : Mantissa) (e : Option Exponent) :
    takeDecimal (m.text ++ Exponent.textOf e) =
      some (valueOf (m.before ++ m.behind), Exponent.powerOf e - m.behind.length, []) := by
  obtain ⟨t, hwhole, hfraction⟩ := takeFraction_mantissa_of_ends m (endsMantissa_textOf e)
  have hexponent : takeExponent (Exponent.textOf e) = (Exponent.powerOf e, []) := by
    cases e with
    | none => rfl
    | some e => simpa [takeDigits, Exponent.powerOf, Exponent.power] using takeExponent_append e []
  simp [takeDecimal, hwhole, hfraction, m.some_digit, hexponent]

-- ========================================================= the longest one

/-- A body begins with what is neither white space nor a sign. -/
theorem Body.exists_cons (b : Body) : ∃ c r, b.text = c :: r ∧ Text.isBlank c = false
    ∧ c ≠ '-' ∧ c ≠ '+' := by
  have hdigit : ∀ c : Char, c.isDigit = true → Text.isBlank c = false ∧ c ≠ '-' ∧ c ≠ '+' :=
    fun c hc => ⟨isBlank_of_isDigit hc, ne_of_isDigit hc rfl, ne_of_isDigit hc rfl⟩
  cases b with
  | infinity => exact ⟨'I', _, rfl, by decide, by decide, by decide⟩
  | decimal m e =>
      cases m with
      | whole ds =>
          obtain ⟨c, r, hcons, hc⟩ := ds.exists_cons
          exact ⟨c, r ++ Exponent.textOf e, by simp [text, Mantissa.text, hcons], hdigit c hc⟩
      | pointed ds fs hfs =>
          obtain ⟨c, r, hcons, hc⟩ := ds.exists_cons
          exact ⟨c, r ++ '.' :: fs ++ Exponent.textOf e, by simp [text, Mantissa.text, hcons],
            hdigit c hc⟩
      | fraction fs => exact ⟨'.', fs.list ++ Exponent.textOf e, rfl, by decide, by decide, by decide⟩

/-- White space and sign come off in front of a body. -/
theorem takeSign_text_append (sp : Spelling) (r : List Char) :
    takeSign (Text.trimStart (sp.text ++ r)) = (sp.sign.negative, sp.body.text ++ r) := by
  obtain ⟨c, t, hcons, hblank, hminus, hplus⟩ := sp.body.exists_cons
  have htrim : Text.trimStart (sp.text ++ r) = sp.sign.text ++ c :: (t ++ r) := by
    rw [Spelling.text, List.append_assoc, List.append_assoc, hcons, List.cons_append,
      Text.trimStart, List.dropWhile_append_of_pos sp.isBlank]
    cases sp.sign with
    | absent => simp [Sign.text, hblank]
    | plus => rfl
    | minus => rfl
  rw [htrim, takeSign_append _ _ hminus hplus, hcons, List.cons_append]

/-- A decimal does not begin with the word. -/
theorem dropWord?_decimal (m : Mantissa) (r : List Char) :
    dropWord? "Infinity".toList (m.text ++ r) = none := by
  have hletter : ∀ c : Char, c.isDigit = true → 'I' ≠ c :=
    fun c hc => (ne_of_isDigit hc rfl).symm
  rw [← Body.infinity_text]
  cases m with
  | whole ds =>
      obtain ⟨c, t, hcons, hc⟩ := ds.exists_cons
      simp [Body.text, Mantissa.text, hcons, dropWord?, hletter c hc]
  | pointed ds fs hfs =>
      obtain ⟨c, t, hcons, hc⟩ := ds.exists_cons
      simp [Body.text, Mantissa.text, hcons, dropWord?, hletter c hc]
  | fraction fs => simp [Body.text, Mantissa.text, dropWord?]

/-- The scanner takes a numeral in front of any text, and leaves an end of that text. -/
theorem scan_text_append (sp : Spelling) (r : List Char) :
    ∃ n rest, Numeral.scan (sp.text ++ r) = some (n, rest) ∧ rest <:+ r := by
  have hsign := takeSign_text_append sp r
  cases hbody : sp.body with
  | infinity =>
      rw [hbody] at hsign
      have hword : dropWord? "Infinity".toList (Body.infinity.text ++ r) = some r := by
        rw [dropWord?_eq_some, Body.infinity_text]
      refine ⟨.infinity sp.sign.negative, r, ?_, List.suffix_refl r⟩
      simp only [Numeral.scan, hsign, hword]
  | decimal m e =>
      rw [hbody, Body.text, List.append_assoc] at hsign
      obtain ⟨⟨digits, exponent, rest⟩, hdecimal, hrest⟩ := takeDecimal_append m e r
      refine ⟨.decimal sp.sign.negative digits exponent, rest, ?_, hrest⟩
      simp only [Numeral.scan, hsign, dropWord?_decimal, hdecimal, Option.map_some]

/-- The scanner refuses a text just when no spelling stands in front. -/
theorem scan_eq_none_iff {s : List Char} :
    Numeral.scan s = none ↔ ∀ sp : Spelling, ¬ sp.text <+: s := by
  constructor
  · rintro hnone sp ⟨r, rfl⟩
    obtain ⟨n, rest, hscan, -⟩ := scan_text_append sp r
    rw [hnone] at hscan
    cases hscan
  · intro hnever
    cases hscan : Numeral.scan s with
    | none => rfl
    | some taken =>
        obtain ⟨sp, htext, -⟩ := exists_spelling_of_scan hscan
        exact absurd ⟨_, htext⟩ (hnever sp)

/-- What the scanner takes is the longest spelling in front. -/
theorem exists_longest_of_scan {s rest : List Char} {n : Numeral}
    (h : Numeral.scan s = some (n, rest)) :
    ∃ sp : Spelling, sp.LongestIn s ∧ sp.text ++ rest = s ∧ sp.numeral = n := by
  obtain ⟨sp, htext, hnumeral⟩ := exists_spelling_of_scan h
  refine ⟨sp, ⟨⟨rest, htext⟩, ?_⟩, htext, hnumeral⟩
  rintro sp' ⟨r, hr⟩
  obtain ⟨n', rest', hscan, hrest⟩ := scan_text_append sp' r
  rw [hr, h] at hscan
  cases hscan
  have hlen : sp'.text.length ≤ sp.text.length := by
    have hsame := congrArg List.length (htext.trans hr.symm)
    have hle := hrest.length_le
    simp only [List.length_append] at hsame
    omega
  exact List.prefix_of_prefix_length_le ⟨r, hr⟩ ⟨rest, htext⟩ hlen

-- ======================================================== the normal form

/-- The digits of a list, or a zero if it has none. -/
def Digits.orZero (ds : List Char) (isDigit : ∀ c ∈ ds, c.isDigit = true) : Digits :=
  if h : ds = [] then ⟨['0'], nofun, List.forall_mem_singleton.mpr rfl⟩ else ⟨ds, h, isDigit⟩

theorem Digits.orZero_list {ds : List Char} (isDigit : ∀ c ∈ ds, c.isDigit = true) :
    (orZero ds isDigit).list = if ds = [] then ['0'] else ds := by
  unfold orZero
  split <;> rfl

/-- A zero that stands in for digits before the point or behind it changes no number. -/
theorem valueOf_orZero {whole fraction : List Char} (hwhole : ∀ c ∈ whole, c.isDigit = true)
    (hfraction : ∀ c ∈ fraction, c.isDigit = true) (power : ℤ) :
    (valueOf ((Digits.orZero whole hwhole).list ++ (Digits.orZero fraction hfraction).list) : ℚ)
        * 10 ^ (power - (Digits.orZero fraction hfraction).list.length)
      = valueOf (whole ++ fraction) * 10 ^ (power - fraction.length) := by
  have hbefore : ∀ ds, valueOf ((Digits.orZero whole hwhole).list ++ ds) = valueOf (whole ++ ds) := by
    intro ds
    rw [Digits.orZero_list]
    split
    case isTrue hnil => rw [hnil]; exact valueOf_replicate_append 1 ds
    case isFalse => rfl
  rw [hbefore, Digits.orZero_list]
  split
  case isTrue hnil =>
    have hbehind : valueOf (whole ++ ['0']) = 10 ^ 1 * valueOf whole :=
      valueOf_append_replicate whole 1
    rw [hbehind, hnil, List.append_nil, List.length_singleton, List.length_nil]
    push_cast
    rw [sub_zero, zpow_sub₀ (by norm_num), zpow_one]
    field_simp
  case isFalse => rfl

theorem Mantissa.isDigit_before (m : Mantissa) : ∀ c ∈ m.before, c.isDigit = true := by
  cases m with
  | whole ds => exact ds.isDigit
  | pointed ds fs hfs => exact ds.isDigit
  | fraction fs => exact nofun

theorem Mantissa.isDigit_behind (m : Mantissa) : ∀ c ∈ m.behind, c.isDigit = true := by
  cases m with
  | whole ds => exact nofun
  | pointed ds fs hfs => exact hfs
  | fraction fs => exact fs.isDigit

/-- An exponent with the small mark. -/
def Exponent.small (e : Exponent) : Exponent := ⟨'e', .inl rfl, e.sign, e.digits⟩

namespace Spelling

/-- A spelling in which nothing is left out: `[-] D+ . D+ [e S? D+]`. -/
def IsNormal (s : Spelling) : Prop :=
  s.blanks = [] ∧ s.sign ≠ .plus ∧ ∃ (whole fraction : Digits) (e : Option Exponent),
    s.body = .decimal (.pointed whole fraction.list fraction.isDigit) e ∧ ∀ x ∈ e, x.mark = 'e'

/-- The normal spelling of a decimal. -/
def normal (negative : Bool) (m : Mantissa) (e : Option Exponent) : Spelling where
  blanks := []
  isBlank := nofun
  sign := if negative then .minus else .absent
  body := .decimal (.pointed (.orZero m.before m.isDigit_before)
    (Digits.orZero m.behind m.isDigit_behind).list (Digits.orZero m.behind m.isDigit_behind).isDigit)
    (e.map Exponent.small)

theorem isNormal_normal (negative : Bool) (m : Mantissa) (e : Option Exponent) :
    (normal negative m e).IsNormal := by
  refine ⟨rfl, ?_, _, _, _, rfl, ?_⟩
  · cases negative <;> nofun
  · intro x hx
    obtain ⟨y, -, rfl⟩ := Option.map_eq_some_iff.mp hx
    rfl

/-- The normal spelling of a decimal is the same number. -/
theorem same_normal (negative : Bool) (m : Mantissa) (e : Option Exponent) :
    (normal negative m e).numeral.Same (.decimal negative (valueOf (m.before ++ m.behind))
      (Exponent.powerOf e - m.behind.length)) := by
  have hpower : Exponent.powerOf (e.map Exponent.small) = Exponent.powerOf e := by
    cases e with
    | none => rfl
    | some x => rfl
  refine ⟨?_, ?_⟩
  · cases negative <;> rfl
  · rw [hpower]
    exact valueOf_orZero m.isDigit_before m.isDigit_behind (Exponent.powerOf e)

end Spelling

end TableCalc.Number
