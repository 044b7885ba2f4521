/-
White space around a numeral. Before a numeral it is skipped. Behind a text it is as good as the
end of the text: none of the scanner's lookaheads finds in a blank what it looks for, so every
piece takes what it takes anyway, and the blanks are left over with the rest (`scan_append_blank`).

The strict reading cuts the blanks off and scans what is between them, the lenient one scans the
text as it is. The strict one answers just when blanks are all that the lenient one leaves
(`Cell.wholeNumber?_eq_some_iff`): had the scanner left a blank of the text without its ends, that
text would end in it, and it ends in none (`Text.eq_nil_of_trimEnd_eq_self`).
-/

import Mathlib
import TableCalc.Proofs.Number.Spelling

namespace TableCalc

-- =================================================================== blanks

namespace Text

/-- A text of white space only. -/
def Blank (s : List Char) : Prop := ∀ c ∈ s, isBlank c = true

instance (s : List Char) : Decidable (Blank s) := List.decidableBAll _ s

theorem exists_trimStart (s : List Char) : ∃ a, Blank a ∧ a ++ trimStart s = s :=
  ⟨s.takeWhile isBlank, fun _ hc => List.mem_takeWhile_imp hc, List.takeWhile_append_dropWhile⟩

theorem exists_trimEnd (s : List Char) : ∃ b, Blank b ∧ trimEnd s ++ b = s := by
  obtain ⟨a, ha, hjoined⟩ := exists_trimStart s.reverse
  refine ⟨a.reverse, fun c hc => ha c (List.mem_reverse.mp hc), ?_⟩
  calc trimEnd s ++ a.reverse
      = (a ++ trimStart s.reverse).reverse := (List.reverse_append ..).symm
    _ = s := by rw [hjoined, List.reverse_reverse]

/-- What is cut off at the two ends is white space. -/
theorem exists_trim (s : List Char) : ∃ a b, Blank a ∧ Blank b ∧ a ++ (trim s ++ b) = s := by
  obtain ⟨a, ha, hstart⟩ := exists_trimStart s
  obtain ⟨b, hb, hend⟩ := exists_trimEnd (trimStart s)
  exact ⟨a, b, ha, hb, by rw [trim, hend, hstart]⟩

theorem trimStart_blank_append {a : List Char} (ha : Blank a) (s : List Char) :
    trimStart (a ++ s) = trimStart s :=
  List.dropWhile_append_of_pos ha

/-- Blanks behind a text stay there, unless the text is all blanks itself. -/
theorem trimStart_append_blank {b : List Char} (hb : Blank b) (s : List Char) :
    trimStart (s ++ b) = if trimStart s = [] then [] else trimStart s ++ b := by
  have hnil : b.dropWhile isBlank = [] := List.dropWhile_eq_nil_iff.mpr hb
  simp [trimStart, List.dropWhile_append, hnil]

theorem trimEnd_append_blank {b : List Char} (hb : Blank b) (s : List Char) :
    trimEnd (s ++ b) = trimEnd s := by
  have hreverse : ∀ c ∈ b.reverse, isBlank c = true := fun c hc => hb c (List.mem_reverse.mp hc)
  rw [trimEnd, List.reverse_append, List.dropWhile_append_of_pos hreverse, trimEnd]

theorem trim_blank_append_blank {a b : List Char} (ha : Blank a) (hb : Blank b) (s : List Char) :
    trim (a ++ (s ++ b)) = trim s := by
  rw [trim, trimStart_blank_append ha, trimStart_append_blank hb, trim]
  split
  case isTrue hnil => rw [hnil]
  case isFalse => exact trimEnd_append_blank hb _

/-- A text from whose end nothing is cut off does not end in white space. -/
theorem eq_nil_of_trimEnd_eq_self {s r : List Char} (hr : Blank r)
    (h : trimEnd (s ++ r) = s ++ r) : r = [] := by
  have hprefix : s ++ r <+: s := by
    rw [← h, trimEnd_append_blank hr]
    show s.rdropWhile isBlank <+: s
    exact List.rdropWhile_prefix _ s
  have hle := hprefix.length_le
  rw [List.length_append] at hle
  exact List.eq_nil_of_length_eq_zero (by omega)

end Text

-- =================================================== blanks behind a numeral

namespace Number

open Text

theorem ne_of_isBlank {c d : Char} (hc : isBlank c = true) (hd : isBlank d = false) : c ≠ d := by
  rintro rfl
  simp [hd] at hc

theorem isDigit_of_isBlank {c : Char} (hc : isBlank c = true) : c.isDigit = false := by
  by_contra hdigit
  simp [isBlank_of_isDigit (Bool.eq_true_of_not_eq_false hdigit)] at hc

variable {b : List Char}

theorem takeDigits_append_blank (hb : Blank b) (s : List Char) :
    takeDigits (s ++ b) = ((takeDigits s).1, (takeDigits s).2 ++ b) := by
  induction s with
  | nil =>
      cases b with
      | nil => rfl
      | cons c r => simp [takeDigits, isDigit_of_isBlank (hb c List.mem_cons_self)]
  | cons c s ih =>
      simp only [takeDigits, Prod.mk.injEq] at ih ⊢
      by_cases hc : c.isDigit = true
      · simp [hc, ih]
      · simp [hc]

theorem takeSign_append_blank (hb : Blank b) (s : List Char) :
    takeSign (s ++ b) = ((takeSign s).1, (takeSign s).2 ++ b) := by
  cases s with
  | nil =>
      cases b with
      | nil => rfl
      | cons c r =>
          have hblank := hb c List.mem_cons_self
          have hminus : c ≠ '-' := ne_of_isBlank hblank (by decide)
          have hplus : c ≠ '+' := ne_of_isBlank hblank (by decide)
          simp [takeSign, hminus, hplus]
  | cons c s =>
      by_cases hminus : c = '-'
      · simp [takeSign, hminus]
      · by_cases hplus : c = '+'
        · simp [takeSign, hplus]
        · simp [takeSign, hminus, hplus]

theorem takeFraction_append_blank (hb : Blank b) (whole s : List Char) :
    takeFraction whole (s ++ b) = ((takeFraction whole s).1, (takeFraction whole s).2 ++ b) := by
  cases s with
  | nil =>
      cases b with
      | nil => rfl
      | cons c r =>
          have hpoint : c ≠ '.' := ne_of_isBlank (hb c List.mem_cons_self) (by decide)
          simp [takeFraction, hpoint]
  | cons c s =>
      by_cases hpoint : c = '.'
      · by_cases hlone : whole = [] ∧ (takeDigits s).1 = []
        · simp [takeFraction, hpoint, takeDigits_append_blank hb, hlone]
        · simp [takeFraction, hpoint, takeDigits_append_blank hb, hlone]
      · simp [takeFraction, hpoint]

theorem takeExponent_append_blank (hb : Blank b) (s : List Char) :
    takeExponent (s ++ b) = ((takeExponent s).1, (takeExponent s).2 ++ b) := by
  cases s with
  | nil =>
      cases b with
      | nil => rfl
      | cons c r =>
          have hblank := hb c List.mem_cons_self
          have hsmall : c ≠ 'e' := ne_of_isBlank hblank (by decide)
          have hlarge : c ≠ 'E' := ne_of_isBlank hblank (by decide)
          simp [takeExponent, hsmall, hlarge]
  | cons c s =>
      by_cases hmark : c = 'e' ∨ c = 'E'
      · by_cases hnone : (takeDigits (takeSign s).2).1 = []
        · simp [takeExponent, hmark, takeSign_append_blank hb, takeDigits_append_blank hb, hnone]
        · simp [takeExponent, hmark, takeSign_append_blank hb, takeDigits_append_blank hb, hnone]
      · simp [takeExponent, hmark]

theorem takeDecimal_append_blank (hb : Blank b) (s : List Char) :
    takeDecimal (s ++ b) = (takeDecimal s).map fun t => (t.1, t.2.1, t.2.2 ++ b) := by
  simp only [takeDecimal, takeDigits_append_blank hb, takeFraction_append_blank hb,
    takeExponent_append_blank hb]
  split
  · rfl
  · rfl

/-- A word without blanks in it is found where it stands anyway. -/
theorem dropWord?_append_blank (hb : Blank b) {word : List Char}
    (hword : ∀ w ∈ word, isBlank w = false) (s : List Char) :
    dropWord? word (s ++ b) = (dropWord? word s).map (· ++ b) := by
  induction word generalizing s with
  | nil => rfl
  | cons w word ih =>
      cases s with
      | nil =>
          cases b with
          | nil => rfl
          | cons c r =>
              have hne : w ≠ c := (ne_of_isBlank (hb c List.mem_cons_self)
                (hword w List.mem_cons_self)).symm
              simp [dropWord?, hne]
      | cons c s =>
          by_cases hc : w = c
          · simp [dropWord?, hc, ih fun w hw => hword w (List.mem_cons_of_mem _ hw)]
          · simp [dropWord?, hc]

/-- The scanner takes the same numeral whether or not blanks follow the text. -/
theorem scan_append_blank (hb : Blank b) (s : List Char) :
    Numeral.scan (s ++ b) = (Numeral.scan s).map fun t => (t.1, t.2 ++ b) := by
  by_cases hnil : trimStart s = []
  · have hnone : Numeral.scan s = none := by
      rw [Numeral.scan, hnil]
      rfl
    rw [hnone, Numeral.scan, trimStart_append_blank hb, if_pos hnil]
    rfl
  · have hword : ∀ w ∈ "Infinity".toList, isBlank w = false := by
      rw [← Body.infinity_text]
      simp [Body.text, isBlank]
    simp only [Numeral.scan, trimStart_append_blank hb, if_neg hnil, takeSign_append_blank hb,
      dropWord?_append_blank hb hword, takeDecimal_append_blank hb]
    cases dropWord? "Infinity".toList (takeSign (trimStart s)).2 with
    | some rest => rfl
    | none => simp [Option.map_map, Function.comp_def]

theorem scan_blank_append {a : List Char} (ha : Blank a) (s : List Char) :
    Numeral.scan (a ++ s) = Numeral.scan s := by
  rw [Numeral.scan, trimStart_blank_append ha, Numeral.scan]

end Number

-- ============================================================= the readings

namespace Cell

open Number Text

variable {raw : String} {x : Float}

/-- The strict reading takes the numeral that the scanner takes, if white space is all it leaves. -/
theorem wholeNumber?_eq_some_iff : wholeNumber? raw = some x ↔
    ∃ n rest, Numeral.scan raw.toList = some (n, rest) ∧ Blank rest ∧ n.value = x := by
  obtain ⟨a, b, ha, hb, hraw⟩ := exists_trim raw.toList
  have hscan : Numeral.scan raw.toList
      = (Numeral.scan (trim raw.toList)).map fun t => (t.1, t.2 ++ b) := by
    rw [← scan_append_blank hb, ← scan_blank_append ha (trim raw.toList ++ b), hraw]
  rw [hscan]
  unfold wholeNumber?
  constructor
  · intro h
    split at h
    case h_1 n hn =>
      rw [hn]
      exact ⟨n, b, rfl, hb, Option.some.inj h⟩
    case h_2 => cases h
  · intro h
    obtain ⟨_, _, hmap, hrest, hvalue⟩ := h
    obtain ⟨⟨n, rest⟩, hn, heq⟩ := Option.map_eq_some_iff.mp hmap
    cases heq
    subst hvalue
    -- what the scanner leaves of the trimmed text ends it, and is blank
    obtain ⟨sp, htext, -⟩ := exists_spelling_of_scan hn
    have htrimmed : trimEnd (sp.text ++ rest) = sp.text ++ rest := by
      rw [htext]
      exact List.rdropWhile_idempotent isBlank (trimStart raw.toList)
    have hnil : rest = [] := eq_nil_of_trimEnd_eq_self
      (fun c hc => hrest c (List.mem_append_left b hc)) htrimmed
    rw [hn, hnil]

/-- Where the strict reading answers the lenient one does, and alike. -/
theorem number?_of_wholeNumber? (h : wholeNumber? raw = some x) : number? raw = some x := by
  obtain ⟨n, rest, hscan, -, hvalue⟩ := wholeNumber?_eq_some_iff.mp h
  rw [number?, hscan, Option.map_some, hvalue]

theorem wholeNumber?_blank_append_blank {a b : String} (ha : Blank a.toList) (hb : Blank b.toList)
    (raw : String) : wholeNumber? (a ++ raw ++ b) = wholeNumber? raw := by
  have htrim : trim (a ++ raw ++ b).toList = trim raw.toList := by
    rw [String.toList_append, String.toList_append, List.append_assoc, trim_blank_append_blank ha hb]
  rw [wholeNumber?, htrim, wholeNumber?]

theorem number?_blank_append {a : String} (ha : Blank a.toList) (raw : String) :
    number? (a ++ raw) = number? raw := by
  rw [number?, String.toList_append, scan_blank_append ha, number?]

/-- The two readings differ by what stands behind the numeral. The strict one answers with a number
just when the lenient one does and, behind the longest spelling in front, which is what the lenient
one takes, there is nothing but white space. White space at the ends of a text is nothing to the
strict reading, and white space in front of it is nothing to the lenient one. -/
theorem readings_differ_by_the_rest (raw : String) :
    (∀ x, wholeNumber? raw = some x ↔ number? raw = some x
      ∧ ∃ (sp : Spelling) (rest : List Char), Numeral.scan raw.toList = some (sp.numeral, rest)
        ∧ sp.LongestIn raw.toList ∧ sp.text ++ rest = raw.toList ∧ Blank rest)
    ∧ ∀ a b : String, Blank a.toList → Blank b.toList →
      wholeNumber? (a ++ raw ++ b) = wholeNumber? raw ∧ number? (a ++ raw) = number? raw := by
  refine ⟨fun x => ⟨?_, ?_⟩, fun a b ha hb =>
    ⟨wholeNumber?_blank_append_blank ha hb raw, number?_blank_append ha raw⟩⟩
  · intro h
    obtain ⟨n, rest, hscan, hrest, -⟩ := wholeNumber?_eq_some_iff.mp h
    obtain ⟨sp, hlongest, hjoined, rfl⟩ := exists_longest_of_scan hscan
    exact ⟨number?_of_wholeNumber? h, sp, rest, hscan, hlongest, hjoined, hrest⟩
  · intro h
    obtain ⟨hnumber, sp, rest, hscan, -, -, hrest⟩ := h
    rw [number?, hscan] at hnumber
    exact wholeNumber?_eq_some_iff.mpr ⟨sp.numeral, rest, hscan, hrest, Option.some.inj hnumber⟩

/-- An ideographic space and a tab in front, a no-break space behind. -/
theorem readings_differ_by_the_rest_spaced :
    Blank "\u3000\t".toList ∧ Blank "\u00a0".toList
      ∧ wholeNumber? ("\u3000\t" ++ "-.5e1" ++ "\u00a0") = some (-5.0)
      ∧ number? ("\u3000\t" ++ "-.5e1") = some (-5.0) := by
  have ha : Blank "\u3000\t".toList := by decide
  have hb : Blank "\u00a0".toList := by decide
  obtain ⟨hwhole, hnumber⟩ := (readings_differ_by_the_rest "-.5e1").2 _ _ ha hb
  refine ⟨ha, hb, ?_, ?_⟩
  · rw [hwhole]
    decide +kernel
  · rw [hnumber]
    decide +kernel

end Cell

end TableCalc
