/-
The scanner by byte positions. `Numeral.scan` walks along a list of characters and cannot step
outside it. Here the same numeral is read from the bytes of a text, as positions into them: a piece
is a slice between two positions, and there is no reading at all if the positions are out of order
or out of range, or if one of them is inside a character (`slice?`). The pieces are put together
into a text in which nothing is left out, and a strict reader has the last word on that text.

A position is followed by what is left of the text there (`At`). From each step's rest to the next
one's, the positions stay between characters, so every slice is there, and it is the piece that the
scanner takes (`read?_eq`).
-/

import Mathlib
import TableCalc.Cell
import TableCalc.Proofs.Number.Spelling
import TableCalc.Proofs.Text.Bytes

namespace TableCalc.Number

-- ========================================================== strict decimals

/-- The double of a text that is a decimal from its first character, which may be a sign, to its
last. -/
def decimal? (s : List Char) : Option Float :=
  let (negative, r) := takeSign s
  match takeDecimal r with
  | some (digits, exponent, []) => some (nearestDecimal negative digits exponent)
  | _ => none

/-- A decimal written with all its parts: digits that are left out are a zero. -/
def writtenOut (negative : Bool) (whole fraction exponent : List Char) : List Char :=
  let digits (ds : List Char) := if ds = [] then ['0'] else ds
  sign negative ++ (digits whole ++ '.' :: digits fraction
    ++ if exponent = [] then [] else 'e' :: exponent)

/-- What stands behind the mark of an exponent that may be left out. -/
def Exponent.unmarkedOf : Option Exponent → List Char
  | none => []
  | some e => e.unmarked

theorem Spelling.text_normal (negative : Bool) (m : Mantissa) (e : Option Exponent) :
    (Spelling.normal negative m e).text
      = writtenOut negative m.before m.behind (Exponent.unmarkedOf e) := by
  have hsign : (if negative then Sign.minus else Sign.absent).text = Number.sign negative := by
    cases negative <;> rfl
  have hexponent : Exponent.textOf (e.map Exponent.small)
      = if Exponent.unmarkedOf e = [] then [] else 'e' :: Exponent.unmarkedOf e := by
    cases e with
    | none => rfl
    | some e =>
        have hne : e.unmarked ≠ [] := List.append_ne_nil_of_right_ne_nil _ e.digits.ne_nil
        rw [Exponent.unmarkedOf, if_neg hne]
        rfl
  simp only [text, normal, Body.text, Mantissa.text, writtenOut, hsign, hexponent,
    Digits.orZero_list, List.nil_append]

/-- The strict reader accepts a normal spelling, as its number. -/
theorem decimal?_of_isNormal {sp : Spelling} (h : sp.IsNormal) :
    decimal? sp.text = some sp.numeral.value := by
  obtain ⟨hblanks, -, whole, fraction, e, hbody, -⟩ := h
  obtain ⟨c, r, hcons, -, hminus, hplus⟩ := sp.body.exists_cons
  have hsign : takeSign sp.text = (sp.sign.negative, sp.body.text) := by
    rw [Spelling.text, hblanks, List.nil_append, hcons]
    exact takeSign_append sp.sign r hminus hplus
  simp only [decimal?, hsign, hbody, Body.text, takeDecimal_decimal, Spelling.numeral]
  rfl

/-- Written out or not, a decimal is one number. -/
theorem decimal?_writtenOut (negative : Bool) (m : Mantissa) (e : Option Exponent) :
    decimal? (writtenOut negative m.before m.behind (Exponent.unmarkedOf e))
      = some (Numeral.decimal negative (valueOf (m.before ++ m.behind))
        (Exponent.powerOf e - m.behind.length)).value := by
  rw [← Spelling.text_normal, decimal?_of_isNormal (Spelling.isNormal_normal negative m e),
    (Spelling.same_normal negative m e).value_eq]

-- ============================================================== positions

/-- The byte at a position. -/
def byteAt? (raw : String) (pos : Nat) : Option UInt8 := raw.toUTF8.toList[pos]?

/-- The text between two positions: none if they are out of order, or if one of them is out of
range or inside a character. -/
def slice? (raw : String) (start stop : Nat) : Option (List Char) :=
  if start ≤ stop ∧ String.Pos.Raw.isValid raw ⟨start⟩ ∧ String.Pos.Raw.isValid raw ⟨stop⟩ then
    (Storage.text? ((raw.toUTF8.toList.drop start).take (stop - start))).map String.toList
  else none

/-- The position after the digits from a position on. -/
def skipDigits (raw : String) (pos : Nat) : Nat :=
  if h : ∃ b ∈ byteAt? raw pos, '0'.toUInt8 ≤ b ∧ b ≤ '9'.toUInt8 then skipDigits raw (pos + 1)
  else pos
  termination_by raw.toUTF8.toList.length - pos
  decreasing_by
    obtain ⟨b, hb, -⟩ := h
    have hlt := (List.getElem?_eq_some_iff.mp hb).1
    omega

/-- Whether there is a minus at a position, and the position after a sign. -/
def signAt (raw : String) (pos : Nat) : Bool × Nat :=
  if byteAt? raw pos = some '-'.toUInt8 then (true, pos + 1)
  else if byteAt? raw pos = some '+'.toUInt8 then (false, pos + 1)
  else (false, pos)

/-- The digits behind a point at a position, and the position after them. -/
def fractionAt? (raw : String) (whole : List Char) (pos : Nat) : Option (List Char × Nat) :=
  let stop := skipDigits raw (pos + 1)
  if byteAt? raw pos = some '.'.toUInt8 ∧ (whole ≠ [] ∨ pos + 1 < stop) then
    (slice? raw (pos + 1) stop).map (·, stop)
  else some ([], pos)

/-- What stands behind an exponent mark at a position, and the position after it. -/
def exponentAt? (raw : String) (pos : Nat) : Option (List Char × Nat) :=
  let start := (signAt raw (pos + 1)).2
  let stop := skipDigits raw start
  if (byteAt? raw pos = some 'e'.toUInt8 ∨ byteAt? raw pos = some 'E'.toUInt8) ∧ start < stop then
    (slice? raw (pos + 1) stop).map (·, stop)
  else some ([], pos)

/-- The number at the front of a text and the position after it, if there is one; and nothing
at all if a slice is taken that is not there, or more white space than the text is long. -/
def read? (raw : String) : Option (Option (Float × Nat)) := do
  let start ← raw.utf8ByteSize.psub (String.ofList (Text.trimStart raw.toList)).utf8ByteSize
  let (negative, pos) := signAt raw start
  let rest ← slice? raw pos raw.utf8ByteSize
  if "Infinity".toList.isPrefixOf rest then
    return some (infinite negative, pos + "Infinity".utf8ByteSize)
  let stop := skipDigits raw pos
  let whole ← slice? raw pos stop
  let (fraction, pos) ← fractionAt? raw whole stop
  if whole = [] ∧ fraction = [] then return none
  let (exponent, pos) ← exponentAt? raw pos
  return (decimal? (writtenOut negative whole fraction exponent)).map (·, pos)

-- =========================================================== what is left

/-- The text that is left at a position between characters. -/
def At (raw : String) (pos : Nat) (rest : List Char) : Prop :=
  ∃ before, before ++ rest = raw.toList ∧ pos = (Text.bytes before).length

variable {raw : String} {pos : Nat} {rest : List Char}

namespace At

theorem isValid (h : At raw pos rest) : String.Pos.Raw.isValid raw ⟨pos⟩ = true := by
  obtain ⟨before, hraw, rfl⟩ := h
  rw [String.Pos.Raw.isValid_eq_true_iff, String.Pos.Raw.isValid_iff_exists_append]
  refine ⟨String.ofList before, String.ofList rest, ?_, ?_⟩
  · rw [← String.ofList_append, hraw, String.ofList_toList]
  · rw [Text.length_bytes]
    rfl

/-- Behind a piece of what is left, the rest is left. -/
theorem append {piece : List Char} (h : At raw pos (piece ++ rest)) :
    At raw (pos + (Text.bytes piece).length) rest := by
  obtain ⟨before, hraw, rfl⟩ := h
  refine ⟨before ++ piece, ?_, ?_⟩
  · rw [List.append_assoc, hraw]
  · rw [Text.bytes_append, List.length_append]

/-- A piece of what is left is the slice that it takes up. -/
theorem slice?_eq {piece : List Char} (h : At raw pos (piece ++ rest)) :
    slice? raw pos (pos + (Text.bytes piece).length) = some piece := by
  have hbytes : (raw.toUTF8.toList.drop pos).take (Text.bytes piece).length = Text.bytes piece := by
    obtain ⟨before, hraw, rfl⟩ := h
    rw [Text.toUTF8_toList, ← hraw]
    simp
  rw [slice?, if_pos ⟨Nat.le_add_right .., h.isValid, h.append.isValid⟩, Nat.add_sub_cancel_left,
    hbytes, Text.text?_bytes, Option.map_some, String.toList_ofList]

theorem byteAt?_eq (h : At raw pos rest) : byteAt? raw pos = (Text.bytes rest).head? := by
  obtain ⟨before, hraw, rfl⟩ := h
  rw [byteAt?, Text.toUTF8_toList, ← hraw, Text.bytes_append, List.getElem?_append_right le_rfl,
    Nat.sub_self, List.head?_eq_getElem?]

/-- The byte of a character below 128 is at a position where that character is left. -/
theorem byteAt?_eq_iff (h : At raw pos rest) {c : Char} (hc : c.toNat < 128) :
    byteAt? raw pos = some c.toUInt8 ↔ rest.head? = some c := by
  rw [h.byteAt?_eq, Text.head?_bytes_eq_iff hc]

/-- Behind a character below 128 the next position is between characters again. -/
theorem tail {c : Char} (h : At raw pos (c :: rest)) (hc : c.toNat < 128) :
    At raw (pos + 1) rest := by
  have happend : At raw (pos + (Text.bytes [c]).length) rest := h.append
  rwa [Text.bytes_eq_map (List.forall_mem_singleton.mpr hc)] at happend

theorem size_eq (h : At raw pos rest) : pos + (Text.bytes rest).length = raw.utf8ByteSize := by
  obtain ⟨before, hraw, rfl⟩ := h
  rw [← List.length_append, ← Text.bytes_append, hraw, Text.length_bytes_toList]

-- ================================================================== pieces

theorem sign (h : At raw pos rest) : (signAt raw pos).1 = (takeSign rest).1
    ∧ At raw (signAt raw pos).2 (takeSign rest).2 := by
  have hminus := h.byteAt?_eq_iff (c := '-') (by decide)
  have hplus := h.byteAt?_eq_iff (c := '+') (by decide)
  simp only [signAt, hminus, hplus]
  cases rest with
  | nil => exact ⟨rfl, h⟩
  | cons c rest =>
      by_cases hc : c = '-'
      · subst hc
        exact ⟨rfl, h.tail (by decide)⟩
      by_cases hc' : c = '+'
      · subst hc'
        exact ⟨rfl, h.tail (by decide)⟩
      have hnone : takeSign (c :: rest) = (false, c :: rest) := takeSign_append .absent rest hc hc'
      simp [hc, hc', hnone, h]

/-- The byte at a position is a digit's just when a digit is left there. -/
theorem byteAt?_isDigit (h : At raw pos rest) :
    (∃ b ∈ byteAt? raw pos, '0'.toUInt8 ≤ b ∧ b ≤ '9'.toUInt8)
      ↔ ∃ c ∈ rest.head?, c.isDigit = true := by
  rw [h.byteAt?_eq]
  cases rest with
  | nil => simp
  | cons c rest =>
      by_cases hc : c.toNat < 128
      · simp only [Text.head?_bytes_of_lt hc, List.head?_cons, Option.mem_some, exists_eq_left',
          UInt8.le_iff_toNat_le, Text.toNat_toUInt8 hc, isDigit_iff]
        rfl
      · -- neither a byte from 128 on nor the character is a digit
        constructor
        · rintro ⟨b, hb, -, hhigh⟩
          have hle := Text.le_of_mem_head?_bytes (Nat.le_of_not_lt hc) b hb
          have hhigh : b.toNat ≤ 57 := UInt8.le_iff_toNat_le.mp hhigh
          omega
        · rintro ⟨d, hd, hdigit⟩
          cases hd
          have hbounds := isDigit_iff.mp hdigit
          omega

theorem skipDigits_eq {ds r : List Char} (h : At raw pos rest) (htaken : takeDigits rest = (ds, r)) :
    skipDigits raw pos = pos + ds.length := by
  induction rest generalizing pos ds with
  | nil =>
      cases htaken
      have hnone : ¬ ∃ b ∈ byteAt? raw pos, '0'.toUInt8 ≤ b ∧ b ≤ '9'.toUInt8 := by
        rw [h.byteAt?_isDigit]
        simp
      rw [skipDigits, dif_neg hnone]
      rfl
  | cons c rest ih =>
      have hiff := h.byteAt?_isDigit
      rw [skipDigits]
      by_cases hc : c.isDigit = true
      · rw [dif_pos (hiff.mpr ⟨c, rfl, hc⟩)]
        have hlt : c.toNat < 128 := by
          have hbounds := isDigit_iff.mp hc
          omega
        obtain ⟨ds', hds⟩ : ∃ ds', takeDigits rest = (ds', r) := by
          simp [takeDigits, hc] at htaken ⊢
          exact htaken.2
        have hcons : ds = c :: ds' := by
          simp [takeDigits, hc] at htaken hds
          rw [← htaken.1, hds.1]
        rw [ih (h.tail hlt) hds, hcons, List.length_cons]
        omega
      · rw [dif_neg (by rw [hiff]; simpa using hc)]
        simp [takeDigits, hc] at htaken
        simp [htaken.1]

/-- Digits left at a position are the slice up to where they end. -/
theorem digits {ds r : List Char} (h : At raw pos rest) (htaken : takeDigits rest = (ds, r)) :
    slice? raw pos (skipDigits raw pos) = some ds ∧ At raw (skipDigits raw pos) r := by
  obtain ⟨hjoined, hdigits⟩ := takeDigits_eq htaken
  rw [h.skipDigits_eq htaken]
  rw [← hjoined] at h
  have hlength : (Text.bytes ds).length = ds.length := by
    rw [Text.bytes_eq_map fun c hc => ?_, List.length_map]
    have hbounds := isDigit_iff.mp (hdigits c hc)
    omega
  have hslice := h.slice?_eq
  have hrest := h.append
  rw [hlength] at hslice hrest
  exact ⟨hslice, hrest⟩

theorem fraction {whole fs r : List Char} (h : At raw pos rest)
    (htaken : takeFraction whole rest = (fs, r)) :
    ∃ stop, fractionAt? raw whole pos = some (fs, stop) ∧ At raw stop r := by
  have hpoint := h.byteAt?_eq_iff (c := '.') (by decide)
  simp only [fractionAt?, hpoint]
  cases rest with
  | nil =>
      cases htaken
      exact ⟨pos, by simp, h⟩
  | cons c rest =>
      by_cases hc : c = '.'
      case neg =>
        simp [takeFraction, hc] at htaken
        obtain ⟨rfl, rfl⟩ := htaken
        exact ⟨pos, by simp [hc], h⟩
      case pos =>
        subst hc
        have htail := h.tail (by decide)
        obtain ⟨ds, t, hdigits⟩ : ∃ ds t, takeDigits rest = (ds, t) := ⟨_, _, rfl⟩
        obtain ⟨hslice, hat⟩ := htail.digits hdigits
        have hlt : pos + 1 < skipDigits raw (pos + 1) ↔ ds ≠ [] := by
          rw [htail.skipDigits_eq hdigits, ← List.length_pos_iff]
          omega
        simp only [hlt]
        by_cases hlone : whole = [] ∧ ds = []
        · simp [takeFraction, hdigits, hlone] at htaken
          obtain ⟨rfl, rfl⟩ := htaken
          exact ⟨pos, by simp [hlone], h⟩
        · simp [takeFraction, hdigits, hlone] at htaken
          obtain ⟨rfl, rfl⟩ := htaken
          have hsome : whole ≠ [] ∨ ds ≠ [] := not_and_or.mp hlone
          exact ⟨_, by simp [hsome, hslice], hat⟩

theorem exponent (h : At raw pos rest) : ∃ (e : Option Exponent) (stop : Nat) (r : List Char),
    exponentAt? raw pos = some (Exponent.unmarkedOf e, stop)
      ∧ takeExponent rest = (Exponent.powerOf e, r) ∧ At raw stop r := by
  have hsmall := h.byteAt?_eq_iff (c := 'e') (by decide)
  have hlarge := h.byteAt?_eq_iff (c := 'E') (by decide)
  simp only [exponentAt?, hsmall, hlarge]
  rcases takeExponent_cases rest with ⟨hnone, hlone⟩ | ⟨e, r, rfl, htaken, hsign, hdigits⟩
  · refine ⟨none, pos, rest, if_neg ?_, hnone, h⟩
    rintro ⟨hmark, hlt⟩
    obtain ⟨c, r, rfl, hc⟩ : ∃ c r, rest = c :: r ∧ (c = 'e' ∨ c = 'E') := by
      rcases hmark with hmark | hmark
      · obtain ⟨r, rfl⟩ := List.head?_eq_some_iff.mp hmark
        exact ⟨_, r, rfl, .inl rfl⟩
      · obtain ⟨r, rfl⟩ := List.head?_eq_some_iff.mp hmark
        exact ⟨_, r, rfl, .inr rfl⟩
    have hc' : c.toNat < 128 := by rcases hc with rfl | rfl <;> decide
    have hskip := (h.tail hc').sign.2.skipDigits_eq (r := (takeDigits (takeSign r).2).2)
      (Prod.ext (hlone c r rfl hc) rfl)
    rw [hskip, List.length_nil] at hlt
    omega
  · have hmark : e.mark.toNat < 128 := by rcases e.isMark with hmark | hmark <;> rw [hmark] <;> decide
    have htail := h.tail hmark
    have hstart := htail.sign.2
    rw [hsign] at hstart
    have hskip := hstart.skipDigits_eq hdigits
    have hrest := (hstart.digits hdigits).2
    have hlt : (signAt raw (pos + 1)).2 < skipDigits raw (signAt raw (pos + 1)).2 := by
      rw [hskip]
      have hpos := List.length_pos_iff.mpr e.digits.ne_nil
      omega
    -- where the digits end and where the piece behind the mark ends, the same text is left
    have hstop : skipDigits raw (signAt raw (pos + 1)).2
        = pos + 1 + (Text.bytes e.unmarked).length := by
      have hsize := hrest.size_eq
      have hsize' := htail.append.size_eq
      omega
    refine ⟨some e, _, r, ?_, htaken, hrest⟩
    have hmark : e.mark = 'e' ∨ e.mark = 'E' := e.isMark
    rw [if_pos ⟨by simpa using hmark, hlt⟩, hstop, htail.slice?_eq]
    rfl

end At

-- ============================================================= the reading

theorem at_trimStart (raw : String) : ∃ start,
    raw.utf8ByteSize.psub (String.ofList (Text.trimStart raw.toList)).utf8ByteSize = some start
      ∧ At raw start (Text.trimStart raw.toList) := by
  have hat : At raw (Text.bytes (raw.toList.takeWhile Text.isBlank)).length
      (Text.trimStart raw.toList) := ⟨_, List.takeWhile_append_dropWhile, rfl⟩
  refine ⟨_, ?_, hat⟩
  rw [Nat.psub_eq_some, ← Text.length_bytes]
  exact hat.size_eq

/-- The reading by positions takes no slice that is not there, and reads what the scanner takes. -/
theorem read?_eq (raw : String) : read? raw = some ((Numeral.scan raw.toList).map fun (n, rest) =>
    (n.value, raw.utf8ByteSize - (Text.bytes rest).length)) := by
  obtain ⟨start, hstart, hat⟩ := at_trimStart raw
  obtain ⟨hnegative, hat⟩ := hat.sign
  obtain ⟨negative, pos, hsign⟩ : ∃ negative pos, signAt raw start = (negative, pos) := ⟨_, _, rfl⟩
  obtain ⟨r, hr⟩ : ∃ r, takeSign (Text.trimStart raw.toList) = (negative, r) := by
    refine ⟨_, Prod.ext ?_ rfl⟩
    rw [← hnegative, hsign]
  rw [hsign, hr] at hat
  have hslice : slice? raw pos raw.utf8ByteSize = some r := by
    have hall : At raw pos (r ++ []) := by rwa [List.append_nil]
    rw [← hat.size_eq]
    exact hall.slice?_eq
  have hconsumed : ∀ {stop rest}, At raw stop rest →
      raw.utf8ByteSize - (Text.bytes rest).length = stop := by
    intro stop rest hstop
    have hsize := hstop.size_eq
    omega
  simp only [read?, Numeral.scan, hstart, hsign, hr, Option.bind_eq_bind, Option.bind_some, hslice]
  cases hword : dropWord? "Infinity".toList r with
  | some rest =>
      have hjoined := dropWord?_eq_some.mp hword
      have hprefix : "Infinity".toList.isPrefixOf r = true :=
        List.isPrefixOf_iff_prefix.mpr ⟨rest, hjoined⟩
      rw [← hjoined] at hat
      have hstop := hconsumed hat.append
      rw [Text.length_bytes_toList] at hstop
      rw [if_pos hprefix, Option.map_some, hstop]
      rfl
  | none =>
      have hprefix : ¬ "Infinity".toList.isPrefixOf r = true := by
        intro hprefix
        obtain ⟨rest, hjoined⟩ := List.isPrefixOf_iff_prefix.mp hprefix
        rw [dropWord?_eq_some.mpr hjoined] at hword
        cases hword
      obtain ⟨whole, t, hwhole⟩ : ∃ whole t, takeDigits r = (whole, t) := ⟨_, _, rfl⟩
      obtain ⟨fs, u, hfraction⟩ : ∃ fs u, takeFraction whole t = (fs, u) := ⟨_, _, rfl⟩
      obtain ⟨hslice, hat⟩ := hat.digits hwhole
      obtain ⟨stop, hfractionAt, hat⟩ := hat.fraction hfraction
      simp only [if_neg hprefix, hslice, hfractionAt, takeDecimal, hwhole, hfraction, Option.bind_some]
      by_cases hlone : whole = [] ∧ fs = []
      · simp [hlone]
      · obtain ⟨e, stop', rest, hexponentAt, hexponent, hat⟩ := hat.exponent
        obtain ⟨m, -, rfl, rfl⟩ := exists_mantissa hwhole hfraction hlone
        simp [hlone, hexponentAt, hexponent, decimal?_writtenOut, hconsumed hat]

-- ========================================================== the conclusion

/-- How a spelling gives its number: `Infinity` by its sign, and a decimal through a normal spelling
of the same number, which the strict reader accepts. -/
def Spelling.ReadAs (sp : Spelling) (x : Float) : Prop :=
  match sp.body with
  | .infinity => x = infinite sp.sign.negative
  | .decimal _ _ => ∃ t : Spelling, t.IsNormal ∧ t.numeral.Same sp.numeral
      ∧ decimal? t.text = some x ∧ x.isNaN = false

theorem Spelling.readAs_value (sp : Spelling) : sp.ReadAs sp.numeral.value := by
  unfold ReadAs numeral
  cases sp.body with
  | infinity => rfl
  | decimal m e =>
      have hsame := same_normal sp.sign.negative m e
      refine ⟨normal sp.sign.negative m e, isNormal_normal _ m e, hsame, ?_,
        isNaN_eq_false (Numeral.isFinite_or_isInf_value _)⟩
      rw [decimal?_of_isNormal (isNormal_normal _ m e), hsame.value_eq]

/-- For every text the reading by positions goes through, and it is the lenient reading of a cell.
It finds nothing just when no spelling stands in front of the text; otherwise what it consumes are
the bytes of the longest spelling there, which is what the scanner takes, and the number is that
spelling's. -/
theorem longest_spelling_is_read (raw : String) :
    ∃ r, read? raw = some r ∧ r.map (·.1) = Cell.number? raw
      ∧ (r = none ↔ ∀ sp : Spelling, ¬ sp.text <+: raw.toList)
      ∧ ∀ x consumed, r = some (x, consumed) → ∃ (sp : Spelling) (rest : List Char),
          Numeral.scan raw.toList = some (sp.numeral, rest) ∧ sp.text ++ rest = raw.toList
            ∧ sp.LongestIn raw.toList ∧ consumed = (String.ofList sp.text).utf8ByteSize
            ∧ sp.ReadAs x := by
  refine ⟨_, read?_eq raw, ?_, ?_, ?_⟩
  · rw [Cell.number?, Option.map_map]
    rfl
  · rw [Option.map_eq_none_iff]
    exact scan_eq_none_iff
  · intro x consumed hread
    obtain ⟨⟨n, rest⟩, hscan, hread⟩ := Option.map_eq_some_iff.mp hread
    cases hread
    obtain ⟨sp, hlongest, hjoined, rfl⟩ := exists_longest_of_scan hscan
    refine ⟨sp, rest, hscan, hjoined, hlongest, ?_, sp.readAs_value⟩
    rw [← Text.length_bytes_toList, ← hjoined, Text.bytes_append, List.length_append,
      Nat.add_sub_cancel_right, Text.length_bytes]

end TableCalc.Number
