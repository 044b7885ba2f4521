/-
The UTF-8 bytes of a text. Each character has its own, so texts put together have their bytes put
together, and the bytes of a text decode to it (`text?_bytes`). A character below 128 is a single
byte, which is the character's number; all bytes of the others are from 128 on. So a reader that
looks for such a character among the bytes finds it where it stands (`head?_bytes_eq_iff`) and is
never misled by a part of another character.
-/

import Mathlib
import TableCalc.Storage

namespace TableCalc.Text

variable {c : Char} {s t : List Char}

-- =============================================================== the bytes

/-- The bytes of a text. -/
def bytes (s : List Char) : List UInt8 := s.flatMap String.utf8EncodeChar

@[simp] theorem bytes_nil : bytes [] = [] := rfl

@[simp] theorem bytes_append : bytes (s ++ t) = bytes s ++ bytes t := List.flatMap_append

theorem bytes_cons : bytes (c :: s) = String.utf8EncodeChar c ++ bytes s := List.flatMap_cons

theorem toByteArray_ofList (s : List Char) :
    (String.ofList s).toByteArray = ⟨(bytes s).toArray⟩ := by
  rw [String.toByteArray_ofList]
  ext1
  simp [List.utf8Encode, bytes]

/-- The bytes that the listing loop adds from a position on are those of the array. -/
theorem toList_loop (bs : ByteArray) (i : Nat) (r : List UInt8) :
    ByteArray.toList.loop bs i r = r.reverse ++ bs.data.toList.drop i := by
  fun_induction ByteArray.toList.loop bs i r with
  | case1 i r hi ih =>
      have hlt : i < bs.data.toList.length := hi
      have hget : bs.get! i = bs.data.toList[i] := by
        rw [Array.getElem_toList]
        exact getElem!_pos bs.data i hi
      rw [ih, List.drop_eq_getElem_cons hlt, hget]
      simp
  | case2 i r hi =>
      have hle : bs.data.toList.length ≤ i := Nat.le_of_not_lt hi
      rw [List.drop_eq_nil_of_le hle, List.append_nil]

theorem toUTF8_toList (raw : String) : raw.toUTF8.toList = bytes raw.toList := by
  have hlisted : raw.toUTF8.toList = raw.toUTF8.data.toList := toList_loop raw.toUTF8 0 []
  have harray := toByteArray_ofList raw.toList
  rw [String.ofList_toList] at harray
  rw [hlisted, String.toUTF8_eq_toByteArray, harray]

theorem length_bytes (s : List Char) : (bytes s).length = (String.ofList s).utf8ByteSize := by
  rw [← String.size_toByteArray, toByteArray_ofList]
  rfl

theorem length_bytes_toList (raw : String) : (bytes raw.toList).length = raw.utf8ByteSize := by
  rw [length_bytes, String.ofList_toList]

/-- The bytes of a text decode to it. -/
theorem text?_bytes (s : List Char) : Storage.text? (bytes s) = some (String.ofList s) := by
  have harray : ByteArray.mk (bytes s).toArray = s.utf8Encode := by
    rw [← toByteArray_ofList, String.toByteArray_ofList]
  unfold Storage.text?
  rw [harray]
  exact dif_pos ByteArray.isValidUTF8_utf8Encode

-- ==================================================== one byte, and several

theorem utf8EncodeChar_of_lt (h : c.toNat < 128) : String.utf8EncodeChar c = [c.toUInt8] := by
  have hone : c.utf8Size = 1 := by
    rw [Char.utf8Size_eq_one_iff]
    exact UInt32.le_iff_toNat_le.mpr (Nat.le_of_lt_succ h)
  exact String.utf8EncodeChar_eq_singleton hone

theorem toNat_toUInt8 (h : c.toNat < 128) : c.toUInt8.toNat = c.toNat := by
  show c.toNat % 256 = c.toNat
  omega

/-- No byte of a longer character is the byte of a shorter one. -/
theorem le_of_mem_utf8EncodeChar (h : 128 ≤ c.toNat) :
    ∀ b ∈ String.utf8EncodeChar c, 128 ≤ b.toNat := by
  have hle : c.val.toNat ≤ 1114111 := by
    have hvalid := c.valid
    simp only [UInt32.isValidChar, Nat.isValidChar] at hvalid
    omega
  change 128 ≤ c.val.toNat at h
  unfold String.utf8EncodeChar
  generalize c.val.toNat = v at *
  simp only
  split_ifs
  · omega
  · simp only [List.forall_mem_cons, UInt8.toNat_ofNat']
    exact ⟨by omega, by omega, nofun⟩
  · simp only [List.forall_mem_cons, UInt8.toNat_ofNat']
    exact ⟨by omega, by omega, by omega, nofun⟩
  · simp only [List.forall_mem_cons, UInt8.toNat_ofNat']
    exact ⟨by omega, by omega, by omega, by omega, nofun⟩

/-- A character below 128 is in a text just when its byte is among the bytes. -/
theorem mem_bytes_iff (h : c.toNat < 128) : c.toUInt8 ∈ bytes s ↔ c ∈ s := by
  constructor
  · intro hmem
    obtain ⟨d, hd, hbyte⟩ := List.mem_flatMap.mp hmem
    by_cases hsmall : d.toNat < 128
    · rw [utf8EncodeChar_of_lt hsmall, List.mem_singleton, ← UInt8.toNat_inj, toNat_toUInt8 h,
        toNat_toUInt8 hsmall, Char.toNat_inj] at hbyte
      rw [hbyte]
      exact hd
    · have hle := le_of_mem_utf8EncodeChar (Nat.le_of_not_lt hsmall) _ hbyte
      rw [toNat_toUInt8 h] at hle
      omega
  · intro hmem
    refine List.mem_flatMap.mpr ⟨c, hmem, ?_⟩
    rw [utf8EncodeChar_of_lt h]
    exact List.mem_singleton_self _

theorem le_of_mem_head?_bytes (h : 128 ≤ c.toNat) :
    ∀ b ∈ (bytes (c :: s)).head?, 128 ≤ b.toNat := by
  intro b hb
  rw [bytes_cons, List.head?_append_of_ne_nil _ String.utf8EncodeChar_ne_nil] at hb
  exact le_of_mem_utf8EncodeChar h b (List.mem_of_mem_head? hb)

theorem head?_bytes_of_lt (h : c.toNat < 128) : (bytes (c :: s)).head? = some c.toUInt8 := by
  rw [bytes_cons, utf8EncodeChar_of_lt h]
  rfl

/-- The bytes begin with that of a character below 128 just when the text begins with it. -/
theorem head?_bytes_eq_iff (h : c.toNat < 128) :
    (bytes s).head? = some c.toUInt8 ↔ s.head? = some c := by
  cases s with
  | nil => simp
  | cons d s =>
      rw [List.head?_cons, Option.some_inj]
      by_cases hd : d.toNat < 128
      · rw [head?_bytes_of_lt hd, Option.some_inj, ← UInt8.toNat_inj, toNat_toUInt8 hd,
          toNat_toUInt8 h, Char.toNat_inj]
      · -- the first byte is too large, and so is the character
        constructor
        · intro hhead
          have hle := le_of_mem_head?_bytes (Nat.le_of_not_lt hd) _ hhead
          rw [toNat_toUInt8 h] at hle
          omega
        · intro heq
          rw [heq] at hd
          exact absurd h hd

/-- A text of characters below 128 has their numbers for bytes. -/
theorem bytes_eq_map (h : ∀ c ∈ s, c.toNat < 128) : bytes s = s.map Char.toUInt8 := by
  induction s with
  | nil => rfl
  | cons c s ih =>
      obtain ⟨hc, hs⟩ := List.forall_mem_cons.mp h
      rw [bytes_cons, utf8EncodeChar_of_lt hc, ih hs]
      rfl

end TableCalc.Text
