import Mathlib.Data.List.TakeWhile
import ReviewDesk.Text.Ascii
import ReviewDesk.Text.Utf8

/-!
# Reading back what is written

The bytes that UTF-8 has for a character are read as this character, wherever they stand.
The first byte tells how many follow and confines the second one; that the bytes of a real
character keep to this is where overlong forms, surrogates and numbers above the last
character are ruled out (`lead_two`, `lead_three`, `lead_four`).  Every further byte adds six
bits, so the number read is the number written.

* `foldl_step_utf8EncodeChar` — the bytes of one character;
* `decode?_encode` — a text, read strictly;
* `decodeLossy_encode` — a text, read leniently.
-/

namespace ReviewDesk

/-! ## ASCII -/

namespace Ascii

theorem char_ofNat {c : Char} (h : c.toNat < 128) : char (UInt8.ofNat c.toNat) = c := by
  have hbyte : (UInt8.ofNat c.toNat).toNat = c.toNat :=
    UInt8.toNat_ofNat_of_lt' (show c.toNat < 256 by omega)
  rw [char, hbyte, Char.ofNat_toNat]

/-- An ASCII character has one byte, its number. -/
theorem utf8EncodeChar_of_lt {c : Char} (h : c.toNat < 128) :
    String.utf8EncodeChar c = [UInt8.ofNat c.toNat] := by
  rw [String.utf8EncodeChar.eq_1]
  exact if_pos (Nat.le_of_lt_succ h)

/-- No other character has an ASCII byte. -/
theorem le_of_mem_utf8EncodeChar {c : Char} (h : 128 ≤ c.toNat) :
    ∀ b ∈ String.utf8EncodeChar c, 128 ≤ b.toNat := by
  have hmore : ¬ c.val.toNat ≤ 127 := Nat.not_le_of_lt h
  rw [String.utf8EncodeChar.eq_1, if_neg hmore]
  generalize c.val.toNat = n
  intro b hb
  split at hb
  · simp only [List.mem_cons, List.not_mem_nil, or_false] at hb
    rcases hb with rfl | rfl <;> (rw [UInt8.toNat_ofNat']; omega)
  · split at hb
    · simp only [List.mem_cons, List.not_mem_nil, or_false] at hb
      rcases hb with rfl | rfl | rfl <;> (rw [UInt8.toNat_ofNat']; omega)
    · simp only [List.mem_cons, List.not_mem_nil, or_false] at hb
      rcases hb with rfl | rfl | rfl | rfl <;> (rw [UInt8.toNat_ofNat']; omega)

end Ascii

namespace Utf8

/-! ## The first byte -/

theorem lead_two {n : Nat} (hfirst : 0x80 ≤ n) (hlast : n ≤ 0x7FF) :
    lead (n / 64 + 192) = .unfinished ⟨1, 1, 0x80, 0xBF, n / 64⟩ := by
  have hbits : n / 64 + 192 - 0xC0 = n / 64 := by omega
  unfold lead
  rw [if_neg (by omega), if_neg (by omega), if_pos (by omega), hbits]

theorem lead_three {n : Nat} (hfirst : 0x800 ≤ n) (hlast : n ≤ 0xFFFF)
    (hvalid : n < 0xD800 ∨ 0xDFFF < n) :
    ∃ low high, lead (n / 4096 + 224) = .unfinished ⟨1, 2, low, high, n / 4096⟩ ∧
      low ≤ n / 64 % 64 + 128 ∧ n / 64 % 64 + 128 ≤ high := by
  have hbits : n / 4096 + 224 - 0xE0 = n / 4096 := by omega
  unfold lead
  rw [if_neg (by omega), if_neg (by omega), if_neg (by omega)]
  by_cases hshort : n / 4096 = 0
  · -- what has fewer bytes is not written with three
    rw [if_pos (by omega), hshort]
    exact ⟨0xA0, 0xBF, rfl, by omega, by omega⟩
  rw [if_neg (by omega)]
  by_cases hsurrogate : n / 4096 = 0xD
  · rw [if_pos (by omega), hsurrogate]
    exact ⟨0x80, 0x9F, rfl, by omega, by omega⟩
  · rw [if_neg (by omega), if_pos (by omega), hbits]
    exact ⟨0x80, 0xBF, rfl, by omega, by omega⟩

theorem lead_four {n : Nat} (hfirst : 0x10000 ≤ n) (hlast : n < 0x110000) :
    ∃ low high, lead (n / 262144 + 240) = .unfinished ⟨1, 3, low, high, n / 262144⟩ ∧
      low ≤ n / 4096 % 64 + 128 ∧ n / 4096 % 64 + 128 ≤ high := by
  have hbits : n / 262144 + 240 - 0xF0 = n / 262144 := by omega
  unfold lead
  rw [if_neg (by omega), if_neg (by omega), if_neg (by omega), if_neg (by omega),
    if_neg (by omega), if_neg (by omega)]
  by_cases hshort : n / 262144 = 0
  · rw [if_pos (by omega), hshort]
    exact ⟨0x90, 0xBF, rfl, by omega, by omega⟩
  rw [if_neg (by omega)]
  by_cases hlong : n / 262144 = 4
  · rw [if_neg (by omega), if_pos (by omega), hlong]
    exact ⟨0x80, 0x8F, rfl, by omega, by omega⟩
  · rw [if_pos (by omega), hbits]
    exact ⟨0x80, 0xBF, rfl, by omega, by omega⟩

/-! ## One byte -/

namespace Reading

variable {done : List Piece} {n seen low high bits : Nat}

theorem step_lead (hn : n < 256) {u : Unfinished} (hlead : lead n = .unfinished u) :
    step ⟨done, none⟩ (UInt8.ofNat n) = ⟨done, some u⟩ := by
  have hbyte : (UInt8.ofNat n).toNat = n :=
    UInt8.toNat_ofNat_of_lt' (show n < 256 by omega)
  simp only [step, start, hbyte, hlead]

/-- A byte that may come next brings six bits. -/
theorem step_next (hlow : low ≤ n % 64 + 128) (hhigh : n % 64 + 128 ≤ high) (wanted : Nat) :
    step ⟨done, some ⟨seen, wanted + 2, low, high, bits⟩⟩ (UInt8.ofNat (n % 64 + 128)) =
      ⟨done, some ⟨seen + 1, wanted + 1, 0x80, 0xBF, bits * 64 + n % 64⟩⟩ := by
  have hbyte : (UInt8.ofNat (n % 64 + 128)).toNat = n % 64 + 128 :=
    UInt8.toNat_ofNat_of_lt' (show n % 64 + 128 < 256 by omega)
  have hbits : n % 64 + 128 - 0x80 = n % 64 := by omega
  have hmore : ¬ wanted + 2 ≤ 1 := by omega
  simp only [step, hbyte, hlow, hhigh, and_self, if_true, hbits, if_neg hmore]
  rfl

/-- The last byte completes the character. -/
theorem step_last (hlow : low ≤ n % 64 + 128) (hhigh : n % 64 + 128 ≤ high) :
    step ⟨done, some ⟨seen, 1, low, high, bits⟩⟩ (UInt8.ofNat (n % 64 + 128)) =
      ⟨.char (Char.ofNat (bits * 64 + n % 64)) :: done, none⟩ := by
  have hbyte : (UInt8.ofNat (n % 64 + 128)).toNat = n % 64 + 128 :=
    UInt8.toNat_ofNat_of_lt' (show n % 64 + 128 < 256 by omega)
  have hbits : n % 64 + 128 - 0x80 = n % 64 := by omega
  simp only [step, hbyte, hlow, hhigh, and_self, if_true, hbits, Nat.le_refl]

end Reading

open Reading

/-! ## One character -/

section Widths

variable {n : Nat} (done : List Piece)

theorem foldl_step_one (hlast : n ≤ 0x7F) :
    [UInt8.ofNat n].foldl Reading.step ⟨done, none⟩ = ⟨.char (Char.ofNat n) :: done, none⟩ := by
  have hbyte : (UInt8.ofNat n).toNat = n :=
    UInt8.toNat_ofNat_of_lt' (show n < 256 by omega)
  have hlead : lead n = .char (Char.ofNat n) := by
    rw [lead, if_pos (by omega)]
  simp only [List.foldl_cons, List.foldl_nil, step, start, hbyte, hlead]

theorem foldl_step_two (hfirst : 0x80 ≤ n) (hlast : n ≤ 0x7FF) :
    [UInt8.ofNat (n / 64 % 32 + 192), UInt8.ofNat (n % 64 + 128)].foldl Reading.step
      ⟨done, none⟩ = ⟨.char (Char.ofNat n) :: done, none⟩ := by
  have hbits : n / 64 % 32 = n / 64 := by omega
  have hnumber : n / 64 * 64 + n % 64 = n := by omega
  rw [hbits, List.foldl_cons, List.foldl_cons, List.foldl_nil,
    step_lead (by omega) (lead_two hfirst hlast), step_last (by omega) (by omega), hnumber]

theorem foldl_step_three (hfirst : 0x800 ≤ n) (hlast : n ≤ 0xFFFF)
    (hvalid : n < 0xD800 ∨ 0xDFFF < n) :
    [UInt8.ofNat (n / 4096 % 16 + 224), UInt8.ofNat (n / 64 % 64 + 128),
      UInt8.ofNat (n % 64 + 128)].foldl Reading.step ⟨done, none⟩ =
      ⟨.char (Char.ofNat n) :: done, none⟩ := by
  have hbits : n / 4096 % 16 = n / 4096 := by omega
  have hnumber : (n / 4096 * 64 + n / 64 % 64) * 64 + n % 64 = n := by omega
  obtain ⟨low, high, hlead, hlow, hhigh⟩ := lead_three hfirst hlast hvalid
  rw [hbits, List.foldl_cons, List.foldl_cons, List.foldl_cons, List.foldl_nil,
    step_lead (by omega) hlead, step_next hlow hhigh 0, step_last (by omega) (by omega), hnumber]

theorem foldl_step_four (hfirst : 0x10000 ≤ n) (hlast : n < 0x110000) :
    [UInt8.ofNat (n / 262144 % 8 + 240), UInt8.ofNat (n / 4096 % 64 + 128),
      UInt8.ofNat (n / 64 % 64 + 128), UInt8.ofNat (n % 64 + 128)].foldl Reading.step
      ⟨done, none⟩ = ⟨.char (Char.ofNat n) :: done, none⟩ := by
  have hbits : n / 262144 % 8 = n / 262144 := by omega
  have hnumber : ((n / 262144 * 64 + n / 4096 % 64) * 64 + n / 64 % 64) * 64 + n % 64 = n := by
    omega
  obtain ⟨low, high, hlead, hlow, hhigh⟩ := lead_four hfirst hlast
  rw [hbits, List.foldl_cons, List.foldl_cons, List.foldl_cons, List.foldl_cons, List.foldl_nil,
    step_lead (by omega) hlead, step_next hlow hhigh 1, step_next (by omega) (by omega) 0,
    step_last (by omega) (by omega), hnumber]

end Widths

/-- The bytes of a character are read as it. -/
theorem foldl_step_utf8EncodeChar (c : Char) (done : List Piece) :
    (String.utf8EncodeChar c).foldl Reading.step ⟨done, none⟩ = ⟨.char c :: done, none⟩ := by
  have hvalid : c.val.toNat < 0xD800 ∨ 0xDFFF < c.val.toNat ∧ c.val.toNat < 0x110000 := c.valid
  have hchar : Char.ofNat c.val.toNat = c := Char.ofNat_toNat c
  rw [String.utf8EncodeChar.eq_1]
  generalize c.val.toNat = n at hvalid hchar
  rw [← hchar]
  by_cases hone : n ≤ 127
  · rw [if_pos hone]
    exact foldl_step_one done hone
  rw [if_neg hone]
  by_cases htwo : n ≤ 2047
  · rw [if_pos htwo]
    exact foldl_step_two done (by omega) htwo
  rw [if_neg htwo]
  by_cases hthree : n ≤ 65535
  · rw [if_pos hthree]
    exact foldl_step_three done (by omega) hthree (by omega)
  · rw [if_neg hthree]
    exact foldl_step_four done (by omega) (by omega)

/-! ## Texts -/

theorem foldl_step_chars (cs : List Char) (done : List Piece) :
    (cs.flatMap String.utf8EncodeChar).foldl Reading.step ⟨done, none⟩ =
      ⟨(cs.map Piece.char).reverse ++ done, none⟩ := by
  induction cs generalizing done with
  | nil => rfl
  | cons c rest ih =>
      rw [List.flatMap_cons, List.foldl_append, foldl_step_utf8EncodeChar, ih, List.map_cons,
        List.reverse_cons, List.append_assoc, List.singleton_append]

theorem read_encode (s : String) : read (encode s) = s.toList.map Piece.char := by
  have hread := foldl_step_chars s.toList []
  rw [List.append_nil] at hread
  rw [read, encode, hread]
  exact List.reverse_reverse _

/-- The bytes of a text are read as it. -/
theorem decode?_encode (s : String) : decode? (encode s) = some s := by
  have hsound : ∀ p ∈ s.toList.map Piece.char, p.isChar = true := by
    intro p hp
    obtain ⟨c, -, rfl⟩ := List.mem_map.1 hp
    rfl
  have hfind : (s.toList.map Piece.char).find? (! ·.isChar) = none :=
    List.find?_eq_none.2 fun p hp => by simp [hsound p hp]
  have hchars : ((s.toList.map Piece.char).takeWhile Piece.isChar).filterMap Piece.char? =
      s.toList := by
    rw [List.takeWhile_eq_self_iff.2 hsound, List.filterMap_map]
    exact List.filterMap_some
  simp only [decode?, decode, read_encode, hfind, hchars, String.ofList_toList]
  rfl

/-- Nothing in them is replaced. -/
theorem decodeLossy_encode (s : String) : decodeLossy (encode s) = s := by
  have hchars : (s.toList.map Piece.char).map (fun p => p.char?.getD '\ufffd') = s.toList := by
    rw [List.map_map]
    exact List.map_id _
  rw [decodeLossy, read_encode, hchars, String.ofList_toList]

end Utf8

end ReviewDesk
