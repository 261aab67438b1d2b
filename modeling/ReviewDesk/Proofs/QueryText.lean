import ReviewDesk.Proofs.Encoding
import ReviewDesk.Text.Parameters

/-!
# Reading back queries

Whoever puts a text into a query has a choice: a byte may stand for itself, a blank may
become a plus, and every byte may be given by two hexadecimal digits, small or capital.
Programs choose differently.  `Spells` allows every choice, except that the signs which mean
something in a query do not stand for themselves, and whatever is chosen, the text that is
read is the one that was put in.

* `Spells.single?` — the value of a parameter is the text that is spelled;
* `spells_encode` — every text can be spelled.
-/

namespace ReviewDesk

namespace Parameters

/-- Characters that stand for bytes in the value of a parameter. -/
inductive Spells : List UInt8 → List Char → Prop
  | nil : Spells [] []
  /-- An ASCII byte other than the percent sign, the ampersand and the plus stands for
  itself. -/
  | self {b : UInt8} {bytes : List UInt8} {cs : List Char} (ascii : b.toNat < 128)
      (free : b ≠ 37 ∧ b ≠ 38 ∧ b ≠ 43) (rest : Spells bytes cs) :
      Spells (b :: bytes) (Ascii.char b :: cs)
  /-- A plus stands for a blank. -/
  | plus {bytes : List UInt8} {cs : List Char} (rest : Spells bytes cs) :
      Spells (32 :: bytes) ('+' :: cs)
  /-- Two digits behind a percent sign stand for any byte. -/
  | digits {v : UInt8} {a b : Char} {bytes : List UInt8} {cs : List Char}
      (byte : Percent.byte? a b = some v) (rest : Spells bytes cs) :
      Spells (v :: bytes) ('%' :: a :: b :: cs)

theorem char_ne {b : UInt8} {c : Char} (h : b.toNat ≠ c.toNat) : Ascii.char b ≠ c := by
  intro heq
  rw [← heq, Ascii.toNat_char] at h
  exact h rfl

/-- What stands behind a percent sign is digits. -/
theorem digits_of_byte? {a b : Char} {v : UInt8} (h : Percent.byte? a b = some v) :
    (Hexadecimal.digit? a).isSome = true ∧ (Hexadecimal.digit? b).isSome = true := by
  unfold Percent.byte? at h
  cases ha : Hexadecimal.digit? a with
  | none => simp [ha] at h
  | some m =>
      cases hb : Hexadecimal.digit? b with
      | none => simp [ha, hb] at h
      | some n => exact ⟨rfl, rfl⟩

theorem ne_of_digit {c d : Char} (hc : (Hexadecimal.digit? c).isSome = true)
    (hd : Hexadecimal.digit? d = none) : c ≠ d := by
  rintro rfl
  rw [hd] at hc
  cases hc

namespace Spells

variable {bytes : List UInt8} {cs : List Char}

/-- The value goes on to its end. -/
theorem not_mem_mark (h : Spells bytes cs) : '&' ∉ cs := by
  induction h with
  | nil => exact List.not_mem_nil
  | self _ free _ ih =>
      refine List.not_mem_cons_of_ne_of_not_mem (Ne.symm (char_ne fun hb => ?_)) ih
      exact free.2.1 (UInt8.toNat_inj.1 hb)
  | plus _ ih => exact List.not_mem_cons_of_ne_of_not_mem (by decide) ih
  | digits byte _ ih =>
      obtain ⟨ha, hb⟩ := digits_of_byte? byte
      refine List.not_mem_cons_of_ne_of_not_mem (by decide) ?_
      refine List.not_mem_cons_of_ne_of_not_mem (Ne.symm (ne_of_digit ha (by decide))) ?_
      exact List.not_mem_cons_of_ne_of_not_mem (Ne.symm (ne_of_digit hb (by decide))) ih

/-- The bytes that are read are those that were put in. -/
theorem bytes_eq (h : Spells bytes cs) :
    Percent.bytes (cs.map fun c => if c = '+' then ' ' else c) = bytes := by
  induction h with
  | nil => rfl
  | self ascii free _ ih =>
      have hplus := char_ne (c := '+') fun hb => free.2.2 (UInt8.toNat_inj.1 hb)
      have hpercent := char_ne (c := '%') fun hb => free.1 (UInt8.toNat_inj.1 hb)
      rw [List.map_cons, if_neg hplus, Percent.bytes, Ascii.utf8EncodeChar_char ascii, ih,
        List.singleton_append]
      exact fun _ _ _ hc _ => hpercent hc
  | plus _ ih =>
      have hblank : String.utf8EncodeChar ' ' = [32] := by decide
      rw [List.map_cons, if_pos rfl, Percent.bytes, hblank, ih, List.singleton_append]
      exact fun _ _ _ hc _ => absurd hc (by decide)
  | digits byte _ ih =>
      obtain ⟨ha, hb⟩ := digits_of_byte? byte
      simp only [List.map_cons, if_neg (ne_of_digit ha (d := '+') (by decide)),
        if_neg (ne_of_digit hb (d := '+') (by decide)), if_neg (show '%' ≠ '+' by decide),
        Percent.bytes, byte, ih]

theorem decoded_eq {s : String} (h : Spells (Utf8.encode s) cs) : decoded cs = s := by
  rw [decoded, h.bytes_eq, Utf8.decodeLossy_encode]

/-- The value of the one parameter in a query is the text that is spelled there. -/
theorem single? {name s : String} (hname : decoded name.toList = name)
    (hequals : '=' ∉ name.toList) (hmark : '&' ∉ name.toList) (h : Spells (Utf8.encode s) cs) :
    Parameters.single? name (name.toList ++ '=' :: cs) = some s := by
  have hends : ∀ c ∈ name.toList, decide (c ≠ '=') = true := by
    intro c hc
    exact decide_eq_true fun heq => hequals (heq ▸ hc)
  have hbefore : (name.toList ++ '=' :: cs).takeWhile (· ≠ '=') = name.toList := by
    rw [List.takeWhile_append_of_pos hends, List.takeWhile_cons_of_neg (by decide),
      List.append_nil]
  have hbehind : (name.toList ++ '=' :: cs).dropWhile (· ≠ '=') = '=' :: cs := by
    rw [List.dropWhile_append_of_pos hends, List.dropWhile_cons_of_neg (by decide)]
  have hone : '&' ∉ name.toList ++ '=' :: cs := by
    intro hmem
    rcases List.mem_append.1 hmem with hin | hin
    · exact hmark hin
    · exact List.not_mem_cons_of_ne_of_not_mem (by decide) h.not_mem_mark hin
  have hentry : entry (name.toList ++ '=' :: cs) = (name, s) := by
    rw [entry, hbefore, hbehind, hname, List.drop_one, List.tail_cons, h.decoded_eq]
  have hentries : entries (name.toList ++ '=' :: cs) = [(name, s)] := by
    rw [entries_of_not_mem hone (by simp), hentry]
  simp [Parameters.single?, hentries]

end Spells

/-- Every text can be spelled. -/
theorem spells_encode (bytes : List UInt8) : Spells bytes (Percent.encode bytes) := by
  induction bytes with
  | nil => exact .nil
  | cons v rest ih =>
      rw [Percent.encode, List.flatMap_cons, ← Percent.encode]
      by_cases hplain : Percent.isPlain v = true
      · have hascii : v.toNat < 128 := by
          simp only [Percent.isPlain, Bool.and_eq_true, decide_eq_true_eq] at hplain
          exact hplain.1
        rw [if_pos hplain]
        refine .self hascii ⟨?_, ?_, ?_⟩ ih
        all_goals
          rintro rfl
          exact absurd hplain (by decide)
      · have hv : v.toNat < 256 := v.toNat_lt
        have hbyte := Percent.byte?_digit (show v.toNat / 16 < 16 by omega)
          (show v.toNat % 16 < 16 by omega)
        have hsum : (v.toNat / 16 * 16 + v.toNat % 16).toUInt8 = v := by
          have hnumber : v.toNat / 16 * 16 + v.toNat % 16 = v.toNat := by omega
          rw [hnumber]
          exact UInt8.ofNat_toNat
        rw [hsum] at hbyte
        rw [if_neg hplain]
        exact .digits hbyte ih

end Parameters

end ReviewDesk
