import Mathlib.Algebra.Order.Floor.Div
import Mathlib.Data.UInt
import Mathlib.Order.Interval.Finset.Nat
import Mathlib.Tactic.LinearCombination
import Mathlib.Tactic.Ring
import ReviewDesk.Proofs.Picks

/-!
# Every index has as many words

An index below `n` is the upper half of the product of a word with `n`, and the lower half
decides whether the word counts.  So the words that count for the index `i` are those whose
product lies in a stretch that starts at `i` times the number of words and is as long as `n`
shifted up to the top of a word.  A stretch that is `2 ^ z` times as long as `n` has `2 ^ z`
multiples of `n`, wherever it starts, and so every index has as many words as any other.

A draw goes on until a word counts, and one always comes, because the generator gives every
word.  Its multiplier leaves 1 when divided by 4 and its increment is odd.  Therefore `2 ^ k`
steps add `2 ^ k` to a word, up to a multiple of `2 ^ (k + 1)`, and any word is reached from
any other, one bit after the other.

* `exists_iterate_scramble` — the generator gives every word within 2³² steps;
* `exists_indexBelow_eq` — an index is that of the first word that counts;
* `card_wordsFor` — and every index has as many words as any other.
-/

namespace ReviewDesk

namespace Words

section Generator

open scoped UInt32.CommRing

/-! ## The generator gives every word -/

/-- `2 ^ k` steps add `2 ^ k`, up to a multiple of `2 ^ (k + 1)`. -/
theorem exists_iterate_scramble_two_pow (k : Nat) :
    ∃ s t : UInt32, ∀ x, scramble^[2 ^ k] x = x + 2 ^ k + 2 ^ (k + 1) * (s + 2 * t * x) := by
  induction k with
  | zero =>
      refine ⟨506952111, 416131, fun x => ?_⟩
      change scramble x = _
      rw [scramble]
      ring
  | succ k ih =>
      obtain ⟨s, t, hsteps⟩ := ih
      refine ⟨s + 2 ^ k * t * (1 + 2 * s), t + 2 ^ (k + 1) * t ^ 2, fun x => ?_⟩
      rw [pow_succ 2 k, Nat.mul_two, Function.iterate_add_apply, hsteps, hsteps]
      ring

theorem exists_eq_two_mul (m : UInt32) : ∃ h, m = 2 * h ∨ m = 2 * h + 1 := by
  have hlt := m.toNat_lt
  refine ⟨m / 2, ?_⟩
  simp only [← UInt32.toNat_inj, UInt32.toNat_add, UInt32.toNat_mul, UInt32.toNat_div,
    UInt32.reduceToNat]
  omega

/-- The lower `k` bits of any word are reached in fewer than `2 ^ k` steps. -/
theorem exists_iterate_scramble_add (x y : UInt32) (k : Nat) :
    ∃ steps < 2 ^ k, ∃ m, scramble^[steps] x = y + 2 ^ k * m := by
  induction k with
  | zero => exact ⟨0, Nat.one_pos, x - y, by simp⟩
  | succ k ih =>
      obtain ⟨steps, hsteps, m, hm⟩ := ih
      have hdouble : 2 ^ (k + 1) = 2 ^ k + 2 ^ k := by rw [pow_succ, Nat.mul_two]
      -- the next bit is right, or `2 ^ k` further steps turn it over
      obtain ⟨h, hbit | hbit⟩ := exists_eq_two_mul m
      · refine ⟨steps, by omega, h, ?_⟩
        rw [hm, hbit]
        ring
      · obtain ⟨s, t, hmore⟩ := exists_iterate_scramble_two_pow k
        refine ⟨2 ^ k + steps, by omega, h + 1 + (s + 2 * t * scramble^[steps] x), ?_⟩
        rw [Function.iterate_add_apply, hmore]
        linear_combination hm + 2 ^ k * hbit

/-- Whatever its state, the generator gives every word within 2³² steps. -/
theorem exists_iterate_scramble (x y : UInt32) : ∃ steps < 2 ^ 32, scramble^[steps] x = y := by
  obtain ⟨steps, hsteps, m, hm⟩ := exists_iterate_scramble_add x y 32
  have hzero : (2 : UInt32) ^ 32 = 0 := by decide
  refine ⟨steps, hsteps, ?_⟩
  rw [hm, hzero, zero_mul, add_zero]

end Generator

theorem queued_skip (k : Nat) (w : Words) : (w.skip k).queued = w.queued.drop k := by
  induction k generalizing w with
  | zero => rfl
  | succ k ih =>
      rw [skip, ih, next]
      cases w.queued with
      | nil => rw [List.drop_nil, List.drop_nil]
      | cons v later => rfl

/-- When no word is known in advance any more, the generator goes on from its state. -/
theorem next_skip_of_queued {w : Words} (hqueued : w.queued = []) (k : Nat) :
    (w.skip k).next.1 = scramble^[k] (scramble w.state) := by
  induction k generalizing w with
  | zero => rw [skip, next, hqueued, Function.iterate_zero_apply]
  | succ k ih =>
      have hnext : w.next.2 = ⟨[], scramble w.state, w.taken + 1⟩ := by rw [next, hqueued]
      rw [skip, hnext, ih rfl, Function.iterate_succ_apply]

/-- Every word comes, within 2³² steps behind those that are known in advance. -/
theorem exists_next_skip (w : Words) (v : UInt32) :
    ∃ k < w.queued.length + Draw.wordCount, (w.skip k).next.1 = v := by
  have hqueued : (w.skip w.queued.length).queued = [] := by rw [queued_skip, List.drop_length]
  obtain ⟨steps, hsteps, hv⟩ :=
    exists_iterate_scramble (scramble (w.skip w.queued.length).state) v
  refine ⟨w.queued.length + steps, Nat.add_lt_add_left hsteps _, ?_⟩
  rw [← skip_add, next_skip_of_queued hqueued, hv]

end Words

namespace Draw

/-! ## The first word that counts -/

/-- The index that comes from a stream is that of the first word that counts, if one comes within
the tries. -/
theorem exists_indexWithin_eq {n tries k : Nat} {w : Words} (hk : k ≤ tries)
    (hcounts : accepts n (w.skip k).next.1.toNat = true) :
    ∃ j, (∀ i < j, accepts n (w.skip i).next.1.toNat = false) ∧
      accepts n (w.skip j).next.1.toNat = true ∧
      indexWithin n tries w = (index n (w.skip j).next.1.toNat, w.skip (j + 1)) := by
  induction tries generalizing k w with
  | zero =>
      obtain rfl := Nat.le_zero.1 hk
      exact ⟨0, fun i hi => absurd hi (Nat.not_lt_zero i), hcounts, rfl⟩
  | succ tries ih =>
      by_cases hfirst : accepts n w.next.1.toNat = true
      · refine ⟨0, fun i hi => absurd hi (Nat.not_lt_zero i), hfirst, ?_⟩
        rw [indexWithin, if_pos hfirst]
        rfl
      · cases k with
        | zero => exact absurd hcounts hfirst
        | succ k =>
            obtain ⟨j, hskipped, hj, hindex⟩ := ih (Nat.le_of_succ_le_succ hk) hcounts
            refine ⟨j + 1, fun i hi => ?_, hj, ?_⟩
            · cases i with
              | zero => exact Bool.eq_false_iff.2 hfirst
              | succ i => exact hskipped i (Nat.lt_of_succ_lt_succ hi)
            · rw [indexWithin, if_neg hfirst, hindex]
              rfl

/-- **The first word that counts.**  An index is that of the first word of the stream that counts,
and the stream goes on behind this word; there always is such a word. -/
theorem exists_indexBelow_eq (n : Nat) (w : Words) :
    ∃ j, (∀ i < j, accepts n (w.skip i).next.1.toNat = false) ∧
      accepts n (w.skip j).next.1.toNat = true ∧
      w.indexBelow n = (index n (w.skip j).next.1.toNat, w.skip (j + 1)) := by
  obtain ⟨k, hk, hzero⟩ := w.exists_next_skip 0
  have hcounts : accepts n (w.skip k).next.1.toNat = true := by
    rw [hzero]
    simp [accepts]
  exact exists_indexWithin_eq (Nat.le_of_lt hk) hcounts

/-! ## How many words an index has -/

/-- The number of zeros in front of a number written with 32 bits. -/
def leadingZeros (n : Nat) : Nat := 31 - n.log2

/-- Shifted up by its leading zeros, a number has its top bit at the top of a word. -/
theorem shifted_bounds {n : Nat} (hn : 0 < n) (hlt : n < wordCount) :
    2 ^ 31 ≤ n * 2 ^ leadingZeros n ∧ n * 2 ^ leadingZeros n < wordCount := by
  have hne : n ≠ 0 := Nat.pos_iff_ne_zero.1 hn
  have hlog : n.log2 < 32 := (Nat.log2_lt hne).2 hlt
  have hshift : n.log2 + leadingZeros n = 31 := by
    rw [leadingZeros]
    omega
  constructor
  · calc 2 ^ 31 = 2 ^ n.log2 * 2 ^ leadingZeros n := by rw [← pow_add, hshift]
      _ ≤ n * 2 ^ leadingZeros n := Nat.mul_le_mul_right _ (Nat.log2_self_le hne)
  · calc n * 2 ^ leadingZeros n < 2 ^ (n.log2 + 1) * 2 ^ leadingZeros n :=
        Nat.mul_lt_mul_of_pos_right Nat.lt_log2_self (Nat.two_pow_pos _)
      _ = wordCount := by rw [← pow_add, Nat.add_right_comm, hshift]; rfl

/-- The words below `wordCount` that count in a draw below `n` and stand for the index `i`. -/
def wordsFor (n i : Nat) : Finset Nat :=
  (Finset.range wordCount).filter fun v => accepts n v = true ∧ index n v = i

/-- The products of the words for an index make a stretch of products. -/
theorem mem_wordsFor {n i v : Nat} (hn : 0 < n) (hlt : n < wordCount) (hi : i < n) :
    v ∈ wordsFor n i ↔
      i * wordCount ≤ n * v ∧ n * v < i * wordCount + n * 2 ^ leadingZeros n := by
  have hpos : 0 < n * 2 ^ leadingZeros n := Nat.mul_pos hn (Nat.two_pow_pos _)
  obtain ⟨-, htop⟩ := shifted_bounds hn hlt
  have hzone : zone n = n * 2 ^ leadingZeros n - 1 := by rw [zone, Nat.shiftLeft_eq, leadingZeros]
  have hsplit := Nat.div_add_mod (v * n) wordCount
  have hmod := Nat.mod_lt (v * n) (show 0 < wordCount by decide)
  simp only [wordsFor, Finset.mem_filter, Finset.mem_range, accepts, decide_eq_true_eq, index,
    hzone]
  rw [Nat.mul_comm n v, Nat.mul_comm i]
  constructor
  · rintro ⟨-, hcounts, rfl⟩
    omega
  · rintro ⟨hlow, hhigh⟩
    have hindex : v * n / wordCount = i := by
      apply Nat.div_eq_of_lt_le
      · rw [Nat.mul_comm]
        exact hlow
      · rw [Nat.succ_mul, Nat.mul_comm i]
        omega
    rw [hindex] at hsplit
    refine ⟨?_, by omega, hindex⟩
    have hbound : v * n < wordCount * n := by
      calc v * n < wordCount * i + wordCount := by omega
        _ = wordCount * (i + 1) := (Nat.mul_succ wordCount i).symm
        _ ≤ wordCount * n := Nat.mul_le_mul_left _ hi
    exact Nat.lt_of_mul_lt_mul_right hbound

/-- **All indices have as many words.**  Each index below `n` is that of exactly `2 ^ z` of the
words that count, with `z` the leading zeros of `n`. -/
theorem card_wordsFor {n i : Nat} (hn : 0 < n) (hlt : n < wordCount) (hi : i < n) :
    (wordsFor n i).card = 2 ^ leadingZeros n := by
  let start := i * wordCount ⌈/⌉ n
  have hstart : ∀ v, start ≤ v ↔ i * wordCount ≤ n * v := fun v => ceilDiv_le_iff_le_mul hn
  have hwords : wordsFor n i = Finset.Ico start (start + 2 ^ leadingZeros n) := by
    ext v
    rw [mem_wordsFor hn hlt hi, Finset.mem_Ico, ← hstart]
    refine and_congr_right fun _ => ?_
    rcases Nat.lt_or_ge v (2 ^ leadingZeros n) with hfew | hmany
    · have hbelow : n * v < n * 2 ^ leadingZeros n := Nat.mul_lt_mul_of_pos_left hfew hn
      omega
    · obtain ⟨u, rfl⟩ := Nat.exists_eq_add_of_le hmany
      have hbelow := hstart u
      rw [Nat.mul_add]
      omega
  rw [hwords, Nat.card_Ico, Nat.add_sub_cancel_left]

end Draw

end ReviewDesk
