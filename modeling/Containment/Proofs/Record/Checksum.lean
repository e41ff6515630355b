/-
Module: Containment.Proofs.Record.Checksum
Purpose: What the checksum notices. The register is changed by steps that lose nothing, and up to four bytes enter it as
  one number; so bytes that differ within four of them in a row never have the same checksum.
Main exports: Checksum.shiftBit_xor, Checksum.shiftByte_injective, Checksum.register_eq_iterate,
  Codec.ofLittleEndian_inj, Checksum.crc32_ne_of_burst
-/
import Containment.Record.Codec
import Containment.Checksum
import Mathlib.Data.Nat.Bitwise
import Mathlib.Logic.Function.Iterate

namespace Containment

namespace Checksum

/-! ### Dividing loses nothing -/

/-- The lowest bit of a register, as its division tests it. -/
theorem low_bit_iff {crc : UInt32} : crc &&& 1 = 1 ↔ crc.toNat % 2 = 1 := by
  rw [← UInt32.toNat_inj, UInt32.toNat_and]
  change crc.toNat &&& 1 = 1 ↔ _
  rw [Nat.and_one_is_mod]

theorem toNat_half (crc : UInt32) : (crc >>> 1).toNat = crc.toNat / 2 := by
  rw [UInt32.toNat_shiftRight]
  exact Nat.shiftRight_eq_div_pow _ 1

/-- Division is linear: it goes through the sum of registers. -/
theorem shiftBit_xor (a b : UInt32) : shiftBit (a ^^^ b) = shiftBit a ^^^ shiftBit b := by
  have bit : (a ^^^ b).toNat % 2 = (a.toNat % 2 + b.toNat % 2) % 2 := by
    rw [UInt32.toNat_xor, Nat.xor_mod_two_eq]
    omega
  have twice : (a >>> 1 ^^^ polynomial) ^^^ (b >>> 1 ^^^ polynomial) = a >>> 1 ^^^ b >>> 1 := by
    rw [UInt32.xor_comm (b >>> 1), UInt32.xor_assoc, ← UInt32.xor_assoc polynomial, UInt32.xor_self,
      UInt32.zero_xor]
  simp only [shiftBit, low_bit_iff, bit, UInt32.shiftRight_xor]
  rcases Nat.mod_two_eq_zero_or_one a.toNat with evenA | oddA
  all_goals rcases Nat.mod_two_eq_zero_or_one b.toNat with evenB | oddB
  · simp [evenA, evenB]
  · simp [evenA, oddB, UInt32.xor_assoc]
  · simp [oddA, evenB, UInt32.xor_assoc, UInt32.xor_comm polynomial]
  · simp [oddA, oddB, twice]

/-- Only the empty register is divided into the empty one: the polynomial's highest bit shows that one was
subtracted. -/
theorem eq_zero_of_shiftBit {crc : UInt32} (empty : shiftBit crc = 0) : crc = 0 := by
  have half := toNat_half crc
  have bound := crc.toNat_lt
  by_cases odd : crc &&& 1 = 1
  · rw [shiftBit, if_pos odd, UInt32.xor_eq_zero_iff] at empty
    rw [empty] at half
    change 0xEDB88320 = crc.toNat / 2 at half
    omega
  · rw [shiftBit, if_neg odd] at empty
    rw [empty] at half
    rw [low_bit_iff] at odd
    change 0 = crc.toNat / 2 at half
    rw [← UInt32.toNat_inj]
    change crc.toNat = 0
    omega

theorem shiftByte_xor (a b : UInt32) : shiftByte (a ^^^ b) = shiftByte a ^^^ shiftByte b := by
  simp only [shiftByte, shiftBit_xor]

theorem shiftByte_injective : Function.Injective shiftByte := by
  intro a b same
  have empty : shiftByte (a ^^^ b) = 0 := by
    rw [shiftByte_xor, same, UInt32.xor_self]
  apply UInt32.xor_eq_zero_iff.1
  iterate 8 apply eq_zero_of_shiftBit
  exact empty

/-! ### Bytes that enter together -/

/-- A register with the lowest bit clear is halved. -/
theorem shiftBit_double {n : Nat} (fits : 2 * n < 2 ^ 32) : shiftBit (.ofNat (2 * n)) = .ofNat n := by
  have value : (UInt32.ofNat (2 * n)).toNat = 2 * n := UInt32.toNat_ofNat_of_lt' fits
  have even : ¬ (UInt32.ofNat (2 * n)) &&& 1 = 1 := by
    rw [low_bit_iff, value]
    omega
  rw [shiftBit, if_neg even, ← UInt32.toNat_inj, toNat_half, value, UInt32.toNat_ofNat_of_lt' (show n < 2 ^ 32 by omega)]
  omega

/-- A register with the lowest byte clear moves down by that byte. -/
theorem shiftByte_ofNat {n : Nat} (fits : n < 2 ^ 24) : shiftByte (.ofNat (256 * n)) = .ofNat n := by
  have split : 256 * n = 2 * (2 * (2 * (2 * (2 * (2 * (2 * (2 * n))))))) := by omega
  rw [split, shiftByte]
  iterate 8 rw [shiftBit_double (by omega)]

/-- A byte below a number that is moved up by one. -/
theorem ofNat_add_eq_xor (b : UInt8) (n : Nat) :
    UInt32.ofNat (b.toNat + 256 * n) = b.toUInt32 ^^^ UInt32.ofNat (256 * n) := by
  have apart : b.toNat + 256 * n = b.toNat ^^^ 256 * n := by
    apply Nat.eq_of_testBit_eq
    intro i
    have below := Nat.testBit_two_pow_mul_add n b.toNat_lt i
    have above := Nat.testBit_two_pow_mul_add n (Nat.two_pow_pos 8) i
    rw [Nat.add_comm, Nat.testBit_xor]
    simp only [Nat.add_zero, Nat.zero_testBit] at above
    rw [show 256 = 2 ^ 8 from rfl, below, above]
    split
    · rw [Bool.xor_false]
    · rename_i high
      rw [Nat.testBit_lt_two_pow (Nat.lt_of_lt_of_le b.toNat_lt (Nat.pow_le_pow_right (by decide) (by omega))),
        Bool.false_xor]
  rw [apart, ← UInt32.toNat_inj]
  simp

end Checksum

namespace Codec

theorem ofLittleEndian_lt (bytes : List UInt8) : ofLittleEndian bytes < 256 ^ bytes.length := by
  induction bytes with
  | nil => exact Nat.one_pos
  | cons b rest ih =>
    have small := b.toNat_lt
    rw [ofLittleEndian, List.length_cons, Nat.pow_succ]
    omega

/-- Bytes in equal number that stand for the same number are the same. -/
theorem ofLittleEndian_inj {bytes bytes' : List UInt8} (length : bytes.length = bytes'.length)
    (same : ofLittleEndian bytes = ofLittleEndian bytes') : bytes = bytes' := by
  induction bytes generalizing bytes' with
  | nil => exact (List.length_eq_zero_iff.1 length.symm).symm
  | cons b rest ih =>
    cases bytes' with
    | nil => cases length
    | cons b' rest' =>
      have small := b.toNat_lt
      have small' := b'.toNat_lt
      simp only [ofLittleEndian] at same
      rw [UInt8.toNat_inj.1 (show b.toNat = b'.toNat by omega), ih (Nat.succ.inj length) (by omega)]

end Codec

namespace Checksum

open Codec

/-- Up to four bytes enter the register as the one number that they stand for. -/
theorem register_eq_iterate {bytes : List UInt8} (short : bytes.length ≤ 4) (crc : UInt32) :
    register crc bytes = shiftByte^[bytes.length] (crc ^^^ .ofNat (ofLittleEndian bytes)) := by
  induction bytes generalizing crc with
  | nil => exact (UInt32.xor_zero).symm
  | cons b rest ih =>
    have fits : ofLittleEndian rest < 2 ^ 24 := by
      apply Nat.lt_of_lt_of_le (ofLittleEndian_lt rest)
      exact Nat.pow_le_pow_right (by decide) (Nat.le_of_succ_le_succ short)
    calc register crc (b :: rest)
      _ = register (shiftByte (crc ^^^ b.toUInt32)) rest := rfl
      _ = shiftByte^[rest.length] (shiftByte (crc ^^^ b.toUInt32) ^^^ .ofNat (ofLittleEndian rest)) :=
        ih (Nat.le_of_succ_le short) _
      _ = shiftByte^[rest.length] (shiftByte (crc ^^^ .ofNat (ofLittleEndian (b :: rest)))) := by
        rw [ofLittleEndian, ofNat_add_eq_xor, ← UInt32.xor_assoc, shiftByte_xor _ (.ofNat _), shiftByte_ofNat fits]

/-- Different registers stay different, whatever bytes come. -/
theorem register_injective (bytes : List UInt8) : Function.Injective (register · bytes) := by
  induction bytes with
  | nil => exact fun _ _ same => same
  | cons b rest ih =>
    intro crc crc' same
    exact UInt32.xor_left_inj b.toUInt32 |>.1 (shiftByte_injective (ih same))

/-- Up to four different bytes make different registers. -/
theorem eq_of_register_eq {crc : UInt32} {bytes bytes' : List UInt8} (short : bytes.length ≤ 4)
    (length : bytes.length = bytes'.length) (same : register crc bytes = register crc bytes') : bytes = bytes' := by
  rw [register_eq_iterate short, register_eq_iterate (length ▸ short), ← length] at same
  have word := UInt32.xor_right_inj crc |>.1 (shiftByte_injective.iterate _ same)
  have bound : 256 ^ bytes.length ≤ 2 ^ 32 := Nat.pow_le_pow_right (by decide) short
  apply ofLittleEndian_inj length
  rw [← UInt32.toNat_inj, UInt32.toNat_ofNat_of_lt' (Nat.lt_of_lt_of_le (ofLittleEndian_lt bytes) bound),
    UInt32.toNat_ofNat_of_lt' (Nat.lt_of_lt_of_le (ofLittleEndian_lt bytes') (length ▸ bound))] at word
  exact word

/-- The checksum tells bytes apart that differ within four bytes in a row. -/
theorem crc32_ne_of_burst {front burst burst' : List UInt8} (back : List UInt8) (short : burst.length ≤ 4)
    (length : burst.length = burst'.length) (ne : burst ≠ burst') :
    crc32 (front ++ burst ++ back) ≠ crc32 (front ++ burst' ++ back) := by
  intro same
  rw [crc32, crc32, UInt32.not_inj] at same
  simp only [register_append] at same
  exact ne (eq_of_register_eq short length (register_injective back same))

end Checksum

end Containment
