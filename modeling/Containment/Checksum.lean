/-
Module: Containment.Checksum
Purpose: The 32-bit cyclic redundancy check of IEEE 802.3, bits taken from the low end.
Main exports: crc32
-/

namespace Containment.Checksum

/-- The generator polynomial, lowest power in the highest bit. -/
def polynomial : UInt32 := 0xEDB88320

/-- Divide by x: shift one bit out and, if it was set, subtract the polynomial. -/
def shiftBit (crc : UInt32) : UInt32 :=
  if crc &&& 1 = 1 then (crc >>> 1) ^^^ polynomial else crc >>> 1

/-- Eight shifts. -/
def shiftByte (crc : UInt32) : UInt32 :=
  shiftBit (shiftBit (shiftBit (shiftBit (shiftBit (shiftBit (shiftBit (shiftBit crc)))))))

/-- Take one byte into the register. -/
def step (crc : UInt32) (byte : UInt8) : UInt32 :=
  shiftByte (crc ^^^ byte.toUInt32)

/-- The register after some bytes. -/
def register (crc : UInt32) (bytes : List UInt8) : UInt32 :=
  bytes.foldl step crc

/-- The checksum: the register starts with all bits set and is inverted at the end. -/
def crc32 (bytes : List UInt8) : UInt32 :=
  ~~~ register 0xFFFFFFFF bytes

theorem register_append (crc : UInt32) (first second : List UInt8) :
    register crc (first ++ second) = register (register crc first) second :=
  List.foldl_append

end Containment.Checksum
