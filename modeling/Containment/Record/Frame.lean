/-
Module: Containment.Record.Frame
Purpose: The file form of a record: the length and the checksum of its bytes, then the bytes. What does
  not match its header is corrupt and never taken for a record.
Main exports: FrameFault, FrameFault.message, Record.frame?, Record.unframe
-/
import Containment.Checksum
import Containment.Record.Codec
import Containment.Text.Hex

namespace Containment

open Text Checksum

/-- How a file fails to match its header. -/
inductive FrameFault where
  | truncatedHeader (size : Nat)
  | lengthMismatch (header payload : Nat)
  | checksumMismatch (expected actual : UInt32)
deriving Repr, DecidableEq

/-- The wording of a fault. -/
def FrameFault.message : FrameFault → String
  | .truncatedHeader size => s!"truncated header ({size} bytes)"
  | .lengthMismatch header payload => s!"length mismatch: header {header}, payload {payload}"
  | .checksumMismatch expected actual =>
      s!"CRC mismatch: expected {Hex.word expected}, got {Hex.word actual}"

/-- What reading a file can fail with: the file is damaged, or its bytes are no record. -/
inductive UnframeFault where
  | corrupt (fault : FrameFault)
  | undecodable (fault : DecodeFault)
deriving Repr, DecidableEq

namespace Frame

/-- The number of bytes in front of the payload. -/
def headerSize : Nat := 8

/-- Header and payload. -/
def wrap (payload : List UInt8) : List UInt8 :=
  Codec.writeWord payload.length ++ Codec.writeWord (crc32 payload).toNat ++ payload

/-- The payload of a file, if its header tells the truth about it. -/
def unwrap (bytes : List UInt8) : Except FrameFault (List UInt8) :=
  if bytes.length < headerSize then .error (.truncatedHeader bytes.length)
  else
    let length := Codec.ofLittleEndian (bytes.take 4)
    let expected := UInt32.ofNat (Codec.ofLittleEndian ((bytes.drop 4).take 4))
    let payload := bytes.drop headerSize
    if payload.length ≠ length then .error (.lengthMismatch length payload.length)
    else if crc32 payload ≠ expected then .error (.checksumMismatch expected (crc32 payload))
    else .ok payload

end Frame

/-- The file form of a record; the length of a record has to fit in 32 bits. -/
def Record.frame? (r : Record) : Option (List UInt8) :=
  if r.encode.length < 0x100000000 then some (Frame.wrap r.encode) else none

/-- The record that a file holds. -/
def Record.unframe (bytes : List UInt8) : Except UnframeFault Record :=
  match Frame.unwrap bytes with
  | .error fault => .error (.corrupt fault)
  | .ok payload => (Record.decode payload).mapError .undecodable

end Containment
