/-
Module: Containment.Text.Utf8
Purpose: Texts as UTF-8 bytes, and what is wrong with bytes that are not UTF-8.
Main exports: Utf8.encode, Utf8.decode, Utf8Fault, Utf8Fault.message
-/

namespace Containment.Text

/-- The first place where bytes stop being UTF-8: how many bytes before it are valid, and how many bytes
from there on cannot be part of any text (`none` if the bytes end inside a character). -/
structure Utf8Fault where
  validUpTo : Nat
  length : Option Nat
deriving Repr, DecidableEq

/-- The wording of a fault. -/
def Utf8Fault.message (fault : Utf8Fault) : String :=
  match fault.length with
  | some n => s!"invalid utf-8 sequence of {n} bytes from index {fault.validUpTo}"
  | none => s!"incomplete utf-8 byte sequence from index {fault.validUpTo}"

namespace Utf8

/-- The bytes of a text. -/
def encode (s : String) : List UInt8 :=
  s.toUTF8.toList

/-- A byte that continues a character. -/
def isContinuation (b : UInt8) : Bool :=
  0x80 ≤ b && b ≤ 0xbf

/-- Whether the second byte may follow the first byte of a character of three or four bytes: overlong
forms, surrogates and values above U+10FFFF are excluded here. -/
def mayFollow (first second : UInt8) : Bool :=
  if first = 0xe0 then 0xa0 ≤ second && second ≤ 0xbf
  else if first = 0xed then 0x80 ≤ second && second ≤ 0x9f
  else if first = 0xf0 then 0x90 ≤ second && second ≤ 0xbf
  else if first = 0xf4 then 0x80 ≤ second && second ≤ 0x8f
  else isContinuation second

/-- Check the `count` continuation bytes that are still due after `seen` bytes of a character; the answer
is what follows, or the number of bytes that are wrong. -/
def continuations : Nat → Nat → List UInt8 → Except (Option Nat) (List UInt8)
  | 0, _, rest => .ok rest
  | _ + 1, _, [] => .error none
  | count + 1, seen, b :: rest =>
    if isContinuation b then continuations count (seen + 1) rest else .error (some seen)

/-- Take one character off the front; the answer is its length and what follows. -/
def character (first : UInt8) (rest : List UInt8) : Except (Option Nat) (Nat × List UInt8) :=
  if first < 0x80 then .ok (1, rest)
  else if 0xc2 ≤ first && first ≤ 0xdf then (continuations 1 1 rest).map fun rest => (2, rest)
  else if 0xe0 ≤ first && first ≤ 0xf4 then
    let width := if first < 0xf0 then 3 else 4
    match rest with
    | [] => .error none
    | second :: rest =>
      if mayFollow first second then
        (continuations (width - 2) 2 rest).map fun rest => (width, rest)
      else .error (some 1)
  else .error (some 1)

/-- The first fault at or after position `at`, looking at no more characters than `fuel`. -/
def faultFrom : Nat → Nat → List UInt8 → Option Utf8Fault
  | 0, _, _ => none
  | _ + 1, _, [] => none
  | fuel + 1, position, first :: rest =>
    match character first rest with
    | .ok (width, rest) => faultFrom fuel (position + width) rest
    | .error length => some { validUpTo := position, length }

/-- The first fault. -/
def fault? (bytes : List UInt8) : Option Utf8Fault :=
  faultFrom bytes.length 0 bytes

/-- The text that the bytes stand for. -/
def decode (bytes : List UInt8) : Except Utf8Fault String :=
  match String.fromUTF8? (ByteArray.mk bytes.toArray) with
  | some s => .ok s
  | none => .error ((fault? bytes).getD { validUpTo := 0, length := none })

end Utf8

end Containment.Text
