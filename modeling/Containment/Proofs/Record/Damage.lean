/-
Module: Containment.Proofs.Record.Damage
Purpose: Small damages of a record's file. A file that ends too early or goes on too long, and one with bits turned over
  in its header or within four bytes in a row of its payload, does not match its header any more; so it is read as
  corrupt and never taken for a record.
Main exports: Frame.Within, Frame.struck, Frame.Damaged, Frame.Damaged.refused, Record.damage_detected
-/
import Containment.Proofs.Record.Checksum
import Containment.Proofs.Record.Codec
import Containment.Store.Directory

namespace Containment

open Codec Checksum

namespace Frame

/-- Bytes with the bits turned over that are set in a mask. -/
def struck (bytes mask : List UInt8) : List UInt8 :=
  List.zipWith (· ^^^ ·) bytes mask

/-- All that a mask turns over lies in these many bytes from `start` on. -/
def Within (mask : List UInt8) (start width : Nat) : Prop :=
  ∀ (i : Nat) (b : UInt8), mask[i]? = some b → b ≠ 0 → start ≤ i ∧ i < start + width

/-- What can become of a file: it is cut short, something follows it, or bits are turned over, at least one of them,
which all lie in the header or within four bytes of the payload. -/
inductive Damaged (file : List UInt8) : List UInt8 → Prop
  | cut {part : List UInt8} : part <+: file → part ≠ file → Damaged file part
  | grown {more : List UInt8} : more ≠ [] → Damaged file (file ++ more)
  | header {mask : List UInt8} : mask.length = file.length → (∃ b ∈ mask, b ≠ 0) → Within mask 0 headerSize →
      Damaged file (struck file mask)
  | payload {mask : List UInt8} {start : Nat} : mask.length = file.length → (∃ b ∈ mask, b ≠ 0) →
      headerSize ≤ start → Within mask start 4 → Damaged file (struck file mask)

/-! ### Bits turned over -/

section Masks

variable {bytes mask : List UInt8} {start width n : Nat}

theorem struck_take (bytes mask : List UInt8) (n : Nat) : (struck bytes mask).take n =
    struck (bytes.take n) (mask.take n) :=
  List.take_zipWith

theorem struck_drop (bytes mask : List UInt8) (n : Nat) : (struck bytes mask).drop n =
    struck (bytes.drop n) (mask.drop n) :=
  List.drop_zipWith

theorem length_struck (length : mask.length = bytes.length) : (struck bytes mask).length = bytes.length := by
  rw [struck, List.length_zipWith, length, Nat.min_self]

/-- A mask changes nothing just if it is blank. -/
theorem struck_eq_self_iff (length : mask.length = bytes.length) : struck bytes mask = bytes ↔ ∀ b ∈ mask, b = 0 := by
  induction bytes generalizing mask with
  | nil =>
    rw [List.length_eq_zero_iff.1 length]
    simp [struck]
  | cons byte rest ih =>
    cases mask with
    | nil => cases length
    | cons b more =>
      have head : byte ^^^ b = byte ↔ b = 0 := by
        rw [← UInt8.xor_right_inj (a := b) (b := 0) byte, UInt8.xor_zero]
      rw [List.forall_mem_cons, ← ih (Nat.succ.inj length), ← head]
      exact List.cons_eq_cons

theorem Within.take (within : Within mask start width) (early : n ≤ start) : ∀ b ∈ mask.take n, b = 0 := by
  intro b mem
  obtain ⟨i, found⟩ := List.mem_iff_getElem?.1 mem
  rw [List.getElem?_take] at found
  split at found
  · rename_i low
    by_contra marked
    have place := within i b found marked
    omega
  · cases found

theorem Within.drop (within : Within mask start width) (late : start + width ≤ n) : ∀ b ∈ mask.drop n, b = 0 := by
  intro b mem
  obtain ⟨i, found⟩ := List.mem_iff_getElem?.1 mem
  rw [List.getElem?_drop] at found
  by_contra marked
  have place := within (n + i) b found marked
  omega

/-- The part of a mask that lies behind so many blank bytes. -/
theorem Within.behind (within : Within mask start width) (early : n ≤ start) :
    Within (mask.drop n) (start - n) width := by
  intro i b found marked
  rw [List.getElem?_drop] at found
  have place := within (n + i) b found marked
  omega

theorem exists_marked_drop (marked : ∃ b ∈ mask, b ≠ 0) (blank : ∀ b ∈ mask.take n, b = 0) :
    ∃ b ∈ mask.drop n, b ≠ 0 := by
  obtain ⟨b, mem, ne⟩ := marked
  rw [← List.take_append_drop n mask, List.mem_append] at mem
  exact ⟨b, mem.resolve_left fun front => ne (blank b front), ne⟩

theorem exists_marked_take (marked : ∃ b ∈ mask, b ≠ 0) (blank : ∀ b ∈ mask.drop n, b = 0) :
    ∃ b ∈ mask.take n, b ≠ 0 := by
  obtain ⟨b, mem, ne⟩ := marked
  rw [← List.take_append_drop n mask, List.mem_append] at mem
  exact ⟨b, mem.resolve_right fun back => ne (blank b back), ne⟩

theorem struck_ne_self (length : mask.length = bytes.length) (marked : ∃ b ∈ mask, b ≠ 0) :
    struck bytes mask ≠ bytes := by
  intro same
  obtain ⟨b, mem, ne⟩ := marked
  exact ne ((struck_eq_self_iff length).1 same b mem)

theorem length_drop_eq (length : mask.length = bytes.length) (n : Nat) : (mask.drop n).length = (bytes.drop n).length := by
  rw [List.length_drop, List.length_drop, length]

theorem length_take_eq (length : mask.length = bytes.length) (n : Nat) : (mask.take n).length = (bytes.take n).length := by
  rw [List.length_take, List.length_take, length]

/-- Bytes are those in front of a window of four, those in it, and those behind it. -/
theorem eq_window (bytes : List UInt8) (start : Nat) :
    bytes = bytes.take start ++ (bytes.drop start).take 4 ++ bytes.drop (start + 4) := by
  rw [List.append_assoc, ← List.drop_drop, List.take_append_drop, List.take_append_drop]

/-- The checksum notices bits turned over within four bytes in a row. -/
theorem crc32_struck_ne (length : mask.length = bytes.length) (marked : ∃ b ∈ mask, b ≠ 0)
    (within : Within mask start 4) : crc32 (struck bytes mask) ≠ crc32 bytes := by
  have front : (struck bytes mask).take start = bytes.take start := by
    rw [struck_take, struck_eq_self_iff (length_take_eq length start)]
    exact within.take le_rfl
  have back : (struck bytes mask).drop (start + 4) = bytes.drop (start + 4) := by
    rw [struck_drop, struck_eq_self_iff (length_drop_eq length _)]
    exact within.drop le_rfl
  have changed : ((struck bytes mask).drop start).take 4 ≠ (bytes.drop start).take 4 := by
    intro same
    apply struck_ne_self length marked
    rw [eq_window (struck bytes mask) start, front, back, same]
    exact (eq_window bytes start).symm
  have sizes : (((struck bytes mask).drop start).take 4).length = ((bytes.drop start).take 4).length := by
    rw [List.length_take, List.length_take, List.length_drop, List.length_drop, length_struck length]
  rw [eq_window (struck bytes mask) start, front, back]
  nth_rewrite 4 [eq_window bytes start]
  exact crc32_ne_of_burst _ (List.length_take_le 4 _) sizes changed

end Masks

/-! ### Files that do not match their header -/

/-- The bytes do not match the header in front of them. -/
def Refused (bytes : List UInt8) : Prop :=
  ∃ fault, unwrap bytes = .error fault

variable {bytes payload damaged : List UInt8}

theorem refused_of_short (short : bytes.length < headerSize) : Refused bytes :=
  ⟨_, if_pos short⟩

theorem refused_of_length (ne : (bytes.drop headerSize).length ≠ ofLittleEndian (bytes.take 4)) : Refused bytes := by
  by_cases short : bytes.length < headerSize
  · exact refused_of_short short
  · exact ⟨_, (if_neg short).trans (if_pos ne)⟩

theorem refused_of_checksum
    (ne : crc32 (bytes.drop headerSize) ≠ .ofNat (ofLittleEndian ((bytes.drop 4).take 4))) : Refused bytes := by
  by_cases length : (bytes.drop headerSize).length ≠ ofLittleEndian (bytes.take 4)
  · exact refused_of_length length
  · by_cases short : bytes.length < headerSize
    · exact refused_of_short short
    · exact ⟨_, (if_neg short).trans ((if_neg length).trans (if_pos ne))⟩

/-- The payload is not as long as the header of the file says. -/
theorem refused_of_payload_length (fits : payload.length < 2 ^ 32) (header : bytes.take 4 = (wrap payload).take 4)
    (ne : (bytes.drop headerSize).length ≠ payload.length) : Refused bytes := by
  apply refused_of_length
  rw [header, take_wrap, ofLittleEndian_writeWord fits]
  exact ne

/-- The header gives another length than that of the payload behind it. -/
theorem refused_of_length_word (fits : payload.length < 2 ^ 32) (word : (bytes.take 4).length = 4)
    (behind : bytes.drop headerSize = payload) (ne : bytes.take 4 ≠ (wrap payload).take 4) : Refused bytes := by
  apply refused_of_length
  intro same
  apply ne
  rw [take_wrap]
  apply ofLittleEndian_inj (word.trans (length_writeWord _).symm)
  rw [← same, behind, ofLittleEndian_writeWord fits]

/-- The header gives another checksum than that of the payload behind it. -/
theorem refused_of_checksum_word (word : ((bytes.drop 4).take 4).length = 4) (behind : bytes.drop headerSize = payload)
    (ne : (bytes.drop 4).take 4 ≠ ((wrap payload).drop 4).take 4) : Refused bytes := by
  apply refused_of_checksum
  intro same
  have small := ofLittleEndian_lt ((bytes.drop 4).take 4)
  rw [word] at small
  apply ne
  rw [take_drop_wrap]
  apply ofLittleEndian_inj (word.trans (length_writeWord _).symm)
  rw [ofLittleEndian_writeWord (toNat_crc32_lt payload), ← behind, same, UInt32.toNat_ofNat_of_lt' small]

/-- The payload has another checksum than the header of the file gives. -/
theorem refused_of_payload_checksum (header : (bytes.drop 4).take 4 = ((wrap payload).drop 4).take 4)
    (ne : crc32 (bytes.drop headerSize) ≠ crc32 payload) : Refused bytes := by
  apply refused_of_checksum
  rw [header, take_drop_wrap, ofLittleEndian_writeWord (toNat_crc32_lt payload), UInt32.ofNat_toNat]
  exact ne

/-! ### Each damage in its turn -/

theorem refused_cut (fits : payload.length < 2 ^ 32) {part : List UInt8} (short : part <+: wrap payload)
    (ne : part ≠ wrap payload) : Refused part := by
  have shorter := length_lt_of_cut short ne
  rw [length_wrap] at shorter
  by_cases headless : part.length < headerSize
  · exact refused_of_short headless
  · have complete : 4 ≤ part.length := Nat.le_trans (by decide) (Nat.not_lt.1 headless)
    apply refused_of_payload_length fits
    · obtain ⟨rest, whole⟩ := short
      rw [← whole, List.take_append_of_le_length complete]
    · rw [List.length_drop]
      omega

theorem refused_grown (fits : payload.length < 2 ^ 32) {more : List UInt8} (nonempty : more ≠ []) :
    Refused (wrap payload ++ more) := by
  have longer : 0 < more.length := List.length_pos_iff.2 nonempty
  have header : 4 ≤ (wrap payload).length := by
    rw [length_wrap]
    exact Nat.le_trans (by decide) (Nat.le_add_right _ _)
  apply refused_of_payload_length fits
  · exact List.take_append_of_le_length header
  · rw [List.length_drop, List.length_append, length_wrap]
    omega

section Struck

variable {mask : List UInt8} (length : mask.length = (wrap payload).length) (marked : ∃ b ∈ mask, b ≠ 0)
include length marked

/-- The header is eight bytes, of which the first four give the length and the others the checksum. -/
theorem refused_header (fits : payload.length < 2 ^ 32) (within : Within mask 0 headerSize) :
    Refused (struck (wrap payload) mask) := by
  have behind : (struck (wrap payload) mask).drop headerSize = payload := by
    rw [struck_drop, (struck_eq_self_iff (length_drop_eq length _)).2 (within.drop (Nat.zero_add _).le), drop_wrap]
  have sizes := length_struck length
  rw [length_wrap] at sizes
  by_cases lengthKept : (struck (wrap payload) mask).take 4 = (wrap payload).take 4
  · apply refused_of_checksum_word _ behind
    · -- the mask is blank in front of the checksum and behind it
      rw [struck_take, struck_eq_self_iff (length_take_eq length 4)] at lengthKept
      rw [struck_drop, struck_take]
      apply struck_ne_self (length_take_eq (length_drop_eq length 4) 4)
      apply exists_marked_take (exists_marked_drop marked lengthKept)
      rw [List.drop_drop]
      exact within.drop (by decide)
    · rw [List.length_take, List.length_drop, sizes, headerSize]
      omega
  · apply refused_of_length_word fits _ behind lengthKept
    rw [List.length_take, sizes, headerSize]
    omega

theorem refused_payload {start : Nat} (inside : headerSize ≤ start) (within : Within mask start 4) :
    Refused (struck (wrap payload) mask) := by
  have blank := within.take inside
  have checksum : ((struck (wrap payload) mask).drop 4).take 4 = ((wrap payload).drop 4).take 4 := by
    have header : (struck (wrap payload) mask).take headerSize = (wrap payload).take headerSize := by
      rw [struck_take, (struck_eq_self_iff (length_take_eq length _)).2 blank]
    have words : ∀ bytes : List UInt8, (bytes.drop 4).take 4 = (bytes.take headerSize).drop 4 :=
      fun bytes => List.take_drop
    rw [words, words, header]
  apply refused_of_payload_checksum checksum
  have rest := length_drop_eq length headerSize
  rw [drop_wrap] at rest
  rw [struck_drop, drop_wrap]
  exact crc32_struck_ne rest (exists_marked_drop marked blank) (within.behind inside)

end Struck

/-- A damaged file does not match its header. -/
theorem Damaged.refused (fits : payload.length < 2 ^ 32) (damage : Damaged (wrap payload) damaged) :
    Refused damaged := by
  cases damage with
  | cut short ne => exact refused_cut fits short ne
  | grown nonempty => exact refused_grown fits nonempty
  | header length marked within => exact refused_header length marked fits within
  | payload length marked inside within => exact refused_payload length marked inside within

end Frame

/-- **Small damages of a record's file are noticed.** Take the file of any record that is short enough to have one, and
let it be cut anywhere, be followed by anything, or have bits turned over in its header or within four bytes in a row of
its payload. Wherever such a file stands in the place of a record, reading that record fails and tells that the file is
corrupt. -/
theorem Record.damage_detected {r : Record} {d : Directory} {id : String} {file damaged : List UInt8}
    (framed : r.frame? = some file) (damage : Frame.Damaged file damaged)
    (stored : d.files[Directory.recordFile id]? = some damaged) :
    ∃ fault, (d.perform (.read id)).1 = .error (.corrupt (d.pathOf (Directory.recordFile id)) fault) := by
  unfold Record.frame? at framed
  split at framed
  · rename_i fits
    cases framed
    obtain ⟨fault, refused⟩ := damage.refused fits
    refine ⟨fault, ?_⟩
    simp only [Directory.perform, Directory.readFile, stored, Record.unframe, refused]
  · cases framed

/-- A mask that is blank but for some bytes in a row. -/
def Frame.window (before : Nat) (burst : List UInt8) (behind : Nat) : List UInt8 :=
  List.replicate before 0 ++ burst ++ List.replicate behind 0

theorem Frame.within_window (before : Nat) (burst : List UInt8) (behind : Nat) :
    Within (window before burst behind) before burst.length := by
  intro i b found marked
  rw [window, List.append_assoc, List.getElem?_append, List.length_replicate] at found
  split at found
  · rename_i front
    rw [List.getElem?_replicate, if_pos front] at found
    exact absurd (Option.some.inj found).symm marked
  · rw [List.getElem?_append] at found
    split at found
    · omega
    · rw [List.getElem?_replicate] at found
      split at found
      · exact absurd (Option.some.inj found).symm marked
      · cases found

/-- The first and the last bit of four bytes in a row are turned over. -/
theorem Record.damage_detected_extreme :
    let file := Frame.wrap extreme.encode
    let damaged := Frame.struck file (Frame.window 13 [0x80, 0, 0, 0x01] (file.length - 17))
    let d := Directory.write { path := "records" } (Directory.recordFile extreme.id) damaged
    extreme.frame? = some file ∧ Frame.Damaged file damaged ∧
      ∃ fault, (d.perform (.read extreme.id)).1 =
        .error (.corrupt (d.pathOf (Directory.recordFile extreme.id)) fault) := by
  intro file damaged d
  have framed : extreme.frame? = some file := frame?_eq (by decide +kernel)
  have long : 17 ≤ file.length := by decide +kernel
  have damage : Frame.Damaged file damaged := by
    refine .payload ?_ ⟨0x80, ?_, by decide⟩ (show 8 ≤ 13 by decide) (Frame.within_window 13 _ _)
    · simp only [Frame.window, List.length_append, List.length_replicate, List.length_cons, List.length_nil]
      omega
    · simp [Frame.window]
  exact ⟨framed, damage, damage_detected framed damage Std.ExtTreeMap.getElem?_insert_self⟩

end Containment
