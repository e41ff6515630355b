/-
Module: Containment.Proofs.Record.Codec
Purpose: The bytes of a record tell the record and where they end. Reading takes back what was written and leaves what
  follows, and bytes that stop too early are taken for too short and never for anything else.
Main exports: Codec.Conveys, Conveys.bind, Record.Representable, Codec.conveys_readRecord, Record.encode_lossless
-/
import Containment.Proofs.Maps
import Containment.Proofs.Time.Rfc3339
import Containment.Record.Frame

namespace Containment

open Text Time Checksum

/-- The bytes have come to their end too early. -/
def DecodeFault.IsCut : DecodeFault → Prop
  | .endOfInput | .shortText => True
  | .unknownVariant _ | .notUtf8 _ | .badTime _ => False

/-! ### What the layout has room for -/

/-- The size of the text is a number of 64 bits. -/
def Text.Fits (s : String) : Prop :=
  s.utf8ByteSize < 2 ^ 64

instance (s : String) : Decidable (Fits s) :=
  inferInstanceAs (Decidable (_ < _))

instance (t : Instant) : Decidable t.Supported :=
  decidable_of_iff (t.inRange = true ∧ (t.nanos < 1000000000 ∨ t.nanos < 2000000000 ∧ t.secs % 60 = 59))
    ⟨fun h => ⟨h.1, h.2⟩, fun h => ⟨h.1, h.2⟩⟩

/-- An entry of a membership list that has a place in a record. -/
structure Member.Representable (m : Member) : Prop where
  id : Fits m.id
  addedAt : m.addedAt.Supported

instance (m : Member) : Decidable m.Representable :=
  decidable_of_iff (Fits m.id ∧ m.addedAt.Supported) ⟨fun h => ⟨h.1, h.2⟩, fun h => ⟨h.1, h.2⟩⟩

/-- A lasting state that has a place in a record. -/
structure Snapshot.Representable (s : Snapshot) : Prop where
  names : Fits s.id ∧ Fits s.parentId
  counts : s.members.length < 2 ^ 64 ∧ s.metadata.toList.length < 2 ^ 64
  members : ∀ m ∈ s.members, m.Representable
  properties : ∀ entry ∈ s.metadata.toList, Fits entry.1 ∧ Fits entry.2
  times : s.createdAt.Supported ∧ s.updatedAt.Supported

instance (s : Snapshot) : Decidable s.Representable :=
  decidable_of_iff ((Fits s.id ∧ Fits s.parentId) ∧
      (s.members.length < 2 ^ 64 ∧ s.metadata.toList.length < 2 ^ 64) ∧ (∀ m ∈ s.members, m.Representable) ∧
      (∀ entry ∈ s.metadata.toList, Fits entry.1 ∧ Fits entry.2) ∧ s.createdAt.Supported ∧ s.updatedAt.Supported)
    ⟨fun ⟨names, counts, members, properties, times⟩ => ⟨names, counts, members, properties, times⟩,
      fun h => ⟨h.names, h.counts, h.members, h.properties, h.times⟩⟩

/-- A record as programs can hold it: its revision is a number of 64 bits, sizes and counts are, and its instants are of
the supported range. -/
structure Record.Representable (r : Record) : Prop where
  revision : r.revision < 2 ^ 64
  container : r.container.Representable

instance (r : Record) : Decidable r.Representable :=
  decidable_of_iff (r.revision < 2 ^ 64 ∧ r.container.Representable) ⟨fun h => ⟨h.1, h.2⟩, fun h => ⟨h.1, h.2⟩⟩

namespace Codec

/-- The bytes tell this reader a value and where they end: it takes them off the front of any input, and of too few of
them it says that there are too few. -/
structure Conveys {α : Type} (read : Reader α) (bytes : List UInt8) (value : α) : Prop where
  whole : ∀ rest, read (bytes ++ rest) = .ok (value, rest)
  cut : ∀ part, part <+: bytes → part ≠ bytes → ∃ fault : DecodeFault, fault.IsCut ∧ read part = .error fault

variable {α β : Type} {read : Reader α} {next : α → Reader β} {bytes more : List UInt8} {a : α} {b : β}

theorem conveys_pure (a : α) : Conveys (pure a) [] a := by
  refine ⟨fun rest => rfl, fun part short ne => ?_⟩
  exact absurd (List.prefix_nil.1 short) ne

/-- One reader after another: bytes that stop too early stop in the part of the first or in that of the second. -/
theorem Conveys.bind (first : Conveys read bytes a) (second : Conveys (next a) more b) :
    Conveys (read >>= next) (bytes ++ more) b := by
  have run : ∀ input, (read >>= next) input = (read input).bind fun (a, rest) => next a rest := fun _ => rfl
  constructor
  · intro rest
    rw [run, List.append_assoc, first.whole]
    exact second.whole rest
  · intro part short ne
    by_cases late : bytes <+: part
    · obtain ⟨taken, rfl⟩ := late
      obtain ⟨fault, isCut, failed⟩ :=
        second.cut taken ((List.prefix_append_right_inj bytes).1 short) fun all => ne (by rw [all])
      exact ⟨fault, isCut, by rw [run, first.whole]; exact failed⟩
    · have early := (List.prefix_or_prefix_of_prefix short (List.prefix_append bytes more)).resolve_right late
      obtain ⟨fault, isCut, failed⟩ := first.cut part early fun all => late (all ▸ List.prefix_refl bytes)
      exact ⟨fault, isCut, by rw [run, failed]; rfl⟩

theorem Conveys.map {f : α → β} (conveys : Conveys read bytes a) :
    Conveys (read >>= fun a => pure (f a)) bytes (f a) := by
  rw [← List.append_nil bytes]
  exact conveys.bind (conveys_pure (f a))

/-! ### Numbers and texts -/

theorem length_littleEndian (width n : Nat) : (littleEndian width n).length = width := by
  induction width generalizing n with
  | zero => rfl
  | succ width ih => rw [littleEndian, List.length_cons, ih]

theorem ofLittleEndian_littleEndian {width n : Nat} (fits : n < 256 ^ width) :
    ofLittleEndian (littleEndian width n) = n := by
  induction width generalizing n with
  | zero => exact (Nat.lt_one_iff.1 fits).symm
  | succ width ih =>
    have shorter : n / 256 < 256 ^ width := by
      rw [Nat.div_lt_iff_lt_mul (by decide)]
      exact fits
    rw [littleEndian, ofLittleEndian, ih shorter, UInt8.toNat_ofNat']
    omega

/-- A proper prefix is shorter. -/
theorem length_lt_of_cut {part bytes : List UInt8} (short : part <+: bytes) (ne : part ≠ bytes) :
    part.length < bytes.length := by
  exact Nat.lt_of_le_of_ne short.length_le fun same => ne (short.eq_of_length same)

theorem conveys_readNumber {width n : Nat} (fits : n < 256 ^ width) :
    Conveys (readNumber width) (littleEndian width n) n := by
  have length := length_littleEndian width n
  constructor
  · intro rest
    have taken : (littleEndian width n ++ rest).take width = littleEndian width n := List.take_left' length
    have dropped : (littleEndian width n ++ rest).drop width = rest := List.drop_left' length
    simp only [readNumber, taken, dropped, length, ofLittleEndian_littleEndian fits]
    exact if_neg (Nat.lt_irrefl width)
  · intro part short ne
    have shorter := length_lt_of_cut short ne
    rw [length] at shorter
    refine ⟨.endOfInput, trivial, ?_⟩
    simp only [readNumber, List.length_take]
    exact if_pos (by omega)

/-- The bytes of a text whose size is known. -/
theorem conveys_sized (s : String) :
    Conveys (fun input =>
      let taken := input.take s.utf8ByteSize
      if taken.length < s.utf8ByteSize then .error .shortText
      else
        match Utf8.decode taken with
        | .ok s' => .ok (s', input.drop s.utf8ByteSize)
        | .error fault => .error (.notUtf8 fault)) (Utf8.encode s) s := by
  have length := Utf8.length_encode s
  constructor
  · intro rest
    have taken : (Utf8.encode s ++ rest).take s.utf8ByteSize = Utf8.encode s := List.take_left' length
    have dropped : (Utf8.encode s ++ rest).drop s.utf8ByteSize = rest := List.drop_left' length
    simp only [taken, dropped, length, Nat.lt_irrefl, if_false, Utf8.decode_encode]
  · intro part short ne
    have shorter := length_lt_of_cut short ne
    rw [length] at shorter
    refine ⟨.shortText, trivial, ?_⟩
    simp only [List.length_take]
    exact if_pos (by omega)

theorem conveys_readText {s : String} (fits : Fits s) : Conveys readText (writeText s) s :=
  (conveys_readNumber fits).bind (conveys_sized s)

theorem conveys_readInstant {t : Instant} (supported : t.Supported) : Conveys readInstant (writeInstant t) t := by
  have fits : Fits t.toText := Nat.lt_of_le_of_lt (Instant.utf8ByteSize_toText_le supported) (by decide)
  rw [writeInstant, ← List.append_nil (writeText _)]
  refine (conveys_readText fits).bind ?_
  rw [Instant.read_toText supported]
  exact conveys_pure t

theorem conveys_readContainerType (type : ContainerType) :
    Conveys readContainerType (writeWord (containerTypeIndex type)) type := by
  have fits : containerTypeIndex type < 256 ^ 4 := by cases type <;> decide
  rw [← List.append_nil (writeWord _)]
  refine (conveys_readNumber fits).bind ?_
  cases type <;> exact conveys_pure _

theorem conveys_readMemberType (type : MemberType) :
    Conveys readMemberType (writeWord (memberTypeIndex type)) type := by
  have fits : memberTypeIndex type < 256 ^ 4 := by cases type <;> decide
  rw [← List.append_nil (writeWord _)]
  refine (conveys_readNumber fits).bind ?_
  cases type <;> exact conveys_pure _

/-! ### Lists -/

theorem conveys_readItems {write : α → List UInt8} {items : List α}
    (each : ∀ item ∈ items, Conveys read (write item) item) :
    Conveys (readItems read items.length) (items.flatMap write) items := by
  induction items with
  | nil => exact conveys_pure []
  | cons item items ih =>
    have rest := ih fun other mem => each other (List.mem_cons_of_mem item mem)
    exact (each item List.mem_cons_self).bind (rest.map (f := fun items => item :: items))

theorem conveys_readList {write : α → List UInt8} {items : List α} (fits : items.length < 2 ^ 64)
    (each : ∀ item ∈ items, Conveys read (write item) item) :
    Conveys (readList read) (writeList write items) items :=
  (conveys_readNumber fits).bind (conveys_readItems each)

theorem conveys_readMember {m : Member} (representable : m.Representable) :
    Conveys readMember (writeMember m) m := by
  rw [writeMember, List.append_assoc]
  exact (conveys_readText representable.id).bind <|
    (conveys_readMemberType m.type).bind (conveys_readInstant representable.addedAt).map

theorem conveys_readProperty {entry : String × String} (fit : Fits entry.1 ∧ Fits entry.2) :
    Conveys readProperty (writeProperty entry) entry :=
  (conveys_readText fit.1).bind (conveys_readText fit.2).map

/-! ### Records -/

theorem conveys_readSnapshot {s : Snapshot} (representable : s.Representable) :
    Conveys readSnapshot (writeSnapshot s) s := by
  simp only [writeSnapshot, List.append_assoc]
  refine (conveys_readText representable.names.1).bind ?_
  refine (conveys_readText representable.names.2).bind ?_
  refine (conveys_readContainerType s.type).bind ?_
  refine (conveys_readList representable.counts.1 fun m mem =>
    conveys_readMember (representable.members m mem)).bind ?_
  refine (conveys_readList representable.counts.2 fun entry mem =>
    conveys_readProperty (representable.properties entry mem)).bind ?_
  refine (conveys_readInstant representable.times.1).bind ?_
  have last := (conveys_readInstant representable.times.2).map (f := fun updatedAt => { s with updatedAt })
  rw [ofList_toList]
  exact last

theorem conveys_readRecord {r : Record} (representable : r.Representable) : Conveys readRecord r.encode r :=
  (conveys_readNumber representable.revision).bind (conveys_readSnapshot representable.container).map

end Codec

namespace Frame

open Codec

theorem length_writeWord (n : Nat) : (writeWord n).length = 4 :=
  length_littleEndian 4 n

theorem ofLittleEndian_writeWord {n : Nat} (fits : n < 2 ^ 32) : ofLittleEndian (writeWord n) = n :=
  ofLittleEndian_littleEndian fits

/-- In front stands how long the payload is. -/
theorem take_wrap (payload : List UInt8) : (wrap payload).take 4 = writeWord payload.length := by
  rw [wrap, List.append_assoc, List.take_left' (length_writeWord _)]

/-- Then comes the checksum. -/
theorem take_drop_wrap (payload : List UInt8) : ((wrap payload).drop 4).take 4 = writeWord (crc32 payload).toNat := by
  rw [wrap, List.append_assoc, List.drop_left' (length_writeWord _), List.take_left' (length_writeWord _)]

/-- The rest is the payload. -/
theorem drop_wrap (payload : List UInt8) : (wrap payload).drop headerSize = payload := by
  refine List.drop_left' ?_
  rw [List.length_append, length_writeWord, length_writeWord]
  rfl

theorem length_wrap (payload : List UInt8) : (wrap payload).length = headerSize + payload.length := by
  rw [wrap, List.length_append, List.length_append, length_writeWord, length_writeWord]
  rfl

theorem toNat_crc32_lt (payload : List UInt8) : (crc32 payload).toNat < 2 ^ 32 :=
  UInt32.toNat_lt _

/-- A file is taken for what was put into it. -/
theorem unwrap_wrap {payload : List UInt8} (fits : payload.length < 2 ^ 32) : unwrap (wrap payload) = .ok payload := by
  have complete : ¬ (wrap payload).length < headerSize := by
    rw [length_wrap]
    omega
  simp only [unwrap, if_neg complete, take_wrap, take_drop_wrap, drop_wrap, ofLittleEndian_writeWord fits,
    ofLittleEndian_writeWord (toNat_crc32_lt payload), UInt32.ofNat_toNat, ne_eq, not_true_eq_false, if_false]

end Frame

namespace Record

open Codec

variable {r : Record}

theorem decode_encode_append (representable : r.Representable) (rest : List UInt8) :
    decode (r.encode ++ rest) = .ok r := by
  rw [decode, (conveys_readRecord representable).whole]
  rfl

theorem decode_encode (representable : r.Representable) : decode r.encode = .ok r := by
  rw [← List.append_nil r.encode]
  exact decode_encode_append representable []

/-- Bytes that go on after a record cannot be those of another one. -/
theorem eq_of_encode_begins {r' : Record} (representable : r.Representable) (representable' : r'.Representable)
    (short : r'.encode <+: r.encode) : r' = r := by
  obtain ⟨rest, same⟩ := short
  have read := decode_encode_append representable' rest
  rw [same, decode_encode representable] at read
  exact (Except.ok.inj read).symm

theorem decode_cut (representable : r.Representable) {part : List UInt8} (short : part <+: r.encode)
    (ne : part ≠ r.encode) : ∃ fault : DecodeFault, fault.IsCut ∧ decode part = .error fault := by
  obtain ⟨fault, isCut, failed⟩ := (conveys_readRecord representable).cut part short ne
  exact ⟨fault, isCut, by rw [decode, failed]; rfl⟩

theorem frame?_eq (fits : r.encode.length < 2 ^ 32) : r.frame? = some (Frame.wrap r.encode) :=
  if_pos fits

theorem unframe_wrap (representable : r.Representable) (fits : r.encode.length < 2 ^ 32) :
    unframe (Frame.wrap r.encode) = .ok r := by
  rw [unframe, Frame.unwrap_wrap fits]
  simp only [decode_encode representable]
  rfl

/-- The bytes of a record lose nothing and tell where they end. Whatever follows them, the record is read back; so two
records never have the same bytes, nor does one go on where another ends. Bytes that stop before their end are refused
as too short. A file made of a record that is short enough is that record again. -/
theorem encode_lossless (representable : r.Representable) :
    (∀ rest, decode (r.encode ++ rest) = .ok r) ∧
      (∀ r' : Record, r'.Representable → r'.encode = r.encode → r' = r) ∧
      (∀ r' : Record, r'.Representable → r'.encode <+: r.encode → r'.encode = r.encode) ∧
      (∀ part, part <+: r.encode → part ≠ r.encode → ∃ fault : DecodeFault, fault.IsCut ∧ decode part = .error fault) ∧
      (r.encode.length < 2 ^ 32 → ∃ file, r.frame? = some file ∧ unframe file = .ok r) := by
  refine ⟨decode_encode_append representable, ?injective, ?prefixFree, ?cut, ?file⟩
  case injective =>
    intro r' representable' same
    exact eq_of_encode_begins representable representable' (same ▸ List.prefix_refl _)
  case prefixFree =>
    intro r' representable' short
    rw [eq_of_encode_begins representable representable' short]
  case cut => exact fun part short ne => decode_cut representable short ne
  case file => exact fun fits => ⟨Frame.wrap r.encode, frame?_eq fits, unframe_wrap representable fits⟩

/-- A record at the limits: the last revision, a text beyond ASCII, properties, and instants of the first day and of a
leap second on the last day. -/
def extreme : Record where
  revision := 2 ^ 64 - 1
  container :=
    { id := "börse/𝄞"
      parentId := ""
      type := .indirect
      members := [{ id := "a", type := .binary, addedAt := ⟨minDay * 86400, 999999999⟩ },
        { id := "b", type := .container, addedAt := ⟨253402300800, 1000⟩ }]
      metadata := ((∅ : Metadata).insert "title" "one").insert "about" ""
      createdAt := ⟨maxDay * 86400 + 86399, 1120000000⟩
      updatedAt := ⟨-62167219201, 0⟩ }

theorem encode_lossless_extreme :
    (∀ rest, decode (extreme.encode ++ rest) = .ok extreme) ∧
      ∃ file, extreme.frame? = some file ∧ unframe file = .ok extreme := by
  have lossless := encode_lossless (r := extreme) (by decide +kernel)
  exact ⟨lossless.1, lossless.2.2.2.2 (by decide +kernel)⟩

end Record

end Containment
