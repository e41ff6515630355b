/-
Module: Containment.Proofs.Text.Utf8
Purpose: A text is told by its UTF-8 bytes, and texts are in the order of their bytes.
Main exports: Utf8.length_encode, Utf8.decode_encode, Utf8.encode_injective, Utf8.utf8ByteSize_ofList_le,
  Utf8.encode_lt_encode_iff
-/
import Containment.Text.Utf8

namespace Containment.Text.Utf8

theorem toList_loop (bytes : ByteArray) (i : Nat) (seen : List UInt8) :
    ByteArray.toList.loop bytes i seen = seen.reverse ++ bytes.data.toList.drop i := by
  induction i, seen using ByteArray.toList.loop.induct bytes with
  | case1 i seen more ih =>
    have inside : i < bytes.data.toList.length := more
    rw [ByteArray.toList.loop, if_pos more, ih, List.drop_eq_getElem_cons inside, List.reverse_cons, List.append_assoc]
    simp [ByteArray.get!, getElem!_pos, more]
  | case2 i seen done =>
    have outside : bytes.data.toList.length ≤ i := Nat.not_lt.1 done
    rw [ByteArray.toList.loop, if_neg done, List.drop_of_length_le outside, List.append_nil]

theorem encode_eq (s : String) : encode s = s.toByteArray.data.toList := by
  rw [encode, ByteArray.toList, toList_loop]
  rfl

theorem length_encode (s : String) : (encode s).length = s.utf8ByteSize := by
  rw [encode_eq]
  rfl

/-- A text is read back from its bytes. -/
theorem decode_encode (s : String) : decode (encode s) = .ok s := by
  have read : String.fromUTF8? s.toByteArray = some s := by
    rw [String.fromUTF8?, dif_pos s.isValidUTF8]
    rfl
  simp only [decode, encode_eq, Array.toArray_toList, read]

theorem encode_injective {s t : String} (same : encode s = encode t) : s = t := by
  have read := decode_encode s
  rw [same, decode_encode] at read
  exact (Except.ok.inj read).symm

theorem encode_eq_nil_iff {s : String} : encode s = [] ↔ s = "" := by
  rw [← List.length_eq_zero_iff, length_encode, String.utf8ByteSize_eq_zero_iff]

/-- No character takes more than four bytes. -/
theorem utf8ByteSize_ofList_le (cs : List Char) : (String.ofList cs).utf8ByteSize ≤ 4 * cs.length := by
  induction cs with
  | nil => exact Nat.le_refl 0
  | cons c cs ih =>
    have one := c.utf8Size_le_four
    rw [String.ofList_cons, String.utf8ByteSize_append, String.utf8ByteSize_singleton, List.length_cons]
    omega

/-! ### Order -/

theorem ofNat_lt_ofNat_iff {m n : Nat} (hm : m < 256) (hn : n < 256) : UInt8.ofNat m < UInt8.ofNat n ↔ m < n := by
  rw [UInt8.lt_iff_toNat_lt, UInt8.toNat_ofNat_of_lt' hm, UInt8.toNat_ofNat_of_lt' hn]

theorem ofNat_eq_ofNat_iff {m n : Nat} (hm : m < 256) (hn : n < 256) : UInt8.ofNat m = UInt8.ofNat n ↔ m = n := by
  rw [← UInt8.toNat_inj, UInt8.toNat_ofNat_of_lt' hm, UInt8.toNat_ofNat_of_lt' hn]

/-- Numbers compare by all digits but the last, and then by the last. -/
theorem div_lt_or_mod_lt {m n : Nat} (less : m < n) (base : Nat) :
    m / base < n / base ∨ m / base = n / base ∧ m % base < n % base := by
  have parts := Nat.div_add_mod m base
  have parts' := Nat.div_add_mod n base
  rcases Nat.lt_or_eq_of_le (Nat.div_le_div_right (Nat.le_of_lt less) : m / base ≤ n / base) with upper | same
  · exact .inl upper
  · rw [same] at parts
    exact .inr ⟨same, by omega⟩

/-- The bytes of a smaller character are less, whatever follows. -/
theorem encodeChar_append_lt {c d : Char} (less : c < d) (rest rest' : List UInt8) :
    String.utf8EncodeChar c ++ rest < String.utf8EncodeChar d ++ rest' := by
  have bounded : d.val.toNat < 0x110000 := by
    rcases d.valid with low | ⟨-, high⟩
    · exact Nat.lt_trans low (by decide)
    · exact high
  have less : c.val.toNat < d.val.toNat := less
  simp only [String.utf8EncodeChar]
  repeat' split
  all_goals
    simp (disch := omega) only [List.cons_append, List.nil_append, List.cons_lt_cons_iff, ofNat_lt_ofNat_iff,
      ofNat_eq_ofNat_iff]
  -- omega compares the digits, unless there are four of them
  all_goals try omega
  rcases div_lt_or_mod_lt less 64 with above | ⟨same, last⟩
  · rcases div_lt_or_mod_lt above 64 with above | ⟨same, last⟩
    · rcases div_lt_or_mod_lt above 64 with above | ⟨same, last⟩
      · left
        omega
      · right
        refine ⟨by omega, ?_⟩
        left
        omega
    · right
      refine ⟨by omega, ?_⟩
      right
      refine ⟨by omega, ?_⟩
      left
      omega
  · right
    refine ⟨by omega, ?_⟩
    right
    refine ⟨by omega, ?_⟩
    right
    refine ⟨by omega, ?_⟩
    left
    omega

/-- Texts are told by the bytes of their characters. -/
theorem encode_ofList (cs : List Char) : encode (String.ofList cs) = cs.flatMap String.utf8EncodeChar := by
  rw [encode_eq]
  simp [List.utf8Encode]

theorem flatMap_encodeChar_lt {cs ds : List Char} (less : cs < ds) :
    cs.flatMap String.utf8EncodeChar < ds.flatMap String.utf8EncodeChar := by
  induction cs generalizing ds with
  | nil =>
    cases ds with
    | nil => exact absurd less (List.lt_irrefl _)
    | cons d ds =>
      rw [List.flatMap_nil, List.flatMap_cons]
      cases bytes : String.utf8EncodeChar d with
      | nil => exact absurd bytes String.utf8EncodeChar_ne_nil
      | cons b rest => exact List.nil_lt_cons b _
  | cons c cs ih =>
    cases ds with
    | nil => exact absurd less (List.not_lt_nil _)
    | cons d ds =>
      rw [List.flatMap_cons, List.flatMap_cons]
      rcases List.cons_lt_cons_iff.1 less with first | ⟨rfl, rest⟩
      · exact encodeChar_append_lt first _ _
      · exact List.append_left_lt (ih rest)

/-- Texts are in the order of their bytes. -/
theorem encode_lt_encode_iff {s t : String} : encode s < encode t ↔ s < t := by
  have forward : ∀ {s t : String}, s < t → encode s < encode t := by
    intro s t less
    rw [← String.ofList_toList (s := s), ← String.ofList_toList (s := t), encode_ofList, encode_ofList]
    exact flatMap_encodeChar_lt less
  constructor
  · intro less
    rcases Std.lt_trichotomy s t with before | same | after
    · exact before
    · rw [same] at less
      exact absurd less (List.lt_irrefl _)
    · exact absurd (List.lt_trans less (forward after)) (List.lt_irrefl _)
  · exact forward

end Containment.Text.Utf8
