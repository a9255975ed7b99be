import HingeLoss.Text.RawText
import Mathlib.Tactic.SplitIfs

/-!
# Text that is encoded and decoded

The first byte of a character says how many there are and leaves the upper bits of its code, and
each further byte carries six bits and lies within the bounds that are left for it. So a text is
decoded from its own bytes, without gaps.
-/

namespace HingeLoss.Text

section Characters

variable {code : Nat}

/-- A first byte that begins a character, leaves the upper bits of its code, and accepts the byte
that carries the next six. -/
structure PartialCharacter.Opens (first next upper missing : Nat) (part : PartialCharacter) :
    Prop where
  begins : begin? first = some part
  code : part.code = upper
  missing : part.missing = missing
  accepts : part.accepts next = true

open PartialCharacter in
theorem exists_opens_two (least : 0x80 ≤ code) (most : code ≤ 0x7FF) :
    ∃ part, Opens (code / 64 % 32 + 192) (code % 64 + 128) (code / 64) 1 part := by
  refine ⟨_, if_pos (by omega), ?_, rfl, ?_⟩
  · simp only
    omega
  · simp only [accepts, Bool.and_eq_true, decide_eq_true_eq]
    omega

open PartialCharacter in
/-- The bounds of the second byte rule out codes below this range and those of surrogates. -/
theorem exists_opens_three (least : 0x800 ≤ code) (most : code ≤ 0xFFFF)
    (noSurrogate : code < 0xD800 ∨ 0xDFFF < code) :
    ∃ part, Opens (code / 4096 % 16 + 224) (code / 64 % 64 + 128) (code / 4096) 2 part := by
  by_cases lowest : code / 4096 = 0
  · refine ⟨⟨0, 2, 0xA0, 0xBF⟩, ?_, lowest.symm, rfl, ?_⟩
    · rw [begin?, if_neg (by omega), if_pos (by omega)]
    · simp only [accepts, Bool.and_eq_true, decide_eq_true_eq]
      omega
  · by_cases beforeSurrogates : code / 4096 = 0xD
    · refine ⟨⟨0xD, 2, 0x80, 0x9F⟩, ?_, beforeSurrogates.symm, rfl, ?_⟩
      · rw [begin?, if_neg (by omega), if_neg (by omega), if_pos (by omega)]
      · simp only [accepts, Bool.and_eq_true, decide_eq_true_eq]
        omega
    · have upper : code / 4096 % 16 + 224 - 0xE0 = code / 4096 := by omega
      refine ⟨⟨code / 4096, 2, 0x80, 0xBF⟩, ?_, rfl, rfl, ?_⟩
      · rw [begin?, if_neg (by omega), if_neg (by omega), if_neg (by omega), if_pos (by omega),
          upper]
      · simp only [accepts, Bool.and_eq_true, decide_eq_true_eq]
        omega

open PartialCharacter in
theorem exists_opens_four (least : 0x10000 ≤ code) (most : code < 0x110000) :
    ∃ part, Opens (code / 262144 % 8 + 240) (code / 4096 % 64 + 128) (code / 262144) 3 part := by
  by_cases lowest : code / 262144 = 0
  · refine ⟨⟨0, 3, 0x90, 0xBF⟩, ?_, lowest.symm, rfl, ?_⟩
    · rw [begin?, if_neg (by omega), if_neg (by omega), if_neg (by omega), if_neg (by omega),
        if_pos (by omega)]
    · simp only [accepts, Bool.and_eq_true, decide_eq_true_eq]
      omega
  · by_cases highest : code / 262144 = 4
    · refine ⟨⟨4, 3, 0x80, 0x8F⟩, ?_, highest.symm, rfl, ?_⟩
      · rw [begin?, if_neg (by omega), if_neg (by omega), if_neg (by omega), if_neg (by omega),
          if_neg (by omega), if_neg (by omega), if_pos (by omega)]
      · simp only [accepts, Bool.and_eq_true, decide_eq_true_eq]
        omega
    · have upper : code / 262144 % 8 + 240 - 0xF0 = code / 262144 := by omega
      refine ⟨⟨code / 262144, 3, 0x80, 0xBF⟩, ?_, rfl, rfl, ?_⟩
      · rw [begin?, if_neg (by omega), if_neg (by omega), if_neg (by omega), if_neg (by omega),
          if_neg (by omega), if_pos (by omega), upper]
      · simp only [accepts, Bool.and_eq_true, decide_eq_true_eq]
        omega

end Characters

section Decoding

variable {part : PartialCharacter} {rest : List UInt8}

theorem toNat_byte {value : Nat} (small : value < 256) : (UInt8.ofNat value).toNat = value := by
  rw [UInt8.toNat_ofNat']
  exact Nat.mod_eq_of_lt small

theorem decodeAfter_opens {first next upper missing : Nat} (small : first < 256)
    (opens : part.Opens first next upper missing) (several : 0x80 ≤ first) :
    decodeAfter none (UInt8.ofNat first :: rest) = decodeAfter (some part) rest := by
  rw [decodeAfter, toNat_byte small, if_neg (by omega), opens.begins]

/-- The byte that completes a character, or one on the way to it. -/
theorem decodeAfter_accepted {next : Nat} (small : next < 256)
    (accepted : part.accepts next = true) :
    decodeAfter (some part) (UInt8.ofNat next :: rest) =
      if part.missing ≤ 1 then
        some (Char.ofNat (64 * part.code + (next - 0x80))) :: decodeAfter none rest
      else decodeAfter (some (part.extend next)) rest := by
  have missing : (part.extend next).missing = part.missing - 1 := rfl
  have last : (part.extend next).missing = 0 ↔ part.missing ≤ 1 := by
    rw [missing]
    omega
  rw [decodeAfter, toNat_byte small, if_pos accepted]
  simp only [last]
  rfl

/-- After the second byte any six bits are accepted. -/
theorem accepts_extend (part : PartialCharacter) (byte bits : Nat) :
    (part.extend byte).accepts (bits % 64 + 128) = true := by
  have low : (part.extend byte).low = 0x80 := rfl
  have high : (part.extend byte).high = 0xBF := rfl
  rw [PartialCharacter.accepts, low, high, Bool.and_eq_true, decide_eq_true_eq, decide_eq_true_eq]
  omega

theorem decodeAfter_utf8EncodeChar (character : Char) (rest : List UInt8) :
    decodeAfter none (String.utf8EncodeChar character ++ rest) =
      some character :: decodeAfter none rest := by
  have valid : character.toNat < 0xD800 ∨ 0xDFFF < character.toNat ∧ character.toNat < 0x110000 :=
    character.valid
  have decoded {number : Nat} (same : number = character.toNat) :
      Char.ofNat number = character := by
    rw [same, Char.ofNat_toNat]
  have missing (part : PartialCharacter) (byte : Nat) :
      (part.extend byte).missing = part.missing - 1 := rfl
  have code_extend (part : PartialCharacter) (byte : Nat) :
      (part.extend byte).code = 64 * part.code + (byte - 0x80) := rfl
  rw [String.utf8EncodeChar, Char.toNat_val]
  generalize character.toNat = code at valid decoded
  split_ifs with one two three
  · rw [List.singleton_append, decodeAfter, toNat_byte (by omega), if_pos (by omega), decoded rfl]
  · rcases exists_opens_two (Nat.lt_of_not_le one) two with ⟨part, opens⟩
    rw [List.cons_append, decodeAfter_opens (by omega) opens (by omega), List.cons_append,
      decodeAfter_accepted (by omega) opens.accepts, if_pos (Nat.le_of_eq opens.missing),
      opens.code, decoded (by omega)]
    rfl
  · rcases exists_opens_three (Nat.lt_of_not_le two) three (by omega) with ⟨part, opens⟩
    rw [List.cons_append, decodeAfter_opens (by omega) opens (by omega), List.cons_append,
      decodeAfter_accepted (by omega) opens.accepts, if_neg (by simp [opens.missing]),
      List.cons_append, decodeAfter_accepted (by omega) (accepts_extend _ _ _),
      if_pos (by simp [missing, opens.missing]), code_extend, opens.code, decoded (by omega)]
    rfl
  · rcases exists_opens_four (Nat.lt_of_not_le three) (by omega) with ⟨part, opens⟩
    rw [List.cons_append, decodeAfter_opens (by omega) opens (by omega), List.cons_append,
      decodeAfter_accepted (by omega) opens.accepts, if_neg (by simp [opens.missing]),
      List.cons_append, decodeAfter_accepted (by omega) (accepts_extend _ _ _),
      if_neg (by simp [missing, opens.missing]), List.cons_append,
      decodeAfter_accepted (by omega) (accepts_extend _ _ _),
      if_pos (by simp [missing, opens.missing]), code_extend, code_extend, opens.code,
      decoded (by omega)]
    rfl

theorem toList_loop (bytes : ByteArray) (index : Nat) (reversed : List UInt8) :
    ByteArray.toList.loop bytes index reversed =
      reversed.reverse ++ bytes.data.toList.drop index := by
  fun_induction ByteArray.toList.loop bytes index reversed with
  | case1 index reversed inside ih =>
      have bound : index < bytes.data.toList.length := by simpa using inside
      rw [ih, List.drop_eq_getElem_cons bound]
      simp [ByteArray.get!, inside]
  | case2 index reversed outside =>
      rw [List.drop_eq_nil_of_le (by simpa using Nat.le_of_not_lt outside), List.append_nil]

theorem bytes_ofString (text : String) :
    (RawText.ofString text).bytes = text.toList.flatMap String.utf8EncodeChar := by
  rw [RawText.ofString, String.toUTF8_eq_toByteArray, ← String.utf8Encode_toList, ByteArray.toList,
    toList_loop, List.utf8Encode, List.toList_data_toByteArray]
  rfl

theorem decodeUtf8_ofString (text : String) :
    decodeUtf8 (RawText.ofString text).bytes = text.toList.map some := by
  rw [bytes_ofString, decodeUtf8]
  induction text.toList with
  | nil => rfl
  | cons character others ih =>
      rw [List.flatMap_cons, decodeAfter_utf8EncodeChar, ih]
      rfl

end Decoding

end HingeLoss.Text
