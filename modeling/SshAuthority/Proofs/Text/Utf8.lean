import SshAuthority.Text.Utf8
/-!
# Text and its bytes

Text is read back from its bytes, and bytes of the lower half are characters of their own.
-/
namespace SshAuthority.Utf8

theorem decode?_encode (s : String) : decode? (encode s) = some s := by
  have h : (⟨(encode s).toArray⟩ : ByteArray) = s.toByteArray := by simp [encode]
  rw [decode?, h, String.fromUTF8?, dif_pos s.isValidUTF8]
  rfl

theorem encode_of_decode? {bs : Bytes} {s : String} (h : decode? bs = some s) : encode s = bs := by
  rw [decode?, String.fromUTF8?] at h
  split at h
  · rw [← Option.some.inj h]
    rfl
  · cases h

theorem encode_append (s t : String) : encode (s ++ t) = encode s ++ encode t := by simp [encode]

theorem encode_ne_nil {s : String} (h : s ≠ "") : encode s ≠ [] := by
  intro hn
  have hd : decode? (encode s) = decode? (encode "") := congrArg decode? hn
  rw [decode?_encode, decode?_encode] at hd
  exact h (Option.some.inj hd)

theorem encode_ofList (cs : List Char) : encode (String.ofList cs) = cs.flatMap String.utf8EncodeChar := by
  simp [encode, List.utf8Encode]

theorem utf8EncodeChar_ofNat {n : Nat} (h : n < 128) :
    String.utf8EncodeChar (Char.ofNat n) = [UInt8.ofNat n] := by
  have hd : ∀ m < 128, String.utf8EncodeChar (Char.ofNat m) = [UInt8.ofNat m] := by decide
  exact hd n h

/-- A byte of the lower half stands for itself and is part of no other character. -/
theorem char_of_mem_utf8EncodeChar {c : Char} {b : UInt8} (hb : b < 128) (h : b ∈ String.utf8EncodeChar c) :
    c = Char.ofNat b.toNat := by
  have hlt : b.toNat < 128 := UInt8.lt_iff_toNat_lt.mp hb
  have hhigh : ∀ m : Nat, 128 ≤ m → m < 256 → b ≠ UInt8.ofNat m := by
    intro m hm hm' he
    have ht := congrArg UInt8.toNat he
    rw [UInt8.toNat_ofNat'] at ht
    omega
  simp only [String.utf8EncodeChar] at h
  split at h
  case isTrue hc =>
    rw [List.mem_singleton.mp h, UInt8.toNat_ofNat', Nat.mod_eq_of_lt (by omega)]
    exact (Char.ofNat_toNat c).symm
  case isFalse =>
    exfalso
    split at h
    · simp only [List.mem_cons, List.not_mem_nil, or_false] at h
      rcases h with h | h <;> exact hhigh _ (by omega) (by omega) h
    · split at h <;> simp only [List.mem_cons, List.not_mem_nil, or_false] at h
      · rcases h with h | h | h <;> exact hhigh _ (by omega) (by omega) h
      · rcases h with h | h | h | h <;> exact hhigh _ (by omega) (by omega) h

theorem newline_not_mem_encode {s : String} (h : '\n' ∉ s.toList) : (10 : UInt8) ∉ encode s := by
  intro hm
  rw [← String.ofList_toList (s := s), encode_ofList] at hm
  obtain ⟨c, hc, hb⟩ := List.mem_flatMap.mp hm
  rw [char_of_mem_utf8EncodeChar (by decide) hb] at hc
  exact h hc

theorem last_encode_ne_newline {s : String} (h : s.toList.getLast? ≠ some '\n') :
    (encode s).getLast? ≠ some 10 := by
  intro hl
  rw [← String.ofList_toList (s := s), encode_ofList] at hl
  rcases List.eq_nil_or_concat s.toList with hs | ⟨front, c, hs⟩
  · rw [hs] at hl
    cases hl
  · rw [List.concat_eq_append] at hs
    obtain ⟨b, hb⟩ := Option.ne_none_iff_exists'.mp
      (mt List.getLast?_eq_none_iff.mp (String.utf8EncodeChar_ne_nil (c := c)))
    rw [hs, List.flatMap_append, List.flatMap_singleton, List.getLast?_append, hb, Option.some_or] at hl
    obtain rfl := Option.some.inj hl
    obtain rfl : c = '\n' := char_of_mem_utf8EncodeChar (by decide) (List.mem_of_getLast? hb)
    exact h (by rw [hs, List.getLast?_concat])

theorem exists_byte_of_ascii {s : String} (h : ∀ b ∈ encode s, b < 128) {c : Char} (hc : c ∈ s.toList) :
    ∃ b ∈ encode s, c = Char.ofNat b.toNat := by
  have he : encode s = s.toList.flatMap String.utf8EncodeChar := by
    rw [← encode_ofList, String.ofList_toList]
  obtain ⟨b, hb⟩ := List.exists_mem_of_ne_nil _ (String.utf8EncodeChar_ne_nil (c := c))
  have hm : b ∈ encode s := he ▸ List.mem_flatMap.mpr ⟨c, hc, hb⟩
  exact ⟨b, hm, char_of_mem_utf8EncodeChar (h b hm) hb⟩

theorem firstPiece_ascii {b : UInt8} (h : b < 128) (bs : Bytes) :
    firstPiece b bs = (.char (Char.ofNat b.toNat), 0) := by
  rw [firstPiece, if_pos h]
  rfl

private theorem scanOnto_ascii {bs : Bytes} (h : ∀ b ∈ bs, b < 128) (done : List Piece) :
    scanOnto done bs = done.reverse ++ bs.map fun b => .char (Char.ofNat b.toNat) := by
  induction bs generalizing done with
  | nil => simp [scanOnto]
  | cons b bs ih =>
    rw [scanOnto, firstPiece_ascii (h b List.mem_cons_self)]
    simp only [List.drop_zero]
    rw [ih fun b hb => h b (List.mem_cons_of_mem _ hb)]
    simp

theorem encode_decodeLossy {bs : Bytes} (h : ∀ b ∈ bs, b < 128) : encode (decodeLossy bs) = bs := by
  rw [decodeLossy, scan, scanOnto_ascii h, encode_ofList]
  simp only [List.reverse_nil, List.nil_append, List.map_map, List.flatMap_map, Function.comp, Piece.shown]
  induction bs with
  | nil => rfl
  | cons b bs ih =>
    have hb : b.toNat < 128 := UInt8.lt_iff_toNat_lt.mp (h b List.mem_cons_self)
    rw [List.flatMap_cons, utf8EncodeChar_ofNat hb, ih fun b hb => h b (List.mem_cons_of_mem _ hb)]
    simp

end SshAuthority.Utf8
