import SshAuthority.Json.Value
import SshAuthority.Proofs.Text.Utf8
/-!
# Texts and whole numbers of payloads

A written text is read back byte for byte, and a whole number of 64 bits digit for digit, where a
separator stands behind it.
-/
namespace SshAuthority.Json

/-! ## Texts -/

theorem hexUnit?_hexDigit {n : Nat} (h : n < 32) :
    Reader.hexUnit? 48 48 (Value.hexDigit (n / 16)) (Value.hexDigit (n % 16)) = some n := by
  have hd : ∀ m < 32, Reader.hexUnit? 48 48 (Value.hexDigit (m / 16)) (Value.hexDigit (m % 16)) = some m := by
    decide
  exact hd n h

private theorem charOnto_ofNat {n : Nat} (h : n < 128) (done : Bytes) :
    Reader.charOnto n done = UInt8.ofNat n :: done := by
  simp [Reader.charOnto, Utf8.utf8EncodeChar_ofNat h]

private theorem bodyOnto_control {b : UInt8} (h : b < 32) (done rest : Bytes) :
    Reader.bodyOnto done ([92, 117, 48, 48, Value.hexDigit (b.toNat / 16), Value.hexDigit (b.toNat % 16)] ++
      rest) = Reader.bodyOnto (b :: done) rest := by
  have hb : b.toNat < 32 := UInt8.lt_iff_toNat_lt.mp h
  have hl : Reader.isLow b.toNat = false := by simp [Reader.isLow]; omega
  have hh : Reader.isHigh b.toNat = false := by simp [Reader.isHigh]; omega
  have hc := charOnto_ofNat (n := b.toNat) (by omega) done
  rw [UInt8.ofNat_toNat] at hc
  simp only [List.cons_append, List.nil_append]
  rw [Reader.bodyOnto, hexUnit?_hexDigit hb]
  simp [hl, hh, hc]

theorem bodyOnto_plain {b : UInt8} (hq : b ≠ 34) (hs : b ≠ 92) (h : ¬ b < 32)
    (done rest : Bytes) : Reader.bodyOnto done (b :: rest) = Reader.bodyOnto (b :: done) rest := by
  conv => lhs; unfold Reader.bodyOnto
  split
  case h_7 heq =>
    obtain ⟨rfl, rfl⟩ := List.cons.inj heq
    rw [if_neg h]
  all_goals simp_all

theorem bodyOnto_letter {b x : UInt8} (hu : b ≠ 117) (hx : Reader.escaped? b = some x)
    (done rest : Bytes) :
    Reader.bodyOnto done ([92, b] ++ rest) = Reader.bodyOnto (x :: done) rest := by
  simp only [List.cons_append, List.nil_append]
  rw [Reader.bodyOnto, hx]
  · exact fun _ _ _ _ _ hb => absurd hb hu
  · exact hu

private theorem bodyOnto_escape (b : UInt8) (done rest : Bytes) :
    Reader.bodyOnto done (Value.escape b ++ rest) = Reader.bodyOnto (b :: done) rest := by
  by_cases hq : b = 34
  · subst hq
    exact bodyOnto_letter (by decide) rfl done rest
  by_cases hs : b = 92
  · subst hs
    exact bodyOnto_letter (by decide) rfl done rest
  by_cases h8 : b = 8
  · subst h8
    exact bodyOnto_letter (by decide) rfl done rest
  by_cases h12 : b = 12
  · subst h12
    exact bodyOnto_letter (by decide) rfl done rest
  by_cases h10 : b = 10
  · subst h10
    exact bodyOnto_letter (by decide) rfl done rest
  by_cases h13 : b = 13
  · subst h13
    exact bodyOnto_letter (by decide) rfl done rest
  by_cases h9 : b = 9
  · subst h9
    exact bodyOnto_letter (by decide) rfl done rest
  by_cases hc : b < 32
  · simp only [Value.escape, beq_iff_eq, Bool.or_eq_true, hq, hs, h8, h12, h10, h13, h9, hc, or_self,
      if_false, if_true]
    exact bodyOnto_control hc done rest
  · simp only [Value.escape, beq_iff_eq, Bool.or_eq_true, hq, hs, h8, h12, h10, h13, h9, hc, or_self,
      if_false]
    exact bodyOnto_plain hq hs hc done rest

private theorem bodyOnto_text (bs done rest : Bytes) :
    Reader.bodyOnto done (bs.flatMap Value.escape ++ 34 :: rest) = .ok (done.reverse ++ bs, rest) := by
  induction bs generalizing done with
  | nil =>
    rw [List.flatMap_nil, List.nil_append, Reader.bodyOnto, List.append_nil]
  | cons b bs ih =>
    rw [List.flatMap_cons, List.append_assoc, bodyOnto_escape, ih, List.reverse_cons, List.append_assoc]
    rfl

theorem body_text (s : String) (rest : Bytes) :
    Reader.body ((Utf8.encode s).flatMap Value.escape ++ 34 :: rest) = .ok (s, rest) := by
  simp only [Reader.body, bodyOnto_text, List.reverse_nil, List.nil_append, Utf8.decode?_encode]

/-! ## Whole numbers -/

def Stops (rest : Bytes) : Prop := ∀ b, rest.head? = some b → b = 44 ∨ b = 93 ∨ b = 125

theorem stops_cons {b : UInt8} (h : b = 44 ∨ b = 93 ∨ b = 125) (rest : Bytes) : Stops (b :: rest) := by
  intro c hc
  rwa [← Option.some.inj hc]

theorem stops_nil : Stops [] := by
  intro b hb
  cases hb

private theorem encode_digit {n : Nat} (h : n < 10) :
    String.utf8EncodeChar n.digitChar = [UInt8.ofNat (48 + n)] := by
  have hd : ∀ m < 10, String.utf8EncodeChar m.digitChar = [UInt8.ofNat (48 + m)] := by decide
  exact hd n h

private theorem encode_toString (n : Nat) : Utf8.encode (toString n) =
    if n < 10 then [UInt8.ofNat (48 + n)]
    else Utf8.encode (toString (n / 10)) ++ [UInt8.ofNat (48 + n % 10)] := by
  rw [Nat.toString_eq_ofList_toDigits, Utf8.encode_ofList, Nat.toDigits_eq_if (by decide)]
  split
  case isTrue h => simp [encode_digit h]
  case isFalse h =>
    rw [Nat.toString_eq_ofList_toDigits, Utf8.encode_ofList, List.flatMap_append]
    simp [encode_digit (Nat.mod_lt n (by decide))]

private theorem isDigit_ofNat {n : Nat} (h : n < 10) : isDigit (UInt8.ofNat (48 + n)) := by
  have hd : ∀ m < 10, isDigit (UInt8.ofNat (48 + m)) := by decide
  exact hd n h

private theorem toNat_digit {n : Nat} (h : n < 10) : (UInt8.ofNat (48 + n)).toNat - 48 = n := by
  have hd : ∀ m < 10, (UInt8.ofNat (48 + m)).toNat - 48 = m := by decide
  exact hd n h

private theorem digits_toString (n : Nat) : ∀ b ∈ Utf8.encode (toString n), isDigit b := by
  induction n using Nat.strongRecOn with
  | ind n ih =>
    rw [encode_toString]
    split
    case isTrue h =>
      intro b hb
      rw [List.mem_singleton.mp hb]
      exact isDigit_ofNat h
    case isFalse h =>
      intro b hb
      rcases List.mem_append.mp hb with hb | hb
      · exact ih (n / 10) (by omega) b hb
      · rw [List.mem_singleton.mp hb]
        exact isDigit_ofNat (Nat.mod_lt n (by decide))

private theorem head_toString {n : Nat} (h : n ≠ 0) :
    ∃ b rest, Utf8.encode (toString n) = b :: rest ∧ b ≠ 48 := by
  induction n using Nat.strongRecOn with
  | ind n ih =>
    rw [encode_toString]
    split
    case isTrue hl =>
      refine ⟨_, _, rfl, ?_⟩
      have hd : ∀ m < 10, m ≠ 0 → UInt8.ofNat (48 + m) ≠ 48 := by decide
      exact hd n hl h
    case isFalse hl =>
      obtain ⟨b, rest, hb, hn⟩ := ih (n / 10) (by omega) (by omega)
      exact ⟨b, _, by rw [hb, List.cons_append], hn⟩

private theorem gather_append {bs : Bytes} {start n : Nat} (h : Number.gather start bs = (n, 0)) (b : UInt8) :
    Number.gather start (bs ++ [b]) = Number.gather n [b] := by
  induction bs generalizing start with
  | nil =>
    obtain ⟨rfl, -⟩ := Prod.mk.inj h
    rfl
  | cons a bs ih =>
    simp only [Number.gather, List.cons_append] at h ⊢
    split at h
    case isTrue hl =>
      rw [if_pos hl]
      exact ih h
    case isFalse => cases (Prod.mk.inj h).2

private theorem gather_toString {n : Nat} (h : n < Number.limit) :
    Number.gather 0 (Utf8.encode (toString n)) = (n, 0) := by
  induction n using Nat.strongRecOn with
  | ind n ih =>
    rw [encode_toString]
    split
    case isTrue hl =>
      simp only [Number.gather, toNat_digit hl, Nat.zero_mul, Nat.zero_add]
      rw [if_pos h]
    case isFalse hl =>
      have hm := Nat.mod_lt n (show 10 > 0 by decide)
      have hn : n / 10 * 10 + n % 10 = n := by omega
      rw [gather_append (ih (n / 10) (by omega) (by omega))]
      simp only [Number.gather, toNat_digit hm, hn]
      rw [if_pos h]

private theorem isDigit_of_stops {rest : Bytes} (h : Stops rest) : rest.head?.any isDigit = false := by
  cases rest with
  | nil => rfl
  | cons b rest => rcases h b rfl with rfl | rfl | rfl <;> rfl

private theorem span_digits {bs rest : Bytes} (hb : ∀ b ∈ bs, isDigit b) (hr : Stops rest) :
    (bs ++ rest).takeWhile isDigit = bs ∧ (bs ++ rest).dropWhile isDigit = rest := by
  rw [List.takeWhile_append_of_pos hb, List.dropWhile_append_of_pos hb]
  have hd := isDigit_of_stops hr
  cases rest with
  | nil => simp
  | cons b rest =>
    have hn : isDigit b = false := hd
    simp [hn]

private theorem afterInteger_stops {rest : Bytes} (h : Stops rest) (n : Nat) :
    Number.afterInteger false n 0 rest = .ok (.natural n, rest) := by
  cases rest with
  | nil => rfl
  | cons b rest => rcases h b rfl with rfl | rfl | rfl <;> rfl

theorem number_toString {n : Nat} (h : n < Number.limit) {rest : Bytes} (hr : Stops rest) :
    Number.read false (Utf8.encode (toString n) ++ rest) = .ok (.natural n, rest) := by
  by_cases hz : n = 0
  · subst hz
    rw [encode_toString, if_pos (by decide)]
    simp [Number.read, isDigit_of_stops hr, afterInteger_stops hr]
  · obtain ⟨b, more, hb, hn⟩ := head_toString hz
    have hd := digits_toString n
    obtain ⟨ht, hw⟩ := span_digits hd hr
    have hdb : isDigit b := hd b (by rw [hb]; exact List.mem_cons_self)
    rw [hb, List.cons_append] at ht hw ⊢
    simp only [Number.read, beq_iff_eq, hn, hdb, if_false, if_true, ht, hw]
    rw [← hb, gather_toString h]
    exact afterInteger_stops hr n

theorem toString_cons (n : Nat) : ∃ b more, Utf8.encode (toString n) = b :: more ∧ isDigit b := by
  have hd := digits_toString n
  rcases hb : Utf8.encode (toString n) with _ | ⟨b, more⟩
  · rw [encode_toString] at hb
    split at hb <;> simp at hb
  · exact ⟨b, more, rfl, hd b (by rw [hb]; exact List.mem_cons_self)⟩

end SshAuthority.Json
