import SshAuthority.Proofs.Text.Utf8
/-!
# Reading text with replacement

What was written as text has no broken stretch, so that reading it with replacement gives the text itself.
-/
namespace SshAuthority.Utf8

/-! ## What may follow a leading byte -/

private theorem tailRule_two : ∀ n < 32, 2 ≤ n → tailRule (UInt8.ofNat (n + 192)) = some (0x80, 0xBF, 1) := by decide

private theorem tailRule_three : ∀ n < 16, tailRule (UInt8.ofNat (n + 224)) =
    some (if n = 0 then 0xA0 else 0x80, if n = 13 then 0x9F else 0xBF, 2) := by decide

private theorem tailRule_four : ∀ n < 5, tailRule (UInt8.ofNat (n + 240)) =
    some (if n = 0 then 0x90 else 0x80, if n = 4 then 0x8F else 0xBF, 3) := by decide

private theorem isTail_ofNat : ∀ n < 64, isTail (UInt8.ofNat (n + 128)) = true := by decide

private theorem second_three : ∀ n < 16, ∀ m < 64, (n = 0 → 32 ≤ m) → (n = 13 → m < 32) →
    (if n = 0 then 0xA0 else 0x80) ≤ UInt8.ofNat (m + 128) ∧
      UInt8.ofNat (m + 128) ≤ if n = 13 then 0x9F else 0xBF := by decide

private theorem second_four : ∀ n < 5, ∀ m < 64, (n = 0 → 16 ≤ m) → (n = 4 → m < 16) →
    (if n = 0 then 0x90 else 0x80) ≤ UInt8.ofNat (m + 128) ∧
      UInt8.ofNat (m + 128) ≤ if n = 4 then 0x8F else 0xBF := by decide

private theorem second_two : ∀ m < 64, 0x80 ≤ UInt8.ofNat (m + 128) ∧ UInt8.ofNat (m + 128) ≤ 0xBF := by decide

private theorem lead_high : ∀ n < 64, ¬UInt8.ofNat (n + 192) < 0x80 := by decide

private theorem toNat_lead : ∀ n < 64, (UInt8.ofNat (n + 192)).toNat = n + 192 := by decide

private theorem toNat_tail : ∀ n < 64, (UInt8.ofNat (n + 128)).toNat = n + 128 := by decide

private theorem firstPiece_eq {b low high : UInt8} (x : UInt8) (tails : Bytes) (hb : ¬b < 0x80)
    (hr : tailRule b = some (low, high, tails.length + 1)) (hx : low ≤ x ∧ x ≤ high)
    (ht : ∀ t ∈ tails, isTail t = true) (rest : Bytes) :
    firstPiece b (x :: (tails ++ rest)) = (.char (scalar b (x :: tails)), tails.length + 1) := by
  have hw : tails.takeWhile isTail = tails := by
    have h : (tails ++ []).takeWhile isTail = tails ++ [].takeWhile isTail := List.takeWhile_append_of_pos ht
    simpa using h
  have htails : tailsAfter b (x :: (tails ++ rest)) = (x :: tails, tails.length + 1) := by
    simp [tailsAfter, hr, hx, hw]
  rw [firstPiece, if_neg hb, htails]
  simp

private theorem firstPiece_two {n : Nat} (h : 0x80 ≤ n) (h' : n < 0x800) (rest : Bytes) :
    firstPiece (UInt8.ofNat (n / 64 % 32 + 192)) (UInt8.ofNat (n % 64 + 128) :: rest) =
      (.char (Char.ofNat n), 1) := by
  have hs : scalar (UInt8.ofNat (n / 64 % 32 + 192)) [UInt8.ofNat (n % 64 + 128)] = Char.ofNat n := by
    simp only [scalar, List.length_cons, List.length_nil, List.foldl_cons, List.foldl_nil]
    rw [toNat_lead _ (by omega), toNat_tail _ (by omega)]
    congr 1
    omega
  have hr := tailRule_two (n / 64 % 32) (by omega) (by omega)
  rw [← hs]
  exact firstPiece_eq _ [] (lead_high _ (by omega)) hr (second_two _ (by omega)) (by simp) rest

private theorem firstPiece_three {n : Nat} (h : 0x800 ≤ n) (h' : n < 0x10000) (hn : n < 0xD800 ∨ 0xDFFF < n)
    (rest : Bytes) :
    firstPiece (UInt8.ofNat (n / 4096 % 16 + 224))
        (UInt8.ofNat (n / 64 % 64 + 128) :: UInt8.ofNat (n % 64 + 128) :: rest) = (.char (Char.ofNat n), 2) := by
  have hs : scalar (UInt8.ofNat (n / 4096 % 16 + 224))
      [UInt8.ofNat (n / 64 % 64 + 128), UInt8.ofNat (n % 64 + 128)] = Char.ofNat n := by
    simp only [scalar, List.length_cons, List.length_nil, List.foldl_cons, List.foldl_nil]
    rw [show n / 4096 % 16 + 224 = n / 4096 % 16 + 32 + 192 by omega, toNat_lead _ (by omega),
      toNat_tail _ (by omega), toNat_tail _ (by omega)]
    congr 1
    omega
  have hb := lead_high (n / 4096 % 16 + 32) (by omega)
  have hr := tailRule_three (n / 4096 % 16) (by omega)
  have hx := second_three (n / 4096 % 16) (by omega) (n / 64 % 64) (by omega) (by omega) (by omega)
  have ht := isTail_ofNat (n % 64) (by omega)
  rw [← hs]
  exact firstPiece_eq _ [_] hb hr hx (by simpa using ht) rest

private theorem firstPiece_four {n : Nat} (h : 0x10000 ≤ n) (h' : n < 0x110000) (rest : Bytes) :
    firstPiece (UInt8.ofNat (n / 262144 % 8 + 240)) (UInt8.ofNat (n / 4096 % 64 + 128) ::
        UInt8.ofNat (n / 64 % 64 + 128) :: UInt8.ofNat (n % 64 + 128) :: rest) = (.char (Char.ofNat n), 3) := by
  have hs : scalar (UInt8.ofNat (n / 262144 % 8 + 240))
      [UInt8.ofNat (n / 4096 % 64 + 128), UInt8.ofNat (n / 64 % 64 + 128), UInt8.ofNat (n % 64 + 128)] =
        Char.ofNat n := by
    simp only [scalar, List.length_cons, List.length_nil, List.foldl_cons, List.foldl_nil]
    rw [show n / 262144 % 8 + 240 = n / 262144 % 8 + 48 + 192 by omega, toNat_lead _ (by omega),
      toNat_tail _ (by omega), toNat_tail _ (by omega), toNat_tail _ (by omega)]
    congr 1
    omega
  have hb := lead_high (n / 262144 % 8 + 48) (by omega)
  have hr := tailRule_four (n / 262144 % 8) (by omega)
  have hx := second_four (n / 262144 % 8) (by omega) (n / 4096 % 64) (by omega) (by omega) (by omega)
  have ht := And.intro (isTail_ofNat (n / 64 % 64) (by omega)) (isTail_ofNat (n % 64) (by omega))
  rw [← hs]
  exact firstPiece_eq _ [_, _] hb hr hx (by simpa using ht) rest

/-- The bytes of a character are read as the character. -/
private theorem firstPiece_char (c : Char) : ∃ b tails, String.utf8EncodeChar c = b :: tails ∧
    ∀ rest, firstPiece b (tails ++ rest) = (.char c, tails.length) := by
  have valid : c.toNat < 0xD800 ∨ 0xDFFF < c.toNat ∧ c.toNat < 0x110000 := c.valid
  have hc : c = Char.ofNat c.toNat := (Char.ofNat_toNat c).symm
  have he := String.utf8EncodeChar.eq_1 c
  rw [show c.val.toNat = c.toNat from rfl] at he
  rw [he]
  generalize c.toNat = n at *
  subst hc
  split
  case isTrue h =>
    refine ⟨_, [], rfl, fun rest => ?_⟩
    have hb : ∀ m < 128, UInt8.ofNat m < 128 ∧ (UInt8.ofNat m).toNat = m := by decide
    obtain ⟨hlt, hm⟩ := hb n (by omega)
    rw [firstPiece_ascii hlt, hm]
    rfl
  split
  case isTrue h h' =>
    exact ⟨_, _, rfl, firstPiece_two (by omega) (by omega)⟩
  split
  case isTrue h h' =>
    exact ⟨_, _, rfl, firstPiece_three (by omega) (by omega) (by omega)⟩
  case isFalse h h' =>
    exact ⟨_, _, rfl, firstPiece_four (by omega) (by omega)⟩

theorem decodeLossy_encode (s : String) : decodeLossy (encode s) = s := by
  have onto : ∀ (cs : List Char) (done : List Piece),
      scanOnto done (cs.flatMap String.utf8EncodeChar) = done.reverse ++ cs.map .char := by
    intro cs
    induction cs with
    | nil => simp [scanOnto]
    | cons c cs ih =>
      intro done
      obtain ⟨b, tails, he, hf⟩ := firstPiece_char c
      rw [List.flatMap_cons, he, List.cons_append, scanOnto, hf]
      dsimp only
      rw [List.drop_left, ih]
      simp
  rw [← String.ofList_toList (s := s), encode_ofList, decodeLossy, scan, onto]
  congr 1
  simp [Function.comp_def, Piece.shown]

end SshAuthority.Utf8
