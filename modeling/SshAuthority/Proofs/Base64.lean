import SshAuthority.Base64
/-!
# Base64 there and back

What is encoded is decoded to the same bytes, group by group.
-/
namespace SshAuthority.Base64

private theorem value?_symbol {n : Nat} (h : n < 64) : value? (symbol n) = some n := by
  have hd : ∀ m < 64, value? (symbol m) = some m := by decide
  exact hd n h

private theorem symbol_ne_pad {n : Nat} (h : n < 64) : symbol n ≠ pad := by
  have hd : ∀ m < 64, symbol m ≠ pad := by decide
  exact hd n h

private theorem symbol_lt {n : Nat} (h : n < 64) : symbol n < 128 := by
  have hd : ∀ m < 64, symbol m < 128 := by decide
  exact hd n h

def groups : Bytes → Bytes
  | a :: b :: c :: rest => group3 a b c ++ groups rest
  | [a, b] => (group3 a b 0).take 3 ++ [pad]
  | [a] => (group3 a 0 0).take 2 ++ [pad, pad]
  | [] => []

private theorem encodeOnto_eq (done bs : Bytes) : encodeOnto done bs = (groups bs).reverse ++ done := by
  fun_induction encodeOnto done bs with
  | case1 done a b c rest ih => simp [ih, groups]
  | case2 done a b => simp [groups]
  | case3 done a => simp [groups]
  | case4 done => simp [groups]

theorem encode_eq (bs : Bytes) : encode bs = groups bs := by
  simp [encode, encodeOnto_eq]

/-! ## Groups -/

/-- The values of the symbols that spell three bytes. -/
private def quad (a b c : UInt8) : List Nat :=
  let n := a.toNat * 0x10000 + b.toNat * 0x100 + c.toNat
  [n / 0x40000, n / 0x1000 % 0x40, n / 0x40 % 0x40, n % 0x40]

private theorem group3_eq (a b c : UInt8) : group3 a b c = (quad a b c).map symbol := rfl

private theorem length_quad (a b c : UInt8) : (quad a b c).length = 4 := rfl

private theorem quad_lt (a b c : UInt8) : ∀ v ∈ quad a b c, v < 64 := by
  have ha := a.toNat_lt
  have hb := b.toNat_lt
  have hc := c.toNat_lt
  simp only [quad, List.mem_cons, List.not_mem_nil, or_false]
  rintro v (rfl | rfl | rfl | rfl) <;> omega

private theorem ofNat_eq {n : Nat} {b : UInt8} (h : n = b.toNat) : UInt8.ofNat n = b := by
  rw [h, UInt8.ofNat_toNat]

private theorem bytesOf_quad (a b c : UInt8) : bytesOf (quad a b c) = [a, b, c] := by
  have ha := a.toNat_lt
  have hb := b.toNat_lt
  have hc := c.toNat_lt
  simp only [quad, bytesOf]
  rw [ofNat_eq (b := a) (by omega), ofNat_eq (b := b) (by omega), ofNat_eq (b := c) (by omega)]

private theorem bytesOf_take_three (a b : UInt8) :
    bytesOf ((quad a b 0).take 3) = [a, b] ∧ hasStrayBits ((quad a b 0).take 3) = false := by
  have ha := a.toNat_lt
  have hb := b.toNat_lt
  have hz : (0 : UInt8).toNat = 0 := rfl
  simp only [quad, List.take_succ_cons, List.take_zero, bytesOf, hasStrayBits, hz]
  refine ⟨?_, by simp; omega⟩
  rw [ofNat_eq (b := a) (by omega), ofNat_eq (b := b) (by omega)]

private theorem bytesOf_take_two (a : UInt8) :
    bytesOf ((quad a 0 0).take 2) = [a] ∧ hasStrayBits ((quad a 0 0).take 2) = false := by
  have ha := a.toNat_lt
  have hz : (0 : UInt8).toNat = 0 := rfl
  simp only [quad, List.take_succ_cons, List.take_zero, bytesOf, hasStrayBits, hz]
  refine ⟨?_, by simp; omega⟩
  rw [ofNat_eq (b := a) (by omega)]

/-! ## Reading symbols -/

private theorem values_map {vs : List Nat} (h : ∀ v ∈ vs, v < 64) (offset : Nat) :
    values offset (vs.map symbol) = .ok vs := by
  induction vs generalizing offset with
  | nil => rfl
  | cons v vs ih =>
    have hv := value?_symbol (h v List.mem_cons_self)
    rw [List.map_cons, values, hv]
    simp only
    rw [ih (fun w hw => h w (List.mem_cons_of_mem _ hw))]
    rfl

private theorem decodeFinal_padded {vs : List Nat} (h : ∀ v ∈ vs, v < 64) (hl : 2 ≤ vs.length)
    {k : Nat} (hp : (vs.length + k) % 4 = 0) (hs : hasStrayBits vs = false) (offset : Nat) :
    decodeFinal offset (vs.map symbol ++ List.replicate k pad) = .ok (bytesOf vs) := by
  have hn : ∀ b ∈ vs.map symbol, (b != pad) = true := by
    intro b hb
    obtain ⟨v, hv, rfl⟩ := List.mem_map.mp hb
    simpa using symbol_ne_pad (h v hv)
  have hf : finalSymbols offset (vs.map symbol ++ List.replicate k pad) = .ok (vs, k) := by
    have ht : (vs.map symbol ++ List.replicate k pad).takeWhile (· != pad) = vs.map symbol := by
      rw [List.takeWhile_append_of_pos hn]
      cases k <;> simp [List.replicate_succ]
    have hd : (vs.map symbol ++ List.replicate k pad).dropWhile (· != pad) =
        List.replicate k pad := by
      rw [List.dropWhile_append_of_pos hn]
      cases k <;> simp [List.replicate_succ]
    simp only [finalSymbols, ht, hd, values_map h]
    cases k with
    | zero => rfl
    | succ k => simp [List.replicate_succ, Nat.not_lt.mpr hl]
  simp [decodeFinal, hf, Nat.not_lt.mpr hl, hp, hs]

/-! ## There and back -/

private theorem decodeOnto_of_short {group : Bytes} (h : group.length ≤ 4) (done : Bytes) (offset : Nat) :
    decodeOnto done offset group = (decodeFinal offset group).map fun bs => done.reverse ++ bs := by
  unfold decodeOnto
  split
  · simp only [List.length_cons] at h
    omega
  · rfl

private theorem groups_ne_nil {bs : Bytes} (h : bs ≠ []) : groups bs ≠ [] := by
  fun_cases groups bs with
  | case1 => simp [group3]
  | case2 => simp
  | case3 => simp
  | case4 => exact absurd rfl h

private theorem decodeOnto_group3 (a b c : UInt8) {more : Bytes} (h : more ≠ []) (done : Bytes)
    (offset : Nat) : decodeOnto done offset (group3 a b c ++ more) =
      decodeOnto ([c, b, a] ++ done) (offset + 4) more := by
  obtain ⟨e, rest, rfl⟩ := List.exists_cons_of_ne_nil h
  have hv := values_map (quad_lt a b c) offset
  have hb := bytesOf_quad a b c
  rw [group3_eq]
  simp only [quad, List.map_cons, List.map_nil, List.cons_append, List.nil_append] at hv hb ⊢
  rw [decodeOnto, hv]
  simp only
  rw [hb]
  rfl

private theorem decodeOnto_groups {bs : Bytes} (h : bs ≠ []) (done : Bytes) (offset : Nat) :
    decodeOnto done offset (groups bs) = .ok (done.reverse ++ bs) := by
  fun_induction groups bs generalizing done offset with
  | case1 a b c rest ih =>
    by_cases hr : rest = []
    · subst hr
      have hd := decodeFinal_padded (quad_lt a b c) (by simp [length_quad]) (k := 0)
        (by simp [length_quad]) rfl offset
      rw [List.replicate_zero, List.append_nil, ← group3_eq, bytesOf_quad] at hd
      rw [groups, List.append_nil, decodeOnto_of_short (by simp [group3]), hd]
      rfl
    · rw [decodeOnto_group3 a b c (groups_ne_nil hr), ih hr]
      simp
  | case2 a b =>
    obtain ⟨hb, hs⟩ := bytesOf_take_three a b
    have hd := decodeFinal_padded (fun v hv => quad_lt a b 0 v (List.mem_of_mem_take hv))
      (by simp [length_quad]) (k := 1) (by simp [length_quad]) hs offset
    rw [List.map_take, ← group3_eq, hb] at hd
    rw [decodeOnto_of_short (by simp [group3])]
    exact hd ▸ rfl
  | case3 a =>
    obtain ⟨hb, hs⟩ := bytesOf_take_two a
    have hd := decodeFinal_padded (fun v hv => quad_lt a 0 0 v (List.mem_of_mem_take hv))
      (by simp [length_quad]) (k := 2) (by simp [length_quad]) hs offset
    rw [List.map_take, ← group3_eq, hb] at hd
    rw [decodeOnto_of_short (by simp [group3])]
    exact hd ▸ rfl
  | case4 => exact absurd rfl h

private theorem length_groups (bs : Bytes) : (groups bs).length % 4 = 0 := by
  fun_induction groups bs with
  | case1 a b c rest ih => simp [group3]; omega
  | case2 a b => simp [group3]
  | case3 a => simp [group3]
  | case4 => rfl

theorem length_le_encode (bs : Bytes) : bs.length ≤ (encode bs).length := by
  rw [encode_eq]
  fun_induction groups bs with
  | case1 a b c rest ih => simp [group3]; omega
  | case2 a b => simp [group3]
  | case3 a => simp [group3]
  | case4 => exact Nat.le_refl 0

theorem decode_encode (bs : Bytes) : decode (encode bs) = .ok bs := by
  rw [encode_eq, decode]
  by_cases h : bs = []
  · subst h
    rfl
  · rw [List.getLast?_eq_some_getLast (groups_ne_nil h)]
    simp only [length_groups, decodeOnto_groups h]
    simp

theorem encode_ascii (bs : Bytes) : ∀ b ∈ encode bs, b < 128 := by
  have hg : ∀ a b c, ∀ x ∈ group3 a b c, x < 128 := by
    intro a b c x hx
    obtain ⟨v, hv, rfl⟩ := List.mem_map.mp (group3_eq a b c ▸ hx)
    exact symbol_lt (quad_lt a b c v hv)
  have hp : pad < 128 := by decide
  rw [encode_eq]
  fun_induction groups bs with
  | case1 a b c rest ih =>
    intro x hx
    rcases List.mem_append.mp hx with hx | hx
    · exact hg a b c x hx
    · exact ih x hx
  | case2 a b =>
    intro x hx
    rcases List.mem_append.mp hx with hx | hx
    · exact hg a b 0 x (List.mem_of_mem_take hx)
    · rwa [List.mem_singleton.mp hx]
  | case3 a =>
    intro x hx
    rcases List.mem_append.mp hx with hx | hx
    · exact hg a 0 0 x (List.mem_of_mem_take hx)
    · have hx : x = pad := by simpa using hx
      rwa [hx]
  | case4 => simp

end SshAuthority.Base64
