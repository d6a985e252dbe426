import Mathlib.Data.List.Infix
import Mathlib.Data.List.TakeWhile
import SshAuthority.Config.Check
import SshAuthority.Proofs.Text.Utf8
/-!
# Looking for plain words

A word of characters of the lower half stands in the bytes of a text exactly where it stands in the text, however
broken the bytes are, and it stands in a text exactly when it stands in one of the lines, if it has no line break.
-/
namespace SshAuthority

/-! ## Contiguous stretches -/

theorem Config.occursIn_iff {α : Type} [BEq α] [LawfulBEq α] {needle cs : List α} :
    occursIn needle cs = true ↔ needle <:+: cs := by
  induction cs with
  | nil => simp [occursIn]
  | cons c cs ih => rw [occursIn, Bool.or_eq_true, ih, List.isPrefixOf_iff_prefix, List.infix_cons_iff]

section

variable {α : Type} {word : List α}

private theorem infix_append_iff_of_front {front rest : List α} (hw : word ≠ []) (h : ∀ x ∈ front, x ∉ word) :
    word <:+: front ++ rest ↔ word <:+: rest := by
  induction front with
  | nil => rfl
  | cons x front ih =>
    have hp : ¬word <+: x :: (front ++ rest) := by
      intro hp
      cases word with
      | nil => exact hw rfl
      | cons a word =>
        rw [List.cons_prefix_cons] at hp
        exact h x List.mem_cons_self (hp.1 ▸ List.mem_cons_self)
    rw [List.cons_append, List.infix_cons_iff, ih fun y hy => h y (List.mem_cons_of_mem x hy)]
    simp [hp]

theorem infix_append_cons_iff {front rest : List α} {x : α} (hw : word ≠ []) (hx : x ∉ word) :
    word <:+: front ++ x :: rest ↔ word <:+: front ∨ word <:+: rest := by
  have hrest : word <:+: [x] ++ rest ↔ word <:+: rest := infix_append_iff_of_front hw (by simpa using hx)
  rw [List.singleton_append] at hrest
  rw [List.infix_append_iff, hrest]
  constructor
  · intro h
    rcases h with h | h | ⟨left, right, rfl, hl, hr⟩
    · exact .inl h
    · exact .inr h
    · cases right with
      | nil => exact .inl (by simpa using hl.isInfix)
      | cons y right =>
        rw [List.cons_prefix_cons] at hr
        exact absurd (List.mem_append_right left (hr.1 ▸ List.mem_cons_self)) hx
  · intro h
    rcases h with h | h
    · exact .inl h
    · exact .inr (.inl h)

end

/-! ## Lines -/

namespace Text

variable {word : List Char}

private theorem infix_withoutReturn_iff (hw : word ≠ []) (hr : '\r' ∉ word) (line : List Char) :
    word <:+: withoutReturn line ↔ word <:+: line := by
  rw [withoutReturn]
  split
  case isTrue h =>
    obtain ⟨front, rfl⟩ := List.getLast?_eq_some_iff.mp h
    have hn : ¬word <:+: [] := fun hi => hw (List.infix_nil.mp hi)
    rw [List.dropLast_concat, infix_append_cons_iff hw hr, or_iff_left hn]
  case isFalse => rfl

private theorem exists_mem_linesOnto_iff (hw : word ≠ []) (hn : '\n' ∉ word) (hr : '\r' ∉ word)
    (done : List (List Char)) (line cs : List Char) :
    (∃ l ∈ linesOnto done line cs, word <:+: l) ↔ (∃ l ∈ done, word <:+: l) ∨ word <:+: line.reverse ++ cs := by
  induction cs generalizing done line with
  | nil =>
    rw [linesOnto, List.append_nil]
    split
    case isTrue h =>
      rw [List.isEmpty_iff] at h
      have hi : ¬word <:+: [] := fun hi => hw (List.infix_nil.mp hi)
      simp [h, hi]
    case isFalse => simp [or_comm]
  | cons c cs ih =>
    rw [linesOnto]
    split
    case isTrue h =>
      rw [ih, h, infix_append_cons_iff hw hn]
      simp only [List.mem_cons, exists_eq_or_imp, infix_withoutReturn_iff hw hr, List.reverse_nil, List.nil_append]
      rw [or_assoc, or_left_comm]
    case isFalse h =>
      rw [ih, List.reverse_cons, List.append_assoc]
      rfl

/-- A word without a line break is in a text exactly when it is in a line of it. -/
theorem exists_mem_lines_iff (hw : word ≠ []) (hn : '\n' ∉ word) (hr : '\r' ∉ word) (cs : List Char) :
    (∃ l ∈ lines cs, word <:+: l) ↔ word <:+: cs := by
  rw [lines, exists_mem_linesOnto_iff hw hn hr]
  simp

end Text

/-! ## Bytes -/

namespace Utf8

private theorem tailRule_bounds : ∀ n < 256, ∀ r ∈ tailRule (UInt8.ofNat n), 128 ≤ r.1.toNat ∧ r.2.1.toNat < 192 ∧
    (r.2.2 = 1 ∧ 194 ≤ n ∧ n < 224 ∨
      r.2.2 = 2 ∧ 224 ≤ n ∧ n < 240 ∧ (n = 224 → 160 ≤ r.1.toNat) ∧ (n = 237 → r.2.1.toNat < 160) ∨
      r.2.2 = 3 ∧ 240 ≤ n ∧ n < 245 ∧ (n = 240 → 144 ≤ r.1.toNat) ∧ (n = 244 → r.2.1.toNat < 144)) := by
  decide +kernel

private theorem toNat_ofNat_of_valid {n : Nat} (h : n < 0xD800 ∨ 0xDFFF < n ∧ n < 0x110000) :
    (Char.ofNat n).toNat = n := by
  rw [Char.ofNat, dif_pos h]
  rfl

private theorem bounds_of_tailRule {b low high : UInt8} {count : Nat} (h : tailRule b = some (low, high, count)) :
    128 ≤ low.toNat ∧ high.toNat < 192 ∧
      (count = 1 ∧ 194 ≤ b.toNat ∧ b.toNat < 224 ∨
        count = 2 ∧ 224 ≤ b.toNat ∧ b.toNat < 240 ∧ (b.toNat = 224 → 160 ≤ low.toNat) ∧
          (b.toNat = 237 → high.toNat < 160) ∨
        count = 3 ∧ 240 ≤ b.toNat ∧ b.toNat < 245 ∧ (b.toNat = 240 → 144 ≤ low.toNat) ∧
          (b.toNat = 244 → high.toNat < 144)) := by
  rw [← UInt8.ofNat_toNat (x := b)] at h
  exact tailRule_bounds b.toNat b.toNat_lt _ h

private theorem scalar_high {b low high x : UInt8} {tails : Bytes}
    (hr : tailRule b = some (low, high, tails.length + 1)) (hlow : low ≤ x) (hhigh : x ≤ high) :
    128 ≤ (scalar b (x :: tails)).toNat := by
  obtain ⟨hl, hh, hcount⟩ := bounds_of_tailRule hr
  rw [UInt8.le_iff_toNat_le] at hlow hhigh
  match tails with
  | [] =>
    simp only [scalar, List.length_cons, List.length_nil, List.foldl_cons, List.foldl_nil]
    simp at hcount
    rw [toNat_ofNat_of_valid] <;> omega
  | [y] =>
    simp only [scalar, List.length_cons, List.length_nil, List.foldl_cons, List.foldl_nil]
    simp at hcount
    rw [toNat_ofNat_of_valid] <;> omega
  | [y, z] =>
    simp only [scalar, List.length_cons, List.length_nil, List.foldl_cons, List.foldl_nil]
    simp at hcount
    rw [toNat_ofNat_of_valid] <;> omega
  | _ :: _ :: _ :: _ => simp at hcount

private theorem tailsAfter_high (b : UInt8) (bs : Bytes) :
    (tailsAfter b bs).1 <+: bs ∧ (∀ x ∈ (tailsAfter b bs).1, 128 ≤ x.toNat) ∧
      ((tailsAfter b bs).2 ≠ 0 → (tailsAfter b bs).1.length = (tailsAfter b bs).2 →
        128 ≤ (scalar b (tailsAfter b bs).1).toNat) := by
  have none_of : ∀ count : Nat, ([] : Bytes) <+: bs ∧ (∀ x ∈ ([] : Bytes), 128 ≤ x.toNat) ∧
      (count ≠ 0 → ([] : Bytes).length = count → 128 ≤ (scalar b []).toNat) := by
    intro count
    apply And.intro List.nil_prefix
    apply And.intro (by simp)
    intro h0 h
    exact absurd h.symm h0
  rw [tailsAfter]
  split
  case h_1 => exact none_of 0
  case h_2 low high count hr =>
    split
    case h_1 => exact none_of count
    case h_2 x rest =>
      split
      case isFalse => exact none_of count
      case isTrue hx =>
        simp only [Bool.and_eq_true, decide_eq_true_eq] at hx
        obtain ⟨hl, -⟩ := bounds_of_tailRule hr
        have hlow := UInt8.le_iff_toNat_le.mp hx.1
        refine ⟨?_, ?_, ?_⟩
        · rw [List.prefix_cons_inj]
          exact (List.takeWhile_prefix isTail).trans (List.take_prefix _ rest)
        · intro y hy
          cases List.mem_cons.mp hy with
          | inl hy =>
            rw [hy]
            omega
          | inr hy =>
            have ht := List.mem_takeWhile_imp hy
            simp only [isTail, Bool.and_eq_true, decide_eq_true_eq] at ht
            exact UInt8.le_iff_toNat_le.mp ht.1
        · intro _ hcount
          have hr' : tailRule b = some (low, high, ((rest.take (count - 1)).takeWhile isTail).length + 1) := by
            rw [hr]
            exact congrArg (fun n => some (low, high, n)) hcount.symm
          exact scalar_high hr' hx.1 hx.2

private theorem firstPiece_high {b : UInt8} (hb : ¬b < 128) (bs : Bytes) :
    128 ≤ (firstPiece b bs).1.shown.toNat ∧ ∀ x ∈ bs.take (firstPiece b bs).2, 128 ≤ x.toNat := by
  obtain ⟨hp, hm, hs⟩ := tailsAfter_high b bs
  have ht : bs.take (tailsAfter b bs).1.length = (tailsAfter b bs).1 := (List.prefix_iff_eq_take.mp hp).symm
  rw [firstPiece, if_neg hb]
  dsimp only
  split
  case isTrue h =>
    simp only [bne_iff_ne, ne_eq, Bool.and_eq_true, beq_iff_eq] at h
    rw [← h.2, ht]
    exact ⟨hs h.1 h.2, hm⟩
  case isFalse =>
    rw [ht]
    refine ⟨?_, hm⟩
    show 128 ≤ '\uFFFD'.toNat
    decide

private theorem taken_high (b : UInt8) (bs : Bytes) : ∀ x ∈ bs.take (firstPiece b bs).2, 128 ≤ x.toNat := by
  by_cases hb : b < 128
  · rw [firstPiece_ascii hb]
    simp
  · exact (firstPiece_high hb bs).2

/-- Bytes are gone through piece by piece. -/
private theorem piecewise {motive : Bytes → Prop} (nil : motive [])
    (cons : ∀ b bs, motive (bs.drop (firstPiece b bs).2) → motive (b :: bs)) (bs : Bytes) : motive bs := by
  induction h : bs.length using Nat.strongRecOn generalizing bs with
  | ind n ih =>
    cases bs with
    | nil => exact nil
    | cons b bs =>
      have hlt : (bs.drop (firstPiece b bs).2).length < n := by
        rw [List.length_drop, ← h, List.length_cons]
        omega
      exact cons b bs (ih _ hlt _ rfl)

private theorem scanOnto_eq (done : List Piece) (bs : Bytes) : scanOnto done bs = done.reverse ++ scan bs := by
  induction bs using piecewise generalizing done with
  | nil => simp [scan, scanOnto]
  | cons b bs ih =>
    rw [scan, scanOnto, scanOnto]
    dsimp only
    rw [ih (_ :: done), ih [_]]
    simp

private theorem decodeLossy_nil : (decodeLossy []).toList = [] := by
  simp [decodeLossy, scan, scanOnto]

private theorem decodeLossy_cons (b : UInt8) (bs : Bytes) : (decodeLossy (b :: bs)).toList =
    (firstPiece b bs).1.shown :: (decodeLossy (bs.drop (firstPiece b bs).2)).toList := by
  rw [decodeLossy, decodeLossy, String.toList_ofList, String.toList_ofList, scan, scanOnto]
  dsimp only
  rw [scanOnto_eq]
  rfl

private theorem encode_cons {c : Char} (hc : c.toNat < 128) (cs : List Char) :
    encode (String.ofList (c :: cs)) = UInt8.ofNat c.toNat :: encode (String.ofList cs) := by
  have h := utf8EncodeChar_ofNat hc
  rw [Char.ofNat_toNat] at h
  rw [encode_ofList, encode_ofList, List.flatMap_cons, h]
  rfl

private theorem lt_of_mem_encode {cs : List Char} (hcs : ∀ c ∈ cs, c.toNat < 128) :
    ∀ x ∈ encode (String.ofList cs), x.toNat < 128 := by
  induction cs with
  | nil => simp [encode]
  | cons c cs ih =>
    have hc := hcs c List.mem_cons_self
    intro x hx
    rw [encode_cons hc] at hx
    cases List.mem_cons.mp hx with
    | inl hx =>
      rw [hx, UInt8.toNat_ofNat']
      omega
    | inr hx => exact ih (fun d hd => hcs d (List.mem_cons_of_mem c hd)) x hx

private theorem ofNat_eq_iff {c : Char} {b : UInt8} (hc : c.toNat < 128) :
    UInt8.ofNat c.toNat = b ↔ c = Char.ofNat b.toNat ∧ b < 128 := by
  constructor
  · intro h
    have hb : b.toNat = c.toNat := by
      rw [← h, UInt8.toNat_ofNat']
      omega
    rw [hb, Char.ofNat_toNat, UInt8.lt_iff_toNat_lt, hb]
    exact ⟨rfl, hc⟩
  · intro ⟨h, hb⟩
    have hlt := UInt8.lt_iff_toNat_lt.mp hb
    have hn : c.toNat = b.toNat := by
      rw [h]
      apply toNat_ofNat_of_valid
      left
      exact hlt.trans (by decide)
    rw [hn, UInt8.ofNat_toNat]

private theorem prefix_decodeLossy_iff {cs : List Char} (hcs : ∀ c ∈ cs, c.toNat < 128) (bs : Bytes) :
    encode (String.ofList cs) <+: bs ↔ cs <+: (decodeLossy bs).toList := by
  induction cs generalizing bs with
  | nil => simp [encode]
  | cons c cs ih =>
    have hc := hcs c List.mem_cons_self
    have hrest : ∀ d ∈ cs, d.toNat < 128 := fun d hd => hcs d (List.mem_cons_of_mem c hd)
    rw [encode_cons hc]
    cases bs with
    | nil => simp [decodeLossy_nil]
    | cons b bs =>
      rw [decodeLossy_cons, List.cons_prefix_cons, List.cons_prefix_cons, ofNat_eq_iff hc]
      by_cases hb : b < 128
      · rw [firstPiece_ascii hb, List.drop_zero, ih hrest]
        simp [hb, Piece.shown]
      · have hne : c ≠ (firstPiece b bs).1.shown := by
          intro h
          have hhigh := (firstPiece_high hb bs).1
          rw [← h] at hhigh
          omega
        simp [hb, hne]

/-- Bytes of which some are no characters are searched for a word of the lower half through their text. -/
theorem infix_decodeLossy_iff {word : String} (hne : word ≠ "") (hw : ∀ c ∈ word.toList, c.toNat < 128) (bs : Bytes) :
    encode word <:+: bs ↔ word.toList <:+: (decodeLossy bs).toList := by
  have hbytes : encode word ≠ [] := encode_ne_nil hne
  have hchars : word.toList ≠ [] := by simpa using hne
  have hlow := lt_of_mem_encode hw
  have hp := prefix_decodeLossy_iff hw
  rw [String.ofList_toList] at hlow hp
  induction bs using piecewise with
  | nil => simp [decodeLossy_nil, hbytes, hchars, -String.toList_eq_nil_iff]
  | cons b bs ih =>
    -- what the piece takes holds no byte of the word, so no occurrence begins there
    have hfront : encode word <:+: bs ↔ encode word <:+: bs.drop (firstPiece b bs).2 := by
      have apart : ∀ x ∈ bs.take (firstPiece b bs).2, x ∉ encode word := by
        intro x hx hm
        have hhigh := taken_high b bs x hx
        have := hlow x hm
        omega
      have h : encode word <:+: bs.take (firstPiece b bs).2 ++ bs.drop (firstPiece b bs).2 ↔
          encode word <:+: bs.drop (firstPiece b bs).2 := infix_append_iff_of_front hbytes apart
      rwa [List.take_append_drop] at h
    rw [List.infix_cons_iff, hp, hfront, decodeLossy_cons, List.infix_cons_iff]
    exact or_congr_right ih

end Utf8

end SshAuthority
