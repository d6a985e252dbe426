import Mathlib.Data.List.TakeWhile
import SshAuthority.Certificate
import SshAuthority.Proofs.Base64
import SshAuthority.Proofs.Text.Line
import SshAuthority.Proofs.Text.Utf8
/-!
# What a summary says

The principals of a request are read back from what a summary and the signing tool are given of them, as long
as none of them has a comma. All else that a summary shows is of the authority's own making or a plain word
that was read from the key, so a line break in a summary is one of a principal.
-/
namespace SshAuthority

open Text (isLineBreak lineBreaks lineBreaks_append lineBreaks_intercalate)

/-! ## What is taken from a key -/

namespace Key

private theorem isWordByte_ofNat {n : Nat} (h : isWordByte (UInt8.ofNat n)) (hn : n < 256) :
    n < 128 ∧ isLineBreak (Char.ofNat n) = false := by
  have hd : ∀ m < 256, isWordByte (UInt8.ofNat m) → m < 128 ∧ isLineBreak (Char.ofNat m) = false := by
    decide +kernel
  exact hd n hn h

private theorem isWordByte_lt {b : UInt8} (h : isWordByte b) : b < 128 := by
  rw [← UInt8.ofNat_toNat (x := b)] at h
  exact UInt8.lt_iff_toNat_lt.mpr (isWordByte_ofNat h b.toNat_lt).1

theorem lineBreaks_word {s : String} (h : ∀ b ∈ Utf8.encode s, isWordByte b) : lineBreaks s = [] := by
  rw [lineBreaks, List.filter_eq_nil_iff]
  intro c hc
  obtain ⟨b, hb, rfl⟩ := Utf8.exists_byte_of_ascii (fun b hb => isWordByte_lt (h b hb)) hc
  have hw := h b hb
  rw [← UInt8.ofNat_toNat (x := b)] at hw
  simp [(isWordByte_ofNat hw b.toNat_lt).2]

private theorem isWordByte_symbol (n : Nat) : isWordByte (Base64.symbol n) := by
  have hd : ∀ m < 64, isWordByte (Base64.symbol m) := by decide
  rcases Nat.lt_or_ge n 64 with hn | hn
  · exact hd n hn
  · have hs : Base64.symbol n = Base64.symbol 63 := by
      simp only [Base64.symbol]
      rw [if_neg (by omega), if_neg (by omega), if_neg (by omega), if_neg (by omega)]
      rfl
    rw [hs]
    exact hd 63 (by omega)

private theorem isWordByte_groups (bs : Bytes) : ∀ b ∈ Base64.groups bs, isWordByte b := by
  have hgroup : ∀ a b c, ∀ x ∈ Base64.group3 a b c, isWordByte x := by
    intro a b c x hx
    simp only [Base64.group3, List.mem_cons, List.not_mem_nil, or_false] at hx
    rcases hx with rfl | rfl | rfl | rfl <;> exact isWordByte_symbol _
  fun_induction Base64.groups bs with
  | case1 a b c rest ih =>
    intro x hx
    rcases List.mem_append.mp hx with hx | hx
    · exact hgroup a b c x hx
    · exact ih x hx
  | case2 a b =>
    intro x hx
    rcases List.mem_append.mp hx with hx | hx
    · exact hgroup a b 0 x (List.mem_of_mem_take hx)
    · rw [List.mem_singleton.mp hx]
      rfl
  | case3 a =>
    intro x hx
    rcases List.mem_append.mp hx with hx | hx
    · exact hgroup a 0 0 x (List.mem_of_mem_take hx)
    · simp only [List.mem_cons, List.not_mem_nil, or_false, or_self] at hx
      rw [hx]
      rfl
  | case4 => simp

theorem Material.lineBreaks_fingerprint (m : Material) : lineBreaks m.fingerprint = [] := by
  have hword : ∀ b ∈ Base64.encodeBare (Sha256.digest m.blob), isWordByte b := by
    intro b hb
    rw [Base64.encodeBare, Base64.encode_eq] at hb
    exact isWordByte_groups _ b (List.mem_filter.mp hb).1
  have hdigest := lineBreaks_word (s := Utf8.decodeLossy (Base64.encodeBare (Sha256.digest m.blob))) (by
    rwa [Utf8.encode_decodeLossy fun b hb => isWordByte_lt (hword b hb)])
  have hkind : lineBreaks "SHA256:" = [] := by decide
  rw [Material.fingerprint, lineBreaks_append, hkind, hdigest, List.append_nil]

theorem front_of_word {bs front rest : Bytes} (h : word bs = .ok (front, rest)) : front = bs.takeWhile isWordByte := by
  simp only [word] at h
  split at h
  · exact (Prod.mk.inj (Except.ok.inj h)).1.symm
  · split at h
    · exact (Prod.mk.inj (Except.ok.inj h)).1.symm
    · cases h

private theorem isWordByte_of_word {bs front rest : Bytes} (h : word bs = .ok (front, rest)) :
    ∀ b ∈ front, isWordByte b := by
  intro b hb
  rw [front_of_word h] at hb
  exact List.mem_takeWhile_imp hb

/-- A line with a blob that is read as `material`. -/
def Line.Holds (line : String) (material : Material) : Prop :=
  ∃ name rest base64 comment source left,
    word (Utf8.encode (String.ofList (Text.trimEnd line.toList))) = .ok (name, rest) ∧
    word rest = .ok (base64, comment) ∧ Source.ofBase64 base64 = .ok source ∧
    Material.read.run source = .ok (material, left)

theorem ok_of_bind {α β : Type} {x : Except Fault α} {f : α → Except Fault β} {b : β}
    (h : x >>= f = .ok b) : ∃ a, x = .ok a ∧ f a = .ok b := by
  cases x with
  | error fault => cases h
  | ok a => exact ⟨a, rfl, h⟩

theorem Line.material_of_ofText {text : String} {line : Line} (h : Line.ofText text = .ok line) :
    ∃ material, Holds text material ∧ line.algorithm = material.algorithm ∧
      line.fingerprint = material.fingerprint ∧ ∀ b ∈ Utf8.encode line.algorithm.name, isWordByte b := by
  unfold Line.ofText at h
  obtain ⟨⟨name, rest⟩, hname, h⟩ := ok_of_bind h
  obtain ⟨⟨base64, comment⟩, hbase64, h⟩ := ok_of_bind h
  dsimp only at h
  split at h
  · cases h
  obtain ⟨source, hsource, h⟩ := ok_of_bind h
  obtain ⟨⟨material, left⟩, hmaterial, h⟩ := ok_of_bind h
  dsimp only at h
  split at h
  · cases h
  case isFalse hsame =>
    split at h
    · cases h
    cases h
    refine ⟨material, ⟨name, rest, base64, comment, source, left, hname, hbase64, hsource, hmaterial⟩, rfl, rfl, ?_⟩
    have hsame : Utf8.encode material.algorithm.name = name := by simpa using hsame
    rw [hsame]
    exact isWordByte_of_word hname

end Key

namespace PublicKey

open Key (Material Line)

theorem exists_material (k : PublicKey) : ∃ text material, Utf8.decode? k.bytes = some text ∧
    Line.Holds (String.ofList (Key.withoutEnding text.toList)) material ∧
    k.algorithm = material.algorithm.name ∧ k.fingerprint = material.fingerprint ∧
    ∀ b ∈ Utf8.encode k.algorithm, Key.isWordByte b := by
  have h := k.line_eq
  unfold Key.lineOf at h
  split at h
  case h_1 => cases h
  case h_2 text htext =>
    dsimp only at h
    split at h
    · cases h
    split at h
    · cases h
    obtain ⟨material, hholds, halgorithm, hfingerprint, hword⟩ := Line.material_of_ofText h
    exact ⟨text, material, htext, hholds, congrArg Key.Algorithm.name halgorithm, hfingerprint, hword⟩

theorem lineBreaks_algorithm (k : PublicKey) : lineBreaks k.algorithm = [] := by
  obtain ⟨-, -, -, -, -, -, hword⟩ := k.exists_material
  exact Key.lineBreaks_word hword

theorem lineBreaks_fingerprint (k : PublicKey) : lineBreaks k.fingerprint = [] := by
  obtain ⟨-, material, -, -, -, hf, -⟩ := k.exists_material
  rw [hf]
  exact Key.Material.lineBreaks_fingerprint material

end PublicKey

theorem Key.Read.parse_bytes {ofText : String → Except Fault Line} (key : Read ofText) :
    parse ofText key.bytes = .ok key := by
  obtain ⟨bytes, line, hline⟩ := key
  unfold parse
  split
  case h_1 line' h =>
    obtain rfl := Except.ok.inj (h.symm.trans hline)
    rfl
  case h_2 fault h => cases h.symm.trans hline

theorem Key.Read.bytes_of_parse {ofText : String → Except Fault Line} {bs : Bytes} {key : Read ofText}
    (h : parse ofText bs = .ok key) : key.bytes = bs := by
  unfold parse at h
  split at h
  · rw [← Except.ok.inj h]
  · cases h

theorem PublicKey.parse_bytes (key : PublicKey) : parse key.bytes = .ok key := Key.Read.parse_bytes key

theorem PublicKey.bytes_of_parse {bs : Bytes} {key : PublicKey} (h : parse bs = .ok key) : key.bytes = bs :=
  Key.Read.bytes_of_parse h

/-! ## Summaries -/

namespace SignRequest

/-- Every line break of a summary is one of a principal. -/
theorem lineBreaks_summary (r : SignRequest) : lineBreaks r.summary = r.principals.flatMap lineBreaks := by
  have hkind : lineBreaks r.kind.name = [] := by cases r.kind <;> decide
  have hcomma : lineBreaks "," = [] := by decide
  have hmake : lineBreaks "make " = [] := by decide
  have hfor : lineBreaks " certificate for " = [] := by decide
  have hkey : lineBreaks " key (fingerprint " = [] := by decide
  have hend : lineBreaks ") for " = [] := by decide
  rw [summary]
  simp only [lineBreaks_append, hmake, hkind, hfor, r.key.lineBreaks_algorithm, hkey,
    r.key.lineBreaks_fingerprint, hend, List.nil_append]
  exact lineBreaks_intercalate hcomma r.principals

/-- The principals are what is between the commas. -/
theorem splitOn_joinedPrincipals (r : SignRequest) (hne : r.principals ≠ [])
    (hcomma : ∀ p ∈ r.principals, ',' ∉ p.toList) :
    (r.joinedPrincipals.toList.splitOn ',').map String.ofList = r.principals := by
  have hsplit : r.joinedPrincipals.toList.splitOn ',' = r.principals.map String.toList := by
    rw [joinedPrincipals, String.toList_intercalate]
    exact List.splitOn_intercalate ',' (by simpa using hcomma) (by simpa using hne)
  rw [hsplit, List.map_map]
  simp

end SignRequest

end SshAuthority
