import SshAuthority.Proofs.Certificate
import SshAuthority.Proofs.Text.Decoding
/-!
# The line of a key

The bytes of a key are one line and at most one ending behind it. They are kept as they came, so keys that differ
in the ending alone say the same and are not equal.
-/
namespace SshAuthority

/-! ## Texts -/

namespace Text

theorem isEmpty_trim {cs : List Char} : (trim cs).isEmpty = true ↔ ∀ c ∈ cs, isBlank c = true := by
  simp only [trim, trimEnd, trimStart, List.isEmpty_iff, List.reverse_eq_nil_iff, List.dropWhile_eq_nil_iff,
    List.mem_reverse]
  constructor
  · intro h c hc
    rw [← List.takeWhile_append_dropWhile (p := isBlank) (l := cs), List.mem_append] at hc
    cases hc with
    | inl hw => exact List.mem_takeWhile_imp hw
    | inr hw => exact h c hw
  · intro h c hc
    exact h c (List.dropWhile_sublist isBlank |>.subset hc)

theorem trimEnd_append {cs blank : List Char} (h : ∀ c ∈ blank, isBlank c = true) :
    trimEnd (cs ++ blank) = trimEnd cs := by
  rw [trimEnd, trimEnd, List.reverse_append, List.dropWhile_append_of_pos]
  intro c hc
  exact h c (List.mem_reverse.mp hc)

theorem trimEnd_prefix (cs : List Char) : trimEnd cs <+: cs := by
  apply List.reverse_suffix.mp
  rw [trimEnd, List.reverse_reverse]
  exact List.dropWhile_suffix isBlank

end Text

/-! ## Lines -/

namespace Key

/-- What may stand behind the line of a key. -/
def endings : List String := ["", "\n", "\r\n"]

/-- A text that may be the line of a key: without a newline or a carriage return, and not all blank. -/
structure IsLine (l : String) : Prop where
  no_newline : '\n' ∉ l.toList
  no_return : '\r' ∉ l.toList
  shown : ∃ c ∈ l.toList, Text.isBlank c = false

/-- The bytes of the line `l`, with an ending or without. -/
def Spells (bs : Bytes) (l : String) : Prop := IsLine l ∧ ∃ e ∈ endings, bs = Utf8.encode (l ++ e)

private theorem withoutEnding_of_newline (cs : List Char) :
    withoutEnding (cs ++ ['\n']) = if cs.getLast? = some '\r' then cs.dropLast else cs := by
  simp [withoutEnding]

private theorem getLast?_ne {cs : List Char} {c : Char} (h : c ∉ cs) : cs.getLast? ≠ some c := by
  intro hl
  exact h (List.mem_of_getLast? hl)

theorem IsLine.withoutEnding_append {l e : String} (h : IsLine l) (he : e ∈ endings) :
    withoutEnding (l ++ e).toList = l.toList := by
  rw [String.toList_append]
  simp only [endings, List.mem_cons, List.not_mem_nil, or_false] at he
  rcases he with rfl | rfl | rfl
  · simp [withoutEnding, getLast?_ne h.no_newline]
  · have hb := withoutEnding_of_newline l.toList
    rw [if_neg (getLast?_ne h.no_return)] at hb
    exact hb
  · have hb := withoutEnding_of_newline (l.toList ++ ['\r'])
    rw [if_pos (List.getLast?_concat ..), List.dropLast_concat, List.append_assoc] at hb
    exact hb

theorem exists_ending (cs : List Char) : ∃ e ∈ endings, cs = withoutEnding cs ++ e.toList := by
  by_cases hn : cs.getLast? = some '\n'
  · obtain ⟨front, rfl⟩ := List.getLast?_eq_some_iff.mp hn
    by_cases hr : front.getLast? = some '\r'
    · obtain ⟨line, rfl⟩ := List.getLast?_eq_some_iff.mp hr
      refine ⟨"\r\n", by decide, ?_⟩
      rw [withoutEnding_of_newline, if_pos hr, List.dropLast_concat, List.append_assoc]
      rfl
    · refine ⟨"\n", by decide, ?_⟩
      rw [withoutEnding_of_newline, if_neg hr]
      rfl
  · refine ⟨"", by decide, ?_⟩
    rw [withoutEnding, if_neg hn]
    simp

/-- A line is read the same with every ending, by every reader of lines. -/
theorem IsLine.lineOf_append {α : Type} {l e : String} (h : IsLine l) (he : e ∈ endings)
    (ofText : String → Except Fault α) : lineOf ofText (Utf8.encode (l ++ e)) = ofText l := by
  have shown : (Text.trim l.toList).isEmpty = false := by
    obtain ⟨c, hc, hb⟩ := h.shown
    by_contra hn
    have blank := Text.isEmpty_trim.mp (Bool.of_not_eq_false hn) c hc
    rw [hb] at blank
    cases blank
  rw [lineOf, Utf8.decode?_encode]
  simp only [h.withoutEnding_append he]
  simp [shown, h.no_newline, h.no_return]

theorem lineOf_eq_ok_iff {α : Type} (ofText : String → Except Fault α) (bs : Bytes) (line : α) :
    lineOf ofText bs = .ok line ↔ ∃ l, Spells bs l ∧ ofText l = .ok line := by
  constructor
  · intro h
    rw [lineOf] at h
    split at h
    case h_1 => cases h
    case h_2 text ht =>
      have hbs := Utf8.encode_of_decode? ht
      dsimp only at h
      split at h
      case isTrue => cases h
      case isFalse shown =>
        split at h
        case isTrue => cases h
        case isFalse single =>
          obtain ⟨e, he, hcs⟩ := exists_ending text.toList
          simp only [Bool.or_eq_true, List.contains_iff_mem, not_or] at single
          simp only [Text.isEmpty_trim, not_forall, Bool.not_eq_true, exists_prop] at shown
          refine ⟨String.ofList (withoutEnding text.toList), ⟨⟨?_, ?_, ?_⟩, e, he, ?_⟩, h⟩
          · rw [String.toList_ofList]
            exact single.1
          · rw [String.toList_ofList]
            exact single.2
          · rw [String.toList_ofList]
            exact shown
          · rw [← hbs]
            congr 1
            apply String.toList_injective
            rw [String.toList_append, String.toList_ofList]
            exact hcs
  · intro h
    obtain ⟨l, ⟨hl, e, he, rfl⟩, ht⟩ := h
    rw [hl.lineOf_append he, ht]

theorem Line.head_of_ofText {l : String} {line : Line} (h : Line.ofText l = .ok line) :
    ∃ b rest, Utf8.encode l = b :: rest ∧ isWordByte b := by
  unfold Line.ofText at h
  obtain ⟨⟨name, rest⟩, hname, h⟩ := ok_of_bind h
  obtain ⟨⟨base64, comment⟩, -, h⟩ := ok_of_bind h
  dsimp only at h
  split at h
  case isTrue => cases h
  case isFalse hne =>
    rw [front_of_word hname] at hne
    obtain ⟨blank, hl⟩ := Text.trimEnd_prefix l.toList
    have hsplit : Utf8.encode l = Utf8.encode (String.ofList (Text.trimEnd l.toList)) ++
        Utf8.encode (String.ofList blank) := by
      rw [← Utf8.encode_append, ← String.ofList_append, hl, String.ofList_toList]
    rcases hb : Utf8.encode (String.ofList (Text.trimEnd l.toList)) with _ | ⟨b, bs⟩ <;> rw [hb] at hne hsplit
    · exact absurd rfl hne
    · refine ⟨b, _, hsplit, ?_⟩
      by_contra hw
      simp [hw] at hne

/-- The bytes of a line leave no doubt about the line and its ending. -/
theorem IsLine.encode_inj {l l' e e' : String} (h : IsLine l) (h' : IsLine l') (he : e ∈ endings)
    (he' : e' ∈ endings) (hb : Utf8.encode (l ++ e) = Utf8.encode (l' ++ e')) : l = l' ∧ e = e' := by
  have ht : l ++ e = l' ++ e' := by
    have hd := congrArg Utf8.decode? hb
    rw [Utf8.decode?_encode, Utf8.decode?_encode] at hd
    exact Option.some.inj hd
  have hl : l = l' := by
    apply String.toList_injective
    rw [← h.withoutEnding_append he, ht, h'.withoutEnding_append he']
  subst hl
  exact ⟨rfl, String.append_right_inj l |>.mp ht⟩

end Key

/-! ## Keys -/

namespace Key.Read

variable {ofText : String → Except Fault Line}

private theorem exists_spelling (k : Read ofText) : ∃ l, Spells k.bytes l ∧ ofText l = .ok k.line :=
  (lineOf_eq_ok_iff _ _ _).mp k.line_eq

private theorem exists_parse {bs : Bytes} {line : Line} (h : lineOf ofText bs = .ok line) :
    ∃ k, parse ofText bs = .ok k ∧ k.line = line :=
  ⟨⟨bs, line, h⟩, parse_bytes ⟨bs, line, h⟩, rfl⟩

theorem eq_iff_bytes {k k' : Read ofText} : k = k' ↔ k.bytes = k'.bytes := by
  constructor
  · intro h
    rw [h]
  · intro h
    have hk := k.parse_bytes
    rw [h, k'.parse_bytes] at hk
    exact (Except.ok.inj hk).symm

theorem knownHostsEntry_eq (k : Read ofText) :
    k.knownHostsEntry = "@cert-authority * " ++ String.ofList (Text.trimEnd k.text.toList) := rfl

theorem knownHostsEntry_of_bytes {k : Read ofText} {l e : String} (hk : k.bytes = Utf8.encode (l ++ e))
    (he : e ∈ endings) : k.knownHostsEntry = "@cert-authority * " ++ String.ofList (Text.trimEnd l.toList) := by
  have blank : ∀ e ∈ endings, ∀ c ∈ e.toList, Text.isBlank c = true := by simp [endings, Text.isBlank]
  have ht : Text.trimEnd (l.toList ++ e.toList) = Text.trimEnd l.toList := Text.trimEnd_append (blank e he)
  rw [knownHostsEntry_eq, text, hk, Utf8.decodeLossy_encode, String.toList_append, ht]

private theorem not_mem_entry {k : Read ofText} {l e : String} {c : Char} (hk : k.bytes = Utf8.encode (l ++ e))
    (he : e ∈ endings) (hc : c ∉ "@cert-authority * ".toList) (hl : c ∉ l.toList) :
    c ∉ k.knownHostsEntry.toList := by
  rw [knownHostsEntry_of_bytes hk he, String.toList_append, List.mem_append]
  intro h
  cases h with
  | inl h => exact hc h
  | inr h =>
    rw [String.toList_ofList] at h
    exact hl ((Text.trimEnd_prefix l.toList).subset h)

/-- What holds of a key with the line `l` and the ending `e`. -/
structure Kept (k : Read ofText) (l e : String) : Prop where
  bytes : k.bytes = Utf8.encode (l ++ e)
  text : k.text = l ++ e
  again : parse ofText k.bytes = .ok k
  variants : ∀ e' ∈ endings, ∃ k', parse ofText (Utf8.encode (l ++ e')) = .ok k' ∧ k'.algorithm = k.algorithm ∧
    k'.fingerprint = k.fingerprint ∧ k'.comment = k.comment ∧ (k' = k ↔ e' = e)
  entry : k.knownHostsEntry = "@cert-authority * " ++ String.ofList (Text.trimEnd l.toList)
  no_newline : '\n' ∉ k.knownHostsEntry.toList
  no_return : '\r' ∉ k.knownHostsEntry.toList
  lines : Text.lines k.knownHostsEntry.toList = [k.knownHostsEntry.toList]
  reread : Text.trimEnd l.toList = l.toList →
    ∃ k', parse ofText (Utf8.encode (String.ofList (Text.trimEnd l.toList))) = .ok k' ∧
      k'.algorithm = k.algorithm ∧ k'.fingerprint = k.fingerprint

private theorem kept {k : Read ofText} {l e : String} (hl : IsLine l) (he : e ∈ endings)
    (h : parse ofText (Utf8.encode (l ++ e)) = .ok k) : k.Kept l e := by
  have hk : k.bytes = Utf8.encode (l ++ e) := bytes_of_parse h
  have hline : ofText l = .ok k.line := by
    rw [← hl.lineOf_append he ofText, ← hk]
    exact k.line_eq
  have variant : ∀ e' ∈ endings, ∃ k', parse ofText (Utf8.encode (l ++ e')) = .ok k' ∧ k'.line = k.line := by
    intro e' he'
    apply exists_parse
    rw [hl.lineOf_append he', hline]
  have no_newline := not_mem_entry hk he (by decide) hl.no_newline
  constructor
  case bytes => exact hk
  case text => rw [Read.text, hk, Utf8.decodeLossy_encode]
  case again => exact k.parse_bytes
  case variants =>
    intro e' he'
    obtain ⟨k', hp, hk'⟩ := variant e' he'
    refine ⟨k', hp, ?_, ?_, ?_, ?_⟩
    · rw [algorithm, hk', algorithm]
    · rw [fingerprint, hk', fingerprint]
    · rw [comment, hk', comment]
    · rw [eq_iff_bytes, bytes_of_parse hp, hk]
      constructor
      · intro hb
        exact (hl.encode_inj hl he' he hb).2
      · intro hb
        rw [hb]
  case entry => exact knownHostsEntry_of_bytes hk he
  case no_newline => exact no_newline
  case no_return => exact not_mem_entry hk he (by decide) hl.no_return
  case lines =>
    apply Text.lines_single no_newline
    rw [knownHostsEntry_eq, String.toList_append]
    intro h
    exact absurd (List.append_eq_nil_iff.mp h).1 (by decide)
  case reread =>
    intro ht
    obtain ⟨k', hp, hk'⟩ := variant "" (by decide)
    rw [String.append_empty] at hp
    refine ⟨k', ?_, ?_, ?_⟩
    · rw [ht, String.ofList_toList]
      exact hp
    · rw [algorithm, hk', algorithm]
    · rw [fingerprint, hk', fingerprint]

end Key.Read

namespace PublicKey

open Key (IsLine Spells endings)

/-- A key is exactly one line with an ending or none, by whatever reads the line; it is kept byte for byte, says
the same with every ending, and stands on one line of the known hosts. -/
theorem parse_exactly_one_line :
    (∀ (ofText : String → Except Key.Fault Key.Line) (bs : Bytes) (line : Key.Line),
      Key.lineOf ofText bs = .ok line ↔ ∃ l, Spells bs l ∧ ofText l = .ok line) ∧
    (∀ (ofText : String → Except Key.Fault Key.Line) (l : String), IsLine l →
      ∀ e ∈ endings, Key.lineOf ofText (Utf8.encode (l ++ e)) = ofText l) ∧
    (∀ (ofText : String → Except Key.Fault Key.Line) (bs : Bytes),
      (∃ k, Key.Read.parse ofText bs = .ok k) ↔ ∃ l, Spells bs l ∧ ∃ line, ofText l = .ok line) ∧
    ∀ (ofText : String → Except Key.Fault Key.Line) (bs : Bytes) (k : Key.Read ofText), Key.Read.parse ofText bs = .ok k →
      ∃ l, ∃ e ∈ endings, IsLine l ∧ bs = Utf8.encode (l ++ e) ∧ k.Kept l e := by
  refine ⟨Key.lineOf_eq_ok_iff, fun ofText l hl e he => hl.lineOf_append he ofText, ?_, ?_⟩
  · intro ofText bs
    constructor
    · intro ⟨k, h⟩
      obtain ⟨l, hl, ht⟩ := k.exists_spelling
      rw [Key.Read.bytes_of_parse h] at hl
      exact ⟨l, hl, k.line, ht⟩
    · intro ⟨l, hl, line, ht⟩
      obtain ⟨k, h, -⟩ := Key.Read.exists_parse ((Key.lineOf_eq_ok_iff _ bs line).mpr ⟨l, hl, ht⟩)
      exact ⟨k, h⟩
  · intro ofText bs k h
    obtain ⟨l, ⟨hl, e, he, hb⟩, -⟩ := k.exists_spelling
    rw [Key.Read.bytes_of_parse h] at hb
    rw [hb] at h
    exact ⟨l, e, he, hl, hb, Key.Read.kept hl he h⟩

private def commentedLine : String :=
  "ssh-ed25519 AAAAC3NzaC1lZDI1NTE5AAAAIHwXYROIrAfv9RS4LyCPdsPGy6EqM+vncrrZXzVJbNuV john@doe"

/-- A key whose line ends in a carriage return and a newline. -/
theorem parse_commentedLine : ∃ k, parse (Utf8.encode (commentedLine ++ "\r\n")) = .ok k ∧
    k.Kept commentedLine "\r\n" := by
  have hl : IsLine commentedLine := ⟨by decide, by decide, 's', by decide, by decide⟩
  have he : "\r\n" ∈ endings := by decide
  have hline : ∃ line, Key.Line.ofText commentedLine = .ok line := by
    have ok : (Key.Line.ofText commentedLine).isOk = true := by decide +kernel
    cases h : Key.Line.ofText commentedLine with
    | ok line => exact ⟨line, rfl⟩
    | error fault =>
      rw [h] at ok
      cases ok
  obtain ⟨-, -, accepts, keeps⟩ := parse_exactly_one_line
  obtain ⟨k, hk⟩ := (accepts _ _).mpr ⟨commentedLine, ⟨hl, "\r\n", he, rfl⟩, hline⟩
  obtain ⟨l, e, he', hl', hb, kept⟩ := keeps _ _ k hk
  obtain ⟨rfl, rfl⟩ := hl.encode_inj hl' he he' hb
  exact ⟨k, hk, kept⟩

end PublicKey

end SshAuthority
