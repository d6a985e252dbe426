import SshAuthority.Proofs.Config.Batch
/-!
# The rule of an edit, segment by segment

What an edit takes for its own, said of the bytes of one segment of a file, and what it makes of a file whatever
its bytes are.
-/
namespace SshAuthority.Config.Edit

variable {e : Edit} {live segment : Bytes}

/-- An edit that adds takes what starts with its line, live or commented out. One that is to be the only one takes
what is its key, or starts with it and a blank, a tab or an equals sign. -/
def Takes (e : Edit) (segment : Bytes) : Prop :=
  match e.mode with
  | .add => e.lineBytes <+: segment ∨ 35 :: e.lineBytes <+: segment
  | .only => ∃ live, (segment = live ∨ segment = 35 :: live) ∧
      (live = Utf8.encode e.key ∨ ∃ separator ∈ [32, 9, 61], Utf8.encode e.key ++ [separator] <+: live)

/-! ## What the rule accepts is what it takes -/

theorem begins_add (hm : e.mode = .add) : e.begins live = true ↔ e.lineBytes <+: live := by
  simp [begins, spelled, mayFollow, hm]

theorem mayFollow_only {rest : Bytes} :
    mayFollow .only rest = true ↔ rest = [] ∨ ∃ separator ∈ [32, 9, 61], [separator] <+: rest := by
  rcases rest with _ | ⟨b, rest⟩
  · simp [mayFollow]
  · simp [mayFollow, List.cons_prefix_cons]

theorem begins_only (hm : e.mode = .only) : e.begins live = true ↔
    live = Utf8.encode e.key ∨ ∃ separator ∈ [32, 9, 61], Utf8.encode e.key ++ [separator] <+: live := by
  rw [begins, spelled, hm, Bool.and_eq_true, List.isPrefixOf_iff_prefix, mayFollow_only]
  constructor
  · rintro ⟨⟨rest, rfl⟩, hrest⟩
    rw [List.drop_left] at hrest
    rcases hrest with rfl | ⟨separator, hs, hrest⟩
    · exact .inl (List.append_nil _)
    · exact .inr ⟨separator, hs, (List.prefix_append_right_inj _).mpr hrest⟩
  · rintro (rfl | ⟨separator, hs, rest, rfl⟩)
    · exact ⟨List.prefix_rfl, .inl (by simp)⟩
    · rw [List.append_assoc]
      refine ⟨List.prefix_append _ _, .inr ⟨separator, hs, ?_⟩⟩
      rw [List.drop_left]
      exact List.prefix_append _ _

theorem accepts_live : e.accepts segment = true ↔
    ∃ live, (segment = live ∨ segment = 35 :: live) ∧ e.begins live = true := by
  rw [accepts, Bool.or_eq_true, Bool.and_eq_true, beq_iff_eq]
  constructor
  · rintro (⟨hhead, hbegins⟩ | hbegins)
    · obtain ⟨live, rfl⟩ := List.head?_eq_some_iff.mp hhead
      exact ⟨live, .inr rfl, hbegins⟩
    · exact ⟨segment, .inl rfl, hbegins⟩
  · rintro ⟨live, rfl | rfl, hbegins⟩
    · exact .inr hbegins
    · exact .inl ⟨rfl, hbegins⟩

theorem accepts_iff : e.accepts segment = true ↔ e.Takes segment := by
  rw [accepts_live, Takes]
  split
  case h_1 hm =>
    simp only [begins_add hm]
    constructor
    · rintro ⟨live, rfl | rfl, hlive⟩
      · exact .inl hlive
      · exact .inr (List.cons_prefix_cons.mpr ⟨rfl, hlive⟩)
    · rintro (hlive | ⟨rest, rfl⟩)
      · exact ⟨segment, .inl rfl, hlive⟩
      · exact ⟨e.lineBytes ++ rest, .inr rfl, List.prefix_append _ _⟩
  case h_2 hm => simp only [begins_only hm]

instance : Decidable (e.Takes segment) := decidable_of_iff _ accepts_iff

/-! ## What an edit makes of a file -/

theorem rewrite_takes : Pattern.rewrite e.accepts e.lineBytes =
    fun segment => if e.Takes segment then e.lineBytes else segment := by
  funext segment
  simp only [Pattern.rewrite, accepts_iff]

theorem withoutNewlines_last (content : Bytes) : (withoutNewlines content).getLast? ≠ some 10 := by
  intro h
  rw [withoutNewlines, List.getLast?_reverse] at h
  have hdropped := List.head?_dropWhile_not (· == (10 : UInt8)) content.reverse
  simp [h] at hdropped

/-- Where a segment of the file is taken, all that are taken become the line of the edit and the other bytes stay
what they are. Where none is, the line is put behind the file, whose last newlines go. -/
theorem edits_by_segment (h : e.IsLine) (content : Bytes) :
    ((∃ segment ∈ lines content, e.Takes segment) → e.apply content =
      unlines ((lines content).map fun segment => if e.Takes segment then e.lineBytes else segment)) ∧
    ((∀ segment ∈ lines content, ¬ e.Takes segment) → ∃ front n, content = front ++ List.replicate n 10 ∧
      front.getLast? ≠ some 10 ∧ e.apply content = (if front = [] then [] else front ++ [10]) ++ e.lineBytes ++ [10]) := by
  have hany : (lines content).any e.accepts = true ↔ ∃ segment ∈ lines content, e.Takes segment := by
    simp only [List.any_eq_true, accepts_iff]
  rw [apply_eq h]
  refine ⟨fun hsome => ?_, fun hnone => ?_⟩
  · rw [if_pos (hany.mpr hsome), rewrite_takes]
  · have hn : ¬ (lines content).any e.accepts = true := by
      rw [hany]
      rintro ⟨segment, hmem, htakes⟩
      exact hnone segment hmem htakes
    obtain ⟨n, hcontent⟩ := eq_withoutNewlines_append content
    refine ⟨withoutNewlines content, n, hcontent, withoutNewlines_last content, ?_⟩
    rw [if_neg hn, append]
    simp only [List.isEmpty_iff]

private def sampleSegments : Bytes :=
  [35, 80, 111, 114, 116, 61, 50, 49, 10, 80, 111, 114, 116, 115, 32, 49, 10, 255, 80, 111, 114, 116, 32, 50, 10,
    80, 111, 114, 116, 10]

theorem edits_by_segment_sample :
    (Edit.mk .only "Port" "$1").apply sampleSegments =
      [80, 111, 114, 116, 32, 36, 49, 10, 80, 111, 114, 116, 115, 32, 49, 10, 255, 80, 111, 114, 116, 32, 50, 10,
        80, 111, 114, 116, 32, 36, 49, 10] ∧
    ∃ front n, sampleSegments = front ++ List.replicate n 10 ∧ front.getLast? ≠ some 10 ∧
      (Edit.mk .add "" "(.*").apply sampleSegments =
        (if front = [] then [] else front ++ [10]) ++ [32, 40, 46, 42] ++ [10] := by
  constructor
  · have happly := (edits_by_segment (e := .mk .only "Port" "$1") (by decide +kernel) sampleSegments).1
      (by decide +kernel)
    exact happly.trans (by decide +kernel)
  · have happly := (edits_by_segment (e := .mk .add "" "(.*") (by decide +kernel) sampleSegments).2
      (by decide +kernel)
    have hline : (Edit.mk .add "" "(.*").lineBytes = [32, 40, 46, 42] := by decide +kernel
    rwa [hline] at happly

end SshAuthority.Config.Edit
