import SshAuthority.Proofs.Config.Commit
import SshAuthority.Proofs.Config.Edit
/-!
# Batches of edits

Edits that do not take each other's lines can be applied one after the other: the line of each stands in
the file in the end, and applying all of them again changes nothing.
-/
namespace SshAuthority.Config.Edit

variable {d e : Edit} {edits : List Edit} {content l : Bytes}

/-! ## The lines an edit leaves -/

theorem lineBytes_ne_nil (e : Edit) : e.lineBytes ≠ [] := by simp [lineBytes_eq]

theorem begins_lineBytes (e : Edit) : e.begins e.lineBytes = true := by
  have hp : e.spelled.isPrefixOf e.lineBytes = true := List.isPrefixOf_iff_prefix.mpr (spelled_first e)
  rw [begins, hp, Bool.true_and]
  rcases e with ⟨mode, key, value⟩
  cases mode with
  | add => rfl
  | only => simp [spelled, lineBytes_eq, mayFollow]

theorem accepts_lineBytes (e : Edit) : e.accepts e.lineBytes = true := by
  rw [accepts, begins_lineBytes, Bool.or_true]

theorem not_accepts_nil (h : e.key ≠ "") : e.accepts [] = false := by
  have hs : e.spelled ≠ [] := by
    rw [spelled]
    split
    · exact lineBytes_ne_nil e
    · exact Utf8.encode_ne_nil h
  have hp : e.spelled.isPrefixOf [] = false := by
    rw [Bool.eq_false_iff]
    intro hp
    exact hs (List.prefix_nil.mp (List.isPrefixOf_iff_prefix.mp hp))
  simp [accepts, begins, hp]

theorem ne_nil_of_accepts (h : e.key ≠ "") (ha : e.accepts l = true) : l ≠ [] := by
  rintro rfl
  rw [not_accepts_nil h] at ha
  cases ha

theorem lines_append_newlines (text : Bytes) (n : Nat) :
    lines (text ++ List.replicate n 10) = lines text ++ List.replicate n [] := by
  induction n with
  | zero => simp
  | succ n ih =>
    have hs : text ++ List.replicate (n + 1) 10 = (text ++ List.replicate n 10) ++ 10 :: [] := by
      rw [List.replicate_succ', List.append_assoc]
    rw [hs, lines_append, ih, List.append_assoc, List.replicate_succ']
    rfl

theorem eq_withoutNewlines_append (content : Bytes) :
    ∃ n, content = withoutNewlines content ++ List.replicate n 10 := by
  have hr := List.takeWhile_append_dropWhile (p := (· == (10 : UInt8))) (l := content.reverse)
  have ht : ∀ b ∈ content.reverse.takeWhile (· == 10), b = 10 := by
    intro b hb
    simpa using List.all_eq_true.mp List.all_takeWhile b hb
  refine ⟨(content.reverse.takeWhile (· == 10)).length, ?_⟩
  have hc := congrArg List.reverse hr
  rw [List.reverse_append, List.reverse_reverse, List.eq_replicate_of_mem ht, List.reverse_replicate] at hc
  rw [withoutNewlines, hc]

theorem mem_lines_withoutNewlines (content : Bytes) (hl : l ≠ []) :
    l ∈ lines (withoutNewlines content) ↔ l ∈ lines content := by
  obtain ⟨n, hn⟩ := eq_withoutNewlines_append content
  conv_rhs => rw [hn, lines_append_newlines]
  simp [hl]

theorem mem_lines_append (h : e.IsLine) (hl : l ≠ []) :
    l ∈ lines (e.append content) ↔ l ∈ lines content ∨ l = e.lineBytes := by
  have hend : lines (e.lineBytes ++ [10]) = [e.lineBytes, []] := by
    rw [lines_append, lines_single h.newline_not_mem]
    rfl
  rw [← mem_lines_withoutNewlines content hl, append]
  by_cases hf : withoutNewlines content = []
  · simp only [hf, List.isEmpty_nil, if_true, List.nil_append]
    rw [hend]
    simp [hl, lines]
  · have hs : withoutNewlines content ++ [10] ++ e.lineBytes ++ [10] =
        withoutNewlines content ++ 10 :: (e.lineBytes ++ [10]) := by simp
    simp only [List.isEmpty_iff, hf, if_false]
    rw [hs, lines_append, hend]
    simp [hl]

private theorem mem_lines_rewritten (h : e.IsLine) (ha : (lines content).any e.accepts = true) :
    l ∈ lines (unlines ((lines content).map (Pattern.rewrite e.accepts e.lineBytes))) ↔
      l = e.lineBytes ∨ (l ∈ lines content ∧ e.accepts l = false) := by
  have hnewline : ∀ m ∈ (lines content).map (Pattern.rewrite e.accepts e.lineBytes), (10 : UInt8) ∉ m := by
    intro m hm
    obtain ⟨k, hk, rfl⟩ := List.mem_map.mp hm
    rw [Pattern.rewrite]
    split
    · exact h.newline_not_mem
    · exact newline_not_mem_lines hk
  rw [lines_unlines hnewline (by simpa using lines_ne_nil content), List.mem_map]
  constructor
  · rintro ⟨k, hk, rfl⟩
    rw [Pattern.rewrite]
    cases hacc : e.accepts k with
    | true => exact .inl rfl
    | false => exact .inr ⟨hk, hacc⟩
  · rintro (rfl | ⟨hmem, hrej⟩)
    · obtain ⟨m, hm, hacc⟩ := List.any_eq_true.mp ha
      exact ⟨m, hm, by rw [Pattern.rewrite, hacc]; rfl⟩
    · exact ⟨l, hmem, by rw [Pattern.rewrite, hrej]; rfl⟩

/-- The lines of a file that an edit was applied to, empty ones apart. -/
theorem mem_lines_apply (h : e.IsLine) (hl : l ≠ []) :
    l ∈ lines (e.apply content) ↔ l = e.lineBytes ∨ (l ∈ lines content ∧ e.accepts l = false) := by
  rw [apply_eq h]
  by_cases ha : (lines content).any e.accepts = true
  · rw [if_pos ha]
    exact mem_lines_rewritten h ha
  · rw [if_neg ha, mem_lines_append h hl, or_comm]
    have hnone : l ∈ lines content → e.accepts l = false := by
      intro hm
      rw [Bool.eq_false_iff]
      intro hacc
      exact ha (List.any_eq_true.mpr ⟨l, hm, hacc⟩)
    constructor
    · rintro (rfl | hm)
      · exact .inl rfl
      · exact .inr ⟨hm, hnone hm⟩
    · rintro (rfl | ⟨hm, -⟩)
      · exact .inl rfl
      · exact .inr hm

/-! ## Settled edits -/

/-- The line of an edit stands in the file, and the edit would put it nowhere else. -/
structure Settled (e : Edit) (content : Bytes) : Prop where
  present : e.lineBytes ∈ lines content
  alone : ∀ l ∈ lines content, e.accepts l = true → l = e.lineBytes

theorem settled_apply (h : e.IsLine) (hk : e.key ≠ "") (content : Bytes) : e.Settled (e.apply content) := by
  refine ⟨(mem_lines_apply h (lineBytes_ne_nil e)).mpr (.inl rfl), ?_⟩
  intro l hl ha
  rcases (mem_lines_apply h (ne_nil_of_accepts hk ha)).mp hl with rfl | ⟨-, hrej⟩
  · rfl
  · rw [ha] at hrej
    cases hrej

theorem Settled.apply (hs : e.Settled content) (hk : e.key ≠ "") (h : d.IsLine)
    (hde : d.accepts e.lineBytes = true → d.lineBytes = e.lineBytes)
    (hed : e.accepts d.lineBytes = true → e.lineBytes = d.lineBytes) : e.Settled (d.apply content) := by
  constructor
  · apply (mem_lines_apply h (lineBytes_ne_nil e)).mpr
    cases ha : d.accepts e.lineBytes with
    | true => exact .inl (hde ha).symm
    | false => exact .inr ⟨hs.present, rfl⟩
  · intro l hl ha
    rcases (mem_lines_apply h (ne_nil_of_accepts hk ha)).mp hl with rfl | ⟨hm, -⟩
    · exact (hed ha).symm
    · exact hs.alone l hm ha

theorem Settled.apply_eq_self (hs : e.Settled content) (h : e.IsLine) : e.apply content = content := by
  have hany : (lines content).any e.accepts = true :=
    List.any_eq_true.mpr ⟨e.lineBytes, hs.present, accepts_lineBytes e⟩
  have hmap : (lines content).map (Pattern.rewrite e.accepts e.lineBytes) = lines content := by
    conv_rhs => rw [← List.map_id (lines content)]
    apply List.map_congr_left
    intro l hl
    rw [Pattern.rewrite]
    split
    case isTrue ha => exact (hs.alone l hl ha).symm
    case isFalse => rfl
  rw [apply_eq h, if_pos hany, hmap, unlines_lines]

/-! ## Batches -/

/-- Edits that put one line each, under a key. -/
def WellFormed (edits : List Edit) : Prop := ∀ e ∈ edits, e.key ≠ "" ∧ e.IsLine

/-- No edit takes the line of another for its own, unless the two lines are the same. -/
def Compatible (edits : List Edit) : Prop :=
  ∀ d ∈ edits, ∀ e ∈ edits, d.accepts e.lineBytes = true → d.lineBytes = e.lineBytes

instance (edits : List Edit) : Decidable (WellFormed edits) :=
  inferInstanceAs (Decidable (∀ e ∈ edits, _))

instance (edits : List Edit) : Decidable (Compatible edits) :=
  inferInstanceAs (Decidable (∀ d ∈ edits, ∀ e ∈ edits, _))

theorem applyAll_cons (e : Edit) (edits : List Edit) (content : Bytes) :
    applyAll (e :: edits) content = applyAll edits (e.apply content) := rfl

private theorem Settled.applyAll (hs : e.Settled content) (hk : e.key ≠ "")
    (h : ∀ d ∈ edits, d.IsLine ∧ (d.accepts e.lineBytes = true → d.lineBytes = e.lineBytes) ∧
      (e.accepts d.lineBytes = true → e.lineBytes = d.lineBytes)) : e.Settled (applyAll edits content) := by
  induction edits generalizing content with
  | nil => exact hs
  | cons d edits ih =>
    obtain ⟨hd, hde, hed⟩ := h d List.mem_cons_self
    exact ih (hs.apply hk hd hde hed) fun f hf => h f (List.mem_cons_of_mem d hf)

/-- Once a batch was applied all its edits are settled. -/
theorem settled_applyAll (h : WellFormed edits) (hc : Compatible edits) (content : Bytes) :
    ∀ e ∈ edits, e.Settled (applyAll edits content) := by
  induction edits generalizing content with
  | nil => simp
  | cons d edits ih =>
    have htail : WellFormed edits := fun e he => h e (List.mem_cons_of_mem d he)
    have hctail : Compatible edits := fun e he f hf =>
      hc e (List.mem_cons_of_mem d he) f (List.mem_cons_of_mem d hf)
    intro e he
    rcases List.mem_cons.mp he with rfl | he
    · obtain ⟨hk, hline⟩ := h e List.mem_cons_self
      apply (settled_apply hline hk content).applyAll hk
      intro f hf
      have hf' := List.mem_cons_of_mem e hf
      exact ⟨(h f hf').2, hc f hf' e List.mem_cons_self, hc e List.mem_cons_self f hf'⟩
    · exact ih htail hctail (d.apply content) e he

theorem applyAll_of_settled (h : WellFormed edits) (hs : ∀ e ∈ edits, e.Settled content) :
    applyAll edits content = content := by
  induction edits with
  | nil => rfl
  | cons d edits ih =>
    have hd := hs d List.mem_cons_self
    rw [applyAll_cons, hd.apply_eq_self (h d List.mem_cons_self).2]
    exact ih (fun e he => h e (List.mem_cons_of_mem d he)) fun e he => hs e (List.mem_cons_of_mem d he)

private theorem attempt_settled {W : Type} (site : Site W) (check : Checker W) {w : W}
    (hs : applyAll edits content = content) (hw : site.standing w = .file content) :
    let a := site.attempt check ⟨site.path, edits⟩ w
    site.Recounts check a ∧ a.deeds = [] ∧ site.standing a.after = .file content ∧
      match (site.files.read site.path w).1 with
      | .ok _ => a.result = .ok .unchanged ∧ a.left = ⟨site.path, []⟩
      | .error fault => a.result = .error (.read site.path fault) ∧ a.left = ⟨site.path, edits⟩ := by
  rcases hr : site.files.read site.path w with ⟨fault | former, w'⟩
  · obtain ⟨ha, hrecounts⟩ := Site.attempt_unread check edits hr
    rw [ha]
    exact ⟨hrecounts, rfl, (site.read_error hr).trans hw, rfl, rfl⟩
  · obtain ⟨hformer, hstands⟩ := site.read_ok hr
    rw [hw] at hformer hstands
    obtain rfl : content = former := Standing.file.inj hformer
    obtain ⟨ha, hrecounts⟩ := Site.attempt_idle check edits hr hs
    rw [ha]
    exact ⟨hrecounts, rfl, hstands, rfl, rfl⟩

/-- A batch whose edits do not take each other's lines loses none of them, and committing it again is idle. -/
theorem recommit_is_idle (h : WellFormed edits) (hc : Compatible edits) (content : Bytes) :
    let result := applyAll edits content
    (∀ e ∈ edits, e.lineBytes ∈ lines result) ∧ applyAll edits result = result ∧
      ∀ {W : Type} (site : Site W) (check : Checker W) (w : W), site.standing w = .file result →
        let a := site.attempt check ⟨site.path, edits⟩ w
        site.Recounts check a ∧ a.deeds = [] ∧ site.standing a.after = .file result ∧
          match (site.files.read site.path w).1 with
          | .ok _ => a.result = .ok .unchanged ∧ a.left = ⟨site.path, []⟩
          | .error fault => a.result = .error (.read site.path fault) ∧ a.left = ⟨site.path, edits⟩ := by
  have hsettled := settled_applyAll h hc content
  have hsame := applyAll_of_settled h hsettled
  exact ⟨fun e he => (hsettled e he).present, hsame, fun site check w hw => attempt_settled site check hsame hw⟩

private def sampleBatch : List Edit :=
  [⟨.only, "Port", "22"⟩, ⟨.add, "HostKey", "/a"⟩, ⟨.add, "HostKey", "/b"⟩, ⟨.add, "Port", "22"⟩]

/-- A file with lines that are commented out, longer than an edit's, no text, and empty at the end. -/
private def sampleContent : Bytes := Utf8.encode "#Port=21\nHostKey /a2\nPorts 1" ++ [10, 195, 10, 10]

private def sampleResult : Bytes :=
  Utf8.encode "Port 22\nHostKey /a\nPorts 1" ++ [10, 195, 10] ++ Utf8.encode "HostKey /b\n"

private def samplePath : Bytes := Utf8.encode "/sshd_config"

private def sampleDisk : Host.Disk :=
  Host.Disk.addFile ⟨[], []⟩ [Utf8.encode "sshd_config"] sampleResult 0o644

private def sampleChecker : Checker Host.Disk := fun _ => pure (.error (.complaint "refused"))

theorem recommit_is_idle_on_disk :
    WellFormed sampleBatch ∧ Compatible sampleBatch ∧ applyAll sampleBatch sampleContent = sampleResult ∧
      sampleResult ≠ sampleContent ∧ (∀ e ∈ sampleBatch, e.lineBytes ∈ lines sampleResult) ∧
      applyAll sampleBatch sampleResult = sampleResult ∧
      (let a := (Site.ofDisk samplePath).attempt sampleChecker ⟨samplePath, sampleBatch⟩ sampleDisk
      a.deeds = [] ∧ a.result = .ok .unchanged) := by
  have hwell : WellFormed sampleBatch := by decide +kernel
  have hcompatible : Compatible sampleBatch := by decide +kernel
  have hresult : applyAll sampleBatch sampleContent = sampleResult := by decide +kernel
  obtain ⟨hlines, hsame, hcommit⟩ := recommit_is_idle hwell hcompatible sampleContent
  rw [hresult] at hlines hsame hcommit
  have hstands : (Site.ofDisk samplePath).standing sampleDisk = .file sampleResult := by decide +kernel
  have hread : ((Site.ofDisk samplePath).files.read samplePath sampleDisk).1 = .ok sampleResult := by
    decide +kernel
  obtain ⟨-, hdeeds, -, hidle⟩ := hcommit (Site.ofDisk samplePath) sampleChecker sampleDisk hstands
  have hpath : (Site.ofDisk samplePath).path = samplePath := rfl
  rw [hpath, hread] at hidle
  exact ⟨hwell, hcompatible, hresult, by decide +kernel, hlines, hsame, hdeeds, hidle.1⟩

end SshAuthority.Config.Edit
