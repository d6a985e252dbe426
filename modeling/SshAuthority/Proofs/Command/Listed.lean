import SshAuthority.Proofs.Command.Lines
import SshAuthority.Proofs.Command.Trust
import SshAuthority.Proofs.Key.Line
/-!
# Texts that are lines

A text that is in a file is not added to it, also where it is in a comment or in a longer line. So a text is a line
afterwards if it was one or was not there at all, and only then, and the key of an authority that is told to be
trusted may be in no line that counts.
-/
namespace SshAuthority

/-! ## Lines that hold a text -/

/-- A text without a newline is in a file where it is in a line of it. -/
theorem Command.infix_iff_exists_line {content text : Bytes} (ht : text ≠ []) (hn : newline ∉ text) :
    text <:+: content ↔ ∃ line ∈ fileLines content, text <:+: line := by
  have hten : (10 : UInt8) ∉ text := hn
  have hlines : text <:+: content ↔ ∃ line ∈ Config.lines content, text <:+: line := by
    induction content using Config.byLines with
    | last l hl => simp [Config.lines_single hl]
    | more l content hl ih =>
      rw [Config.lines_append, Config.lines_single hl, infix_append_cons_iff ht hten, ih]
      simp
  have hempty : ¬text <:+: [] := fun h => ht (List.infix_nil.mp h)
  rw [hlines]
  simp only [fileLines]
  split
  case isTrue hl =>
    obtain ⟨front, hfront⟩ := List.getLast?_eq_some_iff.mp hl
    simp [hfront, hempty]
  case isFalse => rfl

/-- A line that counts: there is something behind its blanks, and it is no comment. -/
def Command.counts (line : Bytes) : Bool :=
  match line.dropWhile fun b => b == 32 || b == 9 with
  | [] => false
  | b :: _ => b != 35

namespace PublicKey

open Command (OneLine counts lineText newline lineText_of_not_mem lineText_ended)

private theorem ended_line {front : Bytes} (hn : newline ∉ front) {e : String} (he : e ∈ Key.endings) :
    OneLine (front ++ Utf8.encode e) ∧ front <+: lineText (front ++ Utf8.encode e) := by
  have hreturn : front ++ Utf8.encode "\r\n" = front ++ [13] ++ [newline] := by
    rw [List.append_assoc]
    rfl
  simp only [Key.endings, List.mem_cons, List.not_mem_nil, or_false] at he
  rcases he with rfl | rfl | rfl
  · have hnone : front ++ Utf8.encode "" = front := List.append_nil front
    rw [hnone, OneLine, lineText_of_not_mem hn]
    exact ⟨fun h => hn (List.dropLast_subset front h), List.prefix_rfl⟩
  · have hended : front ++ Utf8.encode "\n" = front ++ [newline] := rfl
    rw [hended, OneLine, lineText_ended, List.dropLast_concat]
    exact ⟨hn, List.prefix_rfl⟩
  · rw [hreturn, OneLine, lineText_ended, List.dropLast_concat]
    exact ⟨by simpa [newline] using hn, List.prefix_append _ _⟩

theorem line_counts (key : PublicKey) : OneLine key.bytes ∧ counts (lineText key.bytes) = true := by
  obtain ⟨l, ⟨hl, e, he, hb⟩, hline⟩ := (Key.lineOf_eq_ok_iff _ _ _).mp key.line_eq
  obtain ⟨b, rest, hfirst, hword⟩ := Key.Line.head_of_ofText hline
  rw [Utf8.encode_append] at hb
  obtain ⟨one, tail, htext⟩ := ended_line (Utf8.newline_not_mem_encode hl.no_newline) he
  rw [← hb] at one htext
  refine ⟨one, ?_⟩
  have hblank : b ≠ 32 ∧ b ≠ 9 ∧ b ≠ 35 := by
    refine ⟨?_, ?_, ?_⟩ <;>
    · rintro rfl
      revert hword
      decide
  rw [← htext, hfirst]
  simp [counts, hblank]

end PublicKey

/-! ## Lines of what stands at a path -/

def Config.Standing.lines (s : Standing) : List Bytes := Command.fileLines (s.content?.getD [])

namespace Command
open Config (Standing)
open Host (Scene Surroundings Watched Disk)

/-- What adding a text to a file comes to, if it goes well. -/
structure Listing (text former : Bytes) (s' : Standing) (done : Bool) : Prop where
  done_iff : done = true ↔ ¬text <:+: former
  lines : s'.lines = fileLines former ++ if done then [text] else []
  missing_iff : text ∉ s'.lines ↔ text <:+: former ∧ text ∉ fileLines former

theorem Added.listing {path entry : Bytes} {s s' : Standing} {acts : List Host.Act} {done : Bool}
    (h : Added path entry s s' acts (.ok done)) (one : OneLine entry) :
    ∃ former, s.content? = some former ∧ Listing (lineText entry) former s' done := by
  have hn := one.newline_not_mem
  cases h with
  | @present former hs hi =>
    have hlines : s.lines = fileLines former := by rw [Standing.lines, hs, Option.getD_some]
    exact ⟨former, hs, by simp [hi], by simpa using hlines, by simp [hlines, hi]⟩
  | @added former hs hi =>
    have hlines := fileLines_addition former hn
    exact ⟨former, hs, by simp [hi], hlines, by simp [Standing.lines, Standing.content?, hlines, hi]⟩

theorem Course.users {s : Settings} {key : PublicKey} {f f' : TrustFiles} {acts : List Host.Act}
    (h : Course s key f f' acts (.ok ())) :
    ∃ more done, Added (Utf8.encode s.trustedAuthorities) key.bytes f.users f'.users more (.ok done) := by
  cases h with
  | through _ hu => exact ⟨_, _, hu⟩

/-- A run that goes through says that the key of the authority is trusted. The key is a line that counts of the
authorities then, unless it was somewhere in them, and in longer lines only. -/
theorem trusted_key_is_line_iff {W : Type} (scene : Scene W) :
    (∀ {path entry : Bytes} {w w' : W} {done : Bool}, scene.watches path → OneLine entry →
      addLine scene.host.toFiles path entry w = some (.ok done, w') →
        ∃ former, (scene.standing path w).content? = some former ∧
          Listing (lineText entry) former (scene.standing path w') done) ∧
    ∀ (s : Settings) {r : Reach} {w w' : W}, scene.Separate (trustPaths s) →
      trust scene.host s r w = some (.ok (), w') →
        ∃ key v former done, fetch scene.host s r w = some (.ok key, v) ∧
          counts (lineText key.bytes) = true ∧ (trustFiles scene s w).users.content? = some former ∧
          Listing (lineText key.bytes) former (trustFiles scene s w').users done ∧
          (lineText key.bytes ∉ (trustFiles scene s w').users.lines ↔ lineText key.bytes ∉ fileLines former ∧
            ∃ line ∈ fileLines former, lineText key.bytes <:+: line) := by
  constructor
  · intro path entry w w' done hp one h
    obtain ⟨acts, ends, -⟩ := addLine_added hp h
    exact ends.listing one
  · intro s r w w' hs h
    obtain ⟨answer, v, hfetch, -, h⟩ := trust_ends hs h
    cases answer with
    | error fault => cases h.1
    | ok key =>
      obtain ⟨acts, course, -⟩ := h
      obtain ⟨one, active⟩ := key.line_counts
      obtain ⟨_, done, ends⟩ := course.users
      obtain ⟨former, hformer, listing⟩ := ends.listing one
      refine ⟨key, v, former, done, hfetch, active, hformer, listing, ?_⟩
      rw [listing.missing_iff, infix_iff_exists_line (lineText_bytes_ne_nil key) one.newline_not_mem, and_comm]

/-! ## A key in a comment -/

private abbrev tellingScene : Scene Watched := Watched.scene sampleAround

private def usersPath : Bytes := Utf8.encode Settings.usual.trustedAuthorities

private def toldLine : Bytes :=
  Utf8.encode "ssh-ed25519 AAAAC3NzaC1lZDI1NTE5AAAAIHwXYROIrAfv9RS4LyCPdsPGy6EqM+vncrrZXzVJbNuV"

private def commented : Bytes := Utf8.encode "# " ++ toldLine ++ [newline]

/-- A host that has the key in a comment of its authorities. -/
private def commentedHost : Watched :=
  let etc : List Bytes := [Utf8.encode "etc", Utf8.encode "ssh"]
  ((Disk.addFile ⟨[], []⟩ (etc ++ [Utf8.encode "trusted_cas"]) commented 0o644).addFile
    (etc ++ [Utf8.encode "sshd_config"]) (Utf8.encode "Port 22\n") 0o644, [])

private theorem sampleKey_bytes : Authority.sampleKey.bytes = toldLine := by decide +kernel

private theorem lineText_told : lineText toldLine = toldLine := by decide +kernel

private theorem add_commented : ∃ w', addLine tellingScene.host.toFiles usersPath toldLine commentedHost =
    some (.ok false, w') ∧ tellingScene.standing usersPath w' = .file commented := by
  have goes : Watched.reaches (addLine tellingScene.host.toFiles usersPath toldLine commentedHost) false
      (fun w => tellingScene.standing usersPath w = .file commented) = true := by decide +kernel
  simpa using Watched.exists_of_reaches goes

private theorem trust_commented :
    ∃ w', trust tellingScene.host Settings.usual sampleReach commentedHost = some (.ok (), w') ∧
      (trustFiles tellingScene Settings.usual w').users = .file commented := by
  have goes : Watched.reaches (trust tellingScene.host Settings.usual sampleReach commentedHost) ()
      (fun w => (trustFiles tellingScene Settings.usual w).users = .file commented) = true := by decide +kernel
  simpa using Watched.exists_of_reaches goes

theorem trusted_key_is_line_iff_when_commented :
    (∃ w' former, addLine tellingScene.host.toFiles usersPath toldLine commentedHost = some (.ok false, w') ∧
      (tellingScene.standing usersPath commentedHost).content? = some former ∧
      Listing toldLine former (tellingScene.standing usersPath w') false) ∧
    ∃ w' former done, trust tellingScene.host Settings.usual sampleReach commentedHost = some (.ok (), w') ∧
      counts toldLine = true ∧ (trustFiles tellingScene Settings.usual commentedHost).users.content? = some former ∧
      Listing toldLine former (trustFiles tellingScene Settings.usual w').users done ∧
      (toldLine ∉ (trustFiles tellingScene Settings.usual w').users.lines ↔
        toldLine ∉ fileLines former ∧ ∃ line ∈ fileLines former, toldLine <:+: line) := by
  have separate : tellingScene.Separate (trustPaths Settings.usual) := by
    refine ⟨?_, by decide +kernel⟩
    have plain : ∀ p ∈ trustPaths Settings.usual, Host.isPlain p = true := by decide +kernel
    exact plain
  obtain ⟨w', h, -⟩ := add_commented
  obtain ⟨v', h', -⟩ := trust_commented
  obtain ⟨adds, trusts⟩ := trusted_key_is_line_iff tellingScene
  obtain ⟨former, hformer, listing⟩ := adds (watched_apart separate).2.1 (by decide +kernel) h
  obtain ⟨key, v, former', done, hfetch, rest⟩ := trusts Settings.usual separate h'
  obtain rfl : Authority.sampleKey = key := by
    have he := (fetch_sample Settings.usual commentedHost).symm.trans hfetch
    exact Except.ok.inj (Prod.mk.inj (Option.some.inj he)).1
  rw [lineText_told] at listing
  rw [sampleKey_bytes, lineText_told] at rest
  exact ⟨⟨w', former, h, hformer, listing⟩, v', former', done, h', rest⟩

/-- Adding the key goes well, and so does a run, and the key is left in a comment. -/
theorem commented_key_is_no_line :
    OneLine toldLine ∧ lineText toldLine = Authority.sampleKey.bytes ∧
    (fetch tellingScene.host Settings.usual sampleReach commentedHost).map (·.1) = some (.ok Authority.sampleKey) ∧
    (∃ w', addLine tellingScene.host.toFiles usersPath toldLine commentedHost = some (.ok false, w') ∧
      toldLine ∉ (tellingScene.standing usersPath w').lines) ∧
    ∃ w', trust tellingScene.host Settings.usual sampleReach commentedHost = some (.ok (), w') ∧
      toldLine ∉ (trustFiles tellingScene Settings.usual w').users.lines := by
  have missing : toldLine ∉ (Standing.file commented).lines := by decide +kernel
  obtain ⟨w', h, hw⟩ := add_commented
  obtain ⟨v', h', hv⟩ := trust_commented
  exact ⟨by decide +kernel, lineText_told.trans sampleKey_bytes.symm, by rw [fetch_sample]; rfl,
    ⟨w', h, by rwa [hw]⟩, v', h', by rwa [hv]⟩

end Command

end SshAuthority
