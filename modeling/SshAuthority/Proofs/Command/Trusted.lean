import SshAuthority.Proofs.Command.Trust
/-!
# An authority that is trusted

Once a run went through, the key is in its two files and the daemon is told where. Trusting the same authority
again finds all of it there: it changes nothing, and does not have the daemon check anything.
-/
namespace SshAuthority.Command
open Config (Committed Standing)
open Host (Act Disk Scene Watched bind_eq_some pure_eq_some)

/-- The key is among the known hosts and among the authorities trusted for users, and the daemon is told of the
file that holds those. -/
structure Trusted (s : Settings) (key : PublicKey) (f : TrustFiles) : Prop where
  known : f.known.Holds (knownLine key)
  users : f.users.Holds (lineText key.bytes)
  config : ∃ content, f.config = .file content ∧ (trustEdit s).Settled content

variable {s : Settings} {key : PublicKey} {f f' : TrustFiles} {acts : List Act} {result : Except Fault Unit}

namespace Course

theorem trusted (hn : '\n' ∉ s.trustedAuthorities.toList) (h : Course s key f f' acts (.ok ())) :
    Trusted s key f' := by
  cases h with
  | through hk hu hc =>
    obtain ⟨former, -, rfl⟩ := hc.ok
    have settled := Config.Edit.settled_apply (trustEdit_isLine hn) (trustEdit_key s) former
    exact ⟨holds_knownLine hk, hu.holds (lineText_bytes_ne_nil key), _, rfl, settled⟩

/-- Where the key is trusted a run only reads. -/
theorem idle (hn : '\n' ∉ s.trustedAuthorities.toList) (ht : Trusted s key f) (h : Course s key f f' acts result) :
    f' = f ∧ ∀ act ∈ acts, act.isIdle = true := by
  have known : f.known.Holds (lineText (knownLine key)) := by
    rw [lineText_knownLine]
    exact ht.known
  obtain ⟨content, hconfig, settled⟩ := ht.config
  have same : Config.Edit.applyAll [trustEdit s] content = content := settled.apply_eq_self (trustEdit_isLine hn)
  obtain ⟨_, _, _⟩ := f
  obtain rfl := hconfig
  cases h with
  | atKnown hk =>
    obtain ⟨rfl, _, rfl⟩ := hk.of_holds known
    exact ⟨rfl, by simp [Act.isIdle]⟩
  | atUsers hk hu =>
    obtain ⟨rfl, _, rfl⟩ := hk.of_holds known
    obtain ⟨rfl, _, rfl⟩ := hu.of_holds ht.users
    exact ⟨rfl, by simp [Act.isIdle]⟩
  | atConfig hk hu hc | through hk hu hc =>
    obtain ⟨rfl, _, rfl⟩ := hk.of_holds known
    obtain ⟨rfl, _, rfl⟩ := hu.of_holds ht.users
    obtain ⟨rfl, _, rfl⟩ := hc.of_settled same
    exact ⟨rfl, by simp [Act.isIdle]⟩

end Course

variable {W : Type} {scene : Scene W} {w w' : W}

/-! ## Trusting again -/

private theorem trustForHosts_again (hr : scene.Readable) (hp : scene.watches (Utf8.encode s.knownHosts))
    (hh : (scene.standing (Utf8.encode s.knownHosts) w).Holds (lineText (knownLine key)))
    (h : trustForHosts scene.host s key w = some (result, w')) : result = .ok () := by
  obtain ⟨added, v, ha, h⟩ := bind_eq_some.mp h
  obtain rfl := addLine_again hr hp hh ha
  obtain ⟨_, _, -, h⟩ := bind_eq_some.mp h
  exact (pure_eq_some.mp h).1.symm

private theorem trustForUsers_again {content : Bytes} (hr : scene.Readable) (hs : scene.Separate (trustPaths s))
    (hh : (scene.standing (Utf8.encode s.trustedAuthorities) w).Holds (lineText key.bytes))
    (hc : scene.standing (Utf8.encode s.daemonConfig) w = .file content)
    (same : Config.Edit.applyAll [trustEdit s] content = content)
    (h : trustForUsers scene.host s key w = some (result, w')) : result = .ok () := by
  obtain ⟨-, hwu, hwc, -, -, huc⟩ := watched_apart hs
  obtain ⟨added, v, ha, h⟩ := bind_eq_some.mp h
  obtain rfl := addLine_again hr hwu hh ha
  obtain ⟨_, -, touched⟩ := addLine_added hwu ha
  rw [← touched.same _ hwc (Ne.symm huc)] at hc
  dsimp only at h
  rw [Config.Modifier.queue, if_pos (trustEdit_fits s)] at h
  obtain ⟨answer, u, hcommit, h⟩ := bind_eq_some.mp h
  rw [Config.commit_again hr hwc hc same hcommit] at h
  obtain ⟨_, _, -, h⟩ := bind_eq_some.mp h
  exact (pure_eq_some.mp h).1.symm

private theorem trustKey_again (hr : scene.Readable) (hs : scene.Separate (trustPaths s))
    (hn : '\n' ∉ s.trustedAuthorities.toList) (ht : Trusted s key (trustFiles scene s w))
    (h : trustKey scene.host s key w = some (result, w')) : result = .ok () := by
  obtain ⟨hwk, hwu, hwc, hku, hkc, -⟩ := watched_apart hs
  obtain ⟨content, hconfig, settled⟩ := ht.config
  obtain ⟨known, v, hknown, h⟩ := bind_eq_some.mp h
  obtain rfl := trustForHosts_again hr hwk (by rw [lineText_knownLine]; exact ht.known) hknown
  obtain ⟨_, _, -, touched, -⟩ := trustForHosts_ends hwk hknown
  refine trustForUsers_again hr hs ?_ ?_ (settled.apply_eq_self (trustEdit_isLine hn)) h
  · rw [touched.same _ hwu (Ne.symm hku)]
    exact ht.users
  · rw [touched.same _ hwc (Ne.symm hkc)]
    exact hconfig

/-- A run that goes through leaves the key trusted. A run with the same key later on, where the three files are as
they were left, changes nothing and has nothing checked; it goes through where files can be read. -/
theorem retrust_is_idle (scene : Scene W) (s : Settings) (hs : scene.Separate (trustPaths s))
    (hn : '\n' ∉ s.trustedAuthorities.toList) {r : Reach} (h : trust scene.host s r w = some (.ok (), w')) :
    ∃ key v, fetch scene.host s r w = some (.ok key, v) ∧ Trusted s key (trustFiles scene s w') ∧
      ∀ r' u v', trustFiles scene s u = trustFiles scene s w' → fetch scene.host s r' u = some (.ok key, v') →
        (∀ result u', trust scene.host s r' u = some (result, u') → LeftAlone scene s u u') ∧
        (scene.Prompt → scene.Readable → ∃ u', trust scene.host s r' u = some (.ok (), u')) := by
  obtain ⟨answer, v, hfetch, -, h⟩ := trust_ends hs h
  cases answer with
  | error fault => cases h.1
  | ok key =>
    obtain ⟨_, course, -⟩ := h
    have trusted := course.trusted hn
    refine ⟨key, v, hfetch, trusted, fun r' u v' hfiles hfetch' => ?_⟩
    rw [← hfiles] at trusted
    constructor
    · intro result u' h'
      obtain ⟨answer, v'', hfetch'', left, h'⟩ := trust_ends hs h'
      obtain ⟨rfl, rfl⟩ := Prod.mk.inj (Option.some.inj (hfetch'.symm.trans hfetch''))
      obtain ⟨acts, course, record⟩ := h'
      obtain ⟨same, idle⟩ := course.idle hn trusted
      obtain ⟨asked, recorded, idle'⟩ := left.idle
      refine ⟨same, asked ++ acts, by rw [record, recorded, List.append_assoc], ?_⟩
      intro act hact
      rcases List.mem_append.mp hact with hact | hact
      · exact idle' act hact
      · exact idle act hact
    · intro prompt readable
      rw [← (fetch_leaves hs hfetch').files] at trusted
      obtain ⟨⟨result, u'⟩, h'⟩ := trustKey_returns prompt s key v'
      obtain rfl := trustKey_again readable hs hn trusted h'
      exact ⟨u', by rw [trust_eq]; exact bind_eq_some.mpr ⟨_, _, hfetch', h'⟩⟩

private def rootSettings : Settings where
  daemonConfig := "/sshd_config"
  trustedAuthorities := "/cas"
  knownHosts := "/known"
  keygenProgram := "ssh-keygen"
  daemonProgram := "sshd"

/-- Known hosts that end in no newline, no file of authorities, and a configuration that tells of other ones. -/
private def rootDisk : Disk :=
  (Disk.addFile ⟨[], []⟩ [Utf8.encode "known"] (Utf8.encode "# hosts") 0o644).addFile [Utf8.encode "sshd_config"]
    (Utf8.encode "#TrustedUserCAKeys none\nPort 22\nTrustedUserCAKeys=/old\n") 0o644

theorem retrust_is_idle_on_disk : ∃ w' u',
    trust (Watched.scene sampleAround).host rootSettings sampleReach (rootDisk, []) = some (.ok (), w') ∧
      w'.2.length = 8 ∧
      Trusted rootSettings Authority.sampleKey (trustFiles (Watched.scene sampleAround) rootSettings w') ∧
      trust (Watched.scene sampleAround).host rootSettings sampleReach w' = some (.ok (), u') ∧
      LeftAlone (Watched.scene sampleAround) rootSettings w' u' := by
  have separate : (Watched.scene sampleAround).Separate (trustPaths rootSettings) := by
    refine ⟨?_, by decide +kernel⟩
    have plain : ∀ p ∈ trustPaths rootSettings, Host.isPlain p = true := by decide +kernel
    exact plain
  have first : Watched.reaches (trust (Watched.scene sampleAround).host rootSettings sampleReach (rootDisk, [])) ()
      (fun w => w.2.length = 8) = true := by decide +kernel
  obtain ⟨w', h, hlength⟩ := Watched.exists_of_reaches first
  obtain ⟨key, v, hfetch, trusted, again⟩ :=
    retrust_is_idle (Watched.scene sampleAround) rootSettings separate (by decide +kernel) h
  obtain rfl : Authority.sampleKey = key := by
    have he := (fetch_sample rootSettings (rootDisk, [])).symm.trans hfetch
    exact Except.ok.inj (Prod.mk.inj (Option.some.inj he)).1
  obtain ⟨unchanged, through⟩ := again sampleReach w' _ rfl (fetch_sample rootSettings w')
  obtain ⟨u', hu⟩ := through (Watched.scene_prompt _) (Watched.scene_readable _)
  exact ⟨w', u', h, by simpa using hlength, trusted, hu, unchanged _ _ hu⟩

end SshAuthority.Command
