import SshAuthority.Authority.Identity
import SshAuthority.Command.Names
import SshAuthority.Proofs.Host.Path
import SshAuthority.Proofs.Text.Decoding
/-!
# Files beside a private key

The public half of a private key and its certificate stand beside it: the two paths differ from the path of the
key in the ending of its last name only. Different keys have different certificates.
-/
namespace SshAuthority.Command
open Path (Component IsName components lead segments slash)
open Authority (defaultPublicPath)

/-! ## Segments of text -/

private theorem slash_not_mem_char {c : Char} (h : c ≠ '/') : slash ∉ String.utf8EncodeChar c :=
  fun hm => h (Utf8.char_of_mem_utf8EncodeChar (by decide) hm)

theorem exists_text_of_mem_segments {t : String} {s : Bytes} (h : s ∈ Path.segments (Utf8.encode t)) :
    ∃ part, s = Utf8.encode part := by
  rw [← String.ofList_toList (s := t), Utf8.encode_ofList] at h
  suffices hc : ∃ cs : List Char, s = cs.flatMap String.utf8EncodeChar by
    obtain ⟨cs, rfl⟩ := hc
    exact ⟨String.ofList cs, (Utf8.encode_ofList cs).symm⟩
  generalize t.toList = cs at h
  induction cs generalizing s with
  | nil => exact ⟨[], by simpa [Path.segments] using h⟩
  | cons c cs ih =>
    rw [List.flatMap_cons] at h
    by_cases hc : c = '/'
    · subst hc
      have hs : Path.segments (String.utf8EncodeChar '/' ++ cs.flatMap String.utf8EncodeChar) =
          [] :: Path.segments (cs.flatMap String.utf8EncodeChar) := rfl
      rw [hs] at h
      rcases List.mem_cons.mp h with rfl | h
      · exact ⟨[], rfl⟩
      · exact ih h
    · rcases hp : Path.segments (cs.flatMap String.utf8EncodeChar) with _ | ⟨first, rest⟩
      · exact absurd hp (Path.segments_ne_nil _)
      · rw [hp] at ih
        rw [Path.segments_append_front (slash_not_mem_char hc) hp] at h
        rcases List.mem_cons.mp h with rfl | h
        · obtain ⟨front, rfl⟩ := ih List.mem_cons_self
          exact ⟨c :: front, rfl⟩
        · exact ih (List.mem_cons_of_mem _ h)

theorem exists_text_joinSegments {ss : List Bytes} (h : ∀ s ∈ ss, ∃ t, s = Utf8.encode t) :
    ∃ t, Path.joinSegments ss = Utf8.encode t := by
  induction ss with
  | nil => exact ⟨"", rfl⟩
  | cons s rest ih =>
    obtain ⟨t, rfl⟩ := h s List.mem_cons_self
    cases rest with
    | nil => exact ⟨t, rfl⟩
    | cons s' rest =>
      obtain ⟨more, hmore⟩ := ih fun s hs => h s (List.mem_cons_of_mem _ hs)
      refine ⟨t ++ "/" ++ more, ?_⟩
      have hslash : Utf8.encode "/" = [slash] := by decide
      rw [Path.joinSegments_cons _ (List.cons_ne_nil s' rest), hmore, Utf8.encode_append, Utf8.encode_append, hslash]
      simp

/-! ## The files of a key -/

def publicFile (key : String) : Bytes := defaultPublicPath (Utf8.encode key)

/-- The file that the certificate of a private key is put in. -/
def certificateFile (key : String) : Bytes := certificatePath (publicFile key)

theorem publicFile_eq (key : String) : publicFile key = Utf8.encode (key ++ ".pub") := by
  rw [publicFile, defaultPublicPath, Utf8.encode_append]

theorem publicFile_injective {key other : String} (h : publicFile key = publicFile other) : key = other := by
  have hk := congrArg Utf8.decode? (List.append_cancel_right h)
  rw [Utf8.decode?_encode, Utf8.decode?_encode] at hk
  exact Option.some.inj hk

private theorem isName_of_ending {t : String} (ending : String) (ht : slash ∉ Utf8.encode t)
    (he : slash ∉ Utf8.encode ending) (hl : 2 < (Utf8.encode ending).length) : IsName (Utf8.encode (t ++ ending)) := by
  have hlen : 2 < (Utf8.encode (t ++ ending)).length := by
    rw [Utf8.encode_append, List.length_append]
    omega
  have hne : ∀ s : Bytes, s.length ≤ 2 → Utf8.encode (t ++ ending) ≠ s := by
    rintro s hs rfl
    omega
  refine ⟨?_, ?_, hne _ (by decide)⟩
  · rw [Utf8.encode_append, List.mem_append, not_or]
    exact ⟨ht, he⟩
  · simp [Path.isIdle, hne [] (by simp), hne Path.here (by decide)]

private theorem segments_ended {key t : String} {front : List Bytes}
    (hkey : Path.segments (Utf8.encode key) = front ++ [Utf8.encode t]) (ending : String)
    (he : slash ∉ Utf8.encode ending) (hl : 2 < (Utf8.encode ending).length) :
    Path.segments (Utf8.encode (key ++ ending)) = front ++ [Utf8.encode (t ++ ending)] ∧
      IsName (Utf8.encode (t ++ ending)) := by
  constructor
  · rw [Utf8.encode_append, Utf8.encode_append]
    exact Path.segments_append_end hkey he
  · exact isName_of_ending ending (Path.slash_not_mem_segments (by rw [hkey]; simp)) he hl

private theorem fileText_eq {p : Bytes} {t : String} {front : List Bytes}
    (hp : Path.segments p = front ++ [Utf8.encode t]) (hn : IsName (Utf8.encode t)) : fileText p = t.toList := by
  rw [fileText, Path.fileName_eq hp hn]
  simp only [Utf8.decodeLossy_encode]

private theorem stem_eq {p : Bytes} {t : String} {front : List Bytes}
    (hp : Path.segments p = front ++ [Utf8.encode (t ++ ".pub")]) (hn : IsName (Utf8.encode (t ++ ".pub"))) :
    stem p = t.toList := by
  have hs : publicEnding.isSuffixOf (t.toList ++ publicEnding) = true :=
    List.isSuffixOf_iff_suffix.mpr (List.suffix_append _ _)
  have ht : (t ++ ".pub").toList = t.toList ++ publicEnding := String.toList_append ..
  rw [stem, fileText_eq hp hn, ht, beforeEnding?, if_pos hs]
  simp

/-- The files of a key stand in one directory, and their names are one text with different endings. -/
theorem exists_files (key : String) : ∃ front t,
    Path.segments (Utf8.encode key) = front ++ [Utf8.encode t] ∧
    components (publicFile key) = lead front ++ [.name (Utf8.encode (t ++ ".pub"))] ∧
    components (certificateFile key) = lead front ++ [.name (Utf8.encode (t ++ "-cert.pub"))] ∧
    ∃ text, certificateFile key = Utf8.encode text := by
  obtain ⟨front, l, hkey⟩ := Path.exists_segments (Utf8.encode key)
  have texts : ∀ s ∈ front ++ [l], ∃ t, s = Utf8.encode t := fun s hs => exists_text_of_mem_segments (hkey ▸ hs)
  obtain ⟨t, rfl⟩ := texts l (by simp)
  obtain ⟨hpub, hname⟩ := segments_ended hkey ".pub" (by decide) (by decide)
  obtain ⟨-, hname'⟩ := segments_ended hkey "-cert.pub" (by decide) (by decide)
  rw [← publicFile_eq] at hpub
  have hfile : certificateFile key = Path.withFileName (publicFile key) (Utf8.encode (t ++ "-cert.pub")) := by
    rw [certificateFile, certificatePath, stem_eq hpub hname, ← String.toList_append, String.ofList_toList]
  obtain ⟨front', hcert, hlead, hmem⟩ := Path.segments_withFileName hpub hname hname'.slash_not_mem
  rw [← hfile] at hcert
  refine ⟨front, t, hkey, Path.components_eq hpub hname, ?_, ?_⟩
  · rw [Path.components_eq hcert hname', hlead]
  · rw [← Path.joinSegments_segments (certificateFile key), hcert]
    refine exists_text_joinSegments fun s hs => ?_
    rcases List.mem_append.mp hs with hs | hs
    · exact texts s (List.mem_append_left _ (hmem s hs))
    · exact ⟨_, List.mem_singleton.mp hs⟩

/-- Keys whose certificates are put in one file are one key, as files go, and have one public half. -/
theorem components_of_certificateFile {key other : String}
    (h : components (certificateFile key) = components (certificateFile other)) :
    components (Utf8.encode key) = components (Utf8.encode other) ∧
      components (publicFile key) = components (publicFile other) := by
  obtain ⟨front, t, hk, hp, hc, -⟩ := exists_files key
  obtain ⟨front', t', hk', hp', hc', -⟩ := exists_files other
  rw [hc, hc'] at h
  obtain ⟨hlead, hlast⟩ := List.append_inj' h rfl
  have hname : Utf8.encode t = Utf8.encode t' := by
    have he := Component.name.inj (List.singleton_inj.mp hlast)
    rw [Utf8.encode_append, Utf8.encode_append] at he
    exact List.append_cancel_right he
  constructor
  · rw [Path.components_concat hk, Path.components_concat hk', hlead, hname]
  · rw [hp, hp', hlead, Utf8.encode_append, Utf8.encode_append, hname]

theorem components_certificateFile_ne (key : String) :
    components (certificateFile key) ≠ components (publicFile key) := by
  intro h
  obtain ⟨front, t, -, hp, hc, -⟩ := exists_files key
  rw [hp, hc] at h
  have he := Component.name.inj (List.singleton_inj.mp (List.append_cancel_left h))
  rw [Utf8.encode_append, Utf8.encode_append] at he
  have hl : (Utf8.encode "-cert.pub").length = (Utf8.encode ".pub").length :=
    congrArg List.length (List.append_cancel_left he)
  revert hl
  decide

/-- The certificate of a key goes where the path of the key leads with `-cert.pub` behind it. So it is put neither in
the file of the key nor in that of its public half, and keys in different files have certificates in different files. -/
theorem certificate_stands_beside (key : String) :
    components (certificateFile key) = components (Utf8.encode (key ++ "-cert.pub")) ∧
      components (certificateFile key) ≠ components (Utf8.encode key) ∧
      components (certificateFile key) ≠ components (publicFile key) ∧
      ∀ other, components (Utf8.encode key) ≠ components (Utf8.encode other) →
        components (certificateFile key) ≠ components (certificateFile other) := by
  obtain ⟨front, t, hkey, -, hcert, -⟩ := exists_files key
  obtain ⟨hlonger, hname⟩ := segments_ended hkey "-cert.pub" (by decide) (by decide)
  refine ⟨?_, ?_, components_certificateFile_ne key, fun other hne h => hne (components_of_certificateFile h).1⟩
  · rw [hcert, Path.components_eq hlonger hname]
  · rw [hcert, Utf8.encode_append]
    exact (Path.components_ne_of_longer hkey (by decide)).symm

/-- Two paths that end in dots, behind a directory whose name is but the ending of public keys. -/
theorem certificate_stands_beside_dots :
    components (certificateFile "./keys//.pub/.") = components (Utf8.encode ("./keys//.pub/." ++ "-cert.pub")) ∧
      components (certificateFile "./keys//.pub/.") ≠ components (Utf8.encode "./keys//.pub/.") ∧
      components (certificateFile "./keys//.pub/.") ≠ components (publicFile "./keys//.pub/.") ∧
      components (Utf8.encode "./keys//.pub/.") ≠ components (Utf8.encode "./keys/.pub/..") ∧
      components (certificateFile "./keys//.pub/.") ≠ components (certificateFile "./keys/.pub/..") := by
  have apart : components (Utf8.encode "./keys//.pub/.") ≠ components (Utf8.encode "./keys/.pub/..") := by
    decide
  obtain ⟨place, own, ofPublic, others⟩ := certificate_stands_beside "./keys//.pub/."
  exact ⟨place, own, ofPublic, apart, others "./keys/.pub/.." apart⟩

end SshAuthority.Command
