import SshAuthority.Config.Effective
import SshAuthority.Proofs.Text.Line
/-!
# Reading the effective configuration back

A configuration that is printed as one line for each setting is read back setting by setting. The values of a key
are those of the settings that bear it in lower case: no longer or shorter key is taken for it, and a value is read
as it was printed, whatever blanks it begins with or contains. What is printed later does not change what was read.
-/
namespace SshAuthority.Config
open Text (lines lines_append lines_flatMap lines_single lowerCase)

/-! ## One line -/

theorem after?_eq_some {α : Type} [BEq α] [LawfulBEq α] {front cs rest : List α} :
    after? front cs = some rest ↔ cs = front ++ rest := by
  induction front generalizing cs with
  | nil => simp [after?]
  | cons x front ih =>
    cases cs with
    | nil => simp [after?]
    | cons c cs =>
      rw [after?]
      split
      case isTrue hx => simp [ih, eq_of_beq hx]
      case isFalse hx => simp [Ne.symm (ne_of_beq_false (Bool.eq_false_iff.mpr hx))]

theorem valueOf_eq_some {key line value : List Char} :
    valueOf key line = some value ↔ line = key ++ ' ' :: value := by
  rw [valueOf, ← after?_eq_some]
  split
  case h_1 found h => simp [h]
  case h_2 other =>
    constructor
    · intro h
      cases h
    · intro h
      exact absurd h (other value)

private theorem eq_of_append_space {key key' value value' : List Char} (h : ' ' ∉ key) (h' : ' ' ∉ key')
    (he : key ++ ' ' :: value = key' ++ ' ' :: value') : key = key' ∧ value = value' := by
  rcases List.append_eq_append_iff.mp he with ⟨more, rfl, hmore⟩ | ⟨more, rfl, hmore⟩
  · cases more with
    | nil => exact ⟨(List.append_nil key).symm, (List.cons.inj hmore).2⟩
    | cons c more =>
      obtain ⟨rfl, -⟩ := List.cons.inj hmore
      exact absurd (List.mem_append_right key List.mem_cons_self) h'
  · cases more with
    | nil => exact ⟨List.append_nil key', (List.cons.inj hmore).2.symm⟩
    | cons c more =>
      obtain ⟨rfl, -⟩ := List.cons.inj hmore
      exact absurd (List.mem_append_right key' List.mem_cons_self) h

theorem valueOf_line {key key' : List Char} (h : ' ' ∉ key) (h' : ' ' ∉ key') (value : List Char) :
    valueOf key (key' ++ ' ' :: value) = if key' = key then some value else none := by
  split
  case isTrue he =>
    subst he
    exact valueOf_eq_some.mpr rfl
  case isFalse hne =>
    rw [Option.eq_none_iff_forall_ne_some]
    intro found hfound
    exact hne (eq_of_append_space h' h (valueOf_eq_some.mp hfound)).1

/-! ## Printed settings -/

structure Setting where
  key : String
  value : String
  deriving DecidableEq, Repr

namespace Setting

def line (s : Setting) : String := s.key ++ " " ++ s.value

/-- What the line of a setting must not have in it to be read back. -/
structure Fits (s : Setting) : Prop where
  space : ' ' ∉ s.key.toList
  key_newline : '\n' ∉ s.key.toList
  value_newline : '\n' ∉ s.value.toList
  value_return : s.value.toList.getLast? ≠ some '\r'

instance (s : Setting) : Decidable s.Fits :=
  decidable_of_iff (' ' ∉ s.key.toList ∧ '\n' ∉ s.key.toList ∧ '\n' ∉ s.value.toList ∧
      s.value.toList.getLast? ≠ some '\r')
    ⟨fun ⟨space, key, value, last⟩ => ⟨space, key, value, last⟩,
      fun h => ⟨h.space, h.key_newline, h.value_newline, h.value_return⟩⟩

theorem toList_line (s : Setting) : s.line.toList = s.key.toList ++ ' ' :: s.value.toList := by
  simp [line]

theorem Fits.no_newline {s : Setting} (h : s.Fits) : '\n' ∉ s.line.toList := by
  rw [toList_line]
  simp [h.key_newline, h.value_newline]

theorem Fits.no_return {s : Setting} (h : s.Fits) : s.line.toList.getLast? ≠ some '\r' := by
  rw [toList_line, List.getLast?_append, List.getLast?_cons]
  cases hl : s.value.toList.getLast? with
  | none => simp
  | some c =>
    have hc := h.value_return
    rw [hl] at hc
    simpa using hc

def named (settings : List Setting) (key : String) : List Setting :=
  settings.filter fun s => s.key.toList = lowerCase key.toList

end Setting

def printed (settings : List Setting) : String := String.join (settings.map fun s => s.line ++ "\n")

theorem toList_printed (settings : List Setting) :
    (printed settings).toList = (settings.map fun s => s.line.toList).flatMap (· ++ ['\n']) := by
  simp [printed, String.toList_join, List.flatMap_map]

theorem lines_printed {settings : List Setting} (h : ∀ s ∈ settings, s.Fits) :
    lines (printed settings).toList = settings.map fun s => s.line.toList := by
  rw [toList_printed]
  apply lines_flatMap
  intro l hl
  obtain ⟨s, hs, rfl⟩ := List.mem_map.mp hl
  exact ⟨(h s hs).no_newline, (h s hs).no_return⟩

theorem lines_unended {settings : List Setting} (h : ∀ s ∈ settings, s.Fits) {dump : String}
    (hd : dump ++ "\n" = printed settings) : lines dump.toList = settings.map fun s => s.line.toList := by
  rcases List.eq_nil_or_concat settings with rfl | ⟨front, s, rfl⟩
  · have hn := congrArg String.toList hd
    simp [printed] at hn
  · rw [List.concat_eq_append] at h hd ⊢
    have hs := h s (by simp)
    have hfront : ∀ t ∈ front, t.Fits := fun t ht => h t (List.mem_append_left _ ht)
    have hdump : dump.toList = (printed front).toList ++ s.line.toList := by
      have hcs := congrArg String.toList hd
      rw [toList_printed, List.map_append, List.flatMap_append, ← toList_printed] at hcs
      simpa [← List.append_assoc] using hcs
    have hended : (printed front).toList = [] ∨ (printed front).toList.getLast? = some '\n' := by
      rcases List.eq_nil_or_concat front with rfl | ⟨_, _, rfl⟩
      · exact .inl rfl
      · right
        simp [toList_printed]
    have hlast : lines s.line.toList = [s.line.toList] := by
      apply lines_single hs.no_newline
      simp [Setting.toList_line]
    rw [hdump, lines_append hended, lines_printed hfront, hlast]
    simp

/-! ## Values -/

theorem filterMap_valueOf {settings : List Setting} (h : ∀ s ∈ settings, s.Fits) {key : String}
    (hk : ' ' ∉ lowerCase key.toList) :
    (settings.map fun s => s.line.toList).filterMap (valueOf (lowerCase key.toList)) =
      (Setting.named settings key).map fun s => s.value.toList := by
  induction settings with
  | nil => rfl
  | cons s settings ih =>
    have hs := h s List.mem_cons_self
    have hrest := ih fun t ht => h t (List.mem_cons_of_mem _ ht)
    rw [List.map_cons, List.filterMap_cons, Setting.toList_line, valueOf_line hk hs.space, Setting.named,
      List.filter_cons]
    by_cases he : s.key.toList = lowerCase key.toList <;> simp [he, hrest, Setting.named]

/-- A printed configuration is read back setting by setting, whether or not its last line is ended. What stands in
front of a text, if it is whole lines, adds its values in front of those of the text. -/
theorem values_read_back :
    (∀ (settings : List Setting) (key dump : String), (∀ s ∈ settings, s.Fits) → ' ' ∉ lowerCase key.toList →
      (dump = printed settings ∨ dump ++ "\n" = printed settings) →
      valuesFor dump key = (Setting.named settings key).map (·.value)) ∧
    ∀ front rest key : String, (front = "" ∨ front.toList.getLast? = some '\n') →
      valuesFor (front ++ rest) key = valuesFor front key ++ valuesFor rest key := by
  constructor
  · intro settings key dump h hk hd
    have hlines : lines dump.toList = settings.map fun s => s.line.toList := by
      rcases hd with rfl | hd
      · exact lines_printed h
      · exact lines_unended h hd
    rw [valuesFor, hlines, filterMap_valueOf h hk, List.map_map]
    exact List.map_congr_left fun s _ => String.ofList_toList
  · intro front rest key h
    have hfront : front.toList = [] ∨ front.toList.getLast? = some '\n' := by
      rcases h with rfl | h
      · exact .inl rfl
      · exact .inr h
    rw [valuesFor, String.toList_append, lines_append hfront, List.filterMap_append, List.map_append]
    rfl

/-- A key that begins another one, a value with blanks and a carriage return in it, and one that is empty. -/
private def sampleSettings : List Setting :=
  [⟨"hostkey", "/etc/a b\r c"⟩, ⟨"hostkeyalgorithms", "x"⟩, ⟨"hostkey", " d"⟩, ⟨"host", "key e"⟩, ⟨"hostkey", ""⟩]

theorem values_read_back_sample :
    ((∀ s ∈ sampleSettings, s.Fits) ∧ ' ' ∉ lowerCase "HostKey".toList ∧
      "hostkey /etc/a b\r c\nhostkeyalgorithms x\nhostkey  d\nhost key e\nhostkey " ++ "\n" = printed sampleSettings ∧
      valuesFor "hostkey /etc/a b\r c\nhostkeyalgorithms x\nhostkey  d\nhost key e\nhostkey " "HostKey" =
        ["/etc/a b\r c", " d", ""]) ∧
    valuesFor ("port 22\r\n" ++ "port 23\r") "Port" = ["22"] ++ ["23\r"] := by
  obtain ⟨reads, joins⟩ := values_read_back
  have fits : ∀ s ∈ sampleSettings, s.Fits := by decide +kernel
  have space : ' ' ∉ lowerCase "HostKey".toList := by decide +kernel
  have unended : "hostkey /etc/a b\r c\nhostkeyalgorithms x\nhostkey  d\nhost key e\nhostkey " ++ "\n" =
      printed sampleSettings := by decide +kernel
  refine ⟨⟨fits, space, unended, ?_⟩, ?_⟩
  · rw [reads sampleSettings "HostKey" _ fits space (.inr unended)]
    decide +kernel
  · rw [joins "port 22\r\n" "port 23\r" "Port" (.inr (by decide +kernel))]
    decide +kernel

end SshAuthority.Config
