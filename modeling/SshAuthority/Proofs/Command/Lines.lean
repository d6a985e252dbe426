import SshAuthority.Proofs.Command.Store
import SshAuthority.Proofs.Config.Lines
import SshAuthority.Proofs.Host.Disk
/-!
# Lines that accumulate in a file

Entries of one line are added to a file one after the other. Each is either somewhere in the file already, and then
nothing is done, or becomes a line of its own behind the lines that were there, whether or not the last of those was
ended. So no line is lost or joined to another, and each entry is found again.
-/
namespace SshAuthority.Command
open Config (occursIn_iff)
open Host (Disk)

/-! ## Lines of a file -/

/-- What stands between the newlines of a file, and behind the last one if there is anything. -/
def fileLines (content : Bytes) : List Bytes :=
  let stretches := Config.lines content
  if stretches.getLast? = some [] then stretches.dropLast else stretches

theorem last_stretch_iff (content : Bytes) :
    (Config.lines content).getLast? = some [] ↔ content = [] ∨ content.getLast? = some newline := by
  induction content using Config.byLines with
  | last l hl =>
    rw [Config.lines_single hl, List.getLast?_singleton, Option.some.injEq]
    exact (or_iff_left fun h => hl (List.mem_of_getLast? h)).symm
  | more l text hl ih =>
    have hne := Config.lines_ne_nil text
    rw [Config.lines_append, List.getLast?_append_of_ne_nil _ hne, ih]
    cases text with
    | nil => simp [newline]
    | cons b text => simp

theorem fileLines_ended (content : Bytes) : fileLines (content ++ [newline]) = Config.lines content := by
  have hs : Config.lines (content ++ [newline]) = Config.lines content ++ [[]] := Config.lines_append content []
  rw [fileLines, hs]
  simp

theorem fileLines_unended {content : Bytes} (h : content ≠ []) (hl : content.getLast? ≠ some newline) :
    fileLines content = Config.lines content :=
  if_neg ((last_stretch_iff content).not.mpr (not_or.mpr ⟨h, hl⟩))

/-- What is added to a file is one line behind all others. -/
theorem fileLines_addition (former : Bytes) {text : Bytes} (h : newline ∉ text) :
    fileLines (former ++ addition former text) = fileLines former ++ [text] := by
  by_cases hn : former = []
  · subst hn
    exact (fileLines_ended text).trans (Config.lines_single h)
  · by_cases hl : former.getLast? = some newline
    · obtain ⟨front, rfl⟩ := List.getLast?_eq_some_iff.mp hl
      have hadd : addition (front ++ [newline]) text = text ++ [newline] := by simp [addition]
      have hlines : fileLines (front ++ newline :: text ++ [newline]) = Config.lines front ++ Config.lines text :=
        (fileLines_ended _).trans (Config.lines_append front text)
      rw [hadd, fileLines_ended, ← Config.lines_single h, ← hlines]
      simp
    · have hadd : addition former text = newline :: text ++ [newline] := by simp [addition, hn, hl]
      rw [hadd, fileLines_unended hn hl, ← Config.lines_single h, ← List.append_assoc, fileLines_ended]
      exact Config.lines_append former text

theorem addition_ended (former text : Bytes) : (former ++ addition former text).getLast? = some newline := by
  simp [addition]

/-! ## Entries of one line -/

/-- An entry has no newline but one at its end. -/
def OneLine (entry : Bytes) : Prop := newline ∉ entry.dropLast

instance (entry : Bytes) : Decidable (OneLine entry) := inferInstanceAs (Decidable (newline ∉ entry.dropLast))

theorem OneLine.newline_not_mem {entry : Bytes} (h : OneLine entry) : newline ∉ lineText entry := by
  rw [lineText]
  split
  case isTrue => exact h
  case isFalse hl =>
    intro hm
    rcases List.eq_nil_or_concat entry with rfl | ⟨front, b, rfl⟩
    · cases hm
    · rw [List.concat_eq_append] at h hl hm
      rw [OneLine, List.dropLast_concat] at h
      rcases List.mem_append.mp hm with hm | hm
      · exact h hm
      · obtain rfl := List.mem_singleton.mp hm
        exact hl (List.getLast?_concat ..)

theorem lineText_of_not_mem {text : Bytes} (h : newline ∉ text) : lineText text = text :=
  lineText_eq_self fun hl => h (List.mem_of_getLast? hl)

theorem lineText_ended (text : Bytes) : lineText (text ++ [newline]) = text := by
  simp [lineText]

/-! ## What calls come to -/

/-- What a call with an entry comes to: its answer, and what the path leads to before and afterwards. -/
inductive Settles (entry : Bytes) (d : Disk) (file : Option Bytes) : Bool → Disk → Option Bytes → Prop
  | present (holds : lineText entry <:+: file.getD []) : Settles entry d file false d file
  | added {d' content} (lacks : ¬lineText entry <:+: file.getD []) (kept : file.getD [] <+: content)
    (holds : lineText entry <:+: content) (ended : content.getLast? = some newline)
    (lines : fileLines content = fileLines (file.getD []) ++ [lineText entry]) :
    Settles entry d file true d' (some content)

/-- Calls one after the other, each with its answer, and what they come to. -/
inductive Calls (path : Bytes) : Disk → Option Bytes → List (Bytes × Bool) → Disk → Option Bytes → Prop
  | none {d file} (stands : d.Offers path file) : Calls path d file [] d file
  | call {d d₁ d₂ file file₁ file₂ entry done calls} (stands : d.Offers path file)
    (run : addLine Disk.files path entry d = (.ok done, d₁)) (settles : Settles entry d file done d₁ file₁)
    (rest : Calls path d₁ file₁ calls d₂ file₂) : Calls path d file ((entry, done) :: calls) d₂ file₂

def added (calls : List (Bytes × Bool)) : List Bytes := (calls.filter (·.2)).map fun c => lineText c.1

/-! ## One call -/

variable {path entry : Bytes} {d d' : Disk} {file file' : Option Bytes} {done : Bool}

private theorem bind_eq {α β : Type} {x : StateM Disk α} {f : α → StateM Disk β} {a : α} (h : x d = (a, d')) :
    (x >>= f) d = f a d' := by
  show f (x d).1 (x d).2 = _
  rw [h]

private theorem addLine_offered (h : d.Offers path file) (entry : Bytes) : addLine Disk.files path entry d =
    addLine.addTo Disk.files path (file.getD []) (lineText entry) d := by
  have hr : Disk.files.read path d = (d.read path, d) := rfl
  rw [h.read] at hr
  cases file <;> exact bind_eq hr

theorem addLine_present (h : d.Offers path file) (hi : lineText entry <:+: file.getD []) :
    addLine Disk.files path entry d = (.ok false, d) := by
  rw [addLine_offered h, addLine.addTo, if_pos (occursIn_iff.mpr hi)]
  rfl

theorem addLine_new (h : d.Offers path file) (hi : ¬lineText entry <:+: file.getD []) :
    ∃ next, addLine Disk.files path entry d = (.ok true, next) ∧
      next.Offers path (some (file.getD [] ++ addition (file.getD []) (lineText entry))) := by
  obtain ⟨next, hw, ho⟩ := h.append (addition (file.getD []) (lineText entry))
  have hwrite : Disk.files.write .append path (addition (file.getD []) (lineText entry)) d = (.ok (), next) := by
    simp only [Disk.files, hw]
  refine ⟨next, ?_, ho⟩
  rw [addLine_offered h, addLine.addTo, if_neg (mt occursIn_iff.mp hi)]
  exact bind_eq hwrite

theorem exists_settles (h : d.Offers path file) (one : OneLine entry) :
    ∃ done next file', addLine Disk.files path entry d = (.ok done, next) ∧ next.Offers path file' ∧
      Settles entry d file done next file' := by
  by_cases hi : lineText entry <:+: file.getD []
  · exact ⟨false, d, file, addLine_present h hi, h, .present hi⟩
  · obtain ⟨next, hrun, ho⟩ := addLine_new h hi
    exact ⟨true, next, _, hrun, ho, .added hi (List.prefix_append _ _) (lineText_infix_added _ _)
      (addition_ended _ _) (fileLines_addition _ one.newline_not_mem)⟩

namespace Settles

theorem kept (h : Settles entry d file done d' file') : file.getD [] <+: file'.getD [] := by
  cases h with
  | present => exact List.prefix_rfl
  | added _ kept => exact kept

theorem holds (h : Settles entry d file done d' file') : lineText entry <:+: file'.getD [] := by
  cases h with
  | present holds => exact holds
  | added _ _ holds => exact holds

theorem lines (h : Settles entry d file done d' file') :
    fileLines (file'.getD []) = fileLines (file.getD []) ++ if done then [lineText entry] else [] := by
  cases h with
  | present => exact (List.append_nil _).symm
  | added _ _ _ _ lines => exact lines

end Settles

/-! ## Any number of calls -/

theorem exists_calls (h : d.Offers path file) {entries : List Bytes} (one : ∀ e ∈ entries, OneLine e) :
    ∃ calls d' file', calls.map (·.1) = entries ∧ Calls path d file calls d' file' := by
  induction entries generalizing d file with
  | nil => exact ⟨[], d, file, rfl, .none h⟩
  | cons entry entries ih =>
    obtain ⟨done, d₁, file₁, run, stands, settles⟩ := exists_settles h (one entry List.mem_cons_self)
    obtain ⟨calls, d₂, file₂, hcalls, rest⟩ := ih stands fun e he => one e (List.mem_cons_of_mem _ he)
    exact ⟨(entry, done) :: calls, d₂, file₂, by rw [List.map_cons, hcalls], .call h run settles rest⟩

namespace Calls

variable {calls : List (Bytes × Bool)}

theorem stands (h : Calls path d file calls d' file') : d'.Offers path file' := by
  induction h with
  | none stands => exact stands
  | call _ _ _ _ ih => exact ih

theorem kept (h : Calls path d file calls d' file') : file.getD [] <+: file'.getD [] := by
  induction h with
  | none => exact List.prefix_rfl
  | call _ _ settles _ ih => exact settles.kept.trans ih

theorem lines (h : Calls path d file calls d' file') :
    fileLines (file'.getD []) = fileLines (file.getD []) ++ added calls := by
  induction h with
  | none => exact (List.append_nil _).symm
  | @call _ _ _ _ _ _ entry done calls _ _ settles _ ih =>
    have hadded : added ((entry, done) :: calls) = (if done then [lineText entry] else []) ++ added calls := by
      cases done <;> rfl
    rw [ih, settles.lines, hadded, List.append_assoc]

theorem holds (h : Calls path d file calls d' file') {c : Bytes × Bool} (hc : c ∈ calls) :
    lineText c.1 <:+: file'.getD [] := by
  induction h with
  | none => cases hc
  | @call _ _ _ _ _ _ entry done calls _ _ settles rest ih =>
    rcases List.mem_cons.mp hc with rfl | hc
    · exact settles.holds.trans rest.kept.isInfix
    · exact ih hc

end Calls

/-- Entries that are added one after the other become lines in their order, but for those that are there already.
Nothing is lost, and to add one of them again changes nothing. -/
theorem entries_accumulate (h : d.Offers path file) {entries : List Bytes} (one : ∀ e ∈ entries, OneLine e) :
    ∃ calls d' file', calls.map (·.1) = entries ∧ Calls path d file calls d' file' ∧ d'.Offers path file' ∧
      fileLines (file'.getD []) = fileLines (file.getD []) ++ added calls ∧
      ∀ e ∈ entries, lineText e <:+: file'.getD [] ∧
        ∀ again ∈ [e, lineText e, lineText e ++ [newline]], addLine Disk.files path again d' = (.ok false, d') := by
  obtain ⟨calls, d', file', rfl, hcalls⟩ := exists_calls h one
  refine ⟨calls, d', file', rfl, hcalls, hcalls.stands, hcalls.lines, fun e he => ?_⟩
  obtain ⟨c, hc, rfl⟩ := List.mem_map.mp he
  have holds := hcalls.holds hc
  refine ⟨holds, fun again hagain => addLine_present hcalls.stands ?_⟩
  have htext : lineText again = lineText c.1 := by
    have hn := (one c.1 he).newline_not_mem
    simp only [List.mem_cons, List.not_mem_nil, or_false] at hagain
    rcases hagain with rfl | rfl | rfl
    · rfl
    · exact lineText_of_not_mem hn
    · exact lineText_ended _
  rw [htext]
  exact holds

private def casPath : Bytes := Utf8.encode "cas"

private def twoLines : Bytes := Utf8.encode "one\ntwo"

private def overlapping : List Bytes := ["twofold\n", "two\n", "fold", "", "fold two\n", "old two"].map Utf8.encode

theorem entries_accumulate_behind_two_lines :
    let d := Disk.addFile ⟨[], []⟩ [casPath] twoLines 0o644
    d.Offers casPath (some twoLines) ∧ (∀ e ∈ overlapping, OneLine e) ∧
      ∃ calls d' file', calls.map (·.1) = overlapping ∧ Calls casPath d (some twoLines) calls d' file' ∧
        d'.Offers casPath file' ∧
        fileLines (file'.getD []) = [Utf8.encode "one", Utf8.encode "two"] ++ added calls ∧
        ∀ e ∈ overlapping, lineText e <:+: file'.getD [] ∧
          ∀ again ∈ [e, lineText e, lineText e ++ [newline]],
            addLine Disk.files casPath again d' = (.ok false, d') := by
  intro d
  have opens : (d.openPlace casPath).toOption = some [casPath] := by decide +kernel
  have offers : d.Offers casPath (some twoLines) := by
    rcases h : d.openPlace casPath with fault | place <;> rw [h] at opens
    · cases opens
    · obtain rfl := Option.some.inj opens
      have stands : d.entry? [casPath] = some (.file twoLines 0o644) := by decide +kernel
      exact .file h stands
  have one : ∀ e ∈ overlapping, OneLine e := by decide +kernel
  have former : fileLines twoLines = [Utf8.encode "one", Utf8.encode "two"] := by decide +kernel
  obtain ⟨calls, d', file', same, hcalls, stands, lines, held⟩ := entries_accumulate offers one
  rw [Option.getD_some, former] at lines
  exact ⟨offers, one, calls, d', file', same, hcalls, stands, lines, held⟩

end SshAuthority.Command
