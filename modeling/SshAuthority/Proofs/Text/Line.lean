import SshAuthority.Text.Line
/-!
# Line breaks

Which line breaks a text has follows from those of its parts, and a text that is written line by line is read
as these lines where none of them has a break.
-/
namespace SshAuthority.Text

/-- The characters that a text is broken into lines at. -/
def isLineBreak (c : Char) : Bool :=
  let n := c.toNat
  (0x0A ≤ n && n ≤ 0x0D) || n == 0x85 || n == 0x2028 || n == 0x2029

def lineBreaks (s : String) : List Char := s.toList.filter isLineBreak

theorem lineBreaks_append (s t : String) : lineBreaks (s ++ t) = lineBreaks s ++ lineBreaks t := by
  simp [lineBreaks]

private theorem filter_intercalate {p : Char → Bool} {sep : List Char} (hsep : sep.filter p = [])
    (ls : List (List Char)) : (sep.intercalate ls).filter p = ls.flatMap (List.filter p) := by
  induction ls with
  | nil => simp
  | cons l ls ih =>
    cases ls with
    | nil => simp
    | cons l' ls =>
      rw [List.intercalate_cons_cons, List.filter_append, List.filter_append, hsep, ih, List.append_nil]
      rfl

theorem lineBreaks_intercalate {sep : String} (hsep : lineBreaks sep = []) (parts : List String) :
    lineBreaks (sep.intercalate parts) = parts.flatMap lineBreaks := by
  rw [lineBreaks, String.toList_intercalate, filter_intercalate hsep, List.flatMap_map]
  rfl

/-! ## Lines -/

theorem withoutReturn_eq {line : List Char} (h : line.getLast? ≠ some '\r') : withoutReturn line = line := if_neg h

private theorem linesOnto_reverse (done : List (List Char)) (line cs : List Char) :
    linesOnto done line cs = done.reverse ++ linesOnto [] line cs := by
  induction cs generalizing done line with
  | nil =>
    rw [linesOnto, linesOnto]
    split <;> simp
  | cons c cs ih =>
    rw [linesOnto, linesOnto]
    split
    case isTrue =>
      rw [ih, ih [_]]
      simp
    case isFalse => exact ih done (c :: line)

private theorem linesOnto_append (line front rest : List Char) :
    linesOnto [] line (front ++ '\n' :: rest) = linesOnto [] line (front ++ ['\n']) ++ lines rest := by
  induction front generalizing line with
  | nil =>
    rw [List.nil_append, List.nil_append, linesOnto, if_pos rfl, linesOnto, if_pos rfl, linesOnto_reverse]
    rfl
  | cons c front ih =>
    rw [List.cons_append, List.cons_append, linesOnto, linesOnto]
    split
    case isTrue =>
      rw [linesOnto_reverse, ih, linesOnto_reverse [withoutReturn line.reverse], List.append_assoc]
    case isFalse => exact ih (c :: line)

/-- Behind a newline the lines are read afresh. -/
theorem lines_append {front : List Char} (h : front = [] ∨ front.getLast? = some '\n') (rest : List Char) :
    lines (front ++ rest) = lines front ++ lines rest := by
  rcases h with rfl | h
  · rfl
  · obtain ⟨cs, rfl⟩ := List.getLast?_eq_some_iff.mp h
    rw [List.append_assoc]
    exact linesOnto_append [] cs rest

private theorem linesOnto_pass {cs : List Char} (h : '\n' ∉ cs) (done : List (List Char)) (line rest : List Char) :
    linesOnto done line (cs ++ rest) = linesOnto done (cs.reverse ++ line) rest := by
  induction cs generalizing line with
  | nil => rfl
  | cons c cs ih =>
    rw [List.mem_cons, not_or] at h
    obtain ⟨hc, hcs⟩ := h
    rw [List.cons_append, linesOnto, if_neg (Ne.symm hc), ih hcs, List.reverse_cons, List.append_assoc]
    rfl

theorem lines_single {cs : List Char} (h : '\n' ∉ cs) (hne : cs ≠ []) : lines cs = [cs] := by
  have hpass := linesOnto_pass h [] [] []
  rw [List.append_nil, List.append_nil] at hpass
  rw [lines, hpass]
  simp [linesOnto, hne]

theorem lines_cons {line : List Char} (h : '\n' ∉ line) (rest : List Char) :
    lines (line ++ '\n' :: rest) = withoutReturn line :: lines rest := by
  rw [lines, linesOnto_pass h, linesOnto, if_pos rfl, linesOnto_reverse]
  simp [lines]

/-- Lines that have no newline and end in no carriage return are read as they were written. -/
theorem lines_flatMap {ls : List (List Char)} (h : ∀ l ∈ ls, '\n' ∉ l ∧ l.getLast? ≠ some '\r') :
    lines (ls.flatMap (· ++ ['\n'])) = ls := by
  induction ls with
  | nil => rfl
  | cons l ls ih =>
    obtain ⟨hn, hr⟩ := h l List.mem_cons_self
    rw [List.flatMap_cons, List.append_assoc, List.singleton_append, lines_cons hn, withoutReturn_eq hr,
      ih fun l' hl' => h l' (List.mem_cons_of_mem _ hl')]

theorem lines_join (ls : List String) (h : ∀ l ∈ ls, lineBreaks l = []) :
    lines (String.join (ls.map (· ++ "\n"))).toList = ls.map String.toList := by
  have hjoin : (String.join (ls.map (· ++ "\n"))).toList = (ls.map String.toList).flatMap (· ++ ['\n']) := by
    simp [String.toList_join, List.flatMap_map]
  rw [hjoin]
  apply lines_flatMap
  intro l hl
  obtain ⟨t, ht, rfl⟩ := List.mem_map.mp hl
  have absent : ∀ c, isLineBreak c = true → c ∉ t.toList := fun c hc hm =>
    List.filter_eq_nil_iff.mp (h t ht) c hm hc
  refine ⟨absent '\n' (by decide), fun hr => ?_⟩
  exact absent '\r' (by decide) (List.mem_of_getLast? hr)

end SshAuthority.Text
