import SshAuthority.Config.Edit
import SshAuthority.Proofs.Config.Lines
import SshAuthority.Proofs.Text.Utf8
/-!
# Edits line by line

What an edit does to a file, without patterns: it rewrites the lines that it accepts, and where it
accepts none it adds its line at the end.
-/
namespace SshAuthority.Config

namespace Cursor

variable {bs : Bytes}

theorem pass_append (bs text : Bytes) (offset : Nat) (before : Option UInt8) :
    (⟨offset, before, bs ++ text⟩ : Cursor).pass bs = some ⟨offset + bs.length, bs.getLast?.or before, text⟩ := by
  induction bs generalizing offset before with
  | nil => rfl
  | cons b bs ih =>
    have hlast : (b :: bs).getLast?.or before = bs.getLast?.or (some b) := by
      cases bs <;> simp [List.getLast?_eq_getLast_of_ne_nil]
    rw [List.cons_append, pass]
    simp only [beq_self_eq_true, if_true]
    rw [ih, hlast, List.length_cons]
    simp only [Nat.add_assoc, Nat.add_comm 1]

private theorem first_of_pass {c d : Cursor} (h : c.pass bs = some d) : bs <+: c.rest := by
  induction bs generalizing c with
  | nil => exact List.nil_prefix
  | cons b bs ih =>
    obtain ⟨offset, before, text⟩ := c
    rcases text with _ | ⟨x, text⟩
    · cases h
    · rw [pass] at h
      simp only at h
      split at h
      case isTrue hx =>
        rw [eq_of_beq hx]
        exact List.cons_prefix_cons.mpr ⟨rfl, ih h⟩
      case isFalse => cases h

theorem pass_eq_none {c : Cursor} (h : ¬bs <+: c.rest) : c.pass bs = none := by
  apply Option.eq_none_iff_forall_ne_some.mpr
  intro d hd
  exact h (first_of_pass hd)

theorem line_pass (h : (10 : UInt8) ∉ bs) (text : Bytes) (offset : Nat) (before : Option UInt8) :
    (⟨offset, before, bs ++ text⟩ : Cursor).line =
      bs ++ (⟨offset + bs.length, bs.getLast?.or before, text⟩ : Cursor).line := by
  rw [line, line, List.takeWhile_append_of_pos (bne_newline h)]

theorem lineEnd_pass (h : (10 : UInt8) ∉ bs) (text : Bytes) (offset : Nat) (before : Option UInt8) :
    (⟨offset, before, bs ++ text⟩ : Cursor).lineEnd =
      (⟨offset + bs.length, bs.getLast?.or before, text⟩ : Cursor).lineEnd := by
  rw [lineEnd, lineEnd, line_pass h]
  simp [List.getLast?_append, Option.or_assoc, Nat.add_assoc, List.drop_append]

end Cursor

namespace Edit

/-! ## What an edit accepts -/

/-- What may follow on its line the text that an edit spells out. -/
def mayFollow : EditMode → Bytes → Bool
  | .add, _ => true
  | .only, rest => rest.head?.all fun b => [32, 9, 61].contains b

/-- Whether a line begins as an edit spells out. -/
def begins (e : Edit) (line : Bytes) : Bool :=
  e.spelled.isPrefixOf line && mayFollow e.mode (line.drop e.spelled.length)

/-- Whether an edit takes a line for its own, live or commented out. -/
def accepts (e : Edit) (line : Bytes) : Bool := (line.head? == some 35 && e.begins line.tail) || e.begins line

/-! ## What its pattern matches -/

private theorem lineEnd_cons {b : UInt8} (hb : b ≠ 10) (offset : Nat) (before : Option UInt8) (text : Bytes) :
    (⟨offset, before, b :: text⟩ : Cursor).lineEnd = (⟨offset + 1, some b, text⟩ : Cursor).lineEnd := by
  have h : (10 : UInt8) ∉ [b] := by simpa using Ne.symm hb
  have hp := Cursor.lineEnd_pass h text offset before
  simpa using hp

private theorem run_anyOfLine (c : Cursor) :
    Pattern.anyOfLine.run (Pattern.lineEnd.run some) c = some c.lineEnd := by
  obtain ⟨offset, before, text⟩ := c
  show Pattern.longest _ offset before text = _
  induction text generalizing offset before with
  | nil => rfl
  | cons b text ih =>
    by_cases hb : b = 10
    · subst hb
      simp [Pattern.longest, Pattern.run, Cursor.atLineEnd, Cursor.lineEnd, Cursor.line]
    · rw [Pattern.longest, if_neg (by simpa using hb), ih, lineEnd_cons hb]
      rfl

private theorem run_tail (m : EditMode) (c : Cursor) :
    (tail m).run (Pattern.lineEnd.run some) c = if mayFollow m c.line then some c.lineEnd else none := by
  cases m with
  | add => exact run_anyOfLine c
  | only =>
    obtain ⟨offset, before, text⟩ := c
    rcases text with _ | ⟨b, text⟩
    · rfl
    have hrun : (tail .only).run (Pattern.lineEnd.run some) ⟨offset, before, b :: text⟩ =
        (if [32, 9, 61].contains b then
            Pattern.anyOfLine.run (Pattern.lineEnd.run some) ⟨offset + 1, some b, text⟩ else none).or
          (if b == 10 then some ⟨offset, before, b :: text⟩ else none) := rfl
    rw [hrun, run_anyOfLine]
    by_cases hb : b = 10
    · subst hb
      simp [Cursor.lineEnd, Cursor.line, mayFollow]
    · have hline : (⟨offset, before, b :: text⟩ : Cursor).line =
          b :: (⟨offset + 1, some b, text⟩ : Cursor).line := by
        simp [Cursor.line, hb]
      have hne : (b == 10) = false := beq_eq_false_iff_ne.mpr hb
      simp only [hline, lineEnd_cons hb, hne, Bool.false_eq_true, if_false, Option.or_none]
      rfl

private theorem run_spelled {e : Edit} (h : (10 : UInt8) ∉ e.spelled) (c : Cursor) :
    (Pattern.followedBy (.literal e.spelled) (.followedBy (tail e.mode) .lineEnd)).run some c =
      if e.begins c.line then some c.lineEnd else none := by
  have hrun : (Pattern.followedBy (.literal e.spelled) (.followedBy (tail e.mode) .lineEnd)).run some c =
      (c.pass e.spelled).bind fun d => if mayFollow e.mode d.line then some d.lineEnd else none := by
    show (c.pass e.spelled).bind ((tail e.mode).run (Pattern.lineEnd.run some)) = _
    congr 1
    funext d
    exact run_tail e.mode d
  rw [hrun]
  by_cases hp : e.spelled <+: c.rest
  · obtain ⟨offset, before, text⟩ := c
    obtain ⟨text, rfl⟩ := hp
    rw [Cursor.pass_append, Option.bind_some, Cursor.line_pass h, Cursor.lineEnd_pass h, begins]
    simp
  · have hline : ¬e.spelled <+: c.line := fun hl => hp (hl.trans (List.takeWhile_prefix _))
    have hbegins : e.begins c.line = false := by
      rw [begins, Bool.eq_false_iff.mpr (List.isPrefixOf_iff_prefix.not.mpr hline), Bool.false_and]
    rw [Cursor.pass_eq_none hp, hbegins]
    rfl

/-- The pattern of an edit is its rule. -/
theorem pattern_matchesLines {e : Edit} (h : (10 : UInt8) ∉ e.spelled) : e.pattern.MatchesLines e.accepts := by
  intro c
  have hrun : e.pattern.matchAt c = if c.atLineStart then
      ((c.pass [35]).bind fun d => if e.begins d.line then some d.lineEnd else none).or
        (if e.begins c.line then some c.lineEnd else none) else none := by
    rw [← run_spelled h c]
    simp only [← run_spelled h]
    rfl
  rw [hrun]
  by_cases hs : c.atLineStart = true
  · rw [if_pos hs, hs, Bool.true_and]
    by_cases hp : [35] <+: c.rest
    · obtain ⟨offset, before, text⟩ := c
      obtain ⟨text, rfl⟩ := hp
      have h35 : (10 : UInt8) ∉ [(35 : UInt8)] := by decide
      have hline := Cursor.line_pass h35 text offset before
      rw [Cursor.pass_append, Option.bind_some, ← Cursor.lineEnd_pass h35, accepts, hline]
      simp only [List.singleton_append, List.head?_cons, List.tail_cons, beq_self_eq_true, Bool.true_and]
      cases e.begins _ <;> simp
    · have hhead : (c.line.head? == some 35) = false := by
        apply beq_eq_false_iff_ne.mpr
        intro hh
        obtain ⟨l, hl⟩ := List.head?_eq_some_iff.mp hh
        have hle : [35] <+: c.line := ⟨l, hl.symm⟩
        exact hp (hle.trans (List.takeWhile_prefix _))
      rw [Cursor.pass_eq_none hp, accepts, hhead]
      rfl
  · simp [hs]

/-! ## What it makes of a file -/

theorem lineBytes_eq (e : Edit) : e.lineBytes = Utf8.encode e.key ++ 32 :: Utf8.encode e.value := by
  have hspace : Utf8.encode " " = [32] := by decide +kernel
  rw [lineBytes, line, Utf8.encode_append, Utf8.encode_append, hspace, List.append_assoc]
  rfl

theorem spelled_first (e : Edit) : e.spelled <+: e.lineBytes := by
  rw [spelled]
  split
  · exact List.prefix_rfl
  · rw [lineBytes_eq]
    exact List.prefix_append _ _

def IsLine (e : Edit) : Prop := '\n' ∉ e.key.toList ∧ '\n' ∉ e.value.toList

instance (e : Edit) : Decidable e.IsLine := inferInstanceAs (Decidable (_ ∧ _))

theorem IsLine.newline_not_mem {e : Edit} (h : e.IsLine) : (10 : UInt8) ∉ e.lineBytes := by
  apply Utf8.newline_not_mem_encode
  rw [line]
  simp [h.1, h.2]

/-- An edit rewrites the lines that it accepts, and adds its own where there is none. -/
theorem apply_eq {e : Edit} (h : e.IsLine) (content : Bytes) : e.apply content =
    if (lines content).any e.accepts then unlines ((lines content).map (Pattern.rewrite e.accepts e.lineBytes))
    else e.append content := by
  have hs : (10 : UInt8) ∉ e.spelled := fun hm => h.newline_not_mem ((spelled_first e).subset hm)
  rw [apply, Pattern.replaceAll_eq e.lineBytes (pattern_matchesLines hs)]
  split <;> rfl

end Edit

end SshAuthority.Config
