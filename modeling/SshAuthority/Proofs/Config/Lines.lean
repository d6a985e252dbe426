import Mathlib.Data.List.Basic
import SshAuthority.Config.Pattern
/-!
# Patterns that match whole lines

A pattern that begins at the start of a line and ends at its end is a rule on lines. Replacing its
matches in a text is replacing the lines that the rule accepts, and no other byte changes.
-/
namespace SshAuthority.Config

/-! ## Lines -/

/-- The stretches between the newlines of a text; what follows the last one counts, empty or not. -/
def lines (text : Bytes) : List Bytes := text.splitOn 10

def unlines (ls : List Bytes) : Bytes := [10].intercalate ls

theorem unlines_lines (text : Bytes) : unlines (lines text) = text := List.intercalate_splitOn 10

theorem lines_unlines {ls : List Bytes} (h : ∀ l ∈ ls, (10 : UInt8) ∉ l) (hn : ls ≠ []) :
    lines (unlines ls) = ls :=
  List.splitOn_intercalate 10 h hn

theorem lines_single {l : Bytes} (h : (10 : UInt8) ∉ l) : lines l = [l] := List.splitOn_eq_singleton h

theorem lines_append (l text : Bytes) : lines (l ++ 10 :: text) = lines l ++ lines text :=
  List.splitOn_append_cons_self l text

theorem lines_ne_nil (text : Bytes) : lines text ≠ [] := List.splitOn_ne_nil 10 text

theorem unlines_cons (l : Bytes) {ls : List Bytes} (h : ls ≠ []) : unlines (l :: ls) = l ++ 10 :: unlines ls := by
  obtain ⟨m, ms, rfl⟩ := List.exists_cons_of_ne_nil h
  simp [unlines, List.intercalate_cons_cons]

theorem lines_cons (b : UInt8) (text : Bytes) :
    lines (b :: text) = if b = 10 then [] :: lines text else (lines text).modifyHead (b :: ·) := by
  simpa [lines] using List.splitOn_cons_eq_if_modifyHead (a := 10) b text

theorem newline_not_mem_lines {text l : Bytes} (h : l ∈ lines text) : (10 : UInt8) ∉ l := by
  induction text generalizing l with
  | nil =>
    rw [lines, List.splitOn_nil, List.mem_singleton] at h
    simp [h]
  | cons b text ih =>
    rw [lines_cons] at h
    split at h
    case isTrue =>
      rcases List.mem_cons.mp h with rfl | h
      · simp
      · exact ih h
    case isFalse hb =>
      obtain ⟨m, ms, hm⟩ := List.exists_cons_of_ne_nil (lines_ne_nil text)
      rw [hm] at h ih
      rcases List.mem_cons.mp h with rfl | h
      · have hm' := ih List.mem_cons_self
        simp [Ne.symm hb, hm']
      · exact ih (List.mem_cons_of_mem _ h)

/-- Induction on the lines of a text, from the first to the last. -/
theorem byLines {P : Bytes → Prop} (last : ∀ l, (10 : UInt8) ∉ l → P l)
    (more : ∀ l text, (10 : UInt8) ∉ l → P text → P (l ++ 10 :: text)) (text : Bytes) : P text := by
  have hall : ∀ ls : List Bytes, ls ≠ [] → (∀ l ∈ ls, (10 : UInt8) ∉ l) → P (unlines ls) := by
    intro ls
    induction ls with
    | nil => intro hn _; exact absurd rfl hn
    | cons l ls ih =>
      intro _ hl
      by_cases hn : ls = []
      · subst hn
        simpa [unlines] using last l (hl l List.mem_cons_self)
      · rw [unlines_cons l hn]
        exact more l _ (hl l List.mem_cons_self) (ih hn fun m hm => hl m (List.mem_cons_of_mem _ hm))
  rw [← unlines_lines text]
  exact hall _ (lines_ne_nil text) fun l => newline_not_mem_lines

/-! ## Rules on lines -/

namespace Cursor

def line (c : Cursor) : Bytes := c.rest.takeWhile (· != 10)

def lineEnd (c : Cursor) : Cursor :=
  ⟨c.offset + c.line.length, c.line.getLast?.or c.before, c.rest.drop c.line.length⟩

theorem bne_newline {l : Bytes} (h : (10 : UInt8) ∉ l) : ∀ b ∈ l, (b != 10) = true := by
  intro b hb
  apply bne_iff_ne.mpr
  intro he
  subst he
  exact h hb

theorem line_append {l : Bytes} (h : (10 : UInt8) ∉ l) (offset : Nat) (before : Option UInt8) (text : Bytes) :
    (⟨offset, before, l ++ 10 :: text⟩ : Cursor).line = l := by
  rw [line, List.takeWhile_append_of_pos (bne_newline h)]
  simp

theorem line_last {l : Bytes} (h : (10 : UInt8) ∉ l) (offset : Nat) (before : Option UInt8) :
    (⟨offset, before, l⟩ : Cursor).line = l := by
  have hl : (l ++ []).takeWhile (· != 10) = l ++ [].takeWhile (· != 10) :=
    List.takeWhile_append_of_pos (bne_newline h)
  simpa [line] using hl

end Cursor

namespace Pattern

/-- A pattern that matches the lines a rule accepts, each from its start to its end, and nothing else. -/
def MatchesLines (p : Pattern) (accepts : Bytes → Bool) : Prop :=
  ∀ c : Cursor, p.matchAt c = if c.atLineStart && accepts c.line then some c.lineEnd else none

section

variable {p : Pattern} {accepts : Bytes → Bool} {l text : Bytes} {offset : Nat} {before : Option UInt8}
  {b : UInt8} (new : Bytes) (found fresh : Bool) (done : List Bytes)

private theorem replaceFrom_nil (h : p.matchAt ⟨offset, before, []⟩ = none) :
    p.replaceFrom new found done fresh ⟨offset, before, []⟩ = (done.reverse, found) := by
  rw [replaceFrom]
  simp [h]

private theorem replaceFrom_cons (h : p.matchAt ⟨offset, before, b :: text⟩ = none) :
    p.replaceFrom new found done fresh ⟨offset, before, b :: text⟩ =
      p.replaceFrom new found ([b] :: done) true ⟨offset + 1, some b, text⟩ := by
  rw [replaceFrom]
  simp [h]

private theorem matchAt_within (h : p.MatchesLines accepts) (hb : b ≠ 10) (offset : Nat) (text : Bytes) :
    p.matchAt ⟨offset, some b, text⟩ = none := by
  rw [h]
  simp [Cursor.atLineStart, hb]

private theorem replaceFrom_last (h : p.MatchesLines accepts) (hl : (10 : UInt8) ∉ l)
    (hn : p.matchAt ⟨offset, before, l⟩ = none) :
    (p.replaceFrom new found done fresh ⟨offset, before, l⟩).1.flatten = done.reverse.flatten ++ l ∧
      (p.replaceFrom new found done fresh ⟨offset, before, l⟩).2 = found := by
  induction l generalizing offset before done fresh with
  | nil => simp [replaceFrom_nil _ _ _ _ hn]
  | cons b l ih =>
    obtain ⟨hb, hl⟩ := not_or.mp (List.mem_cons.not.mp hl)
    obtain ⟨hbytes, hfound⟩ := ih true ([b] :: done) hl (matchAt_within h (Ne.symm hb) _ _)
    rw [replaceFrom_cons _ _ _ _ hn]
    exact ⟨by rw [hbytes]; simp, hfound⟩

private theorem replaceFrom_line (h : p.MatchesLines accepts) (hl : (10 : UInt8) ∉ l)
    (hn : p.matchAt ⟨offset, before, l ++ 10 :: text⟩ = none) :
    ∃ done' offset', done'.reverse.flatten = done.reverse.flatten ++ l ++ [10] ∧
      p.replaceFrom new found done fresh ⟨offset, before, l ++ 10 :: text⟩ =
        p.replaceFrom new found done' true ⟨offset', some 10, text⟩ := by
  induction l generalizing offset before done fresh with
  | nil => exact ⟨[10] :: done, offset + 1, by simp, replaceFrom_cons _ _ _ _ hn⟩
  | cons b l ih =>
    obtain ⟨hb, hl⟩ := not_or.mp (List.mem_cons.not.mp hl)
    obtain ⟨done', offset', hdone, hrest⟩ := ih true ([b] :: done) hl (matchAt_within h (Ne.symm hb) _ _)
    refine ⟨done', offset', by rw [hdone]; simp, ?_⟩
    rw [← hrest]
    exact replaceFrom_cons _ _ _ _ hn

private theorem replaceFrom_accepted (h : p.MatchesLines accepts) (hl : (10 : UInt8) ∉ l)
    (hs : (⟨offset, before, l ++ text⟩ : Cursor).atLineStart = true)
    (hline : (⟨offset, before, l ++ text⟩ : Cursor).line = l) (ha : accepts l = true) (hn : l ≠ []) :
    ∃ offset' last, p.replaceFrom new found done fresh ⟨offset, before, l ++ text⟩ =
        p.replaceFrom new true (new :: done) false ⟨offset', some last, text⟩ ∧
      p.matchAt ⟨offset', some last, text⟩ = none := by
  have hlast : l.getLast?.or before = some (l.getLast hn) := by simp [List.getLast?_eq_getLast_of_ne_nil hn]
  have hm : p.matchAt ⟨offset, before, l ++ text⟩ = some ⟨offset + l.length, some (l.getLast hn), text⟩ := by
    rw [h, hs, hline, ha, ← hlast]
    simp [Cursor.lineEnd, hline]
  have hne : l.getLast hn ≠ 10 := fun he => hl (he ▸ List.getLast_mem hn)
  refine ⟨offset + l.length, l.getLast hn, ?_, matchAt_within h hne _ _⟩
  obtain ⟨b, l, rfl⟩ := List.exists_cons_of_ne_nil hn
  rw [List.cons_append] at hm ⊢
  rw [replaceFrom]
  simp [hm]

/-- What a rule makes of a line. -/
def rewrite (accepts : Bytes → Bool) (new l : Bytes) : Bytes := if accepts l then new else l

private theorem replaceFrom_lastLine (h : p.MatchesLines accepts) (hl : (10 : UInt8) ∉ l)
    (hs : (⟨offset, before, l⟩ : Cursor).atLineStart = true) :
    (p.replaceFrom new found done true ⟨offset, before, l⟩).1.flatten =
        done.reverse.flatten ++ rewrite accepts new l ∧
      (p.replaceFrom new found done true ⟨offset, before, l⟩).2 = (found || accepts l) := by
  have hline := Cursor.line_last hl offset before
  have hm := h ⟨offset, before, l⟩
  rw [hs, hline, Bool.true_and] at hm
  cases ha : accepts l with
  | true =>
    rw [ha, if_pos rfl] at hm
    by_cases hn : l = []
    · subst hn
      rw [replaceFrom]
      simp [hm, Cursor.lineEnd, hline, rewrite, ha]
    · have hl' : l ++ [] = l := List.append_nil l
      obtain ⟨offset', last, hstep, hend⟩ :=
        replaceFrom_accepted new found true done h hl (hl'.symm ▸ hs) (hl'.symm ▸ hline) ha hn
      rw [hl'] at hstep
      rw [hstep, replaceFrom_nil _ _ _ _ hend]
      simp [rewrite, ha]
  | false =>
    rw [ha, if_neg (by simp)] at hm
    rw [Bool.or_false, rewrite, ha]
    exact replaceFrom_last new found true done h hl hm

private theorem replaceFrom_nextLine (h : p.MatchesLines accepts) (hl : (10 : UInt8) ∉ l)
    (hs : (⟨offset, before, l ++ 10 :: text⟩ : Cursor).atLineStart = true) :
    ∃ done' offset', done'.reverse.flatten = done.reverse.flatten ++ rewrite accepts new l ++ [10] ∧
      p.replaceFrom new found done true ⟨offset, before, l ++ 10 :: text⟩ =
        p.replaceFrom new (found || accepts l) done' true ⟨offset', some 10, text⟩ := by
  have hline := Cursor.line_append hl offset before text
  have hm := h ⟨offset, before, l ++ 10 :: text⟩
  rw [hs, hline, Bool.true_and] at hm
  cases ha : accepts l with
  | true =>
    rw [ha, if_pos rfl] at hm
    rw [Bool.or_true, rewrite, ha, if_pos rfl]
    by_cases hn : l = []
    · subst hn
      refine ⟨[10] :: new :: done, offset + 1, by simp, ?_⟩
      rw [List.nil_append] at hm hline ⊢
      rw [replaceFrom]
      simp [hm, Cursor.lineEnd, hline]
    · obtain ⟨offset', last, hstep, hend⟩ :=
        replaceFrom_accepted new found true done h hl hs hline ha hn
      exact ⟨[10] :: new :: done, offset' + 1, by simp, hstep.trans (replaceFrom_cons _ _ _ _ hend)⟩
  | false =>
    rw [ha, if_neg (by simp)] at hm
    rw [Bool.or_false, rewrite, ha]
    exact replaceFrom_line new found true done h hl hm

private theorem replaceFrom_lines (h : p.MatchesLines accepts)
    (hs : (⟨offset, before, text⟩ : Cursor).atLineStart = true) :
    (p.replaceFrom new found done true ⟨offset, before, text⟩).1.flatten =
        done.reverse.flatten ++ unlines ((lines text).map (rewrite accepts new)) ∧
      (p.replaceFrom new found done true ⟨offset, before, text⟩).2 = (found || (lines text).any accepts) := by
  induction text using byLines generalizing offset before done found with
  | last l hl =>
    rw [lines_single hl]
    simpa [unlines] using replaceFrom_lastLine new found done h hl hs
  | more l text hl ih =>
    obtain ⟨done', offset', hdone, hstep⟩ := replaceFrom_nextLine new found done h hl hs
    have hs' : (⟨offset', some 10, text⟩ : Cursor).atLineStart = true := rfl
    obtain ⟨hbytes, hfound⟩ := ih (found || accepts l) done' hs'
    have hne : (lines text).map (rewrite accepts new) ≠ [] := by simpa using lines_ne_nil text
    rw [hstep, lines_append, lines_single hl]
    constructor
    · rw [hbytes, hdone, List.singleton_append, List.map_cons, unlines_cons _ hne]
      simp
    · rw [hfound, List.singleton_append, List.any_cons, Bool.or_assoc]

/-- Replacing the matches of a pattern is rewriting the lines that its rule accepts, if there are any. -/
theorem replaceAll_eq (h : p.MatchesLines accepts) (text : Bytes) : p.replaceAll new text =
    if (lines text).any accepts then some (unlines ((lines text).map (rewrite accepts new))) else none := by
  have hs : (Cursor.start text).atLineStart = true := rfl
  obtain ⟨hbytes, hfound⟩ := replaceFrom_lines new false [] h hs
  rw [Bool.false_or] at hfound
  rw [List.reverse_nil, List.flatten_nil, List.nil_append] at hbytes
  simp only [replaceAll, Cursor.start] at hbytes hfound ⊢
  simp [hfound, hbytes]

end

end Pattern

end SshAuthority.Config
