/-!
# Lists by place

Calls, handlers and messages are told apart by their places in lists that grow at the end and have single
entries changed.
-/
namespace SshAuthority

variable {α : Type} {l : List α} {a b : α} {i : Nat}

theorem getElem?_modified (h : l[i]? = some a) (f : α → α) (j : Nat) :
    (l.modify i f)[j]? = if j = i then some (f a) else l[j]? := by
  rw [List.getElem?_modify]
  by_cases hj : i = j
  · subst hj
    simp [h]
  · simp [hj, Ne.symm hj]

theorem getElem?_changed {l' : List α} (h : ∀ j : Nat, l'[j]? = if j = i then some a else l[j]?) {j : Nat}
    (hb : l'[j]? = some b) : (j = i ∧ b = a) ∨ (j ≠ i ∧ l[j]? = some b) := by
  rw [h] at hb
  split at hb
  case isTrue hj => exact .inl ⟨hj, (Option.some.inj hb).symm⟩
  case isFalse hj => exact .inr ⟨hj, hb⟩

theorem map_modify {β : Type} {f : α → α} {g : α → β} (h : ∀ a, g (f a) = g a) (l : List α) (i : Nat) :
    (l.modify i f).map g = l.map g := by
  apply List.ext_getElem?
  intro j
  rw [List.getElem?_map, List.getElem?_map, List.getElem?_modify]
  rcases l[j]? with _ | a
  · rfl
  · simp only [Option.map_eq_map, Option.map_some, Option.some.injEq]
    split
    · exact h a
    · rfl

def total (g : α → Nat) : List α → Nat
  | [] => 0
  | a :: l => g a + total g l

theorem total_append (g : α → Nat) (l l' : List α) : total g (l ++ l') = total g l + total g l' := by
  induction l with
  | nil => simp [total]
  | cons a l ih => rw [List.cons_append, total, total, ih, Nat.add_assoc]

theorem total_modify (h : l[i]? = some a) (f : α → α) (g : α → Nat) :
    total g (l.modify i f) + g a = total g l + g (f a) := by
  induction l generalizing i with
  | nil => simp at h
  | cons b l ih =>
    cases i with
    | zero =>
      obtain rfl : b = a := by simpa using h
      simp only [List.modify_zero_cons, total]
      omega
    | succ i =>
      have hl := ih (by simpa using h)
      simp only [List.modify_succ_cons, total]
      omega

theorem total_modify_lt (h : l[i]? = some a) {f : α → α} {g : α → Nat} (hlt : g (f a) < g a) :
    total g (l.modify i f) < total g l := by
  have hm := total_modify h f g
  omega

theorem getElem?_append_old (h : l[i]? = some a) (more : List α) : (l ++ more)[i]? = some a := by
  rw [List.getElem?_append_left (List.getElem?_eq_some_iff.mp h).1, h]

theorem getElem?_append_new (h : (l ++ [a])[i]? = some b) : l[i]? = some b ∨ (i = l.length ∧ b = a) := by
  rcases Nat.lt_or_ge i l.length with hi | hi
  · exact .inl (by rwa [List.getElem?_append_left hi] at h)
  · rw [List.getElem?_append_right hi, List.getElem?_singleton] at h
    split at h
    · exact .inr ⟨by omega, (Option.some.inj h).symm⟩
    · cases h

theorem nodup_append_new (h : l.Nodup) (ha : a ∉ l) : (l ++ [a]).Nodup := by
  refine List.nodup_append.mpr ⟨h, by simp, fun b hb c hc => ?_⟩
  rw [List.mem_singleton.mp hc]
  exact fun he => ha (he ▸ hb)

theorem split_append_new {before after : List α} (h : l ++ [a] = before ++ b :: after) :
    (after = [] ∧ l = before ∧ a = b) ∨ ∃ rest, after = rest ++ [a] ∧ l = before ++ b :: rest := by
  rcases List.eq_nil_or_concat after with rfl | ⟨rest, x, rfl⟩
  · obtain ⟨hl, ha⟩ := List.append_inj' h rfl
    exact .inl ⟨rfl, hl, List.singleton_inj.mp ha⟩
  · rw [List.concat_eq_append, ← List.cons_append, ← List.append_assoc] at h
    obtain ⟨hl, ha⟩ := List.append_inj' h rfl
    exact .inr ⟨rest, by rw [List.concat_eq_append, ha], hl⟩

theorem find?_drop_eq_some {p : α → Bool} {n : Nat} : (l.drop n).find? p = some a ↔
    ∃ m, n ≤ m ∧ l[m]? = some a ∧ p a ∧ ∀ k b, n ≤ k → k < m → l[k]? = some b → ¬p b := by
  rw [List.find?_eq_some_iff_getElem]
  constructor
  · rintro ⟨ha, k, hk, hget, hfirst⟩
    refine ⟨n + k, by omega, ?_, ha, fun j b hn hj hb => ?_⟩
    · rw [← List.getElem?_drop, List.getElem?_eq_getElem hk, hget]
    · have hnot := hfirst (j - n) (by omega)
      obtain ⟨hlt, rfl⟩ := List.getElem?_eq_some_iff.mp hb
      simp only [List.getElem_drop, Nat.add_sub_cancel' hn] at hnot
      simpa using hnot
  · rintro ⟨m, hn, hm, ha, hfirst⟩
    have hget : (l.drop n)[m - n]? = some a := by rw [List.getElem?_drop, Nat.add_sub_cancel' hn, hm]
    obtain ⟨hlt, ha'⟩ := List.getElem?_eq_some_iff.mp hget
    refine ⟨ha, m - n, hlt, ha', fun j hj => ?_⟩
    have hj' : l[n + j]? = some (l.drop n)[j] := by rw [← List.getElem?_drop, List.getElem?_eq_getElem]
    have hnot := hfirst (n + j) (l.drop n)[j] (by omega) (by omega) hj'
    simpa using hnot

end SshAuthority
