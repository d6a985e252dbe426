/-!
# Runs that keep to a rule

A rule says which events are allowed where. What each allowed step keeps, a run that keeps to the rule keeps; and
where each such step can be followed by some steps elsewhere, so that the same is seen of them, the whole run can be
followed.
-/
namespace SshAuthority

variable {State Event : Type} {step : State → Event → State} {may may' : State → Event → Prop}

def Allowed (step : State → Event → State) (may : State → Event → Prop) (s : State) : List Event → Prop
  | [] => True
  | e :: es => may s e ∧ Allowed step may (step s e) es

instance Allowed.decidable [∀ s e, Decidable (may s e)] (s : State) :
    (es : List Event) → Decidable (Allowed step may s es)
  | [] => .isTrue trivial
  | e :: es => @instDecidableAnd _ _ _ (Allowed.decidable (step s e) es)

theorem Allowed.preserves {P : State → Prop} (hstep : ∀ {s e}, P s → may s e → P (step s e)) {s : State}
    {es : List Event} (h : P s) (hes : Allowed step may s es) : P (es.foldl step s) := by
  induction es generalizing s with
  | nil => exact h
  | cons e es ih => exact ih (hstep h hes.1) hes.2

theorem Allowed.append {s : State} {es later : List Event} (h : Allowed step may s es)
    (hl : Allowed step may (es.foldl step s) later) : Allowed step may s (es ++ later) := by
  induction es generalizing s with
  | nil => exact hl
  | cons e es ih => exact ⟨h.1, ih h.2 hl⟩

/-- Of the followed run only some events are seen; the others may be left out, or made up. -/
theorem exists_following {R : State → State → Prop} {seen : Event → Bool}
    (hstep : ∀ {s t e}, R s t → may s e →
      ∃ es, es.filter seen = [e].filter seen ∧ Allowed step may' t es ∧ R (step s e) (es.foldl step t))
    {s t : State} {es : List Event} (h : R s t) (hes : Allowed step may s es) :
    ∃ es', es'.filter seen = es.filter seen ∧ Allowed step may' t es' ∧ R (es.foldl step s) (es'.foldl step t) := by
  induction es generalizing s t with
  | nil => exact ⟨[], rfl, trivial, h⟩
  | cons e es ih =>
    obtain ⟨first, hfirst, hmay, hnext⟩ := hstep h hes.1
    obtain ⟨later, hlater, hmay', hlast⟩ := ih hnext hes.2
    refine ⟨first ++ later, ?_, hmay.append hmay', ?_⟩
    · rw [List.filter_append, hfirst, hlater]
      exact (List.filter_append [e] es).symm
    · rwa [List.foldl_append]

end SshAuthority
