import Mathlib.Data.List.Permutation
import SshAuthority.Proofs.Json.Meaning
/-!
# Members in any order

Members of an object fill the slots of a record one after the other. What a slot is filled with depends neither on
the order of the members nor on those that have other names, and a slot is filled only once.
-/
namespace SshAuthority.Json

def Document.isPlain : Document → Bool
  | .null | .boolean _ | .text _ | .torn => true
  | .number _ | .list _ | .object _ => false

/-- The members of an object in any order, and with others whose names are unknown and which are plain. -/
def Arranged (fields : List String) (known ms : List (String × Document)) : Prop :=
  ∃ extras, (∀ m ∈ extras, m.1 ∉ fields ∧ m.2.isPlain = true) ∧ ms.Perm (known ++ extras)

/-- A known member stands twice in its object. -/
def Twice (fields : List String) (ms : List (String × Document)) : Prop :=
  ∃ name ∈ fields, 2 ≤ (ms.map Prod.fst).count name

/-! ## Folds over members -/

section

variable {σ : Type} {f : σ → String × Document → Option σ}

theorem foldlM_filter {p : String → Bool} (h : ∀ s m, p m.1 = false → f s m = some s)
    (ms : List (String × Document)) (s : σ) : ms.foldlM f s = (ms.filter fun m => p m.1).foldlM f s := by
  induction ms generalizing s with
  | nil => rfl
  | cons m ms ih =>
    cases hm : p m.1 with
    | true =>
      rw [List.filter_cons, if_pos hm, List.foldlM_cons, List.foldlM_cons]
      exact congrArg (Option.bind (f s m)) (funext ih)
    | false =>
      rw [List.filter_cons, if_neg (by simp [hm]), List.foldlM_cons, h s m hm]
      exact ih s

theorem foldlM_preserves {P : σ → Prop} (stay : ∀ {s t m}, P s → f s m = some t → P t)
    {ms : List (String × Document)} {s t : σ} (hs : P s) (h : ms.foldlM f s = some t) : P t := by
  induction ms generalizing s with
  | nil => rwa [← Option.some.inj h]
  | cons m ms ih =>
    rw [List.foldlM_cons] at h
    obtain ⟨u, hu, hrest⟩ := Option.bind_eq_some_iff.mp h
    exact ih (stay hs hu) hrest

/-- Where a member leads only to states that are not left again, one of these is where the members lead. -/
theorem foldlM_trapped {P : σ → Prop} {m : String × Document} (enter : ∀ {s t}, f s m = some t → P t)
    (stay : ∀ {s t m}, P s → f s m = some t → P t) {ms : List (String × Document)} (hm : m ∈ ms) {s t : σ}
    (h : ms.foldlM f s = some t) : P t := by
  induction ms generalizing s with
  | nil => cases hm
  | cons n ms ih =>
    rw [List.foldlM_cons] at h
    obtain ⟨u, hu, hrest⟩ := Option.bind_eq_some_iff.mp h
    cases hm with
    | head => exact foldlM_preserves stay (enter hu) hrest
    | tail _ hm => exact ih hm hrest

/-- A member that is refused once it has been taken cannot be taken twice. The induction counts how often it is still
to come, and whether it has been taken. -/
theorem foldlM_twice {name : String} (taken : σ → Bool)
    (take : ∀ {s t v}, f s (name, v) = some t → taken s = false ∧ taken t = true)
    (keep : ∀ {s t n}, f s n = some t → taken s = true → taken t = true) {ms : List (String × Document)} {s : σ}
    (h : 2 ≤ (ms.map Prod.fst).count name + (taken s).toNat) : ms.foldlM f s = none := by
  induction ms generalizing s with
  | nil =>
    have hle := (taken s).toNat_le
    simp only [List.map_nil, List.count_nil] at h
    omega
  | cons m ms ih =>
    rw [List.foldlM_cons]
    cases hm : f s m with
    | none => rfl
    | some t =>
      rw [List.map_cons] at h
      apply ih
      by_cases hname : m.1 = name
      · subst hname
        obtain ⟨hs, ht⟩ := take hm
        rw [List.count_cons_self, hs] at h
        rw [ht]
        exact h
      · rw [List.count_cons_of_ne hname] at h
        cases hs : taken s with
        | false =>
          rw [hs] at h
          exact Nat.le_add_right_of_le h
        | true =>
          rw [keep hm hs]
          rwa [hs] at h

end

/-! ## Slots -/

section

variable {α : Type} {name : String} {fields : List String} {known ms : List (String × Document)} {v : Document}

def collect (name : String) (meaning : Document → Option α) (ms : List (String × Document)) (slot : Option α) :
    Option (Option α) :=
  ms.foldlM (fun slot m => if m.1 = name then fill slot (meaning m.2) else some slot) slot

@[simp]
theorem collect_cons (name other : String) (meaning : Document → Option α) (v : Document)
    (ms : List (String × Document)) (slot : Option α) : collect name meaning ((other, v) :: ms) slot =
      if other = name then (fill slot (meaning v)).bind (collect name meaning ms)
      else collect name meaning ms slot := by
  rw [collect, List.foldlM_cons]
  split <;> rfl

theorem collect_of_mem {meaning : Document → Option α} (h : (name, v) ∈ ms) (hv : meaning v = none) (slot : Option α) :
    collect name meaning ms slot = none := by
  rw [Option.eq_none_iff_forall_ne_some]
  intro t ht
  apply foldlM_trapped (P := fun _ => False) _ _ h ht
  · intro s t hs
    rw [if_pos rfl, hv] at hs
    cases s <;> cases hs
  · exact fun hs _ => hs

theorem collect_of_twice (h : 2 ≤ (ms.map Prod.fst).count name) (meaning : Document → Option α) (slot : Option α) :
    collect name meaning ms slot = none := by
  have hfill : ∀ {slot : Option α} {value s}, fill slot value = some s → slot.isSome = false ∧ s.isSome = true := by
    intro slot value s hs
    cases slot <;> cases value <;> cases hs
    exact ⟨rfl, rfl⟩
  apply foldlM_twice Option.isSome _ _ (Nat.le_add_right_of_le h)
  · intro s t v hm
    rw [if_pos rfl] at hm
    exact hfill hm
  · intro s t n hm hs
    split at hm
    · exact (hfill hm).2
    · rwa [← Option.some.inj hm]

theorem Arranged.filter_perm (h : Arranged fields known ms) {p : String → Bool}
    (hp : ∀ name, p name = true → name ∈ fields) :
    (ms.filter fun m => p m.1).Perm (known.filter fun m => p m.1) := by
  obtain ⟨extras, hextras, hperm⟩ := h
  have hnone : (extras.filter fun m => p m.1) = [] := by
    rw [List.filter_eq_nil_iff]
    intro m hm hpm
    exact (hextras m hm).1 (hp _ hpm)
  have hfilter := hperm.filter fun m => p m.1
  rwa [List.filter_append, hnone, List.append_nil] at hfilter

theorem Arranged.mem_of_known (h : Arranged fields known ms) {m : String × Document} (hm : m ∈ known) : m ∈ ms := by
  obtain ⟨extras, -, hperm⟩ := h
  exact hperm.mem_iff.mpr (List.mem_append_left extras hm)

theorem Arranged.collect (h : Arranged fields known ms) (name : String) (hname : name ∈ fields)
    (hknown : (known.filter fun m => m.1 == name) = [(name, v)]) (meaning : Document → Option α) :
    collect name meaning ms none = (meaning v).map some := by
  have hperm : (ms.filter fun m => m.1 == name).Perm [(name, v)] := by
    rw [← hknown]
    apply h.filter_perm (p := (· == name))
    intro other hother
    rwa [beq_iff_eq.mp hother]
  rw [Json.collect, foldlM_filter (p := (· == name)), List.perm_singleton.mp hperm]
  · simp only [List.foldlM_cons, List.foldlM_nil, if_true, fill]
    cases meaning v <;> rfl
  · intro s m hm
    rw [if_neg (by simpa using hm)]

end

/-! ## Kept values -/

section

variable {f : Document → Option Value} {depth : Nat} {d : Document} {v : Value} {ms : List (String × Document)}

private theorem documents_of_mapM (hf : ∀ {d v}, f d = some v → v.document = d) {ds : List Document}
    {vs : List Value} (h : ds.mapM f = some vs) : Value.documents vs = ds := by
  induction ds generalizing vs with
  | nil =>
    cases h
    rfl
  | cons d ds ih =>
    rw [List.mapM_cons] at h
    obtain ⟨v, hv, hrest⟩ := Option.bind_eq_some_iff.mp h
    obtain ⟨vs', hvs, hend⟩ := Option.bind_eq_some_iff.mp hrest
    cases hend
    rw [Value.documents, hf hv, ih hvs]

private theorem documentMembers_of_mapM (hf : ∀ {d v}, f d = some v → v.document = d) {vs : List (String × Value)}
    (h : (ms.mapM fun m => (f m.2).map (m.1, ·)) = some vs) : Value.documentMembers vs = ms := by
  induction ms generalizing vs with
  | nil =>
    cases h
    rfl
  | cons m ms ih =>
    rw [List.mapM_cons] at h
    obtain ⟨v, hv, hrest⟩ := Option.bind_eq_some_iff.mp h
    obtain ⟨vs', hvs, hend⟩ := Option.bind_eq_some_iff.mp hrest
    obtain ⟨w, hw, rfl⟩ := Option.map_eq_some_iff.mp hv
    cases hend
    rw [Value.documentMembers, hf hw, ih hvs]

/-- A document that is kept is the document of the value it is kept as. -/
theorem document_of_value? (h : d.value? depth = some v) : v.document = d := by
  induction depth generalizing d v with
  | zero => cases d <;> cases h <;> rfl
  | succ depth ih =>
    cases d with
    | list ds =>
      obtain ⟨vs, hvs, rfl⟩ := Option.map_eq_some_iff.mp h
      rw [Value.document, documents_of_mapM ih hvs]
    | object ms =>
      obtain ⟨vs, hvs, rfl⟩ := Option.map_eq_some_iff.mp h
      rw [Value.document, documentMembers_of_mapM ih hvs]
    | torn => cases h
    | _ =>
      cases h
      rfl

theorem value?_object (h : (Document.object ms).value? depth = some v) :
    ∃ vs, v = .object vs ∧ Value.documentMembers vs = ms := by
  have hv := document_of_value? h
  cases v with
  | object vs => exact ⟨vs, rfl, Document.object.inj hv⟩
  | _ => cases hv

theorem exists_value?_object (h : ∀ m ∈ ms, ∃ v, m.2.value? depth = some v) :
    ∃ v, (Document.object ms).value? (depth + 1) = some v := by
  have hmembers : ∃ vs, (ms.mapM fun m => (m.2.value? depth).map (m.1, ·)) = some vs := by
    induction ms with
    | nil => exact ⟨[], rfl⟩
    | cons m ms ih =>
      obtain ⟨v, hv⟩ := h m List.mem_cons_self
      obtain ⟨vs, hvs⟩ := ih fun n hn => h n (List.mem_cons_of_mem m hn)
      rw [List.mapM_cons, hv, hvs]
      exact ⟨(m.1, v) :: vs, rfl⟩
  obtain ⟨vs, hvs⟩ := hmembers
  rw [Document.value?, hvs]
  exact ⟨.object vs, rfl⟩

theorem exists_value?_of_isPlain (h : d.isPlain = true) (torn : d ≠ .torn) (depth : Nat) :
    ∃ v, d.value? depth = some v := by
  cases d with
  | torn => exact absurd rfl torn
  | number | list | object => cases h
  | _ => cases depth <;> exact ⟨_, rfl⟩

end

/-! ## Lists of texts -/

section

variable (texts : List String)

theorem value?_texts (depth : Nat) :
    (Value.list (texts.map .text)).document.value? (depth + 1) = some (.list (texts.map .text)) := by
  have hitems : (Value.documents (texts.map .text)).mapM (Document.value? depth) = some (texts.map .text) := by
    induction texts with
    | nil => rfl
    | cons t texts ih =>
      rw [List.map_cons, Value.documents, List.mapM_cons, ih, Value.document]
      cases depth <;> rfl
  rw [Value.document, Document.value?, hitems]
  rfl

theorem list?_texts : (Value.list (texts.map .text)).document.list? Document.text? = some texts := by
  rw [Value.document, Document.list?]
  induction texts with
  | nil => rfl
  | cons t texts ih =>
    rw [List.map_cons, Value.documents, List.mapM_cons, ih]
    rfl

theorem areWhole_texts : Document.areWhole (Value.documents (texts.map .text)) = true := by
  induction texts with
  | nil => rfl
  | cons t texts ih => exact ih

end

end SshAuthority.Json
