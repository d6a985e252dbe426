import SshAuthority.Host.Path
/-!
# Components of paths

A path is its segments, and its components are those of the segments but for the idle ones. Another name for its
last component leaves the components before it.
-/
namespace SshAuthority.Path

/-! ## Segments -/

theorem segments_ne_nil (p : Bytes) : segments p ≠ [] := by
  cases p with
  | nil => simp [segments]
  | cons b p =>
    rw [segments]
    split
    · simp
    · split <;> simp

theorem slash_not_mem_segments {p s : Bytes} (h : s ∈ segments p) : slash ∉ s := by
  induction p generalizing s with
  | nil => simp_all [segments]
  | cons b p ih =>
    rw [segments] at h
    split at h
    case isTrue hb =>
      rcases List.mem_cons.mp h with rfl | h
      · simp
      · exact ih h
    case isFalse hb =>
      split at h
      case h_1 hp => exact absurd hp (segments_ne_nil p)
      case h_2 first rest hp =>
        rcases List.mem_cons.mp h with rfl | h
        · rw [List.mem_cons, not_or]
          exact ⟨Ne.symm hb, ih (by rw [hp]; exact List.mem_cons_self)⟩
        · exact ih (by rw [hp]; exact List.mem_cons_of_mem _ h)

theorem joinSegments_cons (s : Bytes) {rest : List Bytes} (h : rest ≠ []) :
    joinSegments (s :: rest) = s ++ slash :: joinSegments rest := by
  cases rest with
  | nil => exact absurd rfl h
  | cons => rfl

theorem joinSegments_segments (p : Bytes) : joinSegments (segments p) = p := by
  induction p with
  | nil => rfl
  | cons b p ih =>
    rw [segments]
    split
    case isTrue hb => rw [joinSegments_cons _ (segments_ne_nil p), ih, hb]; rfl
    case isFalse hb =>
      rcases hp : segments p with _ | ⟨first, rest⟩
      · exact absurd hp (segments_ne_nil p)
      · rw [hp] at ih
        rw [← ih]
        cases rest <;> rfl

theorem segments_append_front {s p first : Bytes} {rest : List Bytes} (h : slash ∉ s)
    (hp : segments p = first :: rest) : segments (s ++ p) = (s ++ first) :: rest := by
  induction s with
  | nil => exact hp
  | cons b s ih =>
    rw [List.mem_cons, not_or] at h
    rw [List.cons_append, segments, if_neg (Ne.symm h.1), ih h.2]
    rfl

theorem segments_joinSegments {ss : List Bytes} (hn : ss ≠ []) (h : ∀ s ∈ ss, slash ∉ s) :
    segments (joinSegments ss) = ss := by
  induction ss with
  | nil => exact absurd rfl hn
  | cons s rest ih =>
    have hs := h s List.mem_cons_self
    cases rest with
    | nil =>
      have single := segments_append_front (p := []) hs rfl
      rwa [List.append_nil] at single
    | cons t rest =>
      have hrest := ih (List.cons_ne_nil t rest) fun s hs => h s (List.mem_cons_of_mem _ hs)
      have single := segments_append_front (p := slash :: joinSegments (t :: rest)) hs rfl
      rw [joinSegments_cons s (List.cons_ne_nil t rest), single, List.append_nil, hrest]

theorem joinSegments_append_last (front : List Bytes) (l e : Bytes) :
    joinSegments (front ++ [l ++ e]) = joinSegments (front ++ [l]) ++ e := by
  induction front with
  | nil => rfl
  | cons s front ih =>
    rw [List.cons_append, List.cons_append, joinSegments_cons _ (by simp), joinSegments_cons _ (by simp), ih]
    simp

theorem segments_append_end {p e l : Bytes} {front : List Bytes} (h : segments p = front ++ [l]) (he : slash ∉ e) :
    segments (p ++ e) = front ++ [l ++ e] := by
  have hp : joinSegments (front ++ [l]) = p := by rw [← h, joinSegments_segments]
  rw [← hp, ← joinSegments_append_last]
  refine segments_joinSegments (by simp) fun s hs => ?_
  have free : ∀ t ∈ front ++ [l], slash ∉ t := fun t ht => slash_not_mem_segments (h ▸ ht)
  rcases List.mem_append.mp hs with hs | hs
  · exact free s (List.mem_append_left _ hs)
  · rw [List.mem_singleton.mp hs, List.mem_append, not_or]
    exact ⟨free l (by simp), he⟩

theorem exists_segments (p : Bytes) : ∃ front l, segments p = front ++ [l] := by
  rcases List.eq_nil_or_concat (segments p) with h | ⟨front, l, h⟩
  · exact absurd h (segments_ne_nil p)
  · exact ⟨front, l, by rw [h, List.concat_eq_append]⟩

/-! ## Components -/

/-- What names something in the directory it stands in. -/
structure IsName (n : Bytes) : Prop where
  slash_not_mem : slash ∉ n
  not_idle : isIdle n = false
  ne_up : n ≠ up

theorem IsName.ne_here {n : Bytes} (h : IsName n) : n ≠ here := by
  rintro rfl
  cases h.not_idle

/-- The components of segments of which none is a start. -/
def named (body : List Bytes) : List Component :=
  (body.filter fun s => !isIdle s).map fun s => if s == up then .up else .name s

def Start.segments : Start → List Bytes
  | .root => [[]]
  | .here => [Path.here]
  | .nowhere => []

def Start.components : Start → List Component
  | .root => [.root]
  | .here => [.here]
  | .nowhere => []

/-- The components before the last, of the segments before it. -/
def lead : List Bytes → List Component
  | [] => []
  | s :: rest =>
    if s.isEmpty then .root :: named rest else if s == here then .here :: named rest else named (s :: rest)

theorem named_append (body more : List Bytes) : named (body ++ more) = named body ++ named more := by
  simp [named]

theorem named_single {n : Bytes} (h : IsName n) : named [n] = [.name n] := by
  simp [named, h.not_idle, h.ne_up]

/-- A body that a path starting from nowhere may have begins with no idle segment. -/
def Start.Fits (start : Start) (body : List Bytes) : Prop :=
  start = .nowhere → ∀ s ∈ body.head?, isIdle s = false

theorem lead_eq {start : Start} {body : List Bytes} (h : start.Fits body) :
    lead (start.segments ++ body) = start.components ++ named body := by
  cases start with
  | root | here => rfl
  | nowhere =>
    cases body with
    | nil => rfl
    | cons s rest =>
      have hs := h rfl s rfl
      rw [isIdle, Bool.or_eq_false_iff] at hs
      simp [Start.segments, Start.components, lead, hs]

theorem parts_eq {p n : Bytes} {front : List Bytes} (hp : segments p = front ++ [n]) (hn : IsName n) :
    ∃ start body, front = start.segments ++ body ∧ parts p = ⟨start, body ++ [n]⟩ ∧ start.Fits body := by
  cases front with
  | nil =>
    refine ⟨.nowhere, [], rfl, ?_, by simp [Start.Fits]⟩
    simp [parts, hp, hn.ne_here]
  | cons s rest =>
    by_cases hs : s = []
    · subst hs
      exact ⟨.root, rest, rfl, by simp [parts, hp], by simp [Start.Fits]⟩
    · by_cases hh : s = here
      · subst hh
        exact ⟨.here, rest, rfl, by simp [parts, hp, here], by simp [Start.Fits]⟩
      · refine ⟨.nowhere, s :: rest, rfl, by simp [parts, hp, hs, hh], ?_⟩
        simp [Start.Fits, isIdle, hs, hh]

theorem lead_eq_nil_iff {front : List Bytes} : lead front = [] ↔ front = [] := by
  cases front with
  | nil => simp [lead]
  | cons s rest =>
    by_cases hs : s = []
    · simp [lead, hs]
    · by_cases hh : s = here
      · simp [lead, hh, here]
      · simp [lead, named, isIdle, hs, hh]

theorem components_concat {p l : Bytes} {front : List Bytes} (hp : segments p = front ++ [l]) :
    components p = if lead front = [] ∧ l = here then [.here] else lead front ++ named [l] := by
  simp only [lead_eq_nil_iff]
  cases front with
  | nil =>
    by_cases hl : l = here
    · simp [components, parts, hp, hl, here]
    · simp [components, parts, hp, hl, lead, named]
  | cons s rest =>
    rw [if_neg fun h => List.cons_ne_nil s rest h.1]
    by_cases hs : s = []
    · simp [components, parts, hp, hs, lead, named]
    · by_cases hh : s = here
      · simp [components, parts, hp, hh, lead, named, here]
      · have hc : components p = named (s :: rest ++ [l]) := by simp [components, parts, hp, hs, hh, named]
        have hl : lead (s :: rest) = named (s :: rest) := by simp [lead, hs, hh]
        rw [hc, hl, named_append]

/-- The components of a path whose last segment is a name. -/
theorem components_eq {p n : Bytes} {front : List Bytes} (hp : segments p = front ++ [n]) (hn : IsName n) :
    components p = lead front ++ [.name n] := by
  rw [components_concat hp, if_neg fun h => hn.ne_here h.2, named_single hn]

/-- A path does not lead to a longer name in the place of its last segment. -/
theorem components_ne_of_longer {p l e : Bytes} {front : List Bytes} (hp : segments p = front ++ [l]) (he : e ≠ []) :
    components p ≠ lead front ++ [.name (l ++ e)] := by
  rw [components_concat hp]
  split
  case isTrue h =>
    rw [h.1]
    simp
  case isFalse =>
    intro h
    have added : Component.name (l ++ e) ∈ named [l] := by
      rw [List.append_cancel_left h]
      exact List.mem_singleton_self _
    obtain ⟨s, hs, hname⟩ := List.mem_map.mp added
    obtain rfl := List.mem_singleton.mp (List.mem_filter.mp hs).1
    split at hname
    · cases hname
    · exact he (List.self_eq_append_right.mp (Component.name.inj hname))

theorem fileName_eq {p n : Bytes} {front : List Bytes} (hp : segments p = front ++ [n]) (hn : IsName n) :
    fileName p = some n := by
  simp [fileName, components_eq hp hn]

/-! ## Another name in the same directory -/

theorem named_withoutIdleEnd (body : List Bytes) : named (withoutIdleEnd body) = named body := by
  have hr := List.takeWhile_append_dropWhile (p := isIdle) (l := body.reverse)
  have hi : named (body.reverse.takeWhile isIdle).reverse = [] := by
    have idle : ∀ s ∈ body.reverse.takeWhile isIdle, isIdle s = true :=
      fun s hs => List.all_eq_true.mp List.all_takeWhile s hs
    simpa [named] using idle
  have hc := congrArg List.reverse hr
  rw [List.reverse_append, List.reverse_reverse] at hc
  have hn := congrArg named hc
  rw [named_append, hi, List.append_nil] at hn
  exact hn

private theorem withoutIdleEnd_concat (body : List Bytes) {n : Bytes} (hn : IsName n) :
    withoutIdleEnd (body ++ [n]) = body ++ [n] := by
  simp [withoutIdleEnd, hn.not_idle]

private theorem withoutIdleEnd_prefix (body : List Bytes) : withoutIdleEnd body <+: body := by
  rw [← List.reverse_suffix, withoutIdleEnd, List.reverse_reverse]
  exact List.dropWhile_suffix _

private theorem last_withoutIdleEnd {body : List Bytes} {s : Bytes} (h : (withoutIdleEnd body).getLast? = some s) :
    s ≠ [] := by
  rw [withoutIdleEnd, List.getLast?_reverse] at h
  have kept := List.head?_dropWhile_not isIdle body.reverse
  rw [h] at kept
  rintro rfl
  cases kept

def Start.path (start : Start) (body : List Bytes) : Bytes :=
  match start with
  | .root => slash :: joinSegments body
  | .here => joinSegments (Path.here :: body)
  | .nowhere => joinSegments body

private theorem parent_eq {p n : Bytes} {start : Start} {body : List Bytes} (hn : IsName n)
    (h : parts p = ⟨start, body ++ [n]⟩) : parent p = start.path (withoutIdleEnd body) := by
  rw [parent, h]
  dsimp only
  rw [withoutIdleEnd_concat body hn, List.dropLast_concat]
  cases start <;> rfl

private theorem joinSegments_concat {ss : List Bytes} (h : ss ≠ []) (name : Bytes) :
    joinSegments (ss ++ [name]) = joinSegments ss ++ slash :: name := by
  induction ss with
  | nil => exact absurd rfl h
  | cons s rest ih =>
    cases rest with
    | nil => rfl
    | cons t rest =>
      rw [List.cons_append, joinSegments_cons _ (by simp), joinSegments_cons _ (by simp), ih (by simp)]
      simp

private theorem join_joinSegments {ss : List Bytes} (name : Bytes) (hl : ∀ l, ss.getLast? = some l → l ≠ [])
    (h : ∀ s ∈ ss, slash ∉ s) : join (joinSegments ss) name = joinSegments (ss ++ [name]) := by
  rcases List.eq_nil_or_concat ss with rfl | ⟨front, l, rfl⟩
  · rfl
  · rw [List.concat_eq_append] at hl h ⊢
    obtain ⟨b, hb⟩ := Option.ne_none_iff_exists'.mp (mt List.getLast?_eq_none_iff.mp (hl l (by simp)))
    have hlast : (joinSegments (front ++ [l])).getLast? = some b := by
      have hj := joinSegments_append_last front [] l
      rw [List.nil_append] at hj
      rw [hj, List.getLast?_append, hb, Option.some_or]
    have hslash : b ≠ slash := by
      rintro rfl
      exact h l (by simp) (List.mem_of_getLast? hb)
    have hne : joinSegments (front ++ [l]) ≠ [] := by
      intro hn
      rw [hn] at hlast
      cases hlast
    rw [join, if_neg (by simp [hne, hlast, hslash]), ← joinSegments_concat (by simp)]

private theorem join_path (start : Start) {body : List Bytes} (name : Bytes)
    (hl : ∀ l, body.getLast? = some l → l ≠ []) (h : ∀ s ∈ body, slash ∉ s) :
    join (start.path body) name = joinSegments (start.segments ++ body ++ [name]) := by
  have behind : ∀ first, (first = [] → body ≠ []) → slash ∉ first →
      join (joinSegments (first :: body)) name = joinSegments (first :: body ++ [name]) := by
    intro first hne hfree
    apply join_joinSegments name
    · intro l he
      rw [List.getLast?_cons, Option.some.injEq] at he
      rcases hb : body.getLast? with _ | last
      · rw [hb] at he
        rintro rfl
        exact hne he (List.getLast?_eq_none_iff.mp hb)
      · rw [hb] at he
        exact he ▸ hl last hb
    · intro s hs
      rcases List.mem_cons.mp hs with rfl | hs
      · exact hfree
      · exact h s hs
  cases start with
  | root =>
    by_cases hb : body = []
    · subst hb
      rfl
    · have hp : slash :: joinSegments body = joinSegments ([] :: body) := by rw [joinSegments_cons _ hb]; rfl
      rw [Start.path, hp]
      exact behind [] (fun _ => hb) (by simp)
  | here => exact behind Path.here (fun h => by cases h) (by decide)
  | nowhere => exact join_joinSegments name hl h

theorem segments_withFileName {p n name : Bytes} {front : List Bytes} (hp : segments p = front ++ [n])
    (hn : IsName n) (hname : slash ∉ name) : ∃ front', segments (withFileName p name) = front' ++ [name] ∧
      lead front' = lead front ∧ ∀ s ∈ front', s ∈ front := by
  have hf : (fileName p).isSome = true := by rw [fileName_eq hp hn]; rfl
  obtain ⟨start, body, rfl, parts, fits⟩ := parts_eq hp hn
  have free : ∀ s ∈ start.segments ++ body, slash ∉ s := fun s hs =>
    slash_not_mem_segments (hp ▸ List.mem_append_left _ hs)
  have shorter := withoutIdleEnd_prefix body
  refine ⟨start.segments ++ withoutIdleEnd body, ?_, ?_, ?_⟩
  · have hfree : ∀ s ∈ withoutIdleEnd body, slash ∉ s := fun s hs => free s (by simp [shorter.mem hs])
    rw [withFileName, if_pos hf, parent_eq hn parts, join_path start name (fun _ => last_withoutIdleEnd) hfree]
    refine segments_joinSegments (by simp) fun s hs => ?_
    rcases List.mem_append.mp hs with hs | hs
    · rcases List.mem_append.mp hs with hs | hs
      · exact free s (List.mem_append_left _ hs)
      · exact hfree s hs
    · exact List.mem_singleton.mp hs ▸ hname
  · have fits' : start.Fits (withoutIdleEnd body) := by
      intro hs s hm
      apply fits hs
      obtain ⟨more, hmore⟩ := shorter
      rw [← hmore, List.head?_append, Option.mem_def.mp hm]
      rfl
    rw [lead_eq fits', lead_eq fits, named_withoutIdleEnd]
  · intro s hs
    rw [List.mem_append] at hs ⊢
    exact hs.imp_right shorter.mem

end SshAuthority.Path
