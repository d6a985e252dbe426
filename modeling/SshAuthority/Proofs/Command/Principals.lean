import Mathlib.Data.List.Basic
import SshAuthority.Command.Names
/-!
# Principals of a host

A host certificate is good for the host's name, its first label and what else is asked for: each name once, in
order of first mention, and none that is empty. Who asks for more gets no other names than before, and maybe some
behind them.
-/
namespace SshAuthority.Command

variable {mentions names more : List String} {name : String}

/-! ## One mention after the other -/

def mention (names : List String) (name : String) : List String :=
  if name.isEmpty || names.contains name then names else names ++ [name]

theorem mention_old (h : name = "" ∨ name ∈ names) : mention names name = names := by
  rw [mention, if_pos]
  rwa [Bool.or_eq_true, String.isEmpty_iff, List.contains_iff_mem]

theorem mention_new (hn : name ≠ "") (h : name ∉ names) : mention names name = names ++ [name] := by
  rw [mention, if_neg]
  rw [Bool.or_eq_true, String.isEmpty_iff, List.contains_iff_mem]
  exact not_or.mpr ⟨hn, h⟩

theorem mem_mention {other : String} :
    other ∈ mention names name ↔ other ∈ names ∨ other = name ∧ other ≠ "" := by
  by_cases old : name = "" ∨ name ∈ names
  · rw [mention_old old]
    refine ⟨.inl, ?_⟩
    rintro (hm | ⟨rfl, hne⟩)
    · exact hm
    · exact old.resolve_left hne
  · obtain ⟨hne, fresh⟩ := not_or.mp old
    rw [mention_new hne fresh, List.mem_append, List.mem_singleton]
    refine or_congr_right ⟨?_, And.left⟩
    rintro rfl
    exact ⟨rfl, hne⟩

theorem prefix_mention (names : List String) (name : String) : names <+: mention names name := by
  rw [mention]
  split
  · exact List.prefix_refl names
  · exact List.prefix_append names [name]

theorem prefix_foldl_mention (names more : List String) : names <+: more.foldl mention names := by
  induction more generalizing names with
  | nil => exact List.prefix_refl names
  | cons name more ih => exact (prefix_mention names name).trans (ih (mention names name))

theorem foldl_mention_old (h : ∀ name ∈ more, name ∈ names) : more.foldl mention names = names := by
  induction more with
  | nil => rfl
  | cons name more ih =>
    rw [List.foldl_cons, mention_old (.inr (h name List.mem_cons_self))]
    exact ih fun other ho => h other (List.mem_cons_of_mem _ ho)

theorem foldl_mention_new (hn : "" ∉ more) (h : (names ++ more).Nodup) :
    more.foldl mention names = names ++ more := by
  induction more generalizing names with
  | nil => rw [List.append_nil]; rfl
  | cons name more ih =>
    rw [List.mem_cons, not_or] at hn
    have fresh : name ∉ names := fun hm => (List.nodup_append.mp h).2.2 name hm name List.mem_cons_self rfl
    have hcons : names ++ name :: more = names ++ [name] ++ more := by simp
    rw [hcons] at h ⊢
    rw [List.foldl_cons, mention_new (Ne.symm hn.1) fresh, ih hn.2 h]

/-! ## First mentions -/

/-- The texts of `mentions` that are not empty, each where it is mentioned first. -/
structure FirstMentions (mentions names : List String) : Prop where
  mem_iff : ∀ name, name ∈ names ↔ name ∈ mentions ∧ name ≠ ""
  ordered : names.Pairwise fun a b => mentions.idxOf a < mentions.idxOf b

theorem FirstMentions.nodup (h : FirstMentions mentions names) : names.Nodup :=
  h.ordered.imp fun before => by
    rintro rfl
    exact Nat.lt_irrefl _ before

theorem FirstMentions.empty_not_mem (h : FirstMentions mentions names) : "" ∉ names :=
  fun hm => ((h.mem_iff "").mp hm).2 rfl

/-- There is one list of first mentions only. -/
theorem FirstMentions.unique {names' : List String} (h : FirstMentions mentions names)
    (h' : FirstMentions mentions names') : names = names' := by
  have same : names.Perm names' :=
    (List.perm_ext_iff_of_nodup h.nodup h'.nodup).mpr fun name => (h.mem_iff name).trans (h'.mem_iff name).symm
  exact same.eq_of_pairwise (fun a b _ _ hab hba => absurd hab (Nat.lt_asymm hba)) h.ordered h'.ordered

/-- One more mention adds a name to the first mentions, behind all others, or leaves them. -/
theorem FirstMentions.step (h : FirstMentions mentions names) (name : String) :
    FirstMentions (mentions ++ [name]) (mention names name) := by
  constructor
  · intro other
    rw [mem_mention, h.mem_iff, List.mem_append, List.mem_singleton, or_and_right]
  · have kept : names.Pairwise fun a b => (mentions ++ [name]).idxOf a < (mentions ++ [name]).idxOf b := by
      refine h.ordered.imp_of_mem fun ha hb before => ?_
      rwa [List.idxOf_append_of_mem ((h.mem_iff _).mp ha).1, List.idxOf_append_of_mem ((h.mem_iff _).mp hb).1]
    by_cases old : name = "" ∨ name ∈ names
    · rwa [mention_old old]
    · obtain ⟨hne, fresh⟩ := not_or.mp old
      have unmentioned : name ∉ mentions := fun hm => fresh ((h.mem_iff name).mpr ⟨hm, hne⟩)
      rw [mention_new hne fresh]
      refine List.pairwise_append.mpr ⟨kept, List.pairwise_singleton _ _, fun a ha b hb => ?_⟩
      obtain rfl := List.mem_singleton.mp hb
      have ha' := ((h.mem_iff a).mp ha).1
      rw [List.idxOf_append_of_mem ha', List.idxOf_append_of_notMem unmentioned]
      exact Nat.lt_add_right _ (List.idxOf_lt_length_of_mem ha')

theorem FirstMentions.run (h : FirstMentions mentions names) (more : List String) :
    FirstMentions (mentions ++ more) (more.foldl mention names) := by
  induction more generalizing mentions names with
  | nil => rwa [List.append_nil]
  | cons name more ih =>
    have step := ih (h.step name)
    rwa [List.append_assoc] at step

/-! ## The principals -/

/-- `label` is the part of `host` before the first dot. -/
structure IsFirstLabel (host label : String) : Prop where
  dot_not_mem : '.' ∉ label.toList
  front : host = label ∨ ∃ rest, host = label ++ "." ++ rest

theorem firstLabel_isFirstLabel (host : String) : IsFirstLabel host (firstLabel host) := by
  have whole := List.takeWhile_append_dropWhile (p := (· != '.')) (l := host.toList)
  constructor
  · intro hm
    rw [firstLabel, String.toList_ofList] at hm
    simpa using List.all_eq_true.mp List.all_takeWhile _ hm
  · cases hd : host.toList.dropWhile (· != '.') with
    | nil =>
      rw [hd, List.append_nil] at whole
      left
      rw [firstLabel, whole, String.ofList_toList]
    | cons c rest =>
      have dot : c = '.' := by
        have kept := List.head?_dropWhile_not (· != '.') host.toList
        simpa [hd] using kept
      right
      refine ⟨String.ofList rest, String.toList_inj.mp ?_⟩
      rw [← whole, hd, dot]
      simp [firstLabel]

theorem hostPrincipals_eq (host : String) (extra : List String) :
    hostPrincipals host extra = (host :: firstLabel host :: extra).foldl mention [] := rfl

theorem hostPrincipals_firstMentions (host : String) (extra : List String) :
    FirstMentions (host :: firstLabel host :: extra) (hostPrincipals host extra) := by
  have none : FirstMentions [] [] := ⟨by simp, List.Pairwise.nil⟩
  exact none.run (host :: firstLabel host :: extra)

theorem hostPrincipals_append (host : String) (extra more : List String) :
    hostPrincipals host (extra ++ more) = more.foldl mention (hostPrincipals host extra) := by
  rw [hostPrincipals_eq, hostPrincipals_eq, ← List.cons_append, ← List.cons_append, List.foldl_append]

/-- Who asks for the principals there are gets them again: they begin with the host's own names, and the others are
new to those. -/
theorem hostPrincipals_again (host : String) (extra : List String) :
    hostPrincipals host (hostPrincipals host extra) = hostPrincipals host extra := by
  have first := hostPrincipals_firstMentions host extra
  obtain ⟨others, parted⟩ : hostPrincipals host [] <+: hostPrincipals host extra := by
    have grown := prefix_foldl_mention (hostPrincipals host []) extra
    rwa [← hostPrincipals_append, List.nil_append] at grown
  have nonempty : "" ∉ others := fun hm => first.empty_not_mem (parted ▸ List.mem_append_right _ hm)
  have distinct : (hostPrincipals host [] ++ others).Nodup := parted ▸ first.nodup
  calc hostPrincipals host (hostPrincipals host extra)
      = hostPrincipals host ([] ++ (hostPrincipals host [] ++ others)) := by rw [parted, List.nil_append]
    _ = others.foldl mention ((hostPrincipals host []).foldl mention (hostPrincipals host [])) := by
      rw [hostPrincipals_append, List.foldl_append]
    _ = others.foldl mention (hostPrincipals host []) := by rw [foldl_mention_old fun _ h => h]
    _ = hostPrincipals host [] ++ others := foldl_mention_new nonempty distinct
    _ = hostPrincipals host extra := parted

/-- The principals are the first mentions among the host's name, its first label and what is asked for, and they are
no other list. So they are distinct and none is empty, more that is asked for comes behind them, and asking for them
again changes nothing. -/
theorem principals_are_first_mentions (host : String) (extra : List String) :
    IsFirstLabel host (firstLabel host) ∧
      (∀ names, hostPrincipals host extra = names ↔ FirstMentions (host :: firstLabel host :: extra) names) ∧
      (hostPrincipals host extra).Nodup ∧ "" ∉ hostPrincipals host extra ∧
      (∀ more, hostPrincipals host extra <+: hostPrincipals host (extra ++ more)) ∧
      hostPrincipals host (hostPrincipals host extra) = hostPrincipals host extra := by
  have first := hostPrincipals_firstMentions host extra
  refine ⟨firstLabel_isFirstLabel host, fun names => ⟨?_, first.unique⟩, first.nodup, first.empty_not_mem,
    fun more => ?_, hostPrincipals_again host extra⟩
  · rintro rfl
    exact first
  · rw [hostPrincipals_append]
    exact prefix_foldl_mention _ more

example : hostPrincipals "web1.example.com" ["", "web", "web1", "web"] = ["web1.example.com", "web1", "web"] := by
  decide

end SshAuthority.Command
