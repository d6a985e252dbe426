import SshAuthority.Proofs.Authority.Confirmation
import SshAuthority.Proofs.Wire.Message
/-!
# What the operator was shown

Whether or not a service asks for confirmation, each call is shown once, as its first step, and what is shown
of it is the summary of its request. That is one line, unless a principal of the request has a line break.
-/
namespace SshAuthority.Authority.Session

/-- A call is past its first step, and `text` is the summary of its request. -/
def Introduced (s : Session) (i : Nat) (text : String) : Prop :=
  ∃ c, s.calls[i]? = some c ∧ c.phase.rank ≠ 0 ∧ text = c.request.summary

/-- What was shown is the summaries of the calls past their first step, each of them once. -/
structure Announced (s : Session) : Prop where
  once : (s.shown.map (·.1)).Nodup
  own : ∀ {i text}, (i, text) ∈ s.shown ↔ s.Introduced i text

variable {s next : Session} {e : Event}

/-- Nothing is shown but at the first step of a call, and then its summary is. -/
theorem shown_of_moves (hm : s.Moves e next) :
    (next.shown = s.shown ∧ ∀ i c, e.call? = some i → s.calls[i]? = some c → c.phase.rank ≠ 0) ∨
      ∃ i c p, e = .announce i ∧ s.calls[i]? = some c ∧ c.phase.rank = 0 ∧ p.rank ≠ 0 ∧
        next.calls = (s.enter i p).calls ∧ next.shown = s.shown ++ [(i, c.request.summary)] := by
  cases hm with
  | request | arrive | closeInput => exact .inl ⟨rfl, by simp [Event.call?]⟩
  | announce call phase =>
    refine .inr ⟨_, _, _, rfl, call, by rw [phase]; rfl, ?_, rfl, rfl⟩
    split <;> simp [Phase.rank]
  | _ call phase =>
    refine .inl ⟨rfl, fun j d hj hd => ?_⟩
    obtain rfl := Option.some.inj hj
    obtain rfl := Option.some.inj (call.symm.trans hd)
    simp [phase, Phase.rank]

private theorem introduced_entered {t : Session} {i : Nat} {c : SigningCall} {p : Phase}
    (hc : s.calls[i]? = some c) (ht : t.calls = (s.enter i p).calls) (hp : p.rank ≠ 0) (j : Nat) (text : String) :
    t.Introduced j text ↔ (j = i ∧ text = c.request.summary) ∨ (j ≠ i ∧ s.Introduced j text) := by
  constructor
  · rintro ⟨d, hd, hr, rfl⟩
    rcases getElem?_entered hc ht hd with ⟨rfl, rfl⟩ | ⟨hj, hd⟩
    · exact .inl ⟨rfl, rfl⟩
    · exact .inr ⟨hj, d, hd, hr, rfl⟩
  · rintro (⟨rfl, rfl⟩ | ⟨hj, d, hd, hr, rfl⟩)
    · exact ⟨{ c with phase := p }, by rw [ht, enter_getElem?_self hc], hp, rfl⟩
    · exact ⟨d, by rw [ht, enter_getElem?_of_ne hj, hd], hr, rfl⟩

private theorem introduced_request (r : SignRequest) (j : Nat) (text : String) :
    (s.request r).Introduced j text ↔ s.Introduced j text := by
  constructor
  · rintro ⟨d, hd, hr, rfl⟩
    rcases getElem?_append_new hd with hd | ⟨-, rfl⟩
    · exact ⟨d, hd, hr, rfl⟩
    · simp [Phase.rank] at hr
  · rintro ⟨d, hd, hr, rfl⟩
    exact ⟨d, getElem?_append_old hd _, hr, rfl⟩

private theorem introduced_of_moves (hm : s.Moves e next)
    (hn : ∀ i c, e.call? = some i → s.calls[i]? = some c → c.phase.rank ≠ 0) (j : Nat) (text : String) :
    next.Introduced j text ↔ s.Introduced j text := by
  rcases calls_of_moves hm with ⟨-, hs⟩ | ⟨r, -, hs⟩ | ⟨i, c, p, he, hc, hs, hlt⟩
  · rw [Introduced, hs, Introduced]
  · rw [Introduced, hs]
    exact introduced_request r j text
  · rw [introduced_entered hc hs (by omega)]
    constructor
    · rintro (⟨rfl, rfl⟩ | ⟨-, h⟩)
      · exact ⟨c, hc, hn _ c he hc, rfl⟩
      · exact h
    · rintro ⟨d, hd, hr, rfl⟩
      by_cases hj : j = i
      · subst hj
        obtain rfl := Option.some.inj (hc.symm.trans hd)
        exact .inl ⟨rfl, rfl⟩
      · exact .inr ⟨hj, d, hd, hr, rfl⟩

theorem Announced.of_moves (h : s.Announced) (hm : s.Moves e next) : next.Announced := by
  rcases shown_of_moves hm with ⟨hs, hn⟩ | ⟨i, c, p, rfl, hc, hr, hp, hcalls, hs⟩
  · refine ⟨hs ▸ h.once, fun {j text} => ?_⟩
    rw [hs, h.own, introduced_of_moves hm hn]
  · have hnew : ∀ text, ¬s.Introduced i text := by
      rintro text ⟨d, hd, hne, -⟩
      obtain rfl := Option.some.inj (hc.symm.trans hd)
      exact hne hr
    refine ⟨?_, fun {j text} => ?_⟩
    · rw [hs, List.map_append]
      refine nodup_append_new h.once fun hi => ?_
      obtain ⟨⟨k, text⟩, hx, rfl⟩ := List.mem_map.mp hi
      exact hnew text (h.own.mp hx)
    · rw [hs, List.mem_append, h.own, introduced_entered hc hcalls hp, List.mem_singleton, Prod.mk.injEq, or_comm]
      refine or_congr_right ⟨fun hj => ⟨?_, hj⟩, fun hj => hj.2⟩
      rintro rfl
      exact hnew text hj

theorem announced_run (service : Service) (events : List Event) : ((new service).run events).Announced :=
  run_preserves (fun _ _ _ h hm => h.of_moves hm) ⟨by simp [new], by simp [new, Introduced]⟩ events

private theorem filterMap_of_nodup {i : Nat} {text : String} {l : List (Nat × String)} (hl : (l.map (·.1)).Nodup)
    (h : (i, text) ∈ l) : l.filterMap (fun x => if x.1 = i then some x.2 else none) = [text] := by
  obtain ⟨front, back, rfl⟩ := List.append_of_mem h
  have hne : ∀ x ∈ front ++ back, x.1 ≠ i := by
    rintro x hx rfl
    rw [List.map_append, List.map_cons, List.perm_middle.nodup_iff] at hl
    refine (List.nodup_cons.mp hl).1 ?_
    rw [← List.map_append]
    exact List.mem_map.mpr ⟨x, hx, rfl⟩
  have hfront : front.filterMap (fun x => if x.1 = i then some x.2 else none) = [] :=
    List.filterMap_eq_nil_iff.mpr fun x hx => if_neg (hne x (List.mem_append_left _ hx))
  have hback : back.filterMap (fun x => if x.1 = i then some x.2 else none) = [] :=
    List.filterMap_eq_nil_iff.mpr fun x hx => if_neg (hne x (List.mem_append_right _ hx))
  simp [hfront, hback]

/-- A call past its first step was shown, once and as what it is. -/
theorem Announced.announcements (h : s.Announced) {i : Nat} {c : SigningCall} (hc : s.calls[i]? = some c)
    (hr : c.phase.rank ≠ 0) : s.announcements i = [c.request.summary] :=
  filterMap_of_nodup h.once (h.own.mpr ⟨c, hc, hr, rfl⟩)

/-! ## Lines on the terminal -/

def Plain (s : Session) : Prop := ∀ c ∈ s.calls, ∀ p ∈ c.request.principals, Text.lineBreaks p = []

instance (s : Session) : Decidable s.Plain :=
  inferInstanceAs (Decidable (∀ c ∈ s.calls, ∀ p ∈ c.request.principals, Text.lineBreaks p = []))

/-- What is printed is one line for each call that was shown. -/
structure PrintsLines (s : Session) : Prop where
  /-- Only a principal brings a line break into a summary, and it brings those that it has. -/
  breaks : ∀ r : SignRequest, Text.lineBreaks r.summary = r.principals.flatMap Text.lineBreaks
  single : ∀ {i text}, (i, text) ∈ s.shown → Text.lineBreaks text = []
  lines : Text.lines s.printed.toList = s.shown.map (·.2.toList)
  own : ∀ {i text}, (i, text) ∈ s.shown → ∃ c, s.calls[i]? = some c ∧ text = c.request.summary
  once : (s.shown.map (·.1)).Nodup
  /-- Once every call has taken its first step, there are as many lines as calls. -/
  all : (∀ i, s.phase? i ≠ some .called) → (Text.lines s.printed.toList).length = s.calls.length

private theorem Announced.length_shown (h : s.Announced) (hall : ∀ i, s.phase? i ≠ some .called) :
    s.shown.length = s.calls.length := by
  have hmem : ∀ i, i ∈ s.shown.map (·.1) ↔ i ∈ List.range s.calls.length := by
    intro i
    rw [List.mem_range]
    constructor
    · intro hi
      obtain ⟨⟨j, text⟩, hx, rfl⟩ := List.mem_map.mp hi
      obtain ⟨c, hc, -⟩ := h.own.mp hx
      exact (List.getElem?_eq_some_iff.mp hc).1
    · intro hi
      have hc := List.getElem?_eq_getElem hi
      refine List.mem_map.mpr ⟨(i, _), h.own.mpr ⟨_, hc, fun hr => hall i ?_, rfl⟩, rfl⟩
      rw [phase?_of_call hc]
      cases hp : (s.calls[i]).phase with
      | called => rfl
      | _ =>
        rw [hp] at hr
        cases hr
  have hperm := (List.perm_ext_iff_of_nodup h.once List.nodup_range).mpr hmem
  simpa using hperm.length_eq

end SshAuthority.Authority.Session

namespace SshAuthority.Connection.Hub
open Authority Session

/-- Where no principal has a line break, the operator is shown one line for each request. -/
theorem prints_a_line_for_each (service : Service) (events : List Event)
    (plain : ((new service).run events).session.Plain) : ((new service).run events).session.PrintsLines := by
  obtain ⟨steps, hs⟩ := session_run (new service) events
  have h : ((new service).run events).session.Announced := by
    rw [hs]
    exact announced_run service steps
  have hsingle : ∀ {i text}, (i, text) ∈ ((new service).run events).session.shown → Text.lineBreaks text = [] := by
    intro i text hx
    obtain ⟨c, hc, -, rfl⟩ := h.own.mp hx
    rw [SignRequest.lineBreaks_summary, List.flatMap_eq_nil_iff]
    exact plain c (List.mem_of_getElem? hc)
  have hlines : Text.lines ((new service).run events).session.printed.toList =
      ((new service).run events).session.shown.map (·.2.toList) := by
    have hjoin := Text.lines_join (((new service).run events).session.shown.map (·.2)) fun text ht => by
      obtain ⟨⟨i, text⟩, hx, rfl⟩ := List.mem_map.mp ht
      exact hsingle hx
    rwa [List.map_map, List.map_map] at hjoin
  refine ⟨SignRequest.lineBreaks_summary, hsingle, hlines, fun hx => ?_, h.once, fun hall => ?_⟩
  · obtain ⟨c, hc, -, ht⟩ := h.own.mp hx
    exact ⟨c, hc, ht⟩
  · rw [hlines, List.length_map, h.length_shown hall]

private def shownService : Service := ⟨⟨Utf8.encode "ca", sampleKey⟩, false⟩

private def twoShown : List Event :=
  [.direct (.request ⟨"alice", .user, ["alice", "wheel"], sampleKey⟩),
    .direct (.request ⟨"web", .host, ["web.example"], sampleKey⟩), .direct (.announce 1), .direct (.announce 0)]

theorem prints_a_line_for_each_of_two : ((new shownService).run twoShown).session.Plain ∧
    ((new shownService).run twoShown).session.calls.length = 2 ∧
    ((new shownService).run twoShown).session.PrintsLines := by
  have hplain : ((new shownService).run twoShown).session.Plain := by decide +kernel
  exact ⟨hplain, by decide +kernel, prints_a_line_for_each shownService twoShown hplain⟩

private def forged : Wire.Request :=
  ⟨1, .sign ⟨"mallory", .user,
    ["mallory\nmake user certificate for ssh-ed25519 key (fingerprint SHA256:0) for alice"], sampleKey.bytes⟩⟩

/-- A peer sends the request, which is read, turned over to the service and shown. -/
private def forgedShown : List Event :=
  [.accept, .connection 0 (.arrive ((Wire.Frame.write forged.encode).toOption.getD [])), .connection 0 .read,
    .connection 0 (.dispatch 0), .direct (.announce 0)]

private def forgedSession : Session := ((new shownService).run forgedShown).session

/-- One request, and a second line that is the caller's. -/
theorem forged_line_is_printed : Wire.Request.decode forged.encode = .ok forged ∧
    forgedSession.calls.length = 1 ∧
    ((Text.lines forgedSession.printed.toList).drop 1).map String.ofList =
      ["make user certificate for ssh-ed25519 key (fingerprint SHA256:0) for alice"] :=
  ⟨Wire.Request.decode_encode forged, by decide +kernel⟩

end SshAuthority.Connection.Hub
