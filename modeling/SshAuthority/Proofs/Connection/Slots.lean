import SshAuthority.Proofs.Connection.ClientStep
import SshAuthority.Proofs.Connection.Exchange
/-!
# Slots

Calls that are not over have numbers of their own, and whoever waits for a reply has the slot of its
number. As long as every reply finds its slot, no call is over without one.
-/
namespace SshAuthority.Connection

def ClientCall.awaits (c : ClientCall) : Bool :=
  c.reply.isNone && match c.phase with
    | .registered | .queued | .writing _ | .flushing | .waiting => true
    | .numbered | .finished _ | .abandoned => false

theorem ClientCall.not_over_of_awaits {c : ClientCall} (h : c.awaits) : c.phase.isOver = false := by
  cases hp : c.phase <;> simp [awaits, hp] at h <;> rfl

namespace Client

structure Slotted (s : Client) : Prop where
  distinct : ∀ {i j : Nat} {c d : ClientCall}, s.calls[i]? = some c → s.calls[j]? = some d →
    c.phase.isOver = false → d.phase.isOver = false → c.seq = d.seq → i = j
  slots : ∀ {n : UInt64} {i : Nat}, s.slot? n = some i ↔ ∃ c, s.calls[i]? = some c ∧ c.seq = n ∧ c.awaits
  replied : ∀ {i : Nat} {c : ClientCall}, s.calls[i]? = some c → c.reply.isSome → c.isSent
  ended : ∀ {i : Nat} {c : ClientCall}, s.calls[i]? = some c → c.phase.isOver →
    ∃ r, c.reply = some r ∧ c.phase = .finished (outcomeOf c.call r)

namespace Slotted

variable {s t : Client} {i : Nat} {c d : ClientCall}

theorem start : Client.new.Slotted := by
  refine ⟨?_, ?_, ?_, ?_⟩ <;> simp [Client.new, slot?]

theorem of_eq (h : s.Slotted) (hc : t.calls = s.calls) (hp : t.pending = s.pending) : t.Slotted := by
  have hs : ∀ n, t.slot? n = s.slot? n := fun n => by rw [slot?, slot?, hp]
  refine ⟨?_, fun {n i} => ?_, ?_, ?_⟩
  · rw [hc]
    exact h.distinct
  · rw [hs, hc]
    exact h.slots
  · rw [hc]
    exact h.replied
  · rw [hc]
    exact h.ended

/-- A call that is not over goes on, and keeps, gets or gives up the slot of its number as it waits. -/
theorem change (h : s.Slotted) (hc : s.calls[i]? = some c) (hlive : c.phase.isOver = false)
    (hget : ∀ j : Nat, t.calls[j]? = if j = i then some d else s.calls[j]?) (hseq : d.seq = c.seq)
    (hslot : ∀ n, t.slot? n = if n = c.seq then (if d.awaits then some i else none) else s.slot? n)
    (hreplied : d.reply.isSome → d.isSent)
    (hover : d.phase.isOver → ∃ r, d.reply = some r ∧ d.phase = .finished (outcomeOf d.call r)) :
    t.Slotted := by
  have hcases : ∀ {j : Nat} {e : ClientCall}, t.calls[j]? = some e →
      (j = i ∧ e = d) ∨ (j ≠ i ∧ s.calls[j]? = some e) := by
    intro j e he
    rw [hget] at he
    split at he
    case isTrue hj => exact .inl ⟨hj, (Option.some.inj he).symm⟩
    case isFalse hj => exact .inr ⟨hj, he⟩
  refine ⟨fun {j k a b} ha hb hla hlb hab => ?_, fun {n j} => ?_, fun he => ?_, fun he => ?_⟩
  · rcases hcases ha with ⟨rfl, rfl⟩ | ⟨hj, ha⟩ <;> rcases hcases hb with ⟨rfl, rfl⟩ | ⟨hk, hb⟩
    · rfl
    · exact h.distinct hc hb hlive hlb (hseq ▸ hab)
    · exact h.distinct ha hc hla hlive (hseq ▸ hab)
    · exact h.distinct ha hb hla hlb hab
  · rw [hslot]
    by_cases hn : n = c.seq
    · rw [if_pos hn]
      constructor
      · intro hj
        split at hj
        case isTrue hw =>
          obtain rfl := Option.some.inj hj
          exact ⟨d, by rw [hget, if_pos rfl], by rw [hn, hseq], hw⟩
        case isFalse => cases hj
      · rintro ⟨e, he, hen, hw⟩
        rcases hcases he with ⟨rfl, rfl⟩ | ⟨hj, he⟩
        · rw [if_pos hw]
        · exact absurd (h.distinct he hc (ClientCall.not_over_of_awaits hw) hlive (hen.trans hn)) hj
    · rw [if_neg hn, h.slots]
      constructor
      · rintro ⟨e, he, hen, hw⟩
        have hj : j ≠ i := by
          rintro rfl
          obtain rfl := Option.some.inj (hc.symm.trans he)
          exact hn hen.symm
        exact ⟨e, by rw [hget, if_neg hj, he], hen, hw⟩
      · rintro ⟨e, he, hen, hw⟩
        rcases hcases he with ⟨-, rfl⟩ | ⟨-, he⟩
        · exact absurd (hen.symm.trans hseq) hn
        · exact ⟨e, he, hen, hw⟩
  · rcases hcases he with ⟨-, rfl⟩ | ⟨-, he⟩
    · exact hreplied
    · exact h.replied he
  · rcases hcases he with ⟨-, rfl⟩ | ⟨-, he⟩
    · exact hover
    · exact h.ended he

theorem make (h : s.Slotted) (call : Wire.Call)
    (hfresh : ∀ c ∈ s.calls, c.phase.isOver = false → c.seq ≠ s.nextSeq) : (s.make call).Slotted := by
  have hcases : ∀ {j : Nat} {e : ClientCall}, (s.make call).calls[j]? = some e →
      s.calls[j]? = some e ∨ (j = s.calls.length ∧ e = ⟨s.nextSeq, call, .numbered, none, 0⟩) :=
    getElem?_append_new
  refine ⟨fun {j k a b} ha hb hla hlb hab => ?_, fun {n j} => ?_, fun he => ?_, fun he => ?_⟩
  · rcases hcases ha with ha | ⟨rfl, rfl⟩ <;> rcases hcases hb with hb | ⟨rfl, rfl⟩
    · exact h.distinct ha hb hla hlb hab
    · exact absurd hab (hfresh a (List.mem_of_getElem? ha) hla)
    · exact absurd hab.symm (hfresh b (List.mem_of_getElem? hb) hlb)
    · rfl
  · have hs : (s.make call).slot? n = s.slot? n := rfl
    rw [hs, h.slots]
    constructor
    · rintro ⟨e, he, hen, hw⟩
      exact ⟨e, getElem?_append_old he _, hen, hw⟩
    · rintro ⟨e, he, hen, hw⟩
      rcases hcases he with he | ⟨-, rfl⟩
      · exact ⟨e, he, hen, hw⟩
      · cases hw
  · rcases hcases he with he | ⟨-, rfl⟩
    · exact h.replied he
    · intro hr
      cases hr
  · rcases hcases he with he | ⟨-, rfl⟩
    · exact h.ended he
    · intro ho
      cases ho

theorem reply_none (h : s.Slotted) (hc : s.calls[i]? = some c) (hn : c.isSent = false) : c.reply = none := by
  rcases hr : c.reply with _ | r
  · rfl
  · have hs := h.replied hc (by rw [hr]; rfl)
    rw [hn] at hs
    cases hs

theorem slot_of_awaits (h : s.Slotted) (hc : s.calls[i]? = some c) (hw : c.awaits) :
    s.slot? c.seq = some i :=
  h.slots.mpr ⟨c, hc, rfl, hw⟩

/-- The slot of a number is of the call that goes on under it. -/
theorem slot?_eq (h : s.Slotted) (hc : s.calls[i]? = some c) (hlive : c.phase.isOver = false) :
    s.slot? c.seq = if c.awaits then some i else none := by
  by_cases hw : c.awaits
  · rw [if_pos hw]
    exact h.slot_of_awaits hc hw
  · rw [if_neg hw, Option.eq_none_iff_forall_ne_some]
    intro j hj
    obtain ⟨e, he, hseq, hwe⟩ := h.slots.mp hj
    obtain rfl := h.distinct he hc (ClientCall.not_over_of_awaits hwe) hlive hseq
    obtain rfl := Option.some.inj (hc.symm.trans he)
    exact hw hwe

theorem awaits (h : s.Slotted) (hc : s.calls[i]? = some c) (hs : c.isSent) (hr : c.reply = none) : c.awaits := by
  have hlive : c.phase.isOver = false := by
    rcases hover : c.phase.isOver with _ | _
    · rfl
    · obtain ⟨r, hr', -⟩ := h.ended hc hover
      rw [hr] at hr'
      cases hr'
  cases hp : c.phase <;> simp [ClientCall.awaits, ClientCall.isSent, CallPhase.isOver, hp, hr] at hs hlive ⊢

/-! ## Rules -/

theorem register (h : s.Slotted) (hc : s.calls[i]? = some c) (hp : c.phase = .numbered) :
    (s.register i c).Slotted := by
  have hr : c.reply = none := h.reply_none hc (by simp [ClientCall.isSent, hp])
  have hget := getElem?_modified hc fun c => { c with phase := .registered, since := s.responses.length }
  refine h.change hc (by rw [hp]; rfl) hget rfl (fun n => ?_) (by simp [hr]) (by simp [CallPhase.isOver])
  rw [slot?_register]
  simp [ClientCall.awaits, hr]

theorem proceed (h : s.Slotted) (hc : s.calls[i]? = some c) (hlive : c.phase.isOver = false)
    (hp : c.phase ≠ .numbered) {p : CallPhase} (hover : p.isOver = false) (hnum : p ≠ .numbered)
    (hsent : c.isSent → ({ c with phase := p } : ClientCall).isSent) (ht : t.calls = (s.enter i p).calls)
    (hs : t.pending = s.pending) : t.Slotted := by
  have hw : ({ c with phase := p } : ClientCall).awaits = c.awaits := by
    cases p <;> cases hp' : c.phase <;> simp [ClientCall.awaits, CallPhase.isOver, hp'] at hlive hp hover hnum ⊢
  have hget : ∀ j : Nat, t.calls[j]? = if j = i then some { c with phase := p } else s.calls[j]? := by
    rw [ht]
    exact getElem?_modified hc fun c => { c with phase := p }
  refine h.change hc hlive hget rfl (fun n => ?_) (fun hr => hsent (h.replied hc hr)) (by simp [hover])
  rw [hw, ← h.slot?_eq hc hlive, slot?, hs, ← slot?]
  split
  case isTrue hn => rw [hn]
  case isFalse => rfl

theorem wake (h : s.Slotted) (hc : s.calls[i]? = some c) (hp : c.phase = .waiting) {r : Wire.Response}
    (hr : c.reply = some r) : (s.finish i c (outcomeOf c.call r)).Slotted := by
  have hget := getElem?_modified hc fun c' => { c' with phase := .finished (outcomeOf c.call r) }
  refine h.change hc (by rw [hp]; rfl) hget rfl (fun n => ?_) (fun _ => rfl) (fun _ => ⟨r, hr, rfl⟩)
  simp only [ClientCall.awaits, Bool.and_false, Bool.false_eq_true, if_false]
  exact slot?_withoutSlot s c.seq n

theorem deliver (h : s.Slotted) (hc : s.calls[i]? = some c) (hw : c.awaits) (hsent : c.isSent) {r : Wire.Response}
    (hs : s.slot? r.seq = some i) (hseq : r.seq = c.seq) : (s.deliver r).Slotted := by
  have hlive := ClientCall.not_over_of_awaits hw
  rw [deliver_of_slot hs]
  have hget := getElem?_modified hc fun c => { c with reply := some r }
  refine h.change hc hlive hget rfl (fun n => ?_) (fun _ => hsent) (fun ho => ?_)
  · simp only [ClientCall.awaits, Option.isNone_some, Bool.false_and, Bool.false_eq_true, if_false]
    rw [← hseq]
    exact slot?_withoutSlot { s with responses := s.responses ++ [r] } r.seq n
  · rw [hlive] at ho
    cases ho

end Slotted

end Client

end SshAuthority.Connection
