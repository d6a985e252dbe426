import SshAuthority.Proofs.Connection.ClientTurns
/-!
# Responses without a slot

A client keeps a record of the responses that it reads, and a call how long that record was when its slot
was registered. No step depends on the record, so a response that finds no slot leaves no trace in what the
calls come to.
-/
namespace SshAuthority.Connection

def ClientCall.forget (c : ClientCall) : ClientCall := { c with since := 0 }

namespace Client

/-- A client without the record of the responses that it read. -/
def forget (s : Client) : Client := { s with calls := s.calls.map ClientCall.forget, responses := [] }

theorem forget_forget (s : Client) : s.forget.forget = s.forget := by
  simp [forget, ClientCall.forget]

theorem result?_forget (s : Client) (i : Nat) : s.forget.result? i = s.result? i := by
  have hp : s.forget.phase? i = s.phase? i := by
    rw [phase?, phase?, forget, List.getElem?_map, Option.map_map]
    rfl
  rw [result?, result?, hp]

private theorem map_forget_modify {f g : ClientCall → ClientCall} (h : ∀ c, (f c).forget = (g c.forget).forget)
    (calls : List ClientCall) (i : Nat) : (calls.modify i f).map ClientCall.forget =
      ((calls.map ClientCall.forget).modify i g).map ClientCall.forget := by
  apply List.ext_getElem?
  intro j
  simp only [List.getElem?_map, List.getElem?_modify]
  rcases calls[j]? with _ | c
  · rfl
  · show some (ClientCall.forget _) = some (ClientCall.forget _)
    split
    · rw [h]
    · rfl

private theorem forget_eq {s next next' : Client} {i : Nat} {f g : ClientCall → ClientCall}
    (hs : next.calls = s.calls.modify i f) (ht : next'.calls = s.forget.calls.modify i g)
    (h : ∀ c, (f c).forget = (g c.forget).forget)
    (hrest : ({ next with calls := [], responses := [] } : Client) = { next' with calls := [], responses := [] }) :
    next.forget = next'.forget := by
  have hcalls : next.calls.map ClientCall.forget = next'.calls.map ClientCall.forget := by
    rw [hs, ht]
    exact map_forget_modify h s.calls i
  show next.forget = { next' with calls := next'.calls.map ClientCall.forget, responses := [] }
  rw [← hcalls]
  exact congrArg (fun u : Client => { u with calls := next.calls.map ClientCall.forget }) hrest

private theorem forget_enter (s : Client) (i : Nat) (p : CallPhase) :
    (s.enter i p).forget = (s.forget.enter i p).forget :=
  forget_eq rfl rfl (fun _ => rfl) rfl

private theorem forget_finish (s : Client) (i : Nat) (c : ClientCall) (result : Except ClientFault Bytes) :
    (s.finish i c result).forget = (s.forget.finish i c.forget result).forget :=
  forget_enter (s.withoutSlot c.seq) i (.finished result)

private theorem forget_register (s : Client) (i : Nat) (c : ClientCall) :
    (s.register i c).forget = (s.forget.register i c.forget).forget :=
  forget_eq (s := s) rfl rfl (fun _ => rfl) rfl

private theorem forget_releaseWriter (s : Client) (i : Nat) :
    (s.releaseWriter i).forget = s.forget.releaseWriter i := by
  have hw : s.forget.writer = s.writer := rfl
  rw [releaseWriter, releaseWriter, hw]
  split <;> rfl

private theorem forget_make (s : Client) (call : Wire.Call) : (s.make call).forget = (s.forget.make call).forget := by
  have h : (s.make call).forget = s.forget.make call := by
    simp [forget, make, ClientCall.forget]
  rw [← h, forget_forget]

private theorem forget_deliver (s : Client) (r : Wire.Response) :
    (s.deliver r).forget = (s.forget.deliver r).forget := by
  have hs : s.forget.slot? r.seq = s.slot? r.seq := rfl
  rcases hslot : s.slot? r.seq with _ | i
  · rw [deliver_of_no_slot hslot, deliver_of_no_slot (hs.trans hslot)]
    exact (forget_forget s).symm
  · rw [deliver_of_slot hslot, deliver_of_slot (hs.trans hslot)]
    exact forget_eq (s := s) rfl rfl (fun _ => rfl) rfl

private theorem forget_act (s : Client) (i : Nat) (c : ClientCall) (e : Event) :
    (s.act i c e).map forget = (s.forget.act i c.forget e).map forget := by
  have hp : c.forget.phase = c.phase := rfl
  have hr : c.forget.reply = c.reply := rfl
  have hq : c.forget.request = c.request := rfl
  cases e with
  | register j =>
    simp only [act, hp]
    cases c.phase with
    | numbered => exact congrArg some (forget_register s i c)
    | _ => rfl
  | check j =>
    have hk : s.forget.closed = s.closed := rfl
    simp only [act, hp, hk]
    cases c.phase with
    | registered =>
      cases s.closed
      · exact congrArg some (forget_enter s i _)
      · exact congrArg some (forget_finish s i c _)
    | _ => rfl
  | holdWriter j =>
    have hw : s.forget.writer = s.writer := rfl
    simp only [act, hp, hw, hq]
    cases c.phase with
    | queued =>
      cases s.writer
      · cases Wire.Frame.write c.request.encode
        · exact congrArg some (forget_finish s i c _)
        · exact congrArg some (forget_enter { s with writer := some i } i _)
      · rfl
    | _ => rfl
  | put j count =>
    simp only [act, hp, hq]
    cases c.phase with
    | writing rest =>
      dsimp only
      cases rest.drop count
      · exact congrArg some (forget_enter { s with sent := _, written := _ } i _)
      · exact congrArg some (forget_enter { s with sent := _ } i _)
    | _ => rfl
  | flush j =>
    simp only [act, hp, hq]
    cases c.phase with
    | flushing => exact congrArg some (forget_enter { s with writer := none, flushed := _ } i _)
    | _ => rfl
  | failWrite j fault =>
    simp only [act, hp]
    split
    · have h := forget_finish (s.releaseWriter i) i c (.error (.codec (.stream fault)))
      rw [forget_releaseWriter] at h
      exact congrArg some h
    · rfl
  | wake j =>
    have hs : s.forget.slot? c.forget.seq = s.slot? c.seq := rfl
    simp only [act, hp, hr, hs]
    cases c.phase with
    | waiting =>
      cases c.reply
      · dsimp only
        split
        · rfl
        · exact congrArg some (forget_finish s i c _)
      · exact congrArg some (forget_finish s i c _)
    | _ => rfl
  | abandon j =>
    have h := forget_enter ((s.releaseWriter i).withoutSlot c.seq) i .abandoned
    have hl : ((s.releaseWriter i).withoutSlot c.seq).forget = (s.forget.releaseWriter i).withoutSlot c.seq := by
      rw [← forget_releaseWriter]
      rfl
    rw [hl] at h
    simp only [act, hp]
    cases c.phase with
    | queued | writing rest | flushing | waiting => exact congrArg some h
    | _ => rfl
  | _ => rfl

private theorem forget_read? (s : Client) : s.read?.map forget = s.forget.read?.map forget := by
  have hr : s.forget.reader = s.reader := rfl
  have hi : s.forget.inbox = s.inbox := rfl
  simp only [read?, hr, hi]
  cases s.reader with
  | reading =>
    cases s.inbox.next with
    | nothing => rfl
    | frame payload inbox =>
      dsimp only
      cases Wire.Response.decode payload with
      | error fault => exact congrArg some (forget_forget { s with inbox, reader := .stopped }).symm
      | ok r => exact congrArg some (forget_deliver { s with inbox, reader := .reading } r)
    | fault fault => exact congrArg some (forget_forget { s with reader := .stopped }).symm
  | _ => rfl

private theorem forget_step? (s : Client) (e : Event) : (s.step? e).map forget = (s.forget.step? e).map forget := by
  have hcall : ∀ i, ((s.calls[i]?).bind fun c => s.act i c e).map forget =
      ((s.forget.calls[i]?).bind fun c => s.forget.act i c e).map forget := by
    intro i
    have hi : s.forget.calls[i]? = (s.calls[i]?).map ClientCall.forget := List.getElem?_map
    rw [hi]
    rcases s.calls[i]? with _ | c
    · rfl
    · exact forget_act s i c e
  cases e with
  | make call => exact congrArg some (forget_make s call)
  | arrive piece => exact congrArg some (forget_forget { s with inbox := s.inbox.arrive piece }).symm
  | closeInput => exact congrArg some (forget_forget { s with inbox := s.inbox.close }).symm
  | read => exact forget_read? s
  | markClosed =>
    have hr : s.forget.reader = s.reader := rfl
    simp only [step?, hr]
    split
    · exact congrArg some (forget_forget { s with closed := true, reader := .marked }).symm
    · rfl
  | dropSlots =>
    have hr : s.forget.reader = s.reader := rfl
    simp only [step?, hr]
    split
    · exact congrArg some (forget_forget { s with pending := [], reader := .done }).symm
    · rfl
  | register i | check i | holdWriter i | put i count | flush i | failWrite i fault | wake i | abandon i => exact hcall i

/-- No step depends on the record. -/
theorem forget_step (s : Client) (e : Event) : (s.step e).forget = (s.forget.step e).forget := by
  have h := forget_step? s e
  rw [step, step]
  rcases hs : s.step? e with _ | next <;> rcases ht : s.forget.step? e with _ | next'
  · exact (forget_forget s).symm
  · rw [hs, ht] at h
    cases h
  · rw [hs, ht] at h
    cases h
  · rw [hs, ht] at h
    exact Option.some.inj h

theorem forget_run (s : Client) (es : List Event) : (s.run es).forget = (s.forget.run es).forget := by
  induction es generalizing s with
  | nil => exact (forget_forget s).symm
  | cons e es ih => rw [run_cons, run_cons, ih, forget_step, ← ih]

theorem step_read {s : Client} {payload : Bytes} {inbox : Inbox} {r : Wire.Response}
    (hreading : s.reader = .reading) (hframe : s.inbox.next = .frame payload inbox)
    (hr : Wire.Response.decode payload = .ok r) : s.step .read = ({ s with inbox } : Client).deliver r := by
  simp only [step, step?, read?, hreading, hframe, hr, Option.getD_some]

/-- A response without a slot changes nothing of what any call comes to, whatever happens later. -/
theorem result?_of_no_slot {s : Client} {payload : Bytes} {inbox : Inbox} {r : Wire.Response}
    (hreading : s.reader = .reading) (hframe : s.inbox.next = .frame payload inbox)
    (hr : Wire.Response.decode payload = .ok r) (hslot : s.slot? r.seq = none) (later : List Event) (i : Nat) :
    ((s.step .read).run later).result? i = (({ s with inbox } : Client).run later).result? i := by
  have hno : ({ s with inbox } : Client).slot? r.seq = none := hslot
  have hforget : (s.step .read).forget = ({ s with inbox } : Client).forget := by
    rw [step_read hreading hframe hr, deliver_of_no_slot hno]
    rfl
  rw [← result?_forget, forget_run, hforget, ← forget_run, result?_forget]

end Client

end SshAuthority.Connection
