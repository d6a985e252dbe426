import SshAuthority.Proofs.Connection.Carriage
/-!
# Calls that come to an end

Whatever is under way on a connection that nothing disturbs, a call for the key of the service can come to its
result: either its next step can be taken, or somebody is in its way who can take one.
-/
namespace SshAuthority.Connection
open Authority

/-! ## Runs -/

namespace Link

def RunsFreely (s : Link) : List Event → Prop
  | [] => True
  | e :: events => s.Undisturbed e ∧ (s.step e).RunsFreely events

instance decidableRunsFreely (s : Link) : (events : List Event) → Decidable (s.RunsFreely events)
  | [] => .isTrue trivial
  | e :: events => @instDecidableAnd _ _ _ (decidableRunsFreely (s.step e) events)

private theorem requests_step (s : Link) (e : Event) :
    (s.step e).client.calls.map (·.request) =
        s.client.calls.map (·.request) ++ Client.numbered s.client.nextSeq e.made?.toList ∧
      (s.step e).client.nextSeq = s.client.nextSeq + UInt64.ofNat e.made?.toList.length := by
  have hidle : s.client.calls.map (·.request) = s.client.calls.map (·.request) ++ [] ∧
      s.client.nextSeq = s.client.nextSeq + 0 := ⟨(List.append_nil _).symm, (UInt64.add_zero _).symm⟩
  cases e with
  | client e =>
    by_cases hown : isOwnOfClient e
    · rw [step, if_pos hown]
      exact Client.requests_step s.client e
    · rw [step, if_neg hown]
      cases e with
      | arrive | closeInput => exact hidle
      | _ => exact absurd rfl hown
  | server e =>
    rw [step]
    split <;> exact hidle
  | carry count => exact hidle
  | bringBack count => exact Client.requests_step s.client (.arrive _)

theorem requests_run (s : Link) (events : List Event) :
    (s.run events).client.calls.map (·.request) =
        s.client.calls.map (·.request) ++ Client.numbered s.client.nextSeq (events.filterMap Event.made?) ∧
      (s.run events).client.nextSeq =
        s.client.nextSeq + UInt64.ofNat (events.filterMap Event.made?).length := by
  induction events generalizing s with
  | nil => exact ⟨(List.append_nil _).symm, (UInt64.add_zero _).symm⟩
  | cons e events ih =>
    have hr : s.run (e :: events) = (s.step e).run events := rfl
    obtain ⟨hcalls, hseq⟩ := ih (s.step e)
    obtain ⟨hcalls', hseq'⟩ := requests_step s e
    rw [hr, hcalls, hseq, hcalls', hseq', List.append_assoc, List.filterMap_cons]
    rcases e.made? with _ | call
    · simp [Client.numbered]
    · refine ⟨rfl, ?_⟩
      rw [UInt64.add_assoc, List.length_cons, UInt64.ofNat_add]
      exact congrArg _ (UInt64.add_comm _ _)

end Link

/-! ## What is left to do -/

/-- What a call has left to do, with what its request makes others do once it is written. -/
def CallPhase.left : CallPhase → Nat
  | .numbered => 14
  | .registered => 13
  | .queued => 12
  | .writing _ => 11
  | .flushing => 2
  | .waiting => 1
  | .finished _ | .abandoned => 0

def HandlerPhase.left : HandlerPhase → Nat
  | .dispatched => 6
  | .signing _ | .answered _ => 5
  | .done => 0

namespace Link

def left (s : Link) : Nat :=
  total (fun c => c.phase.left) s.client.calls + total (fun h => h.phase.left) s.server.handlers +
    7 * (s.client.written.length - s.server.handlers.length) + 4 * s.server.queue.length +
    3 * s.server.writing.toList.length + (s.server.written.length - s.client.responses.length) +
    min 1 (s.client.sent.length - s.carried) + min 1 (s.server.sent.length - s.returned)

def keyResponse (start : Session) (r : Wire.Request) : Wire.Response :=
  ⟨r.seq, .ok (.publicKey start.service.identity.key.bytes)⟩

/-- Some step can be taken that leaves less to do. -/
def Advances (s : Link) : Prop := ∃ e, s.Undisturbed e ∧ e.made? = none ∧ (s.step e).left < s.left

variable {start : Session} {s : Link} {g : History} {i k : Nat} {c : ClientCall}

namespace Sound

/-! ## Who can go on -/

private theorem advances_client (h : Sound start s g) {e : Client.Event} {next : Client}
    (hm : s.client.Moves e next) (hown : isOwnOfClient e) (hmade : e.made? = none)
    (hlasts : (Event.client e).disturbs = false) (hlt : ({ s with client := next } : Link).left < s.left) :
    s.Advances := by
  have hstep : s.step (.client e) = { s with client := next } := by
    rw [Link.step, if_pos hown, Client.step, Client.step?_of_moves hm, Option.getD_some]
  refine ⟨.client e, ⟨hlasts, ?_, ?_⟩, hmade, by rwa [hstep]⟩
  · simp [Event.made?, hmade]
  · rw [hstep]
    exact h.fit

private theorem advances_call (h : Sound start s g) {e : Client.Event} {next : Client} (hm : s.client.Moves e next)
    (hown : isOwnOfClient e) (hmade : e.made? = none) (hlasts : (Event.client e).disturbs = false)
    (hc : s.client.calls[i]? = some c) {f : ClientCall → ClientCall} (hcalls : next.calls = s.client.calls.modify i f)
    (hlt : (f c).phase.left < c.phase.left)
    (hrest : next.written = s.client.written ∧ next.sent = s.client.sent ∧ next.responses = s.client.responses) :
    s.Advances := by
  have ht := total_modify_lt (g := fun c => c.phase.left) hc hlt
  obtain ⟨hwritten, hsent, hresponses⟩ := hrest
  apply h.advances_client hm hown hmade hlasts
  simp only [left, hcalls, hwritten, hsent, hresponses]
  omega

private theorem advances_writer (h : Sound start s g) (hc : s.client.calls[i]? = some c) (hp : c.phase.holdsWriter) :
    s.Advances := by
  cases hphase : c.phase with
  | writing rest =>
    have ht := total_modify hc (fun c => { c with phase := .flushing }) (fun c => c.phase.left)
    have hle := h.forth.taken_le
    have hall : rest.drop rest.length = [] := List.drop_length
    apply h.advances_client (.putLast hc hphase hall) rfl rfl rfl
    rw [List.length_map] at hle
    rw [hphase] at ht
    change _ + 11 = _ + 2 at ht
    simp only [left, Client.enter, List.length_append, List.length_singleton]
    omega
  | flushing =>
    exact h.advances_call (.flush hc hphase) rfl rfl rfl hc rfl (by simp [hphase, CallPhase.left]) ⟨rfl, rfl, rfl⟩
  | _ =>
    rw [hphase] at hp
    cases hp

private theorem advances_server (_ : Sound start s g) {e : Server.Event} {next : Server}
    (hm : s.server.Moves e next) (hown : isOwnOfServer e) (hlasts : (Event.server e).disturbs = false)
    (hfit : ∀ r ∈ next.queue, r.encode.length ≤ Wire.maxPayload) (hlt : ({ s with server := next } : Link).left < s.left) :
    s.Advances := by
  have hstep : s.step (.server e) = { s with server := next } := by
    rw [Link.step, if_pos hown, Server.step, Server.step?_of_moves hm, Option.getD_some]
  exact ⟨.server e, ⟨hlasts, by simp [Event.made?], by rwa [hstep]⟩, rfl, by rwa [hstep]⟩

private theorem advances_queue (h : Sound start s g) (hq : s.server.writing = none → s.server.queue ≠ []) :
    s.Advances := by
  cases hw : s.server.writing with
  | some w =>
    obtain ⟨r, rest⟩ := w
    have hall : rest.drop rest.length = [] := List.drop_length
    refine h.advances_server (.putLast hw hall) rfl rfl h.fit ?_
    simp only [left, hw, List.length_append, Option.toList_some, Option.toList_none, List.length_singleton, List.length_nil]
    omega
  | none =>
    obtain ⟨r, queue, hfirst⟩ := List.exists_cons_of_ne_nil (hq hw)
    have hfit := h.fit
    rw [hfirst] at hfit
    have hframe := Wire.Frame.write_of_le (hfit r List.mem_cons_self)
    refine h.advances_server (.dequeue h.whole hw hfirst hframe) rfl rfl
      (fun r' hr => hfit r' (List.mem_cons_of_mem _ hr)) ?_
    simp only [left, hw, hfirst, List.length_cons, Option.toList_some, Option.toList_none, List.length_nil]
    omega

private theorem left_deliver (s : Client) (r : Wire.Response) :
    total (fun c => c.phase.left) (s.deliver r).calls = total (fun c => c.phase.left) s.calls := by
  simp only [Client.deliver]
  split
  · rfl
  · rename_i i _
    rcases hc : s.calls[i]? with _ | c
    · rw [List.modify_eq_self (List.getElem?_eq_none_iff.mp hc)]
    · have ht := total_modify hc (fun c => { c with reply := some r }) (fun c => c.phase.left)
      exact Nat.add_right_cancel ht

private theorem moved_all {bs : Bytes} {moved : Nat} (h : moved ≤ bs.length) :
    moved + ((bs.drop moved).take bs.length).length = bs.length := by
  rw [List.length_take, List.length_drop]
  omega

private theorem advances_bringBack (h : Sound start s g) (hmore : s.returned ≠ s.server.sent.length) : s.Advances := by
  have hle := h.back.moved_le
  have hstep : ∀ count, s.step (.bringBack count) = { s with
      client := { s.client with inbox := s.client.inbox.arrive ((s.server.sent.drop s.returned).take count) }
      returned := s.returned + ((s.server.sent.drop s.returned).take count).length } := fun _ => rfl
  refine ⟨.bringBack s.server.sent.length, ⟨rfl, by simp [Event.made?], h.fit⟩, rfl, ?_⟩
  simp only [left, hstep, moved_all hle]
  omega

private theorem advances_carry (h : Sound start s g) (hmore : s.carried ≠ s.client.sent.length) : s.Advances := by
  have hle := h.forth.moved_le
  have hstep : ∀ count, s.step (.carry count) = { s with
      server := { s.server with inbox := s.server.inbox.arrive ((s.client.sent.drop s.carried).take count) }
      carried := s.carried + ((s.client.sent.drop s.carried).take count).length } := fun _ => rfl
  refine ⟨.carry s.client.sent.length, ⟨rfl, by simp [Event.made?], h.fit⟩, rfl, ?_⟩
  simp only [left, hstep, moved_all hle]
  omega

private theorem advances_response (h : Sound start s g) (hlt : s.client.responses.length < s.server.written.length) :
    s.Advances := by
  by_cases hall : s.returned = s.server.sent.length
  · have hnext := List.getElem?_eq_getElem hlt
    have hsome := h.back.next_of_all h.out hall (by rw [List.getElem?_map, hnext, Option.map_some])
    rcases h.back.message Wire.Response.decode_encode h.out with hn | ⟨q, inbox, r, hn, hd, -, -⟩
    · exact absurd hn hsome
    · obtain ⟨hresponses, -⟩ := Client.deliver_rest { s.client with inbox } r
      have hcalls := left_deliver { s.client with inbox } r
      have hsame : (({ s.client with inbox } : Client).deliver r).written = s.client.written ∧
          (({ s.client with inbox } : Client).deliver r).sent = s.client.sent := by
        simp only [Client.deliver]
        split <;> exact ⟨rfl, rfl⟩
      apply h.advances_client (.read h.listens hn hd) rfl rfl rfl
      simp only [left, hcalls, hresponses, hsame.1, hsame.2, List.length_append, List.length_singleton]
      omega
  · exact h.advances_bringBack hall

private theorem advances_request (h : Sound start s g) (hlt : s.server.handlers.length < s.client.written.length) :
    s.Advances := by
  by_cases hall : s.carried = s.client.sent.length
  · have hnext := List.getElem?_eq_getElem hlt
    have hsome := h.forth.next_of_all h.framed.out hall (by rw [List.getElem?_map, hnext, Option.map_some])
    rcases h.forth.message Wire.Request.decode_encode h.framed.out with hn | ⟨q, inbox, r, hn, hd, -, -⟩
    · exact absurd hn hsome
    · refine h.advances_server (.read h.reads hn hd) rfl rfl h.fit ?_
      simp only [left, total_append, total, HandlerPhase.left, List.length_append, List.length_singleton]
      omega
  · exact h.advances_carry hall

/-! ## Calls for the key -/

private theorem total_entered {hd : Handler} (hhandler : s.server.handlers[k]? = some hd) (p : HandlerPhase) :
    total (fun h => h.phase.left) (s.server.handlers.modify k fun h => { h with phase := p }) + hd.phase.left =
      total (fun h => h.phase.left) s.server.handlers + p.left :=
  total_modify hhandler (fun h => { h with phase := p }) fun h => h.phase.left

private theorem advances_dispatched (h : Sound start s g) {hd : Handler} (hhandler : s.server.handlers[k]? = some hd)
    (hp : hd.phase = .dispatched) (hcall : hd.request.call = .publicKey) : s.Advances := by
  have ht := total_entered hhandler (.answered (s.server.answer hd (.error .notConfirmed)))
  refine h.advances_server (.answer hhandler hp (by rw [hcall]; rfl)) rfl rfl h.fit ?_
  rw [hp] at ht
  change _ + 6 = _ + 5 at ht
  simp only [left, Server.enter, List.length_modify]
  omega

private theorem advances_answered (h : Sound start s g) {hd : Handler} (hhandler : s.server.handlers[k]? = some hd)
    {result : Wire.Result} (hp : hd.phase = .answered result)
    (hfit : (⟨hd.request.seq, result⟩ : Wire.Response).encode.length ≤ Wire.maxPayload) : s.Advances := by
  by_cases hroom : s.server.queue.length < Server.queueRoom
  · have ht := total_entered hhandler .done
    refine h.advances_server (.enqueue hhandler hp h.whole hroom) rfl rfl (fun r hr => ?_) ?_
    · rcases List.mem_append.mp hr with hr | hr
      · exact h.fit r hr
      · rw [List.mem_singleton.mp hr]
        exact hfit
    · rw [hp] at ht
      change _ + 5 = _ + 0 at ht
      simp only [left, Server.enter, List.length_modify, List.length_append, List.length_singleton]
      omega
  · refine h.advances_queue fun _ hempty => ?_
    simp [hempty, Server.queueRoom] at hroom

private theorem advances_done (h : Sound start s g) (hc : s.client.calls[i]? = some c) (hnone : c.reply = none)
    {hd : Handler} (hk : g.order[k]? = some i) (hhandler : s.server.handlers[k]? = some hd) (hp : hd.phase = .done) :
    s.Advances := by
  obtain ⟨m, hm⟩ := List.getElem?_of_mem (h.matched.back_mem.mpr ⟨k, hd, hk, hhandler, hp⟩)
  have hback : i ∉ g.back.take s.exchange.heard := fun hb => by
    simpa [hnone] using (h.matched.replies hc).mpr hb
  have hheard : s.exchange.heard ≤ m := by
    by_contra hgt
    refine hback (List.mem_of_getElem? (i := m) ?_)
    rw [List.getElem?_take_of_lt (Nat.lt_of_not_le hgt), hm]
  have hout : s.exchange.heard < s.exchange.out.length := by
    have hm' := (List.getElem?_eq_some_iff.mp hm).1
    rw [h.matched.out_length]
    omega
  simp only [exchange, List.length_append] at hout
  by_cases hread : s.client.responses.length < s.server.written.length
  · exact h.advances_response hread
  · refine h.advances_queue fun hw hempty => ?_
    rw [hw, hempty] at hout
    simp at hout
    omega

private theorem advances_reply (h : Sound start s g) (hc : s.client.calls[i]? = some c) (hkey : c.call = .publicKey)
    (hfit : (keyResponse start c.request).encode.length ≤ Wire.maxPayload) (hsent : c.isSent)
    (hnone : c.reply = none) : s.Advances := by
  obtain ⟨k, hk⟩ := List.getElem?_of_mem (h.matched.ordered.mem.mpr ⟨c, hc, hsent⟩)
  have hwritten : s.client.written.length = g.order.length := by
    have hlength := congrArg List.length h.matched.ordered.written
    rwa [List.length_map, List.length_map] at hlength
  have hlt := (List.getElem?_eq_some_iff.mp hk).1
  rcases hhandler : s.server.handlers[k]? with _ | hd
  · have hle := List.getElem?_eq_none_iff.mp hhandler
    exact h.advances_request (by omega)
  obtain ⟨j, d, hj, hd', hreq, hhandled⟩ := h.matched.handlers hhandler
  obtain rfl := Option.some.inj (hk.symm.trans hj)
  obtain rfl := Option.some.inj (hc.symm.trans hd')
  cases hp : hd.phase with
  | dispatched => exact h.advances_dispatched hhandler hp ((congrArg Wire.Request.call hreq).trans hkey)
  | signing j =>
    rw [hp] at hhandled
    obtain ⟨n, -, hn⟩ := hhandled
    obtain ⟨d, r, hd', hsign, -⟩ := h.matched.billed.request hn
    obtain rfl := Option.some.inj (hc.symm.trans hd')
    cases hkey.symm.trans hsign
  | answered result =>
    rw [hp] at hhandled
    rcases hhandled with ⟨-, rfl⟩ | ⟨r', _, _, hsign, -⟩
    · exact h.advances_answered hhandler hp (by rw [hreq]; exact hfit)
    · cases hkey.symm.trans hsign
  | done => exact h.advances_done hc hnone hk hhandler hp

/-- A call for the key that has no result yet, or somebody in its way, can go on. -/
private theorem advances (h : Sound start s g) (hc : s.client.calls[i]? = some c) (hkey : c.call = .publicKey)
    (hfit : (keyResponse start c.request).encode.length ≤ Wire.maxPayload) (hr : s.client.result? i = none) :
    s.Advances := by
  cases hp : c.phase with
  | numbered =>
    exact h.advances_call (.register hc hp) rfl rfl rfl hc rfl (by simp [hp, CallPhase.left]) ⟨rfl, rfl, rfl⟩
  | registered =>
    exact h.advances_call (.queue hc hp h.isOpen) rfl rfl rfl hc rfl (by simp [hp, CallPhase.left]) ⟨rfl, rfl, rfl⟩
  | queued =>
    cases hw : s.client.writer with
    | none =>
      have hframe := Wire.Frame.write_of_le (h.short c (List.mem_of_getElem? hc))
      exact h.advances_call (.holdWriter hc hp hw hframe) rfl rfl rfl hc rfl (by simp [hp, CallPhase.left])
        ⟨rfl, rfl, rfl⟩
    | some j =>
      obtain ⟨p, hphase, hholds⟩ := (Option.any_eq_true _ _).mp ((h.framed.holder j).mpr hw)
      obtain ⟨d, hd, rfl⟩ := Option.map_eq_some_iff.mp hphase
      exact h.advances_writer hd hholds
  | writing rest => exact h.advances_writer hc (by rw [hp]; rfl)
  | flushing => exact h.advances_writer hc (by rw [hp]; rfl)
  | waiting =>
    cases hreply : c.reply with
    | some r =>
      exact h.advances_call (.wake hc hp hreply) rfl rfl rfl hc rfl (by simp [hp, CallPhase.left]) ⟨rfl, rfl, rfl⟩
    | none => exact h.advances_reply hc hkey hfit (by simp [ClientCall.isSent, hp]) hreply
  | finished result =>
    rw [Client.result?_of_call hc hp] at hr
    cases hr
  | abandoned =>
    obtain ⟨r, -, hfinished⟩ := h.slotted.ended hc (by rw [hp]; rfl)
    rw [hp] at hfinished
    cases hfinished

/-- Every call for the key can come to its result, without any new calls. -/
theorem exists_completion (h : Sound start s g)
    (hfit : ∀ r ∈ s.client.calls.map (·.request), r.call = .publicKey →
      (keyResponse start r).encode.length ≤ Wire.maxPayload) :
    ∃ more, s.RunsFreely more ∧ more.filterMap Event.made? = [] ∧ ∀ (i : Nat) (c : ClientCall),
      (s.run more).client.calls[i]? = some c → c.call = .publicKey → ((s.run more).client.result? i).isSome := by
  -- On what is left to do: as long as such a call has no result, some step leaves less.
  induction hn : s.left using Nat.strongRecOn generalizing s g with
  | ind n ih =>
    by_cases hall : ∀ (i : Nat) (c : ClientCall), s.client.calls[i]? = some c → c.call = .publicKey →
      (s.client.result? i).isSome
    · exact ⟨[], trivial, rfl, hall⟩
    · simp only [not_forall, Option.not_isSome_iff_eq_none] at hall
      obtain ⟨i, c, hc, hkey, hnone⟩ := hall
      have hmem := List.mem_map_of_mem (f := ClientCall.request) (List.mem_of_getElem? hc)
      obtain ⟨e, hu, hmade, hlt⟩ := h.advances hc hkey (hfit _ hmem hkey) hnone
      obtain ⟨g', h', -⟩ := h.step hu
      have hsame : (s.step e).client.calls.map (·.request) = s.client.calls.map (·.request) := by
        rw [(requests_step s e).1, hmade]
        exact List.append_nil _
      obtain ⟨more, hmore, hquiet, hdone⟩ := ih _ (hn ▸ hlt) h' (by rwa [hsame]) rfl
      exact ⟨e :: more, ⟨hu, hmore⟩, by rw [List.filterMap_cons, hmade]; exact hquiet, hdone⟩

end Sound

end Link

end SshAuthority.Connection
