import SshAuthority.Connection.Link
import SshAuthority.Proofs.Connection.Framed
import SshAuthority.Proofs.Connection.Handling
import SshAuthority.Proofs.Connection.Slots
/-!
# Requests and responses on their way

As long as nothing disturbs a connection, each side reads what the other wrote, and a client and its server
have an exchange.
-/
namespace SshAuthority.Connection
open Authority

namespace Link

/-- A connection without its bytes. -/
def exchange (s : Link) : Exchange where
  calls := s.client.calls
  written := s.client.written
  heard := s.client.responses.length
  handlers := s.server.handlers
  out := s.server.written ++ (s.server.writing.map (·.1)).toList ++ s.server.queue
  session := s.server.session

def Event.made? : Event → Option Wire.Call
  | .client e => e.made?
  | _ => none

/-- Whether a call is abandoned or a stream fails. -/
def Event.disturbs : Event → Bool
  | .client (.abandon _) | .client (.failWrite _ _) | .server .failWrite => true
  | _ => false

/-- An event that does not disturb a connection. A call is made by one of the client's methods, and what is
to be written fits into a frame. Its number is not in use, which takes more than `2 ^ 64` calls to happen. -/
structure Undisturbed (s : Link) (e : Event) : Prop where
  lasts : e.disturbs = false
  made : ∀ call ∈ e.made?, Issued call ∧
    (∀ c ∈ s.client.calls, c.phase.isOver = false → c.seq ≠ s.client.nextSeq) ∧
    (Wire.Request.encode ⟨s.client.nextSeq, call⟩).length ≤ Wire.maxPayload
  fit : ∀ r ∈ (s.step e).server.queue, r.encode.length ≤ Wire.maxPayload

instance (s : Link) (e : Event) : Decidable (s.Undisturbed e) :=
  decidable_of_iff (e.disturbs = false ∧ (∀ call ∈ e.made?, Issued call ∧
      (∀ c ∈ s.client.calls, c.phase.isOver = false → c.seq ≠ s.client.nextSeq) ∧
      (Wire.Request.encode ⟨s.client.nextSeq, call⟩).length ≤ Wire.maxPayload) ∧
    ∀ r ∈ (s.step e).server.queue, r.encode.length ≤ Wire.maxPayload)
    ⟨fun h => ⟨h.1, h.2.1, h.2.2⟩, fun h => ⟨h.lasts, h.made, h.fit⟩⟩

/-- For whom the service is asked to sign at an event: for the call whose request a handler turns to it
with, or for no call of the connection. -/
def asks (s : Link) : Event → List (Option Nat)
  | .server (.service e) => outside e
  | .server (.dispatch k) => match s.server.handlers[k]? with
    | some ⟨request, .dispatched⟩ => match Server.signRequest? request.call with
      | some _ => [s.client.slot? request.seq]
      | none => []
    | _ => []
  | _ => []

/-- A connection that nothing has disturbed, and the exchange on it. -/
structure Sound (start : Session) (s : Link) (g : History) : Prop where
  matched : Exchange.Matched start s.exchange g
  slotted : s.client.Slotted
  framed : s.client.Framed
  short : ∀ c ∈ s.client.calls, c.request.encode.length ≤ Wire.maxPayload
  listens : s.client.reader = .reading
  isOpen : s.client.closed = false
  forth : Incoming (s.client.written.map (·.encode)) s.client.sent s.carried s.server.handlers.length
    s.server.inbox
  reads : s.server.reading = true
  whole : s.server.broken = false
  fit : ∀ r ∈ s.server.queue, r.encode.length ≤ Wire.maxPayload
  out : Outgoing (s.server.written.map (·.encode)) (s.server.writing.map fun w => (w.1.encode, w.2))
    s.server.sent
  back : Incoming (s.server.written.map (·.encode)) s.server.sent s.returned s.client.responses.length
    s.client.inbox

namespace Sound

variable {start : Session} {s : Link} {g : History}

theorem initial (start : Session) : Sound start (.new start) ⟨[], [], []⟩ where
  matched := Exchange.Matched.initial start
  slotted := Client.Slotted.start
  framed := Client.Framed.start
  short := by simp [Link.new, Client.new]
  listens := rfl
  isOpen := rfl
  forth := Incoming.start
  reads := rfl
  whole := rfl
  fit := by simp [Link.new, Server.new]
  out := Outgoing.start
  back := Incoming.start

/-! ## Steps of the client -/

private theorem client_advance (h : Sound start s g) {i : Nat} {c : ClientCall} {f : ClientCall → ClientCall}
    {next : Client} (hc : s.client.calls[i]? = some c) (hreq : (f c).request = c.request)
    (hrep : (f c).reply = c.reply) (hs : (f c).isSent = c.isSent) (hslotted : next.Slotted) (hframed : next.Framed)
    (hshort : ∀ c ∈ next.calls, c.request.encode.length ≤ Wire.maxPayload)
    (hnext : next = { s.client with
      pending := next.pending, writer := next.writer, flushed := next.flushed, calls := s.client.calls.modify i f }) :
    Sound start { s with client := next } g := by
  rw [hnext] at hslotted hframed hshort ⊢
  exact { h with matched := h.matched.advance hc hreq hrep hs, slotted := hslotted, framed := hframed, short := hshort }

private theorem client_read (h : Sound start s g) {inbox : Inbox} {r : Wire.Response}
    (hw : s.server.written[s.client.responses.length]? = some r)
    (hback : Incoming (s.server.written.map (·.encode)) s.server.sent s.returned
      (s.client.responses.length + 1) inbox)
    (hframed : (({ s.client with inbox } : Client).deliver r).Framed)
    (hshort : ∀ c ∈ (({ s.client with inbox } : Client).deliver r).calls,
      c.request.encode.length ≤ Wire.maxPayload) :
    Sound start { s with client := ({ s.client with inbox } : Client).deliver r } g := by
  have hr : s.exchange.out[s.exchange.heard]? = some r :=
    getElem?_append_old (getElem?_append_old hw _) _
  obtain ⟨i, c, hb, hc, hsent, hnone, hseq⟩ := h.matched.next_reply hr
  have hwaits := h.slotted.awaits hc hsent hnone
  have hslot : ({ s.client with inbox } : Client).slot? r.seq = some i := by
    rw [hseq]
    exact h.slotted.slot_of_awaits hc hwaits
  have hslotted := (h.slotted.of_eq rfl rfl (t := { s.client with inbox })).deliver hc hwaits hsent hslot hseq
  rw [Client.deliver_of_slot hslot] at hslotted hframed hshort ⊢
  refine { h with matched := ?_, slotted := hslotted, framed := hframed, short := hshort, back := ?_ }
  · have hm := h.matched.deliver hb hr (f := fun c => { c with reply := some r }) fun _ => ⟨rfl, rfl, rfl⟩
    have hl : s.exchange.heard + 1 = (s.client.responses ++ [r]).length := by simp [exchange]
    rw [hl] at hm
    exact hm
  · have hl : s.client.responses.length + 1 = (s.client.responses ++ [r]).length := by simp
    rw [hl] at hback
    exact hback

private theorem short_of_moves (h : Sound start s g) {e : Client.Event} {next : Client} (hm : s.client.Moves e next)
    (hu : s.Undisturbed (.client e)) : ∀ c ∈ next.calls, c.request.encode.length ≤ Wire.maxPayload := by
  intro c hc
  have hmem := List.mem_map_of_mem (f := ClientCall.request) hc
  rw [(Client.requests_of_moves hm).1, List.mem_append] at hmem
  rcases hmem with hold | hnew
  · obtain ⟨d, hd, hreq⟩ := List.mem_map.mp hold
    rw [← hreq]
    exact h.short d hd
  · rcases hmade : e.made? with _ | call <;> rw [hmade] at hnew
    · cases hnew
    · rw [List.mem_singleton.mp hnew]
      exact (hu.made call hmade).2.2

private theorem not_cuts {e : Client.Event} (hu : s.Undisturbed (.client e)) : s.client.cuts e = false := by
  cases e with
  | abandon | failWrite => cases hu.lasts
  | _ => rfl

theorem client_moves (h : Sound start s g) {e : Client.Event} {next : Client} (hm : s.client.Moves e next)
    (hown : isOwnOfClient e) (hu : s.Undisturbed (.client e)) :
    ∃ g', Sound start { s with client := next } g' ∧ g'.ledger = g.ledger := by
  have hframed := h.framed.of_moves hm (not_cuts hu)
  have hshort := h.short_of_moves hm hu
  cases hm with
  | make call =>
    obtain ⟨hissued, hfresh, -⟩ := hu.made call rfl
    refine ⟨g, { h with matched := ?_, slotted := ?_, framed := hframed, short := hshort }, rfl⟩
    · exact h.matched.make hissued rfl rfl
    · exact h.slotted.make call hfresh
  | register hc hp =>
    have hs := h.slotted.register hc hp
    exact ⟨g, h.client_advance hc rfl rfl (by simp [ClientCall.isSent, hp]) hs hframed hshort rfl, rfl⟩
  | refuse hc hp hclosed =>
    rw [h.isOpen] at hclosed
    cases hclosed
  | @queue i c hc hp _ =>
    have hs := h.slotted.proceed hc (by rw [hp]; rfl) (by simp [hp]) rfl (by simp) (by simp [ClientCall.isSent, hp])
      rfl rfl (t := s.client.enter i .queued)
    exact ⟨g, h.client_advance hc rfl rfl (by simp [ClientCall.isSent, hp]) hs hframed hshort rfl, rfl⟩
  | tooLong hc hp _ hlong =>
    rw [Wire.Frame.write_of_le (h.short _ (List.mem_of_getElem? hc))] at hlong
    cases hlong
  | @holdWriter i c frame hc hp hfree hw =>
    have hs := h.slotted.proceed hc (by rw [hp]; rfl) (by simp [hp]) rfl (by simp) (by simp [ClientCall.isSent, hp])
      rfl rfl (t := ({ s.client with writer := some i } : Client).enter i (.writing frame))
    exact ⟨g, h.client_advance hc rfl rfl (by simp [ClientCall.isSent, hp]) hs hframed hshort rfl, rfl⟩
  | @put i c rest count hc hp hmore =>
    refine ⟨g, { h with matched := ?_, slotted := ?_, framed := hframed, short := hshort, forth := ?_ }, rfl⟩
    · exact h.matched.advance hc rfl rfl (by simp [ClientCall.isSent, hp])
    · exact h.slotted.proceed hc (by rw [hp]; rfl) (by simp [hp]) rfl (by simp) (by simp [ClientCall.isSent, hp])
        rfl rfl
    · have hg := h.forth.grow [] (rest.take count)
      rwa [List.append_nil] at hg
  | @putLast i c rest count hc hp hlast =>
    refine ⟨{ g with order := g.order ++ [i] },
      { h with matched := ?_, slotted := ?_, framed := hframed, short := hshort, forth := ?_ }, rfl⟩
    · exact h.matched.send hc (by simp [ClientCall.isSent, hp]) rfl rfl rfl
    · exact h.slotted.proceed hc (by rw [hp]; rfl) (by simp [hp]) rfl (by simp) (by simp [ClientCall.isSent])
        rfl rfl
    · have hg := h.forth.grow [c.request.encode] (rest.take count)
      rw [Client.enter, List.map_append]
      exact hg
  | @flush i c hc hp =>
    have hs := h.slotted.proceed hc (by rw [hp]; rfl) (by simp [hp]) rfl (by simp) (by simp [ClientCall.isSent])
      rfl rfl (t := ({ s.client with writer := none, flushed := s.client.flushed ++ [c.request] } : Client).enter i
        .waiting)
    exact ⟨g, h.client_advance hc rfl rfl (by simp [ClientCall.isSent, hp]) hs hframed hshort rfl, rfl⟩
  | failWrite hc hp => cases hu.lasts
  | wake hc hp hr =>
    have hs := h.slotted.wake hc hp hr
    exact ⟨g, h.client_advance hc rfl rfl (by simp [ClientCall.isSent, hp]) hs hframed hshort rfl, rfl⟩
  | giveUp hc hp hr hgone =>
    exact absurd (h.slotted.slot_of_awaits hc (by simp [ClientCall.awaits, hp, hr])) hgone
  | abandon hc hp => cases hu.lasts
  | arrive piece => cases hown
  | closeInput => cases hown
  | read _ hn hd =>
    rcases h.back.message Wire.Response.decode_encode h.out with hx | ⟨q, rest, r', hx, hd', hw, hback⟩
    · cases hx.symm.trans hn
    · cases hx.symm.trans hn
      obtain rfl := Except.ok.inj (hd'.symm.trans hd)
      exact ⟨g, h.client_read hw hback hframed hshort, rfl⟩
  | misread _ hn hd =>
    rcases h.back.message Wire.Response.decode_encode h.out with hx | ⟨q, rest, r', hx, hd', -⟩
    · cases hx.symm.trans hn
    · cases hx.symm.trans hn
      cases hd'.symm.trans hd
  | stop _ hn =>
    rcases h.back.next h.out with hx | ⟨q, rest, hx, -⟩ <;> cases hx.symm.trans hn
  | markClosed hstopped =>
    rw [h.listens] at hstopped
    cases hstopped
  | dropSlots hmarked =>
    rw [h.listens] at hmarked
    cases hmarked

/-! ## Steps of the server -/

private theorem server_handler (h : Sound start s g) {k : Nat} {p : HandlerPhase} {session : Session}
    {g' : History} (hm : Exchange.Matched start
      { s.exchange with handlers := s.server.handlers.modify k fun h => { h with phase := p }, session } g') :
    Sound start { s with server := ({ s.server with session } : Server).enter k p } g' := by
  have hl : (s.server.handlers.modify k fun h => { h with phase := p }).length = s.server.handlers.length :=
    List.length_modify _ _ _
  refine { h with matched := hm, forth := ?_ }
  rw [Server.enter, hl]
  exact h.forth

/-- The call of a handler that is not done waits in its slot. -/
theorem slot_of_handler (h : Sound start s g) {k : Nat} {hd : Handler}
    (hk : s.server.handlers[k]? = some hd) (hn : hd.phase ≠ .done) :
    ∃ i, g.order[k]? = some i ∧ s.client.slot? hd.request.seq = some i := by
  obtain ⟨i, c, hi, hc, hreq, -⟩ := h.matched.handlers hk
  have hnone := h.matched.reply_of_handler hk hn hi hc
  obtain ⟨d, hd', hsent⟩ := h.matched.ordered.mem.mp (List.mem_of_getElem? hi)
  obtain rfl := Option.some.inj (hc.symm.trans hd')
  have hwaits := h.slotted.awaits hc hsent hnone
  have hseq : hd.request.seq = c.seq := congrArg Wire.Request.seq hreq
  refine ⟨i, hi, ?_⟩
  rw [hseq]
  exact h.slotted.slot_of_awaits hc hwaits

theorem server_moves (h : Sound start s g) {e : Server.Event} {next : Server} (hm : s.server.Moves e next)
    (hown : isOwnOfServer e) (hlasts : e ≠ .failWrite)
    (hfit : ∀ r ∈ next.queue, r.encode.length ≤ Wire.maxPayload) :
    ∃ g', Sound start { s with server := next } g' ∧ g'.ledger = g.ledger ++ s.asks (.server e) := by
  cases hm with
  | arrive piece => cases hown
  | closeInput => cases hown
  | @read payload inbox r _ hn hd =>
    rcases h.forth.message Wire.Request.decode_encode h.framed.out with hx | ⟨q, rest, r', hx, hd', hw, hforth⟩
    · cases hx.symm.trans hn
    · cases hx.symm.trans hn
      obtain rfl := Except.ok.inj (hd'.symm.trans hd)
      refine ⟨g, { h with matched := h.matched.accept hw, forth := ?_ }, by simp [asks]⟩
      have hl : s.server.handlers.length + 1 =
          (s.server.handlers ++ [(⟨r', .dispatched⟩ : Handler)]).length := by simp
      rw [hl] at hforth
      exact hforth
  | skip _ hn hd =>
    rcases h.forth.message Wire.Request.decode_encode h.framed.out with hx | ⟨q, rest, r', hx, hd', -⟩
    · cases hx.symm.trans hn
    · cases hx.symm.trans hn
      cases hd'.symm.trans hd
  | stop _ hn =>
    rcases h.forth.next h.framed.out with hx | ⟨q, rest, hx, -⟩ <;> cases hx.symm.trans hn
  | @request k hd r hk hp hr =>
    obtain ⟨i, hi, hslot⟩ := h.slot_of_handler hk (by simp [hp])
    refine ⟨{ g with ledger := g.ledger ++ [some i] }, h.server_handler (h.matched.request hk hp hi hr), ?_⟩
    obtain ⟨request, phase⟩ := hd
    obtain rfl := hp
    simp only [asks, hk, hr, hslot]
  | @answer k hd hk hp hr =>
    refine ⟨g, h.server_handler (h.matched.reply hk hp hr ⟨_, rfl⟩), ?_⟩
    obtain ⟨request, phase⟩ := hd
    obtain rfl := hp
    simp [asks, hk, hr]
  | @collect k hd j signed hk hp hr =>
    exact ⟨g, h.server_handler (h.matched.collect hk hp hr), by simp [asks]⟩
  | lose hk hp hbroken =>
    rw [h.whole] at hbroken
    cases hbroken
  | @enqueue k hd result hk hp _ hroom =>
    obtain ⟨i, hi, -⟩ := h.slot_of_handler hk (by simp [hp])
    have hl : (s.server.handlers.modify k fun h => { h with phase := .done }).length =
        s.server.handlers.length := List.length_modify _ _ _
    refine ⟨{ g with back := g.back ++ [i] }, { h with matched := ?_, forth := ?_, fit := hfit },
      by simp [asks]⟩
    · have hm := h.matched.enqueue hk hp hi
      simp only [exchange, List.append_assoc] at hm ⊢
      exact hm
    · rw [Server.enter, hl]
      exact h.forth
  | @dequeue r queue frame _ hidle hfirst hw =>
    obtain ⟨hr, rfl⟩ := Wire.Frame.write_eq_ok.mp hw
    refine ⟨g, { h with matched := ?_, fit := hfit, out := ?_ }, by simp [asks]⟩
    · have hm := h.matched
      simp only [exchange, hidle, hfirst] at hm ⊢
      simpa using hm
    · have ho := h.out
      rw [hidle] at ho
      exact ho.begin hr
  | giveUp _ _ hfirst hlong =>
    rw [Wire.Frame.write_of_le (h.fit _ (by simp [hfirst]))] at hlong
    cases hlong
  | @put r rest count hwriting hmore =>
    have ho := h.out
    rw [hwriting] at ho
    refine ⟨g, { h with matched := ?_, out := ho.put hmore, back := ?_ }, by simp [asks]⟩
    · have hm := h.matched
      simp only [exchange, hwriting] at hm ⊢
      exact hm
    · have hg := h.back.grow [] (rest.take count)
      rwa [List.append_nil] at hg
  | @putLast r rest count hwriting hlast =>
    have ho := h.out
    rw [hwriting] at ho
    refine ⟨g, { h with matched := ?_, out := ?_, back := ?_ }, by simp [asks]⟩
    · have hm := h.matched
      simp only [exchange, hwriting] at hm ⊢
      simpa using hm
    · rw [List.map_append]
      exact ho.putLast hlast
    · rw [List.map_append]
      exact h.back.grow [r.encode] (rest.take count)
  | failWrite => exact absurd rfl hlasts
  | @service e next hs =>
    exact ⟨_, { h with matched := h.matched.serve (Session.moves_of_step? hs) }, rfl⟩

private theorem asks_of_stuck (s : Link) {e : Server.Event} (hs : s.server.step? e = none) :
    s.asks (.server e) = [] := by
  cases e with
  | service e =>
    have hn : s.server.session.step? e = none := Option.map_eq_none_iff.mp hs
    cases e with
    | request => cases hn
    | _ => rfl
  | dispatch k =>
    simp only [asks]
    split
    case h_1 request hk =>
      have hstep : s.server.step? (.dispatch k) = some (s.server.dispatch k ⟨request, .dispatched⟩) := by
        simp [Server.step?, Server.Event.handler?, hk, Server.act]
      rw [hs] at hstep
      cases hstep
    case h_2 => rfl
  | _ => rfl

/-- A step that does not disturb a connection leaves it sound. -/
theorem step (h : Sound start s g) {e : Event} (hu : s.Undisturbed e) :
    ∃ g', Sound start (s.step e) g' ∧ g'.ledger = g.ledger ++ s.asks e := by
  cases e with
  | client e =>
    have hasks : g.ledger ++ s.asks (.client e) = g.ledger := List.append_nil _
    rw [hasks]
    by_cases hown : isOwnOfClient e
    · rcases hs : s.client.step? e with _ | next
      · have hstep : s.step (.client e) = s := by simp [Link.step, Client.step, hown, hs]
        exact ⟨g, by rwa [hstep], rfl⟩
      · have hstep : s.step (.client e) = { s with client := next } := by
          simp [Link.step, Client.step, hown, hs]
        rw [hstep]
        exact h.client_moves (Client.moves_of_step? hs) hown hu
    · have hstep : s.step (.client e) = s := by simp [Link.step, hown]
      exact ⟨g, by rwa [hstep], rfl⟩
  | server e =>
    by_cases hown : isOwnOfServer e
    · rcases hs : s.server.step? e with _ | next
      · have hstep : s.step (.server e) = s := by simp [Link.step, Server.step, hown, hs]
        exact ⟨g, by rwa [hstep], by rw [asks_of_stuck s hs, List.append_nil]⟩
      · have hstep : s.step (.server e) = { s with server := next } := by
          simp [Link.step, Server.step, hown, hs]
        have hfit := hu.fit
        rw [hstep] at hfit ⊢
        refine h.server_moves (Server.moves_of_step? hs) hown ?_ hfit
        rintro rfl
        cases hu.lasts
    · have hstep : s.step (.server e) = s := by simp [Link.step, hown]
      have hasks : s.asks (.server e) = [] := by
        cases e with
        | arrive | closeInput => rfl
        | _ => exact absurd rfl hown
      exact ⟨g, by rwa [hstep], by rw [hasks, List.append_nil]⟩
  | carry count =>
    exact ⟨g, { h with forth := h.forth.arrive count }, (List.append_nil _).symm⟩
  | bringBack count =>
    exact ⟨g, { h with
      slotted := h.slotted.of_eq rfl rfl, framed := h.framed.of_eq rfl rfl rfl rfl rfl,
      back := h.back.arrive count }, (List.append_nil _).symm⟩

end Sound

end Link

end SshAuthority.Connection
