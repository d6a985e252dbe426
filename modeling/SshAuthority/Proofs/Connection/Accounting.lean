import SshAuthority.Proofs.Connection.Answers
import SshAuthority.Proofs.Connection.Stream
/-!
# Accounting for requests

However the handlers, the queue and the writer take their steps, a server whose writer does not give up owes
each request that it has read one response. Once the connection is over all have been written, each in a
frame of its own.
-/
namespace SshAuthority.Connection.Server
open Authority
open Wire.Frame (frameOf)

variable {start : Session} {ledger : List (Option Nat)} {k : Nat}

/-! ## Runs that nothing hinders -/

def Event.fails : Event → Bool
  | .failWrite => true
  | _ => false

/-- The peer takes what is written, and every response fits into a frame. -/
structure Unhindered (s : Server) (e : Event) : Prop where
  accepts : e.fails = false
  fit : ∀ r ∈ (s.step e).queue, r.encode.length ≤ Wire.maxPayload

instance (s : Server) (e : Event) : Decidable (s.Unhindered e) :=
  decidable_of_iff (e.fails = false ∧ ∀ r ∈ (s.step e).queue, r.encode.length ≤ Wire.maxPayload)
    ⟨fun h => ⟨h.1, h.2⟩, fun h => ⟨h.accepts, h.fit⟩⟩

def RunsFreely (s : Server) : List Event → Prop
  | [] => True
  | e :: es => s.Unhindered e ∧ (s.step e).RunsFreely es

instance decidableRunsFreely (s : Server) : (es : List Event) → Decidable (s.RunsFreely es)
  | [] => .isTrue trivial
  | e :: es => @instDecidableAnd _ _ _ (decidableRunsFreely (s.step e) es)

/-- The books of a server whose writer has not given up. -/
structure Accounted (start : Session) (s : Server) (ledger : List (Option Nat)) (told : List (Nat × Wire.Response)) :
    Prop where
  answered : Answered start s ledger told
  billed : Billed start s ledger
  whole : s.broken = false
  fit : ∀ r ∈ s.queue, r.encode.length ≤ Wire.maxPayload
  stream : Outgoing (s.written.map (·.encode)) (s.writing.map fun w => (w.1.encode, w.2)) s.sent

namespace Accounted

variable {s next : Server} {told : List (Nat × Wire.Response)}

theorem initial (session : Session) : Accounted session (new session) [] [] :=
  ⟨.initial session, .initial session, rfl, by simp [new], .start⟩

private theorem quiet (h : Accounted start s ledger told) (hh : next.handlers = s.handlers)
    (hs : next.session = s.session) (hq : next.queue = s.queue) (hw : next.writing = s.writing)
    (hb : next.broken = s.broken) (hsent : next.sent = s.sent) (hwritten : next.written = s.written) :
    Accounted start next ledger told := by
  have ho : next.responses = s.responses := by rw [responses, responses, hq, hw, hwritten]
  refine ⟨h.answered.of_eq hh hs ho, h.billed.of_eq hh hs, hb.trans h.whole, ?_, ?_⟩
  · rw [hq]
    exact h.fit
  · rw [hwritten, hw, hsent]
    exact h.stream

private theorem advance (h : Accounted start s ledger told) {hd : Handler} (hk : s.handlers[k]? = some hd)
    (hn : hd.phase ≠ .done) {p : HandlerPhase} (hp : p ≠ .done) (hp' : p ≠ .dispatched)
    (hh : Handled start s.session ledger k hd.request.call p) : Accounted start (s.enter k p) ledger told :=
  ⟨h.answered.advance hk hn hp hh, h.billed.enter hk hp', h.whole, h.fit, h.stream⟩

private theorem write (h : Accounted start s ledger told) (hh : next.handlers = s.handlers)
    (hs : next.session = s.session) (ho : next.responses = s.responses) (hb : next.broken = s.broken)
    (hq : ∀ r ∈ next.queue, r ∈ s.queue)
    (hstream : Outgoing (next.written.map (·.encode)) (next.writing.map fun w => (w.1.encode, w.2)) next.sent) :
    Accounted start next ledger told :=
  ⟨h.answered.of_eq hh hs ho, h.billed.of_eq hh hs, hb.trans h.whole, fun r hr => h.fit r (hq r hr), hstream⟩

theorem respond_eq_of_unasked {call : Wire.Call} (h : signRequest? call = none) (key : PublicKey)
    (f g : SignRequest → Except ServiceFault Bytes) : Service.respond key call f = Service.respond key call g := by
  cases call with
  | publicKey => rfl
  | sign args =>
    rcases hr : args.request with fault | r
    · simp only [Service.respond, hr]
    · rw [signRequest?, hr] at h
      cases h

private theorem request (h : Accounted start s ledger told) {hd : Handler} (hk : s.handlers[k]? = some hd)
    (hp : hd.phase = .dispatched) {r : SignRequest} (hr : signRequest? hd.request.call = some r) :
    Accounted start
      (({ s with session := s.session.request r } : Server).enter k (.signing s.session.calls.length))
      (ledger ++ [some k]) told := by
  have hasked : Asked start (s.session.request r) (ledger ++ [some k]) k hd.request.call ledger.length := by
    refine ⟨by simp, ⟨r, .called⟩, ?_, hr⟩
    rw [← h.billed.length, Session.request]
    simp
  have hlater := h.answered.later (.request r) [some k]
  exact ⟨hlater.advance hk (by simp [hp]) (by simp) ⟨ledger.length, h.billed.length, hasked⟩,
    h.billed.request hk hp r, h.whole, h.fit, h.stream⟩

theorem of_moves (h : Accounted start s ledger told) {e : Event} (hm : s.Moves e next) (he : e.fails = false)
    (hfit : ∀ r ∈ next.queue, r.encode.length ≤ Wire.maxPayload) :
    ∃ told', Accounted start next (ledger ++ s.asks e) told' := by
  have hkey : s.session.service.identity.key = start.service.identity.key := by rw [h.billed.service]
  have hstream := h.stream
  have hunasked : s.asks e = [] → ∀ {told'}, Accounted start next ledger told' →
      ∃ told', Accounted start next (ledger ++ s.asks e) told' := by
    intro ha told' hnext
    rw [ha, List.append_nil]
    exact ⟨told', hnext⟩
  cases hm with
  | arrive | closeInput | skip | stop => exact hunasked rfl (h.quiet rfl rfl rfl rfl rfl rfl rfl)
  | @read _ inbox r _ _ _ =>
    exact hunasked rfl ⟨h.answered.accept inbox r, h.billed.accept inbox r, h.whole, h.fit, h.stream⟩
  | @request k hd r hk hp hr =>
    rw [asks_dispatch hk hp, hr]
    exact ⟨told, h.request hk hp hr⟩
  | @answer k hd hk hp hr =>
    have hasks : s.asks (.dispatch k) = [] := by
      rw [asks_dispatch hk hp, hr]
      rfl
    refine hunasked hasks (h.advance hk (by simp [hp]) (by simp) (by simp) (.inl ⟨hr, fun signed => ?_⟩))
    rw [Server.answer, hkey]
    exact respond_eq_of_unasked hr _ _ _
  | @collect k hd j signed hk hp hsigned =>
    have hh := h.answered.handled hk
    rw [hp] at hh
    obtain ⟨n, rfl, hasked⟩ := hh
    refine hunasked rfl (h.advance hk (by simp [hp]) (by simp) (by simp) (.inr ⟨n, signed, hasked, hsigned, ?_⟩))
    rw [Server.answer, hkey]
  | lose _ _ hb =>
    rw [h.whole] at hb
    cases hb
  | @enqueue k hd result hk hp _ _ =>
    have hbilled : Billed start { s with queue := s.queue ++ [⟨hd.request.seq, result⟩] } ledger :=
      h.billed.of_eq rfl rfl
    exact hunasked rfl ⟨h.answered.enqueue hk hp, hbilled.enter hk (by simp), h.whole, hfit, h.stream⟩
  | @dequeue r queue frame _ hw hq hf =>
    obtain ⟨hle, rfl⟩ := Wire.Frame.write_eq_ok.mp hf
    have hmem : ∀ q ∈ queue, q ∈ s.queue := fun q hmem => by
      rw [hq]
      exact List.mem_cons_of_mem r hmem
    rw [hw] at hstream
    exact hunasked rfl (h.write rfl rfl (by simp [responses, hw, hq]) rfl hmem (hstream.begin hle))
  | @giveUp r queue fault _ _ hq hf =>
    have hle := h.fit r (by rw [hq]; exact List.mem_cons_self)
    rw [Wire.Frame.write_of_le hle] at hf
    cases hf
  | @put r rest count hw hr =>
    rw [hw] at hstream
    exact hunasked rfl (h.write rfl rfl (by simp [responses, hw]) rfl (fun _ hr => hr) (hstream.put hr))
  | @putLast r rest count hw hr =>
    rw [hw] at hstream
    refine hunasked rfl (h.write rfl rfl (by simp [responses, hw]) rfl (fun _ hr => hr) ?_)
    rw [List.map_append]
    exact hstream.putLast hr
  | failWrite => cases he
  | @service event session hs =>
    have hmoves := Session.moves_of_step? hs
    exact ⟨told, h.answered.later hmoves _, h.billed.serve hmoves, h.whole, h.fit, h.stream⟩

theorem asks_of_stuck {e : Event} (hs : s.step? e = none) : s.asks e = [] := by
  cases e with
  | service e =>
    have hn : s.session.step? e = none := Option.map_eq_none_iff.mp hs
    cases e with
    | request => cases hn
    | _ => rfl
  | dispatch k =>
    rw [asks]
    split
    case h_1 request hk =>
      have hstep : s.step? (.dispatch k) = some (s.dispatch k ⟨request, .dispatched⟩) := by
        simp [step?, Event.handler?, hk, act]
      rw [hs] at hstep
      cases hstep
    case h_2 => rfl
  | _ => rfl

theorem step (h : Accounted start s ledger told) {e : Event} (hu : s.Unhindered e) :
    ∃ told', Accounted start (s.step e) (ledger ++ s.asks e) told' := by
  have hfit := hu.fit
  rcases hs : s.step? e with _ | next
  · rw [asks_of_stuck hs, List.append_nil, Server.step, hs]
    exact ⟨told, h⟩
  · rw [Server.step, hs] at hfit ⊢
    exact h.of_moves (moves_of_step? hs) hu.accepts hfit

theorem run (h : Accounted start s ledger told) {es : List Event} (hr : s.RunsFreely es) :
    ∃ told', Accounted start (s.run es) (ledger ++ s.ledger es) told' := by
  induction es generalizing s ledger told with
  | nil =>
    rw [Server.ledger, List.append_nil]
    exact ⟨told, h⟩
  | cons e es ih =>
    obtain ⟨told', hnext⟩ := h.step hr.1
    rw [Server.ledger, ← List.append_assoc]
    exact ih hnext hr.2

end Accounted

/-! ## What a connection owes its peer -/

/-- What a server has made of the bytes that its peer sent, by what it asked the service for. -/
structure Accounts (start : Session) (s : Server) (bs : Bytes) (ledger : List (Option Nat)) : Prop where
  read : s.requests <+: requestsIn bs
  complete : s.reading = false → s.requests = requestsIn bs
  asked : ∀ k : Nat, ledger.count (some k) ≤ 1
  frames : s.sent <+: (s.written ++ (s.writing.map (·.1)).toList).flatMap fun r => frameOf r.encode
  /-- Each response that was written is for a request of its own. -/
  sound : ∃ told : List (Nat × Wire.Response), (told.map (·.1)).Nodup ∧ told.map (·.2) = s.written ∧
    ∀ x ∈ told, Owns start s.session ledger s.requests x
  /-- In the end there is one for every request, each in a whole frame. -/
  ended : s.isOver = true → s.sent = s.written.flatMap (fun r => frameOf r.encode) ∧
    ∃ told : List (Nat × Wire.Response), (told.map (·.1)).Perm (List.range s.requests.length) ∧
      told.map (·.2) = s.written ∧ ∀ x ∈ told, Owns start s.session ledger s.requests x

/-- On the stream are the frames of what was written, as far as they go. -/
theorem frames_of_stream {s : Server}
    (h : Outgoing (s.written.map (·.encode)) (s.writing.map fun w => (w.1.encode, w.2)) s.sent) :
    s.sent <+: (s.written ++ (s.writing.map (·.1)).toList).flatMap fun r => frameOf r.encode := by
  obtain ⟨part, hsent, hcurrent⟩ := h.parts
  rw [List.flatMap_append, hsent, List.flatMap_map]
  apply (List.prefix_append_right_inj _).mpr
  rcases hw : s.writing with _ | ⟨r, rest⟩
  · rw [hw] at hcurrent
    obtain rfl := hcurrent
    exact List.nil_prefix
  · rw [hw] at hcurrent
    obtain ⟨-, -, hframe⟩ := hcurrent
    rw [Option.map_some, Option.toList_some, List.flatMap_singleton, ← hframe]
    exact List.prefix_append _ _

namespace Accounted

variable {s : Server} {told : List (Nat × Wire.Response)}

theorem frames (h : Accounted start s ledger told) :
    s.sent <+: (s.written ++ (s.writing.map (·.1)).toList).flatMap fun r => frameOf r.encode :=
  frames_of_stream h.stream

theorem sound (h : Accounted start s ledger told) :
    ∃ told : List (Nat × Wire.Response), (told.map (·.1)).Nodup ∧ told.map (·.2) = s.written ∧
      ∀ x ∈ told, Owns start s.session ledger s.requests x := by
  refine ⟨told.take s.written.length, ?_, ?_, fun x hx => h.answered.own x (List.mem_of_mem_take hx)⟩
  · rw [List.map_take]
    exact h.answered.once.sublist (List.take_sublist _ _)
  · rw [List.map_take, h.answered.out, responses, List.append_assoc, List.take_left]

/-- Once all handlers are done and the queue is empty, every request has its response on the stream. -/
theorem ended (h : Accounted start s ledger told) (ho : s.isOver = true) :
    s.sent = s.written.flatMap (fun r => frameOf r.encode) ∧
      ∃ told : List (Nat × Wire.Response), (told.map (·.1)).Perm (List.range s.requests.length) ∧
        told.map (·.2) = s.written ∧ ∀ x ∈ told, Owns start s.session ledger s.requests x := by
  simp only [isOver, h.whole, Bool.false_or, Bool.and_eq_true, Bool.not_eq_true', List.all_eq_true,
    List.isEmpty_iff, Option.isNone_iff_eq_none] at ho
  obtain ⟨-, ⟨hdone, hqueue⟩, hwriting⟩ := ho
  constructor
  · obtain ⟨part, hsent, hcurrent⟩ := h.stream.parts
    rw [hwriting] at hcurrent
    rw [hsent, hcurrent, List.append_nil, List.flatMap_map]
  · refine ⟨told, (List.perm_ext_iff_of_nodup h.answered.once List.nodup_range).mpr fun k => ?_, ?_, h.answered.own⟩
    · rw [h.answered.done, List.mem_range, requests, List.length_map]
      constructor
      · rintro ⟨hd, hk, -⟩
        exact (List.getElem?_eq_some_iff.mp hk).1
      · intro hk
        have hget := List.getElem?_eq_getElem hk
        have hd := hdone _ (List.mem_of_getElem? hget)
        refine ⟨s.handlers[k], hget, ?_⟩
        unfold Handler.isDone at hd
        split at hd
        case h_1 hp => exact hp
        case h_2 => cases hd
    · rw [h.answered.out, responses, hqueue, hwriting]
      simp

end Accounted

/-- Whatever bytes a peer sends and however the steps are put in order, a server that is not hindered from
writing accounts for every request in them. -/
theorem every_request_is_accounted_for (session : Session) (events : List Event)
    (h : (new session).RunsFreely events) : Accounts session ((new session).run events) (received events)
      ((new session).ledger events) := by
  obtain ⟨told, hbooks⟩ := (Accounted.initial session).run h
  rw [List.nil_append] at hbooks
  have hreads : ((new session).run events).Reads (received events) := (Reads.start session).run events
  obtain ⟨hread, hcomplete⟩ := hreads.requests
  exact ⟨hread, hcomplete, hbooks.billed.once, hbooks.frames, hbooks.sound, hbooks.ended⟩

private def countedStart : Session := .new ⟨⟨Utf8.encode "ca", sampleKey⟩, false⟩

/-- Two requests under one number, with what is no message between them and the beginning of a frame behind
them; the second one asks for a signature of what is no key. -/
private def countedRun : List Event :=
  let asked : List Wire.Request := [⟨7, .publicKey⟩, ⟨7, .sign ⟨"alice", .user, [], [1]⟩⟩]
  let payloads : List Bytes := [asked[0].encode, [123], asked[1].encode]
  payloads.map (fun p => .arrive (frameOf p)) ++ [.arrive [0, 0], .closeInput, .read, .read, .dispatch 0, .read,
    .read, .dispatch 1, .enqueue 1, .dequeue, .put 30, .enqueue 0, .put 300, .dequeue, .put 300]

theorem every_request_is_accounted_for_under_one_number :
    (new countedStart).RunsFreely countedRun ∧ ((new countedStart).run countedRun).isOver = true ∧
      ((new countedStart).run countedRun).written.map (·.seq) = [7, 7] ∧
      Accounts countedStart ((new countedStart).run countedRun) (received countedRun)
        ((new countedStart).ledger countedRun) := by
  have hruns : (new countedStart).RunsFreely countedRun ∧ ((new countedStart).run countedRun).isOver = true ∧
      ((new countedStart).run countedRun).written.map (·.seq) = [7, 7] := by decide +kernel
  obtain ⟨hfree, hover, hwritten⟩ := hruns
  exact ⟨hfree, hover, hwritten, every_request_is_accounted_for countedStart countedRun hfree⟩

end SshAuthority.Connection.Server
