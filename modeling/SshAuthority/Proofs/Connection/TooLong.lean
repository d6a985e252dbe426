import SshAuthority.Proofs.Connection.Accounting
/-!
# Responses that are too long

A response that is too long for a frame ends the writer. The reader and the handlers do not notice: requests
are read and signed as before, and their responses are lost, whether they fit into a frame or not.
-/
namespace SshAuthority.Connection.Server
open Authority
open Wire.Frame (frameOf)

variable {start : Session} {ledger : List (Option Nat)} {k : Nat}

def fits (r : Wire.Response) : Bool := r.encode.length ≤ Wire.maxPayload

/-- A server as it would be if nothing that was handed to the writer had been written yet, or lost. -/
def retold (s : Server) (told : List (Nat × Wire.Response)) : Server :=
  { s with written := [], writing := none, queue := told.map (·.2) }

/-- The books of a server whose peer accepts all that is written: who was answered, in the order in which
responses were handed to the writer. -/
structure Filed (start : Session) (s : Server) (ledger : List (Option Nat)) (told : List (Nat × Wire.Response)) :
    Prop where
  answered : Answered start (s.retold told) ledger told
  billed : Billed start s ledger
  stream : Outgoing (s.written.map (·.encode)) (s.writing.map fun w => (w.1.encode, w.2)) s.sent
  out : s.broken = false → told.map (·.2) = s.responses
  /-- The writer gives up only at a response that is too long. -/
  lost : s.broken = true → s.writing = none ∧
    ∃ r rest, told.map (·.2) = s.written ++ r :: rest ∧ fits r = false

namespace Filed

variable {s next : Server} {told : List (Nat × Wire.Response)} {hd : Handler}

theorem initial (session : Session) : Filed session (new session) [] [] := by
  refine ⟨.initial session, .initial session, .start, fun _ => rfl, fun h => ?_⟩
  cases h

private theorem quiet (h : Filed start s ledger told) (hh : next.handlers = s.handlers)
    (hs : next.session = s.session) (hq : next.queue = s.queue) (hw : next.writing = s.writing)
    (hb : next.broken = s.broken) (hsent : next.sent = s.sent) (hwritten : next.written = s.written) :
    Filed start next ledger told := by
  have ho : next.responses = s.responses := by rw [responses, responses, hq, hw, hwritten]
  refine ⟨h.answered.of_eq hh hs rfl, h.billed.of_eq hh hs, ?_, ?_, ?_⟩
  · rw [hwritten, hw, hsent]
    exact h.stream
  · rw [hb, ho]
    exact h.out
  · rw [hb, hw, hwritten]
    exact h.lost

private theorem advance (h : Filed start s ledger told) (hk : s.handlers[k]? = some hd)
    (hn : hd.phase ≠ .done) {p : HandlerPhase} (hp : p ≠ .done) (hp' : p ≠ .dispatched)
    (hh : Handled start s.session ledger k hd.request.call p) : Filed start (s.enter k p) ledger told :=
  ⟨h.answered.advance hk hn hp hh, h.billed.enter hk hp', h.stream, h.out, h.lost⟩

private theorem write (h : Filed start s ledger told) (hwhole : s.broken = false)
    (hh : next.handlers = s.handlers) (hs : next.session = s.session) (hb : next.broken = s.broken)
    (ho : next.responses = s.responses)
    (hstream : Outgoing (next.written.map (·.encode)) (next.writing.map fun w => (w.1.encode, w.2)) next.sent) :
    Filed start next ledger told := by
  refine ⟨h.answered.of_eq hh hs rfl, h.billed.of_eq hh hs, hstream, fun _ => ?_, fun hbroken => ?_⟩
  · rw [ho]
    exact h.out hwhole
  · rw [hb, hwhole] at hbroken
    cases hbroken

private theorem file (h : Filed start s ledger told) (hk : s.handlers[k]? = some hd) {result : Wire.Result}
    (hp : hd.phase = .answered result) {queue : List Wire.Response}
    (hq : s.broken = false → queue = s.queue ++ [⟨hd.request.seq, result⟩]) :
    Filed start (({ s with queue } : Server).enter k .done) ledger (told ++ [(k, ⟨hd.request.seq, result⟩)]) := by
  have hanswered := h.answered.enqueue hk hp
  have hbilled : Billed start { s with queue } ledger := h.billed.of_eq rfl rfl
  refine ⟨hanswered.of_eq rfl rfl ?_, hbilled.enter hk (by simp), h.stream, fun hwhole => ?_, fun hbroken => ?_⟩
  · simp [responses, retold, enter]
  · have hout := h.out hwhole
    rw [List.map_append, hout, responses, responses, List.append_assoc]
    show _ = _ ++ queue
    rw [hq hwhole]
    rfl
  · obtain ⟨hw, r, rest, htold, hr⟩ := h.lost hbroken
    refine ⟨hw, r, rest ++ [⟨hd.request.seq, result⟩], ?_, hr⟩
    show _ = s.written ++ r :: (rest ++ _)
    rw [List.map_append, htold, List.append_assoc]
    rfl

private theorem request (h : Filed start s ledger told) (hk : s.handlers[k]? = some hd)
    (hp : hd.phase = .dispatched) {r : SignRequest} (hr : signRequest? hd.request.call = some r) :
    Filed start
      (({ s with session := s.session.request r } : Server).enter k (.signing s.session.calls.length))
      (ledger ++ [some k]) told := by
  have hasked : Asked start (s.session.request r) (ledger ++ [some k]) k hd.request.call ledger.length := by
    refine ⟨by simp, ⟨r, .called⟩, ?_, hr⟩
    rw [← h.billed.length, Session.request]
    simp
  have hlater := h.answered.later (.request r) [some k]
  exact ⟨hlater.advance hk (by simp [hp]) (by simp) ⟨ledger.length, h.billed.length, hasked⟩,
    h.billed.request hk hp r, h.stream, h.out, h.lost⟩

theorem of_moves (h : Filed start s ledger told) {e : Event} (hm : s.Moves e next) (he : e.fails = false) :
    ∃ told', Filed start next (ledger ++ s.asks e) told' := by
  have hkey : s.session.service.identity.key = start.service.identity.key := by rw [h.billed.service]
  have hstream := h.stream
  have hunasked : s.asks e = [] → ∀ {told'}, Filed start next ledger told' →
      ∃ told', Filed start next (ledger ++ s.asks e) told' := by
    intro ha told' hnext
    rw [ha, List.append_nil]
    exact ⟨told', hnext⟩
  have hwriting : s.writing ≠ none → s.broken = false := by
    intro hw
    cases hb : s.broken with
    | false => rfl
    | true => exact absurd (h.lost hb).1 hw
  cases hm with
  | arrive | closeInput | skip | stop => exact hunasked rfl (h.quiet rfl rfl rfl rfl rfl rfl rfl)
  | @read _ inbox r _ _ _ =>
    exact hunasked rfl ⟨h.answered.accept inbox r, h.billed.accept inbox r, h.stream, h.out, h.lost⟩
  | @request k hd r hk hp hr =>
    rw [asks_dispatch hk hp, hr]
    exact ⟨told, h.request hk hp hr⟩
  | @answer k hd hk hp hr =>
    have hasks : s.asks (.dispatch k) = [] := by
      rw [asks_dispatch hk hp, hr]
      rfl
    refine hunasked hasks (h.advance hk (by simp [hp]) (by simp) (by simp) (.inl ⟨hr, fun signed => ?_⟩))
    rw [Server.answer, hkey]
    exact Accounted.respond_eq_of_unasked hr _ _ _
  | @collect k hd j signed hk hp hsigned =>
    have hh := h.answered.handled hk
    rw [hp] at hh
    obtain ⟨n, rfl, hasked⟩ := hh
    refine hunasked rfl (h.advance hk (by simp [hp]) (by simp) (by simp) (.inr ⟨n, signed, hasked, hsigned, ?_⟩))
    rw [Server.answer, hkey]
  | @lose k hd result hk hp hbroken =>
    exact hunasked rfl (h.file hk hp fun hwhole => by rw [hbroken] at hwhole; cases hwhole)
  | @enqueue k hd result hk hp _ _ => exact hunasked rfl (h.file hk hp fun _ => rfl)
  | @dequeue r queue frame hwhole hw hq hf =>
    obtain ⟨hle, rfl⟩ := Wire.Frame.write_eq_ok.mp hf
    rw [hw] at hstream
    exact hunasked rfl (h.write hwhole rfl rfl rfl (by simp [responses, hw, hq]) (hstream.begin hle))
  | @giveUp r queue fault hwhole hw hq hf =>
    have hlong : fits r = false := by
      rw [fits, decide_eq_false_iff_not]
      intro hle
      rw [Wire.Frame.write_of_le hle] at hf
      cases hf
    have hout := h.out hwhole
    rw [responses, hw, hq] at hout
    rw [hw] at hstream
    have hall : told.map (·.2) = s.written ++ r :: queue := by simpa using hout
    refine hunasked rfl ⟨h.answered.of_eq rfl rfl rfl, h.billed.of_eq rfl rfl, hstream, ?_, fun _ => ?_⟩
    · intro hn
      cases hn
    · exact ⟨rfl, r, queue, hall, hlong⟩
  | @put r rest count hw hr =>
    have hwhole := hwriting (by simp [hw])
    rw [hw] at hstream
    exact hunasked rfl (h.write hwhole rfl rfl rfl (by simp [responses, hw]) (hstream.put hr))
  | @putLast r rest count hw hr =>
    have hwhole := hwriting (by simp [hw])
    rw [hw] at hstream
    refine hunasked rfl (h.write hwhole rfl rfl rfl (by simp [responses, hw]) ?_)
    rw [List.map_append]
    exact hstream.putLast hr
  | failWrite => cases he
  | @service event session hs =>
    have hmoves := Session.moves_of_step? hs
    exact ⟨told, h.answered.later hmoves _, h.billed.serve hmoves, h.stream, h.out, h.lost⟩

theorem run (h : Filed start s ledger told) {es : List Event} (hes : ∀ e ∈ es, e.fails = false) :
    ∃ told', Filed start (s.run es) (ledger ++ s.ledger es) told' := by
  induction es generalizing s ledger told with
  | nil =>
    rw [Server.ledger, List.append_nil]
    exact ⟨told, h⟩
  | cons e es ih =>
    have he := hes e List.mem_cons_self
    have hrest := fun e' he' => hes e' (List.mem_cons_of_mem e he')
    have hstep : ∃ told', Filed start (s.step e) (ledger ++ s.asks e) told' := by
      rcases hs : s.step? e with _ | next
      · rw [Accounted.asks_of_stuck hs, List.append_nil, Server.step, hs]
        exact ⟨told, h⟩
      · rw [Server.step, hs]
        exact h.of_moves (moves_of_step? hs) he
    obtain ⟨told', hnext⟩ := hstep
    rw [Server.ledger, ← List.append_assoc]
    exact ih hnext hrest

end Filed

/-! ## What a peer gets -/

/-- What a server has made of the bytes that its peer sent, whatever the length of its responses, by what it
asked the service for. -/
structure AccountsUpTo (start : Session) (s : Server) (bs : Bytes) (ledger : List (Option Nat)) : Prop where
  read : s.requests <+: requestsIn bs
  complete : s.reading = false → s.requests = requestsIn bs
  asked : ∀ k : Nat, ledger.count (some k) ≤ 1
  frames : s.sent <+: (s.written ++ (s.writing.map (·.1)).toList).flatMap fun r => frameOf r.encode
  /-- Each handler that is done has handed its own response to the writer, and the peer gets those that were
  handed over before the first one that is too long. -/
  told : ∃ told : List (Nat × Wire.Response), (told.map (·.1)).Nodup ∧
    (∀ k, k ∈ told.map (·.1) ↔ ∃ h, s.handlers[k]? = some h ∧ h.phase = .done) ∧
    (∀ x ∈ told, Owns start s.session ledger s.requests x) ∧
    s.written <+: (told.map (·.2)).takeWhile fits ∧
    (s.isOver = true → s.written = (told.map (·.2)).takeWhile fits)

namespace Filed

variable {s : Server} {told : List (Nat × Wire.Response)}

theorem fits_of_written (h : Filed start s ledger told) : ∀ r ∈ s.written, fits r = true := by
  intro r hr
  exact decide_eq_true (h.stream.fit _ (List.mem_map_of_mem hr))

theorem written_of_broken (h : Filed start s ledger told) (hb : s.broken = true) :
    s.written = (told.map (·.2)).takeWhile fits := by
  obtain ⟨-, r, rest, htold, hr⟩ := h.lost hb
  rw [htold, List.takeWhile_append_of_pos h.fits_of_written, List.takeWhile_cons_of_neg (by simp [hr]),
    List.append_nil]

theorem written_of_whole (h : Filed start s ledger told) (hb : s.broken = false) :
    (told.map (·.2)).takeWhile fits =
      s.written ++ ((s.writing.map (·.1)).toList ++ s.queue).takeWhile fits := by
  rw [h.out hb, responses, List.append_assoc, List.takeWhile_append_of_pos h.fits_of_written]

theorem written_isPrefix (h : Filed start s ledger told) : s.written <+: (told.map (·.2)).takeWhile fits := by
  cases hb : s.broken with
  | true => exact ⟨[], (List.append_nil _).trans (h.written_of_broken hb)⟩
  | false =>
    rw [h.written_of_whole hb]
    exact List.prefix_append _ _

theorem written_of_over (h : Filed start s ledger told) (ho : s.isOver = true) :
    s.written = (told.map (·.2)).takeWhile fits := by
  cases hb : s.broken with
  | true => exact h.written_of_broken hb
  | false =>
    simp only [isOver, hb, Bool.false_or, Bool.and_eq_true, List.isEmpty_iff,
      Option.isNone_iff_eq_none] at ho
    obtain ⟨-, ⟨-, hqueue⟩, hwriting⟩ := ho
    rw [h.written_of_whole hb, hqueue, hwriting]
    simp

end Filed

/-- However long its responses are, a server whose peer takes what is written answers every request whose
response was ready before the first one that is too long, and none besides. -/
theorem responses_end_at_one_too_long (session : Session) (events : List Event)
    (h : ∀ e ∈ events, e.fails = false) : AccountsUpTo session ((new session).run events) (received events)
      ((new session).ledger events) := by
  obtain ⟨told, hfiled⟩ := (Filed.initial session).run h
  rw [List.nil_append] at hfiled
  have hreads : ((new session).run events).Reads (received events) := (Reads.start session).run events
  obtain ⟨hread, hcomplete⟩ := hreads.requests
  exact ⟨hread, hcomplete, hfiled.billed.once, frames_of_stream hfiled.stream, told, hfiled.answered.once,
    fun _ => hfiled.answered.done, hfiled.answered.own, hfiled.written_isPrefix, hfiled.written_of_over⟩

/-! ## A certificate that is too long -/

theorem length_le_signed (seq : UInt64) (certificate : Bytes) :
    certificate.length ≤ (Wire.Response.encode ⟨seq, .ok (.signed certificate)⟩).length := by
  have hl := Json.length_le_quote (Utf8.decodeLossy (Base64.encode certificate))
  rw [Utf8.encode_decodeLossy (Base64.encode_ascii certificate)] at hl
  have hc := Base64.length_le_encode certificate
  simp only [Wire.Response.encode, Wire.Response.value, Wire.Result.value, Wire.Reply.value, Wire.base64,
    Json.Value.write, Json.Value.writeMembers, List.length_append, List.length_cons]
  omega

deriving instance DecidableEq for Phase, SigningCall, Staging, HandlerPhase, Handler

/-- The tool runs for the first of three requests, the second one was answered, and the third one is to be. -/
private def ToolRuns (s : Server) (r : SignRequest) (key : Wire.Result) : Prop :=
  s.session.calls = [⟨r, .running [47]⟩] ∧ s.session.directories = [⟨[47], some r.key.bytes, .error .noEntry⟩] ∧
    s.handlers = [⟨⟨1, .sign (.ofRequest r)⟩, .signing 0⟩, ⟨⟨2, .publicKey⟩, .done⟩, ⟨⟨3, .publicKey⟩, .answered key⟩] ∧
    s.reading = false ∧ s.queue = [] ∧ s.writing = none ∧ s.broken = false ∧ s.written = [⟨2, key⟩]

private instance (s : Server) (r : SignRequest) (key : Wire.Result) : Decidable (s.ToolRuns r key) :=
  inferInstanceAs (Decidable (_ ∧ _))

/-- The tool comes to a certificate, which is handed to the writer before the last answer is. -/
private def certified (certificate : Bytes) : List Event :=
  [.service (.finish 0 ⟨none, .ok certificate⟩), .service (.readCertificate 0), .service (.removeDirectory 0),
    .collect 0, .enqueue 0, .dequeue, .enqueue 2]

private theorem ToolRuns.certified {s : Server} {r : SignRequest} {key : Wire.Result} {certificate : Bytes}
    (h : s.ToolRuns r key) (hlong : Wire.maxPayload < certificate.length) :
    let t := s.run (certified certificate)
    t.isOver = true ∧ t.requests = [⟨1, .sign (.ofRequest r)⟩, ⟨2, .publicKey⟩, ⟨3, .publicKey⟩] ∧
      t.session.result? 0 = some (.ok certificate) ∧ t.written = [⟨2, key⟩] := by
  have hwrite := Wire.Frame.write_of_lt (Nat.lt_of_lt_of_le hlong (length_le_signed 1 certificate))
  obtain ⟨⟨service, calls, input, console, directories, shown, runs⟩, inbox, reading, handlers, queue, writing, broken,
    sent, written⟩ := s
  obtain ⟨rfl, rfl, rfl, rfl, rfl, rfl, rfl, rfl⟩ := h
  simp [Server.certified, step, step?, act, Event.handler?, Session.step?, Session.act, Session.Event.call?, Session.enter,
    Session.updateStaging, Session.staging?, Session.result?, Session.phase?, enter, Phase.result?, queueRoom, answer,
    Service.respond, Wire.SignArgs.request_ofRequest, Except.mapError, dequeue?, hwrite, giveUp, isOver, Handler.isDone,
    requests]

private def filedStart : Session := .new ⟨⟨Utf8.encode "ca", sampleKey⟩, false⟩

private def filedRequest : SignRequest := ⟨"alice", .user, ["alice"], sampleKey⟩

private def filedKey : Wire.Result := .ok (.publicKey sampleKey.bytes)

private def filedBegun : List Event :=
  let asked : List Wire.Request := [⟨1, .sign (.ofRequest filedRequest)⟩, ⟨2, .publicKey⟩, ⟨3, .publicKey⟩]
  asked.map (fun r => .arrive (frameOf r.encode)) ++ [.closeInput, .read, .read, .read, .read, .dispatch 0,
    .dispatch 1, .dispatch 2, .enqueue 1, .dequeue, .put 300, .service (.announce 0),
    .service (.makeDirectory 0 (.ok [47])), .service (.stage 0 (.ok ())), .service (.holdConsole 0), .service (.start 0)]

private theorem toolRuns_filed : ((new filedStart).run filedBegun).ToolRuns filedRequest filedKey := by decide +kernel

private def longCertificate : Bytes := List.replicate (Wire.maxPayload + 1) 0

private theorem longCertificate_long : Wire.maxPayload < longCertificate.length := by
  simp [longCertificate]

private def filedRun : List Event := filedBegun ++ certified longCertificate

private theorem filed_free : ∀ e ∈ filedRun, e.fails = false := by
  simp [filedRun, filedBegun, certified, Event.fails]

private theorem run_filed :
    (new filedStart).run filedRun = ((new filedStart).run filedBegun).run (certified longCertificate) :=
  run_append _ _ _

theorem responses_end_at_the_certificate : (∀ e ∈ filedRun, e.fails = false) ∧
    ((new filedStart).run filedRun).isOver = true ∧ ((new filedStart).run filedRun).written = [⟨2, filedKey⟩] ∧
    AccountsUpTo filedStart ((new filedStart).run filedRun) (received filedRun) ((new filedStart).ledger filedRun) := by
  obtain ⟨hover, -, -, hwritten⟩ := toolRuns_filed.certified longCertificate_long
  rw [← run_filed] at hover hwritten
  exact ⟨filed_free, hover, hwritten, responses_end_at_one_too_long filedStart filedRun filed_free⟩

/-- The peer has taken all that was written, and the last response fits into a frame and is lost. -/
theorem later_response_is_lost : (∀ e ∈ filedRun, e.fails = false) ∧ ((new filedStart).run filedRun).isOver = true ∧
    ((new filedStart).run filedRun).requests =
      [⟨1, .sign (.ofRequest filedRequest)⟩, ⟨2, .publicKey⟩, ⟨3, .publicKey⟩] ∧
    ((new filedStart).run filedRun).session.result? 0 = some (.ok longCertificate) ∧
    fits ⟨1, .ok (.signed longCertificate)⟩ = false ∧ fits ⟨3, filedKey⟩ = true ∧
    ∀ r ∈ ((new filedStart).run filedRun).written, r.seq ≠ 3 := by
  obtain ⟨hover, hrequests, hresult, hwritten⟩ := toolRuns_filed.certified longCertificate_long
  rw [← run_filed] at hover hrequests hresult hwritten
  have hlong : fits ⟨1, .ok (.signed longCertificate)⟩ = false :=
    decide_eq_false (Nat.not_le.mpr (Nat.lt_of_lt_of_le longCertificate_long (length_le_signed 1 longCertificate)))
  refine ⟨filed_free, hover, hrequests, hresult, hlong, by decide +kernel, ?_⟩
  rw [hwritten]
  decide

end SshAuthority.Connection.Server
