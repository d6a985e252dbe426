import SshAuthority.Connection.Server
import SshAuthority.Proofs.Authority.Step
/-!
# The steps of a server

Everything a step of a server can do, as one rule for each way an event can happen.
-/
namespace SshAuthority.Connection.Server
open Authority

/-- How a server can get from one state to the next at an event. -/
inductive Moves (s : Server) : Event → Server → Prop where
  | arrive (piece : Bytes) : Moves s (.arrive piece) { s with inbox := s.inbox.arrive piece }
  | closeInput : Moves s .closeInput { s with inbox := s.inbox.close }
  | read {payload inbox r} (reading : s.reading = true) (frame : s.inbox.next = .frame payload inbox)
    (decodes : Wire.Request.decode payload = .ok r) :
    Moves s .read { s with inbox, handlers := s.handlers ++ [⟨r, .dispatched⟩] }
  | skip {payload inbox fault} (reading : s.reading = true)
    (frame : s.inbox.next = .frame payload inbox)
    (malformed : Wire.Request.decode payload = .error fault) : Moves s .read { s with inbox }
  | stop {fault} (reading : s.reading = true) (failed : s.inbox.next = .fault fault) :
    Moves s .read { s with reading := false }
  | request {k h r} (handler : s.handlers[k]? = some h) (phase : h.phase = .dispatched)
    (asks : signRequest? h.request.call = some r) :
    Moves s (.dispatch k)
      (({ s with session := s.session.request r } : Server).enter k (.signing s.session.calls.length))
  | answer {k h} (handler : s.handlers[k]? = some h) (phase : h.phase = .dispatched)
    (asks : signRequest? h.request.call = none) :
    Moves s (.dispatch k) (s.enter k (.answered (s.answer h (.error .notConfirmed))))
  | collect {k h call signed} (handler : s.handlers[k]? = some h) (phase : h.phase = .signing call)
    (result : s.session.result? call = some signed) :
    Moves s (.collect k) (s.enter k (.answered (s.answer h signed)))
  | lose {k h result} (handler : s.handlers[k]? = some h) (phase : h.phase = .answered result)
    (broken : s.broken = true) : Moves s (.enqueue k) (s.enter k .done)
  | enqueue {k h result} (handler : s.handlers[k]? = some h) (phase : h.phase = .answered result)
    (whole : s.broken = false) (room : s.queue.length < queueRoom) :
    Moves s (.enqueue k)
      (({ s with queue := s.queue ++ [⟨h.request.seq, result⟩] } : Server).enter k .done)
  | dequeue {r queue frame} (whole : s.broken = false) (idle : s.writing = none)
    (first : s.queue = r :: queue) (fits : Wire.Frame.write r.encode = .ok frame) :
    Moves s .dequeue { s with queue, writing := some (r, frame) }
  | giveUp {r queue fault} (whole : s.broken = false) (idle : s.writing = none)
    (first : s.queue = r :: queue) (tooLong : Wire.Frame.write r.encode = .error fault) :
    Moves s .dequeue s.giveUp
  | put {r rest count} (writing : s.writing = some (r, rest)) (more : rest.drop count ≠ []) :
    Moves s (.put count)
      { s with sent := s.sent ++ rest.take count, writing := some (r, rest.drop count) }
  | putLast {r rest count} (writing : s.writing = some (r, rest)) (last : rest.drop count = []) :
    Moves s (.put count)
      { s with sent := s.sent ++ rest.take count, writing := none, written := s.written ++ [r] }
  | failWrite (writing : s.writing.isSome) : Moves s .failWrite s.giveUp
  | service {event session} (step : s.session.step? event = some session) :
    Moves s (.service event) { s with session }

private theorem moves_of_act {s next : Server} {k : Nat} {h : Handler} {e : Event}
    (hk : e.handler? = some k) (hh : s.handlers[k]? = some h) (ha : s.act k h e = some next) :
    s.Moves e next := by
  cases e with
  | dispatch j =>
    obtain rfl := Option.some.inj hk
    cases hp : h.phase <;> simp only [act, hp, reduceCtorEq, Option.some.injEq] at ha
    subst ha
    rcases hr : signRequest? h.request.call with _ | r
    · rw [dispatch, hr]
      exact .answer hh hp hr
    · rw [dispatch, hr]
      exact .request hh hp hr
  | collect j =>
    obtain rfl := Option.some.inj hk
    cases hp : h.phase <;> simp only [act, hp, reduceCtorEq, Option.map_eq_some_iff] at ha
    obtain ⟨signed, hs, rfl⟩ := ha
    exact .collect hh hp hs
  | enqueue j =>
    obtain rfl := Option.some.inj hk
    cases hp : h.phase <;> simp only [act, hp, reduceCtorEq] at ha
    cases hb : s.broken
    · by_cases hr : s.queue.length < queueRoom
      · rw [if_neg (by simp [hb]), if_pos hr, Option.some.injEq] at ha
        subst ha
        exact .enqueue hh hp hb hr
      · simp [hb, hr] at ha
    · simp only [hb, if_true, Option.some.injEq] at ha
      subst ha
      exact .lose hh hp hb
  | _ => cases hk

private theorem moves_of_read? {s next : Server} (h : s.read? = some next) : s.Moves .read next := by
  unfold read? at h
  split at h
  case h_1 hr hn =>
    split at h
    case h_1 hd =>
      cases h
      exact .read hr hn hd
    case h_2 hd =>
      cases h
      exact .skip hr hn hd
  case h_2 hr hn =>
    cases h
    exact .stop hr hn
  case h_3 => cases h

private theorem moves_of_dequeue? {s next : Server} (h : s.dequeue? = some next) :
    s.Moves .dequeue next := by
  unfold dequeue? at h
  split at h
  case h_1 hb hw hq =>
    split at h
    case h_1 hf =>
      cases h
      exact .dequeue hb hw hq hf
    case h_2 hf =>
      cases h
      exact .giveUp hb hw hq hf
  case h_2 => cases h

private theorem moves_of_put? {s next : Server} {count : Nat} (h : s.put? count = some next) :
    s.Moves (.put count) next := by
  obtain ⟨⟨r, rest⟩, hw, rfl⟩ := Option.map_eq_some_iff.mp h
  by_cases hl : rest.drop count = []
  · simp only [hl]
    exact .putLast hw hl
  · have hm := Moves.put hw hl
    dsimp only
    split
    case h_1 hn => exact absurd hn hl
    case h_2 => exact hm

theorem moves_of_step? {s next : Server} {e : Event} (h : s.step? e = some next) : s.Moves e next := by
  cases e with
  | arrive piece =>
    cases h
    exact .arrive piece
  | closeInput =>
    cases h
    exact .closeInput
  | read => exact moves_of_read? h
  | dequeue => exact moves_of_dequeue? h
  | put count => exact moves_of_put? h
  | failWrite =>
    simp only [step?, Option.ite_none_right_eq_some, Option.some.injEq] at h
    obtain ⟨hw, rfl⟩ := h
    exact .failWrite hw
  | service event =>
    obtain ⟨session, hs, rfl⟩ := Option.map_eq_some_iff.mp h
    exact .service hs
  | _ =>
    obtain ⟨c, hc, h⟩ := Option.bind_eq_some_iff.mp h
    exact moves_of_act rfl hc h

theorem step?_of_moves {s next : Server} {e : Event} (hm : s.Moves e next) : s.step? e = some next := by
  have hcall : ∀ {k h}, s.handlers[k]? = some h → e.handler? = some k → s.step? e = s.act k h e := by
    intro k h hk he
    cases e <;> simp_all [step?, Event.handler?]
  cases hm with
  | arrive | closeInput => rfl
  | read hr hn hd => simp only [step?, read?, hr, hn, hd]
  | skip hr hn hd => simp only [step?, read?, hr, hn, hd]
  | stop hr hn => simp only [step?, read?, hr, hn]
  | request hk hp hr => exact (hcall hk rfl).trans (by simp only [act, hp, dispatch, hr]; rfl)
  | answer hk hp hr => exact (hcall hk rfl).trans (by simp only [act, hp, dispatch, hr]; rfl)
  | collect hk hp hs => exact (hcall hk rfl).trans (by simp only [act, hp, hs]; rfl)
  | lose hk hp hb => exact (hcall hk rfl).trans (by simp only [act, hp, hb]; rfl)
  | enqueue hk hp hb hq => exact (hcall hk rfl).trans (by simp only [act, hp, hb, if_pos hq]; rfl)
  | dequeue hb hw hq hf => simp only [step?, dequeue?, hb, hw, hq, hf]
  | giveUp hb hw hq hf => simp only [step?, dequeue?, hb, hw, hq, hf]
  | put hw hr =>
    obtain ⟨b, left, hl⟩ := List.exists_cons_of_ne_nil hr
    simp only [step?, put?, hw, Option.map_some, hl]
  | putLast hw hr => simp only [step?, put?, hw, Option.map_some, hr]
  | failWrite hw => exact if_pos hw
  | service hs => simp only [step?, hs, Option.map_some]
theorem step_preserves {P : Server → Prop} {s : Server} {e : Event}
    (hm : ∀ next, s.Moves e next → P next) (h : P s) : P (s.step e) := by
  rcases hs : s.step? e with _ | next
  · rwa [step, hs]
  · rw [step, hs]
    exact hm next (moves_of_step? hs)

/-- A step of a connection is a step of the session, or none. -/
theorem session_step (s : Server) (e : Event) :
    (s.step e).session = s.session ∨ ∃ event, (s.step e).session = s.session.step event := by
  apply step_preserves (P := fun next =>
    next.session = s.session ∨ ∃ event, next.session = s.session.step event) ?_ (.inl rfl)
  intro next hm
  cases hm with
  | @request k h r => exact .inr ⟨.request r, rfl⟩
  | @service event _ hs => exact .inr ⟨event, by rw [Session.step, hs]; rfl⟩
  | _ => exact .inl rfl

end SshAuthority.Connection.Server
