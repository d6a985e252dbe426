import Mathlib.Data.Multiset.Defs
import SshAuthority.Connection.Link
import SshAuthority.Proofs.Authority.Backend
import SshAuthority.Proofs.Connection.Hub
import SshAuthority.Proofs.Wire.Frame
/-!
# Failures that look alike

A peer is told that a signature failed, and not how. So whatever a server writes where signatures fail in one
way, it can write where they fail in another, byte for byte, and a client makes the same of it.
-/
namespace SshAuthority.Connection
open Authority

namespace Server

def GoesBy (b : Backend) (s : Server) : Event → Prop
  | .service e => s.session.GoesBy b e
  | _ => True

def GoesOnBy (b : Backend) : Server → List Event → Prop := Allowed step (GoesBy b)

def Event.isSigning : Event → Bool
  | .service e => e.isPastGate
  | _ => false

def others (es : List Event) : List Event := es.filter (!·.isSigning)

variable {s t next : Server} {e : Event} {b b' : Backend}

/-- The same server, but for what does not show of its session. -/
def Same (s t : Server) : Prop := ∃ session : Session, s = { t with session } ∧ session.view = t.session.view

private theorem Same.symm (h : Same s t) : Same t s := by
  obtain ⟨session, rfl, hview⟩ := h
  exact ⟨t.session, rfl, hview.symm⟩

private theorem service_of_view {s t : Session} (h : s.view = t.view) : s.service = t.service :=
  congrArg View.service h

private theorem length_of_view {s t : Session} (h : s.view = t.view) : s.calls.length = t.calls.length := by
  simpa [Session.view] using congrArg (fun v : View => v.calls.length) h

private theorem told_of_view {s t : Session} (h : s.view = t.view) {i : Nat} {result : Except ServiceFault Bytes}
    (hr : s.result? i = some result) : ∃ result', t.result? i = some result' ∧ told result' = told result := by
  obtain ⟨p, hp, hr⟩ := Option.bind_eq_some_iff.mp hr
  obtain ⟨c, hc, rfl⟩ := Option.map_eq_some_iff.mp hp
  obtain ⟨d, hd, -, hstage⟩ := Session.call_of_view h hc
  have hended : c.phase = .ended result := by
    cases hphase : c.phase <;> simp only [hphase, Phase.result?, reduceCtorEq, Option.some.injEq] at hr
    rw [hr]
  rw [hended] at hstage
  rw [Session.result?, Session.phase?_of_call hd]
  cases hphase : d.phase <;> rw [hphase] at hstage <;> simp only [Phase.stage, reduceCtorEq, Stage.told.injEq] at hstage
  exact ⟨_, rfl, hstage⟩

private theorem respond_of_told (key : PublicKey) (call : Wire.Call) {result result' : Except ServiceFault Bytes}
    (h : told result = told result') :
    Service.respond key call (fun _ => result) = Service.respond key call (fun _ => result') := by
  cases call with
  | publicKey => rfl
  | sign args =>
    rcases hr : args.request with fault | r
    · simp only [Service.respond, hr]
    · rcases result with fault | certificate <;> rcases result' with fault' | certificate' <;>
        simp_all [told, Except.mapError, Service.respond]

private theorem moves_of_same (h : Same s t) (hm : s.Moves e next) (he : e.isSigning = false) :
    ∃ next', t.Moves e next' ∧ Same next next' := by
  obtain ⟨x, rfl, hview⟩ := h
  cases hm with
  | arrive piece => exact ⟨_, .arrive piece, x, rfl, hview⟩
  | closeInput => exact ⟨_, .closeInput, x, rfl, hview⟩
  | read hr hn hd => exact ⟨_, .read hr hn hd, x, rfl, hview⟩
  | skip hr hn hd => exact ⟨_, .skip hr hn hd, x, rfl, hview⟩
  | stop hr hn => exact ⟨_, .stop hr hn, x, rfl, hview⟩
  | lose hk hp hb => exact ⟨_, .lose hk hp hb, x, rfl, hview⟩
  | enqueue hk hp hb hq => exact ⟨_, .enqueue hk hp hb hq, x, rfl, hview⟩
  | dequeue hb hw hq hf => exact ⟨_, .dequeue hb hw hq hf, x, rfl, hview⟩
  | giveUp hb hw hq hf => exact ⟨_, .giveUp hb hw hq hf, x, rfl, hview⟩
  | put hw hr => exact ⟨_, .put hw hr, x, rfl, hview⟩
  | putLast hw hr => exact ⟨_, .putLast hw hr, x, rfl, hview⟩
  | failWrite hw => exact ⟨_, .failWrite hw, x, rfl, hview⟩
  | @request k h r hk hp hr =>
    refine ⟨_, .request hk hp hr, x.request r, ?_, Session.view_step (e := .request r) hview rfl⟩
    rw [length_of_view hview]
    rfl
  | @answer k h hk hp hr =>
    refine ⟨_, .answer hk hp hr, x, ?_, hview⟩
    rw [answer, service_of_view hview]
    rfl
  | @collect k h call signed hk hp hs =>
    obtain ⟨signed', hs', htold⟩ := told_of_view hview hs
    refine ⟨_, .collect hk hp hs', x, ?_, hview⟩
    rw [answer, service_of_view hview, respond_of_told _ _ htold.symm]
    rfl
  | @service event session hs =>
    obtain ⟨session', hm, hview'⟩ := Session.moves_of_view hview (Session.moves_of_step? hs) he
    exact ⟨_, .service (Session.step?_of_moves hm), session, rfl, hview'⟩

private theorem same_step (h : Same s t) (he : e.isSigning = false) : Same (s.step e) (t.step e) := by
  rcases hs : s.step? e with _ | next
  · rcases ht : t.step? e with _ | next
    · rwa [step, step, hs, ht]
    · obtain ⟨_, hm, -⟩ := moves_of_same h.symm (moves_of_step? ht) he
      rw [step?_of_moves hm] at hs
      cases hs
  · obtain ⟨next', hm, hsame⟩ := moves_of_same h (moves_of_step? hs) he
    rwa [step, step, hs, step?_of_moves hm]

/-! ## Steps of the service -/

private theorem step_service (s : Server) (e : Session.Event) :
    s.step (.service e) = { s with session := s.session.step e } := by
  rw [step, step?, Session.step]
  rcases s.session.step? e with _ | session <;> rfl

private theorem run_service (s : Server) (es : List Session.Event) :
    s.run (es.map .service) = { s with session := s.session.run es } := by
  induction es generalizing s with
  | nil => rfl
  | cons e es ih =>
    show (s.step (.service e)).run (es.map .service) = _
    rw [ih, step_service]
    rfl

private theorem goesOnBy_service {es : List Session.Event} (h : s.session.GoesOnBy b es) :
    s.GoesOnBy b (es.map .service) := by
  induction es generalizing s with
  | nil => trivial
  | cons e es ih =>
    refine ⟨h.1, ih ?_⟩
    rw [step_service]
    exact h.2

private theorem others_service (es : List Session.Event) :
    others (es.map .service) = (Session.others es).map .service := by
  rw [others, List.filter_map]
  rfl

private theorem session_of_step (he : ∀ event, e ≠ .service event) :
    (s.step e).session = s.session ∨ ∃ r, (s.step e).session = s.session.request r := by
  refine step_preserves (P := fun next => next.session = s.session ∨ ∃ r, next.session = s.session.request r)
    (fun next hm => ?_) (.inl rfl)
  cases hm with
  | @request k h r => exact .inr ⟨r, rfl⟩
  | @service event => exact absurd rfl (he event)
  | _ => exact .inl rfl

/-! ## Two backends -/

/-- One server signs by `b`, in any steps, and is the same as another one where signatures have no pause. -/
structure Twin (b : Backend) (s t : Server) : Prop where
  serves : s.session.Serves b
  settled : t.session.Settled
  same : Same s t

theorem Twin.own (h : Twin b s t) (he : ∀ event, e ≠ .service event) : Twin b (s.step e) (t.step e) := by
  have hquiet : e.isSigning = false := by
    cases e with
    | service event => exact absurd rfl (he event)
    | _ => rfl
  refine ⟨?_, ?_, same_step h.same hquiet⟩
  · rcases session_of_step he with hs | ⟨r, hs⟩ <;> rw [hs]
    · exact h.serves
    · exact h.serves.of_moves (e := .request r) trivial (.request r)
  · rcases session_of_step he with hs | ⟨r, hs⟩ <;> rw [hs]
    · exact h.settled
    · exact h.settled.step (e := .request r) rfl

/-- Whatever happens where one backend signs can happen where the other one does. -/
theorem Twin.step (alike : b.Alike b') (h : Twin b s t) (hb : s.GoesBy b e) :
    ∃ es, others es = others [e] ∧ t.GoesOnBy b' es ∧ Twin b (s.step e) (t.run es) := by
  by_cases hservice : ∃ event, e = .service event
  · obtain ⟨event, rfl⟩ := hservice
    obtain ⟨x, rfl, hview⟩ := h.same
    obtain ⟨es, hothers, hgoes, htwin⟩ := Session.Twin.step alike ⟨h.serves, h.settled, hview⟩ hb
    refine ⟨es.map .service, ?_, goesOnBy_service hgoes, ?_⟩
    · rw [others_service, hothers]
      exact (others_service [event]).symm
    · rw [step_service, run_service]
      exact ⟨htwin.serves, htwin.settled, _, rfl, htwin.view⟩
  · have hown : ∀ event, e ≠ .service event := fun event he => hservice ⟨event, he⟩
    have hgoes : t.GoesBy b' e := by
      cases e with
      | service event => exact absurd rfl (hown event)
      | _ => trivial
    exact ⟨[e], rfl, ⟨hgoes, trivial⟩, h.own hown⟩

theorem Twin.run (alike : b.Alike b') (h : Twin b s t) {es : List Event} (hb : s.GoesOnBy b es) :
    ∃ es', others es' = others es ∧ t.GoesOnBy b' es' ∧ Twin b (s.run es) (t.run es') :=
  exists_following (Twin.step alike) h hb

theorem twin_new (service : Service) (b : Backend) : Twin b (new (.new service)) (new (.new service)) := by
  refine ⟨⟨Session.housed_new service, ?_⟩, ⟨rfl, rfl, ?_⟩, .new service, rfl, rfl⟩ <;> simp [new, Session.new]

/-! ## What a peer sees -/

/-- What there is to see of a server: all bytes put on the stream, the response frames among them, and whether
there will be more. -/
structure Sight where
  sent : Bytes
  frames : Multiset Bytes
  ended : Bool

def sight (s : Server) : Sight :=
  ⟨s.sent, .ofList (s.written.map fun r => Wire.Frame.frameOf r.encode), s.isOver⟩

private theorem Same.sight (h : Same s t) : s.sight = t.sight := by
  obtain ⟨session, rfl, -⟩ := h
  rfl

/-- Where signatures go by the backend, and all else happens as it is given, a peer can get to see this. -/
def CanShow (b : Backend) (service : Service) (outer : List Event) (sight : Sight) : Prop :=
  ∃ es, (new (.new service)).GoesOnBy b es ∧ others es = outer ∧ ((new (.new service)).run es).sight = sight

private theorem canShow_of_alike (alike : b.Alike b') {service : Service} {outer : List Event} {sight : Sight}
    (h : CanShow b service outer sight) : CanShow b' service outer sight := by
  obtain ⟨es, hgoes, hothers, hsight⟩ := h
  obtain ⟨es', hothers', hgoes', htwin⟩ := (twin_new service b).run alike hgoes
  exact ⟨es', hgoes', hothers'.trans hothers, htwin.same.sight.symm.trans hsight⟩

end Server

namespace Link

def GoesBy (b : Backend) (s : Link) : Event → Prop
  | .server e => s.server.GoesBy b e
  | _ => True

def GoesOnBy (b : Backend) : Link → List Event → Prop := Allowed step (GoesBy b)

def Event.isSigning : Event → Bool
  | .server e => e.isSigning
  | _ => false

def others (es : List Event) : List Event := es.filter (!·.isSigning)

variable {s t : Link} {e : Event} {b b' : Backend}

/-- The same client, and servers that are twins. -/
structure Twin (b : Backend) (s t : Link) : Prop where
  client : s.client = t.client
  server : Server.Twin b s.server t.server
  carried : s.carried = t.carried
  returned : s.returned = t.returned

private theorem run_server (s : Link) {es : List Server.Event} (h : ∀ e ∈ es, isOwnOfServer e) :
    s.run (es.map .server) = { s with server := s.server.run es } := by
  induction es generalizing s with
  | nil => rfl
  | cons e es ih =>
    have hstep : s.step (.server e) = { s with server := s.server.step e } := if_pos (h e List.mem_cons_self)
    show (s.step (.server e)).run (es.map .server) = _
    rw [ih _ fun e' he => h e' (List.mem_cons_of_mem _ he), hstep]
    rfl

private theorem goesOnBy_server {es : List Server.Event} (h : ∀ e ∈ es, isOwnOfServer e)
    (hb : s.server.GoesOnBy b es) : s.GoesOnBy b (es.map .server) := by
  induction es generalizing s with
  | nil => trivial
  | cons e es ih =>
    have hstep : s.step (.server e) = { s with server := s.server.step e } := if_pos (h e List.mem_cons_self)
    refine ⟨hb.1, ih (fun e' he => h e' (List.mem_cons_of_mem _ he)) ?_⟩
    rw [hstep]
    exact hb.2

private theorem others_server (es : List Server.Event) :
    others (es.map .server) = (Server.others es).map .server := by
  rw [others, List.filter_map]
  rfl

private theorem isOwn_of_others {es : List Server.Event} {e : Server.Event} (he : isOwnOfServer e)
    (h : Server.others es = Server.others [e]) : ∀ e' ∈ es, isOwnOfServer e' := by
  intro e' hmem
  cases hs : e'.isSigning with
  | true =>
    cases e' with
    | arrive | closeInput => cases hs
    | _ => rfl
  | false =>
    have hin : e' ∈ Server.others es := List.mem_filter.mpr ⟨hmem, by simp [hs]⟩
    rw [h] at hin
    rw [List.mem_singleton.mp (List.mem_filter.mp hin).1, he]

private theorem Twin.serve (alike : b.Alike b') (h : Twin b s t) {event : Server.Event} (hown : isOwnOfServer event)
    (hb : s.server.GoesBy b event) : ∃ es, others es = others [.server event] ∧ t.GoesOnBy b' es ∧
      Twin b (s.step (.server event)) (t.run es) := by
  obtain ⟨es, hothers, hgoes, htwin⟩ := h.server.step alike hb
  have hall := isOwn_of_others hown hothers
  refine ⟨es.map .server, ?_, goesOnBy_server hall hgoes, ?_⟩
  · rw [others_server, hothers]
    exact (others_server [event]).symm
  · rw [run_server t hall, show s.step (.server event) = { s with server := s.server.step event } from if_pos hown]
    exact ⟨h.client, htwin, h.carried, h.returned⟩

/-- Whatever happens where one backend signs can happen where the other one does. -/
theorem Twin.step (alike : b.Alike b') (h : Twin b s t) (hb : s.GoesBy b e) :
    ∃ es, others es = others [e] ∧ t.GoesOnBy b' es ∧ Twin b (s.step e) (t.run es) := by
  have hsent : s.server.sent = t.server.sent := by
    obtain ⟨x, hx, -⟩ := h.server.same
    rw [hx]
  cases e with
  | client event =>
    refine ⟨[.client event], rfl, ⟨trivial, trivial⟩, ?_⟩
    show Twin b (s.step (.client event)) (t.step (.client event))
    simp only [step]
    split
    · exact ⟨congrArg (Client.step · event) h.client, h.server, h.carried, h.returned⟩
    · exact h
  | server event =>
    cases hown : isOwnOfServer event with
    | true => exact h.serve alike hown hb
    | false =>
      have hs : ∀ u : Link, u.step (.server event) = u := fun u => if_neg (by simp [hown])
      have hgoes : t.server.GoesBy b' event := by cases event <;> trivial
      refine ⟨[.server event], rfl, ⟨hgoes, trivial⟩, ?_⟩
      show Twin b (s.step (.server event)) (t.step (.server event))
      rwa [hs, hs]
  | carry count =>
    refine ⟨[.carry count], rfl, ⟨trivial, trivial⟩, ?_⟩
    show Twin b (s.step (.carry count)) (t.step (.carry count))
    simp only [step, h.client, h.carried]
    have harrives : ∀ piece, Server.Twin b (s.server.step (.arrive piece)) (t.server.step (.arrive piece)) :=
      fun _ => h.server.own fun _ => nofun
    exact ⟨rfl, harrives _, rfl, h.returned⟩
  | bringBack count =>
    refine ⟨[.bringBack count], rfl, ⟨trivial, trivial⟩, ?_⟩
    show Twin b (s.step (.bringBack count)) (t.step (.bringBack count))
    simp only [step, hsent, h.client, h.returned]
    exact ⟨rfl, h.server, h.carried, rfl⟩

theorem Twin.run (alike : b.Alike b') (h : Twin b s t) {es : List Event} (hb : s.GoesOnBy b es) :
    ∃ es', others es' = others es ∧ t.GoesOnBy b' es' ∧ Twin b (s.run es) (t.run es') :=
  exists_following (Twin.step alike) h hb

private theorem twin_new (service : Service) (b : Backend) : Twin b (new (.new service)) (new (.new service)) :=
  ⟨rfl, Server.twin_new service b, rfl, rfl⟩

/-- Where signatures go by the backend, and all else happens as it is given, a client can become this one, with all
results of its calls, and its server can show this. -/
def CanReach (b : Backend) (service : Service) (outer : List Event) (client : Client) (sight : Server.Sight) : Prop :=
  ∃ es, (new (.new service)).GoesOnBy b es ∧ others es = outer ∧
    ((new (.new service)).run es).client = client ∧ ((new (.new service)).run es).server.sight = sight

private theorem canReach_of_alike (alike : b.Alike b') {service : Service} {outer : List Event} {client : Client}
    {sight : Server.Sight} (h : CanReach b service outer client sight) : CanReach b' service outer client sight := by
  obtain ⟨es, hgoes, hothers, hclient, hsight⟩ := h
  obtain ⟨es', hothers', hgoes', htwin⟩ := (twin_new service b).run alike hgoes
  exact ⟨es', hgoes', hothers'.trans hothers, htwin.client.symm.trans hclient,
    htwin.server.same.sight.symm.trans hsight⟩

end Link

/-- No peer can tell one backend from the other one. -/
structure LookAlike (service : Service) (b b' : Backend) : Prop where
  servers : ∀ outer sight, Server.CanShow b service outer sight ↔ Server.CanShow b' service outer sight
  clients : ∀ outer client sight,
    Link.CanReach b service outer client sight ↔ Link.CanReach b' service outer client sight

/-- Two backends that come to the same certificates, and fail for the same calls, look the same to peers. -/
theorem failures_look_alike (service : Service) {b b' : Backend} (alike : b.Alike b') : LookAlike service b b' where
  servers _ _ := ⟨Server.canShow_of_alike alike, Server.canShow_of_alike alike.symm⟩
  clients _ _ _ := ⟨Link.canReach_of_alike alike, Link.canReach_of_alike alike.symm⟩

/-- Signs for hosts; the tool exits with a failure for users. -/
private def exitsForUsers : Backend where
  directory _ _ := none
  staging _ _ := none
  outcome _ r := match r.kind with
    | .user => ⟨some (.exit (Utf8.encode "ssh-keygen") (.ofCode 1)), .error .noEntry⟩
    | .host => ⟨none, .ok (Utf8.encode "certificate")⟩

/-- Signs for hosts, too; there is no directory for users. -/
private def refusesUsers : Backend where
  directory _ r := match r.kind with
    | .user => some .noEntry
    | .host => none
  staging _ _ := none
  outcome _ _ := ⟨none, .ok (Utf8.encode "certificate")⟩

private def alice : SignRequest := ⟨"alice", .user, ["alice"], sampleKey⟩

theorem exit_looks_like_no_directory : exitsForUsers.verdict 0 alice ≠ refusesUsers.verdict 0 alice ∧
    exitsForUsers.Alike refusesUsers ∧
    LookAlike ⟨⟨Utf8.encode "ca", sampleKey⟩, true⟩ exitsForUsers refusesUsers := by
  have alike : exitsForUsers.Alike refusesUsers := by
    intro i r
    cases hk : r.kind <;> simp [Backend.verdict, exitsForUsers, refusesUsers, Outcome.result, hk]
    all_goals rfl
  refine ⟨?_, alike, failures_look_alike _ alike⟩
  simp [Backend.verdict, exitsForUsers, refusesUsers, Outcome.result, alice]

end SshAuthority.Connection
