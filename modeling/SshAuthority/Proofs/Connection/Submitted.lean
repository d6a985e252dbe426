import SshAuthority.Proofs.Authority.Announcing
import SshAuthority.Proofs.Authority.Housing
/-!
# What is signed is what was shown

A caller submits an identity, a kind, principals and the bytes of a key, in a call of its own or over a
connection. What the operator is shown and what the tool is run on are made of these by different hands, and
say the same.
-/
namespace SshAuthority.Connection
open Authority

namespace Server

/-- What a call hands to the service, if its key can be read. -/
def submission? : Wire.Call → Option Wire.SignArgs
  | .publicKey => none
  | .sign args => if args.request.toOption.isSome then some args else none

/-- What is handed to the service at an event. -/
def submits (s : Server) : Event → List Wire.SignArgs
  | .service (.request r) => [.ofRequest r]
  | .dispatch k => match s.handlers[k]? with
    | some ⟨request, .dispatched⟩ => (submission? request.call).toList
    | _ => []
  | _ => []

end Server

namespace Hub

def submits (s : Hub) : Event → List Wire.SignArgs
  | .direct (.request r) => [.ofRequest r]
  | .direct _ | .accept => []
  | .connection k e => match s.servers[k]? with
    | some server => Server.submits { server with session := s.session } e
    | none => []

def submissions (s : Hub) : List Event → List Wire.SignArgs
  | [] => []
  | e :: es => s.submits e ++ (s.step e).submissions es

end Hub

/-! ## Calls are on what was submitted -/

/-- What the calls of a session are on. -/
def subjects (s : Session) : List (Except Key.Fault SignRequest) := (s.calls.map (·.request)).map .ok

private theorem subjects_step (s : Session) (e : Session.Event) :
    subjects (s.step e) = subjects s ++ (Session.asked [e]).map .ok := by
  have h := congrArg (List.map (Except.ok (ε := Key.Fault))) (Session.requests_run s [e])
  rwa [List.map_append] at h

private theorem subjects_asked (s : Session) (r : SignRequest) :
    subjects (s.request r) = subjects s ++ [Wire.SignArgs.ofRequest r].map Wire.SignArgs.request := by
  rw [List.map_singleton, Wire.SignArgs.request_ofRequest]
  exact subjects_step s (.request r)

private theorem subjects_other (s : Session) {e : Session.Event} (h : Session.asked [e] = []) :
    subjects (s.step e) = subjects s := by
  rw [subjects_step, h, List.map_nil, List.append_nil]

namespace Server

variable {s next : Server} {e : Event}

private theorem submits_dispatch {k : Nat} {h : Handler} (hk : s.handlers[k]? = some h) (hp : h.phase = .dispatched) :
    s.submits (.dispatch k) = (submission? h.request.call).toList := by
  obtain ⟨request, phase⟩ := h
  obtain rfl : phase = .dispatched := hp
  simp only [submits, hk]

private theorem submission?_of_request {call : Wire.Call} {r : SignRequest} (h : signRequest? call = some r) :
    ∃ args, submission? call = some args ∧ args.request = .ok r := by
  cases call with
  | publicKey => cases h
  | sign args =>
    rw [signRequest?] at h
    rcases hr : args.request with _ | r'
    · simp [hr, Except.toOption] at h
    · obtain rfl : r' = r := by simpa [hr, Except.toOption] using h
      exact ⟨args, by simp [submission?, hr, Except.toOption], hr⟩

private theorem submission?_of_none {call : Wire.Call} (h : signRequest? call = none) : submission? call = none := by
  cases call with
  | publicKey => rfl
  | sign args =>
    rw [signRequest?] at h
    simp [submission?, h]

private theorem subjects_of_moves (hm : s.Moves e next) :
    subjects next.session = subjects s.session ++ (s.submits e).map Wire.SignArgs.request := by
  cases hm with
  | @request k h r hk hp hr =>
    obtain ⟨args, hargs, hread⟩ := submission?_of_request hr
    rw [submits_dispatch hk hp, hargs]
    show subjects (s.session.request r) = _
    simp [subjects, Session.request, hread]
  | answer hk hp hr =>
    rw [submits_dispatch hk hp, submission?_of_none hr]
    exact (List.append_nil _).symm
  | @service event session hs =>
    have hstep : session = s.session.step event := by rw [Session.step, hs]; rfl
    show subjects session = _
    rw [hstep]
    cases event with
    | request r => exact subjects_asked s.session r
    | _ => exact (subjects_other s.session rfl).trans (List.append_nil _).symm
  | _ => exact (List.append_nil _).symm

private theorem submits_of_stuck (hs : s.step? e = none) : s.submits e = [] := by
  cases e with
  | service event =>
    have hn : s.session.step? event = none := Option.map_eq_none_iff.mp hs
    cases event with
    | request => cases hn
    | _ => rfl
  | dispatch k =>
    rw [submits]
    split
    case h_1 request hk => simp [step?, Event.handler?, hk, act] at hs
    case h_2 => rfl
  | _ => rfl

theorem subjects_step (s : Server) (e : Event) :
    subjects (s.step e).session = subjects s.session ++ (s.submits e).map Wire.SignArgs.request := by
  rcases hs : s.step? e with _ | next
  · rw [step, hs, submits_of_stuck hs]
    exact (List.append_nil _).symm
  · rw [step, hs]
    exact subjects_of_moves (moves_of_step? hs)

end Server

namespace Hub

private theorem subjects_step (s : Hub) (e : Event) :
    subjects (s.step e).session = subjects s.session ++ (s.submits e).map Wire.SignArgs.request := by
  cases e with
  | direct event =>
    cases event with
    | request r => exact subjects_asked s.session r
    | _ => exact (subjects_other s.session rfl).trans (List.append_nil _).symm
  | accept => exact (List.append_nil _).symm
  | connection k event =>
    simp only [step, submits]
    rcases s.servers[k]? with _ | server
    · exact (List.append_nil _).symm
    · exact Server.subjects_step { server with session := s.session } event

/-- Each call is on what was submitted for it, in order. -/
theorem subjects_run (s : Hub) (events : List Event) :
    subjects (s.run events).session = subjects s.session ++ (s.submissions events).map Wire.SignArgs.request := by
  induction events generalizing s with
  | nil => exact (List.append_nil _).symm
  | cons e events ih =>
    show subjects ((s.step e).run events).session = _
    rw [ih, subjects_step, submissions, List.map_append, List.append_assoc]

/-! ## Runs are on what was shown -/

/-- A run of the tool in the directory `d` is on what was submitted as `args`, of which the key is `key`, and so
is what the operator was shown of it. -/
structure AsShown (s : Session) (run : ToolRun) (args : Wire.SignArgs) (key : PublicKey) (d : Bytes) : Prop where
  parsed : PublicKey.parse args.key = .ok key
  /-- Algorithm and fingerprint are those of the key's blob. -/
  material : ∃ text material, Utf8.decode? args.key = some text ∧
    Key.Line.Holds (String.ofList (Key.withoutEnding text.toList)) material ∧
    key.algorithm = material.algorithm.name ∧
    key.fingerprint = "SHA256:" ++ Utf8.decodeLossy (Base64.encodeBare (Sha256.digest material.blob))
  announced : s.announcements run.call = ["make " ++ args.kind.name ++ " certificate for " ++ key.algorithm ++
    " key (fingerprint " ++ key.fingerprint ++ ") for " ++ ",".intercalate args.principals]
  arguments : run.arguments = ["-I", args.identity, "-n", ",".intercalate args.principals].map Utf8.encode ++
    (if args.kind = .host then [Utf8.encode "-h"] else []) ++
    [Utf8.encode "-s", s.service.identity.signer, Path.join d stagedName]
  principals : args.principals ≠ [] → (∀ p ∈ args.principals, ',' ∉ p.toList) →
    ((",".intercalate args.principals).toList.splitOn ',').map String.ofList = args.principals
  key : run.key = some args.key
  running : ∀ path, s.phase? run.call = some (.running path) →
    path = d ∧ ∃ certificate, s.staging? path = some ⟨path, some args.key, certificate⟩

private theorem asShown_of_runsOn {s : Session} {run : ToolRun} {c : SigningCall} {d : Bytes} (ha : s.Announced)
    (hh : s.Housed) (hc : s.calls[run.call]? = some c) (hr : 7 ≤ c.phase.rank) (hon : s.RunsOn run c d) :
    AsShown s run (.ofRequest c.request) c.request.key d := by
  refine ⟨c.request.key.parse_bytes, ?_, ?_, ?_, c.request.splitOn_joinedPrincipals, hon.key, fun path hp => ?_⟩
  · obtain ⟨text, material, htext, hholds, halgorithm, hfingerprint, -⟩ := c.request.key.exists_material
    exact ⟨text, material, htext, hholds, halgorithm, hfingerprint⟩
  · exact ha.announcements hc (by omega)
  · rw [hon.arguments, SignRequest.toolArguments]
    show _ ++ c.request.kind.flags.map Utf8.encode ++ _ = _
    cases hk : c.request.kind <;> simp [Wire.SignArgs.ofRequest, hk, CertificateKind.flags, SignRequest.joinedPrincipals]
  · rw [Session.phase?_of_call hc] at hp
    have hphase := Option.some.inj hp
    exact ⟨hon.directory path hphase, hh.key hc (by rw [hphase]; rfl)⟩

/-- Every run of the tool is on what its caller submitted, byte for byte, and the operator was shown that. -/
theorem signs_what_was_shown (service : Service) (events : List Event) (run : ToolRun)
    (hrun : run ∈ ((new service).run events).session.runs) :
    ∃ args key d, ((new service).submissions events)[run.call]? = some args ∧
      AsShown ((new service).run events).session run args key d := by
  obtain ⟨steps, hs⟩ := session_run (new service) events
  have ha : ((new service).run events).session.Announced := by
    rw [hs]
    exact Session.announced_run service steps
  have hh : ((new service).run events).session.Housed := by
    rw [hs]
    exact Session.housed_run service steps
  obtain ⟨c, d, hc, hr, hon⟩ := hh.runs run hrun
  have hsubject : (((new service).submissions events).map Wire.SignArgs.request)[run.call]? = some (.ok c.request) := by
    have hall := subjects_run (new service) events
    rw [show subjects (new service).session = [] from rfl, List.nil_append] at hall
    rw [← hall, subjects, List.getElem?_map, List.getElem?_map, hc]
    rfl
  obtain ⟨args, hargs, hread⟩ := Option.map_eq_some_iff.mp (List.getElem?_map ▸ hsubject)
  obtain rfl := Wire.SignArgs.eq_ofRequest hread
  exact ⟨_, _, d, hargs, asShown_of_runsOn ha hh hc hr hon⟩

private def oddService : Service := ⟨⟨Utf8.encode "ca", sampleKey⟩, false⟩

private def oddEvents : List Event :=
  [.direct (.request ⟨"-h", .host, ["-h", "-s"], sampleKey⟩), .direct (.request ⟨"alice", .user, ["alice"], sampleKey⟩),
    .direct (.announce 1), .direct (.announce 0), .direct (.makeDirectory 1 (.ok [2])),
    .direct (.makeDirectory 0 (.ok [1])), .direct (.stage 0 (.ok ())), .direct (.stage 1 (.ok ())),
    .direct (.holdConsole 0), .direct (.start 0)]

private def oddRun : ToolRun :=
  ⟨0, ["-I", "-h", "-n", "-h,-s", "-h", "-s", "ca"].map Utf8.encode ++ [[1, 47] ++ Utf8.encode "key.pub"],
    some sampleKey.bytes⟩

theorem signs_odd_names_as_shown : oddRun ∈ ((new oddService).run oddEvents).session.runs ∧
    ((new oddService).run oddEvents).session.phase? 0 = some (.running [1]) ∧
    ∃ args key d, ((new oddService).submissions oddEvents)[0]? = some args ∧
      AsShown ((new oddService).run oddEvents).session oddRun args key d := by
  have hrun : oddRun ∈ ((new oddService).run oddEvents).session.runs := by decide +kernel
  exact ⟨hrun, rfl, signs_what_was_shown oddService oddEvents oddRun hrun⟩

end Hub

end SshAuthority.Connection
