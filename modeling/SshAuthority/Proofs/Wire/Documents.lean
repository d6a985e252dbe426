import SshAuthority.Proofs.Json.Members
import SshAuthority.Proofs.Wire.Meaning
import SshAuthority.Proofs.Wire.Streams
/-!
# Documents of requests

The members of a request may stand in any order, and others may stand between them: the document means the same
request. A known member that stands twice in its object means none.
-/
namespace SshAuthority.Wire

open Json (Value Document Arranged Twice collect collect_of_twice fill)

/-! ## Parameters -/

theorem base64?_base64 (bs : Bytes) : base64? (base64 bs).document = some bs := by
  rw [base64, base64?, Value.document, Document.text?, Option.bind_some, decodeBase64_encode]
  rfl

namespace SignArgs

theorem foldlM_take (kind : Document → Option CertificateKind) (ms : List (String × Document)) (d : Draft) :
    ms.foldlM (fun d m => take kind m.1 d m.2) d =
      (collect "Identity" Document.text? ms d.identity).bind fun identity =>
        (collect "CertificateKind" kind ms d.kind).bind fun kind =>
          (collect "Principals" (Document.list? Document.text?) ms d.principals).bind fun principals =>
            (collect "PublicKey" base64? ms d.key).map fun key => ⟨identity, kind, principals, key⟩ := by
  induction ms generalizing d with
  | nil => rfl
  | cons m ms ih =>
    obtain ⟨name, v⟩ := m
    rw [List.foldlM_cons]
    simp only [ih]
    by_cases h : name ∈ fields
    · rcases mem_fields.mp h with rfl | rfl | rfl | rfl
      · cases hfill : fill d.identity v.text? <;> simp [take, hfill]
      · cases hfill : fill d.kind (kind v) <;> simp [take, hfill]
      · cases hfill : fill d.principals (v.list? Document.text?) <;> simp [take, hfill]
      · cases hfill : fill d.key (base64? v) <;> simp [take, hfill]
    · rw [take_of_not_mem h]
      simp only [mem_fields, not_or] at h
      simp [h]

def members (a : SignArgs) : List (String × Document) :=
  [("Identity", .text a.identity), ("CertificateKind", .text a.kind.tag),
    ("Principals", (Value.list (a.principals.map .text)).document), ("PublicKey", (base64 a.key).document)]

variable {kind : Document → Option CertificateKind} {a : SignArgs} {ps : List (String × Document)}

theorem ofMembers_of_arranged (h : Arranged fields a.members ps) (hkind : kind (.text a.kind.tag) = some a.kind) :
    ofMembers kind ps = some a := by
  have hidentity := h.collect "Identity" (by decide) rfl Document.text?
  have hkinds := h.collect "CertificateKind" (by decide) rfl kind
  have hprincipals := h.collect "Principals" (by decide) rfl (Document.list? Document.text?)
  have hkey := h.collect "PublicKey" (by decide) rfl base64?
  rw [hkind] at hkinds
  rw [Json.list?_texts] at hprincipals
  rw [base64?_base64] at hkey
  rw [ofMembers, foldlM_take, hidentity, hkinds, hprincipals, hkey]
  rfl

theorem ofMembers_of_twice (h : Twice fields ps) : ofMembers kind ps = none := by
  obtain ⟨name, hname, htwice⟩ := h
  rw [ofMembers, foldlM_take]
  rcases mem_fields.mp hname with rfl | rfl | rfl | rfl <;> simp [collect_of_twice htwice]

theorem areWhole_members (a : SignArgs) : Document.areWholeMembers a.members = true := by
  simp [members, base64, Document.areWholeMembers, Document.isWhole, Value.document, Json.areWhole_texts]

theorem exists_value?_of_arranged (h : Arranged fields a.members ps) (torn : ∀ m ∈ ps, m.2 ≠ .torn) (depth : Nat) :
    ∃ v, (Document.object ps).value? (depth + 2) = some v := by
  apply Json.exists_value?_object
  intro m hm
  obtain ⟨extras, hextras, hperm⟩ := h
  rcases List.mem_append.mp (hperm.mem_iff.mp hm) with hknown | hextra
  · simp only [members, List.mem_cons, List.not_mem_nil, or_false] at hknown
    rcases hknown with rfl | rfl | rfl | rfl
    · exact ⟨_, rfl⟩
    · exact ⟨_, rfl⟩
    · exact ⟨_, Json.value?_texts a.principals depth⟩
    · exact ⟨_, rfl⟩
  · exact Json.exists_value?_of_isPlain (hextras m hextra).2 (torn m hm) _

end SignArgs

/-! ## Calls -/

namespace Call

variable {depth : Nat} {a : SignArgs} {cs ps : List (String × Document)}

/-- What a member can do to a call. -/
inductive Taken (depth : Nat) (name : String) (v : Document) : Draft → Draft → Prop where
  | method (named : name = "Method") (m : Method) : Taken depth name v .nothing (.method m)
  | methodBehind {p : Value} {m : Method} {c : Call} (named : name = "Method")
    (meant : (ofParameters p m).toOption = some c) : Taken depth name v (.parameters p) (.complete c)
  | parameters {p : Value} (named : name = "Params") (kept : v.value? depth = some p) :
    Taken depth name v .nothing (.parameters p)
  | parametersBehind {m : Method} {c : Call} (named : name = "Params") (meant : parameters? m v = some c) :
    Taken depth name v (.method m) (.complete c)
  | other (unknown : name ∉ fields) (d : Draft) : Taken depth name v d d

theorem taken_of_take {name : String} {d t : Draft} {v : Document} (h : take depth name d v = some t) :
    Taken depth name v d t := by
  by_cases hname : name ∈ fields
  · rcases mem_fields.mp hname with rfl | rfl
    · cases d with
      | nothing =>
        obtain ⟨m, -, ht⟩ := Option.bind_eq_some_iff.mp h
        cases ht
        exact .method rfl m
      | parameters p =>
        obtain ⟨m, -, ht⟩ := Option.bind_eq_some_iff.mp h
        obtain ⟨c, hc, rfl⟩ := Option.map_eq_some_iff.mp ht
        exact .methodBehind rfl hc
      | method m | complete c => cases h
    · cases d with
      | nothing =>
        obtain ⟨p, hp, rfl⟩ := Option.map_eq_some_iff.mp h
        exact .parameters rfl hp
      | method m =>
        obtain ⟨c, hc, rfl⟩ := Option.map_eq_some_iff.mp h
        exact .parametersBehind rfl hc
      | parameters p | complete c => cases h
  · rw [take_of_not_mem hname] at h
    cases h
    exact .other hname d

theorem Taken.found {name : String} {d t : Draft} {v : Document} (h : Taken depth name v d t) :
    (d.hasMethod = true → t.hasMethod = true) ∧ (d.hasParameters = true → t.hasParameters = true) ∧
    (name = "Method" → d.hasMethod = false ∧ t.hasMethod = true) ∧
    (name = "Params" → d.hasParameters = false ∧ t.hasParameters = true) := by
  cases h with
  | other unknown d =>
    simp only [mem_fields, not_or] at unknown
    simp [unknown]
  | _ => simp [*, Draft.hasMethod, Draft.hasParameters]

theorem ofMembers_of_twice (h : Twice fields cs) : ofMembers depth cs = none := by
  obtain ⟨name, hname, htwice⟩ := h
  have hfold : cs.foldlM (fun d m => take depth m.1 d m.2) .nothing = none := by
    rcases mem_fields.mp hname with rfl | rfl
    · apply Json.foldlM_twice Draft.hasMethod _ _ (Nat.le_add_right_of_le htwice)
      · intro s t v ht
        exact (taken_of_take ht).found.2.2.1 rfl
      · intro s t n ht
        exact (taken_of_take ht).found.1
    · apply Json.foldlM_twice Draft.hasParameters _ _ (Nat.le_add_right_of_le htwice)
      · intro s t v ht
        exact (taken_of_take ht).found.2.2.2 rfl
      · intro s t n ht
        exact (taken_of_take ht).found.2.1
  rw [ofMembers, hfold]
  rfl

theorem toOption_ofParameters (vs : List (String × Value)) : (ofParameters (.object vs) .sign).toOption =
    (SignArgs.ofMembers keptKind? (Value.documentMembers vs)).map Call.sign := by
  rw [← SignArgs.ofValue_object, ofParameters]
  cases SignArgs.ofValue (.object vs) <;> rfl

theorem ofMembers_of_parameters (hparams : ("Params", .object ps) ∈ cs) (h : Twice SignArgs.fields ps) :
    ofMembers depth cs = none := by
  have hdirect : ∀ m, parameters? m (.object ps) = none := by
    intro m
    cases m with
    | publicKey => rfl
    | sign => exact congrArg (Option.map Call.sign) (SignArgs.ofMembers_of_twice h)
  have hkept : ∀ {v}, (Document.object ps).value? depth = some v → ∀ m, (ofParameters v m).toOption = none := by
    intro v hv m
    obtain ⟨vs, rfl, rfl⟩ := Json.value?_object hv
    cases m with
    | publicKey => rfl
    | sign => rw [toOption_ofParameters, SignArgs.ofMembers_of_twice h, Option.map_none]
  rw [ofMembers, Option.bind_eq_none_iff]
  intro t ht
  have htrap : ∃ v, t = .parameters v ∧ ∀ m, (ofParameters v m).toOption = none := by
    apply Json.foldlM_trapped (P := fun t => ∃ v, t = .parameters v ∧ _) _ _ hparams ht
    · intro s t hs
      cases taken_of_take hs with
      | method named | methodBehind named => simp at named
      | parameters _ kept => exact ⟨_, rfl, hkept kept⟩
      | parametersBehind _ meant =>
        rw [hdirect] at meant
        cases meant
      | other unknown => simp [fields] at unknown
    · intro s t n hs hn
      obtain ⟨v, rfl, hv⟩ := hs
      cases taken_of_take hn with
      | methodBehind _ meant =>
        rw [hv] at meant
        cases meant
      | other => exact ⟨v, rfl, hv⟩
  obtain ⟨v, rfl, -⟩ := htrap
  rfl

private theorem foldlM_known (d : Draft) : cs.foldlM (fun d m => take depth m.1 d m.2) d =
    (cs.filter fun m => fields.contains m.1).foldlM (fun d m => take depth m.1 d m.2) d := by
  apply Json.foldlM_filter (p := fields.contains)
  intro s m hm
  exact take_of_not_mem (by simpa using hm) depth s m.2

theorem ofMembers_publicKey (h : Arranged fields [("Method", .text Method.publicKey.name)] cs) :
    ofMembers depth cs = some .publicKey := by
  have hperm := h.filter_perm (p := fields.contains) (by simp)
  rw [ofMembers, foldlM_known, List.perm_singleton.mp hperm]
  rfl

private theorem ofMembers_pair {m n : String × Document} {d : Draft} {c : Call}
    (hfilter : (cs.filter fun m => fields.contains m.1) = [m, n]) (first : take depth m.1 .nothing m.2 = some d)
    (second : take depth n.1 d n.2 = some (.complete c)) : ofMembers depth cs = some c := by
  rw [ofMembers, foldlM_known, hfilter]
  simp [first, second, Draft.finish, Except.toOption]

theorem ofMembers_sign (hparams : Arranged SignArgs.fields a.members ps)
    (h : Arranged fields [("Method", .text Method.sign.name), ("Params", .object ps)] cs)
    (torn : ["Method", "Params"].Sublist (cs.map Prod.fst) ∨ ∀ m ∈ ps, m.2 ≠ .torn) :
    ofMembers (depth + 2) cs = some (.sign a) := by
  have hperm : (cs.filter fun m => fields.contains m.1).Perm
      [("Method", .text Method.sign.name), ("Params", .object ps)] := h.filter_perm (p := fields.contains) (by simp)
  rcases List.perm_pair.mp hperm with hfilter | hfilter
  · have hdirect : parameters? .sign (.object ps) = some (.sign a) :=
      congrArg (Option.map Call.sign) (SignArgs.ofMembers_of_arranged hparams (by cases a.kind <;> decide))
    exact ofMembers_pair hfilter rfl (congrArg (Option.map Draft.complete) hdirect)
  · have hsafe : ∀ m ∈ ps, m.2 ≠ .torn := by
      apply torn.resolve_left
      intro hsub
      have hnames := hsub.filter fields.contains
      rw [List.filter_map] at hnames
      have hfound : ["Method", "Params"].Sublist ((cs.filter fun m => fields.contains m.1).map Prod.fst) := hnames
      rw [hfilter] at hfound
      exact absurd (show ["Method", "Params"].Sublist ["Params", "Method"] from hfound) (by decide)
    obtain ⟨v, hv⟩ := SignArgs.exists_value?_of_arranged hparams hsafe depth
    have hkept : (ofParameters v .sign).toOption = some (.sign a) := by
      obtain ⟨vs, rfl, rfl⟩ := Json.value?_object hv
      rw [toOption_ofParameters, SignArgs.ofMembers_of_arranged hparams (by cases a.kind <;> decide), Option.map_some]
    exact ofMembers_pair hfilter (congrArg (Option.map Draft.parameters) hv)
      (congrArg (Option.map Draft.complete) hkept)

end Call

/-! ## Requests -/

namespace Numbered

variable {α : Type} {field : String} {body : Document → Option α} {ms : List (String × Document)} {v : Document}

theorem foldlM_take (hfield : field ≠ "Seq") (ms : List (String × Document)) (d : Numbered α) :
    ms.foldlM (fun d m => take field body m.1 d m.2) d =
      (collect "Seq" (fun v => v.natural?.map Nat.toUInt64) ms d.seq).bind fun seq =>
        (collect field body ms d.body).map fun body => ⟨seq, body⟩ := by
  induction ms generalizing d with
  | nil => rfl
  | cons m ms ih =>
    obtain ⟨name, v⟩ := m
    rw [List.foldlM_cons, take]
    simp only [ih]
    by_cases hseq : name = "Seq"
    · cases hfill : fill d.seq (v.natural?.map Nat.toUInt64) <;> simp [hseq, hfill, hfield.symm]
    · by_cases hname : name = field
      · cases hfill : fill d.body (body v) <;> simp [hname, hfill, hfield]
      · simp [hseq, hname]

/-- The members of a numbered record, by the name of the other member than the number. -/
def fields (field : String) : List String := ["Seq", field]

theorem ofMembers_of_twice (hfield : field ≠ "Seq") (h : Twice (fields field) ms) : ofMembers field body ms = none := by
  obtain ⟨name, hname, htwice⟩ := h
  rw [ofMembers, foldlM_take hfield]
  simp only [fields, List.mem_cons, List.not_mem_nil, or_false] at hname
  rcases hname with rfl | rfl <;> simp [collect_of_twice htwice]

theorem ofMembers_of_mem (hfield : field ≠ "Seq") (h : (field, v) ∈ ms) (hv : body v = none) :
    ofMembers field body ms = none := by
  rw [ofMembers, foldlM_take hfield]
  simp [Json.collect_of_mem h hv]

theorem ofMembers_of_arranged (hfield : field ≠ "Seq") {seq : UInt64} {a : α}
    (h : Arranged (fields field) [("Seq", .number (.natural seq.toNat)), (field, v)] ms) (hv : body v = some a) :
    ofMembers field body ms = some (seq, a) := by
  have hseq := h.collect (v := .number (.natural seq.toNat)) "Seq" (by simp [fields]) (by simp [hfield])
    fun v => v.natural?.map Nat.toUInt64
  have hbody := h.collect (v := v) field (by simp [fields]) (by simp [hfield.symm]) body
  rw [ofMembers, foldlM_take hfield, hseq, hbody, hv]
  simp [finish, Document.natural?]

end Numbered

/-- A document that tells a call: its members are those of the written call in some order, with others between
them, and so are those of its parameters. -/
inductive Call.IsToldBy : Call → Document → Prop where
  | publicKey {cs : List (String × Document)} (call : Arranged fields [("Method", .text Method.publicKey.name)] cs) :
    IsToldBy .publicKey (.object cs)
  | sign {a : SignArgs} {cs ps : List (String × Document)} (parameters : Arranged SignArgs.fields a.members ps)
    (call : Arranged fields [("Method", .text Method.sign.name), ("Params", .object ps)] cs) :
    IsToldBy (.sign a) (.object cs)

namespace Request

/-- A document that tells a request. -/
inductive IsToldBy : Request → Document → Prop where
  | intro {seq : UInt64} {call : Call} {c : Document} {ms : List (String × Document)} (told : call.IsToldBy c)
    (request : Arranged (Numbered.fields "Call") [("Seq", .number (.natural seq.toNat)), ("Call", c)] ms) :
    IsToldBy ⟨seq, call⟩ (.object ms)

/-- Parameters that stand before their method have no torn text among them. -/
def Legible (d : Document) : Prop :=
  ∀ ms cs ps, d = .object ms → ("Call", .object cs) ∈ ms → ("Params", .object ps) ∈ cs →
    ["Method", "Params"].Sublist (cs.map Prod.fst) ∨ ∀ m ∈ ps, m.2 ≠ .torn

/-- A known member stands twice in its object: in the request, in its call or in the parameters of that. -/
inductive Repeats : Document → Prop where
  | request {ms : List (String × Document)} (twice : Twice (Numbered.fields "Call") ms) : Repeats (.object ms)
  | call {ms cs : List (String × Document)} (call : ("Call", .object cs) ∈ ms) (twice : Twice Call.fields cs) :
    Repeats (.object ms)
  | parameters {ms cs ps : List (String × Document)} (call : ("Call", .object cs) ∈ ms)
    (parameters : ("Params", .object ps) ∈ cs) (twice : Twice SignArgs.fields ps) : Repeats (.object ms)

variable {r : Request} {d : Document} {payload : Bytes}

private theorem meaning_object (ms : List (String × Document)) : Request.meaning (.object ms) =
    (Numbered.ofMembers "Call" (Call.meaning (maxDepth - 2)) ms).map fun x => ⟨x.1, x.2⟩ := rfl

theorem meaning_of_told (told : r.IsToldBy d) (legible : Legible d) : Request.meaning d = some r := by
  cases told with
  | @intro seq call c ms told request =>
    have hmem : ("Call", c) ∈ ms := request.mem_of_known (by simp)
    have hcall : Call.meaning (maxDepth - 2) c = some call := by
      cases told with
      | publicKey call => exact Call.ofMembers_publicKey call
      | sign parameters call =>
        exact Call.ofMembers_sign parameters call (legible _ _ _ rfl hmem (call.mem_of_known (by simp)))
    rw [meaning_object, Numbered.ofMembers_of_arranged (by decide) request hcall, Option.map_some]

theorem meaning_of_repeats (h : Repeats d) : Request.meaning d = none := by
  cases h with
  | request twice => rw [meaning_object, Numbered.ofMembers_of_twice (by decide) twice, Option.map_none]
  | call call twice =>
    have hcall : Call.meaning (maxDepth - 2) (.object _) = none := Call.ofMembers_of_twice twice
    rw [meaning_object, Numbered.ofMembers_of_mem (by decide) call hcall, Option.map_none]
  | parameters call parameters twice =>
    have hcall : Call.meaning (maxDepth - 2) (.object _) = none := Call.ofMembers_of_parameters parameters twice
    rw [meaning_object, Numbered.ofMembers_of_mem (by decide) call hcall, Option.map_none]

/-- The written request is told by what it says. -/
theorem isToldBy_value (r : Request) : r.IsToldBy r.value.document ∧ r.value.document.IsSaidBy r.encode := by
  have hknown : ∀ {fields} known, Arranged fields known known := fun known => ⟨[], by simp, by simp⟩
  obtain ⟨seq, call⟩ := r
  constructor
  · cases call with
    | publicKey => exact .intro (.publicKey (hknown _)) (hknown _)
    | sign a => exact .intro (.sign (hknown _) (hknown _)) (hknown _)
  · have hcall : call.value.document.isWhole = true := by
      cases call with
      | publicKey => rfl
      | sign a => exact (Bool.and_true _).trans a.areWhole_members
    have hwhole : (Request.value ⟨seq, call⟩).document.isWhole = true := by
      have hseq : seq.toNat < Json.Number.limit := seq.toNat_lt
      simp [Request.value, Value.document, Value.documentMembers, Document.isWhole, Document.areWholeMembers, hcall,
        hseq]
    rw [Request.encode, ← Json.write_document]
    exact Document.isSaidBy_write hwhole

private theorem exists_error {ε α : Type} {x : Except ε α} (h : x.toOption = none) : ∃ fault, x = .error fault := by
  cases x with
  | error fault => exact ⟨fault, rfl⟩
  | ok a => cases h

theorem decode_front {payload more : Bytes} {stream : Frame.Arrivals} (fits : payload.length ≤ maxPayload)
    (arrived : stream.flatten = Frame.frameOf payload ++ more) :
    (readMessages Request.decode stream).1.head? = some (Request.decode payload) := by
  have hframe := Frame.payloads_frames (List.forall_mem_singleton.mpr fits) more
  rw [List.flatMap_cons, List.flatMap_nil, List.append_nil, ← arrived, ← Frame.readAll_eq] at hframe
  rw [readMessages, hframe]
  rfl

/-- What tells a request is read as that request, whatever the order of its members and whatever others stand
between them, if no torn text is kept with the parameters; the written request is told by what it says. What has a
known member twice is refused. -/
theorem documents_mean_one_request :
    (∀ r : Request, r.IsToldBy r.value.document ∧ r.value.document.IsSaidBy r.encode) ∧
    ∀ (d : Document) (payload more : Bytes) (stream : Frame.Arrivals), d.IsSaidBy payload →
      payload.length ≤ maxPayload → stream.flatten = Frame.frameOf payload ++ more →
      (∀ r : Request, r.IsToldBy d → Legible d → (readMessages Request.decode stream).1.head? = some (.ok r)) ∧
      (Repeats d → ∃ fault, (readMessages Request.decode stream).1.head? = some (.error fault)) := by
  constructor
  · exact isToldBy_value
  · intro d payload more stream said fits arrived
    have hmeaning := Request.decode_said said
    rw [decode_front fits arrived]
    constructor
    · intro r told legible
      rw [meaning_of_told told legible] at hmeaning
      cases hdecode : Request.decode payload <;> rw [hdecode] at hmeaning <;> cases hmeaning
      rfl
    · intro repeats
      obtain ⟨fault, hfault⟩ := exists_error (hmeaning.trans (meaning_of_repeats repeats))
      exact ⟨fault, congrArg some hfault⟩

/-! ### Requests out of order -/

private def sampleArgs : SignArgs :=
  ⟨"x", .host, ["p"],
    Utf8.encode "ssh-ed25519 AAAAC3NzaC1lZDI1NTE5AAAAIHwXYROIrAfv9RS4LyCPdsPGy6EqM+vncrrZXzVJbNuV john@doe\n"⟩

/-- The parameters stand before the method and are followed by one that nobody asked for. -/
private def kept (extra : Document) : Document :=
  .object [("Seq", .number (.natural 1)), ("Call", .object
    [("Params", .object (sampleArgs.members ++ [("X", extra)])), ("Method", .text Method.sign.name)])]

private theorem kept_told {extra : Document} (h : extra.isPlain = true) :
    IsToldBy ⟨1, .sign sampleArgs⟩ (kept extra) := by
  have hparams : Arranged SignArgs.fields sampleArgs.members (sampleArgs.members ++ [("X", extra)]) :=
    ⟨[("X", extra)], by simpa [SignArgs.fields] using h, .refl _⟩
  exact .intro (.sign hparams ⟨[], by simp, .swap _ _ []⟩) ⟨[], by simp, .refl _⟩

/-- The written request with one more member, whose name is torn. -/
private def tornName : Bytes :=
  (Request.encode ⟨1, .publicKey⟩).dropLast ++ 44 :: Document.torn.write ++ 58 :: Document.null.write ++ [125]

/-- Torn text is refused among parameters that stand before their method, and as a name. -/
theorem torn_text_is_refused :
    (IsToldBy ⟨1, .sign sampleArgs⟩ (kept .torn) ∧ (kept .torn).IsSaidBy (kept .torn).write ∧
      (kept .torn).write.length ≤ maxPayload ∧ ∃ fault, Request.decode (kept .torn).write = .error fault) ∧
    tornName.length ≤ maxPayload ∧ ∃ fault, Request.decode tornName = .error fault := by
  have hsaid : (kept .torn).IsSaidBy (kept .torn).write := Document.isSaidBy_write (by decide +kernel)
  have hkept : Request.meaning (kept .torn) = none := by rfl
  have hname : (Request.decode tornName).toOption.isNone = true := by decide +kernel
  constructor
  · exact ⟨kept_told rfl, hsaid, by decide +kernel, exists_error ((Request.decode_said hsaid).trans hkept)⟩
  · exact ⟨by decide +kernel, exists_error (Option.isNone_iff_eq_none.mp hname)⟩

private def turnedParameters : List (String × Document) :=
  (sampleArgs.members ++ [("X", Document.null), ("Call", Document.text "")]).reverse

/-- Every object of the request is turned around, with others of every kind among its members. -/
private def shuffled : Document :=
  .object [("Z", .text "Seq"), ("Y", .torn), ("Call", .object
    [("Seq", .boolean true), ("Params", .object turnedParameters), ("Method", .text Method.sign.name)]),
      ("Seq", .number (.natural 1))]

private theorem shuffled_told : IsToldBy ⟨1, .sign sampleArgs⟩ shuffled := by
  have hparams : Arranged SignArgs.fields sampleArgs.members turnedParameters :=
    ⟨_, by simp [SignArgs.fields, Document.isPlain], List.reverse_perm _⟩
  apply IsToldBy.intro
  · apply Call.IsToldBy.sign hparams
    exact ⟨[("Seq", .boolean true)], by simp [Call.fields, Document.isPlain], List.reverse_perm [_, _, _]⟩
  · exact ⟨[("Y", .torn), ("Z", .text "Seq")], by simp [Numbered.fields, Document.isPlain],
      List.reverse_perm [_, _, _, _]⟩

private theorem shuffled_legible : Legible shuffled := by
  intro ms cs ps hms hcs hps
  cases hms
  right
  simp only [List.mem_cons, Prod.mk.injEq, String.reduceEq, reduceCtorEq, and_self, Document.object.injEq,
    true_and, List.not_mem_nil, or_self, or_false, false_or] at hcs
  subst hcs
  simp only [List.mem_cons, Prod.mk.injEq, String.reduceEq, reduceCtorEq, and_self, Document.object.injEq,
    true_and, List.not_mem_nil, or_self, or_false, false_or] at hps
  subst hps
  simp [turnedParameters, SignArgs.members, Value.document, base64]

private def repeated : Document := .object [("Seq", .number (.natural 1)), ("Call", .object
    [("Params", .object (("Identity", .text "y") :: sampleArgs.members)), ("Method", .text Method.sign.name)])]

private theorem repeated_repeats : Repeats repeated := by
  apply Repeats.parameters (List.mem_cons_of_mem _ List.mem_cons_self) List.mem_cons_self
  exact ⟨"Identity", by decide, by decide⟩

theorem documents_mean_one_request_sample :
    (readMessages Request.decode [Frame.frameOf shuffled.write]).1.head? = some (.ok ⟨1, .sign sampleArgs⟩) ∧
      ∃ fault, (readMessages Request.decode [Frame.frameOf repeated.write]).1.head? = some (.error fault) := by
  have hshuffled : shuffled.IsSaidBy shuffled.write := Document.isSaidBy_write (by decide +kernel)
  have hrepeated : repeated.IsSaidBy repeated.write := Document.isSaidBy_write (by decide +kernel)
  constructor
  · have hread := (documents_mean_one_request.2 shuffled _ [] [_] hshuffled (by decide +kernel) rfl).1
    exact hread _ shuffled_told shuffled_legible
  · have hread := (documents_mean_one_request.2 repeated _ [] [_] hrepeated (by decide +kernel) rfl).2
    exact hread repeated_repeats

end Request

end SshAuthority.Wire
