import SshAuthority.Proofs.Json.Meaning
import SshAuthority.Proofs.Wire.Message
/-!
# What a payload means as a request

A payload is read as a request by filling the fields of records with the members of objects one after the other. Only
the document it says matters, not how that is spelled.
-/
namespace SshAuthority.Wire

open Json (Value Document Reader Agrees Takes Spells bind_ok fill)

/-! ## Fields -/

def base64? (v : Document) : Option Bytes := v.text?.bind fun s => (decodeBase64 s).toOption

theorem agrees_base64 : Agrees readBase64 base64? := by
  constructor
  intro bs rest v hv
  rw [readBase64, Reader.result?_bind, Json.agrees_text.result? hv, base64?]
  cases v.text? with
  | none => rfl
  | some s =>
    simp only [Option.map_some, Option.bind_some]
    cases decodeBase64 s <;> rfl

theorem agrees_kind : Agrees CertificateKind.read (Document.choice? CertificateKind.known) := Json.agrees_plainChoice _

theorem agrees_method : Agrees Method.read (Document.choice? Method.known) := Json.agrees_plainChoice _

/-! ## Parameters -/

section

variable {ε α β σ : Type}

private theorem toOption_bind (x : Except ε α) (f : α → Except ε β) :
    (x >>= f).toOption = x.toOption.bind fun a => (f a).toOption := by
  cases x <;> rfl

private theorem toOption_foldlM (f : σ → α → Except ε σ) (as : List α) (s : σ) :
    (as.foldlM f s).toOption = as.foldlM (fun s a => (f s a).toOption) s := by
  induction as generalizing s with
  | nil => rfl
  | cons a as ih =>
    rw [List.foldlM_cons, List.foldlM_cons, toOption_bind]
    exact congrArg (Option.bind (f s a).toOption) (funext ih)

private theorem toOption_mapM (f : α → Except ε β) (as : List α) :
    (as.mapM f).toOption = as.mapM fun a => (f a).toOption := by
  induction as with
  | nil => rfl
  | cons a as ih =>
    rw [List.mapM_cons, List.mapM_cons, toOption_bind, ← ih]
    cases f a with
    | error e => rfl
    | ok b => cases as.mapM f <;> rfl

end

private theorem mapM_documents {β : Type} (f : Document → Option β) (vs : List Value) :
    (vs.mapM fun v => f v.document) = (Value.documents vs).mapM f := by
  induction vs with
  | nil => rfl
  | cons v vs ih => rw [List.mapM_cons, ih, Value.documents, List.mapM_cons]

private theorem foldlM_documentMembers {σ : Type} (f : σ → String → Document → Option σ) (ms : List (String × Value))
    (s : σ) : ms.foldlM (fun s m => f s m.1 m.2.document) s =
      (Value.documentMembers ms).foldlM (fun s m => f s m.1 m.2) s := by
  induction ms generalizing s with
  | nil => rfl
  | cons m ms ih =>
    rw [List.foldlM_cons, Value.documentMembers, List.foldlM_cons]
    exact congrArg (Option.bind (f s m.1 m.2.document)) (funext ih)

private theorem toOption_onceOf {α : Type} (field : String) (slot : Option α) (value : Except Json.Mismatch α) :
    (onceOf field slot value).toOption = fill slot value.toOption := by
  rw [onceOf, fill]
  split
  · rfl
  · cases value <;> rfl

private theorem toOption_textOf (v : Value) : (textOf v).toOption = v.document.text? := by
  cases v <;> rfl

private theorem toOption_base64Of (v : Value) : (base64Of v).toOption = base64? v.document := by
  rw [base64Of, base64?, toOption_bind, toOption_textOf]

private theorem toOption_principalsOf (v : Value) : (principalsOf v).toOption = v.document.list? Document.text? := by
  cases v with
  | list vs =>
    refine (toOption_mapM textOf vs).trans ?_
    rw [funext toOption_textOf]
    exact mapM_documents Document.text? vs
  | _ => rfl

def keptUnit? : Document → Option Unit
  | .null | .object [] => some ()
  | _ => none

/-- The meaning of a certificate kind that was kept as a value. -/
def keptKind? : Document → Option CertificateKind
  | .text name => CertificateKind.known.lookup name
  | .object [(name, v)] => (CertificateKind.known.lookup name).bind fun kind => (keptUnit? v).map fun _ => kind
  | _ => none

private theorem toOption_kindNamed (name : String) :
    (kindNamed name).toOption = CertificateKind.known.lookup name := by
  rw [kindNamed]
  cases CertificateKind.known.lookup name <;> rfl

private theorem toOption_unitOf (v : Value) : (unitOf v).toOption = keptUnit? v.document := by
  cases v with
  | object ms => cases ms <;> rfl
  | _ => rfl

private theorem toOption_kindOf (v : Value) : (kindOf v).toOption = keptKind? v.document := by
  cases v with
  | text name => exact toOption_kindNamed name
  | object ms =>
    match ms with
    | [] => rfl
    | [(name, v)] =>
      rw [kindOf, toOption_bind, toOption_kindNamed, Value.document, Value.documentMembers, Value.documentMembers,
        keptKind?, ← toOption_unitOf]
      cases unitOf v <;> rfl
    | (_, _) :: (_, _) :: _ => rfl
  | _ => rfl

namespace SignArgs

/-- What a member does to the parameters, where certificate kinds have the meaning `kind`. -/
def take (kind : Document → Option CertificateKind) (name : String) (d : Draft) (v : Document) : Option Draft :=
  match name with
  | "Identity" => (fill d.identity v.text?).map fun slot => { d with identity := slot }
  | "CertificateKind" => (fill d.kind (kind v)).map fun slot => { d with kind := slot }
  | "Principals" => (fill d.principals (v.list? Document.text?)).map fun slot => { d with principals := slot }
  | "PublicKey" => (fill d.key (base64? v)).map fun slot => { d with key := slot }
  | _ => some d

def fields : List String := ["Identity", "CertificateKind", "Principals", "PublicKey"]

theorem mem_fields {name : String} : name ∈ fields ↔
    name = "Identity" ∨ name = "CertificateKind" ∨ name = "Principals" ∨ name = "PublicKey" := by
  simp [fields]

theorem take_of_not_mem {name : String} (h : name ∉ fields) (kind : Document → Option CertificateKind) (d : Draft)
    (v : Document) : take kind name d v = some d := by
  simp only [mem_fields, not_or] at h
  rw [take]
  · exact h.1
  · exact h.2.1
  · exact h.2.2.1
  · exact h.2.2.2

def ofMembers (kind : Document → Option CertificateKind) (ms : List (String × Document)) : Option SignArgs :=
  (ms.foldlM (fun d m => take kind m.1 d m.2) {}).bind fun d => d.finish.toOption

def ofItems (kind : Document → Option CertificateKind) : StateT (List Document) Option SignArgs := do
  let identity ← Document.next? Document.text?
  let kind ← Document.next? kind
  let principals ← Document.next? (Document.list? Document.text?)
  let key ← Document.next? base64?
  pure ⟨identity, kind, principals, key⟩

def meaning (kind : Document → Option CertificateKind) : Document → Option SignArgs :=
  Document.record? (ofMembers kind) (ofItems kind)

private theorem toOption_takeMember (d : Draft) (name : String) (v : Value) :
    (takeMember d name v).toOption = take keptKind? name d v.document := by
  unfold takeMember
  split
  · rw [take, ← toOption_textOf, ← toOption_onceOf "Identity"]
    cases onceOf "Identity" d.identity (textOf v) <;> rfl
  · rw [take, ← toOption_kindOf, ← toOption_onceOf "CertificateKind"]
    cases onceOf "CertificateKind" d.kind (kindOf v) <;> rfl
  · rw [take, ← toOption_principalsOf, ← toOption_onceOf "Principals"]
    cases onceOf "Principals" d.principals (principalsOf v) <;> rfl
  · rw [take, ← toOption_base64Of, ← toOption_onceOf "PublicKey"]
    cases onceOf "PublicKey" d.key (base64Of v) <;> rfl
  · next hidentity hkind hprincipals hkey =>
    have hname : name ∉ fields := by
      simp only [mem_fields, not_or]
      exact ⟨hidentity, hkind, hprincipals, hkey⟩
    rw [take_of_not_mem hname]
    rfl

private theorem takes_member : Takes readMember (take (Document.choice? CertificateKind.known)) := by
  constructor
  intro bs rest v hv name d
  unfold readMember
  split
  · exact Json.agrees_text.once hv _ _ _
  · exact agrees_kind.once hv _ _ _
  · exact (Json.agrees_list Json.agrees_text).once hv _ _ _
  · exact agrees_base64.once hv _ _ _
  · next hidentity hkind hprincipals hkey =>
    have hname : name ∉ fields := by
      simp only [mem_fields, not_or]
      exact ⟨hidentity, hkind, hprincipals, hkey⟩
    rw [take_of_not_mem hname]
    exact Json.skip_field hv d

theorem agrees_read : Agrees read (meaning (Document.choice? CertificateKind.known)) := by
  apply Json.agrees_record
  case hnamed =>
    intro bs ms rest h
    rw [Reader.result?_bind, Json.members_spells takes_member {} h, ofMembers]
    cases ms.foldlM (fun d m => take (Document.choice? CertificateKind.known) m.1 d m.2) {} with
    | none => rfl
    | some d =>
      simp only [Option.map_some, Option.bind_some]
      cases d.finish <;> rfl
  case hlisted =>
    apply (Json.lists_element Json.agrees_text 0 _).bind
    intro identity
    apply (Json.lists_element agrees_kind 1 _).bind
    intro kind
    apply (Json.lists_element (Json.agrees_list Json.agrees_text) 2 _).bind
    intro principals
    apply (Json.lists_element agrees_base64 3 _).bind
    intro key
    exact .pure _

/-- Parameters that were kept as a value mean what they mean when they are read at once, but for what stands for a
certificate kind. -/
theorem ofValue_object (ms : List (String × Value)) :
    (ofValue (.object ms)).toOption = ofMembers keptKind? (Value.documentMembers ms) := by
  have htake : (fun d (m : String × Value) => (takeMember d m.1 m.2).toOption) =
      fun d m => take keptKind? m.1 d m.2.document := by
    funext d m
    exact toOption_takeMember d m.1 m.2
  rw [ofValue, ofMembers, toOption_bind, ← foldlM_documentMembers fun d name v => take keptKind? name d v, ← htake,
    ← toOption_foldlM]

end SignArgs

/-! ## Calls -/

namespace Call

/-- The meaning of the parameters of a method, where they stand behind it. -/
def parameters? (m : Method) : Document → Option Call :=
  match m with
  | .sign => fun v => (SignArgs.meaning (Document.choice? CertificateKind.known) v).map Call.sign
  | .publicKey => fun v => v.unit?.map fun _ => Call.publicKey

theorem agrees_readParameters (m : Method) : Agrees (readParameters m) (parameters? m) := by
  cases m with
  | sign => exact SignArgs.agrees_read.map Call.sign
  | publicKey =>
    apply Agrees.of_start
    case scalar =>
      intro b bs v rest h
      cases h with
      | null rest => rfl
      | number digit read =>
        rw [if_neg (by rintro hb; rw [beq_iff_eq.mp hb] at digit; cases digit)]
        exact Reader.result?_mismatch _ _
      | _ => exact Reader.result?_mismatch _ _
    case text | torn | list | object =>
      intros
      exact Reader.result?_mismatch _ _

/-- What a member does to a call. -/
def take (depth : Nat) (name : String) (d : Draft) (v : Document) : Option Draft :=
  match name with
  | "Method" =>
    if d.hasMethod then none
    else (v.choice? Method.known).bind fun m =>
      match d with
      | .parameters p => (ofParameters p m).toOption.map .complete
      | _ => some (.method m)
  | "Params" =>
    if d.hasParameters then none
    else
      match d with
      | .method m => (parameters? m v).map .complete
      | _ => (v.value? depth).map .parameters
  | _ => some d

def fields : List String := ["Method", "Params"]

theorem mem_fields {name : String} : name ∈ fields ↔ name = "Method" ∨ name = "Params" := by
  simp [fields]

theorem take_of_not_mem {name : String} (h : name ∉ fields) (depth : Nat) (d : Draft) (v : Document) :
    take depth name d v = some d := by
  simp only [mem_fields, not_or] at h
  rw [take]
  · exact h.1
  · exact h.2

def ofMembers (depth : Nat) (ms : List (String × Document)) : Option Call :=
  (ms.foldlM (fun d m => take depth m.1 d m.2) .nothing).bind fun d => d.finish.toOption

def ofItems : StateT (List Document) Option Call := do
  let m ← Document.next? (Document.choice? Method.known)
  Document.next? (parameters? m)

def meaning (depth : Nat) : Document → Option Call := Document.record? (ofMembers depth) ofItems

private theorem takes_member (depth : Nat) : Takes (readMember depth) (take depth) := by
  constructor
  intro bs rest v hv name d
  unfold readMember
  split
  · cases d with
    | nothing =>
      refine (agrees_method.field_bind hv _).trans ?_
      simp only [take, Draft.hasMethod, Bool.false_eq_true, if_false]
      cases v.choice? Method.known <;> rfl
    | parameters p =>
      refine (agrees_method.field_bind hv _).trans ?_
      simp only [take, Draft.hasMethod, Bool.false_eq_true, if_false]
      cases v.choice? Method.known with
      | none => rfl
      | some m =>
        dsimp only [Option.bind_some]
        cases ofParameters p m <;> rfl
    | method m | complete c => rfl
  · cases d with
    | nothing => exact ((Json.agrees_read depth).map Draft.parameters).field hv
    | method m => exact ((agrees_readParameters m).map Draft.complete).field hv
    | parameters p | complete c => rfl
  · next hmethod hparams =>
    have hname : name ∉ fields := by
      simp only [mem_fields, not_or]
      exact ⟨hmethod, hparams⟩
    rw [take_of_not_mem hname]
    exact Json.skip_field hv d

theorem agrees_read (depth : Nat) : Agrees (read depth) (meaning depth) := by
  apply Json.agrees_record
  case hnamed =>
    intro bs ms rest h
    rw [Reader.result?_bind, Json.members_spells (takes_member depth) .nothing h, ofMembers]
    cases ms.foldlM (fun d m => take depth m.1 d m.2) .nothing with
    | none => rfl
    | some d =>
      simp only [Option.map_some, Option.bind_some]
      cases d.finish <;> rfl
  case hlisted =>
    apply (Json.lists_element agrees_method 0 _).bind
    intro m
    exact Json.lists_element (agrees_readParameters m) 1 _

end Call

/-! ## Requests -/

namespace Numbered

variable {α : Type}

/-- What a member does to a numbered record whose other member has the meaning `body`. -/
def take (field : String) (body : Document → Option α) (name : String) (d : Numbered α) (v : Document) :
    Option (Numbered α) :=
  if name = "Seq" then (fill d.seq (v.natural?.map Nat.toUInt64)).map fun slot => { d with seq := slot }
  else if name = field then (fill d.body (body v)).map fun slot => { d with body := slot }
  else some d

def finish (d : Numbered α) : Option (UInt64 × α) := d.seq.bind fun seq => d.body.map fun body => (seq, body)

def ofMembers (field : String) (body : Document → Option α) (ms : List (String × Document)) : Option (UInt64 × α) :=
  (ms.foldlM (fun d m => take field body m.1 d m.2) {}).bind finish

def ofItems (body : Document → Option α) : StateT (List Document) Option (UInt64 × α) := do
  let seq ← Document.next? fun v => v.natural?.map Nat.toUInt64
  let body ← Document.next? body
  pure (seq, body)

def meaning (field : String) (body : Document → Option α) : Document → Option (UInt64 × α) :=
  Document.record? (ofMembers field body) (ofItems body)

variable {value : Reader α} {body : Document → Option α}

private theorem takes_member (h : Agrees value body) (field : String) :
    Takes (readMember field value) (take field body) := by
  constructor
  intro bs rest v hv name d
  rw [readMember, take]
  split
  · exact (Json.agrees_natural.map Nat.toUInt64).once hv _ _ _
  · split
    · exact h.once hv _ _ _
    · exact Json.skip_field hv d

theorem agrees_read (h : Agrees value body) (type field : String) :
    Agrees (read type field value) (meaning field body) := by
  apply Json.agrees_record
  case hnamed =>
    intro bs ms rest hms
    rw [Reader.result?_bind, Json.members_spells (takes_member h field) {} hms, ofMembers]
    cases ms.foldlM (fun d m => take field body m.1 d m.2) {} with
    | none => rfl
    | some d =>
      obtain ⟨seq, found⟩ := d
      cases seq <;> cases found <;> rfl
  case hlisted =>
    apply (Json.lists_element (Json.agrees_natural.map Nat.toUInt64) 0 _).bind
    intro seq
    apply (Json.lists_element h 1 _).bind
    intro found
    exact .pure _

end Numbered

def Request.meaning (v : Document) : Option Request :=
  (Numbered.meaning "Call" (Call.meaning (maxDepth - 2)) v).map fun x => ⟨x.1, x.2⟩

theorem Request.agrees_read : Agrees Request.read Request.meaning :=
  (Numbered.agrees_read (Call.agrees_read _) "Request" "Call").map _

/-- Decoding depends on the document a payload says, and on nothing else. -/
theorem Request.decode_said {v : Document} {payload : Bytes} (h : v.IsSaidBy payload) :
    (Request.decode payload).toOption = Request.meaning v := Request.agrees_read.whole h

end SshAuthority.Wire
