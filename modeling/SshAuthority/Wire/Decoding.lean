import SshAuthority.Wire.Encoding
/-!
# Reading messages

Members may stand in any order and unknown ones are passed over; a known member may stand once. When
the parameters of a call come before its method they are kept as a value and read from that.
-/
namespace SshAuthority

open Json (Value Mismatch Reader)
open Json.Reader (element members once record required skip variant)

def CertificateKind.known : List (String × CertificateKind) :=
  [CertificateKind.host, .user].map fun kind => (kind.tag, kind)

def CertificateKind.read : Reader CertificateKind := Json.Reader.plainChoice CertificateKind.known

/-- The fields of a record as they are found. -/
structure Wire.SignArgs.Draft where
  identity : Option String := none
  kind : Option CertificateKind := none
  principals : Option (List String) := none
  key : Option Bytes := none

namespace Wire

def decodeBase64 (s : String) : Except Mismatch Bytes :=
  match Base64.decode (Utf8.encode s) with
  | .ok bs => .ok bs
  | .error e => .error (.badBase64 e)

def readBase64 : Reader Bytes := do
  match decodeBase64 (← Json.Reader.text) with
  | .ok bs => pure bs
  | .error m => Json.refuse (.mismatch m)

namespace SignArgs

def Draft.finish (d : Draft) : Except Mismatch SignArgs :=
  match d.identity, d.kind, d.principals, d.key with
  | none, _, _, _ => .error (.missing "Identity")
  | _, none, _, _ => .error (.missing "CertificateKind")
  | _, _, none, _ => .error (.missing "Principals")
  | _, _, _, none => .error (.missing "PublicKey")
  | some identity, some kind, some principals, some key => .ok ⟨identity, kind, principals, key⟩

def readMember (name : String) (d : Draft) : Reader Draft := do
  match name with
  | "Identity" => return { d with identity := ← once name d.identity Json.Reader.text }
  | "CertificateKind" => return { d with kind := ← once name d.kind CertificateKind.read }
  | "Principals" =>
    return { d with principals := ← once name d.principals (Json.Reader.list Json.Reader.text) }
  | "PublicKey" => return { d with key := ← once name d.key readBase64 }
  | _ =>
    Json.Reader.colon
    skip
    return d

def read : Reader SignArgs :=
  record "struct SignArgs"
    (do
      match (← members readMember {}).finish with
      | .ok args => pure args
      | .error m => Json.refuse (.mismatch m))
    (do
      let expected := "struct SignArgs with 4 elements"
      let identity ← element 0 expected Json.Reader.text
      let kind ← element 1 expected CertificateKind.read
      let principals ← element 2 expected (Json.Reader.list Json.Reader.text)
      let key ← element 3 expected readBase64
      pure ⟨identity, kind, principals, key⟩)

end SignArgs

/-! ## Parameters kept as a value -/

def textOf : Value → Except Mismatch String
  | .text s => .ok s
  | v => .error (.wrongType v.found "a string")

def unitOf : Value → Except Mismatch Unit
  | .null => .ok ()
  | .object [] => .ok ()
  | v => .error (.wrongType v.found "unit")

def kindNamed (name : String) : Except Mismatch CertificateKind :=
  match CertificateKind.known.lookup name with
  | some kind => .ok kind
  | none => .error (.unknownVariant name (CertificateKind.known.map Prod.fst))

def kindOf : Value → Except Mismatch CertificateKind
  | .text name => kindNamed name
  | .object [(name, v)] => do
    let kind ← kindNamed name
    unitOf v
    return kind
  | .object _ => .error (.wrongValue .object "map with a single key")
  | v => .error (.wrongType v.found "string or map")

def principalsOf : Value → Except Mismatch (List String)
  | .list items => items.mapM textOf
  | v => .error (.wrongType v.found "a sequence")

def base64Of (v : Value) : Except Mismatch Bytes := textOf v >>= decodeBase64

def onceOf {α : Type} (field : String) (slot : Option α) (value : Except Mismatch α) :
    Except Mismatch (Option α) :=
  if slot.isSome then .error (.duplicate field) else some <$> value

namespace SignArgs

def takeMember (d : Draft) (name : String) (v : Value) : Except Mismatch Draft := do
  match name with
  | "Identity" => return { d with identity := ← onceOf name d.identity (textOf v) }
  | "CertificateKind" => return { d with kind := ← onceOf name d.kind (kindOf v) }
  | "Principals" => return { d with principals := ← onceOf name d.principals (principalsOf v) }
  | "PublicKey" => return { d with key := ← onceOf name d.key (base64Of v) }
  | _ => return d

def itemOf {α : Type} (items : List Value) (index : Nat) (f : Value → Except Mismatch α) :
    Except Mismatch α :=
  match items[index]? with
  | some v => f v
  | none => .error (.wrongLength index "struct SignArgs with 4 elements")

def ofValue : Value → Except Mismatch SignArgs
  | .object members => do
    let draft ← members.foldlM (fun d (name, v) => takeMember d name v) {}
    draft.finish
  | .list items => do
    let identity ← itemOf items 0 textOf
    let kind ← itemOf items 1 kindOf
    let principals ← itemOf items 2 principalsOf
    let key ← itemOf items 3 base64Of
    if items.length ≤ 4 then return ⟨identity, kind, principals, key⟩
    else throw (.wrongLength items.length "4 elements in sequence")
  | v => .error (.wrongType v.found "struct SignArgs")

end SignArgs

namespace Method

def known : List (String × Method) := [Method.publicKey, .sign].map fun m => (m.name, m)

def read : Reader Method := Json.Reader.plainChoice known

end Method

def noParameters : String := "unit variant Call::GetCaPublicKey"

/-- The call of a method whose parameters follow. -/
def Call.readParameters : Method → Reader Call
  | .sign => .sign <$> SignArgs.read
  | .publicKey => do
    if (← Json.Reader.start) == 110 then
      Json.Reader.advance
      Json.Reader.word [117, 108, 108]
      pure .publicKey
    else Json.Reader.mismatch noParameters

def Call.ofParameters (v : Value) : Method → Except Mismatch Call
  | .sign => .sign <$> SignArgs.ofValue v
  | .publicKey =>
    match v with
    | .null => .ok .publicKey
    | v => .error (.wrongType v.found noParameters)

/-- How much of a call has been found. -/
inductive Call.Draft where
  | nothing
  | method (m : Method)
  | parameters (v : Value)
  | complete (c : Call)

namespace Call

def Draft.hasMethod : Draft → Bool
  | .method _ | .complete _ => true
  | _ => false

def Draft.hasParameters : Draft → Bool
  | .parameters _ | .complete _ => true
  | _ => false

def readMember (depth : Nat) (name : String) (d : Draft) : Reader Draft := do
  match name with
  | "Method" =>
    if d.hasMethod then Json.refuse (.mismatch (.duplicate name))
    else
      Json.Reader.colon
      let m ← Method.read
      match d with
      | .parameters v =>
        match ofParameters v m with
        | .ok c => pure (.complete c)
        | .error e => Json.refuse (.mismatch e)
      | _ => pure (.method m)
  | "Params" =>
    if d.hasParameters then Json.refuse (.mismatch (.duplicate name))
    else
      Json.Reader.colon
      match d with
      | .method m => .complete <$> readParameters m
      | _ => .parameters <$> Value.read depth
  | _ =>
    Json.Reader.colon
    skip
    pure d

def Draft.finish : Draft → Except Mismatch Call
  | .complete c => .ok c
  | .method .publicKey => .ok .publicKey
  | .method .sign => .error (.missing "Params")
  | _ => .error (.missing "Method")

/-- Reads a call whose parameters may be `depth` containers deep. -/
def read (depth : Nat) : Reader Call :=
  let expected := "adjacently tagged enum Call"
  record expected
    (do
      match (← members (readMember depth) .nothing).finish with
      | .ok c => pure c
      | .error m => Json.refuse (.mismatch m))
    (do
      let m ← element 0 expected Method.read
      element 1 expected (readParameters m))

end Call

/-- How many containers of a message may be open at once. -/
def maxDepth : Nat := 127

/-- A sequence number and one more member. -/
structure Numbered (α : Type) where
  seq : Option UInt64 := none
  body : Option α := none

namespace Numbered

variable {α : Type}

def readMember (field : String) (value : Reader α) (name : String) (d : Numbered α) :
    Reader (Numbered α) := do
  if name = "Seq" then return { d with seq := ← once name d.seq (Nat.toUInt64 <$> Json.Reader.natural) }
  else if name = field then return { d with body := ← once name d.body value }
  else
    Json.Reader.colon
    skip
    return d

def read (type field : String) (value : Reader α) : Reader (UInt64 × α) :=
  record ("struct " ++ type)
    (do
      let d ← members (readMember field value) {}
      let seq ← required "Seq" d.seq
      let body ← required field d.body
      pure (seq, body))
    (do
      let expected := "struct " ++ type ++ " with 2 elements"
      let seq ← element 0 expected (Nat.toUInt64 <$> Json.Reader.natural)
      let body ← element 1 expected value
      pure (seq, body))

end Numbered

def Request.read : Reader Request :=
  (fun (seq, call) => ⟨seq, call⟩) <$> Numbered.read "Request" "Call" (Call.read (maxDepth - 2))

def Request.decode (payload : Bytes) : Except Json.Fault Request := Json.Reader.whole Request.read payload

/-! ## Responses -/

/-- A record of one base64 member. -/
def readOnly (expected field : String) : Reader Bytes :=
  record expected
    (do
      let found ← members (fun name slot => do
        if name = field then once name slot readBase64
        else
          Json.Reader.colon
          skip
          return slot) none
      required field found)
    (element 0 (expected ++ " with 1 element") readBase64)

def bareOnly {α : Type} (expected : String) : Reader α :=
  Json.refuse (.mismatch (.wrongType .bareVariant expected))

def Reply.read : Reader Reply :=
  Json.Reader.choice
    (variant "variant identifier" [("PublicKey", Method.publicKey), ("Signed", Method.sign)])
    (fun _ => bareOnly "struct variant")
    (fun
      | .publicKey => .publicKey <$> readOnly "struct variant Reply::PublicKey" "CAPublicKey"
      | .sign => .signed <$> readOnly "struct variant Reply::Signed" "Certificate")

def ErrorCode.read : Reader ErrorCode :=
  Json.Reader.plainChoice (ErrorCode.all.map fun c => (c.name, c))

def Failure.read : Reader Failure :=
  record "struct RpcError"
    (do
      let (code, message) ← members (fun name (slots : Option ErrorCode × Option String) => do
        match name with
        | "Code" => return (← once name slots.1 ErrorCode.read, slots.2)
        | "Message" => return (slots.1, ← once name slots.2 Json.Reader.text)
        | _ =>
          Json.Reader.colon
          skip
          return slots) (none, none)
      let code ← required "Code" code
      let message ← required "Message" message
      pure ⟨code, message⟩)
    (do
      let expected := "struct RpcError with 2 elements"
      let code ← element 0 expected ErrorCode.read
      let message ← element 1 expected Json.Reader.text
      pure ⟨code, message⟩)

def Result.read : Reader Result :=
  Json.Reader.choice
    (variant "`Ok` or `Err`" [("Ok", true), ("Err", false)])
    (fun _ => bareOnly "newtype variant")
    (fun good => if good then .ok <$> Reply.read else .err <$> Failure.read)

def Response.read : Reader Response :=
  (fun (seq, result) => ⟨seq, result⟩) <$> Numbered.read "Response" "Result" Result.read

def Response.decode (payload : Bytes) : Except Json.Fault Response :=
  Json.Reader.whole Response.read payload

end Wire

end SshAuthority
