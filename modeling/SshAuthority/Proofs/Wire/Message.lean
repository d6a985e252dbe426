import SshAuthority.Proofs.Certificate
import SshAuthority.Proofs.Json.Reading
import SshAuthority.Wire.Decoding
/-!
# Messages there and back

A message is read back from its written form as it was, whatever its texts, keys and numbers are.
-/
namespace SshAuthority.Wire

open Json (Reads Steps Stops Value bind_ok map_ok members_ok once_ok reads_record reads_text)

/-! ## Fields -/

private theorem number_lt (n : UInt64) : n.toNat < Json.Number.limit := n.toNat_lt

private theorem reads_seq (n : UInt64) :
    Reads (Nat.toUInt64 <$> Json.Reader.natural) (.number (.natural n.toNat)) n := by
  have h := (Json.reads_natural (number_lt n)).map Nat.toUInt64
  rwa [show n.toNat.toUInt64 = n from UInt64.ofNat_toNat] at h

theorem decodeBase64_encode (bs : Bytes) : decodeBase64 (Utf8.decodeLossy (Base64.encode bs)) = .ok bs := by
  rw [decodeBase64, Utf8.encode_decodeLossy (Base64.encode_ascii bs), Base64.decode_encode]

private theorem reads_base64 (bs : Bytes) : Reads readBase64 (base64 bs) bs := by
  intro rest hr
  rw [base64, readBase64, bind_ok (reads_text _ rest hr), decodeBase64_encode]
  rfl

private theorem reads_kind (k : CertificateKind) : Reads CertificateKind.read (.text k.tag) k :=
  Json.reads_plainChoice (by cases k <;> decide)

private theorem reads_method (m : Method) : Reads Method.read (.text m.name) m :=
  Json.reads_plainChoice (by cases m <;> decide)

private theorem reads_errorCode (c : ErrorCode) : Reads ErrorCode.read (.text c.name) c :=
  Json.reads_plainChoice (by cases c <;> decide)

/-! ## Requests -/

private theorem reads_signArgs (a : SignArgs) : Reads SignArgs.read a.value a := by
  have hs : Steps SignArgs.readMember {} [("Identity", .text a.identity),
      ("CertificateKind", .text a.kind.tag), ("Principals", .list (a.principals.map .text)),
      ("PublicKey", base64 a.key)] ⟨some a.identity, some a.kind, some a.principals, some a.key⟩ := by
    refine .cons (fun rest hr => bind_ok (once_ok (reads_text a.identity) _ hr)) ?_
    refine .cons (fun rest hr => bind_ok (once_ok (reads_kind a.kind) _ hr)) ?_
    refine .cons (fun rest hr => bind_ok (once_ok (Json.reads_texts a.principals) _ hr)) ?_
    exact .cons (fun rest hr => bind_ok (once_ok (reads_base64 a.key) _ hr)) (.nil _)
  exact reads_record (fun rest => bind_ok (members_ok hs rest)) _

private theorem reads_call (c : Call) (depth : Nat) : Reads (Call.read depth) c.value c := by
  cases c with
  | publicKey =>
    have hs : Steps (Call.readMember depth) .nothing [("Method", .text Method.publicKey.name)]
        (.method .publicKey) := by
      refine .cons (fun rest hr => ?_) (.nil _)
      exact (bind_ok (Json.colon_cons _)).trans (bind_ok (reads_method .publicKey _ hr))
    exact reads_record (fun rest => bind_ok (members_ok hs rest)) _
  | sign args =>
    have hs : Steps (Call.readMember depth) .nothing
        [("Method", .text Method.sign.name), ("Params", args.value)] (.complete (.sign args)) := by
      refine .cons (t := .method .sign) (fun rest hr => ?_) (.cons (fun rest hr => ?_) (.nil _))
      · exact (bind_ok (Json.colon_cons _)).trans (bind_ok (reads_method .sign _ hr))
      · exact (bind_ok (Json.colon_cons _)).trans (map_ok (map_ok (reads_signArgs args _ hr)))
    exact reads_record (fun rest => bind_ok (members_ok hs rest)) _

private theorem reads_numbered {α : Type} {field : String} (hf : field ≠ "Seq") {value : Json.Reader α}
    {v : Value} {a : α} (h : Reads value v a) (seq : UInt64) (type : String) :
    Reads (Numbered.read type field value)
      (.object [("Seq", .number (.natural seq.toNat)), (field, v)]) (seq, a) := by
  have hs : Steps (Numbered.readMember field value) {} [("Seq", .number (.natural seq.toNat)), (field, v)]
      ⟨some seq, some a⟩ := by
    refine .cons (t := ⟨some seq, none⟩) (fun rest hr => ?_) (.cons (fun rest hr => ?_) (.nil _))
    · rw [Numbered.readMember, if_pos rfl]
      exact bind_ok (once_ok (reads_seq seq) _ hr)
    · rw [Numbered.readMember, if_neg hf, if_pos rfl]
      exact bind_ok (once_ok h _ hr)
  exact reads_record (fun rest => (bind_ok (members_ok hs rest)).trans rfl) _

private theorem reads_request (r : Request) : Reads Request.read r.value r := by
  have h := reads_numbered (show "Call" ≠ "Seq" by decide) (reads_call r.call (maxDepth - 2)) r.seq "Request"
  exact h.map _

theorem Request.decode_encode (r : Request) : Request.decode r.encode = .ok r :=
  Json.whole_of_reads (reads_request r)

/-! ## Responses -/

private theorem reads_only (expected field : String) (bs : Bytes) :
    Reads (readOnly expected field) (.object [(field, base64 bs)]) bs := by
  refine reads_record (fun rest => ?_) _
  refine (bind_ok (members_ok (t := some bs) (.cons (fun rest hr => ?_) (.nil _)) rest)).trans rfl
  rw [if_pos rfl]
  exact once_ok (reads_base64 bs) _ hr

private theorem reads_reply (r : Reply) : Reads Reply.read r.value r := by
  cases r with
  | publicKey key =>
    exact Json.reads_choice (Json.variant_ok (x := Method.publicKey) (by decide) _)
      ((reads_only _ _ key).map Reply.publicKey)
  | signed certificate =>
    exact Json.reads_choice (Json.variant_ok (x := Method.sign) (by decide) _)
      ((reads_only _ _ certificate).map Reply.signed)

private theorem reads_failure (f : Failure) : Reads Failure.read f.value f := by
  refine reads_record (fun rest => ?_) _
  refine (bind_ok (members_ok (t := (some f.code, some f.message)) ?_ rest)).trans rfl
  refine .cons (t := (some f.code, none)) (fun rest hr => ?_) (.cons (fun rest hr => ?_) (.nil _))
  · exact bind_ok (once_ok (reads_errorCode f.code) _ hr)
  · exact bind_ok (once_ok (reads_text f.message) _ hr)

private theorem reads_result (r : Result) : Reads Result.read r.value r := by
  cases r with
  | ok reply =>
    exact Json.reads_choice (Json.variant_ok (x := true) (by decide) _) ((reads_reply reply).map Result.ok)
  | err failure =>
    exact Json.reads_choice (Json.variant_ok (x := false) (by decide) _)
      ((reads_failure failure).map Result.err)

private theorem reads_response (r : Response) : Reads Response.read r.value r := by
  have h := reads_numbered (show "Result" ≠ "Seq" by decide) (reads_result r.result) r.seq "Response"
  exact h.map _

theorem Response.decode_encode (r : Response) : Response.decode r.encode = .ok r :=
  Json.whole_of_reads (reads_response r)

/-! ## Requests for a signature -/

theorem SignArgs.request_ofRequest (r : SignRequest) : (SignArgs.ofRequest r).request = .ok r := by
  rw [SignArgs.request, SignArgs.ofRequest, PublicKey.parse_bytes]
  rfl

theorem SignArgs.eq_ofRequest {a : SignArgs} {r : SignRequest} (h : a.request = .ok r) : a = .ofRequest r := by
  rw [SignArgs.request] at h
  rcases hp : PublicKey.parse a.key with fault | key
  · rw [hp] at h
    cases h
  · rw [hp] at h
    obtain rfl := Except.ok.inj h
    simp only [SignArgs.ofRequest, PublicKey.bytes_of_parse hp]

end SshAuthority.Wire
