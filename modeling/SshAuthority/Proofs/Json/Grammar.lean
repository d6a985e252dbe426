import SshAuthority.Proofs.Json.Reading
/-!
# What a payload says

The grammar of payloads: which document stands at the front of a text, whatever blanks are between its parts and
however its texts are spelled. A number is what the reader of numbers makes of it.
-/
namespace SshAuthority.Json

/-- What a payload can say. A text is `torn` if half of a surrogate pair is escaped in it, so that it spells no
Unicode text; it can be passed over but not be read. -/
inductive Document where
  | null
  | boolean (b : Bool)
  | number (n : Number)
  | text (s : String)
  | torn
  | list (items : List Document)
  | object (members : List (String × Document))

/-- Behind an opening quote: what is left behind the closing quote. -/
inductive Token : Bytes → Bytes → Prop where
  | close (rest : Bytes) : Token (34 :: rest) rest
  | plain {b : UInt8} {bs rest : Bytes} (quote : b ≠ 34) (escape : b ≠ 92) (control : ¬ b < 32)
    (more : Token bs rest) : Token (b :: bs) rest
  | letter {b x : UInt8} {bs rest : Bytes} (letter : Reader.escaped? b = some x) (more : Token bs rest) :
    Token (92 :: b :: bs) rest
  | unit {a b c d : UInt8} {n : Nat} {bs rest : Bytes} (digits : Reader.hexUnit? a b c d = some n)
    (more : Token bs rest) : Token (92 :: 117 :: a :: b :: c :: d :: bs) rest

/-- Behind an opening quote: the bytes that are spelled, and what is left behind the closing quote. -/
inductive Quoted : Bytes → Bytes → Bytes → Prop where
  | close (rest : Bytes) : Quoted (34 :: rest) [] rest
  | plain {b : UInt8} {bs text rest : Bytes} (quote : b ≠ 34) (escape : b ≠ 92) (control : ¬ b < 32)
    (more : Quoted bs text rest) : Quoted (b :: bs) (b :: text) rest
  | letter {b x : UInt8} {bs text rest : Bytes} (letter : Reader.escaped? b = some x)
    (more : Quoted bs text rest) : Quoted (92 :: b :: bs) (x :: text) rest
  | unit {a b c d : UInt8} {n : Nat} {bs text rest : Bytes} (digits : Reader.hexUnit? a b c d = some n)
    (low : Reader.isLow n = false) (high : Reader.isHigh n = false) (more : Quoted bs text rest) :
    Quoted (92 :: 117 :: a :: b :: c :: d :: bs) (String.utf8EncodeChar (Char.ofNat n) ++ text) rest
  | pair {a b c d e f g h : UInt8} {n m : Nat} {bs text rest : Bytes}
    (first : Reader.hexUnit? a b c d = some n) (high : Reader.isHigh n = true)
    (second : Reader.hexUnit? e f g h = some m) (low : Reader.isLow m = true) (more : Quoted bs text rest) :
    Quoted (92 :: 117 :: a :: b :: c :: d :: 92 :: 117 :: e :: f :: g :: h :: bs)
      (String.utf8EncodeChar (Char.ofNat (0x10000 + (n - 0xD800) * 0x400 + (m - 0xDC00))) ++ text) rest

/-- A document that is neither a text nor a container, given by its first byte and the bytes behind it. -/
inductive Scalar : UInt8 → Bytes → Document → Bytes → Prop where
  | null (rest : Bytes) : Scalar 110 (117 :: 108 :: 108 :: rest) .null rest
  | yes (rest : Bytes) : Scalar 116 (114 :: 117 :: 101 :: rest) (.boolean true) rest
  | no (rest : Bytes) : Scalar 102 (97 :: 108 :: 115 :: 101 :: rest) (.boolean false) rest
  | number {b : UInt8} {bs rest : Bytes} {n : Number} (digit : isDigit b = true)
    (read : Number.read false (b :: bs) = .ok (n, rest)) : Scalar b bs (.number n) rest
  | negative {bs rest : Bytes} {n : Number} (read : Number.read true bs = .ok (n, rest)) :
    Scalar 45 bs (.number n) rest

/-- What can stand at the front of a text. Of a list or an object that has been opened there are the entries that
are left; it is `first` while none has been read. A `field` is a member behind its name. -/
inductive Part where
  | value (v : Document)
  | items (first : Bool) (vs : List Document)
  | field (v : Document)
  | member (name : String) (v : Document)
  | members (first : Bool) (ms : List (String × Document))

/-- A part stands at the front of a text, with the rest behind it. -/
inductive Spells : Bytes → Part → Bytes → Prop where
  | blank {b : UInt8} {bs rest : Bytes} {p : Part} (blank : Reader.isBlank b = true) (more : Spells bs p rest) :
    Spells (b :: bs) p rest
  | scalar {b : UInt8} {bs rest : Bytes} {v : Document} (scalar : Scalar b bs v rest) : Spells (b :: bs) (.value v) rest
  | text {bs rest : Bytes} {s : String} (text : Quoted bs (Utf8.encode s) rest) :
    Spells (34 :: bs) (.value (.text s)) rest
  | torn {bs rest : Bytes} (token : Token bs rest) (torn : ∀ text, ¬ Quoted bs text rest) :
    Spells (34 :: bs) (.value .torn) rest
  | list {bs rest : Bytes} {vs : List Document} (items : Spells bs (.items true vs) rest) :
    Spells (91 :: bs) (.value (.list vs)) rest
  | object {bs rest : Bytes} {ms : List (String × Document)} (members : Spells bs (.members true ms) rest) :
    Spells (123 :: bs) (.value (.object ms)) rest
  | itemsEnd (first : Bool) (rest : Bytes) : Spells (93 :: rest) (.items first []) rest
  | firstItem {bs mid rest : Bytes} {v : Document} {vs : List Document} (item : Spells bs (.value v) mid)
    (more : Spells mid (.items false vs) rest) : Spells bs (.items true (v :: vs)) rest
  | laterItem {bs mid rest : Bytes} {v : Document} {vs : List Document} (item : Spells bs (.value v) mid)
    (more : Spells mid (.items false vs) rest) : Spells (44 :: bs) (.items false (v :: vs)) rest
  | field {bs rest : Bytes} {v : Document} (value : Spells bs (.value v) rest) : Spells (58 :: bs) (.field v) rest
  | member {bs mid rest : Bytes} {name : String} {v : Document} (text : Quoted bs (Utf8.encode name) mid)
    (field : Spells mid (.field v) rest) : Spells (34 :: bs) (.member name v) rest
  | membersEnd (first : Bool) (rest : Bytes) : Spells (125 :: rest) (.members first []) rest
  | firstMember {bs mid rest : Bytes} {name : String} {v : Document} {ms : List (String × Document)}
    (member : Spells bs (.member name v) mid) (more : Spells mid (.members false ms) rest) :
    Spells bs (.members true ((name, v) :: ms)) rest
  | laterMember {bs mid rest : Bytes} {name : String} {v : Document} {ms : List (String × Document)}
    (member : Spells bs (.member name v) mid) (more : Spells mid (.members false ms) rest) :
    Spells (44 :: bs) (.members false ((name, v) :: ms)) rest

def Document.IsSaidBy (v : Document) (payload : Bytes) : Prop :=
  ∃ rest, Spells payload (.value v) rest ∧ rest.all Reader.isBlank = true

/-! ## First bytes -/

theorem Scalar.front {b : UInt8} {bs rest : Bytes} {v : Document} (h : Scalar b bs v rest) :
    Reader.isBlank b = false ∧ b ∉ [34, 91, 93, 123, 125] := by
  cases h with
  | number digit read =>
    constructor
    · exact (not_blank_of_isDigit digit).1
    · intro hb
      simp only [List.mem_cons, List.not_mem_nil, or_false] at hb
      rcases hb with rfl | rfl | rfl | rfl | rfl <;> cases digit
  | _ => decide

/-- Whether a part begins with a first byte of its own, which closes no container. -/
def Part.isEntry : Part → Bool
  | .value _ | .member .. => true
  | .items .. | .field _ | .members .. => false

theorem Spells.front {bs rest : Bytes} {p : Part} (h : Spells bs p rest) (hp : p.isEntry = true) :
    ∃ blanks b tail, bs = blanks ++ b :: tail ∧ (∀ c ∈ blanks, Reader.isBlank c = true) ∧
      Reader.isBlank b = false ∧ b ≠ 93 ∧ b ≠ 125 ∧ Spells (b :: tail) p rest := by
  induction h with
  | @blank b bs rest p hb more ih =>
    obtain ⟨blanks, c, tail, rfl, hblanks, hc⟩ := ih hp
    exact ⟨b :: blanks, c, tail, rfl, List.forall_mem_cons.mpr ⟨hb, hblanks⟩, hc⟩
  | @scalar b bs rest v h =>
    obtain ⟨hb, hmem⟩ := h.front
    simp only [List.mem_cons, List.not_mem_nil, or_false, not_or] at hmem
    exact ⟨[], b, bs, rfl, by simp, hb, hmem.2.2.1, hmem.2.2.2.2, .scalar h⟩
  | text h => exact ⟨[], _, _, rfl, by simp, rfl, by decide, by decide, .text h⟩
  | torn token torn => exact ⟨[], _, _, rfl, by simp, rfl, by decide, by decide, .torn token torn⟩
  | list h => exact ⟨[], _, _, rfl, by simp, rfl, by decide, by decide, .list h⟩
  | object h => exact ⟨[], _, _, rfl, by simp, rfl, by decide, by decide, .object h⟩
  | member text field => exact ⟨[], _, _, rfl, by simp, rfl, by decide, by decide, .member text field⟩
  | _ => cases hp

namespace Spells

variable {bs rest : Bytes}

theorem field_front {v : Document} (h : Spells bs (.field v) rest) : ∃ blanks mid, bs = blanks ++ 58 :: mid ∧
    (∀ c ∈ blanks, Reader.isBlank c = true) ∧ Spells mid (.value v) rest := by
  generalize hp : Part.field v = p at h
  induction h with
  | @blank b bs rest p hb more ih =>
    obtain ⟨blanks, mid, rfl, hblanks, hmid⟩ := ih hp
    exact ⟨b :: blanks, mid, rfl, List.forall_mem_cons.mpr ⟨hb, hblanks⟩, hmid⟩
  | field value =>
    cases hp
    exact ⟨[], _, rfl, by simp, value⟩
  | _ => cases hp

theorem member_front {name : String} {v : Document} (h : Spells bs (.member name v) rest) : ∃ blanks tail mid,
    bs = blanks ++ 34 :: tail ∧ (∀ c ∈ blanks, Reader.isBlank c = true) ∧ Quoted tail (Utf8.encode name) mid ∧
      Spells mid (.field v) rest := by
  obtain ⟨blanks, b, tail, rfl, hblanks, hb, -, -, hmember⟩ := h.front rfl
  cases hmember with
  | blank hblank => exact absurd (hb.symm.trans hblank) (by decide)
  | member text field => exact ⟨blanks, tail, _, rfl, hblanks, text, field⟩

theorem items_front {first : Bool} {vs : List Document} (h : Spells bs (.items first vs) rest) :
    ∃ blanks tail, bs = blanks ++ tail ∧ (∀ c ∈ blanks, Reader.isBlank c = true) ∧
      ((vs = [] ∧ tail = 93 :: rest) ∨ ∃ v more item mid, vs = v :: more ∧
        tail = (if first then item else 44 :: item) ∧ Spells item (.value v) mid ∧
        Spells mid (.items false more) rest) := by
  generalize hp : Part.items first vs = p at h
  induction h with
  | @blank b bs rest p hb more ih =>
    obtain ⟨blanks, tail, rfl, hblanks, htail⟩ := ih hp
    exact ⟨b :: blanks, tail, rfl, List.forall_mem_cons.mpr ⟨hb, hblanks⟩, htail⟩
  | itemsEnd =>
    cases hp
    exact ⟨[], _, rfl, by simp, .inl ⟨rfl, rfl⟩⟩
  | firstItem item more =>
    cases hp
    exact ⟨[], _, rfl, by simp, .inr ⟨_, _, _, _, rfl, rfl, item, more⟩⟩
  | laterItem item more =>
    cases hp
    exact ⟨[], _, rfl, by simp, .inr ⟨_, _, _, _, rfl, rfl, item, more⟩⟩
  | _ => cases hp

theorem members_front {first : Bool} {ms : List (String × Document)} (h : Spells bs (.members first ms) rest) :
    ∃ blanks tail, bs = blanks ++ tail ∧ (∀ c ∈ blanks, Reader.isBlank c = true) ∧
      ((ms = [] ∧ tail = 125 :: rest) ∨ ∃ name v more member mid, ms = (name, v) :: more ∧
        tail = (if first then member else 44 :: member) ∧ Spells member (.member name v) mid ∧
        Spells mid (.members false more) rest) := by
  generalize hp : Part.members first ms = p at h
  induction h with
  | @blank b bs rest p hb more ih =>
    obtain ⟨blanks, tail, rfl, hblanks, htail⟩ := ih hp
    exact ⟨b :: blanks, tail, rfl, List.forall_mem_cons.mpr ⟨hb, hblanks⟩, htail⟩
  | membersEnd =>
    cases hp
    exact ⟨[], _, rfl, by simp, .inl ⟨rfl, rfl⟩⟩
  | firstMember member more =>
    cases hp
    exact ⟨[], _, rfl, by simp, .inr ⟨_, _, _, _, _, rfl, rfl, member, more⟩⟩
  | laterMember member more =>
    cases hp
    exact ⟨[], _, rfl, by simp, .inr ⟨_, _, _, _, _, rfl, rfl, member, more⟩⟩
  | _ => cases hp

end Spells

/-! ## Written values -/

private theorem quoted_escape (b : UInt8) {bs text rest : Bytes} (h : Quoted bs text rest) :
    Quoted (Value.escape b ++ bs) (b :: text) rest := by
  by_cases hq : b = 34
  · subst hq
    exact .letter rfl h
  by_cases hs : b = 92
  · subst hs
    exact .letter rfl h
  by_cases h8 : b = 8
  · subst h8
    exact .letter rfl h
  by_cases h12 : b = 12
  · subst h12
    exact .letter rfl h
  by_cases h10 : b = 10
  · subst h10
    exact .letter rfl h
  by_cases h13 : b = 13
  · subst h13
    exact .letter rfl h
  by_cases h9 : b = 9
  · subst h9
    exact .letter rfl h
  by_cases hc : b < 32
  · have hb : b.toNat < 32 := UInt8.lt_iff_toNat_lt.mp hc
    have hl : Reader.isLow b.toNat = false := by simp [Reader.isLow]; omega
    have hh : Reader.isHigh b.toNat = false := by simp [Reader.isHigh]; omega
    have hu := Quoted.unit (hexUnit?_hexDigit hb) hl hh h
    rw [Utf8.utf8EncodeChar_ofNat (by omega), UInt8.ofNat_toNat] at hu
    simp only [Value.escape, beq_iff_eq, Bool.or_eq_true, hq, hs, h8, h12, h10, h13, h9, hc, or_self,
      if_false, if_true]
    exact hu
  · simp only [Value.escape, beq_iff_eq, Bool.or_eq_true, hq, hs, h8, h12, h10, h13, h9, hc, or_self, if_false]
    exact .plain hq hs hc h

theorem quoted_written (text rest : Bytes) : Quoted (text.flatMap Value.escape ++ 34 :: rest) text rest := by
  induction text with
  | nil => exact .close rest
  | cons b text ih =>
    rw [List.flatMap_cons, List.append_assoc]
    exact quoted_escape b ih

namespace Document

mutual
/-- A text that says a document, as values are written; a torn text is written with half of a surrogate pair. -/
def write : Document → Bytes
  | .null => Value.null.write
  | .boolean b => (Value.boolean b).write
  | .number n => (Value.number n).write
  | .text s => (Value.text s).write
  | .torn => [34, 92, 117, 100, 56, 48, 48, 34]
  | .list ds => 91 :: writeItems true ds
  | .object ms => 123 :: writeMembers true ms

def writeItems : Bool → List Document → Bytes
  | _, [] => [93]
  | first, d :: ds => (if first then [] else [44]) ++ d.write ++ writeItems false ds

def writeMembers : Bool → List (String × Document) → Bytes
  | _, [] => [125]
  | first, (name, d) :: ms =>
    (if first then [] else [44]) ++ Value.quote name ++ 58 :: d.write ++ writeMembers false ms
end

mutual
/-- Whether every number in a document is a whole one of 64 bits. -/
def isWhole : Document → Bool
  | .null | .boolean _ | .text _ | .torn => true
  | .number (.natural n) => n < Number.limit
  | .number _ => false
  | .list ds => areWhole ds
  | .object ms => areWholeMembers ms

def areWhole : List Document → Bool
  | [] => true
  | d :: ds => d.isWhole && areWhole ds

def areWholeMembers : List (String × Document) → Bool
  | [] => true
  | (_, d) :: ms => d.isWhole && areWholeMembers ms
end

private theorem stops_writeItems (ds : List Document) (rest : Bytes) : Stops (writeItems false ds ++ rest) := by
  cases ds with
  | nil => exact stops_cons (by decide) rest
  | cons d ds => exact stops_cons (by decide) _

private theorem stops_writeMembers (ms : List (String × Document)) (rest : Bytes) :
    Stops (writeMembers false ms ++ rest) := by
  cases ms with
  | nil => exact stops_cons (by decide) rest
  | cons m ms => exact stops_cons (by decide) _

private theorem spells_torn (rest : Bytes) : Spells (torn.write ++ rest) (.value .torn) rest := by
  have token : Token ([92, 117, 100, 56, 48, 48, 34] ++ rest) rest := .unit rfl (.close rest)
  apply Spells.torn token
  intro text h
  cases h with
  | plain _ escape _ _ => exact escape rfl
  | letter letter _ => cases letter
  | unit digits _ high _ => cases digits; cases high

private theorem quote_append (name : String) (rest : Bytes) :
    Value.quote name ++ rest = 34 :: ((Utf8.encode name).flatMap Value.escape ++ 34 :: rest) := by
  simp [Value.quote]

mutual
/-- A written document is spelled by its text. -/
theorem spells_write : ∀ (d : Document), d.isWhole = true → ∀ rest, Stops rest →
    Spells (d.write ++ rest) (.value d) rest
  | .null, _, rest, _ => .scalar (.null rest)
  | .boolean true, _, rest, _ => .scalar (.yes rest)
  | .boolean false, _, rest, _ => .scalar (.no rest)
  | .number (.natural n), h, rest, hr => by
    have hn := number_toString (of_decide_eq_true h) hr
    obtain ⟨b, more, hb, hd⟩ := toString_cons n
    rw [write, Value.write, Value.writeNumber]
    rw [hb] at hn ⊢
    exact .scalar (.number hd hn)
  | .text s, _, rest, _ => by
    rw [write, write_text]
    exact .text (quoted_written _ _)
  | .torn, _, rest, _ => spells_torn rest
  | .list ds, h, rest, _ => .list (spells_writeItems true ds h rest)
  | .object ms, h, rest, _ => .object (spells_writeMembers true ms h rest)

private theorem spells_writeItems : ∀ (first : Bool) (ds : List Document), areWhole ds = true → ∀ rest,
    Spells (writeItems first ds ++ rest) (.items first ds) rest
  | first, [], _, rest => .itemsEnd first rest
  | first, d :: ds, h, rest => by
    obtain ⟨hd, hds⟩ := Bool.and_eq_true_iff.mp h
    have hitem := spells_write d hd _ (stops_writeItems ds rest)
    have hmore := spells_writeItems false ds hds rest
    rw [writeItems, List.append_assoc, List.append_assoc]
    cases first with
    | true => exact .firstItem hitem hmore
    | false => exact .laterItem hitem hmore

private theorem spells_writeMembers : ∀ (first : Bool) (ms : List (String × Document)), areWholeMembers ms = true →
    ∀ rest, Spells (writeMembers first ms ++ rest) (.members first ms) rest
  | first, [], _, rest => .membersEnd first rest
  | first, (name, d) :: ms, h, rest => by
    obtain ⟨hd, hms⟩ := Bool.and_eq_true_iff.mp h
    have hvalue := spells_write d hd _ (stops_writeMembers ms rest)
    have hmember := Spells.member (quoted_written (Utf8.encode name) _) (.field hvalue)
    have hmore := spells_writeMembers false ms hms rest
    rw [writeMembers, List.append_assoc, List.append_assoc, List.append_assoc, quote_append]
    cases first with
    | true => exact .firstMember hmember hmore
    | false => exact .laterMember hmember hmore
end

theorem isSaidBy_write {d : Document} (h : d.isWhole = true) : d.IsSaidBy d.write := by
  have hspells := spells_write d h [] stops_nil
  rw [List.append_nil] at hspells
  exact ⟨[], hspells, rfl⟩

end Document

/-! ### Documents of values -/

mutual
def Value.document : Value → Document
  | .null => .null
  | .boolean b => .boolean b
  | .number n => .number n
  | .text s => .text s
  | .list vs => .list (documents vs)
  | .object ms => .object (documentMembers ms)

def Value.documents : List Value → List Document
  | [] => []
  | v :: vs => v.document :: documents vs

def Value.documentMembers : List (String × Value) → List (String × Document)
  | [] => []
  | (name, v) :: ms => (name, v.document) :: documentMembers ms
end

mutual
theorem write_document : ∀ v : Value, v.document.write = v.write
  | .null | .boolean _ | .number _ | .text _ => rfl
  | .list [] => rfl
  | .list (v :: vs) => by
    rw [Value.write, writeItems_cons, Value.document, Document.write, Value.documents, Document.writeItems,
      write_document v, writeItems_documents vs]
    simp
  | .object [] => rfl
  | .object ((name, v) :: ms) => by
    rw [Value.write, writeMembers_cons, Value.document, Document.write, Value.documentMembers, Document.writeMembers,
      write_document v, writeMembers_documents ms]
    simp [memberText]

private theorem writeItems_documents : ∀ vs : List Value,
    Document.writeItems false (Value.documents vs) = (vs.flatMap fun v => 44 :: v.write) ++ [93]
  | [] => rfl
  | v :: vs => by
    rw [Value.documents, Document.writeItems, write_document v, writeItems_documents vs, List.flatMap_cons]
    simp

private theorem writeMembers_documents : ∀ ms : List (String × Value),
    Document.writeMembers false (Value.documentMembers ms) = (ms.flatMap fun m => 44 :: memberText m) ++ [125]
  | [] => rfl
  | (name, v) :: ms => by
    rw [Value.documentMembers, Document.writeMembers, write_document v, writeMembers_documents ms, List.flatMap_cons]
    simp [memberText]
end

end SshAuthority.Json
