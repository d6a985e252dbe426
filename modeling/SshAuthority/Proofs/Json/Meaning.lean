import SshAuthority.Proofs.Json.Passing
/-!
# What readers make of a payload

A reader agrees with a meaning of documents if, where one stands at the front of a text, it gives the document's
meaning and stops right behind it, and refuses the text where the document has none. Readers of parts are combined to
readers of wholes, and their meanings with them.
-/
namespace SshAuthority.Json

variable {α β σ : Type}

/-- What a reader gives, whatever fault it may find otherwise. -/
def Reader.result? (r : Reader α) (bs : Bytes) : Option (α × Bytes) := (r bs).toOption

namespace Reader

variable {r : Reader α} {b : UInt8} {bs rest : Bytes}

theorem result?_of_ok {x : α × Bytes} (h : r bs = .ok x) : r.result? bs = some x := by
  rw [result?, h]
  rfl

@[simp]
theorem result?_pure (a : α) (bs : Bytes) : (pure a : Reader α).result? bs = some (a, bs) := rfl

@[simp]
theorem result?_bind (r : Reader α) (f : α → Reader β) (bs : Bytes) :
    (r >>= f).result? bs = (r.result? bs).bind fun x => (f x.1).result? x.2 := by
  simp only [result?, bind, StateT.bind, Except.bind]
  cases r bs <;> rfl

@[simp]
theorem result?_map (f : α → β) (r : Reader α) (bs : Bytes) :
    (f <$> r).result? bs = (r.result? bs).map fun x => (f x.1, x.2) := by
  simp only [result?, Functor.map, StateT.map, bind, Except.bind]
  cases r bs <;> rfl

@[simp]
theorem result?_advance (b : UInt8) (bs : Bytes) : advance.result? (b :: bs) = some ((), bs) := rfl

@[simp]
theorem result?_mismatch (expected : String) (bs : Bytes) : (mismatch expected : Reader α).result? bs = none := by
  rw [mismatch, result?_bind]
  cases result? _ bs <;> rfl

theorem result?_peek (h : isBlank b = false) (bs : Bytes) : peek.result? (b :: bs) = some (some b, b :: bs) :=
  result?_of_ok (peek_cons h bs)

theorem result?_start (h : isBlank b = false) (f : UInt8 → Reader α) (bs : Bytes) :
    (start >>= f).result? (b :: bs) = (f b).result? (b :: bs) := by
  rw [result?_bind, result?_of_ok (start_cons h bs)]
  rfl

theorem SkipsBlanks.result? (h : r.SkipsBlanks) {blanks : Bytes} (hb : ∀ b ∈ blanks, isBlank b = true) (bs : Bytes) :
    r.result? (blanks ++ bs) = r.result? bs := congrArg Except.toOption (h.append hb bs)

end Reader

/-- A reader gives the meaning of any document that stands at the front. -/
structure Agrees (r : Reader α) (meaning : Document → Option α) : Prop where
  result? : ∀ {bs rest : Bytes} {v : Document}, Spells bs (.value v) rest → r.result? bs = (meaning v).map (·, rest)

namespace Agrees

variable {r : Reader α} {meaning : Document → Option α}

theorem of_start {f : UInt8 → Reader α}
    (scalar : ∀ {b bs v rest}, Scalar b bs v rest → (f b).result? (b :: bs) = (meaning v).map (·, rest))
    (text : ∀ {bs s rest}, Quoted bs (Utf8.encode s) rest →
      (f 34).result? (34 :: bs) = (meaning (.text s)).map (·, rest))
    (torn : ∀ {bs rest}, Token bs rest → (∀ text, ¬ Quoted bs text rest) →
      (f 34).result? (34 :: bs) = (meaning .torn).map (·, rest))
    (list : ∀ {bs vs rest}, Spells bs (.items true vs) rest →
      (f 91).result? (91 :: bs) = (meaning (.list vs)).map (·, rest))
    (object : ∀ {bs ms rest}, Spells bs (.members true ms) rest →
      (f 123).result? (123 :: bs) = (meaning (.object ms)).map (·, rest)) : Agrees (Reader.start >>= f) meaning := by
  constructor
  intro bs rest v h
  generalize hp : Part.value v = p at h
  induction h with
  | @blank b bs rest p hb more ih =>
    have hskip := (Reader.skipsBlanks_start.bind f).result? (List.forall_mem_singleton.mpr hb) bs
    exact hskip.trans (ih hp)
  | scalar h =>
    cases hp
    exact (Reader.result?_start h.front.1 f _).trans (scalar h)
  | text h =>
    cases hp
    exact (Reader.result?_start rfl f _).trans (text h)
  | torn token hnone =>
    cases hp
    exact (Reader.result?_start rfl f _).trans (torn token hnone)
  | list h =>
    cases hp
    exact (Reader.result?_start rfl f _).trans (list h)
  | object h =>
    cases hp
    exact (Reader.result?_start rfl f _).trans (object h)
  | _ => cases hp

theorem map (h : Agrees r meaning) (f : α → β) : Agrees (f <$> r) fun v => (meaning v).map f := by
  constructor
  intro bs rest v hv
  rw [Reader.result?_map, h.result? hv, Option.map_map, Option.map_map]
  rfl

/-- What is made of a payload depends on the document it says, and on nothing else. -/
theorem whole (h : Agrees r meaning) {v : Document} {payload : Bytes} (hv : v.IsSaidBy payload) :
    (Reader.whole r payload).toOption = meaning v := by
  obtain ⟨rest, hfront, hblank⟩ := hv
  have hresult := h.result? hfront
  rw [Reader.result?] at hresult
  rw [Reader.whole, StateT.run]
  cases hr : r payload with
  | error fault =>
    rw [hr] at hresult
    exact (Option.map_eq_none_iff.mp hresult.symm).symm
  | ok x =>
    rw [hr] at hresult
    obtain ⟨a, hm, hx⟩ := Option.map_eq_some_iff.mp hresult.symm
    obtain rfl : (a, rest) = x := hx
    simp only [bind, Except.bind, hblank, if_true]
    exact hm.symm

end Agrees

/-! ## Texts -/

theorem not_isLow_of_isHigh {n : Nat} (h : Reader.isHigh n = true) : Reader.isLow n = false := by
  simp only [Reader.isHigh, Reader.isLow, Bool.and_eq_true, Bool.and_eq_false_iff, decide_eq_true_eq,
    decide_eq_false_iff_not] at h ⊢
  omega

private theorem bodyOnto_quoted {bs text rest : Bytes} (h : Quoted bs text rest) (done : Bytes) :
    Reader.bodyOnto done bs = .ok (done.reverse ++ text, rest) := by
  induction h generalizing done with
  | close rest => rw [Reader.bodyOnto, List.append_nil]
  | plain quote escape control more ih =>
    rw [bodyOnto_plain quote escape control, ih]
    simp
  | @letter b x bs text rest letter more ih =>
    have hu : b ≠ 117 := by
      intro hb
      subst hb
      cases letter
    have hl := bodyOnto_letter hu letter done bs
    simp only [List.cons_append, List.nil_append] at hl
    rw [hl, ih]
    simp
  | unit digits low high more ih =>
    rw [Reader.bodyOnto, digits]
    simp [low, high, ih, Reader.charOnto]
  | pair first high second low more ih =>
    rw [Reader.bodyOnto, first]
    simp [high, not_isLow_of_isHigh high, second, low, ih, Reader.charOnto]

theorem quoted_of_bodyOnto {done bs x rest : Bytes} (h : Reader.bodyOnto done bs = .ok (x, rest)) :
    ∃ text, Quoted bs text rest := by
  fun_induction Reader.bodyOnto done bs
  case case2 =>
    obtain ⟨-, rfl⟩ := Prod.mk.inj (Except.ok.inj h)
    exact ⟨[], .close _⟩
  case case9 first _ high _ _ _ _ _ _ second low ih =>
    obtain ⟨text, more⟩ := ih h
    exact ⟨_, .pair first high second low more⟩
  case case13 digits low high ih =>
    obtain ⟨text, more⟩ := ih h
    exact ⟨_, .unit digits (Bool.not_eq_true _ ▸ low) (Bool.not_eq_true _ ▸ high) more⟩
  case case15 letter ih =>
    obtain ⟨text, more⟩ := ih h
    exact ⟨_, .letter letter more⟩
  case case18 b bs hquote hend _ _ hescape hcontrol ih =>
    obtain ⟨text, more⟩ := ih h
    have hb : b ≠ 92 := by
      intro hb
      cases bs with
      | nil => exact hend hb rfl
      | cons c bs => exact hescape c bs hb rfl
    exact ⟨_, .plain hquote hb hcontrol more⟩
  all_goals cases h

/-- What is no text of Unicode is not read as one. -/
theorem body_torn {bs rest : Bytes} (token : Token bs rest) (torn : ∀ text, ¬ Quoted bs text rest) :
    Reader.body.result? bs = none := by
  rw [Reader.result?, Reader.body]
  cases h : Reader.bodyOnto [] bs with
  | error fault => rfl
  | ok x =>
    obtain ⟨text, hquoted⟩ := quoted_of_bodyOnto h
    have hrest := (skipBody_token hquoted.token).symm.trans (skipBody_token token)
    obtain ⟨-, hrest⟩ := Prod.mk.inj (Except.ok.inj hrest)
    rw [hrest] at hquoted
    exact absurd hquoted (torn text)

theorem body_quoted {bs rest : Bytes} {s : String} (h : Quoted bs (Utf8.encode s) rest) :
    Reader.body bs = .ok (s, rest) := by
  simp only [Reader.body, bodyOnto_quoted h, List.reverse_nil, List.nil_append, Utf8.decode?_encode]

def Document.text? : Document → Option String
  | .text s => some s
  | _ => none

private theorem text?_scalar {b : UInt8} {bs rest : Bytes} {v : Document} (h : Scalar b bs v rest) :
    v.text? = none := by
  cases h <;> rfl

private theorem ne_of_scalar {b c : UInt8} {bs rest : Bytes} {v : Document} (h : Scalar b bs v rest)
    (hc : c ∈ [34, 91, 93, 123, 125]) : b ≠ c := by
  intro hb
  rw [hb] at h
  exact h.front.2 hc

theorem agrees_text : Agrees Reader.text Document.text? := by
  apply Agrees.of_start
  case scalar =>
    intro b bs v rest h
    rw [text?_scalar h, if_neg (by simpa using ne_of_scalar h (by decide))]
    exact Reader.result?_mismatch _ _
  case text =>
    intro bs s rest h
    simp [Reader.result?_of_ok (body_quoted h), Document.text?]
  case torn =>
    intro bs rest token torn
    simp [body_torn token torn, Document.text?]
  case list | object =>
    intros
    exact Reader.result?_mismatch _ _

/-! ## Nothing and whole numbers -/

def Document.unit? : Document → Option Unit
  | .null => some ()
  | _ => none

theorem agrees_unit : Agrees Reader.unit Document.unit? := by
  apply Agrees.of_start
  case scalar =>
    intro b bs v rest h
    cases h with
    | null rest => rfl
    | number digit read =>
      rw [if_neg (by rintro hb; rw [beq_iff_eq.mp hb] at digit; cases digit)]
      exact Reader.result?_mismatch _ _
    | _ => exact Reader.result?_mismatch _ _
  case text | torn | list | object =>
    intros
    exact Reader.result?_mismatch _ _

def Document.natural? : Document → Option Nat
  | .number (.natural n) => some n
  | _ => none

theorem agrees_natural : Agrees Reader.natural Document.natural? := by
  apply Agrees.of_start
  case scalar =>
    intro b bs v rest h
    cases h with
    | @number _ _ _ n digit read =>
      have hread := Reader.result?_of_ok read
      have hminus := (not_blank_of_isDigit digit).2
      rw [if_pos (by simp [digit])]
      simp only [hminus, Bool.false_eq_true, if_false, Reader.result?_bind, hread]
      cases n <;> rfl
    | @negative _ _ n read =>
      have hread := Reader.result?_of_ok read
      simp only [beq_self_eq_true, Bool.true_or, if_true, Reader.result?_bind, Reader.result?_advance, Option.bind_some,
        hread]
      cases n <;> rfl
    | _ => exact Reader.result?_mismatch _ _
  case text | torn | list | object =>
    intros
    exact Reader.result?_mismatch _ _

/-! ## Lists -/

section Lists

variable {item : Reader α} {meaning : Document → Option α} {first : Bool} {bs rest : Bytes} {v : Document}
  {vs : List Document}

private theorem skipsBlanks_another (first : Bool) : Reader.SkipsBlanks (Reader.another first) :=
  Reader.skipsBlanks_peek.bind _

private theorem another_end (h : Spells bs (.items first []) rest) :
    Reader.another first bs = .ok (false, 93 :: rest) := by
  obtain ⟨blanks, tail, rfl, hblanks, ⟨-, rfl⟩ | ⟨v, more, item, mid, hvs, -⟩⟩ := h.items_front
  · rw [(skipsBlanks_another first).append hblanks, Reader.another, bind_ok (peek_cons rfl rest)]
    rfl
  · cases hvs

private theorem another_item (h : Spells bs (.items first (v :: vs)) rest) : ∃ item mid,
    Reader.another first bs = .ok (true, item) ∧ Spells item (.value v) mid ∧ Spells mid (.items false vs) rest ∧
      mid.length < bs.length := by
  obtain ⟨blanks, tail, rfl, hblanks, ⟨hvs, -⟩ | ⟨v', more, item, mid, hvs, rfl, hitem, hmore⟩⟩ := h.items_front
  · cases hvs
  obtain ⟨rfl, rfl⟩ := List.cons.inj hvs
  obtain ⟨blanks', b, tail, rfl, hblanks', hb, hne, -, hfront⟩ := hitem.front rfl
  have hlt := hfront.length_lt
  refine ⟨b :: tail, mid, ?_, hfront, hmore, ?_⟩
  · rw [(skipsBlanks_another first).append hblanks]
    cases first with
    | true =>
      rw [if_pos rfl, (skipsBlanks_another true).append hblanks', Reader.another, bind_ok (peek_cons hb tail)]
      simp only [hne, beq_iff_eq, if_false, if_true]
      rfl
    | false =>
      have hpeek := (Reader.skipsBlanks_peek.append hblanks' (b :: tail)).trans (peek_cons hb tail)
      rw [if_neg (by decide), Reader.another, bind_ok (peek_cons rfl _)]
      refine (bind_ok (advance_cons _ _)).trans ((bind_ok hpeek).trans ?_)
      simp only
      rfl
  · split <;> simp only [List.length_append, List.length_cons] at hlt ⊢ <;> omega

theorem elementsFrom_spells (hitem : Agrees item meaning) {fuel : Nat} (done : List α)
    (h : Spells bs (.items done.isEmpty vs) rest) (hf : bs.length < fuel) :
    (Reader.elementsFrom item fuel done).result? bs =
      (vs.mapM meaning).map fun as => (done.reverse ++ as, 93 :: rest) := by
  obtain ⟨fuel, rfl⟩ := Nat.exists_eq_add_one.mpr (Nat.zero_lt_of_lt hf)
  induction vs generalizing fuel done bs with
  | nil =>
    rw [Reader.elementsFrom, Reader.result?_bind, Reader.result?_of_ok (another_end h)]
    simp
  | cons v vs ih =>
    obtain ⟨next, mid, hanother, hv, hmore, hlt⟩ := another_item h
    rw [Reader.elementsFrom, Reader.result?_bind, Reader.result?_of_ok hanother, List.mapM_cons]
    simp only [Option.bind_some, if_true, Reader.result?_bind, hitem.result? hv]
    cases meaning v with
    | none => rfl
    | some a =>
      have hmid : mid.length < fuel := by omega
      obtain ⟨fuel, rfl⟩ := Nat.exists_eq_add_one.mpr (Nat.zero_lt_of_lt hmid)
      have hrest := ih (a :: done) hmore fuel hmid
      simp only [Option.map_some, Option.bind_some, hrest]
      cases vs.mapM meaning <;> simp

private theorem elements_spells (hitem : Agrees item meaning) (h : Spells bs (.items true vs) rest) :
    (Reader.elements item).result? bs = (vs.mapM meaning).map (·, 93 :: rest) :=
  elementsFrom_spells hitem [] h (Nat.lt_succ_self _)

private theorem closeList_end (rest : Bytes) : Reader.closeList (93 :: rest) = .ok ((), rest) := by
  rw [Reader.closeList, bind_ok (peek_cons rfl rest)]
  rfl

def Document.list? (meaning : Document → Option α) : Document → Option (List α)
  | .list vs => vs.mapM meaning
  | _ => none

theorem agrees_list (hitem : Agrees item meaning) : Agrees (Reader.list item) (Document.list? meaning) := by
  apply Agrees.of_start
  case scalar =>
    intro b bs v rest h
    have hv : v.list? meaning = none := by cases h <;> rfl
    rw [hv, if_neg (by simpa using ne_of_scalar h (by decide))]
    exact Reader.result?_mismatch _ _
  case list =>
    intro bs vs rest h
    simp only [beq_self_eq_true, if_true, Reader.result?_bind, Reader.result?_advance, Option.bind_some,
      elements_spells hitem h, Document.list?]
    cases vs.mapM meaning with
    | none => rfl
    | some as => simp [Reader.result?_of_ok (closeList_end rest)]
  case text | torn | object =>
    intros
    exact Reader.result?_mismatch _ _

end Lists

/-! ### Fields that are listed -/

def Document.next? (meaning : Document → Option α) : StateT (List Document) Option α
  | [] => none
  | v :: vs => (meaning v).map (·, vs)

/-- A reader takes items from the front of a list and leaves the others. -/
structure Lists (first : Bool) (r : Reader α) (meaning : StateT (List Document) Option α) : Prop where
  none : ∀ {bs rest : Bytes} {vs : List Document}, Spells bs (.items first vs) rest → meaning vs = none →
    r.result? bs = none
  some : ∀ {bs rest : Bytes} {vs left : List Document} {a : α}, Spells bs (.items first vs) rest →
    meaning vs = some (a, left) → ∃ mid, r.result? bs = some (a, mid) ∧ Spells mid (.items false left) rest

theorem Lists.pure (a : α) : Lists false (pure a) (pure a) := by
  constructor
  case none =>
    intro bs rest vs h hnone
    cases hnone
  case some =>
    intro bs rest vs left b h hsome
    obtain ⟨rfl, rfl⟩ := Prod.mk.inj (Option.some.inj hsome)
    exact ⟨bs, rfl, h⟩

theorem Lists.bind {first : Bool} {r : Reader α} {meaning : StateT (List Document) Option α} {f : α → Reader β}
    {next : α → StateT (List Document) Option β} (h : Lists first r meaning) (hnext : ∀ a, Lists false (f a) (next a)) :
    Lists first (r >>= f) (meaning >>= next) := by
  have hbind : ∀ vs, (meaning >>= next) vs = (meaning vs).bind fun x => next x.1 x.2 := fun _ => rfl
  constructor
  case none =>
    intro bs rest vs hvs hnone
    rw [hbind] at hnone
    rw [Reader.result?_bind]
    cases hm : meaning vs with
    | none => rw [h.none hvs hm, Option.bind_none]
    | some x =>
      obtain ⟨mid, hresult, hmid⟩ := h.some hvs hm
      rw [hm] at hnone
      rw [hresult]
      exact (hnext x.1).none hmid hnone
  case some =>
    intro bs rest vs left b hvs hsome
    rw [hbind] at hsome
    obtain ⟨x, hm, hx⟩ := Option.bind_eq_some_iff.mp hsome
    obtain ⟨mid, hresult, hmid⟩ := h.some hvs hm
    rw [Reader.result?_bind, hresult]
    exact (hnext x.1).some hmid hx

section Items

variable {item : Reader α} {meaning : Document → Option α} {bs rest : Bytes} {vs : List Document}

theorem lists_element (hitem : Agrees item meaning) (index : Nat) (expected : String) :
    Lists (index == 0) (Reader.element index expected item) (Document.next? meaning) := by
  constructor
  case none =>
    intro bs rest vs h hnone
    rw [Reader.element, Reader.result?_bind]
    cases vs with
    | nil =>
      rw [Reader.result?_of_ok (another_end h)]
      rfl
    | cons v vs =>
      obtain ⟨next, mid, hanother, hv, -⟩ := another_item h
      rw [Reader.result?_of_ok hanother]
      simp only [Option.bind_some, if_true, hitem.result? hv, Option.map_eq_none_iff.mp hnone, Option.map_none]
  case some =>
    intro bs rest vs left a h hsome
    cases vs with
    | nil => cases hsome
    | cons v vs =>
      obtain ⟨next, mid, hanother, hv, hmore, -⟩ := another_item h
      obtain ⟨b, hb, hpair⟩ := Option.map_eq_some_iff.mp hsome
      obtain ⟨rfl, rfl⟩ := Prod.mk.inj hpair
      refine ⟨mid, ?_, hmore⟩
      rw [Reader.element, Reader.result?_bind, Reader.result?_of_ok hanother]
      simp only [Option.bind_some, if_true, hitem.result? hv, hb, Option.map_some]

theorem closeList_items (h : Spells bs (.items false vs) rest) :
    Reader.closeList.result? bs = if vs = [] then some ((), rest) else none := by
  have hskip : Reader.SkipsBlanks Reader.closeList := Reader.skipsBlanks_peek.bind _
  obtain ⟨blanks, tail, rfl, hblanks, ⟨rfl, rfl⟩ | ⟨v, more, item, mid, rfl, rfl, -⟩⟩ := h.items_front
  · rw [hskip.result? hblanks, Reader.result?_of_ok (closeList_end rest), if_pos rfl]
  · rw [hskip.result? hblanks, if_neg (List.cons_ne_nil v more), if_neg Bool.false_ne_true, Reader.closeList,
      Reader.result?_bind, Reader.result?_peek rfl]
    simp only [Option.bind_some, Reader.result?_bind, Reader.result?_advance]
    cases Reader.peek.result? item with
    | none => rfl
    | some x =>
      simp only [Option.bind_some]
      split <;> rfl

end Items

/-! ## Objects -/

/-- A step for the members of an object does with each of them what its value means. -/
structure Takes (step : String → σ → Reader σ) (take : String → σ → Document → Option σ) : Prop where
  result? : ∀ {bs rest : Bytes} {v : Document}, Spells bs (.field v) rest → ∀ name s,
    (step name s).result? bs = (take name s v).map (·, rest)

def fill (slot value : Option α) : Option (Option α) := if slot.isSome then none else value.map some

section Objects

variable {value : Reader α} {meaning : Document → Option α} {first : Bool} {bs rest : Bytes} {v : Document} {name : String}
  {ms : List (String × Document)}

theorem Agrees.field (h : Agrees value meaning) (hv : Spells bs (.field v) rest) :
    (Reader.colon >>= fun _ => value).result? bs = (meaning v).map (·, rest) := by
  obtain ⟨blanks, mid, rfl, hblanks, hmid⟩ := hv.field_front
  rw [(Reader.skipsBlanks_colon.bind _).result? hblanks, Reader.result?_bind, Reader.result?_of_ok (colon_cons mid)]
  exact h.result? hmid

theorem Agrees.field_bind (h : Agrees value meaning) (hv : Spells bs (.field v) rest) (f : α → Reader β) :
    (Reader.colon >>= fun _ => value >>= f).result? bs = (meaning v).bind fun a => (f a).result? rest := by
  have hfield := h.field hv
  simp only [Reader.result?_bind] at hfield ⊢
  rw [← Option.bind_assoc, hfield]
  cases meaning v <;> rfl

theorem Agrees.once (h : Agrees value meaning) (hv : Spells bs (.field v) rest) (field : String) (slot : Option α)
    (f : Option α → β) : (Reader.once field slot value >>= fun x => pure (f x)).result? bs =
      ((fill slot (meaning v)).map f).map (·, rest) := by
  rw [Reader.once, fill]
  split
  case isTrue => rfl
  case isFalse =>
    rw [Reader.result?_bind, (h.map some).field hv]
    cases meaning v <;> rfl

theorem agrees_skip : Agrees Reader.skip fun _ => some () :=
  ⟨fun h => Reader.result?_of_ok (Reader.skip_spells h)⟩

/-- A member nobody asked for changes nothing. -/
theorem skip_field (hv : Spells bs (.field v) rest) (s : σ) :
    (Reader.colon >>= fun _ => Reader.skip >>= fun _ => pure s).result? bs = some (s, rest) :=
  (agrees_skip.map fun _ => s).field hv

private theorem skipsBlanks_nextName (first : Bool) : Reader.SkipsBlanks (Reader.nextName first) :=
  Reader.skipsBlanks_peek.bind _

private theorem nextName_none (h : Spells bs (.members first []) rest) :
    Reader.nextName first bs = .ok (none, 125 :: rest) := by
  obtain ⟨blanks, tail, rfl, hblanks, ⟨-, rfl⟩ | ⟨name, v, more, member, mid, hms, -⟩⟩ := h.members_front
  · rw [(skipsBlanks_nextName first).append hblanks, nextName_end]
  · cases hms

private theorem nextName_member (h : Spells bs (.members first ((name, v) :: ms)) rest) : ∃ field mid,
    Reader.nextName first bs = .ok (some name, field) ∧ Spells field (.field v) mid ∧
      Spells mid (.members false ms) rest ∧ mid.length < bs.length := by
  obtain ⟨blanks, tail, rfl, hblanks, ⟨hms, -⟩ | ⟨name', v', more, member, mid, hms, rfl, hmember, hmore⟩⟩ :=
    h.members_front
  · cases hms
  obtain ⟨hm, rfl⟩ := List.cons.inj hms
  obtain ⟨rfl, rfl⟩ := Prod.mk.inj hm
  obtain ⟨blanks', tail, field, rfl, hblanks', text, hfield⟩ := hmember.member_front
  have hname : (some <$> Reader.body) tail = .ok (some name, field) := map_ok (body_quoted text)
  have hlt := Nat.lt_trans hfield.length_lt text.token.length_lt
  refine ⟨field, mid, ?_, hfield, hmore, ?_⟩
  · rw [(skipsBlanks_nextName first).append hblanks]
    cases first with
    | true =>
      rw [if_pos rfl, (skipsBlanks_nextName true).append hblanks', Reader.nextName, bind_ok (peek_cons rfl tail)]
      exact (bind_ok (advance_cons _ _)).trans hname
    | false =>
      have hpeek := (Reader.skipsBlanks_peek.append hblanks' (34 :: tail)).trans (peek_cons rfl tail)
      rw [if_neg Bool.false_ne_true, Reader.nextName, bind_ok (peek_cons rfl _)]
      exact (bind_ok (advance_cons _ _)).trans ((bind_ok hpeek).trans ((bind_ok (advance_cons _ _)).trans hname))
  · split <;> simp only [List.length_append, List.length_cons] at hlt ⊢ <;> omega

theorem membersFrom_spells {step : String → σ → Reader σ} {take : String → σ → Document → Option σ}
    (hstep : Takes step take) {fuel : Nat} (s : σ) (h : Spells bs (.members first ms) rest) (hf : bs.length < fuel) :
    (Reader.membersFrom step fuel first s).result? bs =
      (ms.foldlM (fun s m => take m.1 s m.2) s).map (·, 125 :: rest) := by
  induction ms generalizing fuel first s bs with
  | nil =>
    obtain ⟨fuel, rfl⟩ := Nat.exists_eq_add_one.mpr (Nat.zero_lt_of_lt hf)
    rw [Reader.membersFrom, Reader.result?_bind, Reader.result?_of_ok (nextName_none h)]
    rfl
  | cons m ms ih =>
    obtain ⟨fuel, rfl⟩ := Nat.exists_eq_add_one.mpr (Nat.zero_lt_of_lt hf)
    obtain ⟨field, mid, hname, hfield, hmore, hlt⟩ := nextName_member h
    rw [Reader.membersFrom, Reader.result?_bind, Reader.result?_of_ok hname, List.foldlM_cons]
    simp only [Option.bind_some, Reader.result?_bind, hstep.result? hfield]
    cases take m.1 s m.2 with
    | none => rfl
    | some t => exact ih t hmore (Nat.lt_of_lt_of_le hlt (Nat.le_of_lt_succ hf))

theorem members_spells {step : String → σ → Reader σ} {take : String → σ → Document → Option σ}
    (hstep : Takes step take) (s : σ) (h : Spells bs (.members true ms) rest) : (Reader.members step s).result? bs =
      (ms.foldlM (fun s m => take m.1 s m.2) s).map (·, 125 :: rest) :=
  membersFrom_spells hstep s h (Nat.lt_succ_self _)

private theorem closeObject_end (rest : Bytes) : Reader.closeObject (125 :: rest) = .ok ((), rest) := by
  rw [Reader.closeObject, bind_ok (peek_cons rfl rest)]
  rfl

/-- The meaning of a record from that of its members, and from that of its fields where they are listed. -/
def Document.record? (named : List (String × Document) → Option α) (listed : StateT (List Document) Option α) :
    Document → Option α
  | .object ms => named ms
  | .list vs =>
    match listed vs with
    | some (a, []) => some a
    | _ => none
  | _ => none

theorem agrees_record {named listed : Reader α} {ofMembers : List (String × Document) → Option α}
    {ofItems : StateT (List Document) Option α}
    (hnamed : ∀ {bs ms rest}, Spells bs (.members true ms) rest →
      named.result? bs = (ofMembers ms).map (·, 125 :: rest))
    (hlisted : Lists true listed ofItems) (expected : String) :
    Agrees (Reader.record expected named listed) (Document.record? ofMembers ofItems) := by
  apply Agrees.of_start
  case scalar =>
    intro b bs v rest h
    have hv : v.record? ofMembers ofItems = none := by cases h <;> rfl
    rw [hv]
    split
    · exact absurd rfl (ne_of_scalar h (by decide))
    · exact absurd rfl (ne_of_scalar h (by decide))
    · exact Reader.result?_mismatch _ _
  case text | torn =>
    intros
    exact Reader.result?_mismatch _ _
  case list =>
    intro bs vs rest h
    simp only [Reader.result?_bind, Reader.result?_advance, Option.bind_some, Document.record?]
    cases hitems : ofItems vs with
    | none =>
      rw [hlisted.none h hitems]
      rfl
    | some x =>
      obtain ⟨mid, hresult, hmid⟩ := hlisted.some h hitems
      simp only [hresult, Option.bind_some, closeList_items hmid]
      obtain ⟨a, left⟩ := x
      cases left <;> rfl
  case object =>
    intro bs ms rest h
    simp only [Reader.result?_bind, Reader.result?_advance, Option.bind_some, hnamed h, Document.record?]
    cases ofMembers ms with
    | none => rfl
    | some a => simp [Reader.result?_of_ok (closeObject_end rest)]

/-- The meaning of one of some names, which may also stand as the only member of an object. -/
def Document.choice? (known : List (String × α)) : Document → Option α
  | .text name => known.lookup name
  | .object [(name, .null)] => known.lookup name
  | _ => none

private theorem variant_text {known : List (String × α)} {tail : Bytes}
    (h : Quoted tail (Utf8.encode name) rest) (expected : String) :
    (Reader.variant expected known).result? (34 :: tail) = (known.lookup name).map (·, rest) := by
  rw [Reader.variant, Reader.result?_start rfl]
  simp only [beq_self_eq_true, if_true, Reader.result?_bind, Reader.result?_advance, Option.bind_some,
    Reader.result?_of_ok (body_quoted h)]
  cases known.lookup name <;> rfl

private theorem variant_torn {tail : Bytes} (token : Token tail rest) (torn : ∀ text, ¬ Quoted tail text rest)
    (expected : String) (known : List (String × α)) :
    (Reader.variant expected known).result? (34 :: tail) = none := by
  rw [Reader.variant, Reader.result?_start rfl]
  simp [body_torn token torn]

private theorem skipsBlanks_variant (expected : String) (known : List (String × α)) :
    Reader.SkipsBlanks (Reader.variant expected known) := Reader.skipsBlanks_start.bind _

private theorem variant_end (h : Spells bs (.members true []) rest) (expected : String) (known : List (String × α)) :
    (Reader.variant expected known).result? bs = none := by
  obtain ⟨blanks, tail, rfl, hblanks, ⟨-, rfl⟩ | ⟨name, v, more, member, mid, hms, -⟩⟩ := h.members_front
  · rw [(skipsBlanks_variant expected known).result? hblanks, Reader.variant, Reader.result?_start rfl]
    exact Reader.result?_mismatch _ _
  · cases hms

private theorem variant_member (h : Spells bs (.members true ((name, v) :: ms)) rest) (expected : String)
    (known : List (String × α)) : ∃ field mid, Spells field (.field v) mid ∧ Spells mid (.members false ms) rest ∧
      (Reader.variant expected known).result? bs = (known.lookup name).map (·, field) := by
  obtain ⟨blanks, tail, rfl, hblanks, ⟨hms, -⟩ | ⟨name', v', more, member, mid, hms, rfl, hmember, hmore⟩⟩ :=
    h.members_front
  · cases hms
  obtain ⟨hm, rfl⟩ := List.cons.inj hms
  obtain ⟨rfl, rfl⟩ := Prod.mk.inj hm
  obtain ⟨blanks', tail, field, rfl, hblanks', text, hfield⟩ := hmember.member_front
  refine ⟨field, mid, hfield, hmore, ?_⟩
  rw [(skipsBlanks_variant expected known).result? hblanks, (skipsBlanks_variant expected known).result? hblanks']
  exact variant_text text expected

private theorem peek_members (h : Spells bs (.members false ms) rest) : Reader.peek.result? bs =
    some (if ms = [] then (some 125, 125 :: rest) else (some 44, bs.dropWhile Reader.isBlank)) := by
  obtain ⟨blanks, tail, rfl, hblanks, ⟨rfl, rfl⟩ | ⟨name, v, more, member, mid, rfl, rfl, -⟩⟩ := h.members_front
  · rw [Reader.skipsBlanks_peek.result? hblanks, Reader.result?_peek rfl, if_pos rfl]
  · have hdrop : (blanks ++ 44 :: member).dropWhile Reader.isBlank = 44 :: member := by
      rw [List.dropWhile_append_of_pos hblanks]
      rfl
    rw [if_neg (List.cons_ne_nil _ more), if_neg Bool.false_ne_true, hdrop, Reader.skipsBlanks_peek.result? hblanks,
      Reader.result?_peek rfl]

theorem agrees_plainChoice (known : List (String × α)) :
    Agrees (Reader.plainChoice known) (Document.choice? known) := by
  apply Agrees.of_start
  case scalar =>
    intro b bs v rest h
    have hv : v.choice? known = none := by cases h <;> rfl
    rw [hv]
    split
    · exact absurd rfl (ne_of_scalar h (by decide))
    · exact absurd rfl (ne_of_scalar h (by decide))
    · rfl
  case text =>
    intro bs name rest h
    simp only [Reader.result?_bind, variant_text h, Document.choice?]
    cases known.lookup name <;> rfl
  case torn =>
    intro bs rest token torn
    simp only [Reader.result?_bind, variant_torn token torn]
    rfl
  case list =>
    intros
    rfl
  case object =>
    intro bs ms rest h
    simp only [Reader.result?_bind, Reader.result?_advance, Option.bind_some]
    cases ms with
    | nil =>
      rw [variant_end h]
      rfl
    | cons m ms =>
      obtain ⟨name, v⟩ := m
      obtain ⟨field, mid, hfield, hmore, hvariant⟩ := variant_member h "variant identifier" known
      rw [hvariant]
      have hunit := agrees_unit.field hfield
      rw [Reader.result?_bind] at hunit
      cases hlookup : known.lookup name with
      | none =>
        cases v <;> cases ms <;> simp [Document.choice?, hlookup]
      | some a =>
        simp only [Option.map_some, Option.bind_some, Reader.result?_pure, Option.bind_assoc]
        rw [← Option.bind_assoc, hunit]
        cases v with
        | null =>
          simp only [Document.unit?, Option.map_some, Option.bind_some, peek_members hmore]
          cases ms with
          | nil => simp [Document.choice?, hlookup]
          | cons m ms => rfl
        | _ => rfl

end Objects

/-! ## Values of any kind -/

/-- The value a document says, if it has at most so many containers inside one another and no torn text. -/
def Document.value? : Nat → Document → Option Value
  | _, .null => some .null
  | _, .boolean b => some (.boolean b)
  | _, .number n => some (.number n)
  | _, .text s => some (.text s)
  | _, .torn => none
  | 0, .list _ | 0, .object _ => none
  | depth + 1, .list vs => (vs.mapM (Document.value? depth)).map .list
  | depth + 1, .object ms => (ms.mapM fun m => (Document.value? depth m.2).map (m.1, ·)).map .object

private theorem agrees_readOver {inner : Option (Reader Value)} {depth : Nat}
    (list : ∀ {bs vs rest}, Spells bs (.items true vs) rest →
      (Value.readOver inner).result? (91 :: bs) = ((Document.list vs).value? depth).map (·, rest))
    (object : ∀ {bs ms rest}, Spells bs (.members true ms) rest →
      (Value.readOver inner).result? (123 :: bs) = ((Document.object ms).value? depth).map (·, rest)) :
    Agrees (Value.readOver inner) (Document.value? depth) := by
  apply Agrees.of_start
  case scalar =>
    intro b bs v rest h
    cases h with
    | number digit read =>
      split
      case h_8 => simp [digit, Reader.result?_of_ok read, Document.value?]
      all_goals cases digit
    | negative read => simp [Reader.result?_of_ok read, Document.value?]
    | _ => cases depth <;> rfl
  case text =>
    intro bs s rest h
    simp [Reader.result?_of_ok (body_quoted h), Document.value?]
  case torn =>
    intro bs rest token torn
    simp [body_torn token torn, Document.value?]
  case list =>
    intro bs vs rest h
    exact (Reader.result?_start rfl _ _).symm.trans (list h)
  case object =>
    intro bs ms rest h
    exact (Reader.result?_start rfl _ _).symm.trans (object h)

private theorem foldlM_members (f : Document → Option Value) (ms : List (String × Document))
    (done : List (String × Value)) : ms.foldlM (fun done m => (f m.2).map fun v => (m.1, v) :: done) done =
      (ms.mapM fun m => (f m.2).map (m.1, ·)).map fun read => read.reverse ++ done := by
  induction ms generalizing done with
  | nil => rfl
  | cons m ms ih =>
    rw [List.foldlM_cons, List.mapM_cons]
    cases f m.2 with
    | none => rfl
    | some v =>
      refine (ih _).trans ?_
      cases ms.mapM fun m => (f m.2).map (m.1, ·) <;> simp

theorem agrees_read (depth : Nat) : Agrees (Value.read depth) (Document.value? depth) := by
  induction depth with
  | zero =>
    apply agrees_readOver
    case list | object =>
      intros
      rw [Value.readOver, Reader.result?_start rfl]
      rfl
  | succ depth ih =>
    apply agrees_readOver
    case list =>
      intro bs vs rest h
      rw [Value.readOver, Reader.result?_start rfl]
      simp only [Reader.result?_bind, Reader.result?_advance, Option.bind_some, elements_spells ih h, Document.value?]
      cases vs.mapM (Document.value? depth) with
      | none => rfl
      | some read => simp [Reader.result?_of_ok (closeList_end rest)]
    case object =>
      intro bs ms rest h
      have hstep : Takes
          (fun name done => Reader.colon >>= fun _ => Value.read depth >>= fun x => pure ((name, x) :: done))
          (fun name done v => (v.value? depth).map fun v => (name, v) :: done) :=
        ⟨fun hv name done => (ih.map fun x => (name, x) :: done).field hv⟩
      have hmembers := members_spells hstep [] h
      rw [foldlM_members] at hmembers
      rw [Value.readOver, Reader.result?_start rfl]
      simp only [Reader.result?_bind, Reader.result?_advance, Option.bind_some, hmembers, Document.value?]
      cases ms.mapM fun m => (Document.value? depth m.2).map (m.1, ·) with
      | none => rfl
      | some read => simp [Reader.result?_of_ok (closeObject_end rest)]

end SshAuthority.Json
