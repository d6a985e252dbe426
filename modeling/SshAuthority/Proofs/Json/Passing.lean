import SshAuthority.Proofs.Json.Grammar
/-!
# Passing over values

Blanks in front of a part are passed over by whoever reads it. What is passed over because nobody asked for it is just
the document that stands there.
-/
namespace SshAuthority.Json

variable {α β : Type}

/-! ## Blanks -/

namespace Reader

/-- A reader passes over blanks first. -/
def SkipsBlanks (r : Reader α) : Prop := ∀ b bs, isBlank b = true → r (b :: bs) = r bs

variable {r : Reader α}

theorem skipsBlanks_peek : SkipsBlanks peek := by
  intro b bs h
  rw [peek, List.dropWhile_cons_of_pos h]
  rfl

theorem SkipsBlanks.bind (h : r.SkipsBlanks) (f : α → Reader β) : SkipsBlanks (r >>= f) := by
  intro b bs hb
  exact congrArg (fun x => x >>= fun y => f y.1 y.2) (h b bs hb)

theorem skipsBlanks_start : SkipsBlanks start := skipsBlanks_peek.bind _

theorem skipsBlanks_colon : SkipsBlanks colon := skipsBlanks_peek.bind _

theorem SkipsBlanks.append (h : r.SkipsBlanks) {blanks : Bytes} (hb : ∀ b ∈ blanks, isBlank b = true) (bs : Bytes) :
    r (blanks ++ bs) = r bs := by
  induction blanks with
  | nil => rfl
  | cons b blanks ih =>
    obtain ⟨hb, hblanks⟩ := List.forall_mem_cons.mp hb
    exact (h b _ hb).trans (ih hblanks)

end Reader

/-! ## Numbers and texts -/

namespace Number

variable {negative down : Bool} {significand extra : Nat} {exponent : Int} {bs rest : Bytes} {n : Number}

private theorem ofParts_rest {r : Except Fault Number} (h : r.map (·, bs) = .ok (n, rest)) : rest = bs := by
  cases r with
  | error fault => cases h
  | ok m => exact (Prod.mk.inj (Except.ok.inj h)).2.symm

private theorem skip_of_afterSign (h : afterSign negative significand exponent down bs = .ok (n, rest)) :
    bs.head?.any isDigit = true ∧ rest = bs.dropWhile isDigit := by
  cases bs with
  | nil => cases h
  | cons b bs =>
    simp only [afterSign] at h
    split at h
    case isTrue => cases h
    case isFalse hb =>
      refine ⟨by simpa using hb, ?_⟩
      split at h
      · exact ofParts_rest h
      · split at h
        · cases h
        · exact (Prod.mk.inj (Except.ok.inj h)).2.symm

private theorem skip_of_afterE (h : afterE negative significand exponent bs = .ok (n, rest)) :
    skipExponent bs = .ok ((), rest) := by
  have signed : ∀ {tail : Bytes}, tail.head?.any isDigit = true ∧ rest = tail.dropWhile isDigit →
      (if tail.head?.any isDigit then (.ok ((), tail.dropWhile isDigit) : Except Fault (Unit × Bytes))
        else .error (.malformed .badNumber)) = .ok ((), rest) := by
    intro tail ht
    rw [if_pos ht.1, ht.2]
  simp only [skipExponent, afterE] at h ⊢
  split at h
  · exact signed (skip_of_afterSign h)
  · exact signed (skip_of_afterSign h)
  · next hplus hminus =>
    have ht := skip_of_afterSign h
    cases bs with
    | nil => exact signed ht
    | cons b bs =>
      have hb : (b == 43 || b == 45) = false := by
        rw [Bool.or_eq_false_iff, beq_eq_false_iff_ne, beq_eq_false_iff_ne]
        exact ⟨fun hb => hplus bs (by rw [hb]), fun hb => hminus bs (by rw [hb])⟩
      simp only [hb]
      exact signed ht

private theorem skip_of_perhapsE (h : perhapsE negative significand exponent bs = .ok (n, rest)) :
    skipPerhapsE bs = .ok ((), rest) := by
  cases bs with
  | nil =>
    obtain rfl := ofParts_rest h
    rfl
  | cons b bs =>
    simp only [perhapsE] at h
    rw [skipPerhapsE]
    split at h
    case isTrue he =>
      rw [if_pos he]
      exact skip_of_afterE h
    case isFalse he =>
      obtain rfl := ofParts_rest h
      rw [if_neg he]

private theorem skip_of_afterInteger (h : afterInteger negative significand extra bs = .ok (n, rest)) :
    (match bs with
      | 46 :: after =>
        if after.head?.any isDigit then skipPerhapsE (after.dropWhile isDigit) else .error (.malformed .badNumber)
      | after => skipPerhapsE after) = .ok ((), rest) := by
  simp only [afterInteger] at h
  split at h
  · next after =>
    simp only [afterPoint] at h
    split at h
    case isTrue => cases h
    case isFalse hd =>
      have hfirst : after.head?.any isDigit = true := by
        cases after with
        | nil => simp at hd
        | cons b after =>
          by_cases hb : isDigit b = true
          · exact hb
          · simp [List.takeWhile_cons_of_neg hb] at hd
      exact (if_pos hfirst).trans (skip_of_perhapsE h)
  · next b after hpoint =>
    have hskip : skipPerhapsE (b :: after) = .ok ((), rest) := by
      split at h
      case isTrue => exact skip_of_perhapsE h
      case isFalse he =>
        obtain ⟨-, rfl⟩ := Prod.mk.inj (Except.ok.inj h)
        simp only [Bool.or_eq_true, not_or] at he
        simp [skipPerhapsE, he.1.1, he.1.2]
    split
    · next after' heq => exact absurd (List.cons.inj heq).1 hpoint
    · exact hskip
  · split at h
    case isTrue => exact skip_of_perhapsE h
    case isFalse =>
      obtain ⟨-, rfl⟩ := Prod.mk.inj (Except.ok.inj h)
      rfl

theorem skip_of_read (h : read negative bs = .ok (n, rest)) : skip bs = .ok ((), rest) := by
  cases bs with
  | nil => cases h
  | cons b bs =>
    simp only [read] at h
    split at h
    case isTrue hz =>
      obtain rfl := beq_iff_eq.mp hz
      split at h
      case isTrue => cases h
      case isFalse hd =>
        have hdrop : (48 :: bs).dropWhile isDigit = bs := by
          rw [List.dropWhile_cons_of_pos rfl]
          cases bs with
          | nil => rfl
          | cons c bs => exact List.dropWhile_cons_of_neg hd
        simp only [skip, hdrop]
        rw [if_neg (by simp [hd, show isDigit 48 = true from rfl])]
        exact skip_of_afterInteger h
    case isFalse hz =>
      split at h
      case isFalse => cases h
      case isTrue hd =>
        simp only [skip]
        rw [if_neg (by simp [hd, hz])]
        exact skip_of_afterInteger h

private theorem length_skipExponent (h : skipExponent bs = .ok ((), rest)) : rest.length ≤ bs.length := by
  have unsigned : ∀ {tail : Bytes}, tail.length ≤ bs.length →
      (if tail.head?.any isDigit then (.ok ((), tail.dropWhile isDigit) : Except Fault (Unit × Bytes))
        else .error (.malformed .badNumber)) = .ok ((), rest) → rest.length ≤ bs.length := by
    intro tail hle h
    split at h
    case isFalse => cases h
    case isTrue =>
      obtain ⟨-, rfl⟩ := Prod.mk.inj (Except.ok.inj h)
      exact Nat.le_trans (List.dropWhile_suffix _).length_le hle
  cases bs with
  | nil => exact unsigned (Nat.le_refl _) h
  | cons b bs =>
    simp only [skipExponent] at h
    apply unsigned _ h
    split
    · exact Nat.le_succ _
    · exact Nat.le_refl _

private theorem length_skipPerhapsE (h : skipPerhapsE bs = .ok ((), rest)) : rest.length ≤ bs.length := by
  cases bs with
  | nil =>
    obtain ⟨-, rfl⟩ := Prod.mk.inj (Except.ok.inj h)
    exact Nat.le_refl _
  | cons b bs =>
    rw [skipPerhapsE] at h
    split at h
    case isTrue => exact Nat.le_succ_of_le (length_skipExponent h)
    case isFalse =>
      obtain ⟨-, rfl⟩ := Prod.mk.inj (Except.ok.inj h)
      exact Nat.le_refl _

theorem length_read (h : read negative bs = .ok (n, rest)) : rest.length < bs.length := by
  have hskip := skip_of_read h
  cases bs with
  | nil => cases h
  | cons b bs =>
    simp only [skip] at hskip
    split at hskip
    case isTrue => cases hskip
    case isFalse hd =>
      have hdigit : isDigit b = true := by
        simp only [Bool.or_eq_true, not_or] at hd
        simpa using hd.1
      have hdrop := (List.dropWhile_suffix isDigit (l := bs)).length_le
      rw [List.dropWhile_cons_of_pos hdigit] at hskip
      apply Nat.lt_succ_of_le
      split at hskip
      · next after heq =>
        rw [heq, List.length_cons] at hdrop
        split at hskip
        case isTrue =>
          have hl := length_skipPerhapsE hskip
          have hafter := (List.dropWhile_suffix isDigit (l := after)).length_le
          omega
        case isFalse => cases hskip
      · exact Nat.le_trans (length_skipPerhapsE hskip) hdrop

end Number

theorem skipBody_token {bs rest : Bytes} (h : Token bs rest) : Reader.skipBody bs = .ok ((), rest) := by
  induction h with
  | close rest => rw [Reader.skipBody]
  | @plain b bs rest quote escape control more ih =>
    rw [← ih]
    conv => lhs; unfold Reader.skipBody
    split
    case h_7 heq =>
      obtain ⟨rfl, rfl⟩ := List.cons.inj heq
      rw [if_neg control]
    all_goals simp_all
  | @letter b x bs rest letter more ih =>
    have hu : b ≠ 117 := by
      intro hb
      subst hb
      cases letter
    rw [Reader.skipBody, letter, ih]
    · simp
    · exact fun _ _ _ _ _ hb => absurd hb hu
    · exact hu
  | unit digits more ih =>
    rw [Reader.skipBody, digits]
    simp [ih]

theorem Quoted.token {bs text rest : Bytes} (h : Quoted bs text rest) : Token bs rest := by
  induction h with
  | close rest => exact .close rest
  | plain quote escape control _ ih => exact .plain quote escape control ih
  | letter letter _ ih => exact .letter letter ih
  | unit digits _ _ _ ih => exact .unit digits ih
  | pair first _ second _ _ ih => exact .unit first (.unit second ih)

theorem Token.length_lt {bs rest : Bytes} (h : Token bs rest) : rest.length < bs.length := by
  induction h <;> simp only [List.length_cons] at * <;> omega

theorem Scalar.length_le {b : UInt8} {bs rest : Bytes} {v : Document} (h : Scalar b bs v rest) :
    rest.length ≤ bs.length := by
  cases h with
  | number _ read => exact Nat.le_of_lt_succ (Number.length_read read)
  | negative read => exact Nat.le_of_lt (Number.length_read read)
  | _ => simp only [List.length_cons]; omega

theorem Spells.length_lt {bs rest : Bytes} {p : Part} (h : Spells bs p rest) : rest.length < bs.length := by
  induction h with
  | blank _ _ ih => exact Nat.lt_succ_of_lt ih
  | scalar h => exact Nat.lt_succ_of_le h.length_le
  | text text => exact Nat.lt_succ_of_lt text.token.length_lt
  | torn token _ => exact Nat.lt_succ_of_lt token.length_lt
  | list _ ih | object _ ih | field _ ih => exact Nat.lt_succ_of_lt ih
  | itemsEnd | membersEnd => exact Nat.lt_succ_self _
  | firstItem _ _ ih ihmore | firstMember _ _ ih ihmore => exact Nat.lt_trans ihmore ih
  | laterItem _ _ ih ihmore | laterMember _ _ ih ihmore => exact Nat.lt_succ_of_lt (Nat.lt_trans ihmore ih)
  | member text _ ih => exact Nat.lt_succ_of_lt (Nat.lt_trans ih text.token.length_lt)

/-! ## Values -/

namespace Reader

/-- Passing over the next entry of the innermost open container, and on from there. -/
def skipEntry (fuel : Nat) (frame : Frame) (outer : List Frame) : Reader Unit := do
  if frame = Frame.object then skipName
  skipFrom fuel (frame :: outer)

/-- Passing on behind an entry of the innermost open container, or at its beginning. -/
def skipAt (full : Bool) (fuel : Nat) (stack : List Frame) : Reader Unit := do
  match ← skipEnds full stack with
  | [] => pure ()
  | frame :: outer => skipEntry fuel frame outer

theorem skipFrom_succ (fuel : Nat) (stack : List Frame) : skipFrom (fuel + 1) stack = (do
    match ← skipStart with
    | some frame => skipAt false fuel (frame :: stack)
    | none => skipAt true fuel stack) := by
  funext bs
  rw [skipFrom]
  simp only [bind, StateT.bind]
  cases skipStart bs with
  | error fault => rfl
  | ok x =>
    obtain ⟨open?, rest⟩ := x
    cases open? <;>
    · simp only [skipAt, bind, StateT.bind, Except.bind]
      cases skipEnds _ _ rest with
      | error fault => rfl
      | ok x =>
        obtain ⟨stack', rest⟩ := x
        cases stack' <;> rfl

theorem skipsBlanks_skipStart : SkipsBlanks skipStart := skipsBlanks_start.bind _

theorem skipsBlanks_skipFrom (fuel : Nat) (stack : List Frame) : SkipsBlanks (skipFrom fuel stack) := by
  cases fuel with
  | zero => exact fun _ _ _ => rfl
  | succ fuel =>
    rw [skipFrom_succ]
    exact skipsBlanks_skipStart.bind _

theorem skipsBlanks_skipAt (full : Bool) (fuel : Nat) (frame : Frame) (stack : List Frame) :
    SkipsBlanks (skipAt full fuel (frame :: stack)) :=
  SkipsBlanks.bind (skipsBlanks_peek.bind _) _

theorem skipsBlanks_skipName : SkipsBlanks skipName := skipsBlanks_peek.bind _

variable {fuel : Nat} {stack : List Frame} {frame : Frame} {bs rest : Bytes}

theorem skipFrom_of_plain (h : skipStart bs = .ok (none, rest)) :
    skipFrom (fuel + 1) stack bs = skipAt true fuel stack rest := by
  rw [skipFrom_succ, bind_ok h]

theorem skipFrom_of_open (h : skipStart bs = .ok (some frame, rest)) :
    skipFrom (fuel + 1) stack bs = skipAt false fuel (frame :: stack) rest := by
  rw [skipFrom_succ, bind_ok h]

theorem skipAt_close {b : UInt8} (h : (frame = .list ∧ b = 93) ∨ (frame = .object ∧ b = 125)) (full : Bool) :
    skipAt full fuel (frame :: stack) (b :: rest) = skipAt true fuel stack rest := by
  have hblank : isBlank b = false := by
    rcases h with ⟨-, rfl⟩ | ⟨-, rfl⟩ <;> rfl
  have hend : skipEnds full (frame :: stack) (b :: rest) = skipEnds true stack rest := by
    rw [skipEnds, bind_ok (peek_cons hblank rest)]
    rcases h with ⟨rfl, rfl⟩ | ⟨rfl, rfl⟩ <;> simp [bind_ok (advance_cons _ rest)]
  simp only [skipAt, bind, StateT.bind, hend]

theorem skipAt_comma : skipAt true fuel (frame :: stack) (44 :: rest) = skipEntry fuel frame stack rest := by
  have hend : skipEnds true (frame :: stack) (44 :: rest) = .ok (frame :: stack, rest) := by
    rw [skipEnds, bind_ok (peek_cons rfl rest)]
    rfl
  rw [skipAt, bind_ok hend]

theorem skipAt_entry {b : UInt8} (hblank : isBlank b = false) (hlist : b ≠ 93) (hobject : b ≠ 125) :
    skipAt false fuel (frame :: stack) (b :: rest) = skipEntry fuel frame stack (b :: rest) := by
  have hend : skipEnds false (frame :: stack) (b :: rest) = .ok (frame :: stack, b :: rest) := by
    rw [skipEnds, bind_ok (peek_cons hblank rest)]
    simp [hlist, hobject]
    rfl
  rw [skipAt, bind_ok hend]


/-- How a part is passed over, and the containers that are open behind it. -/
def passing (fuel : Nat) (stack : List Frame) : Part → Reader Unit
  | .value _ => skipFrom fuel stack
  | .items first _ => skipAt (!first) fuel (.list :: stack)
  | .field _ => do
    colon
    skipFrom fuel stack
  | .member .. => skipEntry fuel .object stack
  | .members first _ => skipAt (!first) fuel (.object :: stack)

def behind (stack : List Frame) : Part → List Frame
  | .member .. => .object :: stack
  | _ => stack

theorem skipsBlanks_passing (fuel : Nat) (stack : List Frame) (p : Part) : SkipsBlanks (passing fuel stack p) := by
  cases p with
  | value v => exact skipsBlanks_skipFrom fuel stack
  | items first vs => exact skipsBlanks_skipAt _ fuel _ _
  | field v => exact skipsBlanks_colon.bind _
  | member name v => exact skipsBlanks_skipName.bind _
  | members first ms => exact skipsBlanks_skipAt _ fuel _ _


variable {p : Part}

private theorem skipStart_scalar {b : UInt8} {v : Document} (h : Scalar b bs v rest) :
    skipStart (b :: bs) = .ok (none, rest) := by
  cases h with
  | number digit read =>
    obtain ⟨hblank, hminus⟩ := not_blank_of_isDigit digit
    rw [skipStart, bind_ok (start_cons hblank bs)]
    split
    case h_8 =>
      rw [if_pos digit]
      exact bind_ok (Number.skip_of_read read)
    case h_4 => cases hminus
    all_goals cases digit
  | negative read =>
    rw [skipStart, bind_ok (start_cons rfl bs)]
    exact (bind_ok (advance_cons _ _)).trans (bind_ok (Number.skip_of_read read))
  | _ => rfl

private theorem skipAt_of_entry (h : Spells bs p rest) (hp : p.isEntry = true) (fuel : Nat) (frame : Frame)
    (stack : List Frame) : skipAt false fuel (frame :: stack) bs = skipEntry fuel frame stack bs := by
  obtain ⟨blanks, b, tail, rfl, hblanks, hb, hlist, hobject, -⟩ := h.front hp
  have hentry : SkipsBlanks (skipEntry fuel frame stack) := by
    cases frame with
    | list => exact skipsBlanks_skipFrom fuel _
    | object => exact skipsBlanks_skipName.bind _
  rw [(skipsBlanks_skipAt false fuel frame stack).append hblanks, hentry.append hblanks, skipAt_entry hb hlist hobject]

private theorem skipFrom_plain (h : skipStart bs = .ok (none, rest)) (hrest : rest.length < bs.length) {fuel : Nat}
    (hf : bs.length < fuel) (stack : List Frame) :
    ∃ left, rest.length < left ∧ skipFrom fuel stack bs = skipAt true left stack rest := by
  obtain ⟨fuel, rfl⟩ := Nat.exists_eq_add_one.mpr (Nat.zero_lt_of_lt hf)
  exact ⟨fuel, by omega, skipFrom_of_plain h⟩

private theorem skipFrom_token (h : Token bs rest) {fuel : Nat} (hf : (34 :: bs).length < fuel)
    (stack : List Frame) :
    ∃ left, rest.length < left ∧ skipFrom fuel stack (34 :: bs) = skipAt true left stack rest := by
  have hs : skipStart (34 :: bs) = .ok (none, rest) := by
    rw [skipStart, bind_ok (start_cons rfl bs)]
    exact (bind_ok (advance_cons _ _)).trans (bind_ok (skipBody_token h))
  exact skipFrom_plain hs (Nat.lt_succ_of_lt h.length_lt) hf stack

private theorem skipFrom_open {b : UInt8} (frame : Frame) (h : skipStart (b :: bs) = .ok (some frame, bs))
    {fuel : Nat} (hf : (b :: bs).length < fuel) (stack : List Frame) :
    ∃ left, bs.length < left ∧ skipFrom fuel stack (b :: bs) = skipAt false left (frame :: stack) bs := by
  rw [List.length_cons] at hf
  obtain ⟨fuel, rfl⟩ := Nat.exists_eq_add_one.mpr (Nat.zero_lt_of_lt hf)
  exact ⟨fuel, by omega, skipFrom_of_open h⟩

/-- Any part is passed over to where it ends, and there is fuel left for what is behind it. -/
theorem passing_spells (h : Spells bs p rest) {fuel : Nat} (hf : bs.length < fuel) (stack : List Frame) :
    ∃ left, rest.length < left ∧ passing fuel stack p bs = skipAt true left (behind stack p) rest := by
  induction h generalizing fuel stack with
  | @blank b bs rest p hb more ih =>
    rw [skipsBlanks_passing fuel stack p b bs hb]
    exact ih (Nat.lt_of_succ_lt hf) stack
  | scalar h => exact skipFrom_plain (skipStart_scalar h) (Nat.lt_succ_of_le h.length_le) hf stack
  | text text => exact skipFrom_token text.token hf stack
  | torn token _ => exact skipFrom_token token hf stack
  | list items ih =>
    obtain ⟨left, hleft, hopen⟩ := skipFrom_open .list rfl hf stack
    obtain ⟨left, hleft, hskip⟩ := ih hleft stack
    exact ⟨left, hleft, hopen.trans hskip⟩
  | object members ih =>
    obtain ⟨left, hleft, hopen⟩ := skipFrom_open .object rfl hf stack
    obtain ⟨left, hleft, hskip⟩ := ih hleft stack
    exact ⟨left, hleft, hopen.trans hskip⟩
  | itemsEnd first rest => exact ⟨fuel, Nat.lt_of_succ_lt hf, skipAt_close (.inl ⟨rfl, rfl⟩) _⟩
  | membersEnd first rest => exact ⟨fuel, Nat.lt_of_succ_lt hf, skipAt_close (.inr ⟨rfl, rfl⟩) _⟩
  | firstItem item more ih ihmore =>
    obtain ⟨left, hleft, hskip⟩ := ih hf (.list :: stack)
    obtain ⟨left, hleft, hrest⟩ := ihmore hleft stack
    exact ⟨left, hleft, (skipAt_of_entry item rfl fuel .list stack).trans (hskip.trans hrest)⟩
  | laterItem item more ih ihmore =>
    obtain ⟨left, hleft, hskip⟩ := ih (Nat.lt_of_succ_lt hf) (.list :: stack)
    obtain ⟨left, hleft, hrest⟩ := ihmore hleft stack
    exact ⟨left, hleft, skipAt_comma.trans (hskip.trans hrest)⟩
  | firstMember member more ih ihmore =>
    obtain ⟨left, hleft, hskip⟩ := ih hf stack
    obtain ⟨left, hleft, hrest⟩ := ihmore hleft stack
    exact ⟨left, hleft, (skipAt_of_entry member rfl fuel .object stack).trans (hskip.trans hrest)⟩
  | laterMember member more ih ihmore =>
    obtain ⟨left, hleft, hskip⟩ := ih (Nat.lt_of_succ_lt hf) stack
    obtain ⟨left, hleft, hrest⟩ := ihmore hleft stack
    exact ⟨left, hleft, skipAt_comma.trans (hskip.trans hrest)⟩
  | @field bs rest v value ih =>
    obtain ⟨left, hleft, hskip⟩ := ih (Nat.lt_of_succ_lt hf) stack
    exact ⟨left, hleft, (bind_ok (colon_cons bs)).trans hskip⟩
  | @member bs mid rest name v text field ih =>
    have hname : skipName (34 :: bs) = colon mid := by
      rw [skipName, bind_ok (peek_cons rfl bs)]
      exact (bind_ok (advance_cons _ _)).trans (bind_ok (skipBody_token text.token))
    have hbody : passing fuel stack (.member name v) (34 :: bs) = passing fuel (.object :: stack) (.field v) mid :=
      congrArg (fun x : Except Fault (Unit × Bytes) => x >>= fun y => skipFrom fuel (.object :: stack) y.2) hname
    obtain ⟨left, hleft, hskip⟩ := ih (Nat.lt_trans text.token.length_lt (Nat.lt_of_succ_lt hf)) (.object :: stack)
    exact ⟨left, hleft, hbody.trans hskip⟩

/-- What is passed over is a value and no more. -/
theorem skip_spells {v : Document} (h : Spells bs (.value v) rest) : skip bs = .ok ((), rest) := by
  obtain ⟨left, -, hskip⟩ := passing_spells h (Nat.lt_succ_self _) []
  exact hskip

end Reader

end SshAuthority.Json
