import SshAuthority.Proofs.Json.Text
/-!
# Reading what was written

A reader reads a value where it gives the value's meaning for its text and stops right behind it. The
readers of parts are combined to readers of wholes the way the text of a whole is put together from
the texts of its parts.
-/
namespace SshAuthority.Json

variable {α β σ : Type}

/-- A reader takes the text of a value from the front, and that value means `a`. -/
def Reads (r : Reader α) (v : Value) (a : α) : Prop :=
  ∀ rest, Stops rest → r (v.write ++ rest) = .ok (a, rest)

/-! ## Steps of a reader -/

theorem bind_ok {x : Reader α} {f : α → Reader β} {bs rest : Bytes} {a : α} (h : x bs = .ok (a, rest)) :
    (x >>= f) bs = f a rest := by
  simp [bind, StateT.bind, h, Except.bind]

theorem map_ok {x : Reader α} {f : α → β} {bs rest : Bytes} {a : α} (h : x bs = .ok (a, rest)) :
    (f <$> x) bs = .ok (f a, rest) := by
  simp [Functor.map, StateT.map, h, bind, Except.bind, pure, Except.pure]

theorem peek_cons {b : UInt8} (h : Reader.isBlank b = false) (rest : Bytes) :
    Reader.peek (b :: rest) = .ok (some b, b :: rest) := by
  simp [Reader.peek, h]

theorem start_cons {b : UInt8} (h : Reader.isBlank b = false) (rest : Bytes) :
    Reader.start (b :: rest) = .ok (b, b :: rest) := by
  rw [Reader.start, bind_ok (peek_cons h rest)]
  rfl

theorem advance_cons (b : UInt8) (rest : Bytes) : Reader.advance (b :: rest) = .ok ((), rest) := rfl

theorem colon_cons (rest : Bytes) : Reader.colon (58 :: rest) = .ok ((), rest) := by
  rw [Reader.colon, bind_ok (peek_cons rfl rest)]
  rfl

theorem write_text (s : String) (rest : Bytes) : (Value.text s).write ++ rest =
    34 :: ((Utf8.encode s).flatMap Value.escape ++ 34 :: rest) := by
  simp [Value.write, Value.quote]

theorem Reads.map {r : Reader α} {v : Value} {a : α} (h : Reads r v a) (f : α → β) :
    Reads (f <$> r) v (f a) :=
  fun rest hr => map_ok (h rest hr)

/-! ## Plain values -/

theorem reads_text (s : String) : Reads Reader.text (.text s) s := by
  intro rest _
  rw [write_text, Reader.text, bind_ok (start_cons rfl _)]
  exact (bind_ok (advance_cons _ _)).trans (body_text s rest)

theorem not_blank_of_isDigit {b : UInt8} (h : isDigit b) :
    Reader.isBlank b = false ∧ (b == 45) = false := by
  simp only [isDigit, Bool.and_eq_true, decide_eq_true_eq] at h
  have hn : ∀ c : UInt8, c < 48 → (b == c) = false := by
    intro c hc
    rw [beq_eq_false_iff_ne]
    rintro rfl
    exact UInt8.not_le.mpr hc h.1
  simp [Reader.isBlank, hn]

theorem reads_natural {n : Nat} (h : n < Number.limit) :
    Reads Reader.natural (.number (.natural n)) n := by
  intro rest hr
  have hn := number_toString h hr
  obtain ⟨b, more, hb, hd⟩ := toString_cons n
  obtain ⟨hs, hm⟩ := not_blank_of_isDigit hd
  rw [Value.write, Value.writeNumber]
  rw [hb, List.cons_append] at hn ⊢
  rw [Reader.natural, bind_ok (start_cons hs _)]
  simp only [hm, hd, Bool.or_true, if_true]
  exact bind_ok hn

theorem variant_ok {known : List (String × α)} {name : String} {x : α} (h : known.lookup name = some x)
    (expected : String) (rest : Bytes) :
    Reader.variant expected known ((Value.text name).write ++ rest) = .ok (x, rest) := by
  rw [write_text, Reader.variant, bind_ok (start_cons rfl _)]
  refine (bind_ok (advance_cons _ _)).trans ((bind_ok (body_text name rest)).trans ?_)
  simp only [h]
  rfl

theorem reads_plainChoice {known : List (String × α)} {name : String} {x : α}
    (h : known.lookup name = some x) : Reads (Reader.plainChoice known) (.text name) x := by
  intro rest _
  have hv := variant_ok h "variant identifier" rest
  rw [write_text] at hv ⊢
  rw [Reader.plainChoice, Reader.choice, bind_ok (start_cons rfl _)]
  exact bind_ok hv

theorem length_le_quote (s : String) : (Utf8.encode s).length ≤ (Value.quote s).length := by
  have hescape : ∀ b, 1 ≤ (Value.escape b).length := by
    intro b
    unfold Value.escape
    repeat' split
    all_goals simp
  have hl : ∀ bs : Bytes, bs.length ≤ (bs.flatMap Value.escape).length := by
    intro bs
    induction bs with
    | nil => exact Nat.le_refl 0
    | cons b bs ih =>
      have hb := hescape b
      rw [List.flatMap_cons, List.length_append, List.length_cons]
      omega
  have hs := hl (Utf8.encode s)
  rw [Value.quote, List.length_append, List.length_cons]
  omega

/-! ## Lists of texts -/

theorem writeItems_cons (v : Value) (vs : List Value) :
    Value.writeItems (v :: vs) = v.write ++ vs.flatMap fun w => 44 :: w.write := by
  induction vs generalizing v with
  | nil => simp [Value.writeItems]
  | cons w vs ih => rw [Value.writeItems, ih, List.flatMap_cons, List.cons_append]

private theorem length_le_flatMap (f : α → Bytes) (l : List α) :
    l.length ≤ (l.flatMap fun a => 44 :: f a).length := by
  induction l with
  | nil => simp
  | cons a l ih =>
    rw [List.flatMap_cons, List.length_append, List.length_cons, List.length_cons]
    omega

theorem length_le_write (vs : List Value) : vs.length ≤ (Value.list vs).write.length := by
  cases vs with
  | nil => exact Nat.zero_le _
  | cons v vs =>
    have hl := length_le_flatMap Value.write vs
    rw [Value.write, writeItems_cons]
    simp only [List.length_append, List.length_cons]
    omega

private theorem another_text (s : String) (rest : Bytes) :
    Reader.another false (44 :: ((Value.text s).write ++ rest)) = .ok (true, (Value.text s).write ++ rest) := by
  rw [Reader.another, bind_ok (peek_cons rfl _), write_text]
  refine (bind_ok (advance_cons _ _)).trans ((bind_ok (peek_cons rfl _)).trans ?_)
  rfl

theorem stops_later (f : α → Bytes) (l : List α) {b : UInt8} (h : b = 44 ∨ b = 93 ∨ b = 125) (rest : Bytes) :
    Stops (l.flatMap (fun a => 44 :: f a) ++ b :: rest) := by
  cases l with
  | nil => exact stops_cons h _
  | cons a l => exact stops_cons (by decide) _

private theorem elementsFrom_texts {fuel : Nat} (ss : List String) (h : ss.length < fuel) {done : List String}
    (hd : done ≠ []) (rest : Bytes) :
    Reader.elementsFrom Reader.text fuel done
      (ss.flatMap (fun s => 44 :: (Value.text s).write) ++ 93 :: rest) =
        .ok (done.reverse ++ ss, 93 :: rest) := by
  have he : done.isEmpty = false := by simpa using hd
  induction ss generalizing fuel done with
  | nil =>
    obtain ⟨fuel, rfl⟩ := Nat.exists_eq_add_one.mpr h
    have ha : Reader.another false (93 :: rest) = .ok (false, 93 :: rest) := by
      rw [Reader.another, bind_ok (peek_cons rfl _)]
      rfl
    rw [List.flatMap_nil, List.nil_append, Reader.elementsFrom, he, bind_ok ha, List.append_nil]
    rfl
  | cons s ss ih =>
    obtain ⟨fuel, rfl⟩ := Nat.exists_eq_add_one.mpr (Nat.zero_lt_of_lt h)
    rw [List.length_cons] at h
    rw [List.flatMap_cons, List.append_assoc, List.cons_append, Reader.elementsFrom, he,
      bind_ok (another_text s _)]
    refine (bind_ok (reads_text s _ (stops_later _ ss (by decide) rest))).trans ?_
    rw [ih (by omega) (by simp) (by simp), List.reverse_cons, List.append_assoc]
    rfl

theorem reads_texts (ss : List String) :
    Reads (Reader.list Reader.text) (.list (ss.map .text)) ss := by
  intro rest _
  have hc : Reader.closeList (93 :: rest) = .ok ((), rest) := by
    rw [Reader.closeList, bind_ok (peek_cons rfl _)]
    rfl
  have he : Reader.elements Reader.text (Value.writeItems (ss.map .text) ++ 93 :: rest) =
      .ok (ss, 93 :: rest) := by
    cases ss with
    | nil =>
      have ha : Reader.another true (93 :: rest) = .ok (false, 93 :: rest) := by
        rw [Reader.another, bind_ok (peek_cons rfl _)]
        rfl
      rw [List.map_nil, Value.writeItems, List.nil_append, Reader.elements, Reader.elementsFrom]
      exact bind_ok ha
    | cons s ss =>
      rw [List.map_cons, writeItems_cons, List.flatMap_map, List.append_assoc]
      have ha : ∀ more, Reader.another true ((Value.text s).write ++ more) =
          .ok (true, (Value.text s).write ++ more) := by
        intro more
        rw [write_text, Reader.another, bind_ok (peek_cons rfl _)]
        rfl
      rw [Reader.elements, Reader.elementsFrom]
      refine (bind_ok (ha _)).trans ((bind_ok (reads_text s _ (stops_later _ ss (by decide) rest))).trans ?_)
      have hl := length_le_flatMap (fun s => (Value.text s).write) ss
      refine (elementsFrom_texts ss ?_ (by simp) rest).trans (by simp)
      simp only [List.length_append, List.length_cons]
      omega
  have hw : (Value.list (ss.map .text)).write ++ rest =
      91 :: (Value.writeItems (ss.map .text) ++ 93 :: rest) := by
    simp [Value.write]
  rw [hw, Reader.list, bind_ok (start_cons rfl _)]
  exact (bind_ok (advance_cons _ _)).trans ((bind_ok he).trans ((bind_ok hc).trans rfl))

/-! ## Objects -/

/-- The members of an object one after the other, each of which takes a reading on. -/
inductive Steps (step : String → σ → Reader σ) : σ → List (String × Value) → σ → Prop where
  | nil (s : σ) : Steps step s [] s
  | cons {s t u : σ} {name : String} {v : Value} {members : List (String × Value)}
    (member : ∀ rest, Stops rest → step name s (58 :: (v.write ++ rest)) = .ok (t, rest))
    (more : Steps step t members u) : Steps step s ((name, v) :: members) u

def memberText (m : String × Value) : Bytes := Value.quote m.1 ++ 58 :: m.2.write

theorem writeMembers_cons (m : String × Value) (ms : List (String × Value)) :
    Value.writeMembers (m :: ms) = memberText m ++ ms.flatMap fun n => 44 :: memberText n := by
  induction ms generalizing m with
  | nil => simp [Value.writeMembers, memberText]
  | cons n ms ih =>
    rw [Value.writeMembers, ih, List.flatMap_cons]
    simp [memberText]

private theorem nextName_later (m : String × Value) (rest : Bytes) :
    Reader.nextName false (44 :: (memberText m ++ rest)) = .ok (some m.1, 58 :: (m.2.write ++ rest)) := by
  have hm : memberText m ++ rest =
      34 :: ((Utf8.encode m.1).flatMap Value.escape ++ 34 :: (58 :: (m.2.write ++ rest))) := by
    simp [memberText, Value.quote]
  rw [Reader.nextName, bind_ok (peek_cons rfl _), hm]
  refine (bind_ok (advance_cons _ _)).trans ((bind_ok (peek_cons rfl _)).trans ?_)
  exact (bind_ok (advance_cons _ _)).trans (map_ok (body_text _ _))

private theorem nextName_first (m : String × Value) (rest : Bytes) :
    Reader.nextName true (memberText m ++ rest) = .ok (some m.1, 58 :: (m.2.write ++ rest)) := by
  have hm : memberText m ++ rest =
      34 :: ((Utf8.encode m.1).flatMap Value.escape ++ 34 :: (58 :: (m.2.write ++ rest))) := by
    simp [memberText, Value.quote]
  rw [hm, Reader.nextName, bind_ok (peek_cons rfl _)]
  exact (bind_ok (advance_cons _ _)).trans (map_ok (body_text _ _))

theorem nextName_end (first : Bool) (rest : Bytes) :
    Reader.nextName first (125 :: rest) = .ok (none, 125 :: rest) := by
  rw [Reader.nextName, bind_ok (peek_cons rfl _)]
  rfl

private theorem membersFrom_later {step : String → σ → Reader σ} {fuel : Nat} {s t : σ}
    {ms : List (String × Value)} (h : Steps step s ms t) (hf : ms.length < fuel) (rest : Bytes) :
    Reader.membersFrom step fuel false s (ms.flatMap (fun m => 44 :: memberText m) ++ 125 :: rest) =
      .ok (t, 125 :: rest) := by
  induction h generalizing fuel with
  | nil s =>
    obtain ⟨fuel, rfl⟩ := Nat.exists_eq_add_one.mpr hf
    rw [List.flatMap_nil, List.nil_append, Reader.membersFrom, bind_ok (nextName_end _ _)]
    rfl
  | @cons s t u name v members member more ih =>
    obtain ⟨fuel, rfl⟩ := Nat.exists_eq_add_one.mpr (Nat.zero_lt_of_lt hf)
    rw [List.length_cons] at hf
    rw [List.flatMap_cons, List.append_assoc, List.cons_append, Reader.membersFrom,
      bind_ok (nextName_later (name, v) _)]
    exact (bind_ok (member _ (stops_later memberText members (by decide) rest))).trans (ih (by omega))

theorem members_ok {step : String → σ → Reader σ} {s t : σ} {ms : List (String × Value)}
    (h : Steps step s ms t) (rest : Bytes) :
    Reader.members step s (Value.writeMembers ms ++ 125 :: rest) = .ok (t, 125 :: rest) := by
  rw [Reader.members]
  cases h with
  | nil s =>
    rw [Value.writeMembers, List.nil_append, Reader.membersFrom, bind_ok (nextName_end _ _)]
    rfl
  | @cons s t u name v members member more =>
    have hl := length_le_flatMap memberText members
    rw [writeMembers_cons, List.append_assoc, Reader.membersFrom, bind_ok (nextName_first (name, v) _)]
    refine (bind_ok (member _ (stops_later memberText members (by decide) rest))).trans (membersFrom_later more ?_ rest)
    simp only [List.length_append, List.length_cons]
    omega

/-- An object that stands for a record. -/
theorem reads_record {named listed : Reader α} {ms : List (String × Value)} {a : α}
    (h : ∀ rest, named (Value.writeMembers ms ++ 125 :: rest) = .ok (a, 125 :: rest)) (expected : String) :
    Reads (Reader.record expected named listed) (.object ms) a := by
  intro rest _
  have hc : Reader.closeObject (125 :: rest) = .ok ((), rest) := by
    rw [Reader.closeObject, bind_ok (peek_cons rfl _)]
    rfl
  have hw : (Value.object ms).write ++ rest = 123 :: (Value.writeMembers ms ++ 125 :: rest) := by
    simp [Value.write]
  rw [hw, Reader.record, bind_ok (start_cons rfl _)]
  exact (bind_ok (advance_cons _ _)).trans ((bind_ok (h rest)).trans ((bind_ok hc).trans rfl))

theorem once_ok {value : Reader α} {v : Value} {a : α} (h : Reads value v a) (field : String)
    {rest : Bytes} (hr : Stops rest) :
    Reader.once field none value (58 :: (v.write ++ rest)) = .ok (some a, rest) := by
  rw [Reader.once, Option.isSome_none]
  exact (bind_ok (colon_cons _)).trans (map_ok (h rest hr))

theorem reads_choice {name : Reader β} {bare filled : β → Reader α} {label : String} {v : Value} {b : β}
    {a : α} (hn : ∀ rest, name ((Value.text label).write ++ rest) = .ok (b, rest))
    (hf : Reads (filled b) v a) : Reads (Reader.choice name bare filled) (.object [(label, v)]) a := by
  intro rest _
  have hw : (Value.object [(label, v)]).write ++ rest =
      123 :: ((Value.text label).write ++ 58 :: (v.write ++ 125 :: rest)) := by
    simp [Value.write, Value.writeMembers]
  rw [hw, Reader.choice, bind_ok (start_cons rfl _)]
  refine (bind_ok (advance_cons _ _)).trans ((bind_ok (hn _)).trans ((bind_ok (colon_cons _)).trans ?_))
  refine (bind_ok (hf _ (stops_cons (by decide) _))).trans ((bind_ok (peek_cons rfl _)).trans ?_)
  rfl

/-- A payload that is a value is read in whole. -/
theorem whole_of_reads {r : Reader α} {v : Value} {a : α} (h : Reads r v a) :
    Reader.whole r v.write = .ok a := by
  have hr := h [] stops_nil
  rw [List.append_nil] at hr
  simp [Reader.whole, StateT.run, hr, bind, Except.bind, pure, Except.pure]

end SshAuthority.Json
