import SshAuthority.Wire.Frame
/-!
# Frames of a stream

Reading depends on the bytes of a stream alone and not on where it is cut, and a frame tells by itself
where it ends.
-/
namespace SshAuthority.Wire.Frame

def frameOf (payload : Bytes) : Bytes := lengthBytes payload.length ++ payload

theorem write_eq_ok {payload frame : Bytes} :
    write payload = .ok frame ↔ payload.length ≤ maxPayload ∧ frame = frameOf payload := by
  rw [write]
  by_cases h : payload.length ≤ maxPayload
  · simp [h, frameOf, eq_comm]
  · simp [h]

theorem write_eq_error {payload : Bytes} {fault : StreamFault} :
    write payload = .error fault ↔ maxPayload < payload.length ∧ fault = .payloadTooLarge payload.length := by
  rw [write]
  by_cases h : payload.length ≤ maxPayload
  · simp [h, Nat.not_lt.mpr h]
  · simp [h, Nat.not_le.mp h, eq_comm]

theorem write_of_le {payload : Bytes} (h : payload.length ≤ maxPayload) :
    write payload = .ok (frameOf payload) :=
  write_eq_ok.mpr ⟨h, rfl⟩

theorem write_of_lt {payload : Bytes} (h : maxPayload < payload.length) :
    write payload = .error (.payloadTooLarge payload.length) :=
  write_eq_error.mpr ⟨h, rfl⟩

theorem length_lengthBytes (n : Nat) : (lengthBytes n).length = 4 := by
  simp [lengthBytes, Sha256.bigEndian]

theorem frameOf_ne_nil (payload : Bytes) : frameOf payload ≠ [] := by
  intro h
  have hl := congrArg List.length h
  simp [frameOf, length_lengthBytes] at hl

theorem lengthOf_lengthBytes {n : Nat} (h : n < Nat.pow 2 32) : lengthOf (lengthBytes n) = n := by
  have hr : (List.range 4).reverse = [3, 2, 1, 0] := by decide
  simp only [lengthBytes, Sha256.bigEndian, hr, lengthOf, List.map_cons, List.map_nil, List.foldl_cons,
    List.foldl_nil, UInt8.toNat_ofNat', Nat.pow_eq, Nat.reducePow] at h ⊢
  omega

/-! ## Taking bytes -/

private theorem takeOnto_of_le (done : List Bytes) {count : Nat} {stream : Arrivals}
    (h : count ≤ stream.flatten.length) : ∃ rest,
      takeOnto done count stream = .ok (done.reverse.flatten ++ stream.flatten.take count, rest) ∧
        rest.flatten = stream.flatten.drop count := by
  induction stream generalizing done count with
  | nil =>
    have hc : count = 0 := by simpa using h
    exact ⟨[], by simp [takeOnto, hc], by simp⟩
  | cons piece stream ih =>
    rw [List.flatten_cons, List.length_append] at h
    rw [takeOnto]
    by_cases hc : count < piece.length
    · refine ⟨piece.drop count :: stream, ?_, ?_⟩
      · rw [if_pos hc, List.flatten_cons, List.take_append_of_le_length (Nat.le_of_lt hc)]
        simp
      · rw [List.flatten_cons, List.flatten_cons, List.drop_append_of_le_length (Nat.le_of_lt hc)]
    · obtain ⟨rest, ht, hf⟩ := ih (piece :: done) (Nat.sub_le_iff_le_add'.mpr h)
      have hp : piece.length ≤ count := Nat.not_lt.mp hc
      refine ⟨rest, ?_, ?_⟩
      · rw [if_neg hc, ht, List.flatten_cons, List.take_append, List.take_of_length_le hp]
        simp
      · rw [hf, List.flatten_cons, List.drop_append, List.drop_of_length_le hp, List.nil_append]

private theorem takeOnto_of_lt {done : List Bytes} {count : Nat} {stream : Arrivals}
    (h : stream.flatten.length < count) : takeOnto done count stream = .error .earlyEnd := by
  induction stream generalizing done count with
  | nil =>
    have hc : count ≠ 0 := by
      rw [List.flatten_nil, List.length_nil] at h
      omega
    rw [takeOnto, if_neg hc]
  | cons piece stream ih =>
    rw [List.flatten_cons, List.length_append] at h
    rw [takeOnto, if_neg (by omega)]
    exact ih (by omega)

theorem take_of_le {count : Nat} {stream : Arrivals} (h : count ≤ stream.flatten.length) :
    ∃ rest, take count stream = .ok (stream.flatten.take count, rest) ∧
      rest.flatten = stream.flatten.drop count :=
  takeOnto_of_le [] h

theorem take_of_lt {count : Nat} {stream : Arrivals} (h : stream.flatten.length < count) :
    take count stream = .error .earlyEnd :=
  takeOnto_of_lt h

/-! ## Reading frames -/

theorem read_of_frame {payload more : Bytes} {stream : Arrivals} (hp : payload.length ≤ maxPayload)
    (h : stream.flatten = frameOf payload ++ more) :
    ∃ rest, read stream = .ok (payload, rest) ∧ rest.flatten = more := by
  have hl := length_lengthBytes payload.length
  have hn : lengthOf (lengthBytes payload.length) = payload.length :=
    lengthOf_lengthBytes (Nat.lt_of_le_of_lt hp (by decide))
  have h4 : 4 ≤ stream.flatten.length := by
    rw [h, frameOf, List.length_append, List.length_append, hl]
    omega
  obtain ⟨body, ht, hb⟩ := take_of_le h4
  rw [h, frameOf, List.append_assoc, List.take_left' hl] at ht
  rw [h, frameOf, List.append_assoc, List.drop_left' hl] at hb
  have hle : payload.length ≤ body.flatten.length := by
    rw [hb, List.length_append]
    omega
  obtain ⟨rest, ht', hb'⟩ := take_of_le hle
  rw [hb, List.take_left] at ht'
  rw [hb, List.drop_left] at hb'
  refine ⟨rest, ?_, hb'⟩
  simp [read, ht, hn, hp, ht', bind, Except.bind]

theorem read_of_part {payload more : Bytes} {stream : Arrivals} (hp : payload.length ≤ maxPayload)
    (hm : more ≠ []) (h : stream.flatten ++ more = frameOf payload) :
    read stream = .error .earlyEnd := by
  have hl := length_lengthBytes payload.length
  have hn : lengthOf (lengthBytes payload.length) = payload.length :=
    lengthOf_lengthBytes (Nat.lt_of_le_of_lt hp (by decide))
  have hlen := congrArg List.length h
  have hpos := List.length_pos_iff.mpr hm
  simp only [frameOf, List.length_append, hl] at hlen
  by_cases hs : stream.flatten.length < 4
  · simp [read, take_of_lt hs, bind, Except.bind]
  · obtain ⟨body, ht, hb⟩ := take_of_le (Nat.not_lt.mp hs)
    have hh : stream.flatten.take 4 = lengthBytes payload.length := by
      have hk := congrArg (List.take 4) h
      rwa [List.take_append_of_le_length (by omega), frameOf, List.take_left' hl] at hk
    have hbl : body.flatten.length < payload.length := by
      rw [hb, List.length_drop]
      omega
    rw [hh] at ht
    simp [read, ht, hn, hp, take_of_lt hbl, bind, Except.bind]

/-! ## All frames of a stream -/

theorem lengthBytes_lengthOf {header : Bytes} (h : header.length = 4) : lengthBytes (lengthOf header) = header := by
  obtain ⟨a, b, c, d, rfl⟩ : ∃ a b c d, header = [a, b, c, d] := by
    match header, h with
    | [a, b, c, d], _ => exact ⟨a, b, c, d, rfl⟩
  have ha := a.toNat_lt
  have hb := b.toNat_lt
  have hc := c.toNat_lt
  have hd := d.toNat_lt
  have hr : (List.range 4).reverse = [3, 2, 1, 0] := by decide
  have hbyte : ∀ {n : Nat} {x : UInt8}, n % 256 = x.toNat → UInt8.ofNat n = x := by
    intro n x hn
    apply UInt8.toNat_inj.mp
    rw [UInt8.toNat_ofNat', hn]
  simp only [lengthBytes, Sha256.bigEndian, hr, lengthOf, List.map_cons, List.map_nil, List.foldl_cons,
    List.foldl_nil, Nat.pow_eq, Nat.reducePow]
  rw [hbyte (x := a) (by omega), hbyte (x := b) (by omega), hbyte (x := c) (by omega),
    hbyte (x := d) (by omega)]

/-- The first payload of some bytes, with the bytes behind it. -/
def front (bs : Bytes) : Except StreamFault (Bytes × Bytes) :=
  if bs.length < 4 then .error .earlyEnd
  else
    let size := lengthOf (bs.take 4)
    if maxPayload < size then .error (.announcedTooLarge size)
    else if (bs.drop 4).length < size then .error .earlyEnd
    else .ok ((bs.drop 4).take size, (bs.drop 4).drop size)

/-- Reading depends on the bytes of a stream alone. -/
theorem read_eq_front (stream : Arrivals) :
    (read stream).map (fun (payload, rest) => (payload, rest.flatten)) = front stream.flatten := by
  by_cases hs : stream.flatten.length < 4
  · rw [front, if_pos hs, read, take_of_lt hs]
    rfl
  · obtain ⟨body, ht, hb⟩ := take_of_le (Nat.not_lt.mp hs)
    rw [front, if_neg hs, read, ht]
    simp only [bind, Except.bind]
    by_cases hm : lengthOf (stream.flatten.take 4) ≤ maxPayload
    · rw [if_pos hm, if_neg (Nat.not_lt.mpr hm), ← hb]
      by_cases hl : body.flatten.length < lengthOf (stream.flatten.take 4)
      · rw [if_pos hl, take_of_lt hl]
        rfl
      · obtain ⟨rest, ht', hr⟩ := take_of_le (Nat.not_lt.mp hl)
        rw [if_neg hl, ht', Except.map, hr]
    · rw [if_neg hm, if_pos (Nat.not_le.mp hm)]
      rfl

theorem front_of_frame {payload : Bytes} (h : payload.length ≤ maxPayload) (more : Bytes) :
    front (frameOf payload ++ more) = .ok (payload, more) := by
  have hf : [frameOf payload ++ more].flatten = frameOf payload ++ more := by simp
  obtain ⟨rest, hr, hm⟩ := read_of_frame h hf
  rw [← hf, ← read_eq_front, hr, ← hm]
  rfl

/-- A frame of which only a part was written, the length at least, is filled up with what comes behind it. -/
theorem front_of_cut {payload part rest more : Bytes} (h : payload.length ≤ maxPayload)
    (hf : part ++ rest = frameOf payload) (hpart : 4 ≤ part.length) (hmore : rest.length ≤ more.length) :
    front (part ++ more) =
      .ok (payload.take (payload.length - rest.length) ++ more.take rest.length, more.drop rest.length) := by
  have hhead : (lengthBytes payload.length).length = 4 := length_lengthBytes _
  have hlen : part.length + rest.length = 4 + payload.length := by
    rw [← List.length_append, hf, frameOf, List.length_append, hhead]
  have hbegin : part = lengthBytes payload.length ++ payload.take (payload.length - rest.length) := by
    have ht := congrArg (List.take part.length) hf
    rw [List.take_left, frameOf, List.take_append, hhead, List.take_of_length_le (by omega)] at ht
    rw [ht]
    congr 2
    omega
  have hfill : (payload.take (payload.length - rest.length) ++ more.take rest.length).length = payload.length := by
    rw [List.length_append, List.length_take, List.length_take]
    omega
  have hall : part ++ more = frameOf (payload.take (payload.length - rest.length) ++ more.take rest.length) ++
      more.drop rest.length := by
    rw [frameOf, hfill, ← List.append_assoc, ← hbegin, List.append_assoc, List.take_append_drop]
  rw [hall]
  exact front_of_frame (by omega) _

theorem frame_of_front {bs payload rest : Bytes} (h : front bs = .ok (payload, rest)) :
    payload.length ≤ maxPayload ∧ bs = frameOf payload ++ rest := by
  rw [front] at h
  split at h
  case isTrue => cases h
  case isFalse hs =>
    simp only at h
    split at h
    case isTrue => cases h
    case isFalse hm =>
      split at h
      case isTrue => cases h
      case isFalse hl =>
        obtain ⟨rfl, rfl⟩ := Prod.mk.inj (Except.ok.inj h)
        have hlen : ((bs.drop 4).take (lengthOf (bs.take 4))).length = lengthOf (bs.take 4) := by
          rw [List.length_take]
          omega
        have hhead : (bs.take 4).length = 4 := by
          rw [List.length_take]
          omega
        refine ⟨by rw [hlen]; omega, ?_⟩
        rw [frameOf, hlen, lengthBytes_lengthOf hhead, List.append_assoc, List.take_append_drop,
          List.take_append_drop]

theorem length_of_front {bs payload rest : Bytes} (h : front bs = .ok (payload, rest)) :
    rest.length < bs.length := by
  have hp := List.length_pos_iff.mpr (frameOf_ne_nil payload)
  rw [(frame_of_front h).2, List.length_append]
  omega

/-- A fault other than the end of the stream stays, whatever arrives behind it. -/
theorem front_append {bs : Bytes} {fault : StreamFault} (h : front bs = .error fault)
    (hf : fault ≠ .earlyEnd) (more : Bytes) : front (bs ++ more) = .error fault := by
  rw [front] at h
  split at h
  case isTrue =>
    cases h
    exact absurd rfl hf
  case isFalse hs =>
    simp only at h
    split at h
    case isTrue hm =>
      cases h
      have hn : ¬ (bs ++ more).length < 4 := by
        rw [List.length_append]
        omega
      rw [front, if_neg hn, List.take_append_of_le_length (Nat.not_lt.mp hs)]
      simp only [hm, if_true]
    case isFalse =>
      split at h
      case isTrue =>
        cases h
        exact absurd rfl hf
      case isFalse => cases h

/-- Every payload of some bytes up to the first fault, and that fault. -/
def payloads (bs : Bytes) : List Bytes × StreamFault :=
  match h : front bs with
  | .ok (payload, rest) =>
    have : rest.length < bs.length := length_of_front h
    (payload :: (payloads rest).1, (payloads rest).2)
  | .error fault => ([], fault)
termination_by bs.length

theorem payloads_of_fault {bs : Bytes} {fault : StreamFault} (h : front bs = .error fault) :
    payloads bs = ([], fault) := by
  rw [payloads]
  split
  case h_1 ho => cases h.symm.trans ho
  case h_2 fault' hf => rw [Except.error.inj (h.symm.trans hf)]

theorem payloads_of_front {bs payload rest : Bytes} (h : front bs = .ok (payload, rest)) :
    payloads bs = (payload :: (payloads rest).1, (payloads rest).2) := by
  rw [payloads]
  split
  case h_1 payload' rest' ho =>
    obtain ⟨rfl, rfl⟩ := Prod.mk.inj (Except.ok.inj (h.symm.trans ho))
    rfl
  case h_2 hf => cases h.symm.trans hf

theorem payloads_frames {ps : List Bytes} (h : ∀ p ∈ ps, p.length ≤ maxPayload) (more : Bytes) :
    payloads (ps.flatMap frameOf ++ more) = (ps ++ (payloads more).1, (payloads more).2) := by
  induction ps with
  | nil => rfl
  | cons p ps ih =>
    have hf := front_of_frame (h p List.mem_cons_self) (ps.flatMap frameOf ++ more)
    rw [List.flatMap_cons, List.append_assoc, payloads_of_front hf,
      ih fun q hq => h q (List.mem_cons_of_mem p hq)]
    rfl

private theorem readFrom_eq {fuel : Nat} {stream : Arrivals} (h : stream.flatten.length < fuel)
    (done : List Bytes) : readFrom fuel done stream =
      (done.reverse ++ (payloads stream.flatten).1, (payloads stream.flatten).2) := by
  induction fuel generalizing stream done with
  | zero => cases h
  | succ fuel ih =>
    have hr := read_eq_front stream
    rw [readFrom]
    rcases hread : read stream with fault | ⟨payload, rest⟩
    · rw [hread] at hr
      rw [payloads_of_fault hr.symm, List.append_nil]
    · rw [hread] at hr
      have hl := length_of_front hr.symm
      simp only
      rw [ih (by omega), payloads_of_front hr.symm, List.reverse_cons, List.append_assoc]
      rfl

theorem readAll_eq (stream : Arrivals) : readAll stream = payloads stream.flatten :=
  readFrom_eq (Nat.lt_succ_self _) []

end SshAuthority.Wire.Frame
