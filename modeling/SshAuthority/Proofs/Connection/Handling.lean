import SshAuthority.Proofs.Connection.Exchange
/-!
# The handlers of an exchange

A request that was read is handled once: its handler asks the service at most once, and what it puts into the
queue answers the call that the request is from. Whatever else the service does leaves that as it is.
-/
namespace SshAuthority.Connection.Exchange.Matched
open Authority

variable {start : Session} {v : Exchange} {g : History}

private theorem handlers_change (h : Matched start v g) {handlers : List Handler} {session : Session}
    {ledger : List (Option Nat)} (hl : Later v.session g.ledger session ledger)
    (hhandlers : ∀ {k : Nat} {hd : Handler}, handlers[k]? = some hd → ∃ i c, g.order[k]? = some i ∧
      v.calls[i]? = some c ∧ hd.request = c.request ∧
      Handled start session ledger i c.call hd.phase)
    (hdone : ∀ {k : Nat}, (∃ hd, handlers[k]? = some hd ∧ hd.phase = .done) ↔
      ∃ hd, v.handlers[k]? = some hd ∧ hd.phase = .done)
    (hbilled : Billed start { v with handlers, session } { g with ledger }) :
    Matched start { v with handlers, session } { g with ledger } := by
  constructor
  case issued => exact h.issued
  case ordered => exact h.ordered
  case handlers => exact hhandlers
  case back_nodup => exact h.back_nodup
  case back_mem =>
    intro i
    rw [h.back_mem]
    refine exists_congr fun k => ?_
    have hk := hdone (k := k)
    constructor
    · rintro ⟨hd, hi, hv⟩
      obtain ⟨hd, hv⟩ := hk.mpr ⟨hd, hv⟩
      exact ⟨hd, hi, hv⟩
    · rintro ⟨hd, hi, hv⟩
      obtain ⟨hd, hv⟩ := hk.mp ⟨hd, hv⟩
      exact ⟨hd, hi, hv⟩
  case out_length => exact h.out_length
  case out =>
    intro m i hm
    obtain ⟨c, r, hc, hr, hseq, ha⟩ := h.out hm
    exact ⟨c, r, hc, hr, hseq, ha.later hl⟩
  case heard_le => exact h.heard_le
  case replies => exact h.replies
  case replied => exact fun hc hr => (h.replied hc hr).later hl
  case billed => exact hbilled

theorem accept (h : Matched start v g) {r : Wire.Request} (hr : v.written[v.handlers.length]? = some r) :
    Matched start { v with handlers := v.handlers ++ [⟨r, .dispatched⟩] } g := by
  obtain ⟨i, c, hi, hc, hreq⟩ := h.call_of_written hr
  refine h.handlers_change (.refl _ _) ?_ ?_ ?_
  · intro k hd hk
    rcases getElem?_append_new hk with hk | ⟨rfl, rfl⟩
    · exact h.handlers hk
    · refine ⟨i, c, hi, hc, hreq, fun hm => ?_⟩
      obtain ⟨l, hd, hl, hlt, -⟩ := h.billed.mem hm
      have hlt := (List.getElem?_eq_some_iff.mp hlt).1
      have he := h.handler_unique hl hi
      omega
  · intro k
    constructor
    · rintro ⟨hd, hk, hp⟩
      rcases getElem?_append_new hk with hk | ⟨-, rfl⟩
      · exact ⟨hd, hk, hp⟩
      · cases hp
    · rintro ⟨hd, hk, hp⟩
      exact ⟨hd, getElem?_append_old hk _, hp⟩
  · refine ⟨h.billed.once, fun hm => ?_, h.billed.request, h.billed.length, h.billed.service⟩
    obtain ⟨l, hd, hl, hlt, hp⟩ := h.billed.mem hm
    exact ⟨l, hd, hl, getElem?_append_old hlt _, hp⟩

private theorem handler_change (h : Matched start v g) {k i : Nat} {c : ClientCall} {hd : Handler}
    (hk : v.handlers[k]? = some hd) (hi : g.order[k]? = some i) (hc : v.calls[i]? = some c)
    (hreq : hd.request = c.request) (hn : hd.phase ≠ .done) {p : HandlerPhase} (hp : p ≠ .done)
    (hq : p ≠ .dispatched) {session : Session} {ledger : List (Option Nat)}
    (hl : Later v.session g.ledger session ledger)
    (hledger : ∀ {j : Nat}, some j ∈ ledger → some j ∈ g.ledger ∨ j = i)
    (hh : Handled start session ledger i c.call p)
    (honce : ∀ i : Nat, ledger.count (some i) ≤ 1)
    (hrequest : ∀ {n i : Nat}, ledger[n]? = some (some i) → ∃ c r, v.calls[i]? = some c ∧
      c.call = .sign (.ofRequest r) ∧ (session.calls[start.calls.length + n]?).map (·.request) = some r)
    (hlength : session.calls.length = start.calls.length + ledger.length)
    (hservice : session.service = start.service) :
    Matched start { v with handlers := v.handlers.modify k fun h => { h with phase := p }, session }
      { g with ledger } := by
  have hget := getElem?_modified hk fun h => { h with phase := p }
  refine h.handlers_change hl ?_ ?_ ⟨honce, ?_, hrequest, hlength, hservice⟩
  · intro l e he
    rw [hget] at he
    split at he
    case isTrue hlk =>
      obtain rfl := Option.some.inj he
      subst hlk
      exact ⟨i, c, hi, hc, hreq, hh⟩
    case isFalse hlk =>
      obtain ⟨j, d, hj, hd, hr, hh⟩ := h.handlers he
      refine ⟨j, d, hj, hd, hr, hh.later hl fun hdisp hm => ?_⟩
      rw [hdisp] at hh
      rcases hledger hm with hm | rfl
      · exact hh hm
      · exact hlk (h.handler_unique hj hi)
  · intro l
    rw [hget]
    by_cases hlk : l = k
    · subst hlk
      simp [hp, hk, hn]
    · rw [if_neg hlk]
  · intro j hj
    rcases hledger hj with hj | rfl
    · obtain ⟨l, e, hl, he, hphase⟩ := h.billed.mem hj
      by_cases hlk : l = k
      · subst hlk
        exact ⟨l, _, hl, (hget l).trans (if_pos rfl), hq⟩
      · exact ⟨l, e, hl, by rw [hget, if_neg hlk, he], hphase⟩
    · exact ⟨k, _, hi, (hget k).trans (if_pos rfl), hq⟩

private theorem answered (h : Matched start v g) {k i : Nat} {c : ClientCall} {hd : Handler}
    (hk : v.handlers[k]? = some hd) (hi : g.order[k]? = some i) (hc : v.calls[i]? = some c)
    (hreq : hd.request = c.request) (hn : hd.phase ≠ .done) {result : Wire.Result}
    (ha : Answers start v.session g.ledger i c.call result) :
    Matched start { v with handlers := v.handlers.modify k fun h => { h with phase := .answered result } } g :=
  h.handler_change hk hi hc hreq hn (by simp) (by simp) (.refl _ _) .inl ha h.billed.once
    h.billed.request h.billed.length h.billed.service

theorem request (h : Matched start v g) {k i : Nat} {hd : Handler} {r : SignRequest}
    (hk : v.handlers[k]? = some hd) (hp : hd.phase = .dispatched) (hi : g.order[k]? = some i)
    (hr : Server.signRequest? hd.request.call = some r) :
    Matched start
      { v with
        handlers := v.handlers.modify k fun h => { h with phase := .signing v.session.calls.length }
        session := v.session.request r }
      { g with ledger := g.ledger ++ [some i] } := by
  obtain ⟨j, c, hj, hc, hreq, hh⟩ := h.handlers hk
  obtain rfl := Option.some.inj (hi.symm.trans hj)
  have hcall : hd.request.call = c.call := congrArg Wire.Request.call hreq
  have hnew : some i ∉ g.ledger := by
    rw [hp] at hh
    exact hh
  have hasked : c.call = .sign (.ofRequest r) := by
    rw [hcall] at hr
    rcases h.issued c (List.mem_of_getElem? hc) with hk | ⟨r', hs⟩
    · rw [hk] at hr
      cases hr
    · rw [hs, Server.signRequest?, Wire.SignArgs.request_ofRequest] at hr
      rw [hs, ← Option.some.inj hr]
  have hlen := h.billed.length
  refine h.handler_change hk hi hc hreq (by simp [hp]) (by simp) (by simp) ⟨List.prefix_append _ _, ?_⟩
    ?_ ⟨g.ledger.length, hlen, by simp⟩ ?_ ?_ ?_ h.billed.service
  · exact Session.result?_of_moves (.request r)
  · intro j hj
    simpa using hj
  · intro j
    rw [List.count_append, List.count_singleton]
    by_cases hj : i = j
    · subst hj
      rw [List.count_eq_zero.mpr hnew]
      simp
    · simpa [hj] using h.billed.once j
  · intro n j hn
    rcases getElem?_append_new hn with hn | ⟨rfl, hj⟩
    · obtain ⟨d, r', hd, hs, hr'⟩ := h.billed.request hn
      obtain ⟨e, he, rfl⟩ := Option.map_eq_some_iff.mp hr'
      obtain ⟨f, hf, hfr⟩ := Session.request_of_moves (.request r) he
      exact ⟨d, e.request, hd, hs, by rw [hf, Option.map_some, hfr]⟩
    · obtain rfl := Option.some.inj hj
      refine ⟨c, r, hc, hasked, ?_⟩
      rw [← hlen, Session.request]
      simp
  · rw [Session.request, List.length_append, List.length_append, hlen]
    rfl

theorem reply (h : Matched start v g) {k : Nat} {hd : Handler} (hk : v.handlers[k]? = some hd)
    (hp : hd.phase = .dispatched) (hr : Server.signRequest? hd.request.call = none)
    {result : Wire.Result} (hresult : ∃ signed, result =
      Service.respond v.session.service.identity.key hd.request.call signed) :
    Matched start { v with handlers := v.handlers.modify k fun h => { h with phase := .answered result } } g := by
  obtain ⟨i, c, hi, hc, hreq, -⟩ := h.handlers hk
  have hcall : hd.request.call = c.call := congrArg Wire.Request.call hreq
  obtain ⟨signed, rfl⟩ := hresult
  refine h.answered hk hi hc hreq (by simp [hp]) (.inl ?_)
  rw [hcall] at hr ⊢
  rcases h.issued c (List.mem_of_getElem? hc) with hkey | ⟨r, hs⟩
  · rw [hkey, h.billed.service]
    exact ⟨rfl, rfl⟩
  · rw [hs, Server.signRequest?, Wire.SignArgs.request_ofRequest] at hr
    cases hr

theorem collect (h : Matched start v g) {k j : Nat} {hd : Handler} {signed : Except ServiceFault Bytes}
    (hk : v.handlers[k]? = some hd) (hp : hd.phase = .signing j) (hr : v.session.result? j = some signed) :
    Matched start
      { v with
        handlers := v.handlers.modify k fun h =>
          { h with phase := .answered (Service.respond v.session.service.identity.key hd.request.call
              fun _ => signed) } } g := by
  obtain ⟨i, c, hi, hc, hreq, hh⟩ := h.handlers hk
  have hcall : hd.request.call = c.call := congrArg Wire.Request.call hreq
  rw [hp] at hh
  obtain ⟨n, rfl, hn⟩ := hh
  obtain ⟨d, r, hd, hs, -⟩ := h.billed.request hn
  obtain rfl := Option.some.inj (hc.symm.trans hd)
  refine h.answered hk hi hc hreq (by simp [hp]) (.inr ⟨r, n, signed, hs, hn, hr, ?_⟩)
  rw [hcall, h.billed.service]

theorem serve (h : Matched start v g) {e : Session.Event} {next : Session} (hm : v.session.Moves e next) :
    Matched start { v with session := next } { g with ledger := g.ledger ++ outside e } := by
  have hlater : Later v.session g.ledger next (g.ledger ++ outside e) :=
    ⟨List.prefix_append _ _, Session.result?_of_moves hm⟩
  have hnone : ∀ {o : Option Nat}, o ∈ outside e → o = none := by
    intro o ho
    cases e <;> simp [outside] at ho
    exact ho
  have hold : ∀ {i : Nat}, some i ∈ g.ledger ++ outside e → some i ∈ g.ledger := by
    intro i hi
    rcases List.mem_append.mp hi with hi | hi
    · exact hi
    · cases hnone hi
  refine h.handlers_change hlater ?_ Iff.rfl ⟨?_, fun hi => h.billed.mem (hold hi), ?_, ?_, ?_⟩
  · intro k hd hk
    obtain ⟨i, c, hi, hc, hreq, hh⟩ := h.handlers hk
    refine ⟨i, c, hi, hc, hreq, hh.later hlater fun hp hm => ?_⟩
    rw [hp] at hh
    exact hh (hold hm)
  · intro i
    have hn : (outside e).count (some i) = 0 := List.count_eq_zero.mpr fun hm => by cases hnone hm
    rw [List.count_append, hn]
    exact h.billed.once i
  · intro n i hn
    rcases Nat.lt_or_ge n g.ledger.length with hlt | hge
    · rw [List.getElem?_append_left hlt] at hn
      obtain ⟨c, r, hc, hs, hr⟩ := h.billed.request hn
      obtain ⟨d, hd, rfl⟩ := Option.map_eq_some_iff.mp hr
      obtain ⟨f, hf, hfr⟩ := Session.request_of_moves hm hd
      exact ⟨c, d.request, hc, hs, by rw [hf, Option.map_some, hfr]⟩
    · rw [List.getElem?_append_right hge] at hn
      cases hnone (List.mem_of_getElem? hn)
  · have hlen := Session.length_of_moves hm
    rw [List.length_append, ← Nat.add_assoc, ← h.billed.length, hlen]
    cases e <;> rfl
  · exact (Session.service_of_moves hm).trans h.billed.service

theorem enqueue (h : Matched start v g) {k i : Nat} {hd : Handler} {result : Wire.Result}
    (hk : v.handlers[k]? = some hd) (hp : hd.phase = .answered result) (hi : g.order[k]? = some i) :
    Matched start
      { v with
        handlers := v.handlers.modify k fun h => { h with phase := .done }
        out := v.out ++ [⟨hd.request.seq, result⟩] }
      { g with back := g.back ++ [i] } := by
  obtain ⟨j, c, hj, hc, hreq, hh⟩ := h.handlers hk
  obtain rfl := Option.some.inj (hi.symm.trans hj)
  rw [hp] at hh
  have hget := getElem?_modified hk fun h => { h with phase := .done }
  have hseq : hd.request.seq = c.seq := congrArg Wire.Request.seq hreq
  have hnew : i ∉ g.back := by
    intro hb
    obtain ⟨l, e, hl, he, hdone⟩ := h.back_mem.mp hb
    obtain rfl := h.handler_unique hi hl
    obtain rfl := Option.some.inj (hk.symm.trans he)
    rw [hp] at hdone
    cases hdone
  constructor
  case issued => exact h.issued
  case ordered => exact h.ordered
  case handlers =>
    intro l e he
    rw [hget] at he
    split at he
    case isTrue hlk =>
      obtain rfl := Option.some.inj he
      exact ⟨i, c, hlk ▸ hi, hc, hreq, trivial⟩
    case isFalse => exact h.handlers he
  case back_nodup =>
    exact nodup_append_new h.back_nodup hnew
  case back_mem =>
    intro j
    rw [List.mem_append, List.mem_singleton, h.back_mem]
    constructor
    · rintro (⟨l, e, hl, he, hdone⟩ | rfl)
      · have hlk : l ≠ k := by
          rintro rfl
          obtain rfl := Option.some.inj (hk.symm.trans he)
          rw [hp] at hdone
          cases hdone
        exact ⟨l, e, hl, by rw [hget, if_neg hlk, he], hdone⟩
      · exact ⟨k, _, hi, (hget k).trans (if_pos rfl), rfl⟩
    · rintro ⟨l, e, hl, he, hdone⟩
      by_cases hlk : l = k
      · subst hlk
        exact .inr (Option.some.inj (hl.symm.trans hi))
      · rw [hget, if_neg hlk] at he
        exact .inl ⟨l, e, hl, he, hdone⟩
  case out_length => simp [h.out_length]
  case out =>
    intro m j hm
    rcases getElem?_append_new hm with hm | ⟨rfl, rfl⟩
    · obtain ⟨d, r, hd, hr, hs, ha⟩ := h.out hm
      exact ⟨d, r, hd, getElem?_append_old hr _, hs, ha⟩
    · refine ⟨c, ⟨hd.request.seq, result⟩, hc, ?_, hseq, hh⟩
      rw [← h.out_length]
      simp
  case heard_le =>
    rw [List.length_append]
    exact Nat.le_add_right_of_le h.heard_le
  case replies =>
    have hle := h.heard_le
    rw [h.out_length] at hle
    intro j d hd
    rw [List.take_append_of_le_length hle]
    exact h.replies hd
  case replied => exact h.replied
  case billed =>
    refine ⟨h.billed.once, fun hm => ?_, h.billed.request, h.billed.length, h.billed.service⟩
    obtain ⟨l, e, hl, he, hphase⟩ := h.billed.mem hm
    by_cases hlk : l = k
    · subst hlk
      exact ⟨l, _, hl, (hget l).trans (if_pos rfl), by simp⟩
    · exact ⟨l, e, hl, by rw [hget, if_neg hlk, he], hphase⟩

/-- As long as its handler is not done, a call has no reply. -/
theorem reply_of_handler (h : Matched start v g) {k i : Nat} {hd : Handler} {c : ClientCall}
    (hk : v.handlers[k]? = some hd) (hn : hd.phase ≠ .done) (hi : g.order[k]? = some i)
    (hc : v.calls[i]? = some c) : c.reply = none := by
  rcases hr : c.reply with _ | r
  · rfl
  · have hb := (h.replies hc).mp (by rw [hr]; rfl)
    obtain ⟨l, e, hl, he, hdone⟩ := h.back_mem.mp (List.mem_of_mem_take hb)
    obtain rfl := h.handler_unique hi hl
    obtain rfl := Option.some.inj (hk.symm.trans he)
    exact absurd hdone hn

end SshAuthority.Connection.Exchange.Matched
