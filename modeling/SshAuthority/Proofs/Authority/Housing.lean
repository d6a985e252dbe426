import SshAuthority.Proofs.Authority.Staging
import SshAuthority.Proofs.Authority.Console
/-!
# Keys where the tool finds them

A call has its directory to itself from when it is made to when it is removed, and what is staged there until
its run of the tool has ended is the key of its request, byte for byte. So that is what each run is on.
-/
namespace SshAuthority.Authority

def Phase.keyDirectory? : Phase → Option Bytes
  | .staged d | .attached d | .running d => some d
  | _ => none

namespace Session

/-- A run of the tool on the request of its call, in the directory `d`. -/
structure RunsOn (s : Session) (run : ToolRun) (c : SigningCall) (d : Bytes) : Prop where
  arguments : run.arguments =
    c.request.toolArguments s.service.identity.signer (Path.join d stagedName)
  key : run.key = some c.request.key.bytes
  directory : ∀ path, c.phase = .running path → path = d

/-- How the calls stand with their directories and runs. -/
structure Housed (s : Session) : Prop where
  own : ∀ {i j : Nat} {c c' d}, s.calls[i]? = some c → s.calls[j]? = some c' → c.phase.directory? = some d →
    c'.phase.directory? = some d → i = j
  present : ∀ {i : Nat} {c d}, s.calls[i]? = some c → c.phase.directory? = some d → s.staging? d ≠ none
  key : ∀ {i : Nat} {c d}, s.calls[i]? = some c → c.phase.keyDirectory? = some d →
    ∃ certificate, s.staging? d = some ⟨d, some c.request.key.bytes, certificate⟩
  runs : ∀ run ∈ s.runs, ∃ c d, s.calls[run.call]? = some c ∧ 7 ≤ c.phase.rank ∧ s.RunsOn run c d

variable {s next : Session} {e : Event} {i : Nat} {c : SigningCall}

theorem Phase.directory?_of_keyDirectory? {p : Phase} {d : Bytes} (h : p.keyDirectory? = some d) :
    p.directory? = some d := by
  cases p with
  | staged | attached | running => exact h
  | _ => cases h

/-- A step of another call changes nothing in a call's directory. -/
theorem Housed.kept (h : s.Housed) (hm : s.Moves e next) {j : Nat} (hj : e.call? ≠ some j)
    (hc : s.calls[j]? = some c) {d : Bytes} (hd : c.phase.directory? = some d) : next.staging? d = s.staging? d := by
  apply staging?_of_moves hm (h.present hc hd)
  intro k ck hk hck hdk
  have hkj : k = j := h.own hck hc hdk hd
  exact hj (hkj ▸ hk)

private theorem runsOn_of_moves (hm : s.Moves e next) {run : ToolRun}
    (h : ∃ c d, s.calls[run.call]? = some c ∧ 7 ≤ c.phase.rank ∧ s.RunsOn run c d) :
    ∃ c d, next.calls[run.call]? = some c ∧ 7 ≤ c.phase.rank ∧ next.RunsOn run c d := by
  obtain ⟨c, d, hc, hrank, hon⟩ := h
  have hs := service_of_moves hm
  rcases calls_of_moves hm with ⟨-, hn⟩ | ⟨r, -, hn⟩ | ⟨i, c', p, -, hc', hn, hlt⟩
  · exact ⟨c, d, hn ▸ hc, hrank, hs ▸ hon.arguments, hon.key, hon.directory⟩
  · exact ⟨c, d, by rw [hn, getElem?_append_old hc], hrank, hs ▸ hon.arguments, hon.key, hon.directory⟩
  · by_cases hi : run.call = i
    · subst hi
      obtain rfl := Option.some.inj (hc.symm.trans hc')
      refine ⟨{ c with phase := p }, d, by rw [hn, enter_getElem?_self hc], ?_, hs ▸ hon.arguments, hon.key, ?_⟩
      · show 7 ≤ p.rank
        omega
      · rintro path rfl
        have hbefore : c.phase.rank < 7 := hlt
        omega
    · exact ⟨c, d, by rw [hn, enter_getElem?_of_ne hi, hc], hrank, hs ▸ hon.arguments, hon.key, hon.directory⟩

private theorem Housed.runs_of_moves (h : s.Housed) (hm : s.Moves e next) :
    ∀ run ∈ next.runs, ∃ c d, next.calls[run.call]? = some c ∧ 7 ≤ c.phase.rank ∧ next.RunsOn run c d := by
  intro run hrun
  have hm' := hm
  cases hm with
  | @start i c path call phase =>
    rcases List.mem_append.mp hrun with hrun | hrun
    · exact runsOn_of_moves hm' (h.runs run hrun)
    · obtain ⟨certificate, hd⟩ := h.key call (d := path) (by rw [phase]; rfl)
      rw [List.mem_singleton.mp hrun]
      refine ⟨_, path, enter_getElem?_self (s := s) call (.running path), Nat.le_refl _, rfl, by simp [hd], ?_⟩
      exact fun p hp => (Phase.running.inj hp).symm
  | _ => exact runsOn_of_moves hm' (h.runs run hrun)

private theorem housed_entered {p : Phase} (h : s.Housed) (hm : s.Moves e next) (hc : s.calls[i]? = some c)
    (he : e.call? = some i) (hn : next.calls = (s.enter i p).calls)
    (hd : ∀ d, p.directory? = some d →
      (c.phase.directory? = some d ∨ s.staging? d = none) ∧ next.staging? d ≠ none)
    (hk : ∀ d, p.keyDirectory? = some d →
      ∃ certificate, next.staging? d = some ⟨d, some c.request.key.bytes, certificate⟩) : next.Housed := by
  have hne : ∀ {j : Nat}, j ≠ i → e.call? ≠ some j := by
    intro j hj hce
    exact hj (Option.some.inj (hce.symm.trans he))
  have hold : ∀ {d : Bytes}, p.directory? = some d → ∀ {j : Nat} {c' : SigningCall}, s.calls[j]? = some c' →
      c'.phase.directory? = some d → j = i := by
    intro d hp j c' hj hdir
    rcases (hd d hp).1 with hc' | hfree
    · exact h.own hj hc hdir hc'
    · exact absurd hfree (h.present hj hdir)
  refine ⟨fun {j k cj ck d} hj hk hdj hdk => ?_, fun {j cj d} hj hdj => ?_, fun {j cj d} hj hdj => ?_,
    h.runs_of_moves hm⟩
  · rcases getElem?_entered hc hn hj with ⟨rfl, rfl⟩ | ⟨hji, hj⟩ <;>
      rcases getElem?_entered hc hn hk with ⟨rfl, rfl⟩ | ⟨hki, hk⟩
    · rfl
    · exact (hold hdj hk hdk).symm
    · exact hold hdk hj hdj
    · exact h.own hj hk hdj hdk
  · rcases getElem?_entered hc hn hj with ⟨rfl, rfl⟩ | ⟨hji, hj⟩
    · exact (hd d hdj).2
    · rw [h.kept hm (hne hji) hj hdj]
      exact h.present hj hdj
  · rcases getElem?_entered hc hn hj with ⟨rfl, rfl⟩ | ⟨hji, hj⟩
    · exact hk d hdj
    · rw [h.kept hm (hne hji) hj (Phase.directory?_of_keyDirectory? hdj)]
      exact h.key hj hdj

private theorem housed_unmoved {p : Phase} (h : s.Housed) (hm : s.Moves e next) (hc : s.calls[i]? = some c)
    (he : e.call? = some i) (hn : next.calls = (s.enter i p).calls) (ht : next.directories = s.directories)
    (hd : ∀ d, p.directory? = some d → c.phase.directory? = some d)
    (hk : ∀ d, p.keyDirectory? = some d → c.phase.keyDirectory? = some d) : next.Housed := by
  have hs : ∀ d, next.staging? d = s.staging? d := fun d => by rw [staging?, ht, staging?]
  refine housed_entered h hm hc he hn (fun d hp => ?_) fun d hp => ?_
  · rw [hs]
    exact ⟨.inl (hd d hp), h.present hc (hd d hp)⟩
  · rw [hs]
    exact h.key hc (hk d hp)

private theorem housed_outside (h : s.Housed) (hm : s.Moves e next) (he : e.call? = none) : next.Housed := by
  have hne : ∀ j, e.call? ≠ some j := by simp [he]
  have hback : ∀ {j : Nat} {cj d}, next.calls[j]? = some cj → cj.phase.directory? = some d →
      s.calls[j]? = some cj := by
    intro j cj d hj hd
    rcases calls_of_moves hm with ⟨-, hn⟩ | ⟨r, -, hn⟩ | ⟨i, -, -, hi, -⟩
    · rwa [hn] at hj
    · rw [hn] at hj
      rcases getElem?_append_new hj with hj | ⟨-, rfl⟩
      · exact hj
      · simp [Phase.directory?] at hd
    · simp [he] at hi
  refine ⟨fun hj hk hdj hdk => h.own (hback hj hdj) (hback hk hdk) hdj hdk, fun hj hd => ?_, fun hj hd => ?_,
    h.runs_of_moves hm⟩
  · rw [h.kept hm (hne _) (hback hj hd) hd]
    exact h.present (hback hj hd) hd
  · have hdir := Phase.directory?_of_keyDirectory? hd
    rw [h.kept hm (hne _) (hback hj hdir) hdir]
    exact h.key (hback hj hdir) hd

theorem Housed.of_moves (h : s.Housed) (hm : s.Moves e next) : next.Housed := by
  have hm' := hm
  cases hm with
  | request | arrive | closeInput => exact housed_outside h hm' rfl
  | announce call phase =>
    apply housed_unmoved h hm' call rfl rfl rfl <;> split <;> simp [Phase.directory?, Phase.keyDirectory?]
  | takeLine call phase holds ready first =>
    apply housed_unmoved h hm' call rfl rfl rfl <;> split <;> simp [Phase.directory?, Phase.keyDirectory?]
  | holdInput call phase | noDirectory call phase | notStaged call phase | holdConsole call phase
  | start call phase | readCertificate call phase =>
    apply housed_unmoved h hm' call rfl rfl rfl <;> simp [phase, Phase.directory?, Phase.keyDirectory?]
  | @makeDirectory i c path call phase fresh =>
    apply housed_entered h hm' call rfl rfl
    · rintro d hp
      obtain rfl := Option.some.inj hp
      refine ⟨.inr fresh, ?_⟩
      apply ne_of_eq_of_ne (staging?_added (d := ⟨path, none, .error .noEntry⟩) fresh rfl path)
      simp
    · simp [Phase.keyDirectory?]
  | @stage i c path call phase =>
    obtain ⟨d, hd⟩ := Option.ne_none_iff_exists'.mp (h.present call (d := path) (by rw [phase]; rfl))
    let staged : Staging → Staging := fun d => { d with key := some c.request.key.bytes }
    have hstaged : ∃ certificate, (s.updateStaging path staged).staging? path =
        some ⟨path, some c.request.key.bytes, certificate⟩ := by
      refine ⟨d.certificate, ?_⟩
      rw [staging?_updated (f := staged) rfl (fun _ => rfl), hd]
      simp [staged, path_of_staging? hd]
    apply housed_entered h hm' call rfl rfl
    · rintro d hp
      obtain rfl := Option.some.inj hp
      obtain ⟨certificate, hs⟩ := hstaged
      exact ⟨.inl (by rw [phase]; rfl), ne_of_eq_of_ne hs (Option.some_ne_none _)⟩
    · rintro d hp
      obtain rfl := Option.some.inj hp
      exact hstaged
  | @finish i c path outcome call phase =>
    have hd := h.present call (d := path) (by rw [phase]; rfl)
    let left : Staging → Staging := fun d => { d with certificate := outcome.certificate }
    have hleft : (s.updateStaging path left).staging? path ≠ none := by
      rw [staging?_updated (f := left) rfl fun _ => rfl]
      simpa using hd
    apply housed_entered h hm' call rfl rfl
    · intro d hp
      obtain rfl : path = d := by split at hp <;> simpa [Phase.directory?] using hp
      exact ⟨.inl (by rw [phase]; rfl), hleft⟩
    · intro d hp
      split at hp <;> cases hp
  | removeDirectory call phase =>
    apply housed_entered h hm' call rfl rfl <;> simp [Phase.directory?, Phase.keyDirectory?]

theorem housed_new (service : Service) : (new service).Housed := by constructor <;> simp [new]

theorem housed_run (service : Service) (events : List Event) : ((new service).run events).Housed :=
  run_preserves (fun _ _ _ h hm => h.of_moves hm) (housed_new service) events

end Session

end SshAuthority.Authority
