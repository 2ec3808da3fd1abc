import ImageBrowser.Proofs.Cache.Freshness

/-!
One fetch serves all who ask for the same entry while it runs. Between two clearings the fetches for
a key follow one another, and one that succeeds is the last; whoever joins a fetch has its outcome;
and a registration stays just as long as its owner has not settled, so that nobody waits in vain.
-/

namespace ImageBrowser

def Joins (history : List Event) (i : Nat) (k : CacheKey) (ticket : Nat) : Prop :=
  ⟨i, .step (.request k), .joined ticket⟩ ∈ history

def Uncleared (history : List Event) : Prop := ∀ e ∈ history, e.action ≠ .step .clearCache

/-- What the history holds of a caller, by how far its request has come. -/
structure Account (history : List Event) (outcomes : Table Nat (Except Fault CacheEntry)) (i : Nat)
    (stage : Stage) : Prop where
  owned : ∀ {k ticket}, Owns history i k ticket → stage = .fetching k ticket ∨
    ∃ o, Settles history i k ticket o ∧
      (stage = .settled k ticket o ∨ stage = .answered k o ∧ outcomes.find? ticket = some o)
  joined : ∀ {k ticket}, Joins history i k ticket → stage = .waiting k ticket ∨
    ∃ o, stage = .answered k o ∧ outcomes.find? ticket = some o
  settled : ∀ {k ticket o}, Settles history i k ticket o →
    stage = .settled k ticket o ∨ stage = .answered k o
  waits : ∀ {k ticket}, stage = .waiting k ticket → Joins history i k ticket

/-- What has come of a fetch since it was registered, as long as nothing is cleared. -/
inductive Fate (c : Cache CacheKey CacheEntry) (rest : List Event) (i : Nat) (k : CacheKey)
    (ticket : Nat) : Prop
  | running (registered : c.inFlight.find? k = some ⟨ticket, c.epoch⟩)
  | succeeded {e : CacheEntry} (settles : Settles rest i k ticket (.ok e))
      (stored : (c.stored.find? k).isSome)
  | failed {f : Fault} (settles : Settles rest i k ticket (.error f))

section Histories

variable {history : List Event} {e : Event} {i ticket : Nat} {k : CacheKey}
  {outcome : Except Fault CacheEntry}

theorem joins_concat : Joins (history ++ [e]) i k ticket ↔
    Joins history i k ticket ∨ e = ⟨i, .step (.request k), .joined ticket⟩ := by
  simp [Joins, eq_comm]

theorem Joins.concat (joins : Joins history i k ticket) : Joins (history ++ [e]) i k ticket :=
  joins_concat.mpr (.inl joins)

theorem settles_concat : Settles (history ++ [e]) i k ticket outcome ↔
    Settles history i k ticket outcome ∨ e = ⟨i, .step (.settle k ticket outcome), ()⟩ := by
  simp [Settles, eq_comm]

theorem Settles.concat (settles : Settles history i k ticket outcome) :
    Settles (history ++ [e]) i k ticket outcome :=
  settles_concat.mpr (.inl settles)

theorem uncleared_concat : Uncleared (history ++ [e]) ↔
    Uncleared history ∧ e.action ≠ .step .clearCache := by
  simp [Uncleared, or_imp, forall_and]

end Histories

namespace Account

variable {history : List Event} {outcomes outcomes' : Table Nat (Except Fault CacheEntry)}
  {c c' : Cache CacheKey CacheEntry} {e : Event} {i : Nat} {stage next : Stage}

theorem concat (account : Account history outcomes i stage)
    (apart : ¬ (e.caller = i ∧ e.action.isRequest))
    (grown : ∀ {t o}, outcomes.find? t = some o → outcomes'.find? t = some o) :
    Account (history ++ [e]) outcomes' i stage := by
  refine ⟨?_, ?_, ?_, fun same => (account.waits same).concat⟩
  · intro k ticket owns
    obtain owns | rfl := owns_concat.mp owns
    · obtain same | ⟨o, settles, same | ⟨same, published⟩⟩ := account.owned owns
      · exact .inl same
      · exact .inr ⟨o, settles.concat, .inl same⟩
      · exact .inr ⟨o, settles.concat, .inr ⟨same, grown published⟩⟩
    · exact absurd ⟨rfl, rfl⟩ apart
  · intro k ticket joins
    obtain joins | rfl := joins_concat.mp joins
    · obtain same | ⟨o, same, published⟩ := account.joined joins
      · exact .inl same
      · exact .inr ⟨o, same, grown published⟩
    · exact absurd ⟨rfl, rfl⟩ apart
  · intro k ticket o settles
    obtain settles | rfl := settles_concat.mp settles
    · exact account.settled settles
    · exact absurd ⟨rfl, rfl⟩ apart

theorem of_idle (account : Account history outcomes i .idle)
    (owned : ∀ {k ticket}, e = ⟨i, .step (.request k), .owned ticket⟩ → next = .fetching k ticket)
    (joined : ∀ {k ticket}, e = ⟨i, .step (.request k), .joined ticket⟩ → next = .waiting k ticket)
    (unsettled : ∀ {k ticket o}, e ≠ ⟨i, .step (.settle k ticket o), ()⟩)
    (waits : ∀ {k ticket}, next = .waiting k ticket →
      e = ⟨i, .step (.request k), .joined ticket⟩) :
    Account (history ++ [e]) outcomes' i next := by
  refine ⟨?_, ?_, ?_, fun same => joins_concat.mpr (.inr (waits same))⟩
  · intro k ticket owns
    obtain owns | new := owns_concat.mp owns
    · obtain same | ⟨_, _, same | ⟨same, _⟩⟩ := account.owned owns <;> cases same
    · exact .inl (owned new)
  · intro k ticket joins
    obtain joins | new := joins_concat.mp joins
    · obtain same | ⟨_, same, _⟩ := account.joined joins <;> cases same
    · exact .inl (joined new)
  · intro k ticket o settles
    obtain settles | new := settles_concat.mp settles
    · obtain same | same := account.settled settles <;> cases same
    · exact absurd new unsettled

variable {k : CacheKey} {ticket : Nat} {outcome : Except Fault CacheEntry}

theorem of_fetching (account : Account history outcomes i (.fetching k ticket)) :
    Account (history ++ [⟨i, .step (.settle k ticket outcome), ()⟩]) outcomes' i
      (.settled k ticket outcome) := by
  refine ⟨?_, ?_, ?_, nofun⟩
  · intro k' ticket' owns
    obtain owns | new := owns_concat.mp owns
    · obtain same | ⟨_, _, same | ⟨same, _⟩⟩ := account.owned owns <;> cases same
      exact .inr ⟨outcome, settles_concat.mpr (.inr rfl), .inl rfl⟩
    · cases new
  · intro k' ticket' joins
    obtain joins | new := joins_concat.mp joins
    · obtain same | ⟨_, same, _⟩ := account.joined joins <;> cases same
    · cases new
  · intro k' ticket' o settles
    obtain settles | new := settles_concat.mp settles
    · obtain same | same := account.settled settles <;> cases same
    · cases new
      exact .inl rfl

theorem of_settled (account : Account history outcomes i (.settled k ticket outcome))
    (published : outcomes'.find? ticket = some outcome) :
    Account (history ++ [⟨i, .step (.publish ticket outcome), ()⟩]) outcomes' i
      (.answered k outcome) := by
  refine ⟨?_, ?_, ?_, nofun⟩
  · intro k' ticket' owns
    obtain owns | new := owns_concat.mp owns
    · obtain same | ⟨o, settles, same | ⟨same, _⟩⟩ := account.owned owns <;> cases same
      exact .inr ⟨outcome, settles.concat, .inr ⟨rfl, published⟩⟩
    · cases new
  · intro k' ticket' joins
    obtain joins | new := joins_concat.mp joins
    · obtain same | ⟨_, same, _⟩ := account.joined joins <;> cases same
    · cases new
  · intro k' ticket' o settles
    obtain settles | new := settles_concat.mp settles
    · obtain same | same := account.settled settles <;> cases same
      exact .inr rfl
    · cases new

theorem of_waiting (account : Account history outcomes i (.waiting k ticket))
    (published : outcomes.find? ticket = some outcome) :
    Account (history ++ [⟨i, .wait ticket, outcome⟩]) outcomes i (.answered k outcome) := by
  refine ⟨?_, ?_, ?_, nofun⟩
  · intro k' ticket' owns
    obtain owns | new := owns_concat.mp owns
    · obtain same | ⟨_, _, same | ⟨same, _⟩⟩ := account.owned owns <;> cases same
    · cases new
  · intro k' ticket' joins
    obtain joins | new := joins_concat.mp joins
    · obtain same | ⟨_, same, _⟩ := account.joined joins <;> cases same
      exact .inr ⟨outcome, rfl, published⟩
    · cases new
  · intro k' ticket' o settles
    obtain settles | new := settles_concat.mp settles
    · obtain same | same := account.settled settles <;> cases same
    · cases new

theorem turn {a : Action} {r : a.Reply} (account : Account history c.outcomes i stage)
    (turn : Turn c stage a r c' next) :
    Account (history ++ [⟨i, a, r⟩]) c'.outcomes i next := by
  cases turn with
  | found stored => exact account.of_idle nofun nofun nofun nofun
  | joined inFlight =>
    exact account.of_idle nofun (fun same => by cases same; rfl) nofun fun same => by
      cases same
      rfl
  | owned => exact account.of_idle (fun same => by cases same; rfl) nofun nofun nofun
  | settled k ticket outcome => exact account.of_fetching
  | published k ticket outcome =>
    refine account.of_settled ?_
    rw [Cache.find?_outcomes_publish, if_pos rfl]
  | waited published => exact account.of_waiting published
  | cleared => exact account.concat nofun id
  | other apart => exact account.concat (fun same => apart same.2) id

end Account

/-- The invariant of all that share fetches. -/
structure Shared (history : List Event) (c : Cache CacheKey CacheEntry) (stages : Nat → Stage) :
    Prop where
  accounts : ∀ i, Account history c.outcomes i (stages i)
  hosts : ∀ {before rest i k ticket},
    history = before ++ ⟨i, .step (.request k), .joined ticket⟩ :: rest →
      ∃ j, Owns before j k ticket ∧ ∀ {o}, ¬ Settles before j k ticket o
  running : ∀ {k f}, c.inFlight.find? k = some f →
    f.epoch = c.epoch ∧ ∃ i, stages i = .fetching k f.ticket
  fates : ∀ {before rest i k ticket},
    history = before ++ ⟨i, .step (.request k), .owned ticket⟩ :: rest → Uncleared rest →
      Fate c rest i k ticket

namespace Shared

variable {history : List Event} {c c' : Cache CacheKey CacheEntry} {stages : Nat → Stage}
  {i : Nat} {next : Stage} {a : Action} {r : a.Reply}

theorem published_stays (coherent : Coherent history c stages) (shared : Shared history c stages)
    (turn : Turn c (stages i) a r c' next) {t : Nat} {o : Except Fault CacheEntry}
    (published : c.outcomes.find? t = some o) : c'.outcomes.find? t = some o := by
  have explained := coherent.explained i
  have account := shared.accounts i
  generalize before : stages i = stage at turn explained account
  cases turn with
  | published k ticket outcome =>
    rw [Cache.find?_outcomes_publish]
    split
    · next same =>
      subst same
      obtain ⟨owner, _⟩ := explained
      obtain ⟨j, k', owns, settles⟩ := coherent.outcomes published
      obtain ⟨rfl, rfl⟩ := coherent.unique owner.1 owns
      obtain same | same := account.settled settles <;> cases same
      rfl
    · exact published
  | settled =>
    rw [Cache.outcomes_settle]
    exact published
  | _ => exact published

theorem accounts_step (coherent : Coherent history c stages) (shared : Shared history c stages)
    (turn : Turn c (stages i) a r c' next) (j : Nat) :
    Account (history ++ [⟨i, a, r⟩]) c'.outcomes j (Function.update stages i next j) := by
  rcases eq_or_ne j i with rfl | other
  · rw [Function.update_self]
    exact (shared.accounts j).turn turn
  · rw [Function.update_of_ne other]
    exact (shared.accounts j).concat (fun same => other same.1.symm)
      (shared.published_stays coherent turn)

theorem owner_of_running (coherent : Coherent history c stages) (shared : Shared history c stages)
    {k : CacheKey} {f : Flight} (registered : c.inFlight.find? k = some f) :
    ∃ j, stages j = .fetching k f.ticket ∧ Owns history j k f.ticket ∧
      ∀ {o}, ¬ Settles history j k f.ticket o := by
  obtain ⟨_, j, fetching⟩ := shared.running registered
  have owner := coherent.explained j
  have account := shared.accounts j
  rw [fetching] at owner account
  refine ⟨j, fetching, owner.1, fun settles => ?_⟩
  obtain same | same := account.settled settles <;> cases same

theorem host (shared : Shared history c stages) {ticket : Nat} {k : CacheKey}
    (joins : Joins history i k ticket) : ∃ j, Owns history j k ticket := by
  obtain ⟨before, rest, rfl⟩ := List.append_of_mem joins
  obtain ⟨j, owns, _⟩ := shared.hosts rfl
  exact ⟨j, List.mem_append_left _ owns⟩

theorem hosts_step (coherent : Coherent history c stages) (shared : Shared history c stages)
    (turn : Turn c (stages i) a r c' next) {before rest : List Event} {j ticket : Nat}
    {k : CacheKey}
    (split : history ++ [⟨i, a, r⟩] = before ++ ⟨j, .step (.request k), .joined ticket⟩ :: rest) :
    ∃ j', Owns before j' k ticket ∧ ∀ {o}, ¬ Settles before j' k ticket o := by
  rcases System.history_append_singleton split with ⟨rfl, same, rfl⟩ | ⟨rest, rfl, rfl⟩
  · cases same
    generalize stages i = stage at turn
    cases turn with
    | joined inFlight =>
      obtain ⟨j', _, owns, unsettled⟩ := shared.owner_of_running coherent inFlight
      exact ⟨j', owns, unsettled⟩
    | other apart => exact absurd rfl apart
  · exact shared.hosts rfl

theorem running_step (shared : Shared history c stages) (turn : Turn c (stages i) a r c' next)
    {k : CacheKey} {f : Flight} (registered : c'.inFlight.find? k = some f) :
    f.epoch = c'.epoch ∧ ∃ j, Function.update stages i next j = .fetching k f.ticket := by
  -- a caller that fetches moves on only when it settles, and then its registration is gone
  have stays (old : c.inFlight.find? k = some f) (still : stages i = .fetching k f.ticket → False) :
      f.epoch = c.epoch ∧ ∃ j, Function.update stages i next j = .fetching k f.ticket := by
    obtain ⟨epoch, j, fetching⟩ := shared.running old
    refine ⟨epoch, j, ?_⟩
    rw [Function.update_of_ne, fetching]
    rintro rfl
    exact still fetching
  generalize before : stages i = stage at turn stays
  cases turn with
  | @owned k' =>
    rw [Cache.find?_inFlight_register] at registered
    by_cases same : k = k'
    · rw [if_pos same] at registered
      cases registered
      exact ⟨rfl, i, by rw [Function.update_self, same]⟩
    · rw [if_neg same] at registered
      exact stays registered nofun
  | settled k' ticket outcome =>
    rw [Cache.epoch_settle]
    refine stays (Cache.find?_inFlight_settle registered) fun same => ?_
    cases same
    exact Cache.ticket_ne_of_settle registered rfl
  | cleared => contradiction
  | other =>
    obtain ⟨epoch, j, fetching⟩ := shared.running registered
    refine ⟨epoch, j, ?_⟩
    rw [← before, Function.update_eq_self, fetching]
  | _ => exact stays registered nofun

end Shared

theorem Fate.step {history rest : List Event} {c c' : Cache CacheKey CacheEntry}
    {stages : Nat → Stage} {i j ticket : Nat} {k : CacheKey} {next : Stage} {a : Action}
    {r : a.Reply} (fate : Fate c rest j k ticket) (coherent : Coherent history c stages)
    (owns : Owns history j k ticket) (turn : Turn c (stages i) a r c' next)
    (uncleared : a ≠ .step .clearCache) : Fate c' (rest ++ [⟨i, a, r⟩]) j k ticket := by
  have explained := coherent.explained i
  generalize stages i = stage at turn explained
  cases turn with
  | owned unstored free =>
    cases fate with
    | running registered =>
      refine .running ?_
      rw [Cache.find?_inFlight_register, Cache.epoch_register, if_neg, registered]
      rintro rfl
      rw [free] at registered
      contradiction
    | succeeded settles stored => exact .succeeded settles.concat stored
    | failed settles => exact .failed settles.concat
  | settled k' ticket' outcome =>
    cases fate with
    | running registered =>
      by_cases same : k = k' ∧ ticket = ticket'
      · obtain ⟨rfl, rfl⟩ := same
        have owner : Owner history i k ticket := explained
        obtain ⟨rfl, _⟩ := coherent.unique owner.1 owns
        cases outcome with
        | ok e =>
          refine .succeeded (settles_concat.mpr (.inr rfl)) ?_
          rw [Cache.find?_stored_settle_self registered]
          rfl
        | error f => exact .failed (settles_concat.mpr (.inr rfl))
      · refine .running ?_
        rw [Cache.epoch_settle]
        exact Cache.find?_inFlight_settle_of_ne registered same
    | succeeded settles stored => exact .succeeded settles.concat (Cache.isSome_stored_settle stored)
    | failed settles => exact .failed settles.concat
  | cleared => exact absurd rfl uncleared
  | _ =>
    cases fate with
    | running registered => exact .running registered
    | succeeded settles stored => exact .succeeded settles.concat stored
    | failed settles => exact .failed settles.concat

theorem Shared.step {history : List Event} {c c' : Cache CacheKey CacheEntry}
    {stages : Nat → Stage} {i : Nat} {next : Stage} {a : Action} {r : a.Reply}
    (coherent : Coherent history c stages) (shared : Shared history c stages)
    (turn : Turn c (stages i) a r c' next) :
    Shared (history ++ [⟨i, a, r⟩]) c' (Function.update stages i next) := by
  refine ⟨shared.accounts_step coherent turn, shared.hosts_step coherent turn,
    shared.running_step turn, ?_⟩
  intro before rest j k ticket split uncleared
  rcases System.history_append_singleton split with ⟨rfl, same, rfl⟩ | ⟨rest, rfl, rfl⟩
  · cases same
    generalize stages i = stage at turn
    cases turn with
    | owned =>
      refine .running ?_
      rw [Cache.find?_inFlight_register, if_pos rfl, Cache.epoch_register]
    | other apart => exact absurd rfl apart
  · obtain ⟨earlier, now⟩ := uncleared_concat.mp uncleared
    have owns : Owns (before ++ ⟨j, .step (.request k), .owned ticket⟩ :: rest) j k ticket :=
      List.mem_append_right _ List.mem_cons_self
    exact (shared.fates rfl earlier).step coherent owns turn now

theorem shared_of_reachable {w : World} {s : System (Option CacheEntry)} (empty : w.cache = {})
    (reach : System.Reachable CacheCall w s) :
    Shared s.history s.world.cache (stages s.history) := by
  induction reach with
  | init =>
    show Shared [] w.cache fun _ => .idle
    rw [empty]
    refine ⟨fun _ => ⟨nofun, nofun, nofun, nofun⟩, ?_, nofun, ?_⟩
    · intro before rest i k ticket split
      simp at split
    · intro before rest i k ticket split
      simp at split
  | start _ _ ih => exact ih
  | act reach caller answers ih =>
    have allowed := (reach.obeys (fun _ call => call.inOrder) caller).1
    rw [stages_concat]
    exact ih.step (coherent_of_reachable empty reach) (turn_of_answers allowed answers)

namespace System.Reachable

variable {w : World} {s : System (Option CacheEntry)} {i ticket : Nat} {k : CacheKey}
  {p : Program (Option CacheEntry)}

theorem stage_of_act (reach : Reachable CacheCall w s) {a : Action}
    {next : a.Reply → Program (Option CacheEntry)} (caller : s.callers[i]? = some (.act a next)) :
    (stages s.history i).allows a :=
  (reach.obeys (fun _ call => call.answered) caller).1

theorem answered_of_ended (reach : Reachable CacheCall w s) {stage : Stage}
    (now : stages s.history i = stage) (begun : stage ≠ .idle) (caller : s.callers[i]? = some p)
    (ended : p.hasEnded) : ∃ k o, stage = .answered k o ∧ p = .ofExcept (o.map some) := by
  have obeys := reach.obeys (fun _ call => call.answered) caller
  have now : System.observed Stage.inOrder.after .idle i s.history = stage := now
  rw [now] at obeys
  cases p with
  | done a =>
    obtain ⟨idle, _⟩ | ⟨k, o, answered, same⟩ := obeys
    · exact absurd idle begun
    · exact ⟨k, o, answered, by rw [← same]; rfl⟩
  | fail f =>
    obtain ⟨idle, _⟩ | ⟨k, o, answered, same⟩ := obeys
    · exact absurd idle begun
    · exact ⟨k, o, answered, by rw [← same]; rfl⟩
  | act a next => contradiction

theorem underway (reach : Reachable CacheCall w s) {stage : Stage}
    (now : stages s.history i = stage) (begun : stage ≠ .idle)
    (unanswered : ∀ {k o}, stage ≠ .answered k o) (owns : Owns s.history i k ticket) :
    ∃ p, s.callers[i]? = some p ∧ ¬ p.hasEnded := by
  have inside : i < s.callers.length := reach.caller_lt _ owns
  refine ⟨s.callers[i], List.getElem?_eq_getElem inside, ?_⟩
  intro ended
  obtain ⟨_, _, answered, _⟩ :=
    reach.answered_of_ended now begun (List.getElem?_eq_getElem inside) ended
  exact unanswered answered

variable (empty : w.cache = {})
include empty

theorem settles_unique (reach : Reachable CacheCall w s) {o o' : Except Fault CacheEntry}
    (settles : Settles s.history i k ticket o) (settles' : Settles s.history i k ticket o') :
    o' = o := by
  have account := (shared_of_reachable empty reach).accounts i
  obtain same | same := account.settled settles <;>
    obtain same' | same' := account.settled settles' <;>
    · rw [same] at same'
      cases same' <;> rfl

/-- Between two clearings, a fetch for a key begins only after the one before it has failed. -/
theorem failed_before_next (reach : Reachable CacheCall w s) {before rest after : List Event}
    {j ticket' : Nat}
    (split : s.history = before ++ ⟨i, .step (.request k), .owned ticket⟩ ::
      (rest ++ ⟨j, .step (.request k), .owned ticket'⟩ :: after))
    (uncleared : Uncleared rest) : ∃ f, Settles rest i k ticket (.error f) := by
  have regroup : s.history = (before ++ ⟨i, .step (.request k), .owned ticket⟩ :: rest) ++
      ⟨j, .step (.request k), .owned ticket'⟩ :: after := by
    rw [split, List.append_assoc, List.cons_append]
  obtain ⟨s', next, v, reach', same, caller, answers⟩ := reach.answered_event regroup
  have shared := shared_of_reachable empty reach'
  obtain ⟨unstored, free⟩ := (turn_of_answers (reach'.stage_of_act caller) answers).lookup
  cases shared.fates same uncleared with
  | running registered =>
    rw [free] at registered
    contradiction
  | succeeded settles stored =>
    rw [unstored] at stored
    contradiction
  | failed settles => exact ⟨_, settles⟩

/-- Who joined a fetch ends with its outcome, as its owner does. -/
theorem joined_answer (reach : Reachable CacheCall w s) (joins : Joins s.history i k ticket)
    (caller : s.callers[i]? = some p) (ended : p.hasEnded) :
    ∃ j o, Owns s.history j k ticket ∧ (∀ {o'}, Settles s.history j k ticket o' ↔ o' = o) ∧
      p = .ofExcept (o.map some) ∧
      ∀ {q}, s.callers[j]? = some q → q.hasEnded → q = .ofExcept (o.map some) := by
  have coherent := coherent_of_reachable empty reach
  have shared := shared_of_reachable empty reach
  obtain ⟨j, owns⟩ := shared.host joins
  obtain waiting | ⟨o, answered, published⟩ := (shared.accounts i).joined joins
  · obtain ⟨_, _, same, _⟩ := reach.answered_of_ended waiting nofun caller ended
    cases same
  obtain ⟨_, _, same, answer⟩ := reach.answered_of_ended answered nofun caller ended
  cases same
  obtain ⟨j', k', owns', settles⟩ := coherent.outcomes published
  obtain ⟨rfl, rfl⟩ := coherent.unique owns owns'
  refine ⟨j, o, owns, ?_, answer, ?_⟩
  · intro o'
    refine ⟨reach.settles_unique empty settles, ?_⟩
    rintro rfl
    exact settles
  · intro q owner finished
    obtain fetching | ⟨o', settles', settled | ⟨answered', _⟩⟩ := (shared.accounts j).owned owns
    · obtain ⟨_, _, same, _⟩ := reach.answered_of_ended fetching nofun owner finished
      cases same
    · obtain ⟨_, _, same, _⟩ := reach.answered_of_ended settled nofun owner finished
      cases same
    · obtain ⟨_, _, same, answer⟩ := reach.answered_of_ended answered' nofun owner finished
      cases same
      rw [answer, reach.settles_unique empty settles settles']

theorem settle_keeps_others (reach : Reachable CacheCall w s) {o : Except Fault CacheEntry}
    {next : Unit → Program (Option CacheEntry)}
    (caller : s.callers[i]? = some (.act (.step (.settle k ticket o)) next)) :
    Owns s.history i k ticket ∧ ∀ {k' f}, s.world.cache.inFlight.find? k' = some f →
      ¬ (k' = k ∧ f.ticket = ticket) →
      (s.world.step (.settle k ticket o)).2.cache.inFlight.find? k' = some f := by
  have fetching : stages s.history i = .fetching k ticket := reach.stage_of_act caller
  have owner := (coherent_of_reachable empty reach).explained i
  rw [fetching] at owner
  exact ⟨owner.1, Cache.find?_inFlight_settle_of_ne⟩

/-- A registration is that of a fetch whose owner has not settled, let alone ended. -/
theorem owner_underway (reach : Reachable CacheCall w s) {f : Flight}
    (registered : s.world.cache.inFlight.find? k = some f) :
    ∃ i p, Owns s.history i k f.ticket ∧ (∀ {o}, ¬ Settles s.history i k f.ticket o) ∧
      s.callers[i]? = some p ∧ ¬ p.hasEnded := by
  have coherent := coherent_of_reachable empty reach
  obtain ⟨i, fetching, owns, unsettled⟩ :=
    (shared_of_reachable empty reach).owner_of_running coherent registered
  obtain ⟨p, caller, begun⟩ := reach.underway fetching nofun nofun owns
  exact ⟨i, p, owns, unsettled, caller, begun⟩

theorem none_in_flight (reach : Reachable CacheCall w s)
    (quiet : ∀ {i k p}, Asks s.history i k → s.callers[i]? = some p → p.hasEnded) :
    s.world.cache.inFlight = .empty := by
  generalize inFlight : s.world.cache.inFlight = t
  obtain ⟨entries⟩ := t
  cases entries with
  | nil => rfl
  | cons e rest =>
    have registered : s.world.cache.inFlight.find? e.1 = some e.2 := by
      rw [inFlight, Table.find?, List.lookup_cons_self]
    obtain ⟨i, p, owns, _, caller, begun⟩ := reach.owner_underway empty registered
    exact absurd (quiet ⟨_, owns⟩ caller) begun

theorem waiter_served (reach : Reachable CacheCall w s)
    {next : Except Fault CacheEntry → Program (Option CacheEntry)}
    (caller : s.callers[i]? = some (.act (.wait ticket) next)) :
    (∃ o, s.world.cache.outcome? ticket = some o) ∨
      ∃ j k p, Owns s.history j k ticket ∧ s.callers[j]? = some p ∧ ¬ p.hasEnded := by
  obtain ⟨k, waiting⟩ := reach.stage_of_act caller
  have shared := shared_of_reachable empty reach
  obtain ⟨j, owns⟩ := shared.host ((shared.accounts i).waits waiting)
  obtain fetching | ⟨o, _, settled | ⟨_, published⟩⟩ := (shared.accounts j).owned owns
  · obtain ⟨p, owner, begun⟩ := reach.underway fetching nofun nofun owns
    exact .inr ⟨j, k, p, owns, owner, begun⟩
  · obtain ⟨p, owner, begun⟩ := reach.underway settled nofun nofun owns
    exact .inr ⟨j, k, p, owns, owner, begun⟩
  · exact .inl ⟨o, published⟩

end System.Reachable

/-- In every interleaving of requests, however their fetches end, with any clearings: between two
clearings a fetch for a key begins only after the one before it has ended, with a failure; who joins
a fetch ends with its outcome, as the owner does; a fetch that ends leaves the registrations of the
others; and each registration, and each fetch at the time it is joined, is that of an owner that has
not ended, so that none is left when no request is running, and nobody waits for nobody. -/
theorem fetches_shared {w : World} {s : System (Option CacheEntry)} (empty : w.cache = {})
    (reach : System.Reachable CacheCall w s) :
    (∀ {i j k ticket ticket' before rest after},
      s.history = before ++ ⟨i, .step (.request k), .owned ticket⟩ ::
        (rest ++ ⟨j, .step (.request k), .owned ticket'⟩ :: after) → Uncleared rest →
      ∃ f, Settles rest i k ticket (.error f) ∧
        ∀ {o}, Settles s.history i k ticket o → o = .error f) ∧
    (∀ {i k ticket p}, Joins s.history i k ticket → s.callers[i]? = some p → p.hasEnded →
      ∃ j o, Owns s.history j k ticket ∧ (∀ {o'}, Settles s.history j k ticket o' ↔ o' = o) ∧
        p = .ofExcept (o.map some) ∧
        ∀ {q}, s.callers[j]? = some q → q.hasEnded → q = .ofExcept (o.map some)) ∧
    (∀ {i : Nat} {k ticket o next},
      s.callers[i]? = some (.act (.step (.settle k ticket o)) next) →
      Owns s.history i k ticket ∧ ∀ {k' f}, s.world.cache.inFlight.find? k' = some f →
        ¬ (k' = k ∧ f.ticket = ticket) →
        (s.world.step (.settle k ticket o)).2.cache.inFlight.find? k' = some f) ∧
    (∀ {k f}, s.world.cache.inFlight.find? k = some f →
      ∃ i p, Owns s.history i k f.ticket ∧ (∀ {o}, ¬ Settles s.history i k f.ticket o) ∧
        s.callers[i]? = some p ∧ ¬ p.hasEnded) ∧
    ((∀ {i k p}, Asks s.history i k → s.callers[i]? = some p → p.hasEnded) →
      s.world.cache.inFlight = .empty) ∧
    (∀ {before rest i k ticket},
      s.history = before ++ ⟨i, .step (.request k), .joined ticket⟩ :: rest →
      ∃ j, Owns before j k ticket ∧ ∀ {o}, ¬ Settles before j k ticket o) ∧
    (∀ {i : Nat} {ticket next}, s.callers[i]? = some (.act (.wait ticket) next) →
      (∃ o, s.world.cache.outcome? ticket = some o) ∨
        ∃ j k p, Owns s.history j k ticket ∧ s.callers[j]? = some p ∧ ¬ p.hasEnded) := by
  refine ⟨?_, reach.joined_answer empty, reach.settle_keeps_others empty,
    reach.owner_underway empty, reach.none_in_flight empty, (shared_of_reachable empty reach).hosts,
    reach.waiter_served empty⟩
  intro i j k ticket ticket' before rest after split uncleared
  obtain ⟨f, settles⟩ := reach.failed_before_next empty split uncleared
  have settled : Settles s.history i k ticket (.error f) := by
    rw [split]
    exact List.mem_append_right _ (List.mem_cons_of_mem _ (List.mem_append_left _ settles))
  exact ⟨f, settles, reach.settles_unique empty settled⟩

theorem fetches_shared_after_failure : ∃ (s : System (Option CacheEntry)) (k : CacheKey) (f : Fault)
    (rest : List Event),
    System.Reachable CacheCall {} s ∧
      s.history = ⟨0, .step (.request k), .owned 0⟩ ::
        (rest ++ [⟨2, .step (.request k), .owned 1⟩]) ∧
      Settles rest 0 k 0 (.error f) ∧ (∃ j, Owns s.history j k 0) ∧
      s.callers[1]? = some (.fail f) := by
  let k : CacheKey := .classCategories (.text "generated-1") (.whole 1)
  let f : Fault := .refused .busy
  have asks : CacheCall (some <$> Tree.entry k (.fail f)) := .request k trivial
  have started := (System.Reachable.init (w := {})).start asks |>.start asks |>.start asks
  have joined := started.act (i := 0) rfl (.step _ _) |>.act (i := 1) rfl (.step _ _)
  have settled := joined.act (i := 0) rfl (.step _ _) |>.act (i := 0) rfl (.step _ _)
  have answered := settled.act (i := 1) rfl (.wait rfl) |>.act (i := 2) rfl (.step _ _)
  obtain ⟨serial, shared, _⟩ := fetches_shared rfl answered
  have uncleared : Uncleared [⟨1, .step (.request k), .joined 0⟩,
      ⟨0, .step (.settle k 0 (.error f)), ()⟩, ⟨0, .step (.publish 0 (.error f)), ()⟩,
      ⟨1, .wait 0, .error f⟩] := by
    simp [Uncleared]
  obtain ⟨g, settles, only⟩ := serial (List.nil_append _).symm uncleared
  have same : Except.error f = .error g := only (List.mem_of_getElem? (i := 2) rfl)
  cases same
  obtain ⟨j, o, owns, _⟩ := shared (List.mem_of_getElem? (i := 1) rfl) rfl rfl
  exact ⟨_, k, f, _, answered, rfl, settles, ⟨j, owns⟩, rfl⟩

end ImageBrowser
