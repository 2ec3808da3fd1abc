import ImageBrowser.Proofs.Calls.Exclusion
import ImageBrowser.Proofs.Calls.Failures
import ImageBrowser.Proofs.Programs.Traces

/-!
All that is done for a call of a session, from its beginning to its end. A call does nothing but its
own steps and leaves everything else alone; with nobody else about it leaves the session as it was.
What is counted or claimed around a body does not show among the requests that a stone receives.
-/

namespace ImageBrowser

open Program (Does Keeps)

def Action.isOfCall : Action → Bool
  | .step (.claim _) | .step (.release _) | .step (.enter _) | .step (.leave _) => true
  | .step (.knownResultClass _) | .step (.rememberResultClass _ _) => true
  | .step .selectedSession => true
  | .ask _ _ | .log _ => true
  | _ => false

theorem Handle.Logical.ofCall {α : Type} {h : Handle} {may : Scope} {p : Program α}
    (logical : h.Logical may p) : p.Only Action.isOfCall := by
  apply logical.only
  intro _ a lets
  cases a with
  | step t => cases t <;> first | rfl | exact lets.elim
  | ask c r => rfl
  | log e => rfl
  | _ => exact lets.elim

def Fault.inStep (fallback : String) (f : Fault) : Fault :=
  if f.isFromStone then
    .refused (.queryFailed (if f.message = "" then fallback else f.message) f.stoneNumber)
  else f

theorem Outlook.FailsFromStone.isFromStone {o : Outlook} (fails : o.FailsFromStone)
    {ds : List Doing} (admitted : ∀ d ∈ ds, o.admits d.1 d.2) {c : Connection} {r : Request}
    {f : Fault} (mem : ⟨.ask c r, .error f⟩ ∈ ds) : f.isFromStone :=
  fails r f (admitted ⟨.ask c r, .error f⟩ mem)

namespace Handle

variable {h : Handle} {α β : Type} {ds : List Doing} {w v : World}

/-! The sorts of actions that calls take -/

variable {sort : Action → Bool}

theorem only_ask {r : Request} (asks : sort (.ask h.connection r)) : (h.ask r).Only sort :=
  Program.only_act asks .ofExcept

theorem only_calling {body : Program α} (enters : sort (.step (.enter h.number)))
    (leaves : sort (.step (.leave h.number))) (only : body.Only sort) :
    (h.calling body).Only sort :=
  .bind (Program.only_act enters .done) fun _ => .ensure only (Program.only_act leaves .done)

theorem only_failedCall {fallback : String} {f : Fault}
    (logs : ∀ message, sort (.log (.error h.sessionId message))) :
    (h.failedCall fallback f : Program α).Only sort :=
  .bind (Program.only_act (logs _) .done) fun _ => .fail _

theorem only_fetchText {source limit : Value} {resultClass : Option RemoteObject}
    (enters : sort (.step (.enter h.number))) (leaves : sort (.step (.leave h.number)))
    (executes : sort (.ask h.connection (.execute source)))
    (fetches : ∀ object, sort (.ask h.connection (.fetch object))) :
    (h.fetchText source resultClass limit).Only sort := by
  unfold fetchText
  split
  · exact .fail _
  · have fetched : (do h.ask (.fetch (← h.ask (.execute source)))).Only sort :=
      .bind (only_ask executes) fun _ => only_ask (fetches _)
    apply Keeps.bind (only_calling enters leaves fetched)
    intro answer
    split
    · exact .ofExcept _
    · exact .fail _

/-! What is done for a call -/

theorem depth_of_obeys {may : Scope} {p : Program α} {s : Progress}
    {post : Except Fault α → Progress → Prop} {outcome : Except Fault α}
    (obeys : p.Obeys (h.conduct may) s post) (does : p.Does ds outcome) (leads : Leads w ds v) :
    ∃ s', post outcome s' ∧
      v.depth h.number - w.depth h.number = s'.standing.weight - s.standing.weight := by
  induction does generalizing s w with
  | done | fail =>
    cases leads
    exact ⟨s, obeys, by omega⟩
  | @act a k r ds o _ ih =>
    cases leads with
    | cons answers leads =>
      have lets : h.turns.allows s.standing a := lets_turns obeys.1
      obtain ⟨balance, _⟩ := Standing.balances (admits_of_turns lets) answers
      obtain ⟨s', ends, moved⟩ := ih (obeys.2 r) leads
      have same : ((h.conduct may).after s a r).standing = s.standing.after h.number a r := rfl
      rw [same] at moved
      exact ⟨s', ends, by omega⟩

/-- A logical call that is run to its end counts as many calls then as before. -/
theorem depth_of_logical {may : Scope} {p : Program α} {outcome : Except Fault α}
    (logical : h.Logical may p) (does : p.Does ds outcome) (leads : Leads w ds v) :
    v.depth h.number = w.depth h.number := by
  obtain ⟨s, ends, moved⟩ := depth_of_obeys (logical {} rfl) does leads
  have free : s.standing.weight = 0 := by
    rcases ends with stands | stands | ⟨stands, _⟩ <;> rw [stands] <;> rfl
  have outside : ({} : Progress).standing.weight = 0 := rfl
  omega

theorem does_calling {body : Program α} {outcome : Except Fault α}
    (does : (h.calling body).Does ds outcome) :
    ∃ inner, body.Does inner outcome ∧ callsIn ds = callsIn inner := by
  obtain ⟨_, rest, rfl, ensured⟩ := Program.does_act.mp does
  obtain ⟨o, c, inner, last, rfl, goes, leaves, ended⟩ := Program.Does.of_ensure ensured
  obtain ⟨_, rest, rfl, finished⟩ := Program.does_act.mp leaves
  obtain ⟨rfl, rfl⟩ := Program.does_done.mp finished
  obtain ⟨_, rfl⟩ | ⟨_, ⟨⟩, _⟩ := ended
  refine ⟨inner, goes, ?_⟩
  rw [← List.singleton_append, callsIn_append, callsIn_append]
  simp [callsIn, Action.isRemote]

theorem parts_of_exclusively {body : Program α} {outcome : Except Fault α}
    (does : (h.exclusively body).Does ds outcome) :
    (∃ entry, ds = [⟨.step (.claim h.number), false⟩, ⟨.log entry, ()⟩] ∧
        outcome = .error (.refused .busy)) ∨
      ∃ inner, ds = ⟨.step (.claim h.number), true⟩ ::
          (inner ++ [⟨.step (.release h.number), ()⟩]) ∧ body.Does inner outcome := by
  obtain ⟨granted, rest, rfl, goes⟩ := Program.does_step_bind.mp does
  cases granted with
  | false =>
    obtain ⟨_, rest, rfl, fails⟩ := Program.does_act.mp goes
    obtain ⟨rfl, rfl⟩ := Program.does_fail.mp fails
    exact .inl ⟨_, rfl, rfl⟩
  | true =>
    obtain ⟨o, c, inner, last, rfl, works, releases, ended⟩ := Does.of_ensure goes
    obtain ⟨_, rest, rfl, finished⟩ := Program.does_act.mp releases
    obtain ⟨rfl, rfl⟩ := Program.does_done.mp finished
    obtain ⟨_, rfl⟩ | ⟨_, ⟨⟩, _⟩ := ended
    exact .inr ⟨inner, rfl, works⟩

theorem does_exclusively {body : Program α} {outcome : Except Fault α}
    (free : ¬ 0 < w.depth h.number) (does : (h.exclusively body).Does ds outcome)
    (leads : Leads w ds v) : ∃ inner, body.Does inner outcome ∧ callsIn ds = callsIn inner := by
  obtain ⟨_, rfl, _⟩ | ⟨inner, rfl, works⟩ := parts_of_exclusively does
  · obtain ⟨granted, _⟩ := leads.of_step
    rw [World.step_claim_of_free free] at granted
    cases granted
  · refine ⟨inner, works, ?_⟩
    rw [← List.singleton_append, callsIn_append, callsIn_append]
    simp [callsIn, Action.isRemote]

theorem does_request {r : Request} {outcome : Except Fault r.Answer}
    (does : (h.calling (h.ask r)).Does ds outcome) :
    callsIn ds = [⟨.ask h.connection r, outcome⟩] := by
  obtain ⟨inner, asks, same⟩ := does_calling does
  rw [same, Program.does_ask asks]
  rfl

theorem does_failedCall {fallback : String} {f : Fault} {outcome : Except Fault α}
    (fromStone : f.isFromStone) (does : (h.failedCall fallback f).Does ds outcome) :
    callsIn ds = [] ∧ outcome = .error (f.inStep fallback) := by
  obtain ⟨rest, fails, same⟩ := Program.does_log_bind does
  obtain ⟨rfl, rfl⟩ := Program.does_fail.mp fails
  rw [Fault.inStep, if_pos fromStone]
  exact ⟨same, rfl⟩

theorem does_remoteStep {fallback : String} {body : Program α} {outcome : Except Fault α}
    (does : (h.remoteStep fallback body).Does ds outcome) :
    ∃ inner o, body.Does inner o ∧ callsIn ds = callsIn inner ∧
      outcome = o.mapError (Fault.inStep fallback) := by
  obtain ⟨a, goes, rfl⟩ | ⟨f, first, rest, rfl, goes, handled⟩ := Does.of_handling does
  · exact ⟨ds, .ok a, goes, rfl, rfl⟩
  · refine ⟨first, .error f, goes, ?_⟩
    rw [callsIn_append]
    obtain ⟨fromStone, fails⟩ | ⟨other, rfl, rfl⟩ := handled
    · obtain ⟨none, rfl⟩ := does_failedCall fromStone fails
      rw [none, List.append_nil]
      exact ⟨rfl, rfl⟩
    · rw [Except.mapError, Fault.inStep, if_neg (by simp [other])]
      exact ⟨List.append_nil _, rfl⟩

theorem does_remoteStep_bind {fallback : String} {body : Program α} {k : α → Program β}
    {outcome : Except Fault β} (does : (h.remoteStep fallback body >>= k).Does ds outcome) :
    (∃ a inner rest, body.Does inner (.ok a) ∧ (k a).Does rest outcome ∧
        callsIn ds = callsIn inner ++ callsIn rest) ∨
      ∃ f inner, body.Does inner (.error f) ∧ callsIn ds = callsIn inner ∧
        outcome = .error (f.inStep fallback) := by
  obtain ⟨a, first, rest, rfl, steps, goes⟩ | ⟨e, steps, rfl⟩ := Does.of_bind does
  · obtain ⟨inner, f | a', works, same, ended⟩ := does_remoteStep steps
    · contradiction
    · cases ended
      exact .inl ⟨a, inner, rest, works, goes, by rw [callsIn_append, same]⟩
  · obtain ⟨inner, f | a, fails, same, ended⟩ := does_remoteStep steps
    · cases ended
      exact .inr ⟨f, inner, fails, same, rfl⟩
    · contradiction

end Handle

namespace Leads

variable {w v : World} {ds : List Doing}

theorem of_calls (leads : Leads w ds v) (calls : ∀ d ∈ ds, d.1.isOfCall) :
    v.cache = w.cache ∧ v.selection = w.selection ∧ v.treeListeners = w.treeListeners := by
  have kept := leads.keeps (fun u => (u.cache, u.selection, u.treeListeners)) fun d mem u => by
    obtain ⟨a, r⟩ := d
    have call := calls _ mem
    cases a with
    | step t => cases t <;> first | rfl | cases call
    | _ => rfl
  simpa only [Prod.mk.injEq] using kept

end Leads

end ImageBrowser
