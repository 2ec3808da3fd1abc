import ImageBrowser.Proofs.Programs.Schedule
import ImageBrowser.Proofs.Sessions.Connections
import ImageBrowser.Proofs.Tools.Dealings
import ImageBrowser.Proofs.Tree.Roots

/-!
Any number of calls of tools, in any interleaving and with any answers of the stones. While a call
has claimed a session, another call that would claim it is refused, and none reaches it but one that
disconnects: that has removed the session, and logs it out without having claimed it.
-/

namespace ImageBrowser

def Tools.IsCallOf (tools : Tool → Prop) (p : Program Response) : Prop :=
  ∃ s t given, tools t ∧ p = Tools.call s t given

theorem Tools.settles_call {tools : Tool → Prop} (p : Program Response)
    (call : Tools.IsCallOf tools p) : Settles (tools .disconnect) p := by
  obtain ⟨s, t, given, among, rfl⟩ := call
  show (Program.ofExcept (t.bindArguments given) >>= _).Obeys _ _ _
  rw [Program.obeys_bind, Program.obeys_ofExcept]
  cases t.bindArguments given with
  | error f => exact fun refused => absurd refused Unclaimed.nil.not_turnedDown
  | ok values => exact settles_tool t values fun same => same ▸ among

/-- Whatever tools are called, in any order and interleaving, whatever the stones answer, and where
every login brings a connection that was not there before: whoever holds a session was told of it;
while one caller holds a session, another one that claims it is refused, and another one that asks
its stone has removed the session and logs it out, so that none does where no call disconnects;
and whoever is refused asks nothing more, and answers that it did not work, unless it is an
expansion that found the notices cleared. -/
theorem held_session_left_alone {tools : Tool → Prop} {w : World} {s : System Response}
    (idle : ∀ n, w.depth n = 0) (reach : System.Reachable (Tools.IsCallOf tools) w s)
    (fresh : (w.connections ++ System.logins s.history).Nodup) :
    (∀ {n i}, (standingAfter n (System.diary i s.history)).holds →
      ∃ h : Handle, h.Told (System.diary i s.history) ∧ h.number = n) ∧
    (∀ {before e after} {h : Handle} {i}, s.history = before ++ e :: after →
      h.Told (System.diary i before) → (h.standing before i).holds → e.caller ≠ i →
      (∀ r, e.action = .ask h.connection r →
        r = .logOut ∧ tools .disconnect ∧ h.Removed (System.diary e.caller before)) ∧
      (e.action = .step (.claim h.number) → h.standing (before ++ [e]) e.caller = .refused)) ∧
    (∀ {h : Handle} {i p}, s.callers[i]? = some p → h.standing s.history i = .refused →
      match p with
      | .act a _ => ¬ a.isRemote
      | .done answer => answer.ok = false ∨ ⟨i, .step .notices, []⟩ ∈ s.history
      | .fail _ => False) := by
  refine ⟨System.told_of_holds Tools.settles_call reach, ?_, ?_⟩
  · intro before e after h i split told holds other
    obtain ⟨s', k, v, reach', rfl, caller, answers⟩ := reach.answered_event split
    have allowed : (dealing (tools .disconnect)).allows
        (System.diary e.caller s'.history) e.action := (reach'.obeys Tools.settles_call caller).1
    have alone := System.alone_of_reachable Tools.settles_call reach' (idle h.number)
    obtain ⟨unique, count⟩ := alone.holder holds
    constructor
    · intro r asks
      have earlier : (w.connections ++ System.logins s'.history).Nodup := by
        rw [split, System.logins, List.filterMap_append, ← List.append_assoc] at fresh
        exact fresh.of_append_left
      have apart := System.apart_of_reachable Tools.settles_call reach' earlier
      have inPlay := System.inPlay_of_told told
      rw [asks] at allowed
      obtain ⟨_, owns | ⟨g, told', same, calling⟩ | ⟨logsOut, disconnects, g, removed, same⟩⟩ :=
        allowed
      · exact absurd rfl (apart.owned owns inPlay)
      · cases apart.alike (System.inPlay_of_told told') inPlay same
        rw [System.standingAfter_diary] at calling
        have holds' : (h.standing s'.history e.caller).holds := by
          rw [Handle.standing, calling]
          rfl
        exact absurd ((unique e.caller).mp holds') other
      · cases apart.alike (System.inPlay_of_removed removed) inPlay same
        exact ⟨logsOut, disconnects, removed⟩
    · intro claims
      obtain ⟨j, a, r⟩ := e
      subst claims
      have busy : 0 < s'.world.depth h.number := by
        rw [count]
        exact Standing.weight_pos holds
      cases World.not_granted_of_busy busy answers
      rw [Handle.standing_concat, Function.update_self]
      exact Standing.after_claim _ _ _
  · intro h i p caller refused
    have obeys := reach.obeys Tools.settles_call caller
    have turnedDown : TurnedDown (System.diary i s.history) :=
      ⟨h.number, System.standingAfter_diary.trans refused⟩
    cases p with
    | act a k =>
      have allowed : (dealing (tools .disconnect)).allows (System.diary i s.history) a := obeys.1
      cases a with
      | ask c r => exact absurd turnedDown allowed.1
      | login l => exact absurd turnedDown allowed
      | _ => exact Bool.false_ne_true
    | done answer =>
      obtain ⟨_, ⟨⟩, failed | cleared⟩ := obeys turnedDown
      · exact .inl failed
      · exact .inr (System.mem_diary.mp cleared)
    | fail f =>
      obtain ⟨_, none, _⟩ := obeys turnedDown
      cases none

def onlyLogOuts : Outside
  | .ask _ .logOut => some (.ok ())
  | _ => none

def besideQuery (t : Tool) (given : Tools.Fields) (schedule : List Nat) : System Response :=
  let call := Tools.call ⟨false, false⟩
  System.scheduled onlyLogOuts browsingWorld
    [call .listClasses [("dictionary_name", .text "Globals")], call t given] schedule

theorem reachable_besideQuery {tools : Tool → Prop} {t : Tool} (lists : tools .listClasses)
    (among : tools t) (given : Tools.Fields) (schedule : List Nat) :
    System.Reachable (Tools.IsCallOf tools) browsingWorld (besideQuery t given schedule) := by
  refine System.reachable_scheduled _ _ ?_
  intro p mem
  rcases List.mem_cons.mp mem with rfl | mem
  · exact ⟨_, _, _, lists, rfl⟩
  · rw [List.mem_singleton.mp mem]
    exact ⟨_, _, _, among, rfl⟩

theorem told_besideQuery (t : Tool) (given : Tools.Fields) (rest : List Nat) :
    browsingHandle.Told (System.diary 0 (besideQuery t given (0 :: rest)).history) := by
  have first : ⟨0, .step .selectedSession, some browsingHandle⟩ ∈
      (besideQuery t given [0]).history := List.mem_of_getElem? (i := 0) rfl
  exact .inl (System.mem_diary.mpr (System.mem_history_scheduled first rest))

namespace Action

variable {h : Handle} {a : Action}

def claims (h : Handle) : Action → Bool
  | .step (.claim n) => n = h.number
  | _ => false

def logsOut (h : Handle) : Action → Bool
  | .ask c .logOut => c = h.connection
  | _ => false

theorem eq_claim_of_claims (claims : a.claims h) : a = .step (.claim h.number) := by
  unfold Action.claims at claims
  split at claims
  · rw [of_decide_eq_true claims]
  · cases claims

theorem eq_logOut_of_logsOut (out : a.logsOut h) : a = .ask h.connection .logOut := by
  unfold logsOut at out
  split at out
  · rw [of_decide_eq_true out]
  · cases out

end Action

theorem held_session_left_alone_by_query :
    let lists := besideQuery .listClasses [("dictionary_name", .text "Globals")]
    let before := (lists [0, 0, 0, 1, 1]).history
    let s := lists [0, 0, 0, 1, 1, 1]
    ∃ e answer,
      System.Reachable (Tools.IsCallOf (· ≠ .disconnect)) browsingWorld s ∧
        s.history = before ++ [e] ∧ (browsingHandle.standing before 0).holds ∧ e.caller = 1 ∧
        (∀ r, e.action ≠ .ask browsingHandle.connection r) ∧
        browsingHandle.standing s.history 1 = .refused ∧
        (lists [0, 0, 0, 1, 1, 1, 1]).result? 1 = some answer ∧ answer.ok = false := by
  intro lists before s
  have reach (schedule : List Nat) :
      System.Reachable (Tools.IsCallOf (· ≠ .disconnect)) browsingWorld (lists schedule) :=
    reachable_besideQuery (by decide) (by decide) _ _
  have told : browsingHandle.Told (System.diary 0 before) := told_besideQuery _ _ _
  have holds : (browsingHandle.standing before 0).holds := by decide +kernel
  have fresh : (browsingWorld.connections ++ System.logins s.history).Nodup := by decide +kernel
  have last : s = (lists [0, 0, 0, 1, 1]).turn onlyLogOuts 1 :=
    System.scheduled_concat _ _ _ [0, 0, 0, 1, 1] 1
  have new : before.getLast?.any (fun e => e.action.claims browsingHandle) = false := by
    decide +kernel
  have latest : s.history.getLast?.any fun e => e.action.claims browsingHandle := by decide +kernel
  rw [last] at latest
  obtain ⟨a, r, claims, split⟩ := System.event_of_turn _ latest new
  rw [← last] at split
  obtain ⟨_, alone, _⟩ := held_session_left_alone (fun _ => rfl) (reach _) fresh
  obtain ⟨asks, refuses⟩ := alone split told holds Nat.one_ne_zero
  have refused : browsingHandle.standing s.history 1 = .refused := by
    rw [split]
    exact refuses (Action.eq_claim_of_claims claims)
  have ended : ((lists [0, 0, 0, 1, 1, 1, 1]).result? 1).map Response.ok = some false := by
    decide +kernel
  obtain ⟨answer, ended, failed⟩ := Option.map_eq_some_iff.mp ended
  exact ⟨⟨1, a, r⟩, answer, reach _, split, holds, rfl, fun r asked => (asks r asked).2.1 rfl,
    refused, ended, failed⟩

/-- While a query asks its stone, another caller disconnects: the session is logged out, and that is
answered as done. -/
theorem held_session_logged_out :
    let disconnects := besideQuery .disconnect [("session_id", .text "session-1")]
    let before := (disconnects [0, 0, 0, 0, 0, 1, 1, 1, 1]).history
    let s := disconnects [0, 0, 0, 0, 0, 1, 1, 1, 1, 1]
    ∃ e answer,
      (∀ n, browsingWorld.depth n = 0) ∧
        (browsingWorld.connections ++ System.logins s.history).Nodup ∧
        System.Reachable (Tools.IsCallOf fun _ => True) browsingWorld s ∧
        s.history = before ++ [e] ∧ browsingHandle.Told (System.diary 0 before) ∧
        (browsingHandle.standing before 0).holds ∧ e.caller = 1 ∧
        e.action = .ask browsingHandle.connection .logOut ∧
        s.result? 1 = some answer ∧ answer.ok = true := by
  intro disconnects before s
  have told : browsingHandle.Told (System.diary 0 before) := told_besideQuery _ _ _
  have fresh : (browsingWorld.connections ++ System.logins s.history).Nodup := by decide +kernel
  have holds : (browsingHandle.standing before 0).holds := by decide +kernel
  have ended : s.result? 1 = some (.success [("session_id", .text "session-1")]) := by
    decide +kernel
  have last : s = (disconnects [0, 0, 0, 0, 0, 1, 1, 1, 1]).turn onlyLogOuts 1 :=
    System.scheduled_concat _ _ _ [0, 0, 0, 0, 0, 1, 1, 1, 1] 1
  have new : before.getLast?.any (fun e => e.action.logsOut browsingHandle) = false := by
    decide +kernel
  have latest : s.history.getLast?.any fun e => e.action.logsOut browsingHandle := by
    decide +kernel
  rw [last] at latest
  obtain ⟨a, r, out, split⟩ := System.event_of_turn _ latest new
  rw [← last] at split
  exact ⟨⟨1, a, r⟩, _, fun _ => rfl, fresh, reachable_besideQuery trivial trivial _ _, split, told,
    holds, rfl, Action.eq_logOut_of_logsOut out, ended, rfl⟩

end ImageBrowser
