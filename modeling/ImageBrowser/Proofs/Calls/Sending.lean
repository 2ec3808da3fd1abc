import ImageBrowser.Proofs.Calls.Exclusion

/-!
What reaches the stones when a program is run by itself from a state: the calls in their order, each
with what it is answered, and the end that the program comes to. Two programs agree when they can be
answered in the same ways, and come to the same end then.
-/

namespace ImageBrowser

def Action.sent (a : Action) (r : a.Reply) : List Doing := if a.isRemote then [⟨a, r⟩] else []

namespace Program

variable {α β : Type} {w : World} {calls : List Doing}

def Sends : Program α → World → List Doing → Except Fault α → Prop
  | done a, _, calls, outcome => calls = [] ∧ outcome = .ok a
  | fail f, _, calls, outcome => calls = [] ∧ outcome = .error f
  | act a k, w, calls, outcome => ∃ r v rest, Answers w a r v ∧ calls = a.sent r ++ rest ∧
      (k r).Sends v rest outcome

def Agree (w : World) (p q : Program α) : Prop :=
  ∀ calls outcome, p.Sends w calls outcome ↔ q.Sends w calls outcome

theorem sends_act_step {s : Step} {k : s.Reply → Program α} {outcome : Except Fault α} :
    (act (.step s) k).Sends w calls outcome ↔
      (k (w.step s).1).Sends (w.step s).2 calls outcome := by
  constructor
  · rintro ⟨r, v, rest, answers, rfl, sends⟩
    cases answers
    exact sends
  · intro sends
    exact ⟨_, _, calls, .step w s, rfl, sends⟩

theorem sends_act_log {e : LogEntry} {k : Unit → Program α} {outcome : Except Fault α} :
    (act (.log e) k).Sends w calls outcome ↔ (k ()).Sends w calls outcome := by
  constructor
  · rintro ⟨r, v, rest, answers, rfl, sends⟩
    cases answers
    exact sends
  · intro sends
    exact ⟨(), w, calls, .log w e, rfl, sends⟩

theorem ne_nil_of_sends_act {a : Action} {k : a.Reply → Program α} {outcome : Except Fault α}
    (remote : a.isRemote = true) (sends : (act a k).Sends w calls outcome) : calls ≠ [] := by
  obtain ⟨r, v, rest, _, rfl, _⟩ := sends
  rw [Action.sent, if_pos remote]
  exact List.cons_ne_nil _ _

theorem sends_fail {f : Fault} {outcome : Except Fault α} :
    (fail f).Sends w calls outcome ↔ calls = [] ∧ outcome = .error f := Iff.rfl

theorem sends_ofExcept {o outcome : Except Fault α} :
    (ofExcept o).Sends w calls outcome ↔ calls = [] ∧ outcome = o := by
  cases o <;> rfl

theorem sends_attempt_bind {p : Program α} {f : Except Fault α → Except Fault β}
    {outcome : Except Fault β} :
    (p.attempt >>= fun o => ofExcept (f o)).Sends w calls outcome ↔
      ∃ o, p.Sends w calls o ∧ outcome = f o := by
  induction p generalizing w calls with
  | done a => exact sends_ofExcept.trans (by simp [Sends])
  | fail e => exact sends_ofExcept.trans (by simp [Sends])
  | act a k ih =>
    constructor
    · rintro ⟨r, v, rest, answers, rfl, sends⟩
      obtain ⟨o, ended, same⟩ := (ih r).mp sends
      exact ⟨o, ⟨r, v, rest, answers, rfl, ended⟩, same⟩
    · rintro ⟨o, ⟨r, v, rest, answers, rfl, sends⟩, rfl⟩
      exact ⟨r, v, rest, answers, rfl, (ih r).mpr ⟨o, sends, rfl⟩⟩

end Program

namespace Handle

variable {h : Handle} {may : Scope} {α : Type} {w : World} {calls : List Doing}

theorem exists_sends {p : Program α} {s : Progress} {post : Except Fault α → Progress → Prop}
    (obeys : p.Obeys (h.conduct may) s post) (w : World) :
    ∃ calls outcome, p.Sends w calls outcome := by
  induction p generalizing s w with
  | done a => exact ⟨[], .ok a, rfl, rfl⟩
  | fail f => exact ⟨[], .error f, rfl, rfl⟩
  | act a k ih =>
    have answered : ∃ r v, Answers w a r v := by
      cases a with
      | step s => exact ⟨_, _, .step w s⟩
      | ask c r => exact ⟨.error .unbounded, w, .ask w c r _⟩
      | log e => exact ⟨(), w, .log w e⟩
      | _ => exact absurd obeys.1 id
    obtain ⟨r, v, answers⟩ := answered
    obtain ⟨rest, outcome, sends⟩ := ih r (obeys.2 r) v
    exact ⟨_, outcome, r, v, rest, answers, rfl, sends⟩

theorem asks_of_sends {p : Program α} {s : Progress} {post : Except Fault α → Progress → Prop}
    {outcome : Except Fault α} (obeys : p.Obeys (h.conduct may) s post)
    (sends : p.Sends w calls outcome) : ∀ d ∈ calls, ∃ r, d.1 = .ask h.connection r := by
  induction p generalizing s w calls with
  | done a | fail f =>
    obtain ⟨rfl, _⟩ := sends
    exact fun d mem => nomatch mem
  | act a k ih =>
    obtain ⟨r, v, rest, _, rfl, sends⟩ := sends
    intro d mem
    rcases List.mem_append.mp mem with first | mem
    · unfold Action.sent at first
      split at first
      · next remote =>
        rw [List.mem_singleton.mp first]
        cases a with
        | ask c q => exact ⟨q, by rw [obeys.1.1]⟩
        | login l => exact absurd obeys.1 id
        | _ => simp [Action.isRemote] at remote
      · exact nomatch first
    · exact ih r (obeys.2 r) sends d mem

variable {label : String} {code : Value} {outcome : Except Fault String}

theorem sends_fetch_of_busy (busy : 0 < w.depth h.number) :
    (h.fetch label code).Sends w calls outcome ↔
      calls = [] ∧ outcome = .error (.refused .busy) := by
  show (Program.act (.log _) _).Sends _ _ _ ↔ _
  rw [Program.sends_act_log]
  show (Program.act (.step (.claim h.number)) _).Sends _ _ _ ↔ _
  rw [Program.sends_act_step, World.step_claim_of_busy busy]
  show (Program.act (.log _) _).Sends _ _ _ ↔ _
  rw [Program.sends_act_log]
  rfl

theorem ne_nil_of_sends_fetch (free : ¬ 0 < w.depth h.number)
    (sends : (h.fetch label code).Sends w calls outcome) : calls ≠ [] := by
  have logged := Program.sends_act_log.mp sends
  have claimed : (Program.act (.step (.claim h.number)) _).Sends w calls outcome := logged
  rw [Program.sends_act_step, World.step_claim_of_free free] at claimed
  have looked : (Program.act (.step (.knownResultClass h.number)) _).Sends _ calls outcome :=
    claimed
  rw [Program.sends_act_step] at looked
  cases known : (World.step (.knownResultClass h.number)
      (w.setDepth h.number (w.depth h.number + 1))).1 with
  | some c =>
    rw [known] at looked
    have called := Program.sends_act_log.mp looked
    have entered := Program.sends_act_step.mp called
    exact Program.ne_nil_of_sends_act rfl entered
  | none =>
    rw [known] at looked
    have entered := Program.sends_act_step.mp looked
    exact Program.ne_nil_of_sends_act rfl entered

end Handle

-- a run of a whole tool is never to be computed by unfolding
attribute [irreducible] Program.Sends

end ImageBrowser
