import ImageBrowser.Proofs.Programs.Endings
import Mathlib.Data.List.Induction

/-!
Runs that can be computed: what is outside of the state is answered by a function, and which of
several callers acts next is given by a schedule. Whatever a schedule leads to can be reached.
-/

namespace ImageBrowser

/-- What answers for stones and listeners; an action that gets no answer is not taken. -/
abbrev Outside := (a : Action) → Option a.Reply

def Action.answer? (outside : Outside) (w : World) : (a : Action) → Option (a.Reply × World)
  | .step t => some (w.step t)
  | .wait ticket => (w.cache.outcome? ticket).map fun outcome => (outcome, w)
  | .log _ => some ((), w)
  | .ask c r => (outside (.ask c r)).map fun answer => (answer, w)
  | .login l => (outside (.login l)).map fun answer => (answer, w)
  | .tell n m => (outside (.tell n m)).map fun answer => (answer, w)
  | .report m => (outside (.report m)).map fun answer => (answer, w)

theorem Action.answers_of_answer? {outside : Outside} {w v : World} {a : Action} {r : a.Reply}
    (answered : a.answer? outside w = some (r, v)) : Answers w a r v := by
  cases a with
  | step t =>
    have same : w.step t = (r, v) := Option.some.inj answered
    have taken := Answers.step w t
    rwa [same] at taken
  | log e =>
    cases answered
    exact .log w e
  | wait ticket =>
    obtain ⟨outcome, published, same⟩ := Option.map_eq_some_iff.mp answered
    cases same
    exact .wait published
  | ask c q =>
    obtain ⟨answer, _, same⟩ := Option.map_eq_some_iff.mp answered
    cases same
    exact .ask w c q r
  | login l =>
    obtain ⟨answer, _, same⟩ := Option.map_eq_some_iff.mp answered
    cases same
    exact .login w l r
  | tell n m =>
    obtain ⟨answer, _, same⟩ := Option.map_eq_some_iff.mp answered
    cases same
    exact .tell w n m r
  | report m =>
    obtain ⟨answer, _, same⟩ := Option.map_eq_some_iff.mp answered
    cases same
    exact .report w m r

theorem Action.admits_of_answer? {o : Outlook} {outside : Outside}
    (admitted : ∀ a r, outside a = some r → o.admits a r) {w v : World} {a : Action} {r : a.Reply}
    (answered : a.answer? outside w = some (r, v)) : o.admits a r := by
  cases a with
  | ask c q =>
    obtain ⟨answer, given, same⟩ := Option.map_eq_some_iff.mp answered
    cases same
    exact admitted _ _ given
  | login l =>
    obtain ⟨answer, given, same⟩ := Option.map_eq_some_iff.mp answered
    cases same
    exact admitted _ _ given
  | _ => trivial

namespace Program

variable {α : Type}

def alone (outside : Outside) : Program α → World → Option (Except Fault α × World)
  | done a, w => some (.ok a, w)
  | fail f, w => some (.error f, w)
  | act a k, w => (a.answer? outside w).bind fun answer => alone outside (k answer.1) answer.2

theorem runs_of_alone {o : Outlook} (outside : Outside)
    (admitted : ∀ a r, outside a = some r → o.admits a r) {p : Program α} {w v : World}
    {outcome : Except Fault α} (ended : p.alone outside w = some (outcome, v)) :
    p.Runs o w outcome v := by
  induction p generalizing w with
  | done a =>
    cases ended
    exact .done
  | fail f =>
    cases ended
    exact .fail
  | act a k ih =>
    obtain ⟨⟨r, u⟩, answered, rest⟩ := Option.bind_eq_some_iff.mp ended
    exact .act (Action.answers_of_answer? answered) (Action.admits_of_answer? admitted answered)
      (ih r rest)

theorem exists_runs_of_alone {o : Outlook} (outside : Outside)
    (admitted : ∀ a r, outside a = some r → o.admits a r) {p : Program α} {w : World}
    {outcome : Except Fault α} (ended : (p.alone outside w).map (·.1) = some outcome) :
    ∃ v, p.Runs o w outcome v := by
  obtain ⟨⟨_, v⟩, alone, rfl⟩ := Option.map_eq_some_iff.mp ended
  exact ⟨v, runs_of_alone outside admitted alone⟩

end Program

def Program.result? {α : Type} : Program α → Option α
  | done a => some a
  | _ => none

theorem Program.eq_done_of_result? {α : Type} {p : Program α} {a : α}
    (ended : p.result? = some a) : p = done a := by
  cases p with
  | done b => rw [Option.some.inj ended]
  | _ => contradiction

namespace System

variable {α : Type} {starts : Program α → Prop} {w : World}

def turn (outside : Outside) (s : System α) (i : Nat) : System α :=
  match s.callers[i]? with
  | some (.act a k) =>
    match a.answer? outside s.world with
    | some (r, v) =>
      { world := v, callers := s.callers.set i (k r), history := s.history ++ [⟨i, a, r⟩] }
    | none => s
  | _ => s

def scheduled (outside : Outside) (w : World) (programs : List (Program α)) (schedule : List Nat) :
    System α :=
  schedule.foldl (turn outside) { world := w, callers := programs }

theorem scheduled_concat (outside : Outside) (w : World) (programs : List (Program α))
    (schedule : List Nat) (i : Nat) :
    scheduled outside w programs (schedule ++ [i]) =
      (scheduled outside w programs schedule).turn outside i := by
  simp [scheduled]

theorem history_turn (outside : Outside) (s : System α) (i : Nat) :
    (s.turn outside i).history = s.history ∨
      ∃ a r, (s.turn outside i).history = s.history ++ [⟨i, a, r⟩] := by
  unfold turn
  split
  · split
    · exact .inr ⟨_, _, rfl⟩
    · exact .inl rfl
  · exact .inl rfl

theorem event_of_turn {outside : Outside} {s : System α} {i : Nat} (sort : Action → Bool)
    (last : (s.turn outside i).history.getLast?.any fun e => sort e.action)
    (before : s.history.getLast?.any (fun e => sort e.action) = false) :
    ∃ a r, sort a ∧ (s.turn outside i).history = s.history ++ [⟨i, a, r⟩] := by
  obtain same | ⟨a, r, added⟩ := history_turn outside s i
  · rw [same, before] at last
    cases last
  · refine ⟨a, r, ?_, added⟩
    rw [added, List.getLast?_concat] at last
    exact last

theorem mem_history_scheduled {outside : Outside} {w : World} {programs : List (Program α)}
    {schedule : List Nat} {e : Event} (mem : e ∈ (scheduled outside w programs schedule).history)
    (rest : List Nat) : e ∈ (scheduled outside w programs (schedule ++ rest)).history := by
  induction rest using List.reverseRecOn with
  | nil => rwa [List.append_nil]
  | append_singleton rest i ih =>
    rw [← List.append_assoc, scheduled_concat]
    obtain same | ⟨a, r, added⟩ := history_turn outside (scheduled outside w programs _) i
    · rwa [same]
    · rw [added]
      exact List.mem_append_left _ ih

def result? (s : System α) (i : Nat) : Option α := s.callers[i]?.bind Program.result?

theorem caller_of_result? {s : System α} {i : Nat} {a : α} (ended : s.result? i = some a) :
    s.callers[i]? = some (.done a) := by
  obtain ⟨p, caller, same⟩ := Option.bind_eq_some_iff.mp ended
  rw [caller, Program.eq_done_of_result? same]

theorem reachable_turn {outside : Outside} {s : System α} (reach : Reachable starts w s) (i : Nat) :
    Reachable starts w (s.turn outside i) := by
  unfold turn
  split
  · next a k caller =>
    split
    · next r v answered => exact reach.act caller (Action.answers_of_answer? answered)
    · exact reach
  · exact reach

theorem reachable_started {programs : List (Program α)} (begins : ∀ p ∈ programs, starts p) :
    Reachable starts w { world := w, callers := programs } := by
  induction programs using List.reverseRecOn with
  | nil => exact .init
  | append_singleton programs p ih =>
    have earlier := ih fun q mem => begins q (List.mem_append_left _ mem)
    exact earlier.start (begins p (List.mem_append_right _ (List.mem_singleton.mpr rfl)))

theorem reachable_scheduled (outside : Outside) {programs : List (Program α)}
    (schedule : List Nat) (begins : ∀ p ∈ programs, starts p) :
    Reachable starts w (scheduled outside w programs schedule) := by
  have turns {s : System α} (reach : Reachable starts w s) :
      Reachable starts w (schedule.foldl (turn outside) s) := by
    induction schedule generalizing s with
    | nil => exact reach
    | cons i rest ih => exact ih (reachable_turn reach i)
  exact turns (reachable_started begins)

end System

end ImageBrowser
