import ImageBrowser.Proofs.Programs.Schedule
import Mathlib.Data.List.Basic

/-!
All that a program does from beginning to end, as one list. A program is taken apart along the list:
what is done by a sequence is done by its parts one after another. Whoever else is at work, what a
caller has done is in the order of its program.
-/

namespace ImageBrowser

def callsIn (ds : List Doing) : List Doing := ds.filter (·.1.isRemote)

theorem callsIn_append (ds ds' : List Doing) : callsIn (ds ++ ds') = callsIn ds ++ callsIn ds' :=
  List.filter_append ..

namespace Program

variable {α β : Type} {ds : List Doing}

/-- What the program does up to its end, where it is answered like this. -/
inductive Does : Program α → List Doing → Except Fault α → Prop
  | done {a : α} : Does (done a) [] (.ok a)
  | fail {f : Fault} : Does (fail f) [] (.error f)
  | act {a : Action} {k : a.Reply → Program α} {r : a.Reply} {ds : List Doing}
      {o : Except Fault α} (rest : Does (k r) ds o) : Does (act a k) (⟨a, r⟩ :: ds) o

theorem does_done {a : α} {o : Except Fault α} : (done a).Does ds o ↔ ds = [] ∧ o = .ok a := by
  constructor
  · rintro ⟨⟩
    exact ⟨rfl, rfl⟩
  · rintro ⟨rfl, rfl⟩
    exact .done

theorem does_fail {f : Fault} {o : Except Fault α} :
    (fail f).Does ds o ↔ ds = [] ∧ o = .error f := by
  constructor
  · rintro ⟨⟩
    exact ⟨rfl, rfl⟩
  · rintro ⟨rfl, rfl⟩
    exact .fail

theorem does_ofExcept {e o : Except Fault α} : (ofExcept e).Does ds o ↔ ds = [] ∧ o = e := by
  cases e with
  | ok a => exact does_done
  | error f => exact does_fail

theorem does_act {a : Action} {k : a.Reply → Program α} {o : Except Fault α} :
    (act a k).Does ds o ↔ ∃ r rest, ds = ⟨a, r⟩ :: rest ∧ (k r).Does rest o := by
  constructor
  · rintro ⟨⟩
    exact ⟨_, _, rfl, ‹_›⟩
  · rintro ⟨r, rest, rfl, does⟩
    exact .act does

theorem does_step_bind {s : Step} {f : s.Reply → Program β} {o : Except Fault β} :
    (step s >>= f).Does ds o ↔ ∃ r rest, ds = ⟨.step s, r⟩ :: rest ∧ (f r).Does rest o := does_act

namespace Does

theorem bind {p : Program α} {f : α → Program β} {first rest : List Doing} {a : α}
    {o : Except Fault β} (ends : p.Does first (.ok a)) (goes : (f a).Does rest o) :
    (p >>= f).Does (first ++ rest) o := by
  generalize whole : Except.ok a = outcome at ends
  induction ends with
  | done =>
    cases whole
    exact goes
  | fail => cases whole
  | act _ ih => exact .act (ih whole)

theorem bind_error {p : Program α} {f : α → Program β} {e : Fault}
    (fails : p.Does ds (.error e)) : (p >>= f).Does ds (.error e) := by
  generalize whole : Except.error e = outcome at fails
  induction fails with
  | done => cases whole
  | fail =>
    cases whole
    exact .fail
  | act _ ih => exact .act (ih whole)

theorem attempt {p : Program α} {o : Except Fault α} (does : p.Does ds o) :
    p.attempt.Does ds (.ok o) := by
  induction does with
  | done => exact .done
  | fail => exact .done
  | act _ ih => exact .act ih

theorem handled {p : Program α} {handles : Fault → Bool} {handler : Fault → Program α}
    {first rest : List Doing} {f : Fault} {o : Except Fault α} (fails : p.Does first (.error f))
    (picked : handles f) (goes : (handler f).Does rest o) :
    (p.handling handles handler).Does (first ++ rest) o := by
  apply fails.attempt.bind
  show (if handles f then handler f else .fail f).Does rest o
  rwa [if_pos picked]

theorem of_bind {p : Program α} {f : α → Program β} {o : Except Fault β}
    (does : (p >>= f).Does ds o) :
    (∃ a first rest, ds = first ++ rest ∧ p.Does first (.ok a) ∧ (f a).Does rest o) ∨
      ∃ e, p.Does ds (.error e) ∧ o = .error e := by
  induction p generalizing ds with
  | done a => exact .inl ⟨a, [], ds, rfl, .done, does⟩
  | fail e =>
    obtain ⟨rfl, rfl⟩ := does_fail.mp does
    exact .inr ⟨e, .fail, rfl⟩
  | act a k ih =>
    obtain ⟨r, ds, rfl, next⟩ := does_act.mp does
    obtain ⟨b, first, rest, rfl, ends, goes⟩ | ⟨e, fails, rfl⟩ := ih r next
    · exact .inl ⟨b, ⟨a, r⟩ :: first, rest, rfl, .act ends, goes⟩
    · exact .inr ⟨e, .act fails, rfl⟩

theorem of_map {p : Program α} {f : α → β} {o : Except Fault β} (does : (f <$> p).Does ds o) :
    ∃ o', p.Does ds o' ∧ o = o'.map f := by
  obtain ⟨a, first, rest, rfl, ends, goes⟩ | ⟨e, fails, rfl⟩ := of_bind does
  · obtain ⟨rfl, rfl⟩ := does_done.mp goes
    rw [List.append_nil]
    exact ⟨.ok a, ends, rfl⟩
  · exact ⟨.error e, fails, rfl⟩

theorem of_attempt {p : Program α} {o : Except Fault (Except Fault α)}
    (does : p.attempt.Does ds o) : ∃ o', o = .ok o' ∧ p.Does ds o' := by
  induction p generalizing ds with
  | done a =>
    obtain ⟨rfl, rfl⟩ := does_done.mp does
    exact ⟨.ok a, rfl, .done⟩
  | fail e =>
    obtain ⟨rfl, rfl⟩ := does_done.mp does
    exact ⟨.error e, rfl, .fail⟩
  | act a k ih =>
    obtain ⟨r, ds, rfl, next⟩ := does_act.mp does
    obtain ⟨o', rfl, ends⟩ := ih r next
    exact ⟨o', rfl, .act ends⟩

theorem of_ensure {p : Program α} {cleanup : Program Unit} {o : Except Fault α}
    (does : (p.ensure cleanup).Does ds o) :
    ∃ o' c first rest, ds = first ++ rest ∧ p.Does first o' ∧ cleanup.Does rest c ∧
      (c = .ok () ∧ o = o' ∨ ∃ e, c = .error e ∧ o = .error e) := by
  obtain ⟨o', first, rest, rfl, ends, goes⟩ | ⟨e, fails, _⟩ := of_bind does
  · obtain ⟨_, ⟨⟩, whole⟩ := of_attempt ends
    obtain ⟨⟨⟩, last, none, rfl, cleans, finished⟩ | ⟨e, fails, rfl⟩ := of_bind goes
    · obtain ⟨rfl, rfl⟩ := does_ofExcept.mp finished
      exact ⟨_, _, first, last, by rw [List.append_nil], whole, cleans, .inl ⟨rfl, rfl⟩⟩
    · exact ⟨_, _, first, rest, rfl, whole, fails, .inr ⟨e, rfl, rfl⟩⟩
  · obtain ⟨_, ⟨⟩, _⟩ := of_attempt fails

theorem of_handling {p : Program α} {handles : Fault → Bool} {handler : Fault → Program α}
    {o : Except Fault α} (does : (p.handling handles handler).Does ds o) :
    (∃ a, p.Does ds (.ok a) ∧ o = .ok a) ∨
      ∃ f first rest, ds = first ++ rest ∧ p.Does first (.error f) ∧
        (handles f = true ∧ (handler f).Does rest o ∨
          handles f = false ∧ rest = [] ∧ o = .error f) := by
  obtain ⟨tried, first, rest, rfl, attempts, goes⟩ | ⟨_, fails, _⟩ := of_bind does
  · obtain ⟨_, ⟨⟩, whole⟩ := attempts.of_attempt
    cases tried with
    | ok a =>
      obtain ⟨rfl, rfl⟩ := does_done.mp goes
      rw [List.append_nil]
      exact .inl ⟨a, whole, rfl⟩
    | error f =>
      refine .inr ⟨f, first, rest, rfl, whole, ?_⟩
      dsimp only at goes
      split at goes
      · next picked => exact .inl ⟨picked, goes⟩
      · next other =>
        obtain ⟨rfl, rfl⟩ := does_fail.mp goes
        exact .inr ⟨by simpa using other, rfl, rfl⟩
  · obtain ⟨_, ⟨⟩, _⟩ := of_attempt fails

/-- A program that is answered the same does the same. -/
theorem front_unique {p : Program α} {ds' rest rest' : List Doing} {o o' : Except Fault α}
    (does : p.Does ds o) (does' : p.Does ds' o') (same : ds ++ rest = ds' ++ rest') :
    ds = ds' ∧ o = o' ∧ rest = rest' := by
  induction does generalizing ds' with
  | done =>
    cases does'
    exact ⟨rfl, rfl, same⟩
  | fail =>
    cases does'
    exact ⟨rfl, rfl, same⟩
  | act _ ih =>
    cases does' with
    | act goes =>
      obtain ⟨first, others⟩ := List.cons.inj same
      cases first
      obtain ⟨rfl, rfl, rfl⟩ := ih goes others
      exact ⟨rfl, rfl, rfl⟩

end Does

theorem does_ask {c : Connection} {r : Request} {o : Except Fault r.Answer}
    (does : (Program.ask c r).Does ds o) : ds = [⟨.ask c r, o⟩] := by
  obtain ⟨answer, rest, rfl, finished⟩ := does_act.mp does
  obtain ⟨rfl, rfl⟩ := does_ofExcept.mp finished
  rfl

theorem does_log_bind {e : LogEntry} {k : Unit → Program α} {o : Except Fault α}
    (does : (Program.log e >>= k).Does ds o) : ∃ rest, (k ()).Does rest o ∧
      callsIn ds = callsIn rest := by
  obtain ⟨_, rest, rfl, goes⟩ := does_act.mp does
  exact ⟨rest, goes, rfl⟩

theorem does_logged {p : Program α} {entry : α → LogEntry} {o : Except Fault α}
    (does : (do let a ← p; Program.log (entry a); return a).Does ds o) :
    ∃ inner, p.Does inner o ∧ callsIn ds = callsIn inner := by
  obtain ⟨a, first, rest, rfl, ends, logs⟩ | ⟨f, fails, rfl⟩ := Does.of_bind does
  · obtain ⟨last, finished, none⟩ := does_log_bind logs
    obtain ⟨rfl, rfl⟩ := does_done.mp finished
    refine ⟨first, ends, ?_⟩
    rw [callsIn_append, none]
    exact List.append_nil _
  · exact ⟨ds, fails, rfl⟩

theorem Only.does {sort : Action → Bool} {p : Program α} {o : Except Fault α} (only : p.Only sort)
    (does : p.Does ds o) : ∀ d ∈ ds, sort d.1 := by
  have takes := only () trivial
  clear only
  induction does with
  | done => simp
  | fail => simp
  | act _ ih => exact List.forall_mem_cons.mpr ⟨takes.1, ih (takes.2 _)⟩

theorem exists_does_of_hasEnded {p : Program α} (ended : p.hasEnded) : ∃ o, p.Does [] o := by
  cases p with
  | done a => exact ⟨_, .done⟩
  | fail f => exact ⟨_, .fail⟩
  | act a k => cases ended

end Program

/-- Done one after another with nobody else at work, all is answered on the way from one state to
another. -/
inductive Leads : World → List Doing → World → Prop
  | nil (w : World) : Leads w [] w
  | cons {w v u : World} {a : Action} {r : a.Reply} {ds : List Doing} (answers : Answers w a r v)
      (rest : Leads v ds u) : Leads w (⟨a, r⟩ :: ds) u

namespace Leads

variable {w v u : World} {ds ds' : List Doing}

theorem of_append (leads : Leads w (ds ++ ds') u) : ∃ v, Leads w ds v ∧ Leads v ds' u := by
  induction ds generalizing w with
  | nil => exact ⟨w, .nil w, leads⟩
  | cons d ds ih =>
    cases leads with
    | cons answers rest =>
      obtain ⟨v, first, last⟩ := ih rest
      exact ⟨v, .cons answers first, last⟩

theorem of_step {s : Step} {r : s.Reply} (leads : Leads w (⟨.step s, r⟩ :: ds) v) :
    r = (w.step s).1 ∧ Leads (w.step s).2 ds v := by
  cases leads with
  | cons answers rest =>
    cases answers
    exact ⟨rfl, rest⟩

theorem of_log {e : LogEntry} {r : Unit} (leads : Leads w (⟨.log e, r⟩ :: ds) v) :
    Leads w ds v := by
  cases leads with
  | cons answers rest =>
    cases answers
    exact rest

theorem keeps {β : Type} (part : World → β) (leads : Leads w ds v)
    (kept : ∀ d ∈ ds, ∀ w, part (World.after w d.1) = part w) : part v = part w := by
  induction leads with
  | nil => rfl
  | cons answers _ ih =>
    obtain ⟨first, others⟩ := List.forall_mem_cons.mp kept
    rw [ih others, answers.after_eq, first]

end Leads

theorem Program.exists_does_of_alone {α : Type} {outside : Outside} {p : Program α} {w v : World}
    {o : Except Fault α} (alone : p.alone outside w = some (o, v)) :
    ∃ ds, p.Does ds o ∧ Leads w ds v := by
  induction p generalizing w with
  | done a =>
    cases alone
    exact ⟨[], .done, .nil _⟩
  | fail f =>
    cases alone
    exact ⟨[], .fail, .nil _⟩
  | act a k ih =>
    obtain ⟨⟨r, u⟩, answered, rest⟩ := Option.bind_eq_some_iff.mp alone
    obtain ⟨ds, does, leads⟩ := ih r rest
    exact ⟨⟨a, r⟩ :: ds, .act does, .cons (Action.answers_of_answer? answered) leads⟩

def Program.course {α : Type} (outside : Outside) :
    Program α → World → Option (List Doing × Except Fault α × World)
  | done a, w => some ([], .ok a, w)
  | fail f, w => some ([], .error f, w)
  | act a k, w => (a.answer? outside w).bind fun answer =>
    (course outside (k answer.1) answer.2).map fun rest => (⟨a, answer.1⟩ :: rest.1, rest.2)

theorem Program.does_of_course {α : Type} {outside : Outside} {p : Program α} {w v : World}
    {ds : List Doing} {o : Except Fault α} (course : p.course outside w = some (ds, o, v)) :
    p.Does ds o ∧ Leads w ds v := by
  induction p generalizing w ds with
  | done a =>
    cases course
    exact ⟨.done, .nil _⟩
  | fail f =>
    cases course
    exact ⟨.fail, .nil _⟩
  | act a k ih =>
    obtain ⟨⟨r, u⟩, answered, later⟩ := Option.bind_eq_some_iff.mp course
    obtain ⟨⟨ds, _, _⟩, rest, whole⟩ := Option.map_eq_some_iff.mp later
    cases whole
    obtain ⟨does, leads⟩ := ih r rest
    exact ⟨.act does, .cons (Action.answers_of_answer? answered) leads⟩

theorem Program.Runs.exists_does {α : Type} {o : Outlook} {p : Program α} {w v : World}
    {outcome : Except Fault α} (runs : p.Runs o w outcome v) :
    ∃ ds, p.Does ds outcome ∧ Leads w ds v ∧ ∀ d ∈ ds, o.admits d.1 d.2 := by
  induction runs with
  | done => exact ⟨[], .done, .nil _, by simp⟩
  | fail => exact ⟨[], .fail, .nil _, by simp⟩
  | @act a k r w v v' outcome answers admitted _ ih =>
    obtain ⟨ds, does, leads, others⟩ := ih
    exact ⟨⟨a, r⟩ :: ds, .act does, .cons answers leads,
      List.forall_mem_cons.mpr ⟨admitted, others⟩⟩

theorem Program.Does.runs {α : Type} {outlook : Outlook} {p : Program α} {ds : List Doing}
    {w v : World} {o : Except Fault α} (does : p.Does ds o) (leads : Leads w ds v)
    (admitted : ∀ d ∈ ds, outlook.admits d.1 d.2) : p.Runs outlook w o v := by
  induction does generalizing w with
  | done =>
    cases leads
    exact .done
  | fail =>
    cases leads
    exact .fail
  | act _ ih =>
    cases leads with
    | cons answers leads =>
      obtain ⟨first, others⟩ := List.forall_mem_cons.mp admitted
      exact .act answers first (ih leads others)

/-- Whatever it may be answered, the program comes to an end, and what it has done by then, its
outcome and the state are as `post` says. -/
def Program.Concludes {α : Type} (o : Outlook) (p : Program α) (w : World)
    (post : List Doing → Except Fault α → World → Prop) : Prop :=
  p.Ends o w (fun _ _ => True) ∧
    ∀ {ds outcome v}, p.Does ds outcome → Leads w ds v → (∀ d ∈ ds, o.admits d.1 d.2) →
      post ds outcome v

namespace System

variable {α : Type} {starts : Program α → Prop} {w : World} {s : System α}

theorem diary_concat (i : Nat) (history : List Event) (e : Event) :
    diary i (history ++ [e]) =
      if e.caller = i then diary i history ++ [⟨e.action, e.reply⟩] else diary i history :=
  observed_concat _ _ _ _ _

theorem diary_append (i : Nat) (history history' : List Event) :
    diary i (history ++ history') = diary i history ++ diary i history' := by
  induction history' using List.reverseRecOn with
  | nil => simp [diary, observed]
  | append_singleton history' e ih =>
    rw [← List.append_assoc, diary_concat, diary_concat, ih]
    split
    · rw [List.append_assoc]
    · rfl

theorem diary_cons (i : Nat) (e : Event) (history : List Event) :
    diary i (e :: history) =
      if e.caller = i then ⟨e.action, e.reply⟩ :: diary i history else diary i history := by
  rw [← List.singleton_append, diary_append]
  by_cases same : e.caller = i <;> simp [diary, observed, same]

theorem exists_of_diary_eq {i : Nat} {history : List Event} {first last : List Doing} {d : Doing}
    (whole : diary i history = first ++ d :: last) :
    ∃ before since, history = before ++ ⟨i, d.1, d.2⟩ :: since ∧
      diary i before = first ∧ diary i since = last := by
  induction history generalizing first with
  | nil => simp [diary, observed] at whole
  | cons e history ih =>
    rw [diary_cons] at whole
    split at whole
    · next own =>
      cases first with
      | nil =>
        obtain ⟨rfl, rest⟩ := List.cons.inj whole
        subst own
        exact ⟨[], history, rfl, rfl, rest⟩
      | cons d' first =>
        obtain ⟨rfl, rest⟩ := List.cons.inj whole
        obtain ⟨before, since, rfl, early, late⟩ := ih rest
        refine ⟨e :: before, since, rfl, ?_, late⟩
        rw [diary_cons, if_pos own, early]
    · next other =>
      obtain ⟨before, since, rfl, early, late⟩ := ih whole
      refine ⟨e :: before, since, rfl, ?_, late⟩
      rw [diary_cons, if_neg other, early]

theorem diary_split {i : Nat} {before since : List Event} {a : Action} {r : a.Reply}
    {work rest : List Doing}
    (whole : diary i (before ++ ⟨i, a, r⟩ :: since) = work ++ ⟨a, r⟩ :: rest)
    (first : ⟨a, r⟩ ∉ work) (last : ⟨a, r⟩ ∉ rest) :
    diary i before = work ∧ diary i since = rest := by
  have here : diary i (⟨i, a, r⟩ :: since) = ⟨a, r⟩ :: diary i since := by
    rw [← List.singleton_append, diary_append]
    simp [diary, observed]
  rw [diary_append, here, eq_comm, List.append_cons_inj_of_notMem first last] at whole
  exact ⟨whole.1.symm, whole.2.2.symm⟩

theorem Played.diary_eq_nil {callers : List (Program α)} {history : List Event}
    (played : Played starts callers history) {i : Nat} (outside : callers.length ≤ i) :
    diary i history = [] :=
  observed_of_absent (played.caller_ne outside)

theorem Reachable.diary_eq_nil (reach : Reachable starts w s) {i : Nat}
    (outside : s.callers.length ≤ i) : diary i s.history = [] :=
  reach.played.diary_eq_nil outside

/-- What a caller has done is the beginning of what its program does. -/
theorem Played.does {callers : List (Program α)} {history : List Event}
    (played : Played starts callers history) {i : Nat} {p : Program α}
    (caller : callers[i]? = some p) :
    ∃ q, starts q ∧ ∀ ds o, p.Does ds o → q.Does (diary i history ++ ds) o := by
  induction played generalizing p with
  | init => simp at caller
  | @start callers history q played begins ih =>
    rcases Nat.lt_trichotomy i callers.length with old | new | none
    · rw [List.getElem?_append_left old] at caller
      exact ih caller
    · subst new
      obtain rfl : q = p := by simpa using caller
      exact ⟨q, begins, fun ds o does => by rwa [played.diary_eq_nil (Nat.le_refl _)]⟩
    · rw [List.getElem?_eq_none (by simp; omega)] at caller
      contradiction
  | @act callers history j a k played actor r ih =>
    rw [diary_concat]
    by_cases same : j = i
    · subst same
      obtain ⟨inside, _⟩ := List.getElem?_eq_some_iff.mp actor
      obtain rfl : k r = p := by simpa [inside] using caller
      obtain ⟨q, begins, does⟩ := ih actor
      refine ⟨q, begins, fun ds o goes => ?_⟩
      rw [if_pos rfl, List.append_assoc]
      exact does _ _ (.act goes)
    · rw [List.getElem?_set_ne same] at caller
      simpa only [if_neg same] using ih caller

theorem Reachable.does (reach : Reachable starts w s) {i : Nat} {p : Program α}
    (caller : s.callers[i]? = some p) :
    ∃ q, starts q ∧ ∀ ds o, p.Does ds o → q.Does (diary i s.history ++ ds) o :=
  reach.played.does caller

theorem Reachable.does_of_ended (reach : Reachable starts w s) {i : Nat} {p : Program α}
    {o : Except Fault α} (caller : s.callers[i]? = some p) (ended : p.Does [] o) :
    ∃ q, starts q ∧ q.Does (diary i s.history) o := by
  obtain ⟨q, begins, does⟩ := reach.does caller
  have whole := does [] o ended
  rw [List.append_nil] at whole
  exact ⟨q, begins, whole⟩

theorem count_filterMap {β : Type} [DecidableEq β] (pick : Doing → Option β) (i : Nat) (b : β)
    (history : List Event) :
    (history.filterMap fun e => (pick ⟨e.action, e.reply⟩).map (e.caller, ·)).count (i, b) =
      ((diary i history).filterMap pick).count b := by
  induction history using List.reverseRecOn with
  | nil => rfl
  | append_singleton history e ih =>
    rw [List.filterMap_append, List.count_append, ih, diary_concat]
    cases picked : pick ⟨e.action, e.reply⟩ with
    | none =>
      by_cases same : e.caller = i <;> simp [picked, same]
    | some b' =>
      by_cases same : e.caller = i
      · simp [picked, same, List.count_singleton]
      · simp [picked, same]

theorem perm_filterMap {β : Type} [DecidableEq β] {pick pick' : Doing → Option β}
    {history : List Event}
    (each : ∀ i, (diary i history).filterMap pick = (diary i history).filterMap pick') :
    (history.filterMap fun e => (pick ⟨e.action, e.reply⟩).map (e.caller, ·)).Perm
      (history.filterMap fun e => (pick' ⟨e.action, e.reply⟩).map (e.caller, ·)) := by
  rw [List.perm_iff_count]
  rintro ⟨i, b⟩
  rw [count_filterMap, count_filterMap, each]

end System

end ImageBrowser
