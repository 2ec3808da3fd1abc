import ImageBrowser.Proofs.Programs.Discipline
import Mathlib.Logic.Function.Basic

/-!
Any number of callers on one shared state. Each runs a program; at any time a caller may begin, and
any caller may take its next action. What the callers do is recorded in order.
-/

namespace ImageBrowser

structure Event where
  caller : Nat
  action : Action
  reply : action.Reply

abbrev Doing := (a : Action) × a.Reply

def Doing.hasReturned : Doing → Bool
  | ⟨.tell _ _, .error _⟩ => false
  | _ => true

def Event.hasReturned (e : Event) : Bool := Doing.hasReturned ⟨e.action, e.reply⟩

def Discipline.diary (allows : List Doing → Action → Prop) : Discipline (List Doing) :=
  ⟨allows, fun done a r => done ++ [⟨a, r⟩]⟩

/-- Callers are known by their place in the list. -/
structure System (α : Type) where
  world : World
  callers : List (Program α) := []
  history : List Event := []

/-- What may be answered to an action in a state, and the state after it. Steps are answered by the
state, and a wait by the outcome that is published; a stone, a listener or a log may answer
anything. -/
inductive Answers : World → (a : Action) → a.Reply → World → Prop
  | step (w : World) (s : Step) : Answers w (.step s) (w.step s).1 (w.step s).2
  | wait {w : World} {ticket : Nat} {outcome : Except Fault CacheEntry}
      (published : w.cache.outcome? ticket = some outcome) : Answers w (.wait ticket) outcome w
  | ask (w : World) (c : Connection) (r : Request) (answer : Except Fault r.Answer) :
      Answers w (.ask c r) answer w
  | login (w : World) (l : Login) (answer : Except Fault Connection) :
      Answers w (.login l) answer w
  | tell (w : World) (listener : Nat) (m : Message) (answer : Except Fault Unit) :
      Answers w (.tell listener m) answer w
  | report (w : World) (message : String) (answer : Except Fault Unit) :
      Answers w (.report message) answer w
  | log (w : World) (e : LogEntry) : Answers w (.log e) () w

namespace System

variable {α σ : Type}

/-- What can be reached from a state in which nobody has begun, when callers begin with the programs
of `starts`. -/
inductive Reachable (starts : Program α → Prop) (w : World) : System α → Prop
  | init : Reachable starts w { world := w }
  | start {s : System α} {p : Program α} (reach : Reachable starts w s) (begins : starts p) :
      Reachable starts w { s with callers := s.callers ++ [p] }
  | act {s : System α} {i : Nat} {a : Action} {k : a.Reply → Program α} {r : a.Reply} {v : World}
      (reach : Reachable starts w s) (caller : s.callers[i]? = some (.act a k))
      (answers : Answers s.world a r v) :
      Reachable starts w
        { world := v, callers := s.callers.set i (k r), history := s.history ++ [⟨i, a, r⟩] }

/-- What callers may be left with after a history, whatever the state has answered them. -/
inductive Played (starts : Program α → Prop) : List (Program α) → List Event → Prop
  | init : Played starts [] []
  | start {callers : List (Program α)} {history : List Event} {p : Program α}
      (played : Played starts callers history) (begins : starts p) :
      Played starts (callers ++ [p]) history
  | act {callers : List (Program α)} {history : List Event} {i : Nat} {a : Action}
      {k : a.Reply → Program α} (played : Played starts callers history)
      (caller : callers[i]? = some (.act a k)) (r : a.Reply) :
      Played starts (callers.set i (k r)) (history ++ [⟨i, a, r⟩])

/-- What an observer of one caller has noted by the end of a history. -/
def observed (note : σ → (a : Action) → a.Reply → σ) (s : σ) (i : Nat) (history : List Event) : σ :=
  history.foldl (fun s e => if e.caller = i then note s e.action e.reply else s) s

theorem observed_concat (note : σ → (a : Action) → a.Reply → σ) (s : σ) (i : Nat)
    (history : List Event) (e : Event) :
    observed note s i (history ++ [e]) =
      if e.caller = i then note (observed note s i history) e.action e.reply
      else observed note s i history := by
  simp [observed]

theorem observed_concat_eq_update (note : σ → (a : Action) → a.Reply → σ) (s : σ)
    (history : List Event) (e : Event) :
    (fun i => observed note s i (history ++ [e])) =
      Function.update (fun i => observed note s i history) e.caller
        (note (observed note s e.caller history) e.action e.reply) := by
  funext i
  rw [observed_concat]
  rcases eq_or_ne e.caller i with rfl | other
  · rw [if_pos rfl, Function.update_self]
  · rw [if_neg other, Function.update_of_ne other.symm]

theorem observed_of_absent {note : σ → (a : Action) → a.Reply → σ} {s : σ} {i : Nat}
    {history : List Event} (absent : ∀ e ∈ history, e.caller ≠ i) :
    observed note s i history = s := by
  induction history with
  | nil => rfl
  | cons e history ih =>
    rw [observed, List.foldl_cons, if_neg (absent e List.mem_cons_self)]
    exact ih fun e' mem => absent e' (List.mem_cons_of_mem e mem)

/-- What a caller did, and what it was answered, by the end of a history. -/
def diary (i : Nat) (history : List Event) : List Doing :=
  observed (fun done a r => done ++ [⟨a, r⟩]) [] i history

theorem mem_diary {history : List Event} {i : Nat} {a : Action} {r : a.Reply} :
    ⟨a, r⟩ ∈ diary i history ↔ ⟨i, a, r⟩ ∈ history := by
  have noted (done : List Doing) : ⟨a, r⟩ ∈ observed (fun done a r => done ++ [⟨a, r⟩]) done i history ↔
      ⟨a, r⟩ ∈ done ∨ ⟨i, a, r⟩ ∈ history := by
    induction history generalizing done with
    | nil => simp [observed]
    | cons e history ih =>
      obtain ⟨j, b, r'⟩ := e
      refine (ih _).trans ?_
      by_cases same : j = i
      · simp [same, or_assoc]
      · simp [same, Ne.symm same]
  exact (noted []).trans (or_iff_right List.not_mem_nil)

theorem history_append_singleton {β : Type} {history before after : List β} {e e' : β}
    (split : history ++ [e] = before ++ e' :: after) :
    (before = history ∧ e' = e ∧ after = []) ∨
      ∃ rest, history = before ++ e' :: rest ∧ after = rest ++ [e] := by
  rcases List.eq_nil_or_concat after with rfl | ⟨rest, last, rfl⟩
  · obtain ⟨same, event⟩ := List.append_inj' split rfl
    exact .inl ⟨same.symm, (List.cons.inj event).1.symm, rfl⟩
  · rw [List.concat_eq_append, ← List.cons_append, ← List.append_assoc] at split
    obtain ⟨same, event⟩ := List.append_inj' split rfl
    exact .inr ⟨rest, same, by rw [List.concat_eq_append, (List.cons.inj event).1]⟩

variable {starts : Program α → Prop} {w : World} {s : System α} {d : Discipline σ} {first : σ}
  {post : Except Fault α → σ → Prop}

namespace Played

variable {callers : List (Program α)} {history : List Event}

theorem caller_lt (played : Played starts callers history) :
    ∀ e ∈ history, e.caller < callers.length := by
  induction played with
  | init => simp
  | start _ _ ih =>
    intro e mem
    have := ih e mem
    simp only [List.length_append, List.length_singleton]
    omega
  | act _ caller _ ih =>
    intro e mem
    rw [List.length_set]
    rcases List.mem_append.mp mem with old | new
    · exact ih e old
    · obtain ⟨inside, _⟩ := List.getElem?_eq_some_iff.mp caller
      rw [List.mem_singleton.mp new]
      exact inside

theorem caller_ne (played : Played starts callers history) {i : Nat}
    (outside : callers.length ≤ i) : ∀ e ∈ history, e.caller ≠ i :=
  fun e mem => Nat.ne_of_lt (Nat.lt_of_lt_of_le (played.caller_lt e mem) outside)

theorem obeys (played : Played starts callers history)
    (begins : ∀ p, starts p → p.Obeys d first post) {i : Nat} {p : Program α}
    (caller : callers[i]? = some p) : p.Obeys d (observed d.after first i history) post := by
  induction played generalizing i p with
  | init => simp at caller
  | @start callers history q played starts ih =>
    rcases Nat.lt_trichotomy i callers.length with old | new | none
    · rw [List.getElem?_append_left old] at caller
      exact ih caller
    · subst new
      obtain rfl : q = p := by simpa using caller
      rw [observed_of_absent (played.caller_ne (Nat.le_refl _))]
      exact begins q starts
    · rw [List.getElem?_eq_none (by simp; omega)] at caller
      contradiction
  | @act callers history j a k played actor r ih =>
    rw [observed_concat]
    by_cases same : j = i
    · subst same
      obtain ⟨inside, _⟩ := List.getElem?_eq_some_iff.mp actor
      obtain rfl : k r = p := by simpa [inside] using caller
      rw [if_pos rfl]
      exact (ih actor).2 r
    · rw [if_neg same]
      rw [List.getElem?_set_ne same] at caller
      exact ih caller

theorem only {sort : Action → Bool} (played : Played starts callers history)
    (begins : ∀ p, starts p → p.Only sort) {i : Nat} {p : Program α}
    (caller : callers[i]? = some p) : p.Only sort :=
  fun _ _ => played.obeys (fun q starts => begins q starts () trivial) caller

end Played

namespace Reachable

theorem played (h : Reachable starts w s) : Played starts s.callers s.history := by
  induction h with
  | init => exact .init
  | start _ begins ih => exact ih.start begins
  | act _ caller _ ih => exact ih.act caller _

theorem caller_lt (h : Reachable starts w s) : ∀ e ∈ s.history, e.caller < s.callers.length :=
  h.played.caller_lt

theorem obeys (h : Reachable starts w s) (begins : ∀ p, starts p → p.Obeys d first post) {i : Nat}
    {p : Program α} (caller : s.callers[i]? = some p) :
    p.Obeys d (observed d.after first i s.history) post := h.played.obeys begins caller

/-- Before an event there was a state in which its caller was about to act, and was answered so. -/
theorem answered_event (h : Reachable starts w s) {before after : List Event} {e : Event}
    (split : s.history = before ++ e :: after) :
    ∃ s' k v, Reachable starts w s' ∧ s'.history = before ∧
      s'.callers[e.caller]? = some (.act e.action k) ∧ Answers s'.world e.action e.reply v := by
  induction h generalizing before after with
  | init => simp at split
  | start _ _ ih => exact ih split
  | @act s i a k r v reach caller answers ih =>
    rcases history_append_singleton split with ⟨rfl, rfl, rfl⟩ | ⟨rest, earlier, _⟩
    · exact ⟨s, k, v, reach, rfl, caller, answers⟩
    · exact ih earlier

theorem before_event (h : Reachable starts w s) {before after : List Event} {e : Event}
    (split : s.history = before ++ e :: after) :
    ∃ s' k, Reachable starts w s' ∧ s'.history = before ∧
      s'.callers[e.caller]? = some (.act e.action k) := by
  obtain ⟨s', k, _, reach, same, caller, _⟩ := h.answered_event split
  exact ⟨s', k, reach, same, caller⟩

/-- Where every program that callers begin with obeys, no action was taken that is not allowed. -/
theorem allowed (h : Reachable starts w s) (begins : ∀ p, starts p → p.Obeys d first post)
    {before after : List Event} {e : Event} (split : s.history = before ++ e :: after) :
    d.allows (observed d.after first e.caller before) e.action := by
  obtain ⟨s', k, reach, rfl, caller⟩ := h.before_event split
  exact (reach.obeys begins caller).1

end Reachable

end System

/-- The state after an action. Only steps change it, so that no answer matters. -/
def World.after (w : World) : Action → World
  | .step s => (w.step s).2
  | _ => w

theorem Answers.after_eq {w v : World} {a : Action} {r : a.Reply} (answers : Answers w a r v) :
    v = w.after a := by
  cases answers <;> rfl

def World.replay (w : World) (history : List Event) : World :=
  history.foldl (fun v e => v.after e.action) w

theorem World.replay_concat (w : World) (history : List Event) (e : Event) :
    w.replay (history ++ [e]) = (w.replay history).after e.action := by
  simp [World.replay]

theorem System.Reachable.world_eq {α : Type} {starts : Program α → Prop} {w : World} {s : System α}
    (reach : System.Reachable starts w s) : s.world = w.replay s.history := by
  induction reach with
  | init => rfl
  | start _ _ ih => exact ih
  | act _ _ answers ih => rw [World.replay_concat, ← ih, answers.after_eq]

end ImageBrowser
