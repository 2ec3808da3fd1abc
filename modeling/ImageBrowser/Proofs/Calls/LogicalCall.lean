import ImageBrowser.Proofs.Programs.Discipline
import ImageBrowser.Queries

/-!
How a logical call goes about its session: it claims the session, asks the stone only from inside a
call that it counts, ends what it has begun and gives the session back, whatever the stone answers
or however it fails. What the stone may be asked is a parameter, told from the objects that were
answered before.
-/

namespace ImageBrowser

def Request.objects : (r : Request) → r.Answer → List RemoteObject
  | .resolve _, o => o.toList
  | .execute _, o | .create _, o | .toSymbol _, o | .perform _ _ _, o => [o]
  | .compile _ _ _ _ _, o | .stoneName, o | .hostName, o | .userId, o => [o]
  | .fetch _, _ | .terminate _, _ | .begin, _ | .commit, _ | .abort, _ | .logOut, _ => []

inductive Standing
  | outside
  | refused
  | claiming
  | calling
  | ended
  deriving DecidableEq, Repr

namespace Standing

def after (n : Nat) (s : Standing) : (a : Action) → a.Reply → Standing
  | .step (.claim m), granted => if m ≠ n then s else if granted then claiming else refused
  | .step (.release m), _ => if m ≠ n then s else ended
  | .step (.enter m), _ => if m ≠ n then s else calling
  | .step (.leave m), _ => if m ≠ n then s else claiming
  | _, _ => s

variable (n : Nat) (s : Standing)

@[simp] theorem after_claim (granted : Bool) :
    s.after n (.step (.claim n)) granted = if granted then claiming else refused :=
  if_neg (not_not_intro rfl)

@[simp] theorem after_release (r : Unit) : s.after n (.step (.release n)) r = ended :=
  if_neg (not_not_intro rfl)

@[simp] theorem after_enter (r : Unit) : s.after n (.step (.enter n)) r = calling :=
  if_neg (not_not_intro rfl)

@[simp] theorem after_leave (r : Unit) : s.after n (.step (.leave n)) r = claiming :=
  if_neg (not_not_intro rfl)

@[simp] theorem after_log (e : LogEntry) (r : Unit) : s.after n (.log e) r = s := rfl

def holds : Standing → Bool
  | claiming | calling => true
  | outside | refused | ended => false

end Standing

structure Progress where
  standing : Standing := .outside
  answered : List RemoteObject := []

namespace Progress

def after (n : Nat) (p : Progress) (a : Action) (r : a.Reply) : Progress where
  standing := p.standing.after n a r
  answered := match a, r with
    | .ask _ q, .ok answer => q.objects answer ++ p.answered
    | _, _ => p.answered

end Progress

/-- What the stone may be asked by a caller that was answered certain objects. -/
abbrev Scope := List RemoteObject → Request → Prop

namespace Handle

variable {h : Handle} {may : Scope} {α β : Type}

def lets (h : Handle) (may : Scope) (p : Progress) : Action → Prop
  | .step (.claim n) => n = h.number ∧ p.standing = .outside
  | .step (.release n) | .step (.enter n) => n = h.number ∧ p.standing = .claiming
  | .step (.knownResultClass n) | .step (.rememberResultClass n _) =>
    n = h.number ∧ p.standing = .claiming
  | .step (.leave n) => n = h.number ∧ p.standing = .calling
  | .ask c r => c = h.connection ∧ p.standing = .calling ∧ may p.answered r
  | .log _ => True
  | _ => False

def conduct (h : Handle) (may : Scope) : Discipline Progress := ⟨h.lets may, .after h.number⟩

/-- Keeps to what a logical call may do, and ends where it began. -/
abbrev Stays (h : Handle) (may : Scope) (standing : Standing) (p : Program α) : Prop :=
  p.Keeps (h.conduct may) (·.standing = standing)

def Quiet (h : Handle) (may : Scope) (p : Program α) : Prop := ∀ standing, h.Stays may standing p

/-- A logical call ends without the session, or was refused and fails with that. -/
def Ends (outcome : Except Fault α) (standing : Standing) : Prop :=
  standing = .outside ∨ standing = .ended ∨
    (standing = .refused ∧ outcome = .error (.refused .busy))

/-- The program claims the session at most once, and begins outside of it. -/
def Logical (h : Handle) (may : Scope) (p : Program α) : Prop :=
  ∀ s : Progress, s.standing = .outside → p.Obeys (h.conduct may) s fun o s' => Ends o s'.standing

namespace Quiet

theorem done (a : α) : h.Quiet may (Program.done a) := fun _ => .done a

theorem fail (f : Fault) : h.Quiet may (Program.fail f : Program α) := fun _ => .fail f

theorem ofExcept (o : Except Fault α) : h.Quiet may (Program.ofExcept o) := fun _ => .ofExcept o

theorem log (e : LogEntry) : h.Quiet may (Program.log e) :=
  fun _ => .act (fun _ _ => trivial) (fun _ _ stands => stands) fun _ => .done ()

theorem bind {p : Program α} {f : α → Program β} (first : h.Quiet may p)
    (next : ∀ a, h.Quiet may (f a)) : h.Quiet may (p >>= f) :=
  fun standing => (first standing).bind fun a => next a standing

end Quiet

theorem stays_ask {r : Request} (asks : ∀ known, may known r) :
    h.Stays may .calling (h.ask r) :=
  .act (fun _ stands => ⟨rfl, stands, asks _⟩) (fun _ _ stands => stands) fun o => .ofExcept o

theorem stays_calling {body : Program α} (stays : h.Stays may .calling body) :
    h.Stays may .claiming (h.calling body) := by
  intro s claiming
  have entered : (Progress.after h.number s (.step (.enter h.number)) ()).standing = .calling := by
    simp [Progress.after]
  refine ⟨⟨rfl, claiming⟩, ?_⟩
  intro _
  show (body.ensure _).Obeys _ _ _
  rw [Program.obeys_ensure]
  apply (stays _ entered).mono
  intro o s' calling
  refine ⟨⟨rfl, calling⟩, ?_⟩
  intro _
  show (Program.ofExcept o).Obeys _ _ _
  rw [Program.obeys_ofExcept]
  simp [conduct, Progress.after]

theorem logical_exclusively {body : Program α} (stays : h.Stays may .claiming body) :
    h.Logical may (h.exclusively body) := by
  intro s outside
  refine ⟨⟨rfl, outside⟩, ?_⟩
  intro granted
  cases granted with
  | false =>
    refine ⟨trivial, ?_⟩
    intro _
    exact .inr (.inr ⟨by simp [conduct, Progress.after], rfl⟩)
  | true =>
    have claimed :
        (Progress.after h.number s (.step (.claim h.number)) true).standing = .claiming := by
      simp [Progress.after]
    show (body.ensure _).Obeys _ _ _
    rw [Program.obeys_ensure]
    apply (stays _ claimed).mono
    intro o s' claiming
    refine ⟨⟨rfl, claiming⟩, ?_⟩
    intro _
    show (Program.ofExcept o).Obeys _ _ _
    rw [Program.obeys_ofExcept]
    exact .inr (.inl (by simp [conduct, Progress.after]))

namespace Logical

theorem of_quiet {p : Program α} (quiet : h.Quiet may p) : h.Logical may p :=
  fun s outside => (quiet .outside s outside).mono fun _ _ ends => .inl ends

theorem after {p : Program α} {f : α → Program β} (first : h.Quiet may p)
    (next : ∀ a, h.Logical may (f a)) : h.Logical may (p >>= f) := by
  intro s outside
  rw [Program.obeys_bind]
  apply (first .outside s outside).mono
  intro o s' outside
  cases o with
  | ok a => exact next a s' outside
  | error e => exact .inl outside

theorem andThen {p : Program α} {f : α → Program β} (first : h.Logical may p)
    (next : ∀ a, h.Quiet may (f a)) : h.Logical may (p >>= f) := by
  intro s outside
  rw [Program.obeys_bind]
  apply (first s outside).mono
  intro o s' ends
  cases o with
  | ok a =>
    rcases ends with outside | ended | ⟨_, refused⟩
    · exact (next a _ s' outside).mono fun _ _ outside => .inl outside
    · exact (next a _ s' ended).mono fun _ _ ended => .inr (.inl ended)
    · contradiction
  | error e =>
    rcases ends with outside | ended | ⟨refused, same⟩
    · exact .inl outside
    · exact .inr (.inl ended)
    · cases same
      exact .inr (.inr ⟨refused, rfl⟩)

theorem only {p : Program α} {sort : Action → Bool} (logical : h.Logical may p)
    (takes : ∀ {s a}, h.lets may s a → sort a) : p.Only sort := by
  intro _ _
  exact ((logical {} rfl).coarsen (fun _ _ => True) (fun _ lets => takes lets)
    (fun _ _ _ => trivial) trivial).mono fun _ _ _ => trivial

end Logical

end Handle

end ImageBrowser
