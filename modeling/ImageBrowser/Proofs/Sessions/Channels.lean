import ImageBrowser.Proofs.Programs.Traces
import ImageBrowser.Proofs.Sessions.Aside

/-!
Channels on which listeners are notified, and how one notification goes: it finds out who is alive,
calls them one after another, and ends. Both announcements of the browser are such notifications.
-/

namespace ImageBrowser

open Program (Does)

/-- Whom there is something to subscribe to for: changes of the selection, and of the tree. -/
inductive Channel
  | selection
  | tree
  deriving DecidableEq, Repr

namespace Channel

@[reducible] def Hearer : Channel → Type
  | selection => Listener
  | tree => Nat

instance : (c : Channel) → DecidableEq c.Hearer
  | selection => inferInstanceAs (DecidableEq Listener)
  | tree => inferInstanceAs (DecidableEq Nat)

@[reducible] def Subject : Channel → Type
  | selection => Option Value
  | tree => Unit

def opening : Channel → Program Unit
  | selection => Program.done ()
  | tree => Tree.clearCache

def beginning : (c : Channel) → Program (List c.Hearer)
  | selection => Program.step .beginSelectionNotice
  | tree => Program.step .beginTreeNotice

def call : (c : Channel) → c.Subject → c.Hearer → Program Unit
  | selection, id, l => Sessions.tellListener id l
  | tree, _, l => Program.tell l .treeChanged

def ending : (c : Channel) → List c.Hearer → Program Unit
  | selection, called => Program.step (.endSelectionNotice called)
  | tree, called => Program.step (.endTreeNotice called)

def notify (c : Channel) (subject : c.Subject) : Program Unit := do
  c.opening
  let called ← c.beginning
  (tellAll (c.call subject) called).ensure (c.ending called)

theorem announce_eq_notify (id : Option Value) : Sessions.announce id = selection.notify id := rfl

theorem refresh_eq_notify : Tree.refresh = tree.notify () := rfl

/-! Those who have subscribed -/

def subscribers : (c : Channel) → World → Subscribers c.Hearer
  | selection, w => w.selectionListeners
  | tree, w => w.treeListeners

def update : (c : Channel) → (Subscribers c.Hearer → Subscribers c.Hearer) → World → World
  | selection, change, w => { w with selectionListeners := change w.selectionListeners }
  | tree, change, w => { w with treeListeners := change w.treeListeners }

variable {c : Channel} {w v : World}

@[simp] theorem subscribers_update (change : Subscribers c.Hearer → Subscribers c.Hearer)
    (w : World) : c.subscribers (c.update change w) = change (c.subscribers w) := by
  cases c <;> rfl

def begun : (c : Channel) → List c.Hearer → Doing
  | selection, called => ⟨.step .beginSelectionNotice, called⟩
  | tree, called => ⟨.step .beginTreeNotice, called⟩

def ended : (c : Channel) → List c.Hearer → Doing
  | selection, called => ⟨.step (.endSelectionNotice called), ()⟩
  | tree, called => ⟨.step (.endTreeNotice called), ()⟩

/-- Whether an action neither begins nor ends a notification on the channel. -/
def isElsewhere : Channel → Action → Bool
  | selection, .step .beginSelectionNotice | selection, .step (.endSelectionNotice _) => false
  | tree, .step .beginTreeNotice | tree, .step (.endTreeNotice _) => false
  | _, _ => true

theorem does_beginning {ds : List Doing} {o : Except Fault (List c.Hearer)}
    (does : c.beginning.Does ds o) : ∃ called, ds = [c.begun called] ∧ o = .ok called := by
  cases c
  all_goals
    obtain ⟨called, _, rfl, finished⟩ := Program.does_act.mp does
    obtain ⟨rfl, rfl⟩ := Program.does_done.mp finished
    exact ⟨called, rfl, rfl⟩

theorem does_ending {called : List c.Hearer} {ds : List Doing} {o : Except Fault Unit}
    (does : (c.ending called).Does ds o) : ds = [c.ended called] ∧ o = .ok () := by
  cases c
  all_goals
    obtain ⟨_, _, rfl, finished⟩ := Program.does_act.mp does
    obtain ⟨rfl, rfl⟩ := Program.does_done.mp finished
    exact ⟨rfl, rfl⟩

theorem does_opening {ds : List Doing} {o : Except Fault Unit} (does : c.opening.Does ds o) :
    o = .ok () := by
  cases c with
  | selection => exact (Program.does_done.mp does).2
  | tree =>
    obtain ⟨_, _, _, cleared⟩ := Program.does_act.mp does
    obtain ⟨_, _, _, read⟩ := Program.does_act.mp cleared
    obtain ⟨_, _, _, logged⟩ := Program.does_act.mp read
    exact (Program.does_done.mp logged).2

end Channel

theorem Program.ends_of_aside {α : Type} {p : Program α} (apart : p.Aside) (w : World) :
    p.Ends .unlimited w fun _ _ => True := by
  have takes := apart () trivial
  clear apart
  induction p generalizing w with
  | done a => trivial
  | fail f => trivial
  | act a k ih =>
    refine ⟨?_, fun r v _ _ => ih r v (takes.2 r)⟩
    cases a with
    | step t => exact ⟨_, _, .step w t, trivial⟩
    | tell n m => exact ⟨.ok (), w, .tell w n m _, trivial⟩
    | report m => exact ⟨.ok (), w, .report w m _, trivial⟩
    | log e => exact ⟨(), w, .log w e, trivial⟩
    | ask _ _ | login _ | wait _ => cases takes.1

theorem works_of_tellAll {ℓ : Type} {tell : ℓ → Program Unit}
    (comes : ∀ l work o, (tell l).Does work o → (∀ d ∈ work, Doing.hasReturned d) → o = .ok ())
    {ls : List ℓ} {ds : List Doing} {o : Except Fault Unit} (does : (tellAll tell ls).Does ds o)
    (back : ∀ d ∈ ds, Doing.hasReturned d) :
    o = .ok () ∧ ∃ works, ds = works.flatten ∧
      List.Forall₂ (fun l work => (tell l).Does work (.ok ())) ls works := by
  induction ls generalizing ds with
  | nil =>
    obtain ⟨rfl, rfl⟩ := Program.does_done.mp does
    exact ⟨rfl, [], rfl, .nil⟩
  | cons l ls ih =>
    obtain ⟨_, work, rest, rfl, tells, goes⟩ | ⟨e, tells, rfl⟩ := does.of_bind
    · obtain ⟨-, after⟩ := List.forall_mem_append.mp back
      obtain ⟨rfl, works, rfl, each⟩ := ih goes after
      exact ⟨rfl, work :: works, rfl, .cons tells each⟩
    · cases comes l ds _ tells back

namespace Channel

variable {c : Channel} {subject : c.Subject} {ds : List Doing} {o : Except Fault Unit}

/-- All that a notification does: it begins, calls these listeners one after another, and ends. -/
def Notified (c : Channel) (subject : c.Subject) (called : List c.Hearer) (ds : List Doing) :
    Prop :=
  ∃ opened works, c.opening.Does opened (.ok ()) ∧
    List.Forall₂ (fun l work => (c.call subject l).Does work (.ok ())) called works ∧
    ds = opened ++ c.begun called :: (works.flatten ++ [c.ended called])

theorem parts_of_notify (does : (c.notify subject).Does ds o) :
    ∃ opened called told, ds = opened ++ c.begun called :: (told ++ [c.ended called]) ∧
      c.opening.Does opened (.ok ()) ∧ (tellAll (c.call subject) called).Does told o := by
  obtain ⟨_, opened, rest, rfl, opens, goes⟩ | ⟨e, opens, _⟩ := does.of_bind
  swap
  · cases does_opening opens
  obtain ⟨called, first, later, rfl, begins, calls⟩ | ⟨e, begins, _⟩ := Does.of_bind goes
  swap
  · obtain ⟨_, _, ⟨⟩⟩ := does_beginning begins
  obtain ⟨_, rfl, same⟩ := does_beginning begins
  cases same
  obtain ⟨o', _, told, last, rfl, tells, finishes, closed⟩ := calls.of_ensure
  obtain ⟨rfl, rfl⟩ := does_ending finishes
  obtain ⟨_, rfl⟩ | ⟨_, ⟨⟩, _⟩ := closed
  exact ⟨opened, called, told, rfl, opens, tells⟩

theorem notified_of_calls
    (comes : ∀ l work o, (c.call subject l).Does work o → (∀ d ∈ work, Doing.hasReturned d) → o = .ok ())
    (does : (c.notify subject).Does ds o) (back : ∀ d ∈ ds, Doing.hasReturned d) :
    o = .ok () ∧ ∃ called, c.Notified subject called ds := by
  obtain ⟨opened, called, told, rfl, opens, tells⟩ := parts_of_notify does
  obtain ⟨-, back⟩ := List.forall_mem_append.mp back
  obtain ⟨-, back⟩ := List.forall_mem_cons.mp back
  obtain ⟨back, -⟩ := List.forall_mem_append.mp back
  obtain ⟨rfl, works, rfl, each⟩ := works_of_tellAll comes tells back
  exact ⟨rfl, called, opened, works, opens, each, rfl⟩

theorem eq_ok_of_tell {n : Nat} {m : Message} (does : (Program.tell n m).Does ds o)
    (back : ∀ d ∈ ds, Doing.hasReturned d) : o = .ok () := by
  obtain ⟨_, _, rfl, finished⟩ := Program.does_act.mp does
  obtain ⟨rfl, rfl⟩ := Program.does_ofExcept.mp finished
  cases o with
  | ok _ => rfl
  | error f => cases back _ List.mem_cons_self

theorem eq_ok_of_call {l : c.Hearer} (does : (c.call subject l).Does ds o)
    (back : ∀ d ∈ ds, Doing.hasReturned d) : o = .ok () := by
  cases c with
  | tree => exact eq_ok_of_tell does back
  | selection =>
    cases l with
    | outside n => exact eq_ok_of_tell does back
    | tree =>
      have comes (l : Nat) (work : List Doing) (o : Except Fault Unit)
          (tells : (tree.call () l).Does work o) (back : ∀ d ∈ work, Doing.hasReturned d) : o = .ok () :=
        eq_ok_of_tell (m := .treeChanged) tells back
      have refreshes : Tree.refresh.Does ds o := does
      rw [refresh_eq_notify] at refreshes
      exact (notified_of_calls comes refreshes back).1

theorem notified (does : (c.notify subject).Does ds o) (back : ∀ d ∈ ds, Doing.hasReturned d) :
    o = .ok () ∧ ∃ called, c.Notified subject called ds :=
  notified_of_calls (fun _ _ _ => eq_ok_of_call) does back

end Channel

end ImageBrowser
