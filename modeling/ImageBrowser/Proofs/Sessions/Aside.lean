import ImageBrowser.Proofs.Programs.Discipline
import ImageBrowser.Tree

/-!
What is done apart from all sessions: to look sessions up, to select one, to tell listeners and to
refresh the tree. None of it adds, claims or removes a session or asks a stone, and none looks at
the cache, so an observer that follows only those lets all of it pass.
-/

namespace ImageBrowser

open Program (Keeps)

variable {σ α β : Type}

def Action.sparesSessions : Action → Bool
  | .step (.claim _) | .step (.release _) | .step (.enter _) | .step (.leave _) => false
  | .step (.openSession _ _ _) | .step (.adopt _ _) | .step (.removeSession _) => false
  | .ask _ _ | .login _ => false
  | _ => true

def Action.isAside : Action → Bool
  | .step (.request _) | .step (.settle _ _ _) | .step (.publish _ _) | .step (.cached _) => false
  | .wait _ => false
  | a => a.sparesSessions

namespace Action

variable {a : Action}

theorem sparesSessions_of_isAside (apart : a.isAside) : a.sparesSessions := by
  cases a with
  | step t => cases t <;> first | exact apart | rfl
  | wait ticket => rfl
  | _ => exact apart

theorem not_isRemote_of_sparesSessions (spares : a.sparesSessions) : !a.isRemote := by
  cases a with
  | ask _ _ | login _ => cases spares
  | _ => rfl

theorem not_isRemote_of_isAside (apart : a.isAside) : !a.isRemote :=
  not_isRemote_of_sparesSessions (sparesSessions_of_isAside apart)

end Action

namespace Program

variable {sort : Action → Bool}

theorem only_tellAll {ℓ : Type} {tell : ℓ → Program Unit} (each : ∀ l, (tell l).Only sort)
    (ls : List ℓ) : (tellAll tell ls).Only sort := by
  induction ls with
  | nil => exact .done ()
  | cons l ls ih => exact .bind (each l) fun _ => ih

abbrev Aside (p : Program α) : Prop := p.Only Action.isAside

theorem aside_act {a : Action} {k : a.Reply → Program α} (apart : a.isAside)
    (next : ∀ r, (k r).Aside) : (Program.act a k).Aside := only_act apart next

theorem aside_reply {a : Action} {reply : a.Reply → Except Fault α} (apart : a.isAside) :
    (Program.act a fun r => .ofExcept (reply r)).Aside :=
  aside_act apart fun _ => .ofExcept _

abbrev Spares (p : Program α) : Prop := p.Only Action.sparesSessions

abbrev Offline (p : Program α) : Prop := p.Only fun a => !a.isRemote

theorem offline_act {a : Action} {k : a.Reply → Program α} (near : !a.isRemote)
    (next : ∀ r, (k r).Offline) : (Program.act a k).Offline := only_act near next

theorem Aside.spares {p : Program α} (apart : p.Aside) : p.Spares :=
  apart.mono fun _ => Action.sparesSessions_of_isAside

theorem Spares.offline {p : Program α} (spares : p.Spares) : p.Offline :=
  spares.mono fun _ => Action.not_isRemote_of_sparesSessions

theorem Aside.offline {p : Program α} (apart : p.Aside) : p.Offline := apart.spares.offline

end Program

open Program

namespace Tree

theorem aside_refresh : refresh.Aside := by
  have cleared : clearCache.Aside :=
    aside_act rfl fun _ => aside_act rfl fun _ => aside_act rfl fun _ => .done ()
  apply Keeps.bind cleared
  intro _
  apply Keeps.bind (aside_act rfl .done)
  intro listeners
  exact .ensure (only_tellAll (fun l => aside_reply rfl) listeners) (aside_act rfl .done)

theorem aside_limit : limit.Aside := by
  apply Keeps.bind (aside_act rfl .done)
  intro found
  dsimp only
  split
  · exact .bind (aside_act rfl .done) fun _ => .done _
  · exact .done _

theorem aside_notify (n : Notifier) (message : String) : (notify n message).Aside := by
  cases n with
  | log => exact aside_act rfl .done
  | gather => exact aside_act rfl .done
  | outside => exact aside_reply rfl

theorem aside_item (node : Node) : (item node).Aside :=
  .bind aside_limit fun _ => .ofExcept _

end Tree

namespace Sessions

theorem aside_announce (id : Option Value) : (announce id).Aside := by
  have told (listener : Listener) : (tellListener id listener).Aside := by
    cases listener with
    | tree => exact Tree.aside_refresh
    | outside n => exact aside_reply rfl
  apply Keeps.bind (aside_act rfl .done)
  intro listeners
  exact .ensure (only_tellAll told listeners) (aside_act rfl .done)

theorem aside_orMissing (id : Value) (found : Option α) : (orMissing id found).Aside := by
  cases found with
  | none => exact .fail _
  | some a => exact .done a

theorem aside_contains (id : Value) : (contains id).Aside :=
  .bind (.ofExcept _) fun _ => .bind (aside_act rfl .done) fun _ => .done _

theorem aside_get (id : Value) : (get id).Aside :=
  .bind (.ofExcept _) fun _ => .bind (aside_act rfl .done) fun _ => aside_orMissing _ _

theorem aside_metadata (id : Value) : (metadata id).Aside :=
  .bind (.ofExcept _) fun _ => .bind (aside_act rfl .done) fun _ => aside_orMissing _ _

theorem aside_select (id : Value) : (select id).Aside := by
  apply Keeps.bind (.ofExcept _)
  intro id
  apply Keeps.bind (aside_act rfl .done)
  intro found
  apply Keeps.bind (aside_orMissing id found)
  intro changed
  split
  · exact aside_announce _
  · exact .done ()

theorem only_remove {sort : Action → Bool} (id : Value)
    (removes : ∀ id, sort (.step (.removeSession id))) (apart : ∀ a, a.isAside → sort a) :
    (remove id).Only sort := by
  apply Keeps.bind (.ofExcept _)
  intro id
  apply Keeps.bind (only_act (removes id) .done)
  intro found
  apply Keeps.bind ((aside_orMissing id found).mono apart)
  intro removed
  dsimp only
  split
  · exact .bind ((aside_announce none).mono apart) fun _ => .done _
  · exact .done _

theorem only_clear {sort : Action → Bool} (clears : sort (.step .clearSessions))
    (apart : ∀ a, a.isAside → sort a) : clear.Only sort := by
  apply Keeps.bind (only_act clears .done)
  intro changed
  split
  · exact (aside_announce none).mono apart
  · exact .done ()

theorem offline_remove (id : Value) : (remove id).Offline :=
  only_remove id (fun _ => rfl) fun _ => Action.not_isRemote_of_isAside

theorem offline_add (c : Connection) (metadata id : Value) : (add c metadata id).Offline := by
  unfold add
  dsimp only
  split
  all_goals refine .bind ?_ fun id => .bind (offline_act rfl .done) fun _ => .done id
  · exact .ofExcept _
  · exact offline_act rfl .done

end Sessions

end ImageBrowser
