import ImageBrowser.Program

/-!
What a program does, told by an observer that follows it action by action. The observer says from
its own state which actions are allowed next, and notes every reply; replies may be anything.
-/

namespace ImageBrowser

def Action.isRemote : Action → Bool
  | .ask _ _ | .login _ => true
  | _ => false

structure Discipline (σ : Type) where
  allows : σ → Action → Prop
  after : σ → (a : Action) → a.Reply → σ

namespace Program

variable {σ ρ α β : Type} {d : Discipline σ}

/-- Whatever it is answered, the program does only what is allowed and ends as `post` says. -/
def Obeys (d : Discipline σ) : Program α → σ → (Except Fault α → σ → Prop) → Prop
  | done a, s, post => post (.ok a) s
  | fail f, s, post => post (.error f) s
  | act a k, s, post => d.allows s a ∧ ∀ r, Obeys d (k r) (d.after s a r) post

theorem Obeys.mono {p : Program α} {s : σ} {post post' : Except Fault α → σ → Prop}
    (h : p.Obeys d s post) (imp : ∀ o s', post o s' → post' o s') : p.Obeys d s post' := by
  induction p generalizing s with
  | done a => exact imp _ _ h
  | fail f => exact imp _ _ h
  | act a k ih => exact ⟨h.1, fun r => ih r (h.2 r)⟩

def andThen (d : Discipline σ) (f : α → Program β) (post : Except Fault β → σ → Prop) :
    Except Fault α → σ → Prop
  | .ok a, s => (f a).Obeys d s post
  | .error e, s => post (.error e) s

theorem obeys_bind (p : Program α) (f : α → Program β) (s : σ)
    (post : Except Fault β → σ → Prop) :
    (p >>= f).Obeys d s post ↔ p.Obeys d s (andThen d f post) := by
  induction p generalizing s with
  | done a => rfl
  | fail e => rfl
  | act a k ih => exact and_congr_right fun _ => forall_congr' fun r => ih r _

theorem obeys_attempt (p : Program α) (s : σ)
    (post : Except Fault (Except Fault α) → σ → Prop) :
    p.attempt.Obeys d s post ↔ p.Obeys d s fun o s' => post (.ok o) s' := by
  induction p generalizing s with
  | done a => rfl
  | fail e => rfl
  | act a k ih => exact and_congr_right fun _ => forall_congr' fun r => ih r _

theorem obeys_ofExcept (o : Except Fault α) (s : σ) (post : Except Fault α → σ → Prop) :
    (ofExcept o).Obeys d s post ↔ post o s := by
  cases o <;> rfl

theorem obeys_ensure (p : Program α) (cleanup : Program Unit) (s : σ)
    (post : Except Fault α → σ → Prop) :
    (p.ensure cleanup).Obeys d s post ↔
      p.Obeys d s fun o s' => cleanup.Obeys d s' (andThen d (fun _ => ofExcept o) post) := by
  have last (o : Except Fault α) (s' : σ) :
      (cleanup >>= fun _ => ofExcept o).Obeys d s' post ↔
        cleanup.Obeys d s' (andThen d (fun _ => ofExcept o) post) := obeys_bind cleanup _ s' post
  show (p.attempt >>= fun o => cleanup >>= fun _ => ofExcept o).Obeys d s post ↔ _
  rw [obeys_bind, obeys_attempt]
  exact ⟨fun h => h.mono fun o s' => (last o s').mp, fun h => h.mono fun o s' => (last o s').mpr⟩

theorem Obeys.coarsen {e : Discipline ρ} (R : σ → ρ → Prop)
    (allows : ∀ {s t a}, R s t → d.allows s a → e.allows t a)
    (after : ∀ {s t a} (r : a.Reply), R s t → d.allows s a →
      R (d.after s a r) (e.after t a r))
    {p : Program α} {s : σ} {t : ρ} {post : Except Fault α → σ → Prop} (h : p.Obeys d s post)
    (related : R s t) : p.Obeys e t fun o t' => ∃ s', R s' t' ∧ post o s' := by
  induction p generalizing s t with
  | done a => exact ⟨s, related, h⟩
  | fail f => exact ⟨s, related, h⟩
  | act a k ih => exact ⟨allows related h.1, fun r => ih r (h.2 r) (after r related h.1)⟩

def hasEnded : Program α → Bool
  | done _ | fail _ => true
  | act _ _ => false

inductive Raises (f : Fault) : Program α → Prop
  | now : Raises f (fail f)
  | log {e : LogEntry} {k : Unit → Program α} (next : ∀ r, Raises f (k r)) :
      Raises f (act (.log e) k)

/-- The program goes from states of `inv` to states of `inv`, whether it fails or not. -/
def Keeps (d : Discipline σ) (inv : σ → Prop) (p : Program α) : Prop :=
  ∀ s, inv s → p.Obeys d s fun _ s' => inv s'

namespace Keeps

variable {inv : σ → Prop}

theorem done (a : α) : Keeps d inv (Program.done a) := fun _ h => h

theorem fail (f : Fault) : Keeps d inv (Program.fail f : Program α) := fun _ h => h

theorem ofExcept (o : Except Fault α) : Keeps d inv (Program.ofExcept o) :=
  fun s h => (obeys_ofExcept o s _).mpr h

theorem act {a : Action} {k : a.Reply → Program α} (allows : ∀ s, inv s → d.allows s a)
    (after : ∀ s r, inv s → inv (d.after s a r)) (next : ∀ r, Keeps d inv (k r)) :
    Keeps d inv (Program.act a k) :=
  fun s h => ⟨allows s h, fun r => next r _ (after s r h)⟩

theorem bind {p : Program α} {f : α → Program β} (first : Keeps d inv p)
    (next : ∀ a, Keeps d inv (f a)) : Keeps d inv (p >>= f) := by
  intro s h
  rw [obeys_bind]
  refine (first s h).mono fun o s' h' => ?_
  cases o with
  | ok a => exact next a s' h'
  | error e => exact h'

theorem ofExcept_bind {o : Except Fault α} {f : α → Program β}
    (next : ∀ a, o = .ok a → Keeps d inv (f a)) : Keeps d inv (Program.ofExcept o >>= f) := by
  cases o with
  | ok a => exact next a rfl
  | error e => exact fail e

theorem map {p : Program α} (g : α → β) (first : Keeps d inv p) : Keeps d inv (g <$> p) :=
  first.bind fun a => done (g a)

theorem attempt {p : Program α} (h : Keeps d inv p) : Keeps d inv p.attempt :=
  fun s hs => (obeys_attempt p s _).mpr (h s hs)

theorem ensure {p : Program α} {cleanup : Program Unit} (h : Keeps d inv p)
    (last : Keeps d inv cleanup) : Keeps d inv (p.ensure cleanup) :=
  h.attempt.bind fun o => last.bind fun _ => ofExcept o

theorem handling {p : Program α} {handles : Fault → Bool} {handler : Fault → Program α}
    (h : Keeps d inv p) (handled : ∀ f, Keeps d inv (handler f)) :
    Keeps d inv (p.handling handles handler) := by
  refine h.attempt.bind fun o => ?_
  cases o with
  | ok a => exact done a
  | error f =>
    show Keeps d inv (if handles f then handler f else Program.fail f)
    split
    · exact handled f
    · exact fail f

end Keeps

/-- Whatever it is answered, the program takes actions of one sort alone. -/
abbrev Only (sort : Action → Bool) (p : Program α) : Prop :=
  p.Keeps ⟨fun (_ : Unit) a => sort a, fun s _ _ => s⟩ fun _ => True

variable {sort : Action → Bool}

theorem only_act {a : Action} {k : a.Reply → Program α} (takes : sort a)
    (next : ∀ r, (k r).Only sort) : (Program.act a k).Only sort :=
  .act (fun _ _ => takes) (fun _ _ _ => trivial) next

theorem Only.mono {sort' : Action → Bool} {p : Program α} (only : p.Only sort)
    (imp : ∀ a, sort a → sort' a) : p.Only sort' := by
  intro s _
  refine ((only s trivial).coarsen (fun _ _ => True) ?_ (fun _ _ _ => trivial) trivial).mono
    fun _ _ _ => trivial
  exact fun {_ _ a} _ takes => imp a takes

/-- What actions of the sort keep up, the program keeps up. -/
theorem Only.keeps {d : Discipline σ} {inv : σ → Prop} {p : Program α} (only : p.Only sort)
    (allows : ∀ {s a}, sort a → inv s → d.allows s a)
    (after : ∀ {s a} (r : a.Reply), sort a → inv s → inv (d.after s a r)) : p.Keeps d inv := by
  intro s holds
  refine ((only () trivial).coarsen (fun _ s => inv s) ?_ ?_ holds).mono ?_
  · exact fun holds takes => allows takes holds
  · exact fun r holds takes => after r takes holds
  · rintro _ s ⟨_, holds, _⟩
    exact holds

end Program

end ImageBrowser
