import ImageBrowser.Proofs.Programs.Interleaving

/-!
A caller that nobody interferes with: from a state, through whatever it may be answered, to its end.
What stones may answer is a parameter. The rules are those of a logic of programs: what holds of the
state is carried from action to action, with the results and the failures that are possible.
-/

namespace ImageBrowser

/-- What stones may answer. Nothing that they are asked is left without an answer. -/
structure Outlook where
  ask : (r : Request) → Except Fault r.Answer → Prop
  login : Except Fault Connection → Prop
  exists_ask : ∀ r, ∃ answer, ask r answer
  exists_login : ∃ answer, login answer

namespace Outlook

def admits (o : Outlook) : (a : Action) → a.Reply → Prop
  | .ask _ r, answer => o.ask r answer
  | .login _, answer => o.login answer
  | _, _ => True

def unlimited : Outlook where
  ask _ _ := True
  login _ := True
  exists_ask _ := ⟨.error .unbounded, trivial⟩
  exists_login := ⟨.error .unbounded, trivial⟩

end Outlook

def Within {α : Type} (good : α → Prop) (bad : Fault → Prop) : Except Fault α → Prop
  | .ok a => good a
  | .error f => bad f

namespace Within

variable {α β : Type} {P P' : α → Prop} {Q : β → Prop} {bad bad' : Fault → Prop}

theorem mono {x : Except Fault α} (within : Within P bad x) (goods : ∀ a, P a → P' a)
    (bads : ∀ f, bad f → bad' f) : Within P' bad' x := by
  cases x with
  | ok a => exact goods a within
  | error f => exact bads f within

theorem bind {x : Except Fault α} {f : α → Except Fault β} (first : Within P bad x)
    (next : ∀ a, P a → Within Q bad (f a)) : Within Q bad (x >>= f) := by
  cases x with
  | ok a => exact next a first
  | error e => exact first

theorem mapM {f : α → Except Fault β} {as : List α} (each : ∀ a ∈ as, Within Q bad (f a)) :
    Within (fun bs => ∀ b ∈ bs, Q b) bad (as.mapM f) := by
  induction as with
  | nil => exact fun b mem => absurd mem List.not_mem_nil
  | cons a as ih =>
    rw [List.mapM_cons]
    apply (each a List.mem_cons_self).bind
    intro b first
    apply (ih fun a mem => each a (List.mem_cons_of_mem _ mem)).bind
    intro bs rest
    exact List.forall_mem_cons.mpr ⟨first, rest⟩

theorem foldlM {f : β → α → Except Fault β} {as : List α} {b : β} (start : Q b)
    (each : ∀ b, ∀ a ∈ as, Q b → Within Q bad (f b a)) :
    Within Q bad (as.foldlM f b) := by
  induction as generalizing b with
  | nil => exact start
  | cons a as ih =>
    rw [List.foldlM_cons]
    apply (each b a List.mem_cons_self start).bind
    intro b' after
    exact ih after fun b a mem => each b a (List.mem_cons_of_mem _ mem)

theorem anything (x : Except Fault α) : Within (fun _ => True) (fun _ => True) x := by
  cases x <;> trivial

theorem itself {x : Except Fault α} (within : Within P bad x) :
    Within (fun a => x = .ok a) bad x := by
  cases x with
  | ok a => exact rfl
  | error f => exact within

theorem exists_ok {x : Except Fault α} (within : Within P (fun _ => False) x) :
    ∃ a, x = .ok a ∧ P a := by
  cases x with
  | ok a => exact ⟨a, rfl, within⟩
  | error f => exact within.elim

theorem provided {expected : Prop} {x : Except Fault α}
    (within : expected → Within (fun _ => True) bad x) :
    Within (fun _ => True) (fun f => expected → bad f) x := by
  cases x with
  | ok a => trivial
  | error f => exact within

end Within

namespace Program

variable {α β : Type} {o : Outlook} {w : World}

/-- Whatever it may be answered, the program is never left without an answer, and it ends as `post`
says of its outcome and the state then. -/
def Ends (o : Outlook) : Program α → World → (Except Fault α → World → Prop) → Prop
  | done a, w, post => post (.ok a) w
  | fail f, w, post => post (.error f) w
  | act a k, w, post => (∃ r v, Answers w a r v ∧ o.admits a r) ∧
      ∀ r v, Answers w a r v → o.admits a r → Ends o (k r) v post

inductive Runs (o : Outlook) : Program α → World → Except Fault α → World → Prop
  | done {a : α} {w : World} : Runs o (done a) w (.ok a) w
  | fail {f : Fault} {w : World} : Runs o (fail f) w (.error f) w
  | act {a : Action} {k : a.Reply → Program α} {r : a.Reply} {w v v' : World}
      {outcome : Except Fault α} (answers : Answers w a r v) (admitted : o.admits a r)
      (rest : Runs o (k r) v outcome v') : Runs o (act a k) w outcome v'

theorem Ends.of_runs {p : Program α} {post : Except Fault α → World → Prop}
    {outcome : Except Fault α} {v : World} (ends : p.Ends o w post) (runs : p.Runs o w outcome v) :
    post outcome v := by
  induction runs with
  | done => exact ends
  | fail => exact ends
  | act answers admitted _ ih => exact ih (ends.2 _ _ answers admitted)

theorem Ends.exists_runs {p : Program α} {post : Except Fault α → World → Prop}
    (ends : p.Ends o w post) : ∃ outcome v, p.Runs o w outcome v := by
  induction p generalizing w with
  | done a => exact ⟨_, _, .done⟩
  | fail f => exact ⟨_, _, .fail⟩
  | act a k ih =>
    obtain ⟨⟨r, v, answers, admitted⟩, next⟩ := ends
    obtain ⟨outcome, u, runs⟩ := ih r (next r v answers admitted)
    exact ⟨outcome, u, .act answers admitted runs⟩

theorem Ends.result_unique {p : Program α} {a b : α}
    (ends : p.Ends o w fun outcome _ => outcome = .ok a)
    (ends' : p.Ends o w fun outcome _ => outcome = .ok b) : a = b := by
  obtain ⟨outcome, v, runs⟩ := ends.exists_runs
  exact Except.ok.inj ((ends.of_runs runs).symm.trans (ends'.of_runs runs))

theorem Ends.mono {p : Program α} {post post' : Except Fault α → World → Prop}
    (ends : p.Ends o w post) (imp : ∀ outcome v, post outcome v → post' outcome v) :
    p.Ends o w post' := by
  induction p generalizing w with
  | done a => exact imp _ _ ends
  | fail f => exact imp _ _ ends
  | act a k ih => exact ⟨ends.1, fun r v answers admitted => ih r (ends.2 r v answers admitted)⟩

def endsAfter (o : Outlook) (f : α → Program β) (post : Except Fault β → World → Prop) :
    Except Fault α → World → Prop
  | .ok a, w => (f a).Ends o w post
  | .error e, w => post (.error e) w

theorem ends_bind (p : Program α) (f : α → Program β) (w : World)
    (post : Except Fault β → World → Prop) :
    (p >>= f).Ends o w post ↔ p.Ends o w (endsAfter o f post) := by
  induction p generalizing w with
  | done a => rfl
  | fail e => rfl
  | act a k ih =>
    exact and_congr_right fun _ => forall_congr' fun r => forall_congr' fun v =>
      forall_congr' fun _ => forall_congr' fun _ => ih r v

theorem ends_attempt (p : Program α) (w : World)
    (post : Except Fault (Except Fault α) → World → Prop) :
    p.attempt.Ends o w post ↔ p.Ends o w fun outcome v => post (.ok outcome) v := by
  induction p generalizing w with
  | done a => rfl
  | fail e => rfl
  | act a k ih =>
    exact and_congr_right fun _ => forall_congr' fun r => forall_congr' fun v =>
      forall_congr' fun _ => forall_congr' fun _ => ih r v

theorem ends_ofExcept (x : Except Fault α) (post : Except Fault α → World → Prop) :
    (ofExcept x).Ends o w post ↔ post x w := by
  cases x <;> rfl

theorem ends_step_bind (s : Step) (f : s.Reply → Program β) (w : World)
    (post : Except Fault β → World → Prop) :
    (Program.step s >>= f).Ends o w post ↔ (f (w.step s).1).Ends o (w.step s).2 post := by
  constructor
  · intro ends
    exact ends.2 _ _ (.step w s) trivial
  · intro ends
    refine ⟨⟨_, _, .step w s, trivial⟩, ?_⟩
    intro r v answers _
    cases answers
    exact ends

/-- The program goes from states of `inv` to states of `inv`, with a result that is `P` or a
failure that is `bad`. -/
def Meets (o : Outlook) (inv : World → Prop) (p : Program α) (good : α → Prop)
    (bad : Fault → Prop) : Prop :=
  ∀ w, inv w → p.Ends o w fun outcome v => inv v ∧ Within good bad outcome

namespace Meets

variable {inv : World → Prop} {P P' : α → Prop} {Q : β → Prop} {bad bad' : Fault → Prop}

theorem mono {p : Program α} (meets : Meets o inv p P bad) (goods : ∀ a, P a → P' a)
    (bads : ∀ f, bad f → bad' f) : Meets o inv p P' bad' :=
  fun w holds => (meets w holds).mono fun _ _ ended => ⟨ended.1, ended.2.mono goods bads⟩

theorem done {a : α} (result : P a) : Meets o inv (Program.done a) P bad :=
  fun _ holds => ⟨holds, result⟩

theorem fail {f : Fault} (failure : bad f) : Meets o inv (Program.fail f) P bad :=
  fun _ holds => ⟨holds, failure⟩

theorem ofExcept {x : Except Fault α} (within : Within P bad x) :
    Meets o inv (Program.ofExcept x) P bad :=
  fun _ holds => (ends_ofExcept x _).mpr ⟨holds, within⟩

theorem bind {p : Program α} {f : α → Program β} (first : Meets o inv p P bad)
    (next : ∀ a, P a → Meets o inv (f a) Q bad) : Meets o inv (p >>= f) Q bad := by
  intro w holds
  rw [ends_bind]
  apply (first w holds).mono
  intro outcome v ended
  cases outcome with
  | ok a => exact next a ended.2 v ended.1
  | error e => exact ended

theorem map {p : Program α} {g : α → β} (first : Meets o inv p (fun a => Q (g a)) bad) :
    Meets o inv (g <$> p) Q bad :=
  first.bind fun _ result => done result

theorem attempt {p : Program α} (meets : Meets o inv p P bad) :
    Meets o inv p.attempt (Within P bad) bad' :=
  fun w holds => (ends_attempt p w _).mpr (meets w holds)

theorem ensure {p : Program α} {cleanup : Program Unit} (meets : Meets o inv p P bad)
    (last : Meets o inv cleanup (fun _ => True) bad) : Meets o inv (p.ensure cleanup) P bad :=
  meets.attempt.bind fun _ within => last.bind fun _ _ => ofExcept within

theorem handling {p : Program α} {handles : Fault → Bool} {handler : Fault → Program α}
    (meets : Meets o inv p P bad)
    (handled : ∀ f, bad f → handles f → Meets o inv (handler f) P bad')
    (passed : ∀ f, bad f → handles f = false → bad' f) :
    Meets o inv (p.handling handles handler) P bad' := by
  apply meets.attempt.bind
  intro outcome within
  cases outcome with
  | ok a => exact done within
  | error f =>
    show Meets o inv (if handles f then handler f else Program.fail f) P bad'
    split
    · next picked => exact handled f within picked
    · next other => exact fail (passed f within (Bool.not_eq_true _ ▸ other))

theorem handled {expected : Prop} {p : Program α} {handles : Fault → Bool}
    {handler : Fault → Program α} (meets : Meets o inv p P fun f => expected → handles f)
    (handled : ∀ f, Meets o inv (handler f) P fun f => expected → bad f) :
    Meets o inv (p.handling handles handler) P fun f => expected → bad f := by
  apply meets.handling fun f _ _ => handled f
  intro f failed other holds
  rw [failed holds] at other
  contradiction

theorem step_with {s : Step} {P : s.Reply → Prop}
    (after : ∀ w, inv w → inv (w.step s).2 ∧ P (w.step s).1) :
    Meets o inv (Program.step s) P bad :=
  fun w holds => (ends_step_bind s Program.done w _).mpr (after w holds)

theorem step {s : Step} (after : ∀ w, inv w → inv (w.step s).2) :
    Meets o inv (Program.step s) (fun _ => True) bad :=
  step_with fun w holds => ⟨after w holds, trivial⟩

theorem log (e : LogEntry) : Meets o inv (Program.log e) (fun _ => True) bad := by
  intro w holds
  refine ⟨⟨(), w, .log w e, trivial⟩, ?_⟩
  intro r v answers _
  cases answers
  exact ⟨holds, trivial⟩

theorem ask {c : Connection} {r : Request} {P : r.Answer → Prop}
    (answered : ∀ answer, o.ask r answer → Within P bad answer) :
    Meets o inv (Program.ask c r) P bad := by
  intro w holds
  obtain ⟨answer, admitted⟩ := o.exists_ask r
  refine ⟨⟨answer, w, .ask w c r answer, admitted⟩, ?_⟩
  intro answer v answers admitted
  cases answers
  exact (ends_ofExcept answer _).mpr ⟨holds, answered answer admitted⟩

theorem login {l : Login} {P : Connection → Prop}
    (answered : ∀ answer, o.login answer → Within P bad answer) :
    Meets o inv (Program.login l) P bad := by
  intro w holds
  obtain ⟨answer, admitted⟩ := o.exists_login
  refine ⟨⟨answer, w, .login w l answer, admitted⟩, ?_⟩
  intro answer v answers admitted
  cases answers
  exact (ends_ofExcept answer _).mpr ⟨holds, answered answer admitted⟩

end Meets

end Program

end ImageBrowser
