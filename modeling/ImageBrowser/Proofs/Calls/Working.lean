import ImageBrowser.Proofs.Calls.Failures

/-!
A stone that works, and a session that nobody else uses: each query is answered with the text that the
stone gives for its source, cut at the largest size, and leaves the session free for the next one.
-/

namespace ImageBrowser

open Program (Meets)
open Smalltalk (Snippet SnippetKind)

/-! The state while calls are made -/

/-- A state differs from another one only in what is kept of calls, and has a session with as many
calls running. -/
def World.Resting (w : World) (number : Nat) (depth : Int) (v : World) : Prop :=
  v.depth number = depth ∧ ∃ depths resultClasses,
    v = { w with depths := depths, resultClasses := resultClasses }

namespace World.Resting

variable {w v : World} {number : Nat} {depth : Int}

theorem itself : w.Resting number (w.depth number) w := ⟨rfl, w.depths, w.resultClasses, rfl⟩

theorem setDepth (rests : w.Resting number depth v) (depth' : Int) :
    w.Resting number depth' (v.setDepth number depth') := by
  obtain ⟨-, depths, resultClasses, rfl⟩ := rests
  refine ⟨?_, depths.insert number depth', resultClasses, rfl⟩
  simp [World.depth, World.setDepth, Table.find?_insert]

theorem enter (rests : w.Resting number depth v) :
    w.Resting number (depth + 1) (v.step (.enter number)).2 := by
  obtain rfl := rests.1
  exact rests.setDepth _

theorem leave (rests : w.Resting number (depth + 1) v) :
    w.Resting number depth (v.setDepth number (Occupancy.leave (v.depth number))) := by
  have less : Occupancy.leave (v.depth number) = depth := by
    rw [rests.1, Occupancy.leave]
    omega
  rw [less]
  exact rests.setDepth depth

theorem claim (rests : w.Resting number 0 v) :
    (v.step (.claim number)).1 = true ∧ w.Resting number 1 (v.step (.claim number)).2 := by
  have granted : Occupancy.claim (v.depth number) = (true, 1) := by
    rw [rests.1]
    rfl
  simp only [World.step, granted]
  exact ⟨trivial, rests.setDepth 1⟩

theorem remember (rests : w.Resting number depth v) (n : Nat) (c : RemoteObject) :
    w.Resting number depth (v.step (.rememberResultClass n c)).2 := by
  obtain ⟨same, depths, resultClasses, rfl⟩ := rests
  exact ⟨same, depths, resultClasses.insert n c, rfl⟩

theorem cache (rests : w.Resting number depth v) : v.cache = w.cache := by
  obtain ⟨-, depths, resultClasses, rfl⟩ := rests
  rfl

theorem selection (rests : w.Resting number depth v) : v.selection = w.selection := by
  obtain ⟨-, depths, resultClasses, rfl⟩ := rests
  rfl

theorem settings (rests : w.Resting number depth v) : v.settings = w.settings := by
  obtain ⟨-, depths, resultClasses, rfl⟩ := rests
  rfl

end World.Resting

/-- A stone has an object for every source that it executes, and a text for every object. -/
structure WorkingStone where
  result : Value → RemoteObject
  text : RemoteObject → String

namespace WorkingStone

def answers (s : WorkingStone) : (r : Request) → Except Fault r.Answer → Prop
  | .resolve _, answer => ∃ c, answer = .ok (some c)
  | .execute source, answer => answer = .ok (s.result source)
  | .fetch object, answer => answer = .ok (.text (s.text object))
  | _, _ => True

theorem exists_answer (s : WorkingStone) (r : Request) : ∃ answer, s.answers r answer := by
  cases r with
  | resolve name => exact ⟨.ok (some ⟨0, name, ""⟩), ⟨0, name, ""⟩, rfl⟩
  | execute source => exact ⟨_, rfl⟩
  | fetch object => exact ⟨_, rfl⟩
  | _ => exact ⟨.error .unbounded, trivial⟩

def outlook (s : WorkingStone) : Outlook where
  ask := s.answers
  login _ := True
  exists_ask := s.exists_answer
  exists_login := Outlook.unlimited.exists_login

def textOf (s : WorkingStone) (snippet : Snippet) : String :=
  s.text (s.result (.text snippet.source))

/-- From a state with so many calls of a session running, a program goes to such a state again, and
always to a result. -/
def Yields {α : Type} (s : WorkingStone) (h : Handle) (w : World) (depth : Int) (p : Program α)
    (good : α → Prop) : Prop :=
  Meets s.outlook (w.Resting h.number depth) p good fun _ => False

variable {s : WorkingStone} {h : Handle} {w : World} {depth : Int} {α : Type} {P : α → Prop}

theorem Yields.ends {p : Program α} (yields : s.Yields h w depth p P)
    (running : w.depth h.number = depth) :
    p.Ends s.outlook w fun outcome v =>
      ∃ a, outcome = .ok a ∧ P a ∧ w.Resting h.number depth v := by
  apply (yields w (running ▸ .itself)).mono
  rintro outcome v ⟨rests, within⟩
  obtain ⟨a, rfl, result⟩ := within.exists_ok
  exact ⟨a, rfl, result, rests⟩

theorem yields_handling {p : Program α} {handles : Fault → Bool} {handler : Fault → Program α}
    (yields : s.Yields h w depth p P) : s.Yields h w depth (p.handling handles handler) P :=
  Meets.handling yields (fun _ never _ => never.elim) fun _ never _ => never.elim

theorem ends_ensure {body : Program α} {cleanup : Program Unit} {v : World}
    (last : ∀ u, w.Resting h.number (depth + 1) u →
      cleanup.Ends s.outlook u fun outcome v => outcome = .ok () ∧ w.Resting h.number depth v)
    (yields : s.Yields h w (depth + 1) body P) (rests : w.Resting h.number (depth + 1) v) :
    (body.ensure cleanup).Ends s.outlook v fun outcome u =>
      w.Resting h.number depth u ∧ Within P (fun _ => False) outcome := by
  show (body.attempt >>= _).Ends _ _ _
  rw [Program.ends_bind, Program.ends_attempt]
  apply (yields v rests).mono
  rintro outcome u ⟨inside, within⟩
  show (cleanup >>= _).Ends _ _ _
  rw [Program.ends_bind]
  apply (last u inside).mono
  rintro _ v ⟨rfl, rests⟩
  exact (Program.ends_ofExcept outcome _).mpr ⟨rests, within⟩

theorem yields_calling {body : Program α} (yields : s.Yields h w (depth + 1) body P) :
    s.Yields h w depth (h.calling body) P := by
  intro v rests
  show (Program.step (.enter h.number) >>= _).Ends _ _ _
  rw [Program.ends_step_bind]
  refine ends_ensure (fun u inside => ?_) yields rests.enter
  exact (Program.ends_step_bind (.leave h.number) Program.done u _).mpr ⟨rfl, inside.leave⟩

theorem yields_exclusively {body : Program α} (yields : s.Yields h w 1 body P) :
    s.Yields h w 0 (h.exclusively body) P := by
  intro v rests
  show (Program.step (.claim h.number) >>= _).Ends _ _ _
  rw [Program.ends_step_bind]
  obtain ⟨granted, claimed⟩ := rests.claim
  rw [granted]
  refine ends_ensure (fun u inside => ?_) yields claimed
  exact (Program.ends_step_bind (.release h.number) Program.done u _).mpr ⟨rfl, inside.leave⟩

/-! Queries -/

theorem yields_resolve (name : Value) :
    s.Yields h w depth (h.resolve name) fun found => found.isSome := by
  apply yields_calling
  apply Meets.ask
  rintro _ ⟨c, rfl⟩
  exact rfl

theorem yields_resultClass : s.Yields h w depth h.resultClass fun found => found.isSome := by
  apply Meets.bind (.step fun v rests => rests)
  intro known _
  cases known with
  | some c => exact .done rfl
  | none =>
    apply Meets.bind (yields_handling (yields_resolve _))
    intro found there
    cases found with
    | none => contradiction
    | some c => exact .bind (.step fun v rests => rests.remember _ c) fun _ _ => .done rfl

theorem yields_fetchText {source : Value} {resultClass : Option RemoteObject} {limit : Int}
    (there : resultClass.isSome) :
    s.Yields h w depth (h.fetchText source resultClass (.whole limit))
      fun data => data = Text.upTo limit (s.text (s.result source)) := by
  have fetched : s.Yields h w (depth + 1) (do h.ask (.fetch (← h.ask (.execute source))))
      fun answer => answer = .text (s.text (s.result source)) := by
    refine .bind (P := fun object => object = s.result source) (Meets.ask ?_) ?_
    · rintro _ rfl
      exact rfl
    · rintro _ rfl
      apply Meets.ask
      rintro _ rfl
      exact rfl
  have known : resultClass.isNone = false := by simpa using there
  unfold Handle.fetchText
  rw [known]
  apply Meets.bind (yields_calling fetched)
  rintro _ rfl
  exact .ofExcept (x := .ok _) rfl

theorem yields_fetch (label : String) (source : Value) :
    s.Yields h w 0 (h.fetch label source)
      fun data => data = Text.upTo Handle.maxResultSize (s.text (s.result source)) := by
  apply Meets.bind (.log _)
  intro _ _
  refine .bind (yields_exclusively (P := fun data =>
    data = Text.upTo Handle.maxResultSize (s.text (s.result source))) ?_) ?_
  · apply Meets.bind yields_resultClass
    intro resultClass there
    exact .bind (.log _) fun _ _ => yields_handling (yields_fetchText there)
  · intro data same
    exact .bind (.log _) fun _ _ => .bind (.log _) fun _ _ => .done same

theorem yields_run {label : String} {kind : SnippetKind} {values : List Value} {snippet : Snippet}
    (made : kind.snippet values = .ok snippet) :
    s.Yields h w 0 (h.run label kind values)
      fun data => data = Text.upTo Handle.maxResultSize (s.textOf snippet) := by
  unfold Handle.run
  rw [made]
  exact yields_fetch label _

end WorkingStone

end ImageBrowser
