import ImageBrowser.Proofs.Calls.WholeCalls

/-!
How a query comes by the class that its text is answered in. The class is known for its handle, or
the stone is asked for it once; what is executed is executed with it, and where there is none nothing
is executed or remembered.
-/

namespace ImageBrowser

open Program (Does Keeps)

namespace Program

variable {α β : Type} {ds : List Doing}

theorem Does.exchange {p q : Program α} {f g : α → Program β} {o : Except Fault β}
    (does : (p >>= f).Does ds o)
    (first : ∀ before rest o', ds = before ++ rest → p.Does before o' → q.Does before o')
    (next : ∀ before rest a, ds = before ++ rest → p.Does before (.ok a) → (f a).Does rest o →
      (g a).Does rest o) : (q >>= g).Does ds o := by
  obtain ⟨a, before, rest, rfl, ends, goes⟩ | ⟨e, fails, rfl⟩ := does.of_bind
  · exact (first _ _ _ rfl ends).bind (next _ _ _ rfl ends goes)
  · exact (first _ [] _ (List.append_nil _).symm fails).bind_error

theorem Does.exchange_ensured {p q : Program α} {cleanup : Program Unit} {o : Except Fault α}
    (does : (p.ensure cleanup).Does ds o)
    (same : ∀ before rest o', ds = before ++ rest → p.Does before o' → q.Does before o') :
    (q.ensure cleanup).Does ds o := by
  refine Does.exchange does ?_ fun _ _ _ _ _ goes => goes
  intro before rest o' split attempts
  obtain ⟨o', rfl, ends⟩ := attempts.of_attempt
  exact (same _ _ _ split ends).attempt

end Program

/-! What is asked of the stone -/

def resolution? : Doing → Option (Except Fault (Option RemoteObject))
  | ⟨.ask _ (.resolve name), found⟩ =>
    if name = .text Handle.resultClassName then some found else none
  | _ => none

def execution? : Doing → Option Value
  | ⟨.ask _ (.execute source), _⟩ => some source
  | _ => none

def resolutionsIn (ds : List Doing) : List (Except Fault (Option RemoteObject)) :=
  ds.filterMap resolution?

def executionsIn (ds : List Doing) : List Value := ds.filterMap execution?

theorem resolutionsIn_append (ds ds' : List Doing) :
    resolutionsIn (ds ++ ds') = resolutionsIn ds ++ resolutionsIn ds' := List.filterMap_append

theorem executionsIn_append (ds ds' : List Doing) :
    executionsIn (ds ++ ds') = executionsIn ds ++ executionsIn ds' := List.filterMap_append

theorem filterMap_callsIn {β : Type} {pick : Doing → Option β}
    (calls : ∀ d, d.1.isRemote = false → pick d = none) (ds : List Doing) :
    (callsIn ds).filterMap pick = ds.filterMap pick := by
  rw [callsIn, List.filterMap_filter]
  congr 1
  funext d
  split
  · rfl
  · next other => exact (calls d (by simpa using other)).symm

theorem resolution?_of_local (d : Doing) (here : d.1.isRemote = false) : resolution? d = none := by
  obtain ⟨a, r⟩ := d
  cases a with
  | ask c q => cases here
  | _ => rfl

theorem execution?_of_local (d : Doing) (here : d.1.isRemote = false) : execution? d = none := by
  obtain ⟨a, r⟩ := d
  cases a with
  | ask c q => cases here
  | _ => rfl

theorem resolutionsIn_eq (ds : List Doing) : resolutionsIn ds = resolutionsIn (callsIn ds) :=
  (filterMap_callsIn resolution?_of_local ds).symm

theorem executionsIn_eq (ds : List Doing) : executionsIn ds = executionsIn (callsIn ds) :=
  (filterMap_callsIn execution?_of_local ds).symm

/-! What is remembered -/

def Action.keepsClasses : Action → Bool
  | .step (.rememberResultClass _ _) => false
  | _ => true

def Action.isOfExecution : Action → Bool
  | .step (.enter _) | .step (.leave _) | .step (.release _) => true
  | .ask _ (.execute _) | .ask _ (.fetch _) | .log _ => true
  | _ => false

/-- What is known of result classes after the stone was asked for that of a handle. -/
def remembering (number : Nat) (known : Table Nat RemoteObject) :
    Except Fault (Option RemoteObject) → Table Nat RemoteObject
  | .ok (some c) => known.insert number c
  | _ => known

theorem remembering_of_nothing {number : Nat} {known : Table Nat RemoteObject}
    {found : Except Fault (Option RemoteObject)} (nothing : ∀ c, found ≠ .ok (some c)) :
    remembering number known found = known := by
  obtain f | _ | c := found
  · rfl
  · rfl
  · exact absurd rfl (nothing c)

theorem Leads.resultClasses_eq {w v : World} {ds : List Doing} (leads : Leads w ds v)
    (kept : ∀ d ∈ ds, d.1.keepsClasses) : v.resultClasses = w.resultClasses :=
  leads.keeps (·.resultClasses) fun d mem u => by
    obtain ⟨a, r⟩ := d
    have keeps := kept _ mem
    cases a with
    | step t => cases t <;> first | rfl | cases keeps
    | _ => rfl

theorem Action.keepsClasses_of_isOfExecution {a : Action} (executes : a.isOfExecution) :
    a.keepsClasses := by
  cases a with
  | step t => cases t <;> first | rfl | cases executes
  | _ => rfl

theorem resolutionsIn_of_execution {ds : List Doing} (executes : ∀ d ∈ ds, d.1.isOfExecution) :
    resolutionsIn ds = [] := by
  refine List.filterMap_eq_nil_iff.mpr fun d mem => ?_
  obtain ⟨a, r⟩ := d
  have execution := executes _ mem
  cases a with
  | ask c q => cases q <;> first | rfl | cases execution
  | _ => rfl

namespace Handle

variable {h : Handle} {sort : Action → Bool} {α : Type} {ds : List Doing} {w v : World}

def unresolvedMessage : String := "Cannot resolve " ++ resultClassName ++ " class"

theorem only_resolution :
    (h.remoteStep unresolvedMessage (h.resolve (.text resultClassName))).Only
      Action.keepsClasses :=
  .handling (only_calling rfl rfl (only_ask rfl)) fun _ => only_failedCall fun _ => rfl

theorem does_resultClass {o : Except Fault (Option RemoteObject)}
    (does : h.resultClass.Does ds o) (leads : Leads w ds v) :
    (∃ c, w.resultClasses.find? h.number = some c ∧ o = .ok (some c) ∧ callsIn ds = [] ∧
        v.resultClasses = w.resultClasses) ∨
      w.resultClasses.find? h.number = none ∧ ∃ found,
        callsIn ds = [⟨.ask h.connection (.resolve (.text resultClassName)), found⟩] ∧
        o = found.mapError (Fault.inStep unresolvedMessage) ∧
        v.resultClasses = remembering h.number w.resultClasses found := by
  obtain ⟨known, rest, rfl, goes⟩ := Program.does_step_bind.mp does
  obtain ⟨looked, later⟩ := leads.of_step
  replace later : Leads w rest v := later
  cases known with
  | some c =>
    obtain ⟨rfl, rfl⟩ := Program.does_done.mp goes
    cases later
    exact .inl ⟨c, looked.symm, rfl, rfl, rfl⟩
  | none =>
    refine .inr ⟨looked.symm, ?_⟩
    obtain ⟨found, first, last, rfl, asks, remembers⟩ | ⟨e, asks, rfl⟩ := Does.of_bind goes
    · obtain ⟨inner, answer, resolves, same, came⟩ := does_remoteStep asks
      obtain ⟨u, before, after⟩ := later.of_append
      have kept := before.resultClasses_eq (only_resolution.does asks)
      cases answer with
      | error f => cases came
      | ok found =>
        cases came
        have calls : callsIn first = _ := same.trans (does_request resolves)
        cases found with
        | none =>
          obtain ⟨rfl, rfl⟩ := Program.does_done.mp remembers
          cases after
          refine ⟨.ok none, ?_, rfl, kept⟩
          rw [List.append_nil]
          exact calls
        | some c =>
          obtain ⟨_, _, rfl, finished⟩ := Program.does_step_bind.mp remembers
          obtain ⟨rfl, rfl⟩ := Program.does_done.mp finished
          obtain ⟨-, ⟨⟩⟩ := after.of_step
          refine ⟨.ok (some c), ?_, rfl, congrArg (·.insert h.number c) kept⟩
          exact (callsIn_append first _).trans (by rw [calls]; rfl)
    · obtain ⟨inner, answer, resolves, same, came⟩ := does_remoteStep asks
      cases answer with
      | ok found => cases came
      | error f =>
        cases came
        exact ⟨.error f, same.trans (does_request resolves), rfl,
          later.resultClasses_eq (only_resolution.does asks)⟩

/-! A query, with what it executes as a parameter -/

def fetchingText (h : Handle) (execute : Option RemoteObject → Program String) (code : Value)
    (found : Option RemoteObject) : Program String := do
  Program.log (.called h.sessionId "execute_fetch_string"
    [("source", code.quoted), ("result_class", printedObject found),
      ("max_result_size", Text.ofInt maxResultSize)])
  (execute found).handling Fault.isFromStone fun f => do
    Program.log (.returned h.sessionId "execute_fetch_string" (failureFields f))
    h.failedCall ("GCI error " ++ f.stoneNumber.shown) f

def answering (h : Handle) (data : String) : Program String := do
  Program.log (.returned h.sessionId "execute_fetch_string"
    [("bytes_returned", Text.ofInt data.length), ("data", Text.quoted data)])
  Program.log (.result h.sessionId data)
  return data

def fetchBy (h : Handle) (execute : Option RemoteObject → Program String) (label : String)
    (code : Value) : Program String := do
  Program.log (.query h.sessionId label code.shown)
  h.answering (← h.exclusively do h.fetchingText execute code (← h.resultClass))

def executed (h : Handle) (code : Value) (found : Option RemoteObject) : Program String :=
  h.fetchText code found (.whole maxResultSize)

theorem fetch_eq_fetchBy (label : String) (code : Value) :
    h.fetch label code = h.fetchBy (h.executed code) label code := rfl

def opening (h : Handle) (label : String) (code : Value) (granted : Bool) : List Doing :=
  [⟨.log (.query h.sessionId label code.shown), ()⟩, ⟨.step (.claim h.number), granted⟩]

variable {execute execute' : Option RemoteObject → Program String} {label : String} {code : Value}
  {o : Except Fault String}

theorem only_fetchingText {found : Option RemoteObject} (logs : ∀ e, sort (.log e))
    (only : (execute found).Only sort) : (h.fetchingText execute code found).Only sort :=
  .bind (Program.only_act (logs _) .done) fun _ =>
    .handling only fun _ => .bind (Program.only_act (logs _) .done) fun _ =>
      only_failedCall fun _ => logs _

theorem only_executed {found : Option RemoteObject} :
    (h.executed code found).Only Action.isOfExecution := only_fetchText rfl rfl rfl fun _ => rfl

theorem only_answering {data : String} : (h.answering data).Only Action.isOfExecution :=
  .bind (Program.only_act rfl .done) fun _ => .bind (Program.only_act rfl .done) fun _ => .done _

/-- How a query goes on with what was found of its class. -/
inductive Proceeds (h : Handle) (execute : Option RemoteObject → Program String) (code : Value) :
    Except Fault (Option RemoteObject) → List Doing → Except Fault String → Prop
  | stopped {f : Fault} :
      Proceeds h execute code (.error f) [⟨.step (.release h.number), ()⟩] (.error f)
  | failed {c : Option RemoteObject} {working : List Doing} {f : Fault}
      (executes : (h.fetchingText execute code c).Does working (.error f)) :
      Proceeds h execute code (.ok c) (working ++ [⟨.step (.release h.number), ()⟩]) (.error f)
  | answered {c : Option RemoteObject} {working last : List Doing} {data : String}
      {o : Except Fault String} (executes : (h.fetchingText execute code c).Does working (.ok data))
      (answers : (h.answering data).Does last o) :
      Proceeds h execute code (.ok c) (working ++ ⟨.step (.release h.number), ()⟩ :: last) o

/-- A query is refused, or it looks for the class and goes on with what it finds. -/
theorem does_fetchBy (does : (h.fetchBy execute label code).Does ds o) :
    (∃ entry, ds = h.opening label code false ++ [⟨.log entry, ()⟩]) ∨
      ∃ looking found rest, ds = h.opening label code true ++ (looking ++ rest) ∧
        h.resultClass.Does looking found ∧ h.Proceeds execute code found rest o := by
  obtain ⟨_, ds, rfl, goes⟩ := Program.does_act.mp does
  replace goes : (h.exclusively (h.resultClass >>= h.fetchingText execute code) >>=
    h.answering).Does ds o := goes
  obtain ⟨data, first, last, rfl, fetches, answers⟩ | ⟨e, fails, rfl⟩ := Does.of_bind goes
  · obtain ⟨_, _, ⟨⟩⟩ | ⟨inner, rfl, works⟩ := parts_of_exclusively fetches
    obtain ⟨c, looking, working, rfl, looks, executes⟩ | ⟨_, _, ⟨⟩⟩ := Does.of_bind works
    exact .inr ⟨looking, .ok c, _, by simp [opening], looks, .answered executes answers⟩
  · obtain ⟨entry, rfl, _⟩ | ⟨inner, rfl, works⟩ := parts_of_exclusively fails
    · exact .inl ⟨entry, rfl⟩
    obtain ⟨c, looking, working, rfl, looks, executes⟩ | ⟨_, looks, same⟩ := Does.of_bind works
    · exact .inr ⟨looking, .ok c, _, by simp [opening], looks, .failed executes⟩
    · cases same
      exact .inr ⟨inner, .error e, _, rfl, looks, .stopped⟩

/-- It makes no difference what would be executed with a class that is not found. -/
theorem does_fetchBy_of_same (does : (h.fetchBy execute label code).Does ds o)
    (same : ∀ looking rest c, ds = h.opening label code true ++ (looking ++ rest) →
      h.resultClass.Does looking (.ok c) → execute c = execute' c) :
    (h.fetchBy execute' label code).Does ds o := by
  obtain ⟨_, ds, rfl, goes⟩ := Program.does_act.mp does
  replace goes : (h.exclusively (h.resultClass >>= h.fetchingText execute code) >>=
    h.answering).Does ds o := goes
  suffices next : (h.exclusively (h.resultClass >>= h.fetchingText execute' code) >>=
      h.answering).Does ds o from .act next
  refine Does.exchange goes ?_ fun _ _ _ _ _ answers => answers
  intro first last answer split fetches
  obtain ⟨granted, rest, rfl, works⟩ := Program.does_step_bind.mp fetches
  cases granted with
  | false => exact .act works
  | true =>
    refine .act (Does.exchange_ensured works ?_)
    intro working finishing result split' works
    refine Does.exchange works (fun _ _ _ _ looks => looks) ?_
    intro looking executing c split'' looks executes
    subst split split' split''
    have agree : execute c = execute' c :=
      same looking (executing ++ finishing ++ last) c (by simp [opening]) looks
    show (h.fetchingText execute' code c).Does executing result
    unfold Handle.fetchingText at executes ⊢
    rwa [← agree]

theorem does_fetchingText_none (does : (h.fetchingText (h.executed code) code none).Does ds o) :
    callsIn ds = [] ∧
      o = .error (.refused (.queryFailed Misuse.noResultClass.message (.whole 0))) := by
  obtain ⟨rest, goes, same⟩ := Program.does_log_bind does
  rw [same]
  obtain ⟨_, fails, _⟩ | ⟨f, first, last, rfl, fails, ⟨_, handled⟩ | ⟨other, _⟩⟩ := goes.of_handling
  · obtain ⟨_, ⟨⟩⟩ := Program.does_fail.mp fails
  · obtain ⟨rfl, ⟨⟩⟩ := Program.does_fail.mp fails
    obtain ⟨rest, refuses, same⟩ := Program.does_log_bind handled
    rw [List.nil_append, same]
    exact does_failedCall rfl refuses
  · obtain ⟨rfl, ⟨⟩⟩ := Program.does_fail.mp fails
    cases other

def unresolved : Except Fault (Option RemoteObject) → Fault
  | .error f => f.inStep unresolvedMessage
  | .ok _ => .refused (.queryFailed Misuse.noResultClass.message (.whole 0))

namespace Proceeds

variable {found answer : Except Fault (Option RemoteObject)} {rest : List Doing}

theorem isOfExecution (proceeds : h.Proceeds (h.executed code) code found rest o) :
    ∀ d ∈ rest, d.1.isOfExecution := by
  have executing {c : Option RemoteObject} :
      (h.fetchingText (h.executed code) code c).Only Action.isOfExecution :=
    only_fetchingText (fun _ => rfl) only_executed
  cases proceeds with
  | stopped => simp [Action.isOfExecution]
  | failed executes =>
    exact List.forall_mem_append.mpr ⟨executing.does executes, by simp [Action.isOfExecution]⟩
  | answered executes answers =>
    exact List.forall_mem_append.mpr ⟨executing.does executes,
      List.forall_mem_cons.mpr ⟨rfl, only_answering.does answers⟩⟩

theorem of_unresolved (nothing : ∀ c, answer ≠ .ok (some c))
    (proceeds : h.Proceeds (h.executed code) code
      (answer.mapError (Fault.inStep unresolvedMessage)) rest o) :
    callsIn rest = [] ∧ o = .error (unresolved answer) := by
  obtain f | _ | c := answer
  · cases proceeds
    exact ⟨rfl, rfl⟩
  · cases proceeds with
    | failed executes =>
      obtain ⟨quiet, same⟩ := does_fetchingText_none executes
      cases same
      rw [callsIn_append, quiet]
      exact ⟨rfl, rfl⟩
    | answered executes _ => cases (does_fetchingText_none executes).2
  · exact absurd rfl (nothing c)

end Proceeds

end Handle

structure Query where
  handle : Handle
  label : String
  code : Value
  done : List Doing
  outcome : Except Fault String

namespace Query

def resolutions (q : Query) : List (Except Fault (Option RemoteObject)) := resolutionsIn q.done

def executions (q : Query) : List Value := executionsIn q.done

def Goes (q : Query) (w v : World) : Prop :=
  (q.handle.fetch q.label q.code).Does q.done q.outcome ∧ Leads w q.done v

/-- All that is executed is executed with the class: whatever would be done with another one, or
without any, all is done as it was. -/
def ExecutesWith (q : Query) (c : RemoteObject) : Prop :=
  ∀ other : Option RemoteObject → Program String,
    (q.handle.fetchBy (fun found =>
      if found = some c then q.handle.executed q.code found else other found) q.label q.code).Does
      q.done q.outcome

end Query

/-- What a query does by what is known of its handle, and what is known of all handles then. -/
inductive Query.Looks (w : World) (q : Query) : Table Nat RemoteObject → Prop
  | refused (busy : 0 < w.depth q.handle.number) (resolutions : q.resolutions = [])
      (uses : ∀ c, q.ExecutesWith c) : Looks w q w.resultClasses
  | known {c : RemoteObject} (known : w.resultClasses.find? q.handle.number = some c)
      (resolutions : q.resolutions = []) (uses : q.ExecutesWith c) :
      Looks w q w.resultClasses
  | found {c : RemoteObject} (unknown : w.resultClasses.find? q.handle.number = none)
      (resolutions : q.resolutions = [.ok (some c)]) (uses : q.ExecutesWith c) :
      Looks w q (w.resultClasses.insert q.handle.number c)
  | unresolved {answer : Except Fault (Option RemoteObject)}
      (free : ¬ 0 < w.depth q.handle.number)
      (unknown : w.resultClasses.find? q.handle.number = none)
      (nothing : ∀ c, answer ≠ .ok (some c)) (resolutions : q.resolutions = [answer])
      (executions : q.executions = []) (outcome : q.outcome = .error (Handle.unresolved answer)) :
      Looks w q w.resultClasses

namespace Query

variable {q : Query} {w v : World}

theorem executesWith_of_looks {c : RemoteObject} {looking rest : List Doing}
    (does : (q.handle.fetch q.label q.code).Does q.done q.outcome)
    (split : q.done = q.handle.opening q.label q.code true ++ (looking ++ rest))
    (looks : q.handle.resultClass.Does looking (.ok (some c))) : q.ExecutesWith c := by
  refine fun other => Handle.does_fetchBy_of_same does fun looking' rest' found split' looks' => ?_
  have fronts : looking ++ rest = looking' ++ rest' :=
    List.append_cancel_left (split.symm.trans split')
  obtain ⟨_, same, _⟩ := looks.front_unique looks' fronts
  cases same
  exact (if_pos rfl).symm

theorem looks_of_refused {entry : LogEntry} (goes : q.Goes w v)
    (split : q.done = q.handle.opening q.label q.code false ++ [⟨.log entry, ()⟩]) :
    q.Looks w v.resultClasses := by
  obtain ⟨does, leads⟩ := goes
  have quiet : q.resolutions = [] := by
    rw [resolutions, split]
    rfl
  have kept : v.resultClasses = w.resultClasses := leads.resultClasses_eq (by
    rw [split]
    simp [Handle.opening, Action.keepsClasses])
  have busy : 0 < w.depth q.handle.number := by
    by_contra free
    rw [split] at leads
    obtain ⟨granted, _⟩ := leads.of_log.of_step
    rw [World.step_claim_of_free free] at granted
    cases granted
  rw [kept]
  refine .refused busy quiet fun c other => Handle.does_fetchBy_of_same does ?_
  intro looking rest found split' _
  rw [split] at split'
  cases split'

theorem looks_of_goes (goes : q.Goes w v) : q.Looks w v.resultClasses := by
  have fetches := goes.1
  rw [Handle.fetch_eq_fetchBy] at fetches
  obtain ⟨entry, split⟩ | ⟨looking, found, rest, split, looks, proceeds⟩ :=
    Handle.does_fetchBy fetches
  · exact looks_of_refused goes split
  obtain ⟨does, leads⟩ := goes
  rw [split] at leads
  obtain ⟨granted, leads⟩ := leads.of_log.of_step
  have free : ¬ 0 < w.depth q.handle.number := fun busy => by
    rw [World.step_claim_of_busy busy] at granted
    cases granted
  rw [World.step_claim_of_free free] at leads
  change Leads _ (looking ++ rest) v at leads
  obtain ⟨u, first, last⟩ := leads.of_append
  have kept : v.resultClasses = u.resultClasses :=
    last.resultClasses_eq fun d mem =>
      Action.keepsClasses_of_isOfExecution (proceeds.isOfExecution d mem)
  have asked : q.resolutions = resolutionsIn (callsIn looking) := by
    rw [resolutions, split, resolutionsIn_append, resolutionsIn_append,
      resolutionsIn_of_execution proceeds.isOfExecution, List.append_nil, ← resolutionsIn_eq]
    rfl
  obtain ⟨c, known, rfl, calls, same⟩ | ⟨unknown, answer, calls, rfl, same⟩ :=
    Handle.does_resultClass looks first
  · rw [kept, same]
    exact .known known (by rw [asked, calls]; rfl) (executesWith_of_looks does split looks)
  · rw [kept, same]
    have once : q.resolutions = [answer] := by
      rw [asked, calls]
      simp [resolutionsIn, resolution?]
    by_cases found : ∃ c, answer = .ok (some c)
    · obtain ⟨c, rfl⟩ := found
      exact .found unknown once (executesWith_of_looks does split looks)
    · have nothing : ∀ c, answer ≠ .ok (some c) := fun c same => found ⟨c, same⟩
      obtain ⟨quiet, outcome⟩ := proceeds.of_unresolved nothing
      have unexecuted : q.executions = [] := by
        rw [executions, split, executionsIn_append, executionsIn_append, executionsIn_eq looking,
          calls, executionsIn_eq rest, quiet]
        rfl
      rw [remembering_of_nothing nothing]
      exact .unresolved free unknown nothing once unexecuted outcome

theorem logical (q : Query) :
    q.handle.Logical (fun _ _ => True) (q.handle.fetch q.label q.code) :=
  Handle.logical_fetch ⟨fun _ => trivial, fun _ => trivial, fun _ => trivial⟩

theorem depth_of_goes (goes : q.Goes w v) : v.depth q.handle.number = w.depth q.handle.number :=
  Handle.depth_of_logical q.logical goes.1 goes.2

end Query

end ImageBrowser
