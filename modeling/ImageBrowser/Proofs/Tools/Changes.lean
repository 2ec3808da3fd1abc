import ImageBrowser.Proofs.Cache.Requests
import ImageBrowser.Proofs.Calls.WholeCalls
import ImageBrowser.Proofs.Sessions.Channels
import ImageBrowser.Proofs.Tools.Permissions

/-!
What a tool does to the shared state that changes the image or controls the transaction. Each of
them tries an operation of the selected session, which leaves all but that session alone, and where
that worked it refreshes the tree, which asks nothing: a change is told after it was made, or not at
all.
-/

namespace ImageBrowser

open Program (Keeps)

def Tool.changes : Tool → Bool
  | .compileMethod | .compileClassDefinition | .setClassComment | .deleteMethod => true
  | .recategorizeMethod | .renameCategory | .deleteClass | .moveClass => true
  | .addDictionary | .moveDictionary | .commit | .begin | .abort => true
  | _ => false

namespace Tools

variable {α : Type} {s : Switches} {t : Tool} {p : Program Response}

/-- A program that tries an operation and then, unless that failed, refreshes the tree. -/
inductive Refreshing : Program Response → Prop
  | refused {r : Response} (failed : r.ok = false) : Refreshing (.done r)
  | raised (f : Fault) : Refreshing (.fail f)
  | tried {α : Type} {body : Handle → Program α} {details : Fields} {answer : α → Fields}
      (calls : ∀ h, (body h).Only Action.isOfCall) :
      Refreshing (answering (inSelected body) Fault.isExpected (failing details) fun a => do
        Tree.refresh
        return .success (answer a))

theorem refreshing_mutation {details : Fields} {body : Handle → Program (Option Value)}
    (calls : ∀ h, (body h).Only Action.isOfCall) : Refreshing (mutation s t details body) := by
  unfold mutation
  split
  · exact .tried calls
  · exact .refused rfl

theorem refreshing_change {details : Fields} {kind : Smalltalk.SnippetKind}
    {label : Handle → String} {values : List Value} :
    Refreshing (mutation s t details (quietly fun h => h.change (label h) kind values)) :=
  refreshing_mutation fun h => .bind (.bind h.run_logical.ofCall fun _ => .done _) fun _ => .done _

theorem refreshing_control {body : Handle → Program Unit}
    (calls : ∀ h, (body h).Only Action.isOfCall) : Refreshing (control body) := .tried calls

theorem refreshing_compileMethod (className source isMeta category environment : Value) :
    Refreshing (compileMethod s className source isMeta category environment) := by
  unfold compileMethod
  split
  · have compiles : Scope.Compiles fun _ _ => True := fun _ _ _ => trivial
    exact .tried fun h => (Handle.logical_compileMethod compiles).ofCall
  · exact .refused rfl

theorem refreshing_moveDictionary (name direction : Value) :
    Refreshing (moveDictionary s name direction) := by
  unfold moveDictionary
  dsimp only
  split
  · exact refreshing_change
  split
  · exact refreshing_change
  · exact .refused rfl

theorem refreshing_run (changes : t.changes) (values : List Value) :
    Refreshing (run s t values) := by
  have transacting {h : Handle} {name : String} {action : Program Unit}
      (stays : h.Stays (fun _ _ => True) .claiming action) :
      (h.transact name action).Only Action.isOfCall := (Handle.logical_transact stays).ofCall
  unfold run
  split
  iterate 15 cases changes
  · exact refreshing_compileMethod _ _ _ _ _
  · exact refreshing_mutation fun h => .bind h.run_logical.ofCall fun _ => .done _
  iterate 7 exact refreshing_change
  · exact refreshing_moveDictionary _ _
  · refine refreshing_mutation fun h => .bind (transacting ?_) fun _ => .done _
    exact Handle.stays_calling (Handle.stays_ask fun _ => trivial)
  iterate 2
    exact refreshing_control fun h =>
      transacting (Handle.stays_calling (Handle.stays_ask fun _ => trivial))
  · exact .raised _

theorem refreshing_call (changes : t.changes) (given : Fields) : Refreshing (call s t given) := by
  unfold call
  cases t.bindArguments given with
  | error f => exact .raised f
  | ok values => exact refreshing_run changes values

theorem does_answering {p : Program α} {handles : Fault → Bool} {answer : Fault → Program Response}
    {next : α → Program Response} {ds : List Doing} {outcome : Except Fault Response}
    (does : (answering p handles answer next).Does ds outcome) :
    ∃ o first rest, ds = first ++ rest ∧ p.Does first o ∧
      ((∃ a, o = .ok a ∧ (next a).Does rest outcome) ∨
        ∃ f, o = .error f ∧ (handles f = true ∧ (answer f).Does rest outcome ∨
          handles f = false ∧ rest = [] ∧ outcome = .error f)) := by
  obtain ⟨o, first, rest, rfl, attempts, goes⟩ | ⟨_, attempts, _⟩ := does.of_bind
  · obtain ⟨_, ⟨⟩, whole⟩ := attempts.of_attempt
    refine ⟨o, first, rest, rfl, whole, ?_⟩
    cases o with
    | ok a => exact .inl ⟨a, rfl, goes⟩
    | error f =>
      refine .inr ⟨f, rfl, ?_⟩
      dsimp only at goes
      split at goes
      · next picked => exact .inl ⟨picked, goes⟩
      · next other =>
        obtain ⟨rfl, rfl⟩ := Program.does_fail.mp goes
        exact .inr ⟨by simpa using other, rfl, rfl⟩
  · obtain ⟨_, ⟨⟩, _⟩ := attempts.of_attempt

theorem Refreshing.of_does (refreshing : Refreshing p) {ds : List Doing} {response : Response}
    (does : p.Does ds (.ok response)) :
    (response.ok = false ∧ ∀ d ∈ ds, d.1.isOfCall) ∨
      (response.ok = true ∧ ∃ work rest, ds = work ++ rest ∧ (∀ d ∈ work, d.1.isOfCall) ∧
        Tree.refresh.Does rest (.ok ())) := by
  cases refreshing with
  | refused failed =>
    obtain ⟨rfl, ⟨⟩⟩ := Program.does_done.mp does
    exact .inl ⟨failed, List.forall_mem_nil _⟩
  | raised f =>
    obtain ⟨_, ⟨⟩⟩ := Program.does_fail.mp does
  | @tried α body details answer calls =>
    have chosen : (inSelected body).Only Action.isOfCall := by
      apply Keeps.bind ?_ calls
      apply Program.only_act rfl
      intro selected
      cases selected with
      | none => exact .fail _
      | some h => exact .done h
    obtain ⟨_, work, rest, rfl, tries, ⟨a, rfl, goes⟩ | ⟨f, rfl, handled⟩⟩ := does_answering does
    · obtain ⟨_, refreshes, last, rfl, refreshed, finished⟩ | ⟨_, _, ⟨⟩⟩ := goes.of_bind
      obtain ⟨rfl, ⟨⟩⟩ := Program.does_done.mp finished
      rw [List.append_nil]
      exact .inr ⟨rfl, work, refreshes, rfl, chosen.does tries, refreshed⟩
    · obtain ⟨_, answers⟩ | ⟨_, _, ⟨⟩⟩ := handled
      obtain ⟨rfl, ⟨⟩⟩ := Program.does_done.mp answers
      rw [List.append_nil]
      exact .inl ⟨rfl, chosen.does tries⟩

end Tools

theorem does_tellAll {ls : List Nat} {m : Message} {ds : List Doing}
    (does : (tellAll (fun l => Program.tell l m) ls).Does ds (.ok ())) :
    ds = ls.map fun l => ⟨.tell l m, .ok ()⟩ := by
  induction ls generalizing ds with
  | nil => exact (Program.does_done.mp does).1
  | cons l ls ih =>
    obtain ⟨_, first, rest, rfl, tells, goes⟩ | ⟨_, _, ⟨⟩⟩ := does.of_bind
    obtain ⟨r, _, rfl, finished⟩ := Program.does_act.mp tells
    obtain ⟨rfl, rfl⟩ := Program.does_ofExcept.mp finished
    rw [ih goes]
    rfl

theorem Tree.does_refresh {ds : List Doing} (does : refresh.Does ds (.ok ())) :
    ∃ n listeners, ds =
      [⟨.step .clearCache, ()⟩, ⟨.step .epoch, n⟩, ⟨.log (.cacheCleared n), ()⟩,
        ⟨.step .beginTreeNotice, listeners⟩] ++
      (listeners.map fun l => ⟨.tell l .treeChanged, .ok ()⟩) ++
      [⟨.step (.endTreeNotice listeners), ()⟩] := by
  rw [Channel.refresh_eq_notify] at does
  obtain ⟨opened, listeners, told, rfl, clears, tells⟩ := Channel.parts_of_notify does
  obtain ⟨⟨⟩, _, rfl, rest₁⟩ := Program.does_act.mp clears
  obtain ⟨n, _, rfl, rest₂⟩ := Program.does_act.mp rest₁
  obtain ⟨⟨⟩, _, rfl, rest₃⟩ := Program.does_act.mp rest₂
  obtain ⟨rfl, _⟩ := Program.does_done.mp rest₃
  rw [does_tellAll tells]
  exact ⟨n, listeners, rfl⟩

def tellings (ds : List Doing) : List (Nat × Message) :=
  ds.filterMap fun
    | ⟨.tell n m, _⟩ => some (n, m)
    | _ => none

theorem tellings_append (ds ds' : List Doing) :
    tellings (ds ++ ds') = tellings ds ++ tellings ds' := List.filterMap_append

theorem tellings_map (ls : List Nat) (m : Message) :
    tellings (ls.map fun l => ⟨.tell l m, .ok ()⟩) = ls.map fun l => (l, m) := by
  induction ls with
  | nil => rfl
  | cons l ls ih => exact congrArg ((l, m) :: ·) ih

theorem tellings_of_calls {ds : List Doing} (calls : ∀ d ∈ ds, d.1.isOfCall) :
    tellings ds = [] := by
  refine List.filterMap_eq_nil_iff.mpr ?_
  rintro ⟨a, r⟩ mem
  have call := calls _ mem
  cases a with
  | tell n m => cases call
  | _ => rfl

namespace Leads

variable {w v : World} {ds : List Doing}

theorem of_refresh (leads : Leads w ds v) (does : Tree.refresh.Does ds (.ok ())) :
    v.cache = w.cache.clear ∧ v.selection = w.selection ∧
      tellings ds = w.treeListeners.alive.map fun l => (l, .treeChanged) := by
  obtain ⟨n, listeners, rfl⟩ := Tree.does_refresh does
  cases leads with | cons cleared leads
  cases leads with | cons seen leads
  cases leads with | cons logged leads
  cases leads with | cons begun leads
  cases cleared
  cases seen
  cases logged
  cases begun
  have kept := leads.keeps (fun u => (u.cache, u.selection)) fun d mem u => by
    obtain told | ended := List.mem_append.mp mem
    · obtain ⟨l, _, rfl⟩ := List.mem_map.mp told
      rfl
    · cases List.mem_singleton.mp ended
      rfl
  obtain ⟨cache, selection⟩ := Prod.mk.inj kept
  refine ⟨cache, selection, ?_⟩
  rw [tellings_append, tellings_append, tellings_map]
  exact List.append_nil _

end Leads

namespace Tools

/-- All the cached entries and fetches are dropped, once, and then all listeners are told, when
nothing is asked any more. -/
structure Refreshed (w v : World) (ds : List Doing) : Prop where
  epoch : v.cache.epoch = w.cache.epoch + 1
  stored : v.cache.stored = .empty
  inFlight : v.cache.inFlight = .empty
  order : ∃ work rest, ds = work ++ ⟨.step .clearCache, ()⟩ :: rest ∧ tellings work = [] ∧
    (∀ d ∈ rest, ¬ d.1.isRemote) ∧
    tellings rest = w.treeListeners.alive.map fun l => (l, .treeChanged)

structure Untouched (w v : World) (ds : List Doing) : Prop where
  cache : v.cache = w.cache
  selection : v.selection = w.selection
  silent : tellings ds = []

theorem isOfCall_ne_clearCache {ds : List Doing} (calls : ∀ d ∈ ds, d.1.isOfCall) :
    ⟨.step .clearCache, ()⟩ ∉ ds := fun mem => by cases calls _ mem

theorem exists_rest_of_refresh {ds : List Doing} (does : Tree.refresh.Does ds (.ok ())) :
    ∃ rest, ds = ⟨.step .clearCache, ()⟩ :: rest ∧ ⟨.step .clearCache, ()⟩ ∉ rest ∧
      ∀ d ∈ rest, ¬ d.1.isRemote := by
  obtain ⟨n, listeners, rfl⟩ := Tree.does_refresh does
  refine ⟨_, rfl, by simp, fun d mem => ?_⟩
  simpa using Tree.aside_refresh.offline.does does d (List.mem_cons_of_mem _ mem)

theorem effects_of_call {s : Switches} {t : Tool} {given : Fields} {ds : List Doing}
    {response : Response} {w v : World} (changes : t.changes)
    (does : (call s t given).Does ds (.ok response)) (leads : Leads w ds v) :
    (response.ok = true → Refreshed w v ds) ∧ (response.ok = false → Untouched w v ds) := by
  obtain ⟨failed, calls⟩ | ⟨worked, work, rest, rfl, calls, refreshes⟩ :=
    (refreshing_call changes given).of_does does
  · obtain ⟨cache, selection, _⟩ := leads.of_calls calls
    refine ⟨fun worked => ?_, fun _ => ⟨cache, selection, tellings_of_calls calls⟩⟩
    rw [failed] at worked
    cases worked
  · obtain ⟨u, first, last⟩ := leads.of_append
    obtain ⟨cache, _, listeners⟩ := first.of_calls calls
    obtain ⟨cleared, _, told⟩ := last.of_refresh refreshes
    rw [cache] at cleared
    obtain ⟨rest, rfl, _, near⟩ := exists_rest_of_refresh refreshes
    rw [listeners] at told
    refine ⟨fun _ => ?_, fun failed => ?_⟩
    · exact ⟨congrArg Cache.epoch cleared, congrArg Cache.stored cleared,
        congrArg Cache.inFlight cleared, work, rest, rfl, tellings_of_calls calls, near, told⟩
    · rw [worked] at failed
      cases failed

end Tools

end ImageBrowser
