import ImageBrowser.Proofs.Calls.WholeCalls
import ImageBrowser.Proofs.Tree.Visits

/-!
The expansion of a node as a plan. A dictionary and a side and a category of a class have their
children listed from an entry of the cache: the plan says under which key it is cached, which query
it is fetched with, how it is read of the answer and how the children are listed from it. To expand
such a node is to make its plan and to carry it out.
-/

namespace ImageBrowser

namespace Program

variable {α β : Type}

theorem id_map' (p : Program α) : id <$> p = p := by
  induction p with
  | done | fail => rfl
  | act a k ih => exact congrArg (act a) (funext ih)

theorem bind_assoc' {γ : Type} (p : Program α) (f : α → Program β) (g : β → Program γ) :
    p >>= f >>= g = p >>= fun a => f a >>= g := by
  induction p with
  | done | fail => rfl
  | act a k ih => exact congrArg (act a) (funext ih)

instance : LawfulMonad Program := .mk' Program id_map' (fun _ _ => rfl) bind_assoc'

theorem ofExcept_map (x : Except Fault α) (f : α → β) :
    ofExcept (f <$> x) = (do return f (← ofExcept x)) := by
  cases x <;> rfl

end Program

namespace Tree

structure Plan where
  key : CacheKey
  label : String
  kind : Smalltalk.SnippetKind
  values : List Value
  read : String → Except Fault CacheEntry
  list : CacheEntry → Except Fault (List Node)

namespace Plan

def query (p : Plan) (h : Handle) : Program String := h.run p.label p.kind p.values

def fetch (p : Plan) (h : Handle) : Program CacheEntry := do
  Program.ofExcept (p.read (← p.query h))

def carryOut (p : Plan) (h : Handle) : Program (List Node) := do
  Program.ofExcept (p.list (← entry p.key (p.fetch h)))

def ofDictionary (path : DictionaryPath) : Except Fault Plan := do
  let key ← CacheKey.ofDictionary path.sessionId path.index
  return {
    key := key
    label := "dictionary_entries(dictionary_index: " ++ path.index.shown ++ ")"
    kind := .dictionaryEntries
    values := [path.index]
    read := fun data => CacheEntry.classCategories <$>
      ClassCategories.ofBindings ((dictionaryEntriesIn data).map DictionaryEntry.binding)
    list := fun e => categoryRows e.asClassCategories path }

def ofClass (path : ClassPath) (list : Environments → Except Fault (List Node)) (limit : Nat) :
    Except Fault Plan := do
  let index := path.dictionary.index
  let key ← CacheKey.ofClass path.dictionary.sessionId index path.className (.whole limit)
  return {
    key := key
    label := "class_environments(" ++ path.className.shown ++ ", " ++
      (Value.whole limit).shown ++ ")"
    kind := .classEnvironments
    values := [index, path.className, .whole limit]
    read := fun data => CacheEntry.environments <$>
      Environments.ofListings ((classEnvironmentsIn data).map EnvironmentCategory.listing)
    list := fun e => list e.asEnvironments }

end Plan

def sideRows (path : SidePath) (e : Environments) : Except Fault (List Node) := do
  let names ← e.categoryNames path.isMeta path.environment
  return (.text allRow :: names).map (Node.category path)

def methodRows (path : SidePath) (row : Value) (e : Environments) : Except Fault (List Node) := do
  let found ← methodsIn e path row
  return found.map fun m => .method path m.2 m.1

def underLimit (make : Nat → Except Fault Plan) : Program Plan := do
  Program.ofExcept (make (← limit))

/-- How the plan for a node is made, if the children of its kind are listed of an entry. -/
def planning : Node → Option (Program Plan)
  | .dictionary path => some (Program.ofExcept (Plan.ofDictionary path))
  | .side path => some (underLimit (Plan.ofClass path.cls (sideRows path)))
  | .category path row => some (underLimit (Plan.ofClass path.cls (methodRows path row)))
  | _ => none

variable {h : Handle} {node : Node} {make : Program Plan}

theorem childrenOf_dictionary (path : DictionaryPath) :
    childrenOf h (some (.dictionary path)) = (do
      let p ← Program.ofExcept (Plan.ofDictionary path)
      p.carryOut h) := by
  show classCategories h path = _
  rw [classCategories_eq, classCategoriesEntry, Plan.ofDictionary]
  cases CacheKey.ofDictionary path.sessionId path.index with
  | error f => rfl
  | ok k =>
    show ((entry k _ >>= _) >>= _) = (entry k (Plan.fetch _ h) >>= _)
    simp only [Handle.bindings, Handle.dictionaryEntries, Plan.fetch, Plan.query, bind_assoc,
      pure_bind, Program.ofExcept_map]

theorem environments_eq (path : ClassPath) (list : Environments → Except Fault (List Node)) :
    (do Program.ofExcept (list (← environments h path))) = (do
      let p ← underLimit (Plan.ofClass path list)
      p.carryOut h) := by
  simp only [environments, environmentsEntry, underLimit, bind_assoc]
  refine congrArg (limit >>= ·) (funext fun limit => ?_)
  rw [Plan.ofClass]
  cases CacheKey.ofClass path.dictionary.sessionId path.dictionary.index path.className
    (.whole limit) with
  | error f => rfl
  | ok k =>
    show (entry k _ >>= _) = (entry k (Plan.fetch _ h) >>= _)
    simp only [Handle.classEnvironments, Plan.fetch, Plan.query, bind_assoc, pure_bind,
      Program.ofExcept_map]

theorem childrenOf_of_planning (plans : planning node = some make) :
    childrenOf h (some node) = (do
      let p ← make
      p.carryOut h) := by
  cases node with
  | dictionary path =>
    cases plans
    exact childrenOf_dictionary path
  | side path =>
    cases plans
    refine Eq.trans ?_ (environments_eq path.cls (sideRows path))
    refine congrArg (environments h path.cls >>= ·) (funext fun e => ?_)
    exact (Program.ofExcept_map _ _).symm
  | category path row =>
    cases plans
    refine Eq.trans ?_ (environments_eq path.cls (methodRows path row))
    refine congrArg (environments h path.cls >>= ·) (funext fun e => ?_)
    exact (Program.ofExcept_map _ _).symm
  | _ => cases plans

/-! What is done for an expansion -/

variable {ds : List Doing}

/-- An entry is found, or somebody else's fetch is waited for, or it is fetched, and then the cache
is told of the outcome before anybody else. -/
theorem does_entry {k : CacheKey} {fetch : Program CacheEntry} {outcome : Except Fault CacheEntry}
    (does : (entry k fetch).Does ds outcome) :
    (∃ e, outcome = .ok e ∧ ds = [⟨.step (.request k), .found e⟩]) ∨
      (∃ ticket, ds = [⟨.step (.request k), .joined ticket⟩, ⟨.wait ticket, outcome⟩]) ∨
      ∃ ticket work, fetch.Does work outcome ∧
        ds = ⟨.step (.request k), .owned ticket⟩ :: (work ++
          [⟨.step (.settle k ticket outcome), ()⟩, ⟨.step (.publish ticket outcome), ()⟩]) := by
  obtain ⟨looked, rest, rfl, goes⟩ := Program.does_act.mp does
  cases looked with
  | found e =>
    obtain ⟨rfl, rfl⟩ := Program.does_done.mp goes
    exact .inl ⟨e, rfl, rfl⟩
  | joined ticket =>
    obtain ⟨answer, rest, rfl, finished⟩ := Program.does_act.mp goes
    obtain ⟨rfl, rfl⟩ := Program.does_ofExcept.mp finished
    exact .inr (.inl ⟨ticket, rfl⟩)
  | owned ticket =>
    have owns : (fetchAsOwner k ticket fetch).Does rest outcome := goes
    obtain ⟨_, work, rest, rfl, attempts, settles⟩ | ⟨_, attempts, _⟩ := owns.of_bind
    · obtain ⟨_, ⟨⟩, fetches⟩ := attempts.of_attempt
      obtain ⟨_, rest, rfl, publishes⟩ := Program.does_act.mp settles
      obtain ⟨_, rest, rfl, finished⟩ := Program.does_act.mp publishes
      obtain ⟨rfl, rfl⟩ := Program.does_ofExcept.mp finished
      exact .inr (.inr ⟨ticket, work, fetches, rfl⟩)
    · obtain ⟨_, ⟨⟩, _⟩ := attempts.of_attempt

theorem Plan.does_fetch {p : Plan} {outcome : Except Fault CacheEntry}
    (does : (p.fetch h).Does ds outcome) :
    ∃ answer, (p.query h).Does ds answer ∧ outcome = answer.bind p.read := by
  obtain ⟨data, first, rest, rfl, asks, goes⟩ | ⟨f, asks, rfl⟩ := Program.Does.of_bind does
  · obtain ⟨rfl, rfl⟩ := Program.does_ofExcept.mp goes
    rw [List.append_nil]
    exact ⟨.ok data, asks, rfl⟩
  · exact ⟨.error f, asks, rfl⟩

theorem Plan.does_carryOut {p : Plan} {outcome : Except Fault (List Node)}
    (does : (p.carryOut h).Does ds outcome) :
    ∃ found, (entry p.key (p.fetch h)).Does ds found ∧ outcome = found.bind p.list := by
  obtain ⟨e, first, rest, rfl, enters, goes⟩ | ⟨f, enters, rfl⟩ := Program.Does.of_bind does
  · obtain ⟨rfl, rfl⟩ := Program.does_ofExcept.mp goes
    rw [List.append_nil]
    exact ⟨.ok e, enters, rfl⟩
  · exact ⟨.error f, enters, rfl⟩

def failureNotice (f : Fault) : String := "Browser query failed: " ++ f.message

/-- With no session selected there are no children. What fails below a node otherwise is reported if
it is expected, and then there are none either. -/
theorem does_children {n : Notifier} {node : Option Node} {outcome : Except Fault (List Node)}
    (does : (children n node).Does ds outcome) :
    (outcome = .ok [] ∧ ds = [⟨.step .selectedSession, none⟩]) ∨
      ∃ h work told result, ds = ⟨.step .selectedSession, some h⟩ :: (work ++ told) ∧
        (childrenOf h node).Does work result ∧
        ((told = [] ∧ outcome = result ∧ ∀ f, result = .error f → f.isExpected = false) ∨
          ∃ f answer, result = .error f ∧ f.isExpected ∧ outcome = answer.map (fun _ => []) ∧
            (notify n (failureNotice f)).Does told answer) := by
  obtain ⟨selected, rest, rfl, goes⟩ := Program.does_act.mp does
  cases selected with
  | none =>
    obtain ⟨rfl, rfl⟩ := Program.does_done.mp goes
    exact .inl ⟨rfl, rfl⟩
  | some h =>
    refine .inr ⟨h, ?_⟩
    obtain ⟨nodes, lists, rfl⟩ | ⟨f, work, told, rfl, fails, handled⟩ :=
      Program.Does.of_handling goes
    · refine ⟨rest, [], .ok nodes, by rw [List.append_nil], lists, .inl ⟨rfl, rfl, nofun⟩⟩
    · refine ⟨work, told, .error f, rfl, fails, ?_⟩
      obtain ⟨expected, reports⟩ | ⟨other, rfl, rfl⟩ := handled
      · obtain ⟨_, told, rest, rfl, tells, finished⟩ | ⟨e, tells, rfl⟩ :=
          Program.Does.of_bind reports
        · obtain ⟨rfl, rfl⟩ := Program.does_done.mp finished
          rw [List.append_nil]
          exact .inr ⟨f, _, rfl, expected, rfl, tells⟩
        · exact .inr ⟨f, _, rfl, expected, rfl, tells⟩
      · refine .inl ⟨rfl, rfl, ?_⟩
        rintro _ ⟨⟩
        exact other

end Tree

end ImageBrowser
