import ImageBrowser.Proofs.Sessions.Aside

/-!
How the children of a node are come by in a session. The caller looks at the cache, or makes one
request to it, under a key with the session id of the node; the stone is asked one query at most,
for the fetch of that request or for the roots of the tree; all else is done apart. So an observer
of actions follows every expansion once it follows these few steps.
-/

namespace ImageBrowser

open Smalltalk (SnippetKind)

namespace CacheKey

def session : CacheKey → Value
  | .classCategories session _ => session
  | .environments session _ _ _ => session

theorem eq_of_ofDictionary {session index : Value} {k : CacheKey}
    (made : ofDictionary session index = .ok k) :
    k = .classCategories session.canonical index.canonical := by
  unfold ofDictionary Value.asKey at made
  split at made
  · split at made
    · cases made
      rfl
    · cases made
  · cases made

theorem eq_of_ofClass {session index className limit : Value} {k : CacheKey}
    (made : ofClass session index className limit = .ok k) :
    k = .environments session.canonical index.canonical className.canonical limit.canonical := by
  unfold ofClass Value.asKey at made
  split at made
  · split at made
    · split at made
      · split at made
        · cases made
          rfl
        · cases made
      · cases made
    · cases made
  · cases made

end CacheKey

namespace Node

def path : Node → DictionaryPath
  | .dictionary path | .classCategory path _ | .global path _ => path
  | .cls path | .definition path | .comment path => path.dictionary
  | .side path | .category path _ | .method path _ _ => path.cls.dictionary

def session (n : Node) : Value := n.path.sessionId.canonical

end Node

namespace Tree

/-- What a stone is asked, and with which values, to list what is below a node. -/
inductive Asks : Option Node → SnippetKind → List Value → Prop
  | roots : Asks none .dictionaryNames []
  | dictionary (path : DictionaryPath) :
    Asks (some (.dictionary path)) .dictionaryEntries [path.index]
  | side (path : SidePath) (limit : Nat) :
    Asks (some (.side path)) .classEnvironments
      [path.cls.dictionary.index, path.cls.className, .whole limit]
  | category (path : SidePath) (row : Value) (limit : Nat) :
    Asks (some (.category path row)) .classEnvironments
      [path.cls.dictionary.index, path.cls.className, .whole limit]

inductive Reports (h : Handle) (node : Option Node) : {α : Type} → Program α → Prop
  | query {label : String} {kind : SnippetKind} {values : List Value}
    (asks : Asks node kind values) : Reports h node (h.run label kind values)
  | read {α β : Type} {p : Program α} {f : α → Program β} (reports : Reports h node p)
    (next : ∀ a, (f a).Aside) : Reports h node (p >>= f)

inductive Expands (h : Handle) (node : Option Node) : {α : Type} → Program α → Prop
  | aside {α : Type} {p : Program α} (apart : p.Aside) : Expands h node p
  | uncached {α : Type} {p : Program α} (root : node = none) (reports : Reports h node p) :
    Expands h node p
  | cached {k : CacheKey} (own : ∀ n ∈ node, k.session = n.session) :
    Expands h node (Program.step (.cached k))
  | entry {k : CacheKey} {fetch : Program CacheEntry} (own : ∀ n ∈ node, k.session = n.session)
    (reports : Reports h node fetch) : Expands h node (entry k fetch)
  | keyed {β : Type} (made : Except Fault CacheKey) {f : CacheKey → Program β}
    (next : ∀ k, made = .ok k → Expands h node (f k)) :
    Expands h node (Program.ofExcept made >>= f)
  | after {α β : Type} {p : Program α} {f : α → Program β} (first : p.Aside)
    (next : ∀ a, Expands h node (f a)) : Expands h node (p >>= f)
  | bind {α β : Type} {p : Program α} {f : α → Program β} (first : Expands h node p)
    (next : ∀ a, (f a).Aside) : Expands h node (p >>= f)

variable {h : Handle}

theorem expands_dictionaries : Expands h none (dictionaries h) :=
  .uncached rfl (.read (.read (.query .roots) fun _ => .done _) fun _ => .done _)

theorem expands_classCategories (path : DictionaryPath) :
    Expands h (some (.dictionary path)) (classCategories h path) := by
  have reports : Reports h (some (.dictionary path)) (h.dictionaryEntries path.index) :=
    .read (.query (.dictionary path)) fun _ => .done _
  have known : Expands h (some (.dictionary path))
      (classCategoriesEntry path.sessionId path.index do
        return (← h.dictionaryEntries path.index).map DictionaryEntry.binding) := by
    apply Expands.keyed
    intro k made
    refine .bind (.entry ?_ ?_) fun _ => .done _
    · rintro _ ⟨⟩
      rw [CacheKey.eq_of_ofDictionary made]
      rfl
    · exact .read (.read reports fun _ => .done _) fun _ => .bind (.ofExcept _) fun _ => .done _
  apply known.bind
  intro e
  exact .bind (.ofExcept _) fun _ => .done _

theorem expands_classes (path : DictionaryPath) (row : Value) :
    Expands h (some (.classCategory path row)) (classes path row) := by
  have known : Expands h (some (.classCategory path row))
      (cachedClassCategories path.sessionId path.index) := by
    apply Expands.keyed
    intro k made
    refine .bind (.cached ?_) fun _ => .done _
    rintro _ ⟨⟩
    rw [CacheKey.eq_of_ofDictionary made]
    rfl
  apply known.bind
  intro found
  cases found with
  | none => exact .done _
  | some e => exact .ofExcept _

theorem expands_environments {path : ClassPath} {node : Node} (within : node.path = path.dictionary)
    (asks : ∀ limit : Nat, Asks (some node) .classEnvironments
      [path.dictionary.index, path.className, .whole limit]) :
    Expands h (some node) (environments h path) := by
  apply Expands.after aside_limit
  intro limit
  have reports : Reports h (some node)
      (h.classEnvironments path.dictionary.index path.className (.whole limit)) :=
    .read (.query (asks _)) fun _ => .done _
  apply Expands.keyed
  intro k made
  refine .bind (.entry ?_ ?_) fun _ => .done _
  · rintro _ ⟨⟩
    rw [CacheKey.eq_of_ofClass made, Node.session, within]
    rfl
  · exact .read (.read reports fun _ => .done _) fun _ => .bind (.ofExcept _) fun _ => .done _

theorem expands_childrenOf (node : Option Node) : Expands h node (childrenOf h node) := by
  unfold childrenOf
  split
  · exact expands_dictionaries
  · exact expands_classCategories _
  · exact expands_classes _ _
  · exact .aside (.bind aside_limit fun _ => .done _)
  · next path =>
    exact (expands_environments rfl (.side path)).bind fun _ => .bind (.ofExcept _) fun _ => .done _
  · next path row =>
    exact (expands_environments rfl (.category path row)).bind fun _ =>
      .bind (.ofExcept _) fun _ => .done _
  · exact .aside (.done _)

end Tree

end ImageBrowser
