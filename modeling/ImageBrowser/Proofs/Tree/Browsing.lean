import ImageBrowser.Proofs.Locator.RoundTrip
import ImageBrowser.Proofs.Sessions.Upkeep
import ImageBrowser.Tree

/-!
Expanding the tree in a sound state: the cache answers without anybody to wait for, and where the
fields of a node are of the types that the tree itself gives them, a node has children, or the
stone's failure is refused and reported.
-/

namespace ImageBrowser

open Program (Meets)
open Smalltalk (SnippetKind)

/-- The types of values that the tree itself gives to the fields of its nodes. -/
structure DictionaryPath.Typed (p : DictionaryPath) : Prop where
  session : p.sessionId.IsText
  index : ∃ n, p.index = .whole n
  name : p.name.IsText

theorem DictionaryPath.Typed.keys {p : DictionaryPath} (typed : p.Typed) :
    p.sessionId.isKey ∧ p.index.isKey := by
  obtain ⟨n, same⟩ := typed.index
  exact ⟨typed.session.isKey, by rw [same]; rfl⟩

structure ClassPath.Typed (p : ClassPath) : Prop where
  dictionary : p.dictionary.Typed
  className : p.className.IsText

structure SidePath.Typed (p : SidePath) : Prop where
  cls : p.cls.Typed
  isMeta : ∃ b, p.isMeta = .flag b
  environment : ∃ n, p.environment = .whole n

def Node.Typed : Node → Prop
  | .dictionary p => p.Typed
  | .cls p | .definition p | .comment p => p.Typed
  | .side p => p.Typed
  | .classCategory p name | .global p name => p.Typed ∧ name.IsText
  | .category p name => p.Typed ∧ name.IsText
  | .method p row selector => p.Typed ∧ row.IsText ∧ selector.IsText

/-! A node that the tree itself has made leads to a place in the library that can be asked for: a
number for the dictionary, and texts for the names. -/

structure ClassPath.Placed (p : ClassPath) : Prop where
  index : ∃ i, p.dictionary.index = .whole i
  className : p.className.IsText

structure SidePath.Placed (p : SidePath) : Prop where
  cls : p.cls.Placed
  isMeta : ∃ b, p.isMeta = .flag b
  environment : ∃ n, p.environment = .whole n

def Node.Placed : Node → Prop
  | .dictionary p => ∃ i, p.index = .whole i
  | .classCategory p name => (∃ i, p.index = .whole i) ∧ name.IsText
  | .cls p | .definition p | .comment p => p.Placed
  | .side p => p.Placed
  | .category p name => p.Placed ∧ name.IsText
  | .method p _ selector => p.Placed ∧ selector.IsText
  | .global _ _ => True

theorem ClassPath.Typed.placed {p : ClassPath} (typed : p.Typed) : p.Placed :=
  ⟨typed.dictionary.index, typed.className⟩

theorem SidePath.Typed.placed {p : SidePath} (typed : p.Typed) : p.Placed :=
  ⟨typed.cls.placed, typed.isMeta, typed.environment⟩

theorem Node.Typed.placed {n : Node} (typed : n.Typed) : n.Placed := by
  cases n with
  | dictionary p => exact DictionaryPath.Typed.index typed
  | classCategory p name => exact ⟨typed.1.index, typed.2⟩
  | cls p | definition p | comment p => exact ClassPath.Typed.placed typed
  | side p => exact SidePath.Typed.placed typed
  | category p name => exact ⟨typed.1.placed, typed.2⟩
  | method p row selector => exact ⟨typed.1.placed, typed.2.2⟩
  | global p name => trivial

def Node.HasRow (n : Node) : Prop :=
  ∀ limit : Nat, ∃ item, TreeItem.ofNode n (.whole limit) = .ok item

def Node.HaveRows (ns : List Node) : Prop := ∀ n ∈ ns, n.HasRow

/-- What may be listed below a node, or below the tree itself while a session is selected: a node
whose path goes on from there. -/
inductive Node.Below (session : Value) (limits : Nat → Prop) : Option Node → Node → Prop
  | dictionary (index : Int) (name : String) :
    Below session limits none (.dictionary ⟨session, .whole index, .text name⟩)
  | row {path : DictionaryPath} (name : String) :
    Below session limits (some (.dictionary path)) (.classCategory path (.text name))
  | cls {path : DictionaryPath} {row : Value} (name : String) :
    Below session limits (some (.classCategory path row)) (.cls ⟨path, .text name⟩)
  | global {path : DictionaryPath} {row : Value} (name : Value) :
    Below session limits (some (.classCategory path row)) (.global path name)
  | definition {path : ClassPath} : Below session limits (some (.cls path)) (.definition path)
  | comment {path : ClassPath} : Below session limits (some (.cls path)) (.comment path)
  | side {path : ClassPath} {limit : Nat} (isMeta : Bool) (environment : Nat)
    (inForce : limits limit) (within : environment ≤ limit) :
    Below session limits (some (.cls path)) (.side ⟨path, .flag isMeta, .whole environment⟩)
  | category {path : SidePath} (name : String) :
    Below session limits (some (.side path)) (.category path (.text name))
  | method {path : SidePath} {row : Value} (category selector : String) :
    Below session limits (some (.category path row))
      (.method path (.text category) (.text selector))

theorem Node.Below.placed {session : Value} {limits : Nat → Prop} {above : Option Node}
    {node : Node} (below : Below session limits above node) (placed : ∀ m ∈ above, m.Placed) :
    node.Placed := by
  cases below with
  | dictionary index name => exact ⟨index, rfl⟩
  | row name => exact ⟨placed _ rfl, name, rfl⟩
  | cls name => exact ⟨(placed _ rfl).1, name, rfl⟩
  | global name => trivial
  | definition => exact placed (.cls _) rfl
  | comment => exact placed (.cls _) rfl
  | side isMeta environment => exact ⟨placed _ rfl, ⟨isMeta, rfl⟩, environment, rfl⟩
  | category name => exact ⟨placed _ rfl, name, rfl⟩
  | method category selector => exact ⟨(placed _ rfl).1, selector, rfl⟩

theorem Node.hasRow_of_kind {n : Node} (other : n.kind ≠ .method) : n.HasRow := by
  cases n with
  | method _ _ _ => contradiction
  | _ => exact fun _ => ⟨_, rfl⟩

theorem Node.hasRow_method {path : SidePath} {row selector : Value}
    (number : ∃ n, path.environment = .whole n) : (Node.method path row selector).HasRow := by
  obtain ⟨n, same⟩ := number
  have located : ∃ locator, Locator.ofMethod path row selector = .ok locator := by
    unfold Locator.ofMethod
    simp only [same, Locator.asPositive_whole]
    by_cases positive : 0 < n
    · exact ⟨_, if_pos (decide_eq_true positive)⟩
    · exact ⟨_, if_neg (by simpa using positive)⟩
  obtain ⟨locator, located⟩ := located
  intro limit
  simp only [TreeItem.ofNode, Locator.ofNode, located]
  exact ⟨_, rfl⟩

theorem Node.Placed.hasRow {n : Node} (placed : n.Placed) : n.HasRow := by
  cases n with
  | method p row selector => exact hasRow_method placed.1.environment
  | _ => exact hasRow_of_kind nofun

variable {o : Outlook} {own : Option (CacheKey × Nat)} {fair : Prop} {α β : Type} {P : α → Prop}
  {bad : Fault → Prop} {w : World}

theorem Value.within_asKey {v : Value} (keyed : fair → v.isKey) :
    Within (fun _ => True) (fun f => fair → bad f) v.asKey := by
  apply Within.provided
  intro isFair
  rw [asKey_of_isKey (keyed isFair)]
  trivial

theorem exists_namedEnvironment (n : Int) :
    ∃ e, SnippetKind.namedEnvironment (.whole n) = .ok e := by
  unfold SnippetKind.namedEnvironment
  split
  · exact ⟨_, rfl⟩
  · exact ⟨_, rfl⟩

theorem formed_methodSource {className isMeta selector environment : Value}
    (named : className.IsText) (selected : selector.IsText)
    (number : ∃ n, environment = .whole n) :
    ∃ snippet, SnippetKind.methodSource.snippet [className, isMeta, selector, environment] =
      .ok snippet := by
  obtain ⟨name, rfl⟩ := named
  obtain ⟨s, rfl⟩ := selected
  obtain ⟨n, rfl⟩ := number
  obtain ⟨e, inEnvironment⟩ := exists_namedEnvironment n
  refine ⟨.methodSource name isMeta.isTruthy s e, ?_⟩
  simp only [SnippetKind.snippet, inEnvironment]
  rfl

namespace Handle

variable {h : Handle} {inv : World → Prop}

theorem meets_dictionaryEntries {index : Value} (steady : IgnoresCalls inv)
    (fails : fair → o.FailsFromStone) (number : fair → ∃ n, index = .whole n) :
    Meets o inv (h.dictionaryEntries index) (fun _ => True) fun f => fair → f.isRefusal := by
  refine .bind (meets_run steady fails ?_) fun _ _ => .done trivial
  intro isFair
  obtain ⟨n, rfl⟩ := number isFair
  exact ⟨_, rfl⟩

theorem meets_classEnvironments {index className : Value} {limit : Nat} (steady : IgnoresCalls inv)
    (fails : fair → o.FailsFromStone) (number : fair → ∃ n, index = .whole n)
    (named : fair → className.IsText) :
    Meets o inv (h.classEnvironments index className (.whole limit)) (fun _ => True)
      fun f => fair → f.isRefusal := by
  refine .bind (meets_run steady fails ?_) fun _ _ => .done trivial
  intro isFair
  obtain ⟨n, rfl⟩ := number isFair
  obtain ⟨s, rfl⟩ := named isFair
  exact ⟨_, rfl⟩

end Handle

namespace Tree

theorem meets_limit {inv : World → Prop} : Meets o inv limit (fun _ => True) bad := by
  apply Meets.bind (.step fun _ holds => holds)
  intro found _
  dsimp only
  split
  · exact .bind (.log _) fun _ _ => .done trivial
  · exact .done trivial

/-- Conditions on the state that say of the cache that it is readable and that no fetch is under way
but one's own, and nothing else. -/
structure KeepsCache (inv : Option (CacheKey × Nat) → World → Prop) : Prop where
  stored {own : Option (CacheKey × Nat)} {w : World} (holds : inv own w) :
    ∀ k e, w.cache.stored.find? k = some e → e.Readable
  inFlight {own : Option (CacheKey × Nat)} {w : World} (holds : inv own w) :
    ∀ k f, w.cache.inFlight.find? k = some f → own = some (k, f.ticket)
  recached {own own' : Option (CacheKey × Nat)} {w : World} {cache : Cache CacheKey CacheEntry}
    (holds : inv own w) (stored : ∀ k e, cache.stored.find? k = some e → e.Readable)
    (inFlight : ∀ k f, cache.inFlight.find? k = some f → own' = some (k, f.ticket)) :
    inv own' { w with cache := cache }
  ignoresCalls (own : Option (CacheKey × Nat)) : IgnoresCalls (inv own)

theorem keepsCache_sound : KeepsCache World.Sound where
  ignoresCalls := World.Sound.ignoresCalls
  stored sound := sound.stored
  inFlight sound := sound.inFlight
  recached sound stored inFlight :=
    ⟨sound.enrolled, stored, inFlight, sound.listeners, sound.watchers⟩

variable {inv : Option (CacheKey × Nat) → World → Prop} (keeps : KeepsCache inv)

include keeps

theorem meets_entry {k : CacheKey} {fetch : Program CacheEntry}
    (fetches : ∀ ticket, Meets o (inv (some (k, ticket))) fetch CacheEntry.Readable bad) :
    Meets o (inv none) (entry k fetch) CacheEntry.Readable bad := by
  intro w holds
  show (Program.step (.request k) >>= _).Ends _ _ _
  rw [Program.ends_step_bind]
  obtain ⟨e, stored, same⟩ | ⟨f, inFlight, _⟩ | ⟨_, _, same⟩ := w.cache.request_cases k
  · simp only [World.step, same]
    exact ⟨holds, keeps.stored holds k e stored⟩
  · have nobody := keeps.inFlight holds k f inFlight
    contradiction
  · simp only [World.step, same]
    have owned : inv (some (k, w.cache.nextTicket)) { w with cache := w.cache.register k } := by
      refine keeps.recached holds (keeps.stored holds) fun k' f registered => ?_
      rw [Cache.find?_inFlight_register] at registered
      split at registered
      · next same =>
        cases registered
        rw [same]
      · have nobody := keeps.inFlight holds k' f registered
        contradiction
    show (fetch.attempt >>= _).Ends _ _ _
    rw [Program.ends_bind, Program.ends_attempt]
    apply (fetches _ _ owned).mono
    rintro outcome v ⟨holds, within⟩
    show (Program.step (.settle k w.cache.nextTicket outcome) >>= _).Ends _ _ _
    rw [Program.ends_step_bind]
    show (Program.step (.publish w.cache.nextTicket outcome) >>= _).Ends _ _ _
    rw [Program.ends_step_bind, Program.ends_ofExcept]
    refine ⟨?_, within⟩
    let settled := v.cache.settle k w.cache.nextTicket outcome
    show inv none { v with cache := settled.publish w.cache.nextTicket outcome }
    apply keeps.recached holds
    · intro k' e stored
      rcases Cache.find?_stored_settle stored with before | ⟨_, rfl, _⟩
      · exact keeps.stored holds k' e before
      · exact within
    · intro k' f inFlight
      obtain ⟨rfl, ours⟩ := Prod.mk.inj (Option.some.inj
        (keeps.inFlight holds k' f (Cache.find?_inFlight_settle inFlight)))
      exact absurd ours.symm (Cache.ticket_ne_of_settle inFlight)

omit keeps

abbrev Refused (fair : Prop) (f : Fault) : Prop := fair → f.isRefusal

theorem within_refused {x : Except Fault α} (within : Within P (fun _ => False) x) :
    Within P (Refused fair) x :=
  within.mono (fun _ => id) fun _ => False.elim

theorem within_refused_of_imp {p : Prop} {x : Except Fault α}
    (within : p → Within P (fun _ => False) x) (fairly : fair → p) :
    Within (fun a => p → P a) (Refused fair) x := by
  by_cases holds : p
  · exact (within holds).mono (fun _ good _ => good) fun _ => False.elim
  · cases x with
    | ok a => exact fun holds' => absurd holds' holds
    | error f => exact fun isFair => absurd (fairly isFair) holds

theorem within_ofDictionary {session index : Value} (keyed : fair → session.isKey ∧ index.isKey) :
    Within (fun _ => True) (Refused fair) (CacheKey.ofDictionary session index) :=
  (Value.within_asKey fun isFair => (keyed isFair).1).bind fun _ _ =>
    (Value.within_asKey fun isFair => (keyed isFair).2).bind fun _ _ => trivial

def ReportedBindings (bindings : List Binding) : Prop :=
  ∃ entries : List DictionaryEntry, bindings = entries.map DictionaryEntry.binding

def ReportedListings (listings : List CategoryListing) : Prop :=
  ∃ rows : List EnvironmentCategory, listings = rows.map EnvironmentCategory.listing

include keeps

theorem meets_classCategoriesEntry {session index : Value} {fetch : Program (List Binding)}
    (keyed : fair → session.isKey ∧ index.isKey)
    (fetches : ∀ own, Meets o (inv own) fetch ReportedBindings (Refused fair)) :
    Meets o (inv none) (classCategoriesEntry session index fetch) ClassCategories.Readable
      (Refused fair) := by
  apply Meets.bind (.ofExcept (within_ofDictionary keyed))
  intro k _
  refine .bind (meets_entry keeps fun ticket => ?_) fun e readable =>
    .done readable.asClassCategories
  apply (fetches _).bind
  rintro _ ⟨entries, rfl⟩
  apply Meets.bind (.ofExcept (within_refused (ClassCategories.within_ofBindings entries)))
  intro c readable
  exact .done readable

theorem meets_environmentsEntry {session index className limit : Value}
    {fetch : Program (List CategoryListing)}
    (keyed : fair → session.isKey ∧ index.isKey ∧ className.isKey ∧ limit.isKey)
    (fetches : ∀ own, Meets o (inv own) fetch ReportedListings (Refused fair)) :
    Meets o (inv none) (environmentsEntry session index className limit fetch)
      Environments.Readable (Refused fair) := by
  have named : Within (fun _ => True) (Refused fair)
      (CacheKey.ofClass session index className limit) :=
    (Value.within_asKey fun isFair => (keyed isFair).1).bind fun _ _ =>
      (Value.within_asKey fun isFair => (keyed isFair).2.1).bind fun _ _ =>
      (Value.within_asKey fun isFair => (keyed isFair).2.2.1).bind fun _ _ =>
      (Value.within_asKey fun isFair => (keyed isFair).2.2.2).bind fun _ _ => trivial
  apply Meets.bind (.ofExcept named)
  intro k _
  refine .bind (meets_entry keeps fun ticket => ?_) fun e readable => .done readable.asEnvironments
  apply (fetches _).bind
  rintro _ ⟨rows, rfl⟩
  apply Meets.bind (.ofExcept (within_refused (Environments.within_ofListings rows)))
  intro e readable
  exact .done readable

/-! The children of each kind of node. Their paths go on from that of the node. -/

section

variable {limits : Nat → Prop} (limited : Meets o (inv none) limit limits (Refused fair))
  (fails : fair → o.FailsFromStone) {h : Handle}

abbrev ListsBelow (o : Outlook) (inv : World → Prop) (fair : Prop) (h : Handle)
    (limits : Nat → Prop) (node : Option Node) (listing : Program (List Node)) : Prop :=
  Meets o inv listing
    (fun ns => (∀ n ∈ node, n.Placed) → ∀ m ∈ ns, Node.Below h.sessionId limits node m)
    (Refused fair)

include fails

theorem lists_dictionaries :
    ListsBelow o (inv none) fair h limits none (dictionaries h) := by
  have named : Meets o (inv none) h.dictionaryNames (fun _ => True) (Refused fair) :=
    .bind (Handle.meets_run (keeps.ignoresCalls none) fails fun _ => ⟨_, rfl⟩) fun _ _ =>
      .done trivial
  apply named.bind
  intro names _
  refine .done fun _ m mem => ?_
  obtain ⟨i, _, rfl⟩ := List.mem_mapIdx.mp mem
  exact .dictionary _ _

theorem lists_classCategories {path : DictionaryPath} (typed : fair → path.Typed) :
    ListsBelow o (inv none) fair h limits (some (.dictionary path)) (classCategories h path) := by
  have fetches (own : Option (CacheKey × Nat)) : Meets o (inv own)
      (do return (← h.dictionaryEntries path.index).map DictionaryEntry.binding) ReportedBindings
      (Refused fair) :=
    .bind (Handle.meets_dictionaryEntries (keeps.ignoresCalls own) fails
      fun isFair => (typed isFair).index) fun entries _ => .done ⟨entries, rfl⟩
  apply (meets_classCategoriesEntry keeps (fun isFair => (typed isFair).keys) fetches).bind
  intro c readable
  apply Meets.bind (.ofExcept (within_refused readable.categoryNames))
  intro names areTexts
  refine .done fun _ m mem => ?_
  obtain ⟨name, listed, rfl⟩ := List.mem_map.mp mem
  have isText : name.IsText := by
    rcases List.mem_append.mp listed with listed | other
    · rcases List.mem_cons.mp listed with rfl | among
      · exact Value.isText_text allRow
      · exact areTexts name among
    · split at other
      · exact absurd other List.not_mem_nil
      · exact List.mem_singleton.mp other ▸ Value.isText_text otherGlobalsRow
  obtain ⟨s, rfl⟩ := isText
  exact .row s

omit keeps fails in
theorem within_rowChildren {c : ClassCategories} {path : DictionaryPath} {row : Value}
    (readable : c.Readable) (named : fair → row.IsText) :
    Within (fun ns => row.IsText →
        ∀ m ∈ ns, Node.Below h.sessionId limits (some (.classCategory path row)) m)
      (Refused fair) (rowChildren c path row) := by
  have listed {names : List Value} (areTexts : row.IsText → ∀ v ∈ names, v.IsText)
      (isText : row.IsText) : ∀ m ∈ names.map fun name => Node.cls ⟨path, name⟩,
        Node.Below h.sessionId limits (some (.classCategory path row)) m := by
    intro m mem
    obtain ⟨name, among, rfl⟩ := List.mem_map.mp mem
    obtain ⟨s, rfl⟩ := areTexts isText name among
    exact .cls s
  unfold rowChildren
  split
  · intro _ m mem
    obtain ⟨name, -, rfl⟩ := List.mem_map.mp mem
    exact .global name
  dsimp only
  split
  · exact (within_refused readable.allClassNames).bind fun names areTexts =>
      listed fun _ => areTexts
  · exact (within_refused_of_imp readable.classNamesIn named).bind fun names => listed

omit fails in
theorem lists_classes {path : DictionaryPath} {row : Value} (typed : fair → path.Typed)
    (named : fair → row.IsText) :
    ListsBelow o (inv none) fair h limits (some (.classCategory path row)) (classes path row) := by
  have cached : Meets o (inv none) (cachedClassCategories path.sessionId path.index)
      (fun found => ∀ c ∈ found, c.Readable) (Refused fair) := by
    apply Meets.bind (.ofExcept (within_ofDictionary fun isFair => (typed isFair).keys))
    intro k _
    refine .bind (.step_with (P := fun found => ∀ e ∈ found, e.Readable) fun w holds =>
      ⟨holds, fun e mem => keeps.stored holds k e mem⟩) fun found readable => .done ?_
    intro c mem
    obtain ⟨e, among, rfl⟩ := Option.map_eq_some_iff.mp mem
    exact (readable e among).asClassCategories
  apply cached.bind
  intro found readable
  cases found with
  | none => exact .done fun _ m mem => absurd mem List.not_mem_nil
  | some c =>
    exact (Meets.ofExcept (within_rowChildren (readable c rfl) named)).mono
      (fun _ below placed => below (placed _ rfl).2) fun _ => id

include limited

omit keeps fails in
theorem lists_sides {path : ClassPath} :
    ListsBelow o (inv none) fair h limits (some (.cls path)) (sides path) := by
  apply limited.bind
  intro limit inForce
  refine .done fun _ m mem => ?_
  simp only [List.mem_append, List.mem_cons, List.not_mem_nil, or_false, List.mem_map,
    List.mem_range, Nat.lt_succ_iff] at mem
  obtain ((rfl | rfl) | ⟨environment, within, rfl⟩) | ⟨environment, within, rfl⟩ := mem
  · exact .definition
  · exact .comment
  · exact .side false environment inForce within
  · exact .side true environment inForce within

theorem meets_environments {path : ClassPath} (typed : fair → path.Typed) :
    Meets o (inv none) (environments h path) Environments.Readable (Refused fair) := by
  apply limited.bind
  intro limit _
  apply meets_environmentsEntry keeps
  · intro isFair
    obtain ⟨session, index⟩ := (typed isFair).dictionary.keys
    exact ⟨session, index, (typed isFair).className.isKey, rfl⟩
  · intro own
    refine .bind (Handle.meets_classEnvironments (keeps.ignoresCalls own) fails
      (fun isFair => (typed isFair).dictionary.index) fun isFair => (typed isFair).className) ?_
    exact fun rows _ => .done ⟨rows, rfl⟩

theorem lists_categories {path : SidePath} (typed : fair → path.Typed) :
    ListsBelow o (inv none) fair h limits (some (.side path)) (categories h path) := by
  apply (meets_environments keeps limited fails fun isFair => (typed isFair).cls).bind
  intro e readable
  apply Meets.bind (.ofExcept (within_refused readable.categoryNames))
  intro names areTexts
  refine .done fun _ m mem => ?_
  obtain ⟨name, listed, rfl⟩ := List.mem_map.mp mem
  have isText : name.IsText := by
    rcases List.mem_cons.mp listed with rfl | among
    · exact Value.isText_text allRow
    · exact areTexts name among
  obtain ⟨s, rfl⟩ := isText
  exact .category s

theorem lists_methods {path : SidePath} {row : Value} (typed : fair → path.Typed)
    (named : fair → row.IsText) :
    ListsBelow o (inv none) fair h limits (some (.category path row)) (methods h path row) := by
  apply (meets_environments keeps limited fails fun isFair => (typed isFair).cls).bind
  intro e readable
  have listed (placed : (Node.category path row).Placed) :
      Within (fun found => ∀ p ∈ found, p.1.IsText ∧ p.2.IsText) (fun _ => False)
        (methodsIn e path row) := by
    obtain ⟨⟨_, ⟨b, isMeta⟩, n, number⟩, isText⟩ := placed
    have side : path.isMeta.isKey := by rw [isMeta]; rfl
    have environment : path.environment.isKey := by rw [number]; rfl
    unfold methodsIn
    split
    · exact readable.categorizedSelectors side environment
    · exact readable.selectorsWith side environment isText
  apply Meets.bind (.ofExcept (within_refused_of_imp listed fun isFair =>
    ⟨(typed isFair).placed, named isFair⟩))
  intro found areTexts
  refine .done fun placed m mem => ?_
  obtain ⟨⟨_, _⟩, among, rfl⟩ := List.mem_map.mp mem
  obtain ⟨⟨selector, rfl⟩, category, rfl⟩ := areTexts (placed _ rfl) _ among
  exact .method category selector

theorem lists_childrenOf {node : Option Node} (typed : fair → ∀ n ∈ node, n.Typed) :
    ListsBelow o (inv none) fair h limits node (childrenOf h node) := by
  have itself {n : Node} (same : node = some n) (isFair : fair) : n.Typed := typed isFair n same
  unfold childrenOf
  split
  · exact lists_dictionaries keeps fails
  · exact lists_classCategories keeps fails (itself rfl)
  · exact lists_classes keeps (fun isFair => (itself rfl isFair).1)
      fun isFair => (itself rfl isFair).2
  · exact lists_sides limited
  · exact lists_categories keeps limited fails (itself rfl)
  · exact lists_methods keeps limited fails (fun isFair => (itself rfl isFair).1)
      fun isFair => (itself rfl isFair).2
  · exact .done fun _ m mem => absurd mem List.not_mem_nil

end

/-! Expansions in a sound state -/

section

variable (fails : fair → o.FailsFromStone)

omit keeps

include fails

theorem meets_children {node : Option Node} (typed : fair → ∀ n ∈ node, n.Typed) :
    Meets o (World.Sound none) (children .gather node) (fun ns => fair → Node.HaveRows ns)
      fun _ => ¬ fair := by
  have none : fair → Node.HaveRows [] := fun _ _ mem => absurd mem List.not_mem_nil
  apply Meets.bind (.step fun _ sound => sound)
  intro selected _
  cases selected with
  | none => exact .done none
  | some h =>
    have listed {ns : List Node} (below : (∀ n ∈ node, n.Placed) →
        ∀ m ∈ ns, Node.Below h.sessionId (fun _ => True) node m) (isFair : fair) :
        Node.HaveRows ns := by
      have placed : ∀ n ∈ node, n.Placed := fun n same => (typed isFair n same).placed
      exact fun n mem => ((below placed n mem).placed placed).hasRow
    have found := (lists_childrenOf keepsCache_sound meets_limit fails typed).mono
      (fun _ => listed) fun _ refused isFair => Fault.isExpected_of_isRefusal (refused isFair)
    apply found.handled
    intro f
    exact .bind (.step fun _ sound => sound.congr rfl rfl rfl rfl) fun _ _ => .done none

theorem meets_content {node : Node} (typed : fair → node.Typed) :
    Meets o (World.Sound none) (content node) (fun _ => True) (Refused fair) := by
  apply Meets.bind (.step fun _ sound => sound)
  intro selected _
  cases selected with
  | none => exact .fail fun _ => rfl
  | some h =>
    have run {label : String} {kind : SnippetKind} {values : List Value}
        (formed : fair → ∃ snippet, kind.snippet values = .ok snippet) :
        Meets o (World.Sound none) (h.run label kind values) (fun _ => True) (Refused fair) :=
      Handle.meets_run (World.Sound.ignoresCalls none) fails formed
    cases node with
    | definition path | comment path =>
      apply run
      intro isFair
      obtain ⟨name, same⟩ := (typed isFair).className
      rw [same]
      exact ⟨_, rfl⟩
    | method path row selector =>
      apply run
      intro isFair
      obtain ⟨side, _, selected⟩ := typed isFair
      exact formed_methodSource side.cls.className selected side.environment
    | _ => exact .fail fun _ => rfl

omit fails in
theorem meets_item {inv : World → Prop} {node : Node} (row : fair → node.HasRow) :
    Meets o inv (item node) (fun _ => True) fun _ => ¬ fair := by
  apply Meets.bind meets_limit
  intro limit _
  apply Meets.ofExcept
  apply Within.provided
  intro isFair
  obtain ⟨item, same⟩ := row isFair limit
  rw [same]
  trivial

end

end Tree

end ImageBrowser
