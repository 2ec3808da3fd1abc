import ImageBrowser.Proofs.Calls.Operations
import ImageBrowser.Proofs.Smalltalk.References
import ImageBrowser.Proofs.Tree.Reports
import ImageBrowser.Proofs.Tree.Walks

/-!
Classes of one name in several dictionaries. What is listed of a class is asked of the dictionary
that its path leads through, by the place of that dictionary. The text of its definition, its comment
or a method is asked for by the name of the class alone, and so comes from the first dictionary that
binds the name.
-/

namespace ImageBrowser

open Program (Keeps)
open Smalltalk (ClassReference Snippet SnippetKind reference?)

/-! Classes by their names -/

/-- The dictionaries of a symbol list in their order, and the classes that they bind names to. -/
abbrev Library (κ : Type) := List (String → Option κ)

namespace Library

variable {κ : Type}

/-- The first class of a name. -/
def named? (lib : Library κ) (name : String) : Option κ := lib.findSome? fun d => d name

def at? (lib : Library κ) (i : Int) (name : String) : Option κ :=
  if 0 < i then lib[(i - 1).toNat]?.bind fun d => d name else none

def find? (lib : Library κ) : ClassReference → Option κ
  | .named name => lib.named? name
  | .within i name => lib.at? i name

/-- The class that a source looks up. -/
def classOf? (lib : Library κ) (source : String) : Option κ := (reference? source).bind lib.find?

theorem classOf?_of_reference (lib : Library κ) {source : String} {r : ClassReference}
    (refers : reference? source = some r) : lib.classOf? source = lib.find? r := by
  rw [classOf?, refers, Option.bind_some]

end Library

/-! Which sources are executed -/

def executing (good : String → Prop) : Discipline Unit where
  allows _ a := ∀ c source, a = .ask c (.execute source) → ∃ s, source = .text s ∧ good s
  after s _ _ := s

abbrev Program.Executes {α : Type} (good : String → Prop) (p : Program α) : Prop :=
  p.Keeps (executing good) fun _ => True

section Executes

variable {α : Type} {good : String → Prop}

theorem executes_act {a : Action} {k : a.Reply → Program α} (aside : a.isRemote = false)
    (next : ∀ r, (k r).Executes good) : (Program.act a k).Executes good := by
  refine .act ?_ (fun _ _ _ => trivial) next
  rintro _ _ c source rfl
  contradiction

theorem Program.Aside.executes {p : Program α} (apart : p.Aside) : p.Executes good := by
  intro u _
  refine ((apart () trivial).coarsen (fun _ _ => True) ?_ (fun _ _ _ => trivial) trivial).mono
    fun _ _ _ => trivial
  rintro _ _ _ _ allowed c source rfl
  contradiction

namespace Handle

variable {h : Handle} {label source : String}

theorem executes_fetch (asked : good source) : (h.fetch label (.text source)).Executes good := by
  let may : Scope := fun _ r => ∀ s, r = .execute s → s = .text source
  have fetches : may.Fetches (.text source) :=
    ⟨nofun, fun _ _ same => (Request.execute.inj same).symm, nofun⟩
  intro u _
  refine ((logical_fetch fetches {} rfl).coarsen (fun _ _ => True) ?_ (fun _ _ _ => trivial)
    trivial).mono fun _ _ _ => trivial
  rintro _ _ _ _ allowed c s rfl
  exact ⟨source, allowed.2.2 s rfl, asked⟩

theorem of_executes_fetch (executes : (h.fetch label (.text source)).Executes good) :
    good source := by
  have logged := (executes () trivial).2 ()
  have claimed : (Program.act (.step (.claim h.number)) _).Obeys (executing good) () _ := logged
  have looked : (Program.act (.step (.knownResultClass h.number)) _).Obeys (executing good) () _ :=
    claimed.2 true
  have called : (Program.act (.log _) _).Obeys (executing good) () _ := looked.2 (some ⟨0, .null, ""⟩)
  have entered : (Program.act (.step (.enter h.number)) _).Obeys (executing good) () _ :=
    called.2 ()
  have asks : (Program.act (.ask h.connection (.execute (.text source))) _).Obeys (executing good)
      () _ := entered.2 ()
  obtain ⟨s, same, asked⟩ := asks.1 _ _ rfl
  cases same
  exact asked

theorem executes_run {kind : SnippetKind} {values : List Value}
    (asked : ∀ snippet, kind.snippet values = .ok snippet → good snippet.source) :
    (h.run label kind values).Executes good := by
  unfold run
  cases made : kind.snippet values with
  | error f => exact .fail f
  | ok snippet => exact executes_fetch (asked snippet made)

end Handle

end Executes

namespace Tree

variable {h : Handle} {good : String → Prop} {path : ClassPath}

theorem executes_entry {k : CacheKey} {fetch : Program CacheEntry} (fetches : fetch.Executes good) :
    (entry k fetch).Executes good := by
  apply executes_act rfl
  intro reply
  cases reply with
  | found e => exact .done e
  | joined ticket => exact executes_act rfl fun _ => .ofExcept _
  | owned ticket =>
    apply Keeps.bind fetches.attempt
    intro outcome
    exact executes_act rfl fun _ => executes_act rfl fun _ => .ofExcept _

section Expanding

variable {α : Type} {node : Option Node} {p : Program α}

theorem executes_reports (reports : Reports h node p)
    (asked : ∀ {kind values snippet}, Asks node kind values → kind.snippet values = .ok snippet →
      good snippet.source) : p.Executes good := by
  induction reports with
  | query asks => exact Handle.executes_run fun _ made => asked asks made
  | read _ next ih => exact .bind ih fun a => (next a).executes

theorem executes_expands (expands : Expands h node p)
    (asked : ∀ {kind values snippet}, Asks node kind values → kind.snippet values = .ok snippet →
      good snippet.source) : p.Executes good := by
  induction expands with
  | aside apart => exact apart.executes
  | uncached _ reports => exact executes_reports reports asked
  | cached _ => exact executes_act rfl .done
  | entry _ reports => exact executes_entry (executes_reports reports asked)
  | keyed _ _ ih => exact .ofExcept_bind ih
  | after first _ ih => exact .bind first.executes ih
  | bind _ next ih => exact .bind ih fun a => (next a).executes

end Expanding

/-! What is listed of a class -/

variable {i : Int} {name : String}

inductive IsListing (path : ClassPath) : Node → Prop
  | side (isMeta environment : Value) : IsListing path (.side ⟨path, isMeta, environment⟩)
  | category (isMeta environment row : Value) :
    IsListing path (.category ⟨path, isMeta, environment⟩ row)

theorem executes_listing {node : Node} (listing : IsListing path node)
    (index : path.dictionary.index = .whole i) (named : path.className = .text name)
    (asked : ∀ source, reference? source = some (.within i name) → good source) (n : Notifier) :
    (children n (some node)).Executes good := by
  apply executes_act rfl
  intro selected
  cases selected with
  | none => exact .done _
  | some h =>
    have sources (limit : Nat) : ∀ snippet, SnippetKind.classEnvironments.snippet
        [path.dictionary.index, path.className, .whole limit] = .ok snippet →
        good snippet.source := by
      rw [index, named]
      rintro _ ⟨⟩
      exact asked _ (Snippet.reference?_classEnvironments i name limit)
    have listed : (childrenOf h (some node)).Executes good := by
      apply executes_expands (expands_childrenOf (some node))
      intro kind values snippet asks made
      cases listing with
      | side =>
        cases asks with
        | side _ limit => exact sources limit snippet made
      | category =>
        cases asks with
        | category _ _ limit => exact sources limit snippet made
    exact listed.handling fun _ => .bind (aside_notify n _).executes fun _ => .done _

/-! What is asked for as the text of a document -/

inductive IsDocument (path : ClassPath) : Node → Prop
  | definition : IsDocument path (.definition path)
  | comment : IsDocument path (.comment path)
  | method (isMeta : Value) (environment : Int) (category : Value) (selector : String) :
    IsDocument path (.method ⟨path, isMeta, .whole environment⟩ category (.text selector))

variable {document : Node}

theorem content_eq (isDocument : IsDocument path document) (named : path.className = .text name) :
    ∃ label source, reference? source = some (.named name) ∧
      content document = Program.act (.step .selectedSession) fun selected =>
        match selected with
        | none => .fail (.refused .nothingSelected)
        | some h => h.fetch label (.text source) := by
  obtain ⟨dictionary, className⟩ := path
  subst named
  cases isDocument with
  | definition =>
    obtain ⟨label, asked⟩ : ∃ label, ∀ h : Handle, h.classDefinition (.text name) =
        h.fetch label (.text (Snippet.classDefinition name).source) :=
      ⟨_, fun _ => Handle.run_eq_fetch rfl⟩
    refine ⟨label, _, Snippet.reference?_classDefinition name,
      congrArg _ (funext fun selected => ?_)⟩
    cases selected with
    | none => rfl
    | some h => exact asked h
  | comment =>
    obtain ⟨label, asked⟩ : ∃ label, ∀ h : Handle, h.classComment (.text name) =
        h.fetch label (.text (Snippet.classComment name).source) :=
      ⟨_, fun _ => Handle.run_eq_fetch rfl⟩
    refine ⟨label, _, Snippet.reference?_classComment name,
      congrArg _ (funext fun selected => ?_)⟩
    cases selected with
    | none => rfl
    | some h => exact asked h
  | method isMeta environment category selector =>
    obtain ⟨e, inEnvironment⟩ := exists_namedEnvironment environment
    have made : SnippetKind.methodSource.snippet
        [.text name, isMeta, .text selector, .whole environment] =
          .ok (.methodSource name isMeta.isTruthy selector e) := by
      simp only [SnippetKind.snippet, inEnvironment]
      rfl
    obtain ⟨label, asked⟩ : ∃ label, ∀ h : Handle,
        h.methodSource (.text name) isMeta (.text selector) (.whole environment) =
          h.fetch label (.text (Snippet.methodSource name isMeta.isTruthy selector e).source) :=
      ⟨_, fun _ => Handle.run_eq_fetch made⟩
    refine ⟨label, _, Snippet.reference?_methodSource name isMeta.isTruthy selector e,
      congrArg _ (funext fun selected => ?_)⟩
    cases selected with
    | none => rfl
    | some h => exact asked h

theorem executes_content_iff (isDocument : IsDocument path document)
    (named : path.className = .text name) : ∃ source, reference? source = some (.named name) ∧
      ∀ good, (content document).Executes good ↔ good source := by
  obtain ⟨label, source, refers, same⟩ := content_eq isDocument named
  refine ⟨source, refers, fun good => ?_⟩
  rw [same]
  constructor
  · intro executes
    have asks : (Handle.fetch ⟨0, .null, ⟨.null⟩⟩ label (.text source)).Executes good :=
      fun u _ => (executes u trivial).2 (some ⟨0, .null, ⟨.null⟩⟩)
    exact Handle.of_executes_fetch asks
  · intro asked
    apply executes_act rfl
    intro selected
    cases selected with
    | none => exact .fail _
    | some h => exact Handle.executes_fetch asked

end Tree

/-- The same document of a class in another dictionary. -/
def Node.inDictionary (d : DictionaryPath) : Node → Node
  | .definition p => .definition { p with dictionary := d }
  | .comment p => .comment { p with dictionary := d }
  | .method p row selector => .method { p with cls := { p.cls with dictionary := d } } row selector
  | node => node

def Node.hasContent : Node → Bool
  | .definition _ | .comment _ | .method _ _ _ => true
  | _ => false

theorem Node.Placed.exists_path {document : Node} (placed : document.Placed)
    (hasContent : document.hasContent) :
    ∃ path i name, Tree.IsDocument path document ∧ path.dictionary.index = .whole i ∧
      path.className = .text name := by
  cases document with
  | definition path =>
    obtain ⟨⟨i, index⟩, name, named⟩ := placed
    exact ⟨path, i, name, .definition, index, named⟩
  | comment path =>
    obtain ⟨⟨i, index⟩, name, named⟩ := placed
    exact ⟨path, i, name, .comment, index, named⟩
  | method side row selector =>
    obtain ⟨path, isMeta, environment⟩ := side
    obtain ⟨⟨⟨⟨i, index⟩, name, named⟩, _, e, inEnvironment⟩, s, selected⟩ := placed
    subst inEnvironment selected
    exact ⟨path, i, name, .method isMeta e row s, index, named⟩
  | _ => contradiction

variable {κ : Type}

/-- The text of a document that was come to from the roots is asked of the first class of its name,
in whatever dictionary the document is. That is the class bound in its own dictionary, of which the
categories and the selectors are listed, exactly if the first dictionary that binds the name binds
it to that class. -/
theorem content_of_listed_class_iff (lib : Library κ) {o : Outlook} {w v : World}
    (sound : World.Sound none w) {document : Node} (walked : Walked o w (some document) v)
    (hasContent : document.hasContent) :
    ∃ path i name, Tree.IsDocument path document ∧ path.dictionary.index = .whole i ∧
      path.className = .text name ∧
      ((Tree.content document).Executes fun source => lib.classOf? source = lib.named? name) ∧
      (∀ d, Tree.content (document.inDictionary d) = Tree.content document) ∧
      ∀ c, lib.at? i name = some c →
        (∀ listing, Tree.IsListing path listing → ∀ n,
          (Tree.children n (some listing)).Executes fun source => lib.classOf? source = some c) ∧
        (((Tree.content document).Executes fun source => lib.classOf? source = some c) ↔
          ∃ front own back, lib = front ++ own :: back ∧ own name = some c ∧
            ∀ d ∈ front, d name = none) := by
  obtain ⟨path, i, name, isDocument, index, named⟩ :=
    ((walked.placed sound).2 document rfl).exists_path hasContent
  obtain ⟨source, refers, executes⟩ := Tree.executes_content_iff isDocument named
  have first : lib.classOf? source = lib.named? name := lib.classOf?_of_reference refers
  refine ⟨path, i, name, isDocument, index, named, (executes _).mpr first, ?_, ?_⟩
  · intro d
    cases isDocument <;> rfl
  · intro c bound
    constructor
    · intro listing isListing
      apply Tree.executes_listing isListing index named
      intro source refers
      rw [lib.classOf?_of_reference refers]
      exact bound
    · rw [executes, first, Library.named?, List.findSome?_eq_some_iff]

/-! One name in two dictionaries -/

def twoOrders : WorkingStone :=
  twoDictionaries ⟨"UserGlobals", [⟨true, "Mine", "Order"⟩]⟩
    ⟨"Globals", [⟨true, "Theirs", "Order"⟩]⟩

def ordersLibrary : Library String :=
  [fun name => if name = "Order" then some "mine" else none,
    fun name => if name = "Order" then some "theirs" else none]

def orderIn (i : Int) (dictionary : String) : ClassPath :=
  ⟨⟨.text "session-1", .whole i, .text dictionary⟩, .text "Order"⟩

theorem sound_browsingWorld : World.Sound none browsingWorld where
  enrolled := by decide
  stored := nofun
  inFlight := nofun
  listeners := nofun
  watchers := rfl

theorem ends_roots_twoOrders :
    (Tree.children .log none).Ends twoOrders.outlook browsingWorld fun outcome _ => outcome =
      .ok [.dictionary (orderIn 1 "UserGlobals").dictionary,
        .dictionary (orderIn 2 "Globals").dictionary] := by
  have names : Text.lines (Text.upTo Handle.maxResultSize (twoOrders.textOf .dictionaryNames)) =
      ["UserGlobals", "Globals"] := by
    have report : twoOrders.textOf .dictionaryNames = reportOf [["UserGlobals"], ["Globals"]] :=
      (holds_twoDictionaries _ _).names
    rw [report]
    decide +kernel
  apply ((yields_roots .log selected_browsingWorld).ends rfl).mono
  rintro _ _ ⟨_, rfl, same, _⟩
  rw [names] at same
  exact congrArg Except.ok same

theorem walked_order {i : Int} {dictionary heading : String} {c : ClassCategories}
    (root : .dictionary (orderIn i dictionary).dictionary ∈
      [Node.dictionary (orderIn 1 "UserGlobals").dictionary,
        .dictionary (orderIn 2 "Globals").dictionary])
    (reported : twoOrders.bindingsAt i = [⟨.flag true, .text heading, .text "Order"⟩])
    (built : ClassCategories.ofBindings [⟨.flag true, .text heading, .text "Order"⟩] = .ok c)
    (shown : Tree.categoryRows c (orderIn i dictionary).dictionary =
      .ok [.classCategory (orderIn i dictionary).dictionary (.text allRow),
        .classCategory (orderIn i dictionary).dictionary (.text heading)])
    (named : Tree.rowChildren c (orderIn i dictionary).dictionary (.text heading) =
      .ok [.cls (orderIn i dictionary)]) :
    ∃ v, Walked twoOrders.outlook browsingWorld (some (.definition (orderIn i dictionary))) v := by
  have start : twoOrders.Settled browsingHandle (Listed []) browsingWorld :=
    WorkingStone.settled_start selected_browsingWorld rfl rfl rfl
  have lists : Lists (some (.dictionary (orderIn i dictionary).dictionary)) (.text "session-1") i :=
    ⟨_, rfl, rfl⟩
  exact walked_definition start ends_roots_twoOrders root lists (reported ▸ built) shown
    (.tail _ (.head _)) named (List.mem_singleton.mpr rfl)

theorem walked_first_order : ∃ v,
    Walked twoOrders.outlook browsingWorld (some (.definition (orderIn 1 "UserGlobals"))) v := by
  have reported : twoOrders.bindingsAt 1 = [⟨.flag true, .text "Mine", .text "Order"⟩] := by
    have report : twoOrders.textOf (.dictionaryEntries 1) =
        reportOf [DictionaryEntry.row ⟨true, "Mine", "Order"⟩] :=
      (holds_twoDictionaries _ _).entries 0 _ rfl
    unfold WorkingStone.bindingsAt
    rw [report]
    decide +kernel
  exact walked_order (c := ⟨[(.text "Mine", [.text "Order"])], []⟩) (by simp) reported (by cbv)
    (by cbv) (by cbv)

theorem walked_second_order : ∃ v,
    Walked twoOrders.outlook browsingWorld (some (.definition (orderIn 2 "Globals"))) v := by
  have reported : twoOrders.bindingsAt 2 = [⟨.flag true, .text "Theirs", .text "Order"⟩] := by
    have report : twoOrders.textOf (.dictionaryEntries 2) =
        reportOf [DictionaryEntry.row ⟨true, "Theirs", "Order"⟩] :=
      (holds_twoDictionaries _ _).entries 1 _ rfl
    unfold WorkingStone.bindingsAt
    rw [report]
    decide +kernel
  exact walked_order (c := ⟨[(.text "Theirs", [.text "Order"])], []⟩) (by simp) reported (by cbv)
    (by cbv) (by cbv)

theorem content_of_first_order : ∃ v,
    Walked twoOrders.outlook browsingWorld (some (.definition (orderIn 1 "UserGlobals"))) v ∧
      (Tree.content (.definition (orderIn 1 "UserGlobals"))).Executes
        fun source => ordersLibrary.classOf? source = some "mine" := by
  obtain ⟨v, walked⟩ := walked_first_order
  obtain ⟨path, i, name, isDocument, index, named, _, _, right⟩ :=
    content_of_listed_class_iff ordersLibrary sound_browsingWorld walked rfl
  cases isDocument
  cases index
  cases named
  obtain ⟨_, right⟩ := right "mine" (by decide)
  exact ⟨v, walked, right.mpr ⟨[], _, _, rfl, rfl, nofun⟩⟩

/-- Behind another class of the same name, what is listed is asked of one class and the definition
of the other, with the very source that the definition of that other class is asked for. -/
theorem content_of_shadowing_class : ∃ v,
    Walked twoOrders.outlook browsingWorld (some (.definition (orderIn 2 "Globals"))) v ∧
      ordersLibrary.at? 2 "Order" = some "theirs" ∧
      (∀ n, (Tree.children n (some (.side ⟨orderIn 2 "Globals", .flag false, .whole 0⟩))).Executes
        fun source => ordersLibrary.classOf? source = some "theirs") ∧
      ((Tree.content (.definition (orderIn 2 "Globals"))).Executes
        fun source => ordersLibrary.classOf? source = some "mine") ∧
      ¬ ((Tree.content (.definition (orderIn 2 "Globals"))).Executes
        fun source => ordersLibrary.classOf? source = some "theirs") ∧
      Tree.content (.definition (orderIn 2 "Globals")) =
        Tree.content (.definition (orderIn 1 "UserGlobals")) := by
  obtain ⟨v, walked⟩ := walked_second_order
  have isDocument : Tree.IsDocument (orderIn 2 "Globals") (.definition (orderIn 2 "Globals")) :=
    .definition
  obtain ⟨source, refers, executes⟩ := Tree.executes_content_iff isDocument rfl
  have shadowed : ordersLibrary.classOf? source = some "mine" :=
    (ordersLibrary.classOf?_of_reference refers).trans (by decide)
  refine ⟨v, walked, by decide, ?_, (executes _).mpr shadowed, ?_, rfl⟩
  · apply Tree.executes_listing (.side _ _) rfl rfl
    intro source refers
    exact (ordersLibrary.classOf?_of_reference refers).trans (by decide)
  · rw [executes, shadowed]
    decide

end ImageBrowser
