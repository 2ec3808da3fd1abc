import ImageBrowser.Proofs.Locator.RoundTrip
import ImageBrowser.Proofs.Tree.Limits

/-!
Ways down the tree. Each node on such a way was listed below the one before it, whatever stones
answered and whatever happened in between. The nodes come in the order of their kinds, their paths
go on from one another, and the locator of a leaf leads back to what the nodes above it are.
-/

namespace ImageBrowser

open Program (Meets)
open Smalltalk (Snippet)

def NodeKind.depth : NodeKind → Nat
  | dictionary => 0
  | classCategory => 1
  | cls | global => 2
  | definition | comment | side => 3
  | category => 4
  | method => 5

namespace Node

def cls? : Node → Option ClassPath
  | .cls path | .definition path | .comment path => some path
  | .side path | .category path _ | .method path _ _ => some path.cls
  | _ => none

def side? : Node → Option SidePath
  | .side path | .category path _ | .method path _ _ => some path
  | _ => none

structure Leads (above below : Node) : Prop where
  path : below.path = above.path
  cls : ∀ path ∈ above.cls?, below.cls? = some path
  side : ∀ path ∈ above.side?, below.side? = some path

theorem Leads.trans {a b c : Node} (first : a.Leads b) (second : b.Leads c) : a.Leads c where
  path := second.path.trans first.path
  cls path mem := second.cls path (first.cls path mem)
  side path mem := second.side path (first.side path mem)

/-- Where a node is that has a locator which can be read: a locator names the dictionary by its name
and ends with the numeral of an environment. -/
structure Writable (n : Node) : Prop where
  placed : n.Placed
  named : n.path.name.IsText
  short : ∀ path ∈ n.side?, ∃ environment : Nat, path.environment = .whole environment ∧
    environment < 10 ^ Text.maxDigits

namespace Below

variable {session : Value} {limits : Nat → Prop} {above node : Node} {above? : Option Node}

theorem leads (below : Below session limits (some above) node) : above.Leads node := by
  cases below with
  | row | cls | global => exact ⟨rfl, nofun, nofun⟩
  | definition | comment | side => exact ⟨rfl, fun _ mem => mem, nofun⟩
  | category | method => exact ⟨rfl, fun _ mem => mem, fun _ mem => mem⟩

theorem depth_eq (below : Below session limits (some above) node) :
    node.kind.depth = above.kind.depth + 1 := by
  cases below <;> rfl

/-- Sides are listed for the environments up to a limit that was in force. -/
theorem exists_environment {path : SidePath} (below : Below session limits above? (.side path)) :
    ∃ environment limit : Nat, path.environment = .whole environment ∧ limits limit ∧
      environment ≤ limit := by
  cases below with
  | side isMeta environment inForce within => exact ⟨environment, _, rfl, inForce, within⟩

theorem writable (below : Below session limits above? node)
    (short : ∀ limit, limits limit → limit < 10 ^ Text.maxDigits)
    (writable : ∀ m ∈ above?, m.Writable) : node.Writable where
  placed := below.placed fun m mem => (writable m mem).placed
  named := by
    cases below with
    | dictionary index name => exact ⟨name, rfl⟩
    | _ => exact (writable _ rfl).named
  short := by
    cases below with
    | side isMeta environment inForce within =>
      rintro _ ⟨⟩
      exact ⟨environment, rfl, within.trans_lt (short _ inForce)⟩
    | category | method => exact (writable _ rfl).short
    | _ => exact nofun

theorem of_root (below : Below session limits none node) :
    ∃ index name, node = .dictionary ⟨session, .whole index, .text name⟩ := by
  cases below with
  | dictionary index name => exact ⟨index, name, rfl⟩

end Below

end Node

/-! One expansion -/

/-- Nothing is cached but what was read from reports, and no fetch is under way but one's own. -/
structure World.Browsable (own : Option (CacheKey × Nat)) (w : World) : Prop where
  stored : ∀ k e, w.cache.stored.find? k = some e → e.Readable
  inFlight : ∀ k f, w.cache.inFlight.find? k = some f → own = some (k, f.ticket)

structure World.Browsing (h : Handle) (settings : Settings) (own : Option (CacheKey × Nat))
    (w : World) : Prop where
  browsable : w.Browsable own
  selected : w.selection.selectedHandle = some h
  settings : w.settings = settings

theorem World.Browsing.congr {h : Handle} {settings : Settings} {own : Option (CacheKey × Nat)}
    {w v : World} (browsing : w.Browsing h settings own) (cache : v.cache = w.cache)
    (selection : v.selection = w.selection) (same : v.settings = w.settings) :
    v.Browsing h settings own where
  browsable := by
    constructor
    · rw [cache]
      exact browsing.browsable.stored
    · rw [cache]
      exact browsing.browsable.inFlight
  selected := by rw [selection, browsing.selected]
  settings := same.trans browsing.settings

namespace Tree

variable {o : Outlook} {w : World} {h : Handle} {node : Option Node}

theorem keepsCache_browsing (h : Handle) (settings : Settings) :
    KeepsCache (World.Browsing h settings) where
  stored browsing := browsing.browsable.stored
  inFlight browsing := browsing.browsable.inFlight
  recached browsing stored inFlight := ⟨⟨stored, inFlight⟩, browsing.selected, browsing.settings⟩
  ignoresCalls _ _ _ _ browsing := browsing.congr rfl rfl rfl

theorem ends_below (browsable : w.Browsable none) (selected : w.selection.selectedHandle = some h)
    (n : Notifier) (placed : ∀ m ∈ node, m.Placed) :
    (children n node).Ends o w fun outcome v => v.Browsable none ∧
      ∀ rows, outcome = .ok rows →
        ∀ m ∈ rows, Node.Below h.sessionId (· = w.settings.limit.1) node m := by
  let inv := World.Browsing h w.settings none
  have limited : Meets o inv limit (· = w.settings.limit.1) (Refused False) :=
    meets_limit_of_settings fun _ browsing => browsing.settings
  have below : ListsBelow o inv False h (· = w.settings.limit.1) node (childrenOf h node) :=
    lists_childrenOf (keepsCache_browsing h _) limited False.elim False.elim
  have listed : Meets o inv (children n node) (fun rows => ∀ m ∈ rows,
      Node.Below h.sessionId (· = w.settings.limit.1) node m) fun _ => True := by
    apply Meets.bind (P := (· = some h))
      (.step_with fun v browsing => ⟨browsing, browsing.selected⟩)
    rintro _ rfl
    have found := below.mono (fun _ below => below placed) fun _ => id
    exact Outlook.meets_reported (fun _ _ browsing => browsing.congr rfl rfl rfl) n
      (fun _ mem => absurd mem List.not_mem_nil) found
  apply (listed w ⟨browsable, selected, rfl⟩).mono
  rintro outcome v ⟨browsing, within⟩
  refine ⟨browsing.browsable, ?_⟩
  rintro rows rfl
  exact within

theorem ends_leaf {leaf : Node} (isLeaf : leaf.isLeaf) (n : Notifier) (w : World) :
    (children n (some leaf)).Ends o w fun outcome _ => outcome = .ok [] := by
  show (Program.step .selectedSession >>= _).Ends _ _ _
  rw [Program.ends_step_bind]
  cases selected : (w.step .selectedSession).1 with
  | none => rfl
  | some h =>
    have nothing : childrenOf h (some leaf) = .done [] := by
      cases leaf with
      | definition | comment | method | global => rfl
      | _ => contradiction
    show ((childrenOf h (some leaf)).handling _ _).Ends _ _ _
    rw [nothing]
    rfl

end Tree

/-! Ways of any length -/

/-- A node that was listed, the session that was selected and the limit that was in force then. -/
structure Stop where
  node : Node
  session : Value
  limit : Nat

/-- A way down from the roots, the latest node first, and the state that it led to. While no session
is selected, nothing is listed. In between, the state may become any other that can be browsed. -/
inductive Descent (o : Outlook) (w : World) : List Stop → World → Prop
  | start : Descent o w [] w
  | expand {n : Tree.Notifier} {stops : List Stop} {v u : World} {h : Handle} {rows : List Node}
      {child : Node} (descent : Descent o w stops v)
      (selected : v.selection.selectedHandle = some h)
      (runs : (Tree.children n (stops.head?.map (·.node))).Runs o v (.ok rows) u)
      (listed : child ∈ rows) :
      Descent o w (⟨child, h.sessionId, v.settings.limit.1⟩ :: stops) u
  | meanwhile {stops : List Stop} {v u : World} (descent : Descent o w stops v)
      (browsable : u.Browsable none) : Descent o w stops u

inductive Lineage : List Stop → Prop
  | nil : Lineage []
  | cons {stop : Stop} {stops : List Stop}
      (below : Node.Below stop.session (· = stop.limit) (stops.head?.map (·.node)) stop.node)
      (short : stop.limit < 10 ^ Text.maxDigits) (lineage : Lineage stops) : Lineage (stop :: stops)

theorem Settings.limitOf?_eq_natAbs {v : Value} {limit : Nat} (read : limitOf? v = some limit) :
    ∃ i, Text.parseInt? (Text.trimmed v.shown) = some i ∧ limit = i.natAbs := by
  unfold limitOf? at read
  split at read
  · cases read
  · obtain ⟨i, parsed, natural⟩ := Option.bind_eq_some_iff.mp read
    refine ⟨i, parsed, ?_⟩
    split at natural
    · cases natural
    · have := Option.some.inj natural
      omega

theorem Settings.limit_lt (s : Settings) : s.limit.1 < 10 ^ Text.maxDigits := by
  rw [limit_fst]
  cases read : limitOf? s.limitSource with
  | none => exact Nat.pow_pos (by decide)
  | some limit =>
    obtain ⟨i, parsed, rfl⟩ := limitOf?_eq_natAbs read
    exact Text.natAbs_lt_of_parseInt? parsed

namespace Lineage

variable {stops : List Stop} {stop : Stop}

theorem writable (lineage : Lineage stops) : ∀ stop ∈ stops, stop.node.Writable := by
  induction lineage with
  | nil => exact nofun
  | @cons stop stops below short lineage ih =>
    refine List.forall_mem_cons.mpr ⟨below.writable (by rintro _ rfl; exact short) ?_, ih⟩
    intro m mem
    obtain ⟨above, first, rfl⟩ := Option.map_eq_some_iff.mp mem
    exact ih above (List.mem_of_mem_head? first)

theorem nearest {above : Stop} (lineage : Lineage (stop :: above :: stops)) :
    Node.Below stop.session (· = stop.limit) (some above.node) stop.node := by
  cases lineage with
  | cons below => exact below

theorem tail (lineage : Lineage (stop :: stops)) : Lineage stops := by
  cases lineage with
  | cons _ _ lineage => exact lineage

theorem depth_eq (lineage : Lineage (stop :: stops)) : stop.node.kind.depth = stops.length := by
  induction stops generalizing stop with
  | nil =>
    cases lineage with
    | cons below =>
      obtain ⟨index, name, same⟩ := below.of_root
      rw [same]
      rfl
  | cons above stops ih => rw [lineage.nearest.depth_eq, ih lineage.tail, List.length_cons]

theorem depths (lineage : Lineage stops) :
    stops.reverse.map (·.node.kind.depth) = List.range stops.length := by
  induction stops with
  | nil => rfl
  | cons stop stops ih =>
    rw [List.reverse_cons, List.map_append, ih lineage.tail, List.length_cons, List.range_succ,
      ← lineage.depth_eq]
    rfl

theorem length_le (lineage : Lineage stops) : stops.length ≤ 6 := by
  cases stops with
  | nil => decide
  | cons stop stops =>
    have deepest : stop.node.kind.depth ≤ 5 := by cases stop.node.kind <;> decide
    rw [List.length_cons, ← lineage.depth_eq]
    omega

theorem leads (lineage : Lineage stops) :
    stops.Pairwise fun below above => above.node.Leads below.node := by
  induction stops with
  | nil => exact .nil
  | cons stop stops ih =>
    have further := ih lineage.tail
    refine List.pairwise_cons.mpr ⟨?_, further⟩
    cases stops with
    | nil => exact nofun
    | cons above stops =>
      obtain ⟨nearer, -⟩ := List.pairwise_cons.mp further
      refine List.forall_mem_cons.mpr ⟨lineage.nearest.leads, fun highest mem => ?_⟩
      exact (nearer highest mem).trans lineage.nearest.leads

theorem root_session (lineage : Lineage stops) :
    ∀ root ∈ stops.getLast?, root.node.path.sessionId = root.session := by
  induction stops with
  | nil => exact nofun
  | cons stop stops ih =>
    cases stops with
    | nil =>
      rintro _ ⟨⟩
      cases lineage with
      | cons below =>
        obtain ⟨index, name, same⟩ := below.of_root
        show stop.node.path.sessionId = stop.session
        rw [same]
        rfl
    | cons above stops => exact ih lineage.tail

theorem within (lineage : Lineage stops) : ∀ stop ∈ stops, ∀ path, stop.node = .side path →
    ∃ environment : Nat, path.environment = .whole environment ∧ environment ≤ stop.limit := by
  induction lineage with
  | nil => exact nofun
  | @cons stop stops below short lineage ih =>
    refine List.forall_mem_cons.mpr ⟨?_, ih⟩
    intro path same
    rw [same] at below
    obtain ⟨environment, _, number, rfl, within⟩ := below.exists_environment
    exact ⟨environment, number, within⟩

end Lineage

theorem Descent.lineage {o : Outlook} {w v : World} {stops : List Stop}
    (descent : Descent o w stops v) (browsable : w.Browsable none) :
    Lineage stops ∧ v.Browsable none := by
  induction descent with
  | start => exact ⟨.nil, browsable⟩
  | @expand n stops v u h rows child descent selected runs listed ih =>
    obtain ⟨lineage, browsable⟩ := ih
    have placed : ∀ m ∈ stops.head?.map (·.node), m.Placed := by
      intro m mem
      obtain ⟨above, first, rfl⟩ := Option.map_eq_some_iff.mp mem
      exact (lineage.writable above (List.mem_of_mem_head? first)).placed
    obtain ⟨browsable, below⟩ := (Tree.ends_below browsable selected n placed).of_runs runs
    exact ⟨.cons (below rows rfl child listed) v.settings.limit_lt lineage, browsable⟩
  | meanwhile _ browsable ih => exact ⟨ih.1, browsable⟩

/-! Locators -/

/-- A location says the same as a node of dictionary, class and side. A session is shown in it by
its text. -/
structure Location.Names (l : Location) (n : Node) : Prop where
  session : l.sessionId = n.path.sessionId.shown
  dictionary : n.path.name = .text l.dictionaryName
  cls : ∀ path ∈ n.cls?, path.className = .text l.className
  side : ∀ path ∈ n.side?, ∃ isMeta category selector environment,
    l.document = .method isMeta category selector environment ∧
    path.isMeta = .flag isMeta ∧ path.environment = .whole environment

theorem Location.Names.of_leads {l : Location} {above below : Node} (names : l.Names below)
    (leads : above.Leads below) : l.Names above where
  session := leads.path ▸ names.session
  dictionary := leads.path ▸ names.dictionary
  cls path mem := names.cls path (leads.cls path mem)
  side path mem := names.side path (leads.side path mem)

namespace Locator

theorem exists_parse {l : Location} {leaf : Node} {index : Value} (writable : l.IsWritable)
    (same : ofNode leaf = ofNode (l.node index)) :
    ∃ s, ofNode leaf = .ok (some s) ∧ parse s = .ok l := by
  obtain ⟨s, made, text⟩ := ofNode_node l index
  exact ⟨s, same.trans made, parse_written writable text⟩

theorem exists_location {leaf : Node} (isLeaf : leaf.isLeaf) (other : leaf.kind ≠ .global)
    (writable : leaf.Writable) :
    ∃ s l, ofNode leaf = .ok (some s) ∧ parse s = .ok l ∧ l.Names leaf := by
  obtain ⟨placed, ⟨dictionary, named⟩, short⟩ := writable
  cases leaf with
  | definition path =>
    obtain ⟨⟨session, index, _⟩, _⟩ := path
    obtain ⟨-, className, rfl⟩ := placed
    obtain rfl := named
    let l : Location := ⟨session.shown, dictionary, className, .definition⟩
    obtain ⟨s, made, read⟩ := @exists_parse l _ index trivial rfl
    exact ⟨s, l, made, read, rfl, rfl, by rintro _ ⟨⟩; rfl, nofun⟩
  | comment path =>
    obtain ⟨⟨session, index, _⟩, _⟩ := path
    obtain ⟨-, className, rfl⟩ := placed
    obtain rfl := named
    let l : Location := ⟨session.shown, dictionary, className, .comment⟩
    obtain ⟨s, made, read⟩ := @exists_parse l _ index trivial rfl
    exact ⟨s, l, made, read, rfl, rfl, by rintro _ ⟨⟩; rfl, nofun⟩
  | method path row selector =>
    obtain ⟨⟨⟨session, index, _⟩, _⟩, _, _⟩ := path
    obtain ⟨⟨⟨-, className, rfl⟩, ⟨isMeta, rfl⟩, -⟩, -⟩ := placed
    obtain rfl := named
    obtain ⟨environment, rfl, small⟩ := short _ rfl
    let l : Location :=
      ⟨session.shown, dictionary, className, .method isMeta row.shown selector.shown environment⟩
    obtain ⟨s, made, read⟩ := @exists_parse l _ index
      ⟨Int.natCast_nonneg _, small⟩ rfl
    exact ⟨s, l, made, read, rfl, rfl, by rintro _ ⟨⟩; rfl,
      by rintro _ ⟨⟩; exact ⟨_, _, _, _, rfl, rfl, rfl⟩⟩
  | _ => contradiction

end Locator

/-- Whatever stones answer and whatever the limits are: a way down has at most six nodes, which come
in the order of their kinds and agree with those above them in dictionary, class and side. The first
is of the session that was selected, and a side is listed within the limit that was in force. Leaves
have no children; and the locator of one leads to what the nodes above it are. -/
theorem descent_keeps_path {o : Outlook} {w v : World} {stops : List Stop}
    (browsable : w.Browsable none) (descent : Descent o w stops v) :
    stops.length ≤ 6 ∧
    stops.reverse.map (·.node.kind.depth) = List.range stops.length ∧
    stops.Pairwise (fun below above => above.node.Leads below.node) ∧
    (∀ root ∈ stops.getLast?, root.node.path.sessionId = root.session) ∧
    (∀ stop ∈ stops, ∀ path, stop.node = .side path →
      ∃ environment : Nat, path.environment = .whole environment ∧ environment ≤ stop.limit) ∧
    (∀ stop ∈ stops, stop.node.isLeaf → ∀ n u,
      (Tree.children n (some stop.node)).Ends o u fun outcome _ => outcome = .ok []) ∧
    ∀ leaf ∈ stops.head?, leaf.node.isLeaf → leaf.node.kind ≠ .global →
      ∃ s l, Locator.ofNode leaf.node = .ok (some s) ∧ Locator.parse s = .ok l ∧
        ∀ stop ∈ stops, l.Names stop.node := by
  obtain ⟨lineage, -⟩ := descent.lineage browsable
  refine ⟨lineage.length_le, lineage.depths, lineage.leads, lineage.root_session, lineage.within,
    fun stop _ isLeaf n u => Tree.ends_leaf isLeaf n u, ?_⟩
  intro leaf first isLeaf other
  obtain ⟨stops, rfl⟩ := List.head?_eq_some_iff.mp first
  obtain ⟨s, l, located, read, names⟩ :=
    Locator.exists_location isLeaf other (lineage.writable leaf List.mem_cons_self)
  obtain ⟨leads, -⟩ := List.pairwise_cons.mp lineage.leads
  refine ⟨s, l, located, read, List.forall_mem_cons.mpr ⟨names, fun above mem => ?_⟩⟩
  exact names.of_leads (leads above mem)

/-! The way to a method -/

def laterMethod : WorkingStone where
  result source := ⟨1, source, ""⟩
  text object :=
    if object.description = .text Snippet.dictionaryNames.source then reportOf [["Globals"]]
    else if object.description = .text (Snippet.dictionaryEntries 1).source then
      reportOf [DictionaryEntry.row ⟨true, "Kernel", "Order"⟩]
    else reportOf [["Order", "1", "accessing", "total"]]

theorem textOf_laterMethod (snippet : Snippet) : laterMethod.textOf snippet =
    if Value.text snippet.source = .text Snippet.dictionaryNames.source then reportOf [["Globals"]]
    else if Value.text snippet.source = .text (Snippet.dictionaryEntries 1).source then
      reportOf [DictionaryEntry.row ⟨true, "Kernel", "Order"⟩]
    else reportOf [["Order", "1", "accessing", "total"]] := rfl

theorem names_laterMethod :
    Text.lines (Text.upTo Handle.maxResultSize (laterMethod.textOf .dictionaryNames)) =
      ["Globals"] := by
  rw [textOf_laterMethod, if_pos rfl]
  decide +kernel

theorem bindingsAt_laterMethod :
    laterMethod.bindingsAt 1 = [⟨.flag true, .text "Kernel", .text "Order"⟩] := by
  have other : Value.text (Snippet.dictionaryEntries 1).source ≠
      .text Snippet.dictionaryNames.source := by decide +kernel
  rw [WorkingStone.bindingsAt, textOf_laterMethod, if_neg other, if_pos rfl]
  decide +kernel

theorem rowsAt_laterMethod :
    laterMethod.rowsAt 1 "Order" 1 = [⟨false, 1, "accessing", ["total"]⟩] := by
  have other : Value.text (Snippet.classEnvironments 1 "Order" 1).source ≠
      .text Snippet.dictionaryNames.source := by decide +kernel
  have other' : Value.text (Snippet.classEnvironments 1 "Order" 1).source ≠
      .text (Snippet.dictionaryEntries 1).source := by decide +kernel
  rw [WorkingStone.rowsAt, textOf_laterMethod, if_neg other, if_neg other']
  decide +kernel

def limitedWorld : World := { browsingWorld with settings := { override := .whole 1 } }

theorem limit_limitedWorld : limitedWorld.settings.limit.1 = 1 := by decide +kernel

def limitedStop (node : Node) : Stop := ⟨node, .text "session-1", 1⟩

structure LimitedDescent (nodes : List Node) (v : World) : Prop where
  descent : Descent laterMethod.outlook limitedWorld (nodes.map limitedStop) v
  faithful : laterMethod.Faithful browsingHandle limitedWorld.settings v

namespace LimitedDescent

abbrev Shows (v : World) (node : Option Node) (rows : List Node) : Prop :=
  (Tree.children .log node).Ends laterMethod.outlook v fun outcome _ => outcome = .ok rows

theorem start : LimitedDescent [] limitedWorld where
  descent := .start
  faithful := WorkingStone.faithful_start selected_browsingWorld rfl rfl rfl

theorem expand {nodes rows : List Node} {child : Node} {v : World}
    (descent : LimitedDescent nodes v) (shows : Shows v nodes.head? rows) (listed : child ∈ rows) :
    ∃ u, (Tree.children .log nodes.head?).Runs laterMethod.outlook v (.ok rows) u ∧
      LimitedDescent (child :: nodes) u := by
  obtain ⟨_, u, runs⟩ := shows.exists_runs
  obtain rfl := shows.of_runs runs
  have latest : nodes.head? = (nodes.map limitedStop).head?.map (·.node) := by cases nodes <;> rfl
  have further := descent.descent.expand descent.faithful.selected (latest ▸ runs) listed
  rw [descent.faithful.settings, limit_limitedWorld] at further
  exact ⟨u, runs, further, ((descent.faithful.leaves_children .log nodes.head?).of_runs runs).1⟩

theorem to_class : ∃ v, LimitedDescent [.cls orderPath, kernel, .dictionary globalsPath] v := by
  have settled : laterMethod.Settled browsingHandle (Listed []) limitedWorld :=
    WorkingStone.settled_start selected_browsingWorld rfl rfl rfl
  have roots : Shows limitedWorld none [.dictionary globalsPath] := by
    apply ((yields_roots .log start.faithful.selected).ends rfl).mono
    rintro _ _ ⟨_, rfl, same, _⟩
    rw [names_laterMethod] at same
    exact congrArg Except.ok same
  obtain ⟨a, first, descent⟩ := start.expand roots (.head _)
  have built : ClassCategories.ofBindings (laterMethod.bindingsAt 1) =
      .ok ⟨[(.text "Kernel", [.text "Order"])], []⟩ := by
    rw [bindingsAt_laterMethod]
    cbv
  have atRoots := Visited.start.expand first
  have categories : Shows a (some (.dictionary globalsPath))
      [.classCategory globalsPath (.text allRow), kernel] :=
    WorkingStone.ends_dictionary (atRoots.settled settled) .log lists_globalsPath built (by cbv)
  obtain ⟨b, second, descent⟩ := descent.expand categories (.tail _ (.head _))
  have atDictionary := atRoots.expand second
  have classes : Shows b (some kernel) [.cls orderPath] :=
    (WorkingStone.ends_classCategory (atDictionary.settled settled) .log lists_globalsPath built
      (by cbv)).mono fun _ _ ended => ended.1 (.inr lists_globalsPath)
  obtain ⟨c, -, descent⟩ := descent.expand classes (.head _)
  exact ⟨c, descent⟩

theorem to_method : ∃ v, LimitedDescent
    [.method (orderSide 1) (.text "accessing") (.text "total"),
      .category (orderSide 1) (.text "accessing"), .side (orderSide 1), .cls orderPath, kernel,
      .dictionary globalsPath] v := by
  obtain ⟨a, descent⟩ := to_class
  have sides : Shows a (some (.cls orderPath)) ([.definition orderPath, .comment orderPath] ++
      orderPath.sidesUpTo limitedWorld.settings.limit.1 false ++
      orderPath.sidesUpTo limitedWorld.settings.limit.1 true) :=
    descent.faithful.ends_children .log (WorkingStone.meets_sides orderPath)
  rw [limit_limitedWorld] at sides
  obtain ⟨b, -, descent⟩ := @expand _ _ (.side (orderSide 1)) _ descent sides (by decide)
  have index : orderPath.dictionary.index = .whole 1 := rfl
  obtain ⟨e, read, fetched⟩ := @WorkingStone.exists_environments laterMethod browsingHandle
    limitedWorld.settings 1 "Order" orderPath ⟨_, rfl⟩ index rfl
  rw [limit_limitedWorld, Nat.cast_one, rowsAt_laterMethod, Environments.ofListings_current] at read
  obtain rfl := Except.ok.inj read
  have categories : Shows b (some (.side (orderSide 1)))
      ([allRow, "accessing"].map fun row => .category (orderSide 1) (.text row)) :=
    descent.faithful.ends_side .log fetched (by cbv)
  obtain ⟨c, -, descent⟩ := descent.expand categories (.tail _ (.head _))
  have methods : Shows c (some (.category (orderSide 1) (.text "accessing")))
      (["total"].map fun selector => .method (orderSide 1) (.text "accessing") (.text selector)) :=
    descent.faithful.ends_category .log fetched (by decide) (by cbv)
  obtain ⟨d, -, descent⟩ := descent.expand methods (.head _)
  exact ⟨d, descent⟩

end LimitedDescent

theorem locator_of_descent : ∃ stops v, Descent laterMethod.outlook limitedWorld stops v ∧
    stops.map (·.node) =
      [.method (orderSide 1) (.text "accessing") (.text "total"),
        .category (orderSide 1) (.text "accessing"), .side (orderSide 1), .cls orderPath, kernel,
        .dictionary globalsPath] ∧
    ∃ l, Locator.parse "gemstone://session-1/Globals/Order/instance/accessing/total?env=1" = .ok l ∧
      ∀ stop ∈ stops, l.Names stop.node := by
  obtain ⟨v, descent, -⟩ := LimitedDescent.to_method
  have browsable : limitedWorld.Browsable none := ⟨nofun, nofun⟩
  obtain ⟨-, -, -, -, -, -, located⟩ := descent_keeps_path browsable descent
  obtain ⟨s, l, made, read, names⟩ := located _ rfl rfl nofun
  have written : Locator.ofNode (.method (orderSide 1) (.text "accessing") (.text "total")) =
      .ok (some "gemstone://session-1/Globals/Order/instance/accessing/total?env=1") := by cbv
  obtain rfl := Option.some.inj (Except.ok.inj (written.symm.trans made))
  exact ⟨_, v, descent, rfl, l, read, names⟩

end ImageBrowser
