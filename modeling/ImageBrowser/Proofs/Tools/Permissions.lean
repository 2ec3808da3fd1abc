import ImageBrowser.Proofs.Programs.Interleaving
import ImageBrowser.Proofs.Tools.Watch
import ImageBrowser.Proofs.Tree.Reports

/-!
A server asks nothing of a stone that its switches do not permit: every tool, with any arguments and
after anything that happened before, does only what the observer of the switches allows. Most of
what a tool does is local; what reaches a stone goes through a logical call, or is the summary that
a fresh connection is asked for.
-/

namespace ImageBrowser

open Program (Keeps)
open Smalltalk (SnippetKind)

namespace Tools

open Program (aside_act)

variable {σ α : Type} {d : Discipline σ} {inv : σ → Prop}

theorem keeps_answering {p : Program α} {handles : Fault → Bool} {answer : Fault → Program Response}
    {next : α → Program Response} (first : p.Keeps d inv) (failed : ∀ f, (answer f).Keeps d inv)
    (worked : ∀ a, (next a).Keeps d inv) : (answering p handles answer next).Keeps d inv := by
  apply Keeps.bind (.attempt first)
  intro outcome
  cases outcome with
  | ok a => exact worked a
  | error f =>
    dsimp only
    split
    · exact failed f
    · exact .fail f

theorem keeps_inSelected {body : Handle → Program α}
    (looks : (Program.step .selectedSession).Keeps d inv) (bodies : ∀ h, (body h).Keeps d inv) :
    (inSelected body).Keeps d inv := by
  have chosen : selectedHandle.Keeps d inv := by
    apply Keeps.bind looks
    intro selected
    cases selected with
    | none => exact .fail _
    | some h => exact .done h
  exact .bind chosen bodies

theorem aside_isSelected (id : Value) : (isSelected id).Aside := .map _ (aside_act rfl .done)

theorem aside_selectFirst (mode summary id : Value) : (do
    if (← Sessions.selected).isNone then Sessions.select id
    return Response.success
      [("session_id", id), ("connection_mode", mode), ("session", summary),
        ("selected", ← isSelected id)] : Program Response).Aside := by
  apply Keeps.bind (aside_act rfl .done)
  intro selected
  dsimp only
  split
  · refine .bind (Sessions.aside_select id) fun _ => ?_
    exact .bind (aside_isSelected id) fun _ => .done _
  · exact .bind (aside_isSelected id) fun _ => .done _

theorem aside_rowsFor {α : Type} {row : α → Program Value} (rows : ∀ a, (row a).Aside)
    (as : List α) : (rowsFor row as).Aside := by
  induction as with
  | nil => exact .done _
  | cons a as ih => exact .bind (rows a) fun _ => .bind ih fun _ => .done _

theorem aside_listSessions : listSessions.Aside := by
  have row (id : Value) : (sessionRow id).Aside :=
    .bind (Sessions.aside_metadata id) fun _ => .bind (aside_isSelected id) fun _ => .done _
  apply Keeps.bind (aside_act rfl .done)
  intro ids
  exact .bind (aside_rowsFor row ids) fun _ => .done _

theorem aside_selectSession (id : Value) : (selectSession id).Aside := by
  apply Keeps.bind (Sessions.aside_contains id)
  intro known
  split
  · exact .bind (Sessions.aside_select id) fun _ => .done _
  · exact .done _

theorem aside_refresh : refresh.Aside := .bind Tree.aside_refresh fun _ => .done _

theorem aside_childRow (node : Node) : (childRow node).Aside :=
  .bind (Tree.aside_item node) fun _ => .done _

theorem aside_nodeOf (node : Value) : (nodeOf node).Aside := by
  unfold nodeOf
  split
  · exact .done none
  · exact .map some (.ofExcept _)

end Tools

namespace Switches

open Tools (keeps_answering keeps_inSelected)

variable {s : Switches} {α β : Type}

theorem heeds_offline {p : Program α} (offline : p.Offline) : s.Heeds p := by
  refine offline.keeps ?_ fun _ _ _ => trivial
  intro known a near _
  cases a with
  | ask c r => cases near
  | _ => trivial

theorem heeds_aside {p : Program α} (apart : p.Aside) : s.Heeds p := heeds_offline apart.offline

/-! The tree -/

theorem heeds_entry {k : CacheKey} {fetch : Program CacheEntry} (fetches : s.Heeds fetch) :
    s.Heeds (Tree.entry k fetch) := by
  apply Keeps.bind (heeds_step _)
  intro found
  cases found with
  | found e => exact .done e
  | joined ticket => exact heeds_reply fun _ => trivial
  | owned ticket =>
    apply Keeps.bind (.attempt fetches)
    intro outcome
    exact .bind (heeds_step _) fun _ => .bind (heeds_step _) fun _ => .ofExcept outcome

theorem heeds_reports {h : Handle} {node : Option Node} {p : Program α}
    (reports : Tree.Reports h node p) : s.Heeds p := by
  induction reports with
  | query asks =>
    apply heeds_run
    cases asks with
    | _ => exact .inl rfl
  | read _ next ih => exact .bind ih fun a => heeds_aside (next a)

theorem heeds_expands {h : Handle} {node : Option Node} {p : Program α}
    (expands : Tree.Expands h node p) : s.Heeds p := by
  induction expands with
  | aside apart => exact heeds_aside apart
  | uncached _ reports => exact heeds_reports reports
  | cached _ => exact heeds_step _
  | entry _ reports => exact heeds_entry (heeds_reports reports)
  | keyed _ _ ih => exact .ofExcept_bind ih
  | after first _ ih => exact .bind (heeds_aside first) ih
  | bind _ next ih => exact .bind ih fun a => heeds_aside (next a)

theorem heeds_children (n : Tree.Notifier) (node : Option Node) :
    s.Heeds (Tree.children n node) := by
  apply Keeps.bind (heeds_step _)
  intro selected
  cases selected with
  | none => exact .done _
  | some h =>
    apply Keeps.handling (heeds_expands (Tree.expands_childrenOf node))
    intro f
    exact .bind (heeds_aside (Tree.aside_notify n _)) fun _ => .done _

theorem heeds_content (node : Node) : s.Heeds (Tree.content node) := by
  apply Keeps.bind (heeds_step _)
  intro selected
  cases selected with
  | none => exact .fail _
  | some h =>
    cases node with
    | definition _ | comment _ | method _ _ _ => exact heeds_run (.inl rfl)
    | _ => exact .fail _

/-! The tools -/

theorem heeds_query {name : String} {details : Tools.Fields} {body : Handle → Program Value}
    (bodies : ∀ h, s.Heeds (body h)) : s.Heeds (Tools.query name details body) :=
  keeps_answering (keeps_inSelected (heeds_step _) bodies) (fun _ => .done _) fun _ => .done _

theorem heeds_mutation {t : Tool} {details : Tools.Fields}
    {body : Handle → Program (Option Value)}
    (bodies : s.allowMutation → ∀ h, s.Heeds (body h)) :
    s.Heeds (Tools.mutation s t details body) := by
  unfold Tools.mutation
  split
  · next allowed =>
    apply keeps_answering (keeps_inSelected (heeds_step _) (bodies allowed)) fun _ => .done _
    intro result
    exact .bind (heeds_aside Tree.aside_refresh) fun _ => .done _
  · exact .done _

theorem heeds_change {t : Tool} {details : Tools.Fields} {kind : SnippetKind}
    {label : Handle → String} {values : List Value} :
    s.Heeds (Tools.mutation s t details
      (Tools.quietly fun h => h.change (label h) kind values)) :=
  heeds_mutation fun allowed _ =>
    .bind (.bind (heeds_run (.inr allowed)) fun _ => .done _) fun _ => .done _

theorem heeds_control {body : Handle → Program Unit} (bodies : ∀ h, s.Heeds (body h)) :
    s.Heeds (Tools.control body) :=
  keeps_answering (keeps_inSelected (heeds_step _) bodies) (fun _ => .done _) fun _ =>
    .bind (heeds_aside Tree.aside_refresh) fun _ => .done _

theorem heeds_value {c : Connection} {r : Request} (answers : r.Answer = RemoteObject)
    (objects : ∀ o, cast answers o ∈ r.objects o) (reads : ∀ known, r.Reads known) :
    s.Heeds (do
      let object ← Program.ask c r
      Program.ask c (.fetch (cast answers object))) := by
  intro known _
  refine ⟨.inl (reads _), ?_⟩
  intro answer
  cases answer with
  | error f => trivial
  | ok o =>
    have mem : cast answers o ∈ Known.after known (.ask c r) (.ok o) c := by
      simp only [Known.after, Function.update_self]
      exact List.mem_append_left _ (objects o)
    exact ⟨.inl mem, fun value => (Program.obeys_ofExcept value _ _).mpr trivial⟩

theorem heeds_summary (c : Connection) : s.Heeds c.summary := by
  have answered (o : RemoteObject) : o ∈ [o] := List.mem_singleton.mpr rfl
  apply Keeps.bind (heeds_value (r := .stoneName) rfl answered fun _ => trivial)
  intro stone
  apply Keeps.bind (heeds_value (r := .hostName) rfl answered fun _ => trivial)
  intro host
  apply Keeps.bind (heeds_value (r := .userId) rfl answered fun _ => trivial)
  intro user
  apply Keeps.bind (heeds_value (r := .execute (.text "System session")) rfl answered
    fun _ => .inl rfl)
  intro session
  exact .done _

theorem heeds_logOut (c : Connection) : s.Heeds c.logOut := heeds_reply fun _ => .inl trivial

theorem heeds_enroll (c : Connection) (mode summary : Value) :
    s.Heeds (Tools.enroll c mode summary) :=
  .bind (heeds_offline (Sessions.offline_add c _ _)) fun id =>
    heeds_aside (Tools.aside_selectFirst mode summary id)

theorem heeds_connect (mode user password stone host service : Value) :
    s.Heeds (Tools.connect mode user password stone host service) := by
  unfold Tools.connect
  split
  · exact .done _
  · next l _ =>
    have opened : s.Heeds l.open := by
      apply Keeps.bind (heeds_log _)
      intro _
      exact .handling (heeds_reply fun _ => trivial) fun _ => .fail _
    apply keeps_answering opened fun _ => .done _
    intro c
    have closed (f : Fault) : s.Heeds (do c.logOut; return Response.ofFault f []) :=
      .bind (heeds_logOut c) fun _ => .done _
    exact keeps_answering (heeds_summary c) closed (heeds_enroll c mode)

theorem heeds_disconnect (id : Value) : s.Heeds (Tools.disconnect id) := by
  apply Keeps.bind (heeds_aside (Sessions.aside_contains id))
  intro known
  split
  · apply Keeps.bind (heeds_offline (Sessions.offline_remove id))
    intro h
    exact keeps_answering (heeds_logOut _) (fun _ => .done _) fun _ => .done _
  · exact .done _

theorem heeds_browse (node : Value) : s.Heeds (Tools.browse node) := by
  apply keeps_answering (heeds_aside (Tools.aside_nodeOf node)) fun _ => .done _
  intro node
  apply Keeps.bind (heeds_step _)
  intro _
  apply Keeps.bind (heeds_children _ node)
  intro children
  apply Keeps.bind (heeds_step _)
  intro _
  apply Keeps.bind (heeds_aside (Tools.aside_rowsFor Tools.aside_childRow children))
  intro rows
  exact .bind (heeds_step _) fun _ => .done _

theorem heeds_contentAt (l : Location) : s.Heeds (Tools.contentAt l) := by
  have handle : s.Heeds (Tools.handleFor (.text l.sessionId)) := by
    apply Keeps.bind (heeds_aside (Sessions.aside_contains _))
    intro known
    split
    · exact heeds_aside (Sessions.aside_get _)
    · exact .fail _
  apply Keeps.bind handle
  intro h
  split
  all_goals exact heeds_run (.inl rfl)

theorem heeds_getContent (node locator : Value) : s.Heeds (Tools.getContent node locator) := by
  have found : s.Heeds (Tools.contentOf node locator) := by
    unfold Tools.contentOf
    split
    · exact .bind (.ofExcept _) heeds_contentAt
    split
    · exact .bind (.ofExcept _) heeds_content
    · exact .fail _
  exact keeps_answering found (fun _ => .done _) fun _ => .done _

theorem heeds_compileMethod (className source isMeta category environment : Value) :
    s.Heeds (Tools.compileMethod s className source isMeta category environment) := by
  unfold Tools.compileMethod
  split
  · next allowed =>
    have compiles : s.permits.Compiles := fun _ _ asks => .inr (.inr ⟨allowed, asks⟩)
    have compiled (h : Handle) :
        s.Heeds (h.compileMethod className isMeta category source environment) :=
      heeds_of_logical (Handle.logical_compileMethod compiles)
    apply keeps_answering (keeps_inSelected (heeds_step _) compiled) fun _ => .done _
    intro result
    exact .bind (heeds_aside Tree.aside_refresh) fun _ => .done _
  · exact .done _

theorem heeds_moveDictionary (name direction : Value) :
    s.Heeds (Tools.moveDictionary s name direction) := by
  unfold Tools.moveDictionary
  dsimp only
  split
  · exact heeds_change
  split
  · exact heeds_change
  · exact .done _

theorem heeds_tool (t : Tool) (values : List Value) : s.Heeds (Tools.run s t values) := by
  unfold Tools.run
  split
  · exact heeds_connect _ _ _ _ _ _
  · exact heeds_disconnect _
  · exact heeds_aside Tools.aside_listSessions
  · exact heeds_aside (Tools.aside_selectSession _)
  · exact heeds_browse _
  · exact heeds_aside Tools.aside_refresh
  · exact heeds_getContent _ _
  iterate 8
    exact heeds_query fun h =>
      .bind (.bind (heeds_run (.inl rfl)) fun _ => .done _) fun _ => .done _
  · exact heeds_compileMethod _ _ _ _ _
  · exact heeds_mutation fun allowed h => .bind (heeds_run (.inr allowed)) fun _ => .done _
  iterate 7 exact heeds_change
  · exact heeds_moveDictionary _ _
  · apply heeds_mutation
    intro allowed h
    have commits : h.Stays s.permits .claiming h.commit :=
      Handle.stays_calling (Handle.stays_ask fun _ => .inr (.inl ⟨allowed, trivial⟩))
    exact .bind (heeds_transact commits) fun _ => .done _
  iterate 2
    exact heeds_control fun h => heeds_transact
      (Handle.stays_calling (Handle.stays_ask fun _ => .inl trivial))
  · exact .fail _

def IsToolCall (s : Switches) (p : Program Response) : Prop :=
  ∃ t given, p = Tools.call s t given

theorem heeds_call {p : Program Response} (call : s.IsToolCall p) : s.Heeds p := by
  obtain ⟨t, given, rfl⟩ := call
  exact .bind (.ofExcept _) fun values => heeds_tool t values

def known (history : List Event) (caller : Nat) : Known :=
  System.observed Known.after (fun _ => []) caller history

/-- Whatever tools are called, in any order and interleaving, from any state and whatever the
stones answer: methods are compiled only where that is allowed, and the image is changed or kept
only where that is. With both switches off all that ever reaches a stone is a login or a request
that only reads. -/
theorem tools_keep_to_switches {w : World} {sys : System Response}
    (reach : System.Reachable s.IsToolCall w sys) {before after : List Event} {e : Event}
    (split : sys.history = before ++ e :: after) :
    (∀ {c r}, e.action = .ask c r →
      (r.isCompile → s.allowCompile) ∧ (r.Changes → s.allowMutation)) ∧
    (s.allowMutation = false → s.allowCompile = false → e.action.isRemote →
      (∃ l, e.action = .login l) ∨
        ∃ c r, e.action = .ask c r ∧ r.Reads (known before e.caller c)) := by
  have allowed := reach.allowed (fun p call => heeds_call call (fun _ => []) trivial) split
  obtain ⟨i, a, reply⟩ := e
  constructor
  · intro c r asks
    subst asks
    rcases allowed with reads | ⟨mutation, changes⟩ | ⟨compile, ofCompile⟩
    · exact ⟨fun compiles => absurd compiles (Request.not_isCompile_of_reads reads),
        fun changes => absurd changes (Request.not_changes_of_reads reads)⟩
    · exact ⟨fun compiles => absurd compiles (Request.not_isCompile_of_changes changes),
        fun _ => mutation⟩
    · exact ⟨fun _ => compile,
        fun changes => absurd changes (Request.not_changes_of_isOfCompile ofCompile)⟩
  · intro noMutation noCompile remote
    cases a with
    | login l => exact .inl ⟨l, rfl⟩
    | ask c r =>
      rcases allowed with reads | ⟨mutation, _⟩ | ⟨compile, _⟩
      · exact .inr ⟨c, r, rfl, reads⟩
      · rw [noMutation] at mutation
        contradiction
      · rw [noCompile] at compile
        contradiction
    | _ => simp [Action.isRemote] at remote

theorem tools_keep_to_switches_on_connect : ∃ (sys : System Response) (before : List Event)
    (e : Event) (c : Connection),
    System.Reachable (Switches.mk false false).IsToolCall {} sys ∧ sys.history = before ++ [e] ∧
      e.action = .ask c .stoneName ∧
      ∃ c r, e.action = .ask c r ∧ r.Reads (known before e.caller c) := by
  let c : Connection := ⟨.text "gs64stone"⟩
  have called : (Switches.mk false false).IsToolCall
      (Tools.connect (.text "linked") (.text "") (.text "") (.text "gs64stone") (.text "localhost")
        (.text "gemnetobject")) :=
    ⟨.connect, [("connection_mode", .text "linked")], rfl⟩
  have started := (System.Reachable.init (w := {})).start called
  have loggedIn := started.act (i := 0) rfl (.log _ _) |>.act (i := 0) rfl (.login _ _ (.ok c))
  have asked := loggedIn.act (i := 0) rfl (.ask _ c .stoneName (.ok ⟨1, .text "gs64stone", "gs64stone"⟩))
  obtain ⟨_, harmless⟩ := tools_keep_to_switches asked (show _ = [_, _] ++ _ :: [] from rfl)
  obtain ⟨l, login⟩ | reads := harmless rfl rfl rfl
  · contradiction
  · exact ⟨_, _, _, c, asked, rfl, rfl, reads⟩

end Switches

end ImageBrowser
