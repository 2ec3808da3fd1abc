import ImageBrowser.Proofs.Tools.Contract
import ImageBrowser.Proofs.Tools.Malformed

/-!
Tool by tool, what it does where it is given what it relies on: it keeps the state of sessions and
tree sound, and answers properly. Each failure on the way is followed to the handler that answers
it.
-/

namespace ImageBrowser

open Program (Meets)
open Smalltalk (SnippetKind)

/-! The tools -/

namespace Tools

open Response (Proper areFree proper_success proper_failure)
open ImageBrowser.Tree (Refused)

variable {o : Outlook} {fair : Prop} {α : Type} {P : α → Prop} {inv : World → Prop}

/-- A tool keeps the state sound, and answers properly where `fair` holds. -/
abbrev Serves (o : Outlook) (fair : Prop) (p : Program Response) : Prop :=
  Meets o (World.Sound none) p Proper fun _ => ¬ fair

theorem meets_answering {p : Program α} {handles : Fault → Bool} {answer : Fault → Program Response}
    {next : α → Program Response}
    (first : Meets o (World.Sound none) p P fun f => fair → handles f)
    (failed : ∀ f, Serves o fair (answer f)) (worked : ∀ a, P a → Serves o fair (next a)) :
    Serves o fair (answering p handles answer next) := by
  apply first.attempt.bind
  intro outcome within
  cases outcome with
  | ok a => exact worked a within
  | error f =>
    dsimp only
    split
    · exact failed f
    · next other => exact .fail fun isFair => other (within isFair)

theorem meets_inSelected {body : Handle → Program α}
    (bodies : ∀ h, Meets o (World.Sound none) (body h) P (Refused fair)) :
    Meets o (World.Sound none) (inSelected body) P fun f => fair → f.isExpected := by
  have chosen : Meets o (World.Sound none) selectedHandle (fun _ => True) (Refused fair) := by
    apply Meets.bind (.step fun _ sound => sound)
    intro selected _
    cases selected with
    | none => exact .fail fun _ => rfl
    | some h => exact .done trivial
  exact (chosen.bind fun h _ => bodies h).mono (fun _ => id)
    fun _ refused isFair => Fault.isExpected_of_isRefusal (refused isFair)

theorem serves_query {name : String} {details : Fields} {body : Handle → Program Value}
    (names : areFree (name :: details.map (·.1)))
    (bodies : ∀ h, Meets o (World.Sound none) (body h) (fun _ => True) (Refused fair)) :
    Serves o fair (query name details body) := by
  apply meets_answering (meets_inSelected bodies)
  · intro f
    rw [areFree, List.all_cons, Bool.and_eq_true] at names
    exact .done (proper_failure names.2)
  · intro v _
    exact .done (proper_success names)

theorem serves_refreshed {r : Response} (proper : r.Proper) :
    Serves o fair (do Tree.refresh; return r) :=
  Tree.meets_refresh.bind fun _ _ => .done proper

theorem serves_mutation {s : Switches} {t : Tool} {details : Fields}
    {body : Handle → Program (Option Value)}
    (names : areFree (details.map (·.1)))
    (bodies : ∀ h, Meets o (World.Sound none) (body h) (fun _ => True) (Refused fair)) :
    Serves o fair (mutation s t details body) := by
  unfold mutation
  split
  · apply meets_answering (meets_inSelected bodies)
    · exact fun f => .done (proper_failure names)
    · intro v _
      apply serves_refreshed (proper_success _)
      cases v with
      | none => simpa using names
      | some v => simpa [areFree] using names
  · exact .done (proper_failure rfl)

theorem serves_control {body : Handle → Program Unit}
    (bodies : ∀ h, Meets o (World.Sound none) (body h) (fun _ => True) (Refused fair)) :
    Serves o fair (control body) :=
  meets_answering (meets_inSelected bodies) (fun _ => .done (proper_failure rfl)) fun _ _ =>
    serves_refreshed (proper_success rfl)

theorem meets_isSelected (id : Value) {bad : Fault → Prop} :
    Meets o inv (isSelected id) (fun _ => True) bad :=
  .map (.step fun _ holds => holds)

theorem meets_rowsFor {row : α → Program Value} {bad : Fault → Prop} {as : List α}
    (rows : ∀ a ∈ as, Meets o inv (row a) (fun _ => True) bad) :
    Meets o inv (rowsFor row as) (fun _ => True) bad := by
  induction as with
  | nil => exact .done trivial
  | cons a as ih =>
    exact (rows a List.mem_cons_self).bind fun _ _ =>
      (ih fun a mem => rows a (List.mem_cons_of_mem _ mem)).bind fun _ _ => .done trivial

/-! Sessions -/

theorem serves_enroll {c : Connection} {mode summary : Value} :
    Serves o fair (enroll c mode summary) := by
  intro w sound
  have answered (id : Value) : Serves o fair (do
      return Response.success
        [("session_id", id), ("connection_mode", mode), ("session", summary),
          ("selected", ← isSelected id)]) :=
    (meets_isSelected id).bind fun _ _ => .done (proper_success rfl)
  unfold enroll
  rw [Program.ends_bind]
  apply (Sessions.ends_add sound fun _ => rfl).mono
  rintro (f | id) v ⟨sound, known⟩
  · exact ⟨sound, known⟩
  show (Program.step .selectedSession >>= _).Ends _ _ _
  rw [Program.ends_step_bind]
  dsimp only
  split
  · rw [Program.ends_bind]
    apply (Sessions.ends_select sound fun _ => known).mono
    rintro (f | _) v ⟨sound, within⟩
    · exact ⟨sound, within⟩
    · exact answered id v sound
  · exact answered id v sound

theorem serves_connect {mode user password stone host service : Value}
    (fails : fair → o.FailsFromStone) (logins : fair → ∀ f, o.login (.error f) → ∃ e, f = .stone e)
    (logOuts : fair → ∀ f, ¬ o.ask .logOut (.error f)) :
    Serves o fair (connect mode user password stone host service) := by
  unfold connect
  split
  · exact .done (proper_failure rfl)
  next l _ =>
  have opened : Meets o (World.Sound none) l.open (fun _ => True) (Refused fair) := by
    have loggedIn : Meets o (World.Sound none) (Program.login l) (fun _ => True)
        fun f => fair → ∃ e, f = .stone e := by
      apply Meets.login
      intro answer admitted
      cases answer with
      | ok c => trivial
      | error f => exact fun isFair => logins isFair f admitted
    apply Meets.bind (.log _)
    intro _ _
    refine Meets.handled (loggedIn.mono (fun _ => id) ?_) fun f => .fail fun _ => rfl
    intro f failed isFair
    obtain ⟨e, rfl⟩ := failed isFair
    rfl
  have asked (c : Connection) (r : Request) :
      Meets o (World.Sound none) (Program.ask c r) (fun _ => True)
        fun f => fair → f.isFromStone := by
    apply Meets.ask
    intro answer admitted
    cases answer with
    | ok a => trivial
    | error f => exact fun isFair => fails isFair r f admitted
  have summarized (c : Connection) : Meets o (World.Sound none) c.summary (fun _ => True)
      fun f => fair → f.isFromStone := by
    have value (r : Request) (answers : r.Answer = RemoteObject) :
        Meets o (World.Sound none) (do
          let object ← Program.ask c r
          Program.ask c (.fetch (cast answers object))) (fun _ => True)
          fun f => fair → f.isFromStone :=
      (asked c r).bind fun _ _ => asked c _
    exact (value .stoneName rfl).bind fun _ _ => (value .hostName rfl).bind fun _ _ =>
      (value .userId rfl).bind fun _ _ =>
      (value (.execute (.text "System session")) rfl).bind fun _ _ => .done trivial
  have closed (c : Connection) (f : Fault) :
      Serves o fair (do c.logOut; return Response.ofFault f []) := by
    refine .bind (P := fun _ => True) (.ask ?_) fun _ _ => .done (proper_failure rfl)
    intro answer admitted
    cases answer with
    | ok u => trivial
    | error f => exact fun isFair => logOuts isFair f admitted
  apply meets_answering opened fun _ => .done (proper_failure rfl)
  intro c _
  exact meets_answering (summarized c) (closed c) fun _ _ => serves_enroll

theorem serves_disconnect {id : Value} (fails : fair → o.FailsFromStone)
    (isText : fair → id.IsText) : Serves o fair (disconnect id) := by
  have loggedOut (h : Handle) : Serves o fair (answering h.connection.logOut Fault.isFromStone
      (failing [("session_id", id)]) fun _ => return .success [("session_id", id)]) := by
    apply meets_answering (P := fun _ => True) (.ask _) (fun _ => .done (proper_failure rfl))
      fun _ _ => .done (proper_success rfl)
    intro answer admitted
    cases answer with
    | ok u => trivial
    | error f => exact fun isFair => fails isFair _ f admitted
  apply Sessions.meets_ifKnown (fun isFair => (isText isFair).isKey) (fun _ unfair => unfair) _
    (.done (proper_failure rfl))
  intro w sound known
  rw [Program.ends_bind]
  apply (Sessions.ends_remove sound fun _ => known).mono
  rintro (f | h) v ⟨sound, within⟩
  · exact ⟨sound, within⟩
  · exact loggedOut h v sound

theorem serves_selectSession {id : Value} (isText : fair → id.IsText) :
    Serves o fair (selectSession id) := by
  apply Sessions.meets_ifKnown (fun isFair => (isText isFair).isKey) (fun _ unfair => unfair) _
    (.done (proper_failure rfl))
  intro w sound known
  rw [Program.ends_bind]
  apply (Sessions.ends_select sound fun _ => known).mono
  rintro (f | _) v ⟨sound, within⟩
  · exact ⟨sound, within⟩
  · exact ⟨sound, proper_success rfl⟩

theorem serves_listSessions : Serves o fair listSessions := by
  intro w sound
  show (Program.step .sessionIds >>= _).Ends _ _ _
  rw [Program.ends_step_bind]
  have row (id : Value) (mem : id ∈ w.selection.ids) :
      Meets o (· = w) (sessionRow id) (fun _ => True) fun _ => ¬ fair := by
    have described : Meets o (· = w) (Sessions.metadata id) (fun _ => True) fun _ => ¬ fair := by
      rintro v rfl
      exact Sessions.ends_metadata rfl fun _ => Sessions.known_of_mem_ids sound mem
    exact described.bind fun _ _ => (meets_isSelected id).bind fun _ _ => .done trivial
  rw [Program.ends_bind]
  apply (meets_rowsFor row w rfl).mono
  rintro (f | rows) v ⟨rfl, within⟩
  · exact ⟨sound, within⟩
  · exact ⟨sound, proper_success rfl⟩

/-! The tree -/

/-- Showing the children changes nothing, so that what was noted while they were found decides both
whether all went well and whether there is an error. -/
theorem serves_browseNode {node : Option Node} (fails : fair → o.FailsFromStone)
    (typed : fair → ∀ n ∈ node, n.Typed) : Serves o fair (browseNode node) := by
  apply Meets.bind (.step fun _ sound => sound.congr rfl rfl rfl rfl)
  intro _ _
  apply (Tree.meets_children fails typed).bind
  intro children shown w sound
  show (Program.step .notices >>= _).Ends _ _ _
  rw [Program.ends_step_bind]
  have rows : Meets o (· = w) (rowsFor childRow children) (fun _ => True) fun _ => ¬ fair := by
    apply meets_rowsFor
    intro child mem
    exact (Tree.meets_item fun isFair => shown isFair child mem).bind fun _ _ => .done trivial
  rw [Program.ends_bind]
  apply (rows w rfl).mono
  rintro (f | rows) v ⟨rfl, within⟩
  · exact ⟨sound, within⟩
  · show (Program.step .notices >>= _).Ends _ _ _
    rw [Program.ends_step_bind]
    refine ⟨sound, ?_, rfl⟩
    show v.notices.isEmpty = Option.isNone (if v.notices.isEmpty then none else some _)
    cases v.notices.isEmpty <;> rfl

theorem meets_nodeOf (v : Value) :
    Meets o inv (nodeOf v) (fun node => ∀ n ∈ node, v ≠ .null ∧ Node.ofValue v = .ok n)
      fun f => isMalformed f := by
  unfold nodeOf
  split
  · exact .done nofun
  · next some =>
    apply Meets.map
    apply Meets.ofExcept
    apply (Node.malformed_ofValue v).itself.mono _ fun _ => id
    rintro n same _ ⟨⟩
    exact ⟨some, same⟩

theorem serves_browse {node : Value} (fails : fair → o.FailsFromStone)
    (typed : fair → node = .null ∨ ∀ n, Node.ofValue node = .ok n → n.Typed ∧ n.isWritable) :
    Serves o fair (browse node) := by
  apply meets_answering ((meets_nodeOf node).mono (fun _ => id) fun _ malformed _ => malformed)
    fun _ => .done (proper_failure rfl)
  intro found read
  apply serves_browseNode fails
  intro isFair n mem
  obtain ⟨present, same⟩ := read n mem
  exact ((typed isFair).resolve_left present n same).1

theorem meets_handleFor (s : String) :
    Meets o inv (handleFor (.text s)) (fun _ => True) (Refused fair) := by
  refine Sessions.meets_ifKnown (fun _ => rfl) (fun _ unfair isFair => absurd isFair unfair) ?_
    (.fail fun _ => rfl)
  intro w holds known
  apply (Sessions.ends_get holds fun _ => known).mono
  exact fun _ _ ended => ⟨ended.1, ended.2.mono (fun _ => id) fun _ unfair isFair =>
    absurd isFair unfair⟩

theorem meets_contentAt (l : Location) (fails : fair → o.FailsFromStone) :
    Meets o (World.Sound none) (contentAt l) (fun _ => True) (Refused fair) := by
  have run {h : Handle} {label : String} {kind : SnippetKind} {values : List Value}
      (formed : ∃ snippet, kind.snippet values = .ok snippet) :
      Meets o (World.Sound none) (h.run label kind values) (fun _ => True) (Refused fair) :=
    Handle.meets_run (World.Sound.ignoresCalls none) fails fun _ => formed
  apply (meets_handleFor l.sessionId).bind
  intro h _
  split
  · exact run ⟨_, rfl⟩
  · exact run ⟨_, rfl⟩
  · exact run (formed_methodSource (Value.isText_text _) (Value.isText_text _) ⟨_, rfl⟩)

theorem serves_getContent {node locator : Value} (fails : fair → o.FailsFromStone)
    (typed : fair → node = .null ∨ ∀ n, Node.ofValue node = .ok n → n.Typed ∧ n.isWritable)
    (isText : fair → locator = .null ∨ locator.IsText) :
    Serves o fair (getContent node locator) := by
  have refused {p : Program String}
      (meets : Meets o (World.Sound none) p (fun _ => True) (Refused fair)) :
      Meets o (World.Sound none) p (fun _ => True)
        fun f => fair → f.isExpected || isMalformed f :=
    meets.mono (fun _ => id) fun f refused isFair => by
      rw [Fault.isExpected_of_isRefusal (refused isFair), Bool.true_or]
  have answered (f : Fault) (malformed : isMalformed f) : f.isExpected || isMalformed f := by
    rw [malformed, Bool.or_true]
  refine meets_answering (P := fun _ => True) ?_ (fun _ => .done (proper_failure rfl))
    fun _ _ => .done (proper_success rfl)
  unfold contentOf
  split
  · next present =>
    refine Meets.bind (.ofExcept (.provided fun isFair => ?_)) fun l _ =>
      refused (meets_contentAt l fails)
    obtain ⟨s, rfl⟩ := (isText isFair).resolve_left present
    exact (Locator.malformed_parse s).mono (fun _ => id) answered
  split
  · next present =>
    refine Meets.bind (.ofExcept ((Node.malformed_ofValue node).itself.mono (fun _ => id)
      fun f malformed _ => answered f malformed)) fun n same => ?_
    exact refused (Tree.meets_content fails fun isFair =>
      ((typed isFair).resolve_left present n same).1)
  · exact refused (.fail fun _ => rfl)

/-! Queries and changes -/

theorem serves_compileMethod {s : Switches} {className source isMeta category environment : Value}
    (numbered : fair → o.FailsNumbered) (resolves : fair → o.Resolves)
    (named : fair → className.IsText ∧ category.IsText) (writable : fair → environment.isWritable) :
    Serves o fair (compileMethod s className source isMeta category environment) := by
  have writes (isFair : fair) :
      className.isWritable ∧ category.isWritable ∧ environment.isWritable := by
    obtain ⟨⟨_, rfl⟩, _, rfl⟩ := named isFair
    exact ⟨rfl, rfl, writable isFair⟩
  unfold compileMethod
  split
  · apply meets_answering (meets_inSelected fun h => Handle.meets_compileMethod
      (World.Sound.ignoresCalls none) numbered resolves writes) fun _ => .done (proper_failure rfl)
    intro _ _
    exact serves_refreshed (proper_success rfl)
  · exact .done (proper_failure rfl)

theorem serves_change {s : Switches} {t : Tool} {details : Fields} {kind : SnippetKind}
    {label : Handle → String} {values : List Value}
    (names : areFree (details.map (·.1)))
    (fails : fair → o.FailsFromStone)
    (formed : fair → ∃ snippet, kind.snippet values = .ok snippet) :
    Serves o fair (mutation s t details (quietly fun h => h.change (label h) kind values)) := by
  apply serves_mutation names
  intro h
  have changed : Meets o (World.Sound none) (h.change (label h) kind values) (fun _ => True)
      (Refused fair) :=
    (Handle.meets_run (World.Sound.ignoresCalls none) fails formed).bind fun _ _ => .done trivial
  exact changed.bind fun _ _ => .done trivial

theorem serves_moveDictionary {s : Switches} {name direction : Value}
    (fails : fair → o.FailsFromStone) (isText : fair → name.IsText) :
    Serves o fair (moveDictionary s name direction) := by
  have formed {kind : SnippetKind} (forms : ∀ t, ∃ snippet, kind.snippet [.text t] = .ok snippet)
      (isFair : fair) : ∃ snippet, kind.snippet [name] = .ok snippet := by
    obtain ⟨t, rfl⟩ := isText isFair
    exact forms t
  unfold moveDictionary
  dsimp only
  split
  · exact serves_change rfl fails (formed fun _ => ⟨_, rfl⟩)
  split
  · exact serves_change rfl fails (formed fun _ => ⟨_, rfl⟩)
  · exact .done (proper_failure rfl)

theorem serves_report {β : Type} {name : String} {details : Fields} {kind : SnippetKind}
    {label : Handle → String} {values : List Value} {read : String → β} {toValue : β → Value}
    (names : areFree (name :: details.map (·.1)))
    (fails : fair → o.FailsFromStone)
    (formed : fair → ∃ snippet, kind.snippet values = .ok snippet) :
    Serves o fair (query name details fun h => do
      let found ← (do return read (← h.run (label h) kind values))
      return toValue found) := by
  apply serves_query names
  intro h
  have ran : Meets o (World.Sound none) (h.run (label h) kind values) (fun _ => True)
      (Refused fair) := Handle.meets_run (World.Sound.ignoresCalls none) fails formed
  exact .bind (P := fun _ => True) (ran.bind fun _ _ => .done trivial) fun _ _ => .done trivial

theorem run_of_length_ne (s : Switches) {t : Tool} {values : List Value}
    (miscounted : values.length ≠ t.parameters.length) :
    run s t values = Program.fail (.mismatch .wrongArguments) := by
  fun_cases run s t values
  all_goals first
    | rfl
    | exact absurd rfl miscounted

theorem serves_run (s : Switches) (t : Tool) (values : List Value) :
    Serves o (t.ReliesOn o values) (run s t values) := by
  by_cases counted : values.length = t.parameters.length
  swap
  · rw [run_of_length_ne s counted]
    exact .fail fun relies => counted relies.accepts.length_eq.symm
  have steady := World.Sound.ignoresCalls none
  match t, values, counted with
  | .connect, [_, _, _, _, _, _], _ =>
    exact serves_connect (·.fails.fromStone) (·.logins rfl) (·.logOuts rfl)
  | .disconnect, [_], _ =>
    exact serves_disconnect (·.fails.fromStone) (·.accepts.takes (i := 0) rfl rfl)
  | .listSessions, [], _ => exact serves_listSessions
  | .selectSession, [_], _ => exact serves_selectSession (·.accepts.takes (i := 0) rfl rfl)
  | .browse, [_], _ =>
    exact serves_browse (·.fails.fromStone) (·.accepts.takes (i := 0) rfl rfl)
  | .refresh, [], _ => exact serves_refreshed (proper_success rfl)
  | .getContent, [_, _], _ =>
    exact serves_getContent (·.fails.fromStone) (·.accepts.takes (i := 0) rfl rfl)
      (·.accepts.takes (i := 1) rfl rfl)
  -- Queries: names are texts, environments numbers, and any value says which side is meant.
  | .allClassNames, [], _ => exact serves_report rfl (·.fails.fromStone) fun _ => ⟨_, rfl⟩
  | .listClasses, [_], _ | .listMethodCategories, [_, _], _ | .classHierarchy, [_], _
  | .searchMethodSource, [_, _], _ =>
    refine serves_report rfl (·.fails.fromStone) fun relies => ?_
    obtain ⟨_, rfl⟩ := relies.accepts.takes (i := 0) rfl rfl
    exact ⟨_, rfl⟩
  | .listMethods, [_, _, _], _ =>
    refine serves_report rfl (·.fails.fromStone) fun relies => ?_
    obtain ⟨_, rfl⟩ := relies.accepts.takes (i := 0) rfl rfl
    obtain ⟨_, rfl⟩ := relies.accepts.takes (i := 1) rfl rfl
    exact ⟨_, rfl⟩
  | .sendersOf, [_, _], _ | .implementorsOf, [_, _], _ =>
    refine serves_report rfl (·.fails.fromStone) fun relies => ?_
    obtain ⟨_, rfl⟩ := relies.accepts.takes (i := 0) rfl rfl
    obtain ⟨⟨_, rfl⟩, _⟩ := relies.accepts.takes (i := 1) rfl rfl
    exact ⟨_, rfl⟩
  | .compileMethod, [_, _, _, _, _], _ =>
    exact serves_compileMethod (·.fails) (·.resolves rfl)
      (fun relies =>
        ⟨relies.accepts.takes (i := 0) rfl rfl, relies.accepts.takes (i := 3) rfl rfl⟩)
      fun relies => (relies.accepts.takes (p := Tool.inFirst) (i := 4) rfl rfl).2
  | .compileClassDefinition, [_], _ =>
    refine serves_mutation rfl fun h =>
      .bind (P := fun _ => True) ?_ fun _ _ => .done trivial
    exact Handle.meets_run steady (·.fails.fromStone) fun _ => ⟨_, rfl⟩
  -- Changes: the texts come first.
  | .addDictionary, [_], _ =>
    refine serves_change rfl (·.fails.fromStone) fun relies => ?_
    obtain ⟨_, rfl⟩ := relies.accepts.takes (i := 0) rfl rfl
    exact ⟨_, rfl⟩
  | .setClassComment, [_, _], _ | .deleteMethod, [_, _, _], _ | .deleteClass, [_, _], _ =>
    refine serves_change rfl (·.fails.fromStone) fun relies => ?_
    obtain ⟨_, rfl⟩ := relies.accepts.takes (i := 0) rfl rfl
    obtain ⟨_, rfl⟩ := relies.accepts.takes (i := 1) rfl rfl
    exact ⟨_, rfl⟩
  | .recategorizeMethod, [_, _, _, _], _ | .renameCategory, [_, _, _, _], _
  | .moveClass, [_, _, _], _ =>
    refine serves_change rfl (·.fails.fromStone) fun relies => ?_
    obtain ⟨_, rfl⟩ := relies.accepts.takes (i := 0) rfl rfl
    obtain ⟨_, rfl⟩ := relies.accepts.takes (i := 1) rfl rfl
    obtain ⟨_, rfl⟩ := relies.accepts.takes (i := 2) rfl rfl
    exact ⟨_, rfl⟩
  | .moveDictionary, [_, _], _ =>
    exact serves_moveDictionary (·.fails.fromStone) (·.accepts.takes (i := 0) rfl rfl)
  | .commit, [], _ =>
    refine serves_mutation rfl fun h =>
      .bind (P := fun _ => True) ?_ fun _ _ => .done trivial
    exact Handle.meets_transact steady
      (Handle.meets_request (r := .commit) steady (·.fails.fromStone))
  | .begin, [], _ =>
    exact serves_control fun h => Handle.meets_transact steady
      (Handle.meets_request (r := .begin) steady (·.fails.fromStone))
  | .abort, [], _ =>
    exact serves_control fun h => Handle.meets_transact steady
      (Handle.meets_request (r := .abort) steady (·.fails.fromStone))

theorem serves_call (s : Switches) (t : Tool) (given : List (String × Value)) :
    Serves o (∃ values, t.bindArguments given = .ok values ∧ t.ReliesOn o values)
      (call s t given) := by
  unfold call
  cases bound : t.bindArguments given with
  | ok values =>
    apply (serves_run s t values).mono fun _ => id
    rintro f other ⟨values, same, relies⟩
    cases same
    exact other relies
  | error f => exact .fail nofun

end Tools

end ImageBrowser
