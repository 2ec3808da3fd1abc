import ImageBrowser.Proofs.Sessions.Dealings
import ImageBrowser.Proofs.Tools.Permissions

/-!
Every tool goes about the sessions as one caller may, and a tool that is refused answers that it did
not work. Only the tool that disconnects removes a session, and it logs that out unclaimed.
-/

namespace ImageBrowser

open Program (Keeps)

variable {α : Type} {removes : Prop} {h : Handle}

namespace Handle

theorem deals_run {label : String} {kind : Smalltalk.SnippetKind} {values : List Value} :
    Deals removes h.Told (h.run label kind values) := .of_logical h.run_logical

theorem deals_transact {name : String} {action : Program Unit}
    (stays : h.Stays (fun _ _ => True) .claiming action) :
    Deals removes h.Told (h.transact name action) := .of_logical (logical_transact stays)

end Handle

namespace Tree

theorem deals_reports {node : Option Node} {p : Program α} (reports : Reports h node p) :
    Deals removes h.Told p := by
  induction reports with
  | query _ => exact h.deals_run
  | read _ next ih => exact ih.bind fun a => (next a).spares

theorem deals_expands {node : Option Node} {p : Program α} (expands : Expands h node p) :
    Deals removes h.Told p := by
  induction expands with
  | aside apart => exact .of_spares apart.spares
  | uncached _ reports => exact deals_reports reports
  | cached _ => exact .of_spares (Program.only_act rfl .done)
  | entry _ reports => exact deals_entry steady_told (deals_reports reports)
  | keyed made _ ih =>
    cases made with
    | error f => exact .of_spares (.fail f)
    | ok k => exact ih k rfl
  | after first _ ih => exact .after steady_told first.spares ih
  | bind _ next ih => exact ih.bind fun a => (next a).spares

theorem deals_content (node : Node) : Deals removes (fun _ => True) (content node) := by
  apply Deals.selected (.fail _)
  intro h
  cases node with
  | definition _ | comment _ | method _ _ _ => exact h.deals_run
  | _ => exact .of_spares (.fail _)

theorem children_of_refused (node : Option Node) {done : List Doing} (unclaimed : Unclaimed done) :
    (children .gather node).Obeys (dealing removes) done fun outcome done =>
      TurnedDown done → outcome = .ok [] := by
  refine ⟨trivial, ?_⟩
  intro selected
  have unclaimed' : Unclaimed (done ++ [⟨.step .selectedSession, selected⟩]) :=
    steady_unclaimed _ _ _ rfl unclaimed
  cases selected with
  | none => exact fun refused => absurd refused unclaimed'.not_turnedDown
  | some h =>
    have told : h.Told (done ++ [⟨.step .selectedSession, some h⟩]) :=
      .inl (List.mem_append_right _ List.mem_cons_self)
    show ((childrenOf h node).attempt >>= _).Obeys _ _ _
    rw [Program.obeys_bind, Program.obeys_attempt]
    have expanded : Deals removes h.Told (childrenOf h node) :=
      deals_expands (expands_childrenOf node)
    refine (expanded _ told unclaimed').mono fun outcome done deals => ?_
    cases outcome with
    | ok children => exact fun refused => nomatch deals refused
    | error f =>
      show (if f.isExpected then _ else _ : Program (List Node)).Obeys _ _ _
      split
      · exact ⟨trivial, fun _ _ => rfl⟩
      · next unexpected =>
        intro refused
        cases deals refused
        exact absurd rfl unexpected

end Tree

/-- The call was answered, and either the answer says that it did not work, or it is that of an
expansion which found the notices of failures cleared, as another expansion does. -/
def Declined (outcome : Except Fault Response) (done : List Doing) : Prop :=
  ∃ answer, outcome = .ok answer ∧ (answer.ok = false ∨ ⟨.step .notices, []⟩ ∈ done)

/-- The tool goes about the sessions as one caller may, and declines when it is refused. -/
def Tools.Settles (removes : Prop) (p : Program Response) : Prop :=
  p.Obeys (dealing removes) [] fun outcome done => TurnedDown done → Declined outcome done

namespace Tools

/-- A tool goes on from where its first part has ended, or answers the failure, or passes it on. -/
theorem obeys_answering {σ : Type} {d : Discipline σ} {s : σ} {p : Program α}
    {handles : Fault → Bool} {answer : Fault → Program Response} {next : α → Program Response}
    {mid : Except Fault α → σ → Prop} {post : Except Fault Response → σ → Prop}
    (first : p.Obeys d s mid) (worked : ∀ a s, mid (.ok a) s → (next a).Obeys d s post)
    (handled : ∀ f s, handles f → mid (.error f) s → (answer f).Obeys d s post)
    (passed : ∀ f s, ¬ handles f → mid (.error f) s → post (.error f) s) :
    (answering p handles answer next).Obeys d s post := by
  show (p.attempt >>= _).Obeys _ _ _
  rw [Program.obeys_bind, Program.obeys_attempt]
  refine first.mono fun outcome s ended => ?_
  cases outcome with
  | ok a => exact worked a s ended
  | error f =>
    show (if handles f then _ else _ : Program Response).Obeys _ _ _
    split
    · next handles => exact handled f s handles ended
    · next other => exact passed f s other ended

theorem settles_of_unclaimed {p : Program Response}
    (obeys : p.Obeys (dealing removes) [] fun _ done => Unclaimed done) : Settles removes p :=
  obeys.mono fun _ _ unclaimed refused => absurd refused unclaimed.not_turnedDown

theorem settles_aside {p : Program Response} (apart : p.Aside) : Settles removes p :=
  settles_of_unclaimed (apart.spares.keepsDealing steady_unclaimed [] .nil)

theorem settles_answering {p : Program α} {handles : Fault → Bool} {details : Fields}
    {next : α → Program Response} (first : Deals removes (fun _ => True) p)
    (busy : handles (.refused .busy)) (goesOn : ∀ a, (next a).Spares) :
    Settles removes (answering p handles (failing details) next) := by
  apply obeys_answering (first [] trivial .nil)
  · intro a done deals
    have free : ¬ TurnedDown done := fun refused => nomatch deals refused
    exact ((goesOn a).keepsDealing steady_not_turnedDown done free).mono
      fun _ _ free refused => absurd refused free
  · exact fun _ _ _ _ _ => ⟨_, rfl, .inl rfl⟩
  · intro f done unhandled deals refused
    cases deals refused
    exact absurd busy unhandled

theorem deals_inSelected {body : Handle → Program α}
    (bodies : ∀ h, Deals removes h.Told (body h)) :
    Deals removes (fun _ => True) (inSelected body) := .selected (.fail _) bodies

theorem settles_query {name : String} {details : Fields} {body : Handle → Program Value}
    (bodies : ∀ h, Deals removes h.Told (body h)) : Settles removes (query name details body) :=
  settles_answering (deals_inSelected bodies) rfl fun _ => .done _

theorem settles_mutation {s : Switches} {t : Tool} {details : Fields}
    {body : Handle → Program (Option Value)} (bodies : ∀ h, Deals removes h.Told (body h)) :
    Settles removes (mutation s t details body) := by
  unfold mutation
  split
  · exact settles_answering (deals_inSelected bodies) rfl fun _ =>
      .bind Tree.aside_refresh.spares fun _ => .done _
  · exact settles_aside (.done _)

theorem settles_change {s : Switches} {t : Tool} {details : Fields} {kind : Smalltalk.SnippetKind}
    {label : Handle → String} {values : List Value} :
    Settles removes (mutation s t details (quietly fun h => h.change (label h) kind values)) :=
  settles_mutation fun h => (h.deals_run.bind fun _ => .done _).bind fun _ => .done _

theorem settles_control {body : Handle → Program Unit}
    (bodies : ∀ h, Deals removes h.Told (body h)) : Settles removes (control body) :=
  settles_answering (deals_inSelected bodies) rfl fun _ =>
    .bind Tree.aside_refresh.spares fun _ => .done _

theorem settles_compileMethod {s : Switches}
    (className source isMeta category environment : Value) :
    Settles removes (compileMethod s className source isMeta category environment) := by
  have logical (h : Handle) : h.Logical (fun _ _ => True)
      (h.compileMethod className isMeta category source environment) :=
    Handle.logical_compileMethod fun _ _ _ => trivial
  unfold compileMethod
  split
  · exact settles_answering (deals_inSelected fun h => .of_logical (logical h)) rfl fun _ =>
      .bind Tree.aside_refresh.spares fun _ => .done _
  · exact settles_aside (.done _)

theorem settles_moveDictionary {s : Switches} (name direction : Value) :
    Settles removes (moveDictionary s name direction) := by
  unfold moveDictionary
  dsimp only
  split
  · exact settles_change
  split
  · exact settles_change
  · exact settles_aside (.done _)

theorem deals_contentAt (l : Location) : Deals removes (fun _ => True) (contentAt l) := by
  apply Deals.act rfl
  intro found
  cases found with
  | none => exact .of_spares (.fail _)
  | some _ =>
    refine Deals.mono (Deals.found (.fail _) ?_) fun _ _ => trivial
    intro h
    cases l.document with
    | definition | comment | method _ _ _ _ => exact h.deals_run

theorem settles_getContent (node locator : Value) : Settles removes (getContent node locator) := by
  have asks : Deals removes (fun _ => True) (contentOf node locator) := by
    unfold contentOf
    split
    · exact .after steady_true (.ofExcept _) deals_contentAt
    split
    · exact .after steady_true (.ofExcept _) Tree.deals_content
    · exact .of_spares (.fail _)
  exact settles_answering asks rfl fun _ => .done _

theorem settles_browseNode (node : Option Node) {done : List Doing} (unclaimed : Unclaimed done) :
    (browseNode node).Obeys (dealing removes) done fun outcome done =>
      TurnedDown done → Declined outcome done := by
  refine ⟨trivial, fun _ => ?_⟩
  show (Tree.children .gather node >>= _).Obeys _ _ _
  rw [Program.obeys_bind]
  refine (Tree.children_of_refused node (steady_unclaimed _ _ _ rfl unclaimed)).mono ?_
  intro outcome done childless
  cases outcome with
  | error f => exact fun refused => nomatch childless refused
  | ok children =>
    refine ⟨trivial, fun notices => ?_⟩
    by_cases refused : TurnedDown done
    · cases childless refused
      refine ⟨trivial, fun _ _ => ⟨_, rfl, ?_⟩⟩
      cases notices with
      | nil => exact .inr (List.mem_append_left _ (List.mem_append_right _ List.mem_cons_self))
      | cons notice notices => exact .inl rfl
    · have rows : (rowsFor childRow children).Spares :=
        (aside_rowsFor aside_childRow children).spares
      show (rowsFor childRow children >>= _).Obeys _ _ _
      rw [Program.obeys_bind]
      refine (rows.keepsDealing steady_not_turnedDown _ ?_).mono fun outcome done free => ?_
      · exact (turnedDown_concat_iff rfl).not.mpr refused
      cases outcome with
      | error f => exact fun refused => absurd refused free
      | ok rows =>
        exact ⟨trivial, fun _ refused => absurd ((turnedDown_concat_iff rfl).mp refused) free⟩

theorem settles_browse (node : Value) : Settles removes (browse node) := by
  apply obeys_answering ((aside_nodeOf node).spares.keepsDealing steady_unclaimed [] .nil)
  · exact fun node done unclaimed => settles_browseNode node unclaimed
  · exact fun f done _ unclaimed refused => absurd refused unclaimed.not_turnedDown
  · exact fun f done _ unclaimed refused => absurd refused unclaimed.not_turnedDown

def Holding (c : Connection) (done : List Doing) : Prop := c.Owned done ∧ Unclaimed done

theorem holding_ask {c : Connection} {r : Request} :
    (Program.ask c r).Keeps (dealing removes) (Holding c) := by
  refine .act ?_ ?_ fun o => .ofExcept o
  · exact fun done holding => ⟨holding.2.not_turnedDown, .inl holding.1⟩
  · exact fun done o holding =>
      ⟨holding.1.concat nofun, fun n => standingAfter_concat.trans (holding.2 n)⟩

theorem holding_value {c : Connection} {r : Request} (answers : r.Answer = RemoteObject) :
    (do
      let object ← Program.ask c r
      Program.ask c (.fetch (cast answers object))).Keeps (dealing removes) (Holding c) :=
  .bind holding_ask fun _ => holding_ask

theorem holding_summary (c : Connection) : c.summary.Keeps (dealing removes) (Holding c) := by
  apply Keeps.bind (holding_value (r := .stoneName) rfl)
  intro stone
  apply Keeps.bind (holding_value (r := .hostName) rfl)
  intro host
  apply Keeps.bind (holding_value (r := .userId) rfl)
  intro user
  apply Keeps.bind (holding_value (r := .execute (.text "System session")) rfl)
  intro session
  exact .done _

theorem unclaimed_enroll {c : Connection} (mode summary : Value) {done : List Doing}
    (holding : Holding c done) :
    (enroll c mode summary).Obeys (dealing removes) done fun _ done => Unclaimed done := by
  refine ⟨trivial, fun id => ⟨holding.1.concat nofun, fun _ => ?_⟩⟩
  have listed := steady_unclaimed _ (.step .freshId) id rfl holding.2
  exact (aside_selectFirst mode summary id).spares.keepsDealing steady_unclaimed _ fun n =>
    standingAfter_concat.trans (listed n)

theorem holding_open (l : Login) :
    l.open.Obeys (dealing removes) [] fun outcome done =>
      Unclaimed done ∧ ∀ c, outcome = .ok c → Holding c done := by
  refine ⟨trivial, fun _ => ⟨Unclaimed.not_turnedDown fun _ => rfl, fun answer => ?_⟩⟩
  have unclaimed : Unclaimed [⟨.log l.entry, ()⟩, ⟨.login l, answer⟩] := fun _ => rfl
  cases answer with
  | error f =>
    show (if _ then _ else _ : Program Connection).Obeys _ _ _
    split
    · exact ⟨unclaimed, nofun⟩
    · exact ⟨unclaimed, nofun⟩
  | ok c =>
    refine ⟨unclaimed, ?_⟩
    rintro _ ⟨⟩
    refine ⟨⟨⟨l, List.mem_cons_of_mem _ List.mem_cons_self⟩, ?_⟩, unclaimed⟩
    rintro ⟨id, metadata, mem⟩
    have mem : _ ∈ [(_ : Doing), _] := mem
    simp at mem

theorem unclaimed_connect (mode user password stone host service : Value) :
    (connect mode user password stone host service).Obeys (dealing removes) []
      fun _ done => Unclaimed done := by
  unfold connect
  split
  · exact .nil
  · next l _ =>
    apply obeys_answering (holding_open l)
    · rintro c done ⟨_, holds⟩
      apply obeys_answering (holding_summary c done (holds c rfl))
      · exact fun summary done holding => unclaimed_enroll mode summary holding
      · intro f done _ holding
        show (Program.ask c .logOut >>= _).Obeys _ _ _
        rw [Program.obeys_bind]
        refine (holding_ask done holding).mono fun outcome done holding => ?_
        cases outcome with
        | ok _ => exact holding.2
        | error _ => exact holding.2
      · exact fun f done _ holding => holding.2
    · exact fun f done _ ended => ended.1
    · exact fun f done _ ended => ended.1

theorem removed_by_remove (removing : removes) (id : Value) {done : List Doing}
    (unclaimed : Unclaimed done) :
    (Sessions.remove id).Obeys (dealing removes) done fun outcome done =>
      Unclaimed done ∧ ∀ h, outcome = .ok h → h.Removed done := by
  show (Program.ofExcept id.asKey >>= _).Obeys _ _ _
  rw [Program.obeys_bind, Program.obeys_ofExcept]
  cases id.asKey with
  | error f => exact ⟨unclaimed, nofun⟩
  | ok id =>
    refine ⟨removing, fun found => ?_⟩
    have unclaimed' : Unclaimed (done ++ [⟨.step (.removeSession id), found⟩]) :=
      fun n => standingAfter_concat.trans (unclaimed n)
    cases found with
    | none => exact ⟨unclaimed', nofun⟩
    | some removed =>
      obtain ⟨h, changed⟩ := removed
      have removed : h.Removed (done ++ [⟨.step (.removeSession id), some (h, changed)⟩]) :=
        ⟨id, changed, List.mem_append_right _ List.mem_cons_self⟩
      cases changed with
      | false => exact ⟨unclaimed', by rintro _ ⟨⟩; exact removed⟩
      | true =>
        show (Sessions.announce none >>= fun _ => Program.done h).Obeys _ _ _
        rw [Program.obeys_bind]
        refine ((Sessions.aside_announce none).spares.keepsDealing
          (steady_unclaimed.and steady_removed) _ ⟨unclaimed', removed⟩).mono ?_
        rintro outcome done ⟨unclaimed, removed⟩
        cases outcome with
        | error f => exact ⟨unclaimed, nofun⟩
        | ok _ => exact ⟨unclaimed, by rintro _ ⟨⟩; exact removed⟩

/-- The session is logged out by whoever has removed it, though it was never claimed. -/
theorem unclaimed_disconnect (removing : removes) (id : Value) :
    (disconnect id).Obeys (dealing removes) [] fun _ done => Unclaimed done := by
  show (Sessions.contains id >>= _).Obeys _ _ _
  rw [Program.obeys_bind]
  refine ((Sessions.aside_contains id).spares.keepsDealing steady_unclaimed [] .nil).mono ?_
  rintro (f | ⟨_ | _⟩) done unclaimed
  · exact unclaimed
  · exact unclaimed
  · show (Sessions.remove id >>= _).Obeys _ _ _
    rw [Program.obeys_bind]
    refine (removed_by_remove removing id unclaimed).mono ?_
    rintro (f | h) done ⟨unclaimed, removed⟩
    · exact unclaimed
    · have loggedOut : h.connection.logOut.Obeys (dealing removes) done
          fun _ done => Unclaimed done := by
        have removed : ∃ g : Handle, g.Removed done ∧ g.connection = h.connection :=
          ⟨h, removed h rfl, rfl⟩
        refine ⟨⟨unclaimed.not_turnedDown, .inr (.inr ⟨rfl, removing, removed⟩)⟩, ?_⟩
        intro answer
        show (Program.ofExcept answer).Obeys _ _ _
        rw [Program.obeys_ofExcept]
        exact fun n => standingAfter_concat.trans (unclaimed n)
      apply obeys_answering loggedOut
      · exact fun _ _ unclaimed => unclaimed
      · exact fun _ _ _ unclaimed => unclaimed
      · exact fun _ _ _ unclaimed => unclaimed

theorem settles_tool {s : Switches} (t : Tool) (values : List Value)
    (removing : t = .disconnect → removes) : Settles removes (run s t values) := by
  unfold run
  split
  · exact settles_of_unclaimed (unclaimed_connect _ _ _ _ _ _)
  · exact settles_of_unclaimed (unclaimed_disconnect (removing rfl) _)
  · exact settles_aside aside_listSessions
  · exact settles_aside (aside_selectSession _)
  · exact settles_browse _
  · exact settles_aside aside_refresh
  · exact settles_getContent _ _
  iterate 8
    exact settles_query fun h => (h.deals_run.bind fun _ => .done _).bind fun _ => .done _
  · exact settles_compileMethod _ _ _ _ _
  · exact settles_mutation fun h => h.deals_run.bind fun _ => .done _
  iterate 7 exact settles_change
  · exact settles_moveDictionary _ _
  · apply settles_mutation
    intro h
    have commits : h.Stays (fun _ _ => True) .claiming h.commit :=
      Handle.stays_calling (Handle.stays_ask fun _ => trivial)
    exact (h.deals_transact commits).bind fun _ => .done _
  iterate 2
    exact settles_control fun h =>
      h.deals_transact (Handle.stays_calling (Handle.stays_ask fun _ => trivial))
  · exact settles_aside (.fail _)

end Tools

end ImageBrowser
