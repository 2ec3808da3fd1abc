import ImageBrowser.Proofs.Sessions.Announcements
import ImageBrowser.Proofs.Tools.Freshness

/-!
To connect is to log in, to ask the stone what it is, and to list the session. Where it is answered
that this has failed, nothing is left of it but a log entry: whatever was logged in is logged out
again, once, and neither the sessions nor anybody who listens are involved. Where it has worked, one
session was added to those that there were.
-/

namespace ImageBrowser

open Program (Does Keeps)

namespace Selection

variable {s : Selection} {h : Handle}

theorem find?_register (metadata id : Value) : (s.register h metadata).find? id =
    if id.canonical = h.sessionId.canonical then some
      { id := ((s.find? h.sessionId).map (·.id)).getD h.sessionId
        handle := h
        metadata := if metadata.isTruthy then metadata else emptyMetadata }
    else s.find? id := Table.find?_insert _ _ _ _

theorem find?_eq_none_iff {id : Value} : s.find? id = none ↔ ¬ s.contains id :=
  Option.not_isSome_iff_eq_none.symm

/-- One session is listed after all that were listed before, and these are as they were. -/
structure Extends (s t : Selection) (h : Handle) (metadata : Value) : Prop where
  fresh : ¬ s.contains h.sessionId
  ids : t.ids = s.ids ++ [h.sessionId]
  session : t.session? h.sessionId = some h
  metadata : t.metadata? h.sessionId = some metadata
  others : ∀ id, id.canonical ≠ h.sessionId.canonical → t.find? id = s.find? id

theorem extends_register {t : Selection} {metadata : Value} (fresh : ¬ s.contains h.sessionId)
    (proper : metadata.isTruthy) (listed : t.enrolled = (s.register h metadata).enrolled) :
    s.Extends t h metadata := by
  have found (id : Value) : t.find? id = if id.canonical = h.sessionId.canonical then
      some ⟨h.sessionId, h, metadata⟩ else s.find? id := by
    rw [find?, listed, ← find?, find?_register, find?_eq_none_iff.mpr fresh, if_pos proper]
    rfl
  refine ⟨fresh, ?_, ?_, ?_, fun id other => by rw [found, if_neg other]⟩
  · rw [ids, listed, register, Table.insert_of_absent fresh, Table.values, List.map_append,
      find?_eq_none_iff.mpr fresh, List.map_append]
    rfl
  · rw [session?, found, if_pos rfl]
    rfl
  · rw [metadata?, found, if_pos rfl]
    rfl

theorem selectedHandle_register {name : String} (named : h.sessionId = .text name)
    (unselected : ¬ s.isSelected h.sessionId) (metadata : Value) :
    (s.register h metadata).selectedHandle = s.selectedHandle := by
  show s.selected.bind (s.register h metadata).session? = s.selected.bind s.session?
  cases chosen : s.selected with
  | none => rfl
  | some id =>
    have other : id.canonical ≠ h.sessionId.canonical := by
      intro same
      refine unselected ?_
      have defined : id ≠ .fraction .undefined := by
        rintro rfl
        rw [named] at same
        cases same
      simp [isSelected, chosen, Value.equals, Value.same, same, defined]
    simp only [Option.bind_some, session?, find?_register, if_neg other]

end Selection

/-- No id is in use that is still to be generated. -/
def World.Unspent (w : World) : Prop := ∀ n, w.generatedIds < n →
  ¬ w.selection.contains (World.generatedId n) ∧ ¬ w.selection.isSelected (World.generatedId n)

theorem World.unspent_of_blank {w : World} (blank : w.selection = {}) : w.Unspent := by
  intro n _
  rw [blank]
  exact ⟨Bool.false_ne_true, Bool.false_ne_true⟩

/-- What others notice of an action. -/
inductive Deed
  | opened (c : Connection)
  | closed (c : Connection)
  | announced (called : List Listener)
  | told (n : Nat) (m : Message)
  deriving DecidableEq

def Doing.deed? : Doing → Option Deed
  | ⟨.login _, .ok c⟩ => some (.opened c)
  | ⟨.ask c .logOut, _⟩ => some (.closed c)
  | ⟨.step .beginSelectionNotice, called⟩ => some (.announced called)
  | ⟨.tell n m, _⟩ => some (.told n m)
  | _ => none

def deeds (ds : List Doing) : List Deed := ds.filterMap Doing.deed?

theorem deeds_append (ds ds' : List Doing) : deeds (ds ++ ds') = deeds ds ++ deeds ds' :=
  List.filterMap_append

namespace Action

/-- A stone is asked for what it knows. -/
def isInquiry : Action → Bool
  | .ask _ r => r ≠ .logOut
  | _ => false

/-- Listeners are told, the tree among them. -/
def isTelling : Action → Bool
  | .tell _ _ | .log _ => true
  | .step .clearCache | .step .epoch | .step .beginTreeNotice | .step (.endTreeNotice _) => true
  | _ => false

/-- The state that all share is looked at or changed. -/
def isStep : Action → Bool
  | .step _ => true
  | _ => false

theorem not_isStep_of_isInquiry {a : Action} (asks : a.isInquiry) : !a.isStep := by
  cases a with
  | step s => cases asks
  | _ => rfl

end Action

theorem Leads.same {w v : World} {ds : List Doing} (leads : Leads w ds v)
    (outside : ∀ d ∈ ds, !d.1.isStep) : v = w :=
  leads.keeps id fun d mem u => by
    obtain ⟨a, r⟩ := d
    have other := outside _ mem
    cases a with
    | step s => cases other
    | _ => rfl

theorem selection_of_telling {a : Action} (tells : a.isTelling) (w : World) :
    (w.after a).selection = w.selection := by
  cases a with
  | step s => cases s <;> first | rfl | cases tells
  | _ => rfl

section Deeds

variable {ds : List Doing}

theorem deeds_of_inquiry (asks : ∀ d ∈ ds, d.1.isInquiry) : deeds ds = [] := by
  refine List.filterMap_eq_nil_iff.mpr ?_
  rintro ⟨a, r⟩ mem
  have asked := asks _ mem
  cases a with
  | ask c q => cases q <;> first | rfl | cases asked
  | _ => cases asked

theorem deeds_of_telling (tells : ∀ d ∈ ds, d.1.isTelling) :
    deeds ds = (tellings ds).map fun t => .told t.1 t.2 := by
  induction ds with
  | nil => rfl
  | cons d ds ih =>
    obtain ⟨first, rest⟩ := List.forall_mem_cons.mp tells
    have same := ih rest
    obtain ⟨a, r⟩ := d
    cases a with
    | tell n m => exact congrArg (Deed.told n m :: ·) same
    | log e => exact same
    | step s => cases s <;> first | exact same | cases first
    | _ => cases first

end Deeds

/-- Who was told what the selection is. -/
def selectionNotice? : Nat × Message → Option (Nat × Option Value)
  | (n, .selectionChanged id) => some (n, id)
  | (_, .treeChanged) => none

/-- What a listener is to be told of the selection; the tree is not told, it only refreshes. -/
def Listener.due? (id : Option Value) : Listener → Option (Nat × Option Value)
  | .tree => none
  | .outside n => some (n, id)

namespace Tree

theorem only_refresh : refresh.Only Action.isTelling := by
  have cleared : clearCache.Only Action.isTelling :=
    .bind (Program.only_act rfl .done) fun _ =>
    .bind (Program.only_act rfl .done) fun _ => Program.only_act rfl .done
  have told (l : Nat) : (Program.tell l .treeChanged).Only Action.isTelling :=
    Program.only_act rfl .ofExcept
  refine .bind cleared fun _ => .bind (Program.only_act rfl .done) fun listeners => ?_
  exact .ensure (Program.only_tellAll told listeners) (Program.only_act rfl .done)

end Tree

namespace Sessions

variable {id : Option Value} {ds : List Doing}

theorem does_tellListener {l : Listener} (does : (tellListener id l).Does ds (.ok ())) :
    (∀ d ∈ ds, d.1.isTelling) ∧ (tellings ds).filterMap selectionNotice? = (l.due? id).toList := by
  cases l with
  | tree =>
    refine ⟨Tree.only_refresh.does does, ?_⟩
    obtain ⟨n, listeners, rfl⟩ := Tree.does_refresh does
    rw [tellings_append, tellings_append, tellings_map]
    simp [tellings, selectionNotice?, Listener.due?]
  | outside n =>
    obtain ⟨answer, rest, rfl, finished⟩ := Program.does_act.mp does
    obtain ⟨rfl, -⟩ := Program.does_ofExcept.mp finished
    exact ⟨by simp [Action.isTelling], rfl⟩

theorem does_tellAll {ls : List Listener} (does : (tellAll (tellListener id) ls).Does ds (.ok ())) :
    (∀ d ∈ ds, d.1.isTelling) ∧
      (tellings ds).filterMap selectionNotice? = ls.filterMap (Listener.due? id) := by
  induction ls generalizing ds with
  | nil =>
    obtain ⟨rfl, -⟩ := Program.does_done.mp does
    exact ⟨List.forall_mem_nil _, rfl⟩
  | cons l ls ih =>
    obtain ⟨_, first, rest, rfl, tells, goes⟩ | ⟨_, _, ⟨⟩⟩ := does.of_bind
    obtain ⟨telling, told⟩ := does_tellListener tells
    obtain ⟨others, later⟩ := ih goes
    refine ⟨List.forall_mem_append.mpr ⟨telling, others⟩, ?_⟩
    rw [tellings_append, List.filterMap_append, told, later]
    cases due : l.due? id <;> simp [due]

theorem does_announce (does : (announce id).Does ds (.ok ())) :
    ∃ called work, ds = ⟨.step .beginSelectionNotice, called⟩ :: (work ++
        [⟨.step (.endSelectionNotice called), ()⟩]) ∧
      (∀ d ∈ work, d.1.isTelling) ∧
      (tellings work).filterMap selectionNotice? = called.filterMap (Listener.due? id) := by
  rw [Channel.announce_eq_notify] at does
  obtain ⟨_, called, work, rfl, opens, tells⟩ := Channel.parts_of_notify does
  obtain ⟨rfl, -⟩ := Program.does_done.mp opens
  obtain ⟨telling, told⟩ := does_tellAll tells
  exact ⟨called, work, rfl, telling, told⟩

theorem does_select {name : String} (does : (select (.text name)).Does ds (.ok ())) :
    ∃ changed rest, ds = ⟨.step (.selectSession (some (.text name))), some changed⟩ :: rest ∧
      (changed = true ∧ (announce (some (.text name))).Does rest (.ok ()) ∨
        changed = false ∧ rest = []) := by
  obtain ⟨found, rest, rfl, goes⟩ := Program.does_act.mp does
  match found with
  | none =>
    obtain ⟨_, ⟨⟩⟩ := Program.does_fail.mp goes
  | some true => exact ⟨true, rest, rfl, .inl ⟨rfl, goes⟩⟩
  | some false =>
    obtain ⟨rfl, -⟩ := Program.does_done.mp goes
    exact ⟨false, [], rfl, .inr ⟨rfl, rfl⟩⟩

theorem selected_of_select {w v : World} {name : String}
    (does : (select (.text name)).Does ds (.ok ())) (leads : Leads w ds v)
    (there : w.selection.contains (.text name))
    (unselected : ¬ w.selection.isSelected (.text name)) :
    v.selection = { w.selection with selected := some (.text name) } ∧
      ∃ told : List (Nat × Message),
        deeds ds = .announced w.selectionListeners.alive :: told.map (fun t => .told t.1 t.2) ∧
        told.filterMap selectionNotice? =
          w.selectionListeners.alive.filterMap (Listener.due? (some (.text name))) := by
  obtain ⟨changed, rest, rfl, goes⟩ := does_select does
  obtain ⟨answer, leads⟩ := leads.of_step
  have change : w.selection.select (some (.text name)) =
      (some true, { w.selection with selected := some (.text name) }) := by
    simp [Selection.select, there, unselected]
  obtain ⟨_, announces⟩ | ⟨rfl, _⟩ := goes
  · obtain ⟨called, work, rfl, telling, told⟩ := does_announce announces
    obtain ⟨rfl, leads⟩ := leads.of_step
    have kept := leads.keeps (·.selection) fun d mem u => by
      obtain among | ended := List.mem_append.mp mem
      · exact selection_of_telling (telling d among) u
      · cases List.mem_singleton.mp ended
        rfl
    refine ⟨kept.trans (congrArg Prod.snd change), tellings work, ?_, told⟩
    show _ :: deeds (work ++ [_]) = _
    rw [deeds_append, deeds_of_telling telling]
    exact congrArg (_ :: ·) (List.append_nil _)
  · simp [World.step, change] at answer

end Sessions

namespace Tools

variable {ds : List Doing}

theorem inquires_summary (c : Connection) : c.summary.Only Action.isInquiry := by
  have value {r : Request} (answers : r.Answer = RemoteObject) (asks : (Action.ask c r).isInquiry) :
      (do
        let object ← Program.ask c r
        Program.ask c (.fetch (cast answers object))).Only Action.isInquiry :=
    .bind (Program.only_act asks .ofExcept) fun _ => Program.only_act rfl .ofExcept
  exact .bind (value (r := .stoneName) rfl rfl) fun _ =>
    .bind (value (r := .hostName) rfl rfl) fun _ =>
    .bind (value (r := .userId) rfl rfl) fun _ =>
    .bind (value (r := .execute (.text "System session")) rfl rfl) fun _ => .done _

def connectionMetadata (mode : Value) : Value := .object [("connection_mode", mode)]

def enrolling (c : Connection) (mode id : Value) (found : Option Handle) (changes : List Doing)
    (chosen : Bool) : List Doing :=
  ⟨.step .freshId, id⟩ :: ⟨.step (.openSession c id (connectionMetadata mode)), ()⟩ ::
    ⟨.step .selectedSession, found⟩ :: (changes ++ [⟨.step (.isSelected id), chosen⟩])

theorem deeds_enrolling {c : Connection} {mode id : Value} {found : Option Handle}
    {changes : List Doing} {chosen : Bool} :
    deeds (enrolling c mode id found changes chosen) = deeds changes := by
  show deeds (changes ++ [_]) = _
  rw [deeds_append]
  exact List.append_nil _

theorem does_enroll {c : Connection} {mode summary : Value} {response : Response}
    (does : (enroll c mode summary).Does ds (.ok response)) :
    ∃ id found work chosen, ds = enrolling c mode id found work chosen ∧
      (found = none ∧ (Sessions.select id).Does work (.ok ()) ∨ found.isSome ∧ work = []) ∧
      response = .success [("session_id", id), ("connection_mode", mode), ("session", summary),
        ("selected", .flag chosen)] := by
  have finish {id : Value} {rest : List Doing}
      (goes : (isSelected id >>= fun chosen => Program.done (.success [("session_id", id),
        ("connection_mode", mode), ("session", summary), ("selected", chosen)])).Does rest
          (.ok response)) :
      ∃ chosen, rest = [⟨.step (.isSelected id), chosen⟩] ∧ response = .success
        [("session_id", id), ("connection_mode", mode), ("session", summary),
          ("selected", .flag chosen)] := by
    obtain ⟨chosen, _, rfl, finished⟩ := Program.does_act.mp goes
    obtain ⟨rfl, ⟨⟩⟩ := Program.does_done.mp finished
    exact ⟨chosen, rfl, rfl⟩
  obtain ⟨id, rest, rfl, opens⟩ := Program.does_act.mp does
  obtain ⟨_, rest, rfl, looks⟩ := Program.does_act.mp opens
  obtain ⟨found, rest, rfl, goes⟩ := Program.does_act.mp looks
  cases found with
  | some h =>
    obtain ⟨chosen, rfl, rfl⟩ := finish goes
    exact ⟨id, some h, [], chosen, rfl, .inr ⟨rfl, rfl⟩, rfl⟩
  | none =>
    obtain ⟨_, work, rest, rfl, selects, ends⟩ | ⟨_, _, ⟨⟩⟩ :=
      Does.of_bind (p := Sessions.select id) goes
    obtain ⟨chosen, rfl, rfl⟩ := finish ends
    exact ⟨id, none, work, chosen, rfl, .inl ⟨rfl, selects⟩, rfl⟩

theorem does_open {l : Login} {o : Except Fault Connection} (does : l.open.Does ds o) :
    (∃ c, o = .ok c ∧ ds = [⟨.log l.entry, ()⟩, ⟨.login l, .ok c⟩]) ∨
      ∃ f f', o = .error f ∧ ds = [⟨.log l.entry, ()⟩, ⟨.login l, .error f'⟩] := by
  obtain ⟨_, rest, rfl, logsIn⟩ := Program.does_act.mp does
  have tried {work : List Doing} {o : Except Fault Connection}
      (does : (Program.login l).Does work o) : work = [⟨.login l, o⟩] := by
    obtain ⟨answer, _, rfl, finished⟩ := Program.does_act.mp does
    obtain ⟨rfl, rfl⟩ := Program.does_ofExcept.mp finished
    rfl
  obtain ⟨c, enters, rfl⟩ | ⟨f, first, last, rfl, fails, handled⟩ := Does.of_handling logsIn
  · rw [tried enters]
    exact .inl ⟨c, rfl, rfl⟩
  · rw [tried fails]
    obtain ⟨_, refuses⟩ | ⟨_, rfl, rfl⟩ := handled
    · obtain ⟨rfl, rfl⟩ := Program.does_fail.mp refuses
      exact .inr ⟨_, f, rfl, rfl⟩
    · exact .inr ⟨f, f, rfl, rfl⟩

def opening (l : Login) (c : Connection) (work rest : List Doing) : List Doing :=
  ⟨.log l.entry, ()⟩ :: ⟨.login l, .ok c⟩ :: (work ++ rest)

section Opening

variable {l : Login} {c : Connection} {work rest : List Doing}

theorem deeds_opening (asks : ∀ d ∈ work, d.1.isInquiry) :
    deeds (opening l c work rest) = .opened c :: deeds rest := by
  show _ :: deeds (work ++ rest) = _
  rw [deeds_append, deeds_of_inquiry asks, List.nil_append]

theorem leads_of_opening {w v : World} (leads : Leads w (opening l c work rest) v)
    (asks : ∀ d ∈ work, d.1.isInquiry) : Leads w rest v := by
  have outside : ∀ d ∈ opening l c work [], !d.1.isStep := by
    refine List.forall_mem_cons.mpr ⟨rfl, List.forall_mem_cons.mpr ⟨rfl, fun d mem => ?_⟩⟩
    rw [List.append_nil] at mem
    exact Action.not_isStep_of_isInquiry (asks d mem)
  have whole : opening l c work rest = opening l c work [] ++ rest := by simp [opening]
  rw [whole] at leads
  obtain ⟨u, first, last⟩ := leads.of_append
  rwa [first.same outside] at last

end Opening

theorem does_connect {mode user password stone host service : Value} {response : Response}
    (does : (connect mode user password stone host service).Does ds (.ok response)) :
    response.ok = false ∧ (ds = [] ∨ (∃ l f, ds = [⟨.log l.entry, ()⟩, ⟨.login l, .error f⟩]) ∨
        ∃ l c work answer, ds = opening l c work [⟨.ask c .logOut, answer⟩] ∧
          ∀ d ∈ work, d.1.isInquiry) ∨
      ∃ l c work rest summary, ds = opening l c work rest ∧ (∀ d ∈ work, d.1.isInquiry) ∧
        (enroll c mode summary).Does rest (.ok response) := by
  unfold connect at does
  split at does
  · obtain ⟨rfl, ⟨⟩⟩ := Program.does_done.mp does
    exact .inl ⟨rfl, .inl rfl⟩
  next l _ =>
  obtain ⟨opened, first, rest, rfl, opens, meant⟩ := does_answering does
  obtain ⟨c, rfl, rfl⟩ | ⟨f, f', rfl, rfl⟩ := does_open opens
  · obtain ⟨_, ⟨⟩, goes⟩ | ⟨_, ⟨⟩, _⟩ := meant
    obtain ⟨told, work, rest, rfl, asks, heard⟩ := does_answering goes
    have inquires := (inquires_summary c).does asks
    obtain ⟨summary, rfl, enrolls⟩ | ⟨f, rfl, ⟨_, undoes⟩ | ⟨_, _, ⟨⟩⟩⟩ := heard
    · exact .inr ⟨l, c, work, rest, summary, rfl, inquires, enrolls⟩
    · obtain ⟨_, leaves, last, rfl, logsOut, answers⟩ | ⟨_, _, ⟨⟩⟩ := undoes.of_bind
      obtain ⟨rfl, ⟨⟩⟩ := Program.does_done.mp answers
      obtain ⟨answer, _, rfl, finished⟩ := Program.does_act.mp logsOut
      obtain ⟨rfl, -⟩ := Program.does_ofExcept.mp finished
      exact .inl ⟨rfl, .inr (.inr ⟨l, c, work, _, rfl, inquires⟩)⟩
  · obtain ⟨_, ⟨⟩, _⟩ | ⟨_, ⟨⟩, ⟨_, answers⟩ | ⟨_, _, ⟨⟩⟩⟩ := meant
    obtain ⟨rfl, ⟨⟩⟩ := Program.does_done.mp answers
    exact .inl ⟨rfl, .inr (.inl ⟨l, f', rfl⟩)⟩

/-- What a session that was connected has made of the state, and who was told. -/
structure Connected (w v : World) (ds : List Doing) (mode : Value) (response : Response)
    (c : Connection) (id : Value) : Prop where
  answered : response.fields.lookup "session_id" = some id
  listed : w.selection.Extends v.selection ⟨w.nextHandle, id, c⟩ (connectionMetadata mode)
  selected : v.selection.isSelected id = w.selection.selectedHandle.isNone
  /-- Where a session was selected it stays so, and nobody is told anything. -/
  stayed : w.selection.selectedHandle.isSome →
    v.selection.selected = w.selection.selected ∧ deeds ds = [.opened c]
  /-- Where none was, it is announced once to all who listen that the new one is. -/
  announced : w.selection.selectedHandle = none → ∃ told : List (Nat × Message),
    deeds ds = .opened c :: .announced w.selectionListeners.alive ::
      told.map (fun t => .told t.1 t.2) ∧
    told.filterMap selectionNotice? = w.selectionListeners.alive.filterMap (Listener.due? (some id))

theorem connected_of_enroll {w v : World} {c : Connection} {mode summary : Value}
    {response : Response} (unspent : w.Unspent)
    (does : (enroll c mode summary).Does ds (.ok response)) (leads : Leads w ds v) {l : Login}
    {work : List Doing} (asks : ∀ d ∈ work, d.1.isInquiry) :
    ∃ id, Connected w v (opening l c work ds) mode response c id := by
  obtain ⟨id, found, changes, chosen, rfl, selects, rfl⟩ := does_enroll does
  obtain ⟨generated, opens⟩ := leads.of_step
  obtain ⟨-, looks⟩ := opens.of_step
  obtain ⟨looked, goes⟩ := looks.of_step
  obtain ⟨u, changed, asked⟩ := goes.of_append
  obtain ⟨-, ⟨⟩⟩ := asked.of_step
  obtain ⟨absent, unselected⟩ := unspent (w.generatedIds + 1) (Nat.lt_succ_self _)
  replace generated : id = World.generatedId (w.generatedIds + 1) := generated
  rw [← generated] at absent unselected
  -- No more is needed of the id from here on than that it is a text which is not in use.
  obtain ⟨name, named⟩ : ∃ name, id = .text name := ⟨_, generated⟩
  clear generated
  subst named
  let h : Handle := ⟨w.nextHandle, .text name, c⟩
  let s := w.selection.register h (connectionMetadata mode)
  replace looked : found = w.selection.selectedHandle :=
    looked.trans (Selection.selectedHandle_register rfl unselected _)
  have noticed : deeds (opening l c work (enrolling c mode (.text name) found changes chosen)) =
      .opened c :: deeds changes := by rw [deeds_opening asks, deeds_enrolling]
  refine ⟨.text name, ?_⟩
  obtain ⟨rfl, selects⟩ | ⟨some, rfl⟩ := selects
  · have there : s.contains (.text name) := by
      simp [s, h, Selection.contains, Selection.register, Table.contains_insert]
    obtain ⟨selection, told, announced, notices⟩ :=
      Sessions.selected_of_select selects changed there unselected
    have listed : u.selection.enrolled = s.enrolled := by
      rw [selection]
      rfl
    have extended : w.selection.Extends u.selection h (connectionMetadata mode) :=
      Selection.extends_register absent rfl listed
    have chosen : u.selection.isSelected (.text name) := by
      simp [selection, Selection.isSelected, Value.equals, Value.same]
    refine ⟨rfl, extended, ?_, fun some => ?_, fun _ => ⟨told, ?_, notices⟩⟩
    · rw [← looked]
      exact chosen
    · rw [← looked] at some
      cases some
    · rw [noticed, announced]
      rfl
  · cases changed
    have extended : w.selection.Extends s h (connectionMetadata mode) :=
      Selection.extends_register absent rfl rfl
    rw [looked] at some
    refine ⟨rfl, extended, ?_, fun _ => ⟨rfl, noticed⟩, fun none => ?_⟩
    · rw [Option.isNone_eq_false_iff.mpr some]
      exact eq_false_of_ne_true unselected
    · rw [none] at some
      cases some

theorem does_call_connect {s : Switches} {given : Fields} {response : Response}
    (does : (call s .connect given).Does ds (.ok response)) :
    ∃ mode user password stone host service,
      Tool.connect.bindArguments given = .ok [mode, user, password, stone, host, service] ∧
        (connect mode user password stone host service).Does ds (.ok response) := by
  obtain ⟨values, first, rest, rfl, binds, runs⟩ | ⟨_, _, ⟨⟩⟩ := does.of_bind
  obtain ⟨rfl, bound⟩ := Program.does_ofExcept.mp binds
  unfold run at runs
  split at runs
  case h_1 mode user password stone host service bound =>
    exact ⟨mode, user, password, stone, host, service, bound.symm, runs⟩
  all_goals contradiction

/-- To connect leaves nothing behind where it is answered that it failed, from whatever state and
whatever the stone answers: the state is the one before, nobody is told anything, and the session is
logged out once if it was logged in. Where it worked, one session is listed under a new id and not
logged out; it is selected if none was, and that is announced once, and otherwise to nobody. -/
theorem connect_leaves_nothing {s : Switches} {given : Fields} {response : Response} {w v : World}
    (does : (call s .connect given).Does ds (.ok response)) (leads : Leads w ds v) :
    (response.ok = false →
      v = w ∧ (deeds ds = [] ∨ ∃ c, deeds ds = [.opened c, .closed c])) ∧
    (response.ok = true → w.Unspent → ∃ mode rest c id,
      Tool.connect.bindArguments given = .ok (mode :: rest) ∧
        Connected w v ds mode response c id) := by
  obtain ⟨mode, user, password, stone, host, service, bound, connects⟩ := does_call_connect does
  obtain ⟨failed, undone⟩ | ⟨l, c, work, rest, summary, rfl, asks, enrolls⟩ := does_connect connects
  · refine ⟨fun _ => ?_, fun worked => by rw [failed] at worked; cases worked⟩
    obtain rfl | ⟨l, f, rfl⟩ | ⟨l, c, work, answer, rfl, asks⟩ := undone
    · exact ⟨leads.same (List.forall_mem_nil _), .inl rfl⟩
    · exact ⟨leads.same (by simp [Action.isStep]), .inl rfl⟩
    · have closes := leads_of_opening leads asks
      exact ⟨closes.same (by simp [Action.isStep]), .inr ⟨c, deeds_opening asks⟩⟩
  · have enrolled := leads_of_opening leads asks
    refine ⟨fun failed => ?_, fun _ unspent => ?_⟩
    · obtain ⟨_, _, _, _, _, _, rfl⟩ := does_enroll enrolls
      cases failed
    · obtain ⟨id, connected⟩ := connected_of_enroll unspent enrolls enrolled asks
      exact ⟨mode, _, c, id, bound, connected⟩

def openStones (host : Except Fault RemoteObject) : Outside
  | .login _ => some (.ok ⟨.text "first"⟩)
  | .ask _ .stoneName | .ask _ .userId => some (.ok ⟨1, .text "seaside", "seaside"⟩)
  | .ask _ (.execute source) => some (.ok ⟨2, source, ""⟩)
  | .ask _ .hostName => some host
  | .ask _ (.fetch _) => some (.ok (.text "seaside"))
  | .ask _ .logOut | .tell _ _ => some (.ok ())
  | _ => none

def connectLinked : Program Response :=
  call ⟨false, false⟩ .connect [("connection_mode", .text "linked")]

theorem connect_leaves_nothing_of_failing_host :
    (∃ ds response, connectLinked.Does ds (.ok response) ∧
      Leads Sessions.listened ds Sessions.listened ∧ response.ok = false ∧
      (deeds ds = [] ∨ ∃ c, deeds ds = [.opened c, .closed c])) ∧
    ∃ ds response v c id, connectLinked.Does ds (.ok response) ∧ Leads Sessions.listened ds v ∧
      response.ok = true ∧ Connected Sessions.listened v ds (.text "linked") response c id := by
  constructor
  · obtain ⟨ds, response, v, does, leads, failed⟩ := exists_call
      (openStones (.error (.stone ⟨"gone", .whole 0, none, .flag true, none⟩))) connectLinked
      Sessions.listened false (by decide +kernel)
    obtain ⟨rfl, undone⟩ := (connect_leaves_nothing does leads).1 failed
    exact ⟨ds, response, does, leads, failed, undone⟩
  · obtain ⟨ds, response, v, does, leads, worked⟩ := exists_call
      (openStones (.ok ⟨3, .text "localhost", "localhost"⟩)) connectLinked Sessions.listened true
      (by decide +kernel)
    obtain ⟨mode, rest, c, id, bound, connected⟩ :=
      (connect_leaves_nothing does leads).2 worked (World.unspent_of_blank rfl)
    cases bound
    exact ⟨ds, response, v, c, id, does, leads, worked, connected⟩

end Tools

end ImageBrowser
