import ImageBrowser.Proofs.Cache.Requests
import ImageBrowser.Proofs.Tree.Attribution
import ImageBrowser.Proofs.Tree.Limits
import ImageBrowser.Proofs.Tree.Plans

/-!
Expansions whose query fails. The owner of a fetch takes its registration out however the fetch
ends, so nothing of it is left in the cache: who expands the node again does what would have been
done in the first place. What is expected to fail is notified once, and other failures are passed
on.
-/

namespace ImageBrowser

open Program (Does Keeps Meets)
open Smalltalk (SnippetKind)

theorem Outlook.admits_unlimited (a : Action) (r : a.Reply) : Outlook.unlimited.admits a r := by
  cases a <;> trivial

theorem World.settings_after (w : World) (a : Action) : (w.after a).settings = w.settings := by
  cases a with
  | step s => cases s <;> rfl
  | _ => rfl

theorem Leads.settings {w v : World} {ds : List Doing} (leads : Leads w ds v) :
    v.settings = w.settings :=
  leads.keeps (·.settings) fun _ _ u => u.settings_after _

/-! Notifications -/

namespace Handle

variable {h : Handle} {α : Type}

end Handle

namespace Tree

/-! What is left of a failed query -/

/-- In the course of an expansion by a session its query fails: the only one there is at the top of
the tree, or the one that a plan has for the entry which is found missing. -/
inductive QueryFailed (h : Handle) (f : Fault) : Option Node → List Doing → List Doing → Prop
  | roots {query rest : List Doing}
    (fails : (h.run "dictionary_names" .dictionaryNames []).Does query (.error f)) :
    QueryFailed h f none query (query ++ rest)
  | entry {node : Node} {make : Program Plan} {p : Plan} {before query rest : List Doing}
    {ticket : Nat} (plans : planning node = some make) (made : make.Does before (.ok p))
    (fails : (p.query h).Does query (.error f)) :
    QueryFailed h f (some node) query
      (before ++ ⟨.step (.request p.key), .owned ticket⟩ :: (query ++ rest))

variable {h : Handle} {f : Fault} {node : Option Node} {query work told : List Doing}
  {w v : World}

theorem QueryFailed.exists_run (failed : QueryFailed h f node query work) :
    ∃ label kind values, (h.run label kind values).Does query (.error f) := by
  cases failed with
  | roots fails => exact ⟨_, _, _, fails⟩
  | entry _ _ fails => exact ⟨_, _, _, fails⟩

/-- How all of an expansion goes, where its query fails: the failure is that of the expansion, and
what was registered is settled before anything else is done. -/
theorem QueryFailed.of_does {result : Except Fault (List Node)}
    (failed : QueryFailed h f node query (work ++ told))
    (does : (childrenOf h node).Does work result) :
    result = .error f ∧ ((node = none ∧ work = query) ∨
      ∃ inner make p before ticket, node = some inner ∧ planning inner = some make ∧
        make.Does before (.ok p) ∧
        work = before ++ ⟨.step (.request p.key), .owned ticket⟩ :: (query ++
          [⟨.step (.settle p.key ticket (.error f)), ()⟩,
            ⟨.step (.publish ticket (.error f)), ()⟩])) := by
  -- The query that failed stands where the trace has the one that was made, so it is the same one.
  generalize whole : work ++ told = all at failed
  cases failed with
  | roots fails =>
    obtain ⟨names, first, rest, rfl, named, _⟩ | ⟨e, named, rfl⟩ := does.of_bind
    · obtain ⟨data, first, _, rfl, asks, _⟩ | ⟨_, _, ⟨⟩⟩ := named.of_bind
      rw [List.append_assoc, List.append_assoc] at whole
      obtain ⟨_, ⟨⟩, _⟩ := asks.front_unique fails whole
    · obtain ⟨data, first, _, rfl, _, finished⟩ | ⟨e, asks, same⟩ := named.of_bind
      · cases (Program.does_done.mp finished).2
      · cases same
        obtain ⟨rfl, same, _⟩ := asks.front_unique fails whole
        cases same
        exact ⟨rfl, .inl ⟨rfl, rfl⟩⟩
  | entry plans made fails =>
    rw [childrenOf_of_planning plans] at does
    obtain ⟨p, first, rest, rfl, makes, carries⟩ | ⟨e, makes, rfl⟩ := does.of_bind
    · obtain ⟨found, enters, rfl⟩ := Plan.does_carryOut carries
      rw [List.append_assoc] at whole
      obtain ⟨rfl, same, tail⟩ := makes.front_unique made whole
      cases same
      obtain ⟨e, rfl, rfl⟩ | ⟨ticket, rfl⟩ | ⟨ticket, fetch, fetches, rfl⟩ := does_entry enters
      · cases tail
      · cases tail
      · obtain ⟨answer, asks, rfl⟩ := Plan.does_fetch fetches
        obtain ⟨here, tail⟩ := List.cons.inj tail
        cases here
        obtain ⟨rfl, rfl, _⟩ :=
          asks.front_unique fails ((List.append_assoc _ _ _).symm.trans tail)
        exact ⟨rfl, .inr ⟨_, _, _, _, _, rfl, plans, made, rfl⟩⟩
    · obtain ⟨_, ⟨⟩, _⟩ := makes.front_unique made whole

/-- What an expansion is answered from is the same: the sessions, the settings, and the cache but
for tickets that were used up. -/
structure Alike (w v : World) : Prop where
  epoch : v.cache.epoch = w.cache.epoch
  stored : v.cache.stored = w.cache.stored
  inFlight : v.cache.inFlight = w.cache.inFlight
  selection : v.selection = w.selection
  settings : v.settings = w.settings

theorem ends_planning {node : Node} {make : Program Plan} (plans : planning node = some make)
    (settings : Settings) : ∃ x : Except Fault Plan, ∀ {o : Outlook} {w : World},
      w.settings = settings → make.Ends o w fun outcome v => outcome = x ∧ v = w := by
  have limited (make : Nat → Except Fault Plan) {o : Outlook} {w : World}
      (same : w.settings = settings) : (underLimit make).Ends o w fun outcome v =>
        outcome = make settings.limit.1 ∧ v = w := by
    have limits : Meets o (· = w) limit (· = settings.limit.1) fun _ => False :=
      meets_limit_of_settings fun u here => here ▸ same
    rw [underLimit, Program.ends_bind]
    apply (limits w rfl).mono
    rintro _ v ⟨rfl, within⟩
    obtain ⟨_, rfl, rfl⟩ := within.exists_ok
    exact (Program.ends_ofExcept _ _).mpr ⟨rfl, rfl⟩
  cases node with
  | dictionary path =>
    cases plans
    exact ⟨_, fun _ => (Program.ends_ofExcept _ _).mpr ⟨rfl, rfl⟩⟩
  | side path =>
    cases plans
    exact ⟨_, limited _⟩
  | category path row =>
    cases plans
    exact ⟨_, limited _⟩
  | _ => cases plans

theorem eq_of_planning {node : Node} {make : Program Plan} {x : Except Fault Plan}
    (plans : planning node = some make) (made : make.Does work x) (leads : Leads w work v) :
    v = w := by
  obtain ⟨_, settled⟩ := ends_planning plans w.settings
  exact ((settled rfl).of_runs (made.runs leads fun d _ => Outlook.admits_unlimited d.1 d.2)).2

theorem leads_of_owned {k : CacheKey} {ticket : Nat} {rest : List Doing}
    (leads : Leads w (⟨.step (.request k), .owned ticket⟩ :: rest) v) :
    w.cache.stored.find? k = none ∧ w.cache.inFlight.find? k = none ∧
      ticket = w.cache.nextTicket ∧ Leads { w with cache := w.cache.register k } rest v := by
  obtain ⟨looked, leads⟩ := leads.of_step
  obtain ⟨_, _, same⟩ | ⟨_, _, same⟩ | ⟨missing, nobody, same⟩ := w.cache.request_cases k
  · simp [World.step, same] at looked
  · simp [World.step, same] at looked
  · simp only [World.step, same] at looked leads
    exact ⟨missing, nobody, Lookup.owned.inj looked, leads⟩

/-- No more is left of the query that failed than a ticket that was used up. -/
theorem QueryFailed.alike {result : Except Fault (List Node)}
    (failed : QueryFailed h f node query (work ++ told))
    (does : (childrenOf h node).Does work result) (leads : Leads w work v) : Alike w v := by
  obtain ⟨label, kind, values, fails⟩ := failed.exists_run
  have calls : ∀ d ∈ query, d.1.isOfCall := h.run_logical.ofCall.does fails
  obtain ⟨_, ⟨_, rfl⟩ | ⟨inner, make, p, before, ticket, rfl, plans, made, rfl⟩⟩ :=
    failed.of_does does
  · obtain ⟨cache, selection, _⟩ := leads.of_calls calls
    exact ⟨by rw [cache], by rw [cache], by rw [cache], selection, leads.settings⟩
  obtain ⟨u, first, rest⟩ := leads.of_append
  obtain rfl := eq_of_planning plans made first
  obtain ⟨-, nobody, rfl, asks⟩ := leads_of_owned rest
  obtain ⟨u', queried, ends⟩ := asks.of_append
  obtain ⟨-, settled⟩ := ends.of_step
  obtain ⟨-, ⟨⟩⟩ := settled.of_step
  obtain ⟨cache, selection, _⟩ := queried.of_calls calls
  have cache : u'.cache.settle p.key u.cache.nextTicket (.error f) =
      { u.cache with nextTicket := u.cache.nextTicket + 1 } := by
    rw [cache, ← Cache.settle_register_of_failed nobody f]
  exact ⟨(congrArg Cache.epoch cache :), (congrArg Cache.stored cache :),
    (congrArg Cache.inFlight cache :), selection, leads.settings⟩

theorem QueryFailed.isRefusal {o : Outlook} (failed : QueryFailed h f node query work)
    (leads : Leads w work v) (fails : o.FailsFromStone)
    (admitted : ∀ d ∈ query, o.admits d.1 d.2) (made : query ≠ []) : f.isRefusal := by
  have refused {label : String} {kind : SnippetKind} {values : List Value} {u u' : World}
      (does : (h.run label kind values).Does query (.error f)) (leads : Leads u query u') :
      f.isRefusal := by
    cases formed : kind.snippet values with
    | ok snippet =>
      have meets : Meets o (fun _ => True) (h.run label kind values) (fun _ => True)
          fun f => True → f.isRefusal :=
        Handle.meets_run (fun _ _ _ _ => trivial) (fun _ => fails) fun _ => ⟨snippet, formed⟩
      exact ((meets u trivial).of_runs (does.runs leads admitted)).2 trivial
    | error e =>
      rw [Handle.run, formed] at does
      exact absurd (Program.does_fail.mp does).1 made
  cases failed with
  | roots does =>
    obtain ⟨_, first, _⟩ := leads.of_append
    exact refused does first
  | entry _ _ does =>
    obtain ⟨_, _, rest⟩ := leads.of_append
    obtain ⟨_, _, _, asks⟩ := leads_of_owned rest
    obtain ⟨_, first, _⟩ := asks.of_append
    exact refused does first

/-! Who is notified -/

end Tree

/-! When the remote side works again -/

namespace WorkingStone

variable {s : WorkingStone} {h : Handle} {w : World}

def replyTo (s : WorkingStone) (kind : SnippetKind) (values : List Value) : Except Fault String :=
  (kind.snippet values).map fun snippet => Text.upTo Handle.maxResultSize (s.textOf snippet)

theorem ends_run {label : String} {kind : SnippetKind} {values : List Value}
    (idle : w.depth h.number = 0) : (h.run label kind values).Ends s.outlook w
      fun outcome _ => outcome = s.replyTo kind values := by
  cases made : kind.snippet values with
  | ok snippet =>
    apply ((yields_run made).ends idle).mono
    rintro _ v ⟨data, rfl, rfl, _⟩
    rw [replyTo, made]
    rfl
  | error f =>
    unfold Handle.run
    rw [made]
    show Except.error f = s.replyTo kind values
    rw [replyTo, made]
    rfl

def listed (s : WorkingStone) (p : Tree.Plan) : Except Fault (List Node) :=
  ((s.replyTo p.kind p.values).bind p.read).bind p.list

end WorkingStone

namespace Tree

variable {s : WorkingStone} {h : Handle} {w : World}

theorem ends_after_ofExcept {α β : Type} {o : Outlook} (x : Except Fault α)
    (f : α → Except Fault β) :
    Program.endsAfter o (fun a => Program.ofExcept (f a)) (fun outcome _ => outcome = x.bind f) x
      w := by
  cases x with
  | ok a => exact (Program.ends_ofExcept _ _).mpr rfl
  | error e => exact rfl

theorem Plan.ends_carryOut {p : Plan} (missing : w.cache.stored.find? p.key = none)
    (nobody : w.cache.inFlight.find? p.key = none) (idle : w.depth h.number = 0) :
    (p.carryOut h).Ends s.outlook w fun outcome _ => outcome = s.listed p := by
  have queried : (p.query h).Ends s.outlook { w with cache := w.cache.register p.key }
      fun outcome _ => outcome = s.replyTo p.kind p.values := WorkingStone.ends_run idle
  have fetched : (p.fetch h).Ends s.outlook { w with cache := w.cache.register p.key }
      fun outcome _ => outcome = (s.replyTo p.kind p.values).bind p.read := by
    rw [Plan.fetch, Program.ends_bind]
    apply queried.mono
    rintro _ v rfl
    exact ends_after_ofExcept _ _
  rw [Plan.carryOut, Program.ends_bind]
  apply ends_entry_owned missing nobody
  apply fetched.mono
  rintro _ v rfl
  exact ends_after_ofExcept _ _

/-- What an expansion answers that has come to `found`. Where a failure is expected it shows no
children, unless it is somebody outside who is to be notified and fails as well. -/
inductive Answered (n : Notifier) : Except Fault (List Node) → Except Fault (List Node) → Prop
  | listed (children : List Node) : Answered n (.ok children) (.ok children)
  | passed {f : Fault} (unexpected : f.isExpected = false) : Answered n (.error f) (.error f)
  | shown {f : Fault} (expected : f.isExpected) : Answered n (.error f) (.ok [])
  | unheard {f : Fault} (expected : f.isExpected) (outside : n = .outside) (e : Fault) :
    Answered n (.error f) (.error e)

theorem ends_notify {o : Outlook} {n : Notifier} {message : String}
    {post : Except Fault (List Node) → World → Prop} (heard : ∀ v, post (.ok []) v)
    (unheard : n = .outside → ∀ e v, post (.error e) v) :
    (do notify n message; return [] : Program (List Node)).Ends o w post := by
  cases n with
  | log => exact ⟨⟨(), w, .log w _, trivial⟩, fun _ v _ _ => heard v⟩
  | gather => exact ⟨⟨(), _, .step w (.addNotice message), trivial⟩, fun _ v _ _ => heard v⟩
  | outside =>
    refine ⟨⟨.ok (), w, .report w message _, trivial⟩, fun answer v _ _ => ?_⟩
    cases answer with
    | ok _ => exact heard v
    | error e => exact unheard rfl e v

theorem ends_children {o : Outlook} {n : Notifier} {node : Option Node}
    {found : Except Fault (List Node)} (selected : w.selection.selectedHandle = some h)
    (lists : (childrenOf h node).Ends o w fun outcome _ => outcome = found) :
    (children n node).Ends o w fun answer _ => Answered n found answer := by
  show (Program.step .selectedSession >>= _).Ends _ _ _
  rw [Program.ends_step_bind]
  simp only [World.step, selected]
  show ((childrenOf h node).attempt >>= _).Ends _ _ _
  rw [Program.ends_bind, Program.ends_attempt]
  apply lists.mono
  rintro found v rfl
  cases found with
  | ok nodes => exact .listed nodes
  | error f =>
    show (if f.isExpected then _ else _ : Program (List Node)).Ends _ _ _
    split
    · next expected =>
      exact ends_notify (fun _ => .shown expected) fun outside e _ => .unheard expected outside e
    · next other => exact .passed (by simpa using other)

theorem QueryFailed.ends_again {f : Fault} {node : Option Node} {query work told : List Doing}
    {v : World} {result : Except Fault (List Node)}
    (failed : QueryFailed h f node query (work ++ told))
    (does : (childrenOf h node).Does work result) (leads : Leads w work v) (s : WorkingStone) :
    ∃ found, ∀ {u}, Alike w u → u.depth h.number = 0 →
      (childrenOf h node).Ends s.outlook u fun outcome _ => outcome = found := by
  obtain ⟨_, ⟨rfl, rfl⟩ | ⟨inner, make, p, before, ticket, rfl, plans, made, rfl⟩⟩ :=
    failed.of_does does
  · refine ⟨(s.replyTo .dictionaryNames []).bind fun data => .ok ((Text.lines data).mapIdx
      fun i name => .dictionary ⟨h.sessionId, .whole (i + 1), .text name⟩), fun _ idle => ?_⟩
    show (h.dictionaryNames >>= _).Ends _ _ _
    rw [Program.ends_bind, Handle.dictionaryNames, Program.ends_bind]
    apply (WorkingStone.ends_run idle).mono
    rintro _ v rfl
    cases s.replyTo .dictionaryNames [] with
    | ok data => exact rfl
    | error e => exact rfl
  · obtain ⟨u, first, rest⟩ := leads.of_append
    obtain rfl := eq_of_planning plans made first
    obtain ⟨x, settled⟩ := ends_planning plans u.settings
    have same : .ok p = x :=
      ((settled rfl).of_runs (made.runs first fun d _ => Outlook.admits_unlimited d.1 d.2)).1
    refine ⟨s.listed p, fun {u'} alike idle => ?_⟩
    rw [childrenOf_of_planning plans, Program.ends_bind]
    apply (settled alike.settings).mono
    rintro _ _ ⟨rfl, rfl⟩
    rw [← same]
    obtain ⟨missing, nobody, _⟩ := leads_of_owned rest
    refine Plan.ends_carryOut ?_ ?_ idle
    · rwa [alike.stored]
    · rwa [alike.inFlight]

theorem QueryFailed.ends_children {f : Fault} {node : Option Node} {query work told : List Doing}
    {v : World} {result : Except Fault (List Node)}
    (failed : QueryFailed h f node query (work ++ told))
    (does : (childrenOf h node).Does work result) (leads : Leads w work v)
    (selected : w.selection.selectedHandle = some h) (s : WorkingStone) (n : Notifier) :
    ∃ found, ∀ {u}, Alike w u → u.depth h.number = 0 →
      (children n node).Ends s.outlook u fun answer _ => Answered n found answer := by
  obtain ⟨found, lists⟩ := failed.ends_again does leads s
  refine ⟨found, fun alike idle => Tree.ends_children ?_ (lists alike idle)⟩
  rw [alike.selection, selected]

theorem Alike.refl (w : World) : Alike w w := ⟨rfl, rfl, rfl, rfl, rfl⟩

theorem Alike.of_resting {u : World} {depth : Int} (alike : Alike w v)
    (rests : v.Resting h.number depth u) : Alike w u :=
  ⟨by rw [rests.cache, alike.epoch], by rw [rests.cache, alike.stored],
    by rw [rests.cache, alike.inFlight], by rw [rests.selection, alike.selection],
    by rw [rests.settings, alike.settings]⟩

def turnedDown (p : Plan) (source : String) : List Doing :=
  [⟨.step .selectedSession, some (handleOf 1 "session-2")⟩, ⟨.step .limit, (0, none)⟩,
    ⟨.step (.request p.key), .owned 0⟩,
    ⟨.log (.query (.text "session-2") p.label source), ()⟩, ⟨.step (.claim 1), false⟩,
    ⟨.log (.error (.text "session-2") Refusal.busy.message), ()⟩,
    ⟨.step (.settle p.key 0 (.error (.refused .busy))), ()⟩,
    ⟨.step (.publish 0 (.error (.refused .busy))), ()⟩,
    ⟨.log (.notified (failureNotice (.refused .busy))), ()⟩]

end Tree

end ImageBrowser
