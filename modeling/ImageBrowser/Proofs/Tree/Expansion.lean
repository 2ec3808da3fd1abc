import ImageBrowser.Proofs.Cache.Requests
import ImageBrowser.Proofs.Tree.Reports

/-!
How a node of the tree is expanded, followed action by action: the caller looks up which session is
selected, asks its connection alone, and asks at all only for a fetch of its own, under a key with
the session id of the node. Selecting, removing and refreshing ask nothing.
-/

namespace ImageBrowser

open Program (Keeps)

theorem not_isRequest_of_isAside {a : Action} (apart : a.isAside) : ¬ a.isRequest := by
  cases a with
  | step t => cases t <;> first | exact Bool.false_ne_true | cases apart
  | wait ticket => cases apart
  | _ => exact Bool.false_ne_true

section Nothing

variable {α : Type} {p : Program α}

theorem Program.Only.requestsNothing (only : p.Only fun a => !a.isRequest) : p.RequestsNothing :=
  (only () trivial).requestsNothing fun _ _ other => by simpa using other

theorem Program.Aside.requestsNothing (apart : p.Aside) : p.RequestsNothing :=
  Only.requestsNothing (apart.mono fun _ aside => by simpa using not_isRequest_of_isAside aside)

theorem Sessions.remove_requestsNothing (id : Value) : (remove id).RequestsNothing :=
  Program.Only.requestsNothing
    (only_remove id (fun _ => rfl) fun _ aside => by simpa using not_isRequest_of_isAside aside)

end Nothing

structure Expansion where
  node : Option Node
  children : List Node
  deriving DecidableEq, Repr

inductive TreeCall : Program (Option Expansion) → Prop
  | select (id : Value) : TreeCall (do Sessions.select id; return none)
  | remove (id : Value) : TreeCall (do let _ ← Sessions.remove id; return none)
  | refresh : TreeCall (do Tree.refresh; return none)
  | expand (n : Tree.Notifier) (node : Option Node) :
      TreeCall (do let children ← Tree.children n node; return some ⟨node, children⟩)

def told (h : Handle) : Doing := ⟨.step .selectedSession, some h⟩

def LooksUp (done : List Doing) (k : CacheKey) : Prop :=
  (∃ found, ⟨.step (.request k), found⟩ ∈ done) ∨ ∃ found, ⟨.step (.cached k), found⟩ ∈ done

def Fetches (done : List Doing) (k : CacheKey) : Prop :=
  ∃ ticket, ⟨.step (.request k), .owned ticket⟩ ∈ done

/-- All that was done was about the session of a node, and nothing was asked but for a fetch. -/
structure About (node : Node) (done : List Doing) : Prop where
  keys : ∀ {k}, LooksUp done k → k.session = node.session
  asks : ∀ {c r answer}, ⟨.ask c r, answer⟩ ∈ done → ∃ k, Fetches done k

def attending : Discipline (List Doing) := .diary fun done a =>
  match a with
  | .ask c _ => ∃ h, told h ∈ done ∧ c = h.connection
  | _ => True

section Diaries

variable {done : List Doing} {k : CacheKey} {a : Action} {r : a.Reply} {node : Node}

theorem LooksUp.concat (looks : LooksUp (done ++ [⟨a, r⟩]) k) :
    LooksUp done k ∨ a = .step (.request k) ∨ a = .step (.cached k) := by
  obtain ⟨found, mem⟩ | ⟨found, mem⟩ := looks
  · rcases List.mem_append.mp mem with old | new
    · exact .inl (.inl ⟨found, old⟩)
    · cases List.mem_singleton.mp new
      exact .inr (.inl rfl)
  · rcases List.mem_append.mp mem with old | new
    · exact .inl (.inr ⟨found, old⟩)
    · cases List.mem_singleton.mp new
      exact .inr (.inr rfl)

theorem Fetches.concat (fetches : Fetches done k) : Fetches (done ++ [⟨a, r⟩]) k := by
  obtain ⟨ticket, mem⟩ := fetches
  exact ⟨ticket, List.mem_append_left _ mem⟩

theorem About.nil : About node [] := by
  refine ⟨?_, nofun⟩
  intro k looks
  obtain ⟨_, none⟩ | ⟨_, none⟩ := looks
  · contradiction
  · contradiction

theorem About.concat (about : About node done)
    (keys : ∀ {k}, a = .step (.request k) ∨ a = .step (.cached k) → k.session = node.session)
    (asks : ∀ {c q}, a = .ask c q → ∃ k, Fetches done k) : About node (done ++ [⟨a, r⟩]) := by
  refine ⟨?_, ?_⟩
  · intro k looks
    obtain old | new := looks.concat
    · exact about.keys old
    · exact keys new
  · intro c q answer mem
    have fetched : ∃ k, Fetches done k := by
      rcases List.mem_append.mp mem with old | new
      · exact about.asks old
      · cases List.mem_singleton.mp new
        exact asks rfl
    obtain ⟨k, fetches⟩ := fetched
    exact ⟨k, fetches.concat⟩

end Diaries

theorem attending_of_not_isRemote {a : Action} (near : !a.isRemote) (done : List Doing) :
    attending.allows done a := by
  cases a with
  | ask c q => cases near
  | _ => trivial

def Attends (h : Handle) (node : Option Node) (done : List Doing) : Prop :=
  told h ∈ done ∧ ∀ n ∈ node, About n done

def AttendsFetch (h : Handle) (node : Option Node) (done : List Doing) : Prop :=
  Attends h node done ∧ (node.isSome → ∃ k, Fetches done k)

namespace Attends

variable {h : Handle} {node : Option Node} {α : Type}

variable {done : List Doing} {a : Action}

theorem concat {r : a.Reply} (attends : Attends h node done)
    (keys : ∀ {k}, a = .step (.request k) ∨ a = .step (.cached k) →
      ∀ n ∈ node, k.session = n.session)
    (unasked : ∀ {c q}, a ≠ .ask c q) : Attends h node (done ++ [⟨a, r⟩]) := by
  refine ⟨List.mem_append_left _ attends.1, ?_⟩
  intro n same
  exact (attends.2 n same).concat (fun looks => keys looks n same) fun asks => absurd asks unasked

theorem act {k : a.Reply → Program α}
    (keys : ∀ {k}, a = .step (.request k) ∨ a = .step (.cached k) →
      ∀ n ∈ node, k.session = n.session)
    (unasked : ∀ {c q}, a ≠ .ask c q) (next : ∀ r, (k r).Keeps attending (Attends h node)) :
    (Program.act a k).Keeps attending (Attends h node) := by
  refine Keeps.act ?_ (fun done r attends => attends.concat keys unasked) next
  intro done _
  cases a with
  | ask c q => exact absurd rfl unasked
  | _ => trivial

theorem concat_aside (attends : Attends h node done) (aside : a.isAside) (r : a.Reply) :
    Attends h node (done ++ [⟨a, r⟩]) := by
  apply attends.concat
  · rintro k (rfl | rfl) <;> cases aside
  · rintro c q rfl
    cases aside

theorem of_aside {p : Program α} (apart : p.Aside) : p.Keeps attending (Attends h node) :=
  apart.keeps (fun aside _ => attending_of_not_isRemote (Action.not_isRemote_of_isAside aside) _)
    fun r aside attends => attends.concat_aside aside r

theorem fetch_of_aside {p : Program α} (apart : p.Aside) :
    p.Keeps attending (AttendsFetch h node) := by
  refine apart.keeps
    (fun aside _ => attending_of_not_isRemote (Action.not_isRemote_of_isAside aside) _) ?_
  rintro done a r aside ⟨attends, fetching⟩
  refine ⟨attends.concat_aside aside r, fun some => ?_⟩
  obtain ⟨k, fetches⟩ := fetching some
  exact ⟨k, fetches.concat⟩

theorem of_logical {may : Scope} {p : Program α} (logical : h.Logical may p) :
    p.Keeps attending (AttendsFetch h node) := by
  intro done inv
  refine ((logical {} rfl).coarsen (fun _ done => AttendsFetch h node done) ?_ ?_ inv).mono ?_
  · rintro _ done a ⟨attends, _⟩ lets
    cases a with
    | ask c q => exact ⟨h, attends.1, lets.1⟩
    | _ => trivial
  · rintro _ done a r ⟨attends, fetching⟩ lets
    refine ⟨⟨List.mem_append_left _ attends.1, ?_⟩, ?_⟩
    · intro n same
      refine (attends.2 n same).concat ?_ fun _ => fetching (Option.isSome_of_mem same)
      rintro k (rfl | rfl) <;> exact absurd lets id
    · intro some
      obtain ⟨k, fetches⟩ := fetching some
      exact ⟨k, fetches.concat⟩
  · rintro _ done ⟨_, inv, _⟩
    exact inv

theorem of_entry {k : CacheKey} {fetch : Program CacheEntry}
    (own : ∀ n ∈ node, k.session = n.session)
    (fetches : fetch.Keeps attending (AttendsFetch h node)) :
    (Tree.entry k fetch).Keeps attending (Attends h node) := by
  intro done attends
  refine ⟨trivial, ?_⟩
  intro found
  have looked : Attends h node (done ++ [⟨.step (.request k), found⟩]) := by
    refine attends.concat ?_ nofun
    rintro k' (same | same)
    · cases same
      exact own
    · cases same
  cases found with
  | found e => exact looked
  | joined ticket =>
    have waits : (Program.wait ticket).Keeps attending (Attends h node) :=
      act (by simp) nofun fun _ => .ofExcept _
    exact waits _ looked
  | owned ticket =>
    have settles (outcome : Except Fault CacheEntry) :
        (do
          Program.step (.settle k ticket outcome)
          Program.step (.publish ticket outcome)
          Program.ofExcept outcome).Keeps attending (Attends h node) :=
      act (by simp) nofun fun _ => act (by simp) nofun fun _ => .ofExcept outcome
    have begun : ∃ k', Fetches (done ++ [⟨.step (.request k), .owned ticket⟩]) k' :=
      ⟨k, ticket, List.mem_append_right _ (List.mem_singleton.mpr rfl)⟩
    show (fetch.attempt >>= _).Obeys _ _ _
    rw [Program.obeys_bind, Program.obeys_attempt]
    exact (fetches _ ⟨looked, fun _ => begun⟩).mono fun outcome done inv =>
      settles outcome done inv.1

end Attends

namespace Tree

variable {h : Handle} {node : Option Node} {α : Type} {p : Program α}

theorem attends_reports (reports : Reports h node p) :
    p.Keeps attending (AttendsFetch h node) := by
  induction reports with
  | query _ => exact Attends.of_logical h.run_logical
  | read _ next ih => exact .bind ih fun a => Attends.fetch_of_aside (next a)

theorem attends_expands (expands : Expands h node p) : p.Keeps attending (Attends h node) := by
  induction expands with
  | aside apart => exact Attends.of_aside apart
  | uncached root reports =>
    intro done attends
    have unasked : node.isSome → ∃ k, Fetches done k := by simp [root]
    exact (attends_reports reports done ⟨attends, unasked⟩).mono fun _ _ inv => inv.1
  | cached own =>
    refine Attends.act ?_ nofun .done
    rintro k' (same | same)
    · cases same
    · cases same
      exact own
  | entry own reports => exact Attends.of_entry own (attends_reports reports)
  | keyed _ _ ih => exact .ofExcept_bind ih
  | after first _ ih => exact .bind (Attends.of_aside first) ih
  | bind _ next ih => exact .bind ih fun a => Attends.of_aside (next a)

end Tree

section Order

variable {α β : Type} {p : Program α} {f : α → Program β}

/-- The program makes one request at most, and takes its steps in order. -/
abbrev Program.InOrder (p : Program α) : Prop := p.Obeys Stage.inOrder .idle fun _ _ => True

theorem Program.RequestsNothing.inOrder (nothing : p.RequestsNothing) : p.InOrder :=
  (nothing.keeps .idle _ rfl).mono fun _ _ _ => trivial

theorem Program.InOrder.bind (first : p.InOrder) (next : ∀ a, (f a).RequestsNothing) :
    (p >>= f).InOrder := by
  rw [InOrder, obeys_bind]
  refine first.mono fun outcome stage _ => ?_
  cases outcome with
  | ok a => exact ((next a).keeps stage _ rfl).mono fun _ _ _ => trivial
  | error e => trivial

theorem Program.RequestsNothing.andThen (first : p.RequestsNothing) (next : ∀ a, (f a).InOrder) :
    (p >>= f).InOrder := by
  rw [InOrder, obeys_bind]
  refine (first.keeps .idle _ rfl).mono fun outcome stage same => ?_
  subst same
  cases outcome with
  | ok a => exact next a
  | error e => trivial

theorem Program.InOrder.handling {handles : Fault → Bool} {handler : Fault → Program α}
    (first : p.InOrder) (handled : ∀ e, (handler e).RequestsNothing) :
    (p.handling handles handler).InOrder := by
  have tried : p.attempt.InOrder := (obeys_attempt p Stage.idle _).mpr first
  apply tried.bind
  intro outcome
  cases outcome with
  | ok a => trivial
  | error e =>
    dsimp only
    split
    · exact handled e
    · trivial

namespace Tree

variable {h : Handle}

theorem inOrder_entry {k : CacheKey} {fetch : Program CacheEntry}
    (nothing : fetch.RequestsNothing) : (entry k fetch).InOrder :=
  (entry_inOrder nothing).mono fun _ _ _ => trivial

theorem requestsNothing_reports {node : Option Node} (reports : Reports h node p) :
    p.RequestsNothing := by
  induction reports with
  | query _ => exact h.run_requestsNothing
  | read _ next ih => exact ih.bind fun a => (next a).requestsNothing

theorem inOrder_expands {node : Option Node} (expands : Expands h node p) : p.InOrder := by
  induction expands with
  | aside apart => exact apart.requestsNothing.inOrder
  | uncached _ reports => exact (requestsNothing_reports reports).inOrder
  | cached _ => exact Program.RequestsNothing.inOrder ⟨nofun, fun _ => trivial⟩
  | entry _ reports => exact inOrder_entry (requestsNothing_reports reports)
  | keyed made _ ih =>
    cases made with
    | error f => trivial
    | ok k => exact ih k rfl
  | after first _ ih => exact first.requestsNothing.andThen ih
  | bind _ next ih => exact ih.bind fun a => (next a).requestsNothing

theorem inOrder_children (n : Notifier) (node : Option Node) : (children n node).InOrder := by
  refine ⟨trivial, fun selected => ?_⟩
  cases selected with
  | none => trivial
  | some h =>
    apply (inOrder_expands (expands_childrenOf node)).handling
    intro f
    exact (aside_notify n _).requestsNothing.bind fun _ => trivial

end Tree

end Order

namespace TreeCall

theorem attends {p : Program (Option Expansion)} (call : TreeCall p) :
    p.Obeys attending [] fun outcome done =>
      ∀ {node children}, outcome = .ok (some ⟨some node, children⟩) → About node done := by
  have nothing {α : Type} {q : Program α} (offline : q.Offline) :
      (q >>= fun _ => return none : Program (Option Expansion)).Obeys attending []
        fun outcome done =>
          ∀ {node children}, outcome = .ok (some ⟨some node, children⟩) → About node done := by
    have kept : q.Keeps attending fun _ => True :=
      offline.keeps (fun near _ => attending_of_not_isRemote near _) fun _ _ _ => trivial
    rw [Program.obeys_bind]
    refine (kept [] trivial).mono fun outcome done _ => ?_
    cases outcome <;> nofun
  cases call with
  | select id => exact nothing (Sessions.aside_select id).offline
  | remove id => exact nothing (Sessions.offline_remove id)
  | refresh => exact nothing Tree.aside_refresh.offline
  | expand n node =>
    refine ⟨trivial, ?_⟩
    intro selected
    cases selected with
    | none =>
      rintro m children ⟨⟩
      exact About.nil.concat (by simp) nofun
    | some h =>
      have begun : Attends h node [told h] :=
        ⟨List.mem_singleton.mpr rfl, fun m _ => About.nil.concat (by simp) nofun⟩
      have handled : ((Tree.childrenOf h node).handling Fault.isExpected fun f => do
          Tree.notify n ("Browser query failed: " ++ f.message)
          return []).Keeps attending (Attends h node) := by
        apply Keeps.handling (Tree.attends_expands (Tree.expands_childrenOf node))
        intro f
        exact .bind (Attends.of_aside (Tree.aside_notify n _)) fun _ => .done _
      show (_ >>= _ : Program _).Obeys _ _ _
      rw [Program.obeys_bind]
      refine (handled _ begun).mono fun outcome done attends => ?_
      cases outcome with
      | ok children =>
        rintro m _ ⟨⟩
        exact attends.2 m rfl
      | error f => nofun

theorem inOrder {p : Program (Option Expansion)} (call : TreeCall p) : p.InOrder := by
  cases call with
  | select id => exact (Sessions.aside_select id).requestsNothing.inOrder.bind fun _ => trivial
  | remove id => exact (Sessions.remove_requestsNothing id).inOrder.bind fun _ => trivial
  | refresh => exact Tree.aside_refresh.requestsNothing.inOrder.bind fun _ => trivial
  | expand n node => exact (Tree.inOrder_children n node).bind fun _ => trivial

end TreeCall

end ImageBrowser
