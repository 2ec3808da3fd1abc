import ImageBrowser.Proofs.Calls.Operations
import ImageBrowser.Proofs.Programs.Interleaving
import ImageBrowser.Tree

/-!
One request to the cache, followed action by action: it looks its key up, and then it has its
entry, or waits for the fetch of another caller, or fetches, settles and publishes itself. What a
caller does besides may clear the cache, but takes no part in a request.
-/

namespace ImageBrowser

def Action.isRequest : Action → Bool
  | .step (.request _) | .step (.settle _ _ _) | .step (.publish _ _) | .wait _ => true
  | _ => false

inductive Stage
  | idle
  | waiting (k : CacheKey) (ticket : Nat)
  | fetching (k : CacheKey) (ticket : Nat)
  | settled (k : CacheKey) (ticket : Nat) (outcome : Except Fault CacheEntry)
  | answered (k : CacheKey) (outcome : Except Fault CacheEntry)

namespace Stage

def ofLookup (k : CacheKey) : Lookup CacheEntry → Stage
  | .found e => answered k (.ok e)
  | .joined ticket => waiting k ticket
  | .owned ticket => fetching k ticket

def after : Stage → (a : Action) → a.Reply → Stage
  | idle, .step (.request k), found => ofLookup k found
  | fetching k ticket, .step (.settle _ _ outcome), _ => settled k ticket outcome
  | settled k _ outcome, .step (.publish _ _), _ => answered k outcome
  | waiting k _, .wait _, outcome => answered k outcome
  | s, _, _ => s

/-- A request takes its steps in order, each for the key and the fetch that it is about. -/
def allows : Stage → Action → Prop
  | s, .step (.request _) => s = idle
  | s, .step (.settle k ticket _) => s = fetching k ticket
  | s, .step (.publish ticket outcome) => ∃ k, s = settled k ticket outcome
  | s, .wait ticket => ∃ k, s = waiting k ticket
  | _, _ => True

def inOrder : Discipline Stage := ⟨allows, after⟩

theorem allows_of_not_isRequest {a : Action} (other : ¬ a.isRequest) (s : Stage) :
    s.allows a := by
  cases a with
  | step t => cases t <;> first | exact absurd rfl other | trivial
  | wait ticket => exact absurd rfl other
  | _ => trivial

theorem after_of_not_isRequest {a : Action} (other : ¬ a.isRequest) (s : Stage) (r : a.Reply) :
    s.after a r = s := by
  cases a with
  | step t => cases t <;> first | exact absurd rfl other | (cases s <;> rfl)
  | wait ticket => exact absurd rfl other
  | _ => cases s <;> rfl

end Stage

namespace Program

variable {α : Type}

def RequestsNothing : Program α → Prop
  | done _ | fail _ => True
  | act a k => ¬ a.isRequest ∧ ∀ r, RequestsNothing (k r)

theorem RequestsNothing.keeps {p : Program α} (nothing : p.RequestsNothing) (stage : Stage) :
    p.Keeps Stage.inOrder (· = stage) := by
  induction p with
  | done a => exact .done a
  | fail f => exact .fail f
  | act a k ih =>
    refine .act (fun s _ => s.allows_of_not_isRequest nothing.1) (fun s r same => ?_)
      fun r => ih r (nothing.2 r)
    exact (s.after_of_not_isRequest nothing.1 r).trans same

theorem RequestsNothing.bind {β : Type} {p : Program α} {f : α → Program β}
    (first : p.RequestsNothing) (next : ∀ a, (f a).RequestsNothing) : (p >>= f).RequestsNothing := by
  induction p with
  | done a => exact next a
  | fail f => trivial
  | act a k ih => exact ⟨first.1, fun r => ih r (first.2 r)⟩

theorem Obeys.requestsNothing {σ : Type} {d : Discipline σ} {p : Program α} {s : σ}
    {post : Except Fault α → σ → Prop} (obeys : p.Obeys d s post)
    (nothing : ∀ s a, d.allows s a → ¬ a.isRequest) : p.RequestsNothing := by
  induction p generalizing s with
  | done a => trivial
  | fail f => trivial
  | act a k ih => exact ⟨nothing s a obeys.1, fun r => ih r (obeys.2 r)⟩

end Program

theorem Handle.Logical.requestsNothing {h : Handle} {may : Scope} {α : Type} {p : Program α}
    (logical : h.Logical may p) : p.RequestsNothing := by
  apply (logical {} rfl).requestsNothing
  intro s a allowed
  cases a with
  | step t => cases t <;> first | exact Bool.false_ne_true | exact absurd allowed id
  | wait ticket => exact absurd allowed id
  | _ => exact Bool.false_ne_true

theorem Handle.run_logical (h : Handle) {label : String} {kind : Smalltalk.SnippetKind}
    {values : List Value} : h.Logical (fun _ _ => True) (h.run label kind values) :=
  logical_run fun _ => ⟨fun _ => trivial, fun _ => trivial, fun _ => trivial⟩

theorem Handle.run_requestsNothing (h : Handle) {label : String} {kind : Smalltalk.SnippetKind}
    {values : List Value} : (h.run label kind values).RequestsNothing :=
  h.run_logical.requestsNothing

theorem Tree.entry_inOrder {k : CacheKey} {fetch : Program CacheEntry}
    (nothing : fetch.RequestsNothing) :
    (Tree.entry k fetch).Obeys Stage.inOrder .idle fun outcome s => s = .answered k outcome := by
  have ended (outcome : Except Fault CacheEntry) :
      (Program.ofExcept outcome).Obeys Stage.inOrder (.answered k outcome) fun outcome s =>
        s = .answered k outcome := by
    rw [Program.obeys_ofExcept]
  refine ⟨rfl, ?_⟩
  intro found
  cases found with
  | found e => exact rfl
  | joined ticket => exact ⟨⟨k, rfl⟩, ended⟩
  | owned ticket =>
    show (fetch.attempt >>= _).Obeys _ _ _
    rw [Program.obeys_bind, Program.obeys_attempt]
    apply (nothing.keeps (.fetching k ticket) _ rfl).mono
    intro outcome s same
    subst same
    exact ⟨rfl, fun _ => ⟨⟨k, rfl⟩, fun _ => ended outcome⟩⟩

theorem Tree.clearCache_requestsNothing : Tree.clearCache.RequestsNothing :=
  ⟨Bool.false_ne_true, fun _ => ⟨Bool.false_ne_true, fun _ => ⟨Bool.false_ne_true, fun _ => trivial⟩⟩⟩

/-- What callers do with the cache: they request entries, and whatever else they do takes no part
in a request. -/
inductive CacheCall : Program (Option CacheEntry) → Prop
  | request (k : CacheKey) {fetch : Program CacheEntry} (nothing : fetch.RequestsNothing) :
      CacheCall (some <$> Tree.entry k fetch)
  | other {p : Program Unit} (nothing : p.RequestsNothing) : CacheCall (do p; return none)

theorem CacheCall.answered {p : Program (Option CacheEntry)} (call : CacheCall p) :
    p.Obeys Stage.inOrder .idle fun outcome s =>
      (s = .idle ∧ ∀ e, outcome ≠ .ok (some e)) ∨
        ∃ k answer, s = .answered k answer ∧ outcome = answer.map some := by
  cases call with
  | request k nothing =>
    show (Tree.entry k _ >>= _).Obeys _ _ _
    rw [Program.obeys_bind]
    apply (Tree.entry_inOrder nothing).mono
    intro outcome s same
    cases outcome with
    | ok entry => exact .inr ⟨k, .ok entry, same, rfl⟩
    | error f => exact .inr ⟨k, .error f, same, rfl⟩
  | other nothing =>
    rw [Program.obeys_bind]
    apply (nothing.keeps .idle _ rfl).mono
    intro outcome s same
    cases outcome with
    | ok u => exact .inl ⟨same, nofun⟩
    | error f => exact .inl ⟨same, nofun⟩

theorem CacheCall.inOrder {p : Program (Option CacheEntry)} (call : CacheCall p) :
    p.Obeys Stage.inOrder .idle fun outcome s =>
      ∀ e, outcome = .ok (some e) → ∃ k, s = .answered k (.ok e) := by
  refine call.answered.mono fun outcome s ended e same => ?_
  obtain ⟨_, none⟩ | ⟨k, answer, rfl, rfl⟩ := ended
  · exact absurd same (none e)
  · cases answer with
    | ok x =>
      cases same
      exact ⟨k, rfl⟩
    | error f => cases same

end ImageBrowser
