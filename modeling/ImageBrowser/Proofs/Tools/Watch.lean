import ImageBrowser.Proofs.Calls.Operations
import ImageBrowser.Proofs.Smalltalk.Changes
import ImageBrowser.Tools.Basic
import Mathlib.Logic.Function.Basic

/-!
What the switches of a server let its tools ask of a stone, and an observer that watches for it.
The observer knows which objects the stone has answered over each connection, for reading their
value is harmless and reading that of an object from elsewhere would be another request.
-/

namespace ImageBrowser

open Smalltalk (Snippet SnippetKind)

namespace Request

/-- Requests that leave the image as it is: those that say what a session is connected to, those
that begin or drop a transaction or end the session, the class that results are answered in, and
the snippets that only read, with the values of the objects answered. -/
def Reads (known : List RemoteObject) : Request → Prop
  | .stoneName | .hostName | .userId | .begin | .abort | .logOut => True
  | .resolve name => name = .text Handle.resultClassName
  | .execute source => source = .text "System session" ∨
      ∃ snippet : Snippet, snippet.isChange = false ∧ source = .text snippet.source
  | .fetch o => o ∈ known
  | _ => False

/-- Requests that alter the image, or that keep what was altered. -/
def Changes : Request → Prop
  | .commit => True
  | .execute source => ∃ snippet : Snippet, snippet.isChange ∧ source = .text snippet.source
  | _ => False

def isCompile : Request → Bool
  | .compile _ _ _ _ _ => true
  | _ => false

theorem Reads.mono {known known' : List RemoteObject} {r : Request} (reads : r.Reads known)
    (more : known ⊆ known') : r.Reads known' := by
  cases r with
  | fetch o => exact more reads
  | _ => exact reads

theorem not_isCompile_of_reads {known : List RemoteObject} {r : Request} (reads : r.Reads known) :
    ¬ r.isCompile := by
  cases r <;> simp_all [Reads, isCompile]

theorem not_isCompile_of_changes {r : Request} (changes : r.Changes) : ¬ r.isCompile := by
  cases r <;> simp_all [Changes, isCompile]

theorem not_changes_of_reads {known : List RemoteObject} {r : Request} (reads : r.Reads known) :
    ¬ r.Changes := by
  cases r with
  | execute source =>
    rintro ⟨change, alters, rfl⟩
    rcases reads with same | ⟨query, only, same⟩
    · have ends := change.endsChange_source
      rw [Value.text.inj same, alters] at ends
      exact absurd ends (by decide +kernel)
    · have ends := change.endsChange_source
      rw [Value.text.inj same, query.endsChange_source, alters, only] at ends
      contradiction
  | _ => simp_all [Reads, Changes]

theorem not_changes_of_isOfCompile {r : Request} (compiles : r.isOfCompile) : ¬ r.Changes := by
  cases r with
  | execute source =>
    rintro ⟨change, alters, rfl⟩
    have same : change.source = Smalltalk.symbolList := by simpa [isOfCompile] using compiles
    have ends := change.endsChange_source
    rw [same, alters] at ends
    exact absurd ends (by decide +kernel)
  | _ => simp_all [isOfCompile, Changes]

end Request

namespace Switches

/-- What a server may ask of a stone, by its switches. -/
def permits (s : Switches) : Scope := fun known r =>
  r.Reads known ∨ (s.allowMutation ∧ r.Changes) ∨ (s.allowCompile ∧ r.isOfCompile)

theorem permits_mono {s : Switches} {known known' : List RemoteObject} {r : Request}
    (permits : s.permits known r) (more : known ⊆ known') : s.permits known' r :=
  permits.imp_left fun reads => reads.mono more

theorem inScope_query {s : Switches} {kind : SnippetKind}
    (permitted : kind.isChange = false ∨ s.allowMutation) :
    (Operation.query kind).InScope s.permits := by
  intro values snippet made
  have same : snippet.isChange = kind.isChange := by
    rw [← snippet.isChange_kind, SnippetKind.kind_of_snippet made]
  refine ⟨fun _ => .inl rfl, fun _ => ?_, fun mem => .inl mem⟩
  cases alters : snippet.isChange with
  | false => exact .inl (.inr ⟨snippet, alters, rfl⟩)
  | true =>
    rcases permitted with only | allowed
    · rw [← same, alters] at only
      contradiction
    · exact .inr (.inl ⟨allowed, snippet, alters, rfl⟩)

end Switches

abbrev Known := Connection → List RemoteObject

def Known.after (known : Known) : (a : Action) → a.Reply → Known
  | .ask c q, .ok answer => Function.update known c (q.objects answer ++ known c)
  | _, _ => known

namespace Switches

variable {s : Switches} {α β : Type}

def watch (s : Switches) : Discipline Known where
  allows known a := match a with
    | .ask c r => s.permits (known c) r
    | _ => True
  after := Known.after

/-- The program asks nothing that the switches do not permit, whatever was answered before. -/
abbrev Heeds (s : Switches) (p : Program α) : Prop := p.Keeps s.watch fun _ => True

theorem heeds_of_logical {h : Handle} {p : Program α} (logical : h.Logical s.permits p) :
    s.Heeds p := by
  intro known _
  have nothing : ([] : List RemoteObject) ⊆ known h.connection := List.nil_subset _
  refine ((logical {} rfl).coarsen (fun p known => p.answered ⊆ known h.connection)
    ?_ ?_ nothing).mono fun _ _ _ => trivial
  · intro p known a more lets
    cases a with
    | ask c r =>
      obtain ⟨rfl, _, permits⟩ := lets
      exact permits_mono permits more
    | _ => trivial
  · intro p known a r more lets
    cases a with
    | ask c q =>
      obtain ⟨rfl, _, _⟩ := lets
      cases r with
      | ok answer =>
        simp only [watch, Known.after, Function.update_self]
        exact List.append_subset.mpr
          ⟨List.subset_append_left _ _, List.Subset.trans more (List.subset_append_right _ _)⟩
      | error f => exact more
    | _ => exact more

theorem heeds_step (t : Step) : s.Heeds (Program.step t) :=
  .act (fun _ _ => trivial) (fun _ _ _ => trivial) .done

theorem heeds_log (e : LogEntry) : s.Heeds (Program.log e) :=
  .act (fun _ _ => trivial) (fun _ _ _ => trivial) .done

theorem heeds_reply {a : Action} {reply : a.Reply → Except Fault α}
    (allowed : ∀ known, s.watch.allows known a) :
    s.Heeds (.act a fun r => .ofExcept (reply r)) :=
  .act (fun known _ => allowed known) (fun _ _ _ => trivial) fun r => .ofExcept (reply r)

theorem heeds_run {h : Handle} {label : String} {kind : SnippetKind} {values : List Value}
    (permitted : kind.isChange = false ∨ s.allowMutation) : s.Heeds (h.run label kind values) :=
  heeds_of_logical (Handle.logical_run (inScope_query permitted))

theorem heeds_transact {h : Handle} {name : String} {action : Program Unit}
    (stays : h.Stays s.permits .claiming action) : s.Heeds (h.transact name action) :=
  heeds_of_logical (Handle.logical_transact stays)

end Switches

end ImageBrowser
