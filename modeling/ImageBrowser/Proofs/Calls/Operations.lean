import ImageBrowser.Proofs.Calls.LogicalCall

/-!
Every operation of a browser session is a logical call. What an operation asks of the stone is
bounded by what it is for: to fetch the text of a source, to control the transaction, or to compile.
-/

namespace ImageBrowser

open Program (Keeps)
open Smalltalk (SnippetKind)

structure Scope.Fetches (may : Scope) (source : Value) : Prop where
  resolve : ∀ known, may known (.resolve (.text Handle.resultClassName))
  execute : ∀ known, may known (.execute source)
  fetch : ∀ {known o}, o ∈ known → may known (.fetch o)

def Request.isOfCompile : Request → Bool
  | .resolve _ | .create _ | .toSymbol _ | .perform _ _ _ | .compile _ _ _ _ _ => true
  | .terminate _ => true
  | .execute source => source = .text Smalltalk.symbolList
  | _ => false

def Scope.Compiles (may : Scope) : Prop := ∀ known r, r.isOfCompile → may known r

def Operation.InScope (may : Scope) : Operation → Prop
  | .query kind => ∀ {values snippet}, kind.snippet values = .ok snippet →
      may.Fetches (.text snippet.source)
  | .begin => ∀ known, may known .begin
  | .commit => ∀ known, may known .commit
  | .abort => ∀ known, may known .abort
  | .compile => may.Compiles
  | .runQuery => ∀ source, may.Fetches source
  | _ => True

namespace Handle

variable {h : Handle} {may : Scope} {α : Type}

theorem stays_resolve {name : Value} (asks : ∀ known, may known (.resolve name)) :
    h.Stays may .claiming (h.resolve name) := stays_calling (stays_ask asks)

theorem stays_failedCall {standing : Standing} (fallback : String) (f : Fault) :
    h.Stays may standing (h.failedCall fallback f : Program α) :=
  .bind (Quiet.log _ _) fun _ => .fail _

theorem stays_remoteStep {standing : Standing} {fallback : String} {body : Program α}
    (stays : h.Stays may standing body) : h.Stays may standing (h.remoteStep fallback body) :=
  .handling stays (stays_failedCall fallback)

theorem stays_resultClass (asks : ∀ known, may known (.resolve (.text resultClassName))) :
    h.Stays may .claiming h.resultClass := by
  have known : h.Stays may .claiming (Program.step (.knownResultClass h.number)) :=
    .act (fun _ stands => ⟨rfl, stands⟩) (fun _ _ stands => stands) .done
  have remembered (c : RemoteObject) :
      h.Stays may .claiming (Program.step (.rememberResultClass h.number c)) :=
    .act (fun _ stands => ⟨rfl, stands⟩) (fun _ _ stands => stands) .done
  apply Keeps.bind known
  intro c
  cases c with
  | some c => exact .done _
  | none =>
    apply Keeps.bind (stays_remoteStep (stays_resolve asks))
    intro found
    cases found with
    | none => exact .done _
    | some c => exact .bind (remembered c) fun _ => .done _

/-- Only the object that the source answered is fetched. -/
theorem stays_executed {source : Value} (fetches : may.Fetches source) :
    h.Stays may .calling (do h.ask (.fetch (← h.ask (.execute source)))) := by
  intro s calling
  refine ⟨⟨rfl, calling, fetches.execute _⟩, ?_⟩
  intro answer
  cases answer with
  | error f => exact calling
  | ok o =>
    refine ⟨⟨rfl, calling, fetches.fetch List.mem_cons_self⟩, ?_⟩
    intro value
    show (Program.ofExcept value).Obeys _ _ _
    rw [Program.obeys_ofExcept]
    exact calling

theorem stays_fetchText {source limit : Value} {resultClass : Option RemoteObject}
    (fetches : may.Fetches source) :
    h.Stays may .claiming (h.fetchText source resultClass limit) := by
  unfold fetchText
  split
  · exact .fail _
  · apply Keeps.bind (stays_calling (stays_executed fetches))
    intro answer
    split
    · exact .ofExcept _
    · exact .fail _

theorem logical_fetch {label : String} {source : Value} (fetches : may.Fetches source) :
    h.Logical may (h.fetch label source) := by
  apply Logical.after (.log _)
  intro _
  refine .andThen (logical_exclusively ?_) ?_
  · apply Keeps.bind (stays_resultClass fetches.resolve)
    intro resultClass
    apply Keeps.bind (Quiet.log _ _)
    intro _
    apply Keeps.handling (stays_fetchText fetches)
    intro f
    exact .bind (Quiet.log _ _) fun _ => stays_failedCall _ f
  · intro data
    exact .bind (.log _) fun _ => .bind (.log _) fun _ => .done data

theorem run_eq_fetch {label : String} {kind : SnippetKind} {values : List Value}
    {snippet : Smalltalk.Snippet} (made : kind.snippet values = .ok snippet) :
    h.run label kind values = h.fetch label (.text snippet.source) := by
  rw [run, made]
  rfl

theorem logical_run {label : String} {kind : SnippetKind} {values : List Value}
    (inScope : (Operation.query kind).InScope may) :
    h.Logical may (h.run label kind values) := by
  unfold run
  cases made : kind.snippet values with
  | error f => exact .of_quiet (.fail f)
  | ok snippet => exact logical_fetch (inScope made)

theorem logical_transact {name : String} {action : Program Unit}
    (stays : h.Stays may .claiming action) : h.Logical may (h.transact name action) := by
  have body : h.Stays may .claiming (do
      Program.log (.called h.sessionId name [])
      h.remoteStep ("Cannot " ++ name ++ " the transaction") action) :=
    .bind (Quiet.log _ _) fun _ => stays_remoteStep stays
  apply Logical.after (.log _)
  intro _
  exact .andThen (logical_exclusively body) fun _ => .log _

theorem stays_newSymbol {content : Value} (compiles : may.Compiles) :
    h.Stays may .claiming (h.newSymbol content) := by
  apply stays_calling
  apply Keeps.bind (stays_ask fun known => compiles known (.create content) rfl)
  intro object
  exact stays_ask fun known => compiles known _ rfl

theorem stays_perform {receiver : Option RemoteObject} {selector : Value}
    {arguments : List (Option RemoteObject)} (compiles : may.Compiles) :
    h.Stays may .claiming (h.perform receiver selector arguments) := by
  apply stays_calling
  apply Keeps.bind (.ofExcept _)
  intro receiver
  apply Keeps.bind (.ofExcept _)
  intro arguments
  exact stays_ask fun known => compiles known _ rfl

theorem stays_compile {source behavior category : Option RemoteObject} {options : CompileOptions}
    (compiles : may.Compiles) :
    h.Stays may .claiming (h.compile source behavior category options) := by
  unfold compile
  split
  · exact .fail _
  · have listed : h.Stays may .calling (h.ask (.execute (.text Smalltalk.symbolList))) :=
      stays_ask fun known => compiles known _ (by simp [Request.isOfCompile])
    apply stays_calling
    dsimp only
    split
    all_goals
      refine .bind ?_ fun symbolList => .bind (.ofExcept _) fun _ => .bind (.ofExcept _) fun _ =>
        .bind (.ofExcept _) fun _ => stays_ask fun known => compiles known _ rfl
    · exact .done _
    · exact listed

theorem stays_clearStack {context : Option RemoteObject} (compiles : may.Compiles) :
    h.Stays may .claiming (h.clearStack context) :=
  stays_calling (.bind (.ofExcept _) fun _ => stays_ask fun known => compiles known _ rfl)

theorem stays_failedCompile (compiles : may.Compiles) (f : Fault) :
    h.Stays may .claiming (h.failedCompile f) := by
  have cleared (context : Option RemoteObject) : h.Stays may .claiming (h.clearAfter context) := by
    unfold clearAfter
    split
    · exact .done ()
    · exact .handling (stays_clearStack compiles) fun _ => Quiet.log _ _
  unfold failedCompile
  split
  · apply Keeps.bind (.ofExcept _)
    intro _
    apply Keeps.bind (Quiet.log _ _)
    intro _
    exact .bind (cleared _) fun _ => stays_failedCall _ _
  · exact stays_failedCall _ _

theorem stays_compileSteps {className isMeta category source environment : Value}
    (compiles : may.Compiles) :
    h.Stays may .claiming (h.compileSteps className isMeta category source environment) := by
  have resolved (name : Value) : h.Stays may .claiming (h.resolve name) :=
    stays_resolve fun known => compiles known _ rfl
  have created : h.Stays may .claiming (h.newString source) :=
    stays_calling (stays_ask fun known => compiles known _ rfl)
  apply Keeps.bind (.ofExcept _)
  intro name
  apply Keeps.bind (stays_remoteStep (resolved name))
  intro cls
  -- a metaclass is asked for only where one is wanted; all that follows is the same
  dsimp only
  split
  all_goals
    refine .bind ?_ fun behavior => .bind (stays_remoteStep created) fun sourceText =>
      .bind (stays_remoteStep (stays_newSymbol compiles)) fun categoryName =>
      .bind (.ofExcept _) fun written =>
      .bind (Quiet.log _ _) fun _ =>
      .bind (.handling (stays_compile compiles) (stays_failedCompile compiles)) fun compiled =>
      .bind (Quiet.log _ _) fun _ => .done compiled
  · exact .map some (stays_remoteStep (stays_perform compiles))
  · exact .done cls

theorem logical_compileMethod {className isMeta category source environment : Value}
    (compiles : may.Compiles) :
    h.Logical may (h.compileMethod className isMeta category source environment) :=
  .after (.ofExcept _) fun _ => .after (.log _) fun _ =>
    logical_exclusively (stays_compileSteps compiles)

theorem logical_query {kind : SnippetKind} {values : List Value}
    (inScope : (Operation.query kind).InScope may) : h.Logical may (h.query kind values) := by
  unfold query
  split
  all_goals
    first
    | exact .andThen (.andThen (logical_run inScope) fun _ => .done _) fun _ => .done _
    | exact .andThen (logical_run inScope) fun _ => .done _
    | exact .of_quiet (.fail _)

/-- The operations that have the session to themselves; the steps of a compile alone do not. -/
theorem logical_carryOut {o : Operation} {values : List Value} (whole : o ≠ .compileSteps)
    (inScope : o.InScope may) : h.Logical may (h.carryOut o values) := by
  unfold carryOut
  split
  · exact logical_query inScope
  · exact .andThen (logical_transact (stays_calling (stays_ask inScope))) fun _ => .done _
  · exact .andThen (logical_transact (stays_calling (stays_ask inScope))) fun _ => .done _
  · exact .andThen (logical_transact (stays_calling (stays_ask inScope))) fun _ => .done _
  · exact .andThen (logical_compileMethod inScope) fun _ => .done _
  · exact .andThen (logical_compileMethod inScope) fun _ => .done _
  · contradiction
  · exact .andThen (logical_fetch (inScope _)) fun _ => .done _
  · exact .of_quiet (.done _)
  · exact .andThen (logical_transact (.fail _)) fun _ => .done _
  all_goals exact .of_quiet (.fail _)

end Handle

end ImageBrowser
