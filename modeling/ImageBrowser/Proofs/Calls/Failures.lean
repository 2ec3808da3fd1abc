import ImageBrowser.Proofs.Programs.Endings
import ImageBrowser.Queries

/-!
How the operations of a session fail. While a stone fails only the way stones do, an operation that
can be asked for at all comes to an end, and what it fails with is a refusal.
-/

namespace ImageBrowser

open Program (Meets)
open Smalltalk (SnippetKind)

def Outlook.FailsFromStone (o : Outlook) : Prop := ∀ r f, o.ask r (.error f) → f.isFromStone

/-- A failure of the stone with a number that can be put into a text. -/
def Fault.IsNumbered (f : Fault) : Prop := f.isFromStone ∧ f.stoneNumber.isWritable

def Outlook.FailsNumbered (o : Outlook) : Prop := ∀ r f, o.ask r (.error f) → f.IsNumbered

theorem Outlook.FailsNumbered.fromStone {o : Outlook} (fails : o.FailsNumbered) :
    o.FailsFromStone :=
  fun r f admitted => (fails r f admitted).1

/-- Every name is that of an object. -/
def Outlook.Resolves (o : Outlook) : Prop := ∀ name, ¬ o.ask (.resolve name) (.ok none)

/-- The property is not about what is kept of the calls of sessions. -/
def IgnoresCalls (inv : World → Prop) : Prop :=
  ∀ w depths resultClasses, inv w → inv { w with depths := depths, resultClasses := resultClasses }

theorem Fault.isExpected_of_isRefusal {f : Fault} (refusal : f.isRefusal) : f.isExpected := by
  rw [isExpected, refusal, Bool.true_or]

theorem Value.isWritable_zero : (whole 0).isWritable := by decide +kernel

theorem Value.within_asWritable {v : Value} {fair : Prop} {bad : Fault → Prop}
    (writes : fair → v.isWritable) : Within (· = v) (fun f => fair → bad f) v.asWritable := by
  unfold asWritable
  split
  · exact rfl
  · next unwritable => exact fun isFair => absurd (writes isFair) unwritable

namespace Handle

variable {h : Handle} {o : Outlook} {inv : World → Prop} {fair : Prop} {α : Type} {P : α → Prop}
  {bad : Fault → Prop}

theorem meets_ask {r : Request} {P : r.Answer → Prop}
    (fails : fair → ∀ r f, o.ask r (.error f) → bad f)
    (answered : ∀ a, o.ask r (.ok a) → P a) :
    Meets o inv (h.ask r) P fun f => fair → bad f := by
  apply Meets.ask
  intro answer admitted
  cases answer with
  | ok a => exact answered a admitted
  | error f => exact fun isFair => fails isFair r f admitted

theorem meets_calling {body : Program α} (steady : IgnoresCalls inv)
    (meets : Meets o inv body P bad) : Meets o inv (h.calling body) P bad := by
  apply Meets.bind (.step fun w holds => steady w _ _ holds)
  intro _ _
  exact meets.ensure (.step fun w holds => steady w _ _ holds)

theorem meets_exclusively {body : Program α} (steady : IgnoresCalls inv)
    (meets : Meets o inv body P bad) (busy : bad (.refused .busy)) :
    Meets o inv (h.exclusively body) P bad := by
  apply Meets.bind (.step fun w holds => steady w _ _ holds)
  intro granted _
  split
  · exact meets.ensure (.step fun w holds => steady w _ _ holds)
  · exact .bind (.log _) fun _ _ => .fail busy

theorem meets_failedCall (fallback : String) (f : Fault) :
    Meets o inv (h.failedCall fallback f) P fun f => fair → f.isRefusal :=
  .bind (.log _) fun _ _ => .fail fun _ => rfl

theorem meets_remoteStep {fallback : String} {body : Program α}
    (meets : Meets o inv body P fun f => fair → f.isFromStone) :
    Meets o inv (h.remoteStep fallback body) P fun f => fair → f.isRefusal :=
  meets.handled (meets_failedCall fallback)

theorem within_presentFor {message : String} {object : Option RemoteObject}
    (present : fair → object ≠ none) :
    Within (fun _ => True) (fun f => fair → bad f) (presentFor message object) := by
  cases object with
  | some _ => trivial
  | none => exact fun isFair => absurd rfl (present isFair)

theorem meets_transact {name : String} {action : Program Unit} (steady : IgnoresCalls inv)
    (meets : Meets o inv action (fun _ => True) fun f => fair → f.isFromStone) :
    Meets o inv (h.transact name action) (fun _ => True) fun f => fair → f.isRefusal := by
  apply Meets.bind (.log _)
  intro _ _
  refine .bind (meets_exclusively (P := fun _ => True) steady ?_ fun _ => rfl) fun _ _ => .log _
  exact .bind (.log _) fun _ _ => meets_remoteStep meets

section

variable (steady : IgnoresCalls inv) (fails : fair → o.FailsFromStone)

include steady fails

theorem meets_request {r : Request} :
    Meets o inv (h.calling (h.ask r)) (fun _ => True) fun f => fair → f.isFromStone :=
  meets_calling steady (meets_ask fails fun _ _ => trivial)

theorem meets_resultClass :
    Meets o inv h.resultClass (fun _ => True) fun f => fair → f.isRefusal := by
  apply Meets.bind (.step fun w holds => holds)
  intro known _
  cases known with
  | some c => exact .done trivial
  | none =>
    apply Meets.bind (meets_remoteStep (meets_request steady fails))
    intro found _
    cases found with
    | none => exact .done trivial
    | some c =>
      exact .bind (.step fun w holds => steady w _ _ holds) fun _ _ => .done trivial

theorem meets_fetchText {source : Value} {resultClass : Option RemoteObject} {limit : Int} :
    Meets o inv (h.fetchText source resultClass (.whole limit)) (fun _ => True)
      fun f => fair → f.isFromStone := by
  unfold fetchText
  split
  · exact .fail fun _ => rfl
  · have executed : Meets o inv (do h.ask (.fetch (← h.ask (.execute source)))) (fun _ => True)
        fun f => fair → f.isFromStone :=
      .bind (meets_ask (P := fun _ => True) fails fun _ _ => trivial) fun _ _ =>
        meets_ask fails fun _ _ => trivial
    apply Meets.bind (meets_calling steady executed)
    intro answer _
    split
    · exact .ofExcept (x := .ok _) trivial
    · exact .fail fun _ => rfl

theorem meets_fetch {label : String} {source : Value} :
    Meets o inv (h.fetch label source) (fun _ => True) fun f => fair → f.isRefusal := by
  apply Meets.bind (.log _)
  intro _ _
  refine .bind (meets_exclusively (P := fun _ => True) steady ?_ fun _ => rfl) ?_
  · apply Meets.bind (meets_resultClass steady fails)
    intro resultClass _
    apply Meets.bind (.log _)
    intro _ _
    apply (meets_fetchText steady fails).handled
    intro f
    exact .bind (.log _) fun _ _ => meets_failedCall _ f
  · intro data _
    exact .bind (.log _) fun _ _ => .bind (.log _) fun _ _ => .done trivial

theorem meets_run {label : String} {kind : SnippetKind} {values : List Value}
    (formed : fair → ∃ snippet, kind.snippet values = .ok snippet) :
    Meets o inv (h.run label kind values) (fun _ => True) fun f => fair → f.isRefusal := by
  unfold run
  cases made : kind.snippet values with
  | ok snippet => exact meets_fetch steady fails
  | error f =>
    apply Meets.fail
    intro isFair
    obtain ⟨snippet, same⟩ := formed isFair
    rw [made] at same
    contradiction

theorem meets_newSymbol {content : Value} :
    Meets o inv (h.newSymbol content) (fun _ => True) fun f => fair → f.isFromStone := by
  apply meets_calling steady
  apply Meets.bind (meets_ask (P := fun _ => True) fails fun _ _ => trivial)
  intro object _
  exact meets_ask fails fun _ _ => trivial

theorem meets_metaclass {cls : Option RemoteObject} (present : fair → cls ≠ none) :
    Meets o inv (h.perform cls (.text "class") []) (fun _ => True)
      fun f => fair → f.isFromStone := by
  apply meets_calling steady
  apply Meets.bind (.ofExcept (within_presentFor present))
  intro receiver _
  apply Meets.bind (.ofExcept (x := .ok []) (P := fun _ => True) trivial)
  intro arguments _
  exact meets_ask fails fun _ _ => trivial

omit fails in
theorem meets_compile {source behavior category : Option RemoteObject} {options : CompileOptions}
    (numbered : fair → o.FailsNumbered) (presentSource : fair → source ≠ none)
    (presentBehavior : fair → behavior ≠ none) (presentCategory : fair → category ≠ none) :
    Meets o inv (h.compile source behavior category options) (fun _ => True)
      fun f => fair → f.IsNumbered := by
  unfold compile
  split
  · exact .fail fun _ => ⟨rfl, Value.isWritable_zero⟩
  · apply meets_calling steady
    dsimp only
    split
    all_goals
      refine .bind (P := fun _ => True) ?_ fun symbolList _ =>
        .bind (.ofExcept (within_presentFor presentBehavior)) fun behavior _ =>
        .bind (.ofExcept (within_presentFor presentSource)) fun source _ =>
        .bind (.ofExcept (within_presentFor presentCategory)) fun category _ =>
        meets_ask numbered fun _ _ => trivial
    · exact .done trivial
    · exact meets_ask numbered fun _ _ => trivial

theorem meets_clearAfter {context : Option RemoteObject} :
    Meets o inv (h.clearAfter context) (fun _ => True) fun f => fair → f.isRefusal := by
  unfold clearAfter
  cases context with
  | none => exact .done trivial
  | some c =>
    have cleared : Meets o inv (h.clearStack (some c)) (fun _ => True)
        fun f => fair → f.isFromStone := by
      apply meets_calling steady
      apply Meets.bind (.ofExcept (within_presentFor fun _ => Option.some_ne_none c))
      intro context _
      exact meets_ask fails fun _ _ => trivial
    exact cleared.handled fun _ => .log _

theorem meets_failedCompile {f : Fault} (numbered : fair → f.stoneNumber.isWritable) :
    Meets o inv (h.failedCompile f) (fun _ => True) fun f => fair → f.isRefusal := by
  unfold failedCompile
  split
  · apply Meets.bind (.ofExcept (Value.within_asWritable numbered))
    intro _ _
    apply Meets.bind (.log _)
    intro _ _
    exact .bind (meets_clearAfter steady fails) fun _ _ => meets_failedCall _ _
  · exact meets_failedCall _ _

omit fails in
theorem meets_handledCompile {source category : RemoteObject} {behavior : Option RemoteObject}
    {environment : Value} (numbered : fair → o.FailsNumbered) (present : fair → behavior ≠ none) :
    Meets o inv ((h.compile (some source) behavior (some category)
      { environment := environment }).handling Fault.isFromStone h.failedCompile) (fun _ => True)
      fun f => fair → f.isRefusal := by
  have fails (isFair : fair) : o.FailsFromStone := (numbered isFair).fromStone
  have there (object : RemoteObject) : fair → some object ≠ none :=
    fun _ => Option.some_ne_none object
  apply (meets_compile steady numbered (there source) present (there category)).handling
  · intro f failed _
    exact meets_failedCompile steady fails fun isFair => (failed isFair).2
  · intro f failed other isFair
    rw [(failed isFair).1] at other
    contradiction

omit steady fails in
theorem within_compileLabel {className isMeta category : Value}
    (writes : fair → className.isWritable ∧ category.isWritable) :
    Within (fun _ => True) (fun f => fair → f.isRefusal)
      (compileLabel className isMeta category) :=
  (Value.within_asWritable fun isFair => (writes isFair).1).bind fun _ _ =>
    (Value.within_asWritable fun isFair => (writes isFair).2).bind fun _ _ => trivial

omit fails in
/-- A compile in a class that there is fails only with a refusal, where it writes no number that is
too long. -/
theorem meets_compileMethod {className isMeta category source environment : Value}
    (numbered : fair → o.FailsNumbered) (resolves : fair → o.Resolves)
    (writes : fair → className.isWritable ∧ category.isWritable ∧ environment.isWritable) :
    Meets o inv (h.compileMethod className isMeta category source environment) (fun _ => True)
      fun f => fair → f.isRefusal := by
  have fails (isFair : fair) : o.FailsFromStone := (numbered isFair).fromStone
  have resolved : Meets o inv (h.resolve className) (fun found => fair → found ≠ none)
      fun f => fair → f.isFromStone := by
    apply meets_calling steady
    apply meets_ask fails
    rintro found admitted isFair rfl
    exact resolves isFair className admitted
  apply Meets.bind (.ofExcept (within_compileLabel fun isFair =>
    ⟨(writes isFair).1, (writes isFair).2.1⟩))
  intro _ _
  apply Meets.bind (.log _)
  intro _ _
  refine meets_exclusively steady ?_ fun _ => rfl
  apply Meets.bind (.ofExcept (Value.within_asWritable fun isFair => (writes isFair).1))
  rintro _ rfl
  apply Meets.bind (meets_remoteStep resolved)
  intro cls present
  -- a metaclass is asked for only where one is wanted; all that follows is the same
  dsimp only
  split
  all_goals
    refine .bind (P := fun behavior => fair → behavior ≠ none) ?_ fun behavior present =>
      .bind (meets_remoteStep (meets_request steady fails)) fun sourceText _ =>
      .bind (meets_remoteStep (meets_newSymbol steady fails)) fun categoryName _ =>
      .bind (.ofExcept (Value.within_asWritable fun isFair => (writes isFair).2.2)) fun _ _ =>
      .bind (.log _) fun _ _ =>
      .bind (meets_handledCompile steady numbered present) fun result _ =>
      .bind (.log _) fun _ _ => .done trivial
  · apply Meets.map
    exact (meets_remoteStep (meets_metaclass steady fails present)).mono (fun _ _ _ => nofun)
      fun _ failed => failed
  · exact .done present

end

end Handle

end ImageBrowser
