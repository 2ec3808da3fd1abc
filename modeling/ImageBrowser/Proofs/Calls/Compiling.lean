import ImageBrowser.Proofs.Calls.WholeCalls

/-!
How a method is compiled, call by call. The calls are those of a list, in its order, each with the
objects that were answered before, and the first one that fails is the last. What failed is said in
the words of that call, and only what a failed compile has left on the stone is cleared.

What is only logged can get in the way of this: the environment before the compile itself, and the
number of the error after a compile that has failed. Each is put into a text, and where it has too
many digits for one, that is what the caller is told, and nothing else is done.
-/

namespace ImageBrowser

open Program (Does)

namespace Handle

variable {h : Handle} {ds : List Doing}

theorem does_asWritable_bind {α : Type} {v : Value} {k : Value → Program α}
    {outcome : Except Fault α} (does : (Program.ofExcept v.asWritable >>= k).Does ds outcome) :
    (v.isWritable ∧ (k v).Does ds outcome) ∨
      (¬ v.isWritable ∧ ds = [] ∧ outcome = .error (.invalid .tooManyDigits)) := by
  unfold Value.asWritable at does
  split at does
  · next writable => exact .inl ⟨writable, does⟩
  · next tooLong =>
    obtain ⟨rfl, rfl⟩ := Program.does_fail.mp does
    exact .inr ⟨tooLong, rfl, rfl⟩

theorem does_newSymbol {content : Value} {outcome : Except Fault RemoteObject}
    (does : (h.newSymbol content).Does ds outcome) :
    (∃ f, callsIn ds = [⟨.ask h.connection (.create content), .error f⟩] ∧ outcome = .error f) ∨
      ∃ object, callsIn ds = [⟨.ask h.connection (.create content), .ok object⟩,
        ⟨.ask h.connection (.toSymbol object), outcome⟩] := by
  obtain ⟨inner, goes, same⟩ := does_calling does
  rw [same]
  obtain ⟨object, first, rest, rfl, asks, next⟩ | ⟨f, asks, rfl⟩ := Does.of_bind goes
  · rw [Program.does_ask asks, Program.does_ask next]
    exact .inr ⟨object, rfl⟩
  · rw [Program.does_ask asks]
    exact .inl ⟨f, rfl, rfl⟩

theorem does_metaclass {cls : RemoteObject} {fallback : String}
    {outcome : Except Fault (Option RemoteObject)}
    (does : (some <$> h.remoteStep fallback (h.perform (some cls) (.text "class") [])).Does
      ds outcome) :
    ∃ o, callsIn ds = [⟨.ask h.connection (.perform (.text "class") cls []), o⟩] ∧
      outcome = (o.mapError (Fault.inStep fallback)).map some := by
  obtain ⟨_, steps, rfl⟩ := Does.of_map does
  obtain ⟨inner, o, performs, same, rfl⟩ := does_remoteStep steps
  exact ⟨o, same.trans (does_request performs), rfl⟩

theorem does_compile {source behavior category : RemoteObject} {environment : Value}
    {outcome : Except Fault RemoteObject}
    (does : (h.compile (some source) (some behavior) (some category)
      { environment := environment }).Does ds outcome) :
    (∃ f, callsIn ds = [⟨.ask h.connection (.execute (.text Smalltalk.symbolList)), .error f⟩] ∧
        outcome = .error f) ∨
      ∃ l, callsIn ds = [⟨.ask h.connection (.execute (.text Smalltalk.symbolList)), .ok l⟩,
        ⟨.ask h.connection (.compile source behavior l category environment), outcome⟩] := by
  obtain ⟨inner, goes, same⟩ := does_calling does
  rw [same]
  obtain ⟨l, first, rest, rfl, asks, next⟩ | ⟨f, asks, rfl⟩ := Does.of_bind goes
  · rw [Program.does_ask asks, Program.does_ask next]
    exact .inr ⟨l, rfl⟩
  · rw [Program.does_ask asks]
    exact .inl ⟨f, rfl, rfl⟩

end Handle

/-! The calls of a compile -/

inductive CompileStep
  | cls
  | metaclass
  | source
  | category
  | compile
  deriving DecidableEq, Repr

namespace CompileStep

def fallback (className : String) (f : Fault) : CompileStep → String
  | cls => "Cannot resolve " ++ className
  | metaclass => "Cannot get metaclass for " ++ className
  | source => "Cannot create source string"
  | category => "Cannot create category symbol"
  | compile => "Compile error " ++ f.stoneNumber.shown

def left : CompileStep → Fault → Option RemoteObject
  | compile, .stone e => e.context
  | _, _ => none

end CompileStep

structure CompileCall where
  step : CompileStep
  request : Request
  answer : request.Answer

def CompileCall.made (c : Connection) (call : CompileCall) : Doing :=
  ⟨.ask c call.request, .ok call.answer⟩

structure MethodDraft where
  className : String
  isMeta : Value
  category : String
  source : Value
  environment : Value

/-- Stands for what a call would have answered that was not made. -/
def unanswered : RemoteObject := ⟨0, .null, ""⟩

structure CompiledObjects where
  text : RemoteObject
  name : RemoteObject
  symbol : RemoteObject
  symbolList : RemoteObject
  method : RemoteObject

def allUnanswered : CompiledObjects :=
  ⟨unanswered, unanswered, unanswered, unanswered, unanswered⟩

namespace MethodDraft

def behavior (m : MethodDraft) (cls metaclass : RemoteObject) : RemoteObject :=
  if m.isMeta.isTruthy then metaclass else cls

def lookup (m : MethodDraft) (cls metaclass : RemoteObject) : List CompileCall :=
  ⟨.cls, .resolve (.text m.className), some cls⟩ ::
    if m.isMeta.isTruthy then [⟨.metaclass, .perform (.text "class") cls [], metaclass⟩] else []

def preparing (m : MethodDraft) (o : CompiledObjects) : List CompileCall :=
  [⟨.source, .create m.source, o.text⟩, ⟨.category, .create (.text m.category), o.name⟩,
    ⟨.category, .toSymbol o.name, o.symbol⟩]

def compiling (m : MethodDraft) (behavior : RemoteObject) (o : CompiledObjects) :
    List CompileCall :=
  [⟨.compile, .execute (.text Smalltalk.symbolList), o.symbolList⟩,
    ⟨.compile, .compile o.text behavior o.symbolList o.symbol m.environment, o.method⟩]

/-- The calls for the method itself: none comes to the compile of an environment that cannot be
written. -/
def making (m : MethodDraft) (behavior : RemoteObject) (o : CompiledObjects) :
    List CompileCall :=
  m.preparing o ++ if m.environment.isWritable then m.compiling behavior o else []

def calls (m : MethodDraft) (cls metaclass : RemoteObject) (o : CompiledObjects) :
    List CompileCall :=
  m.lookup cls metaclass ++ m.making (m.behavior cls metaclass) o

def ending (m : MethodDraft) (o : CompiledObjects) : Except Fault RemoteObject :=
  if m.environment.isWritable then .ok o.method else .error (.invalid .tooManyDigits)

end MethodDraft

/-- What is done where the calls of a list are made in turn, and the outcome where none fails. The
first call that a stone fails ends it, but for what the failure has left to terminate, and that may
fail as well. After a failed compile whose number cannot be written, nothing is terminated. -/
inductive Attempted {α : Type} (c : Connection) (m : MethodDraft) (calls : List CompileCall)
    (ending : Except Fault α) : List Doing → Except Fault α → Prop
  | made : Attempted c m calls ending (calls.map (·.made c)) ending
  | failed {first last : List CompileCall} {call : CompileCall} {f : Fault} {cleanup : List Doing}
      (parts : calls = first ++ call :: last) (fromStone : f.isFromStone)
      (numbered : call.step = .compile → f.stoneNumber.isWritable)
      (cleans : cleanup.map (·.1) =
        (call.step.left f).toList.map fun context => .ask c (.terminate context)) :
      Attempted c m calls ending
        (first.map (·.made c) ++ ⟨.ask c call.request, .error f⟩ :: cleanup)
        (.error (.refused (.queryFailed
          (if f.message = "" then call.step.fallback m.className f else f.message)
          f.stoneNumber)))
  | unnumbered {first last : List CompileCall} {call : CompileCall} {f : Fault}
      (parts : calls = first ++ call :: last) (fromStone : f.isFromStone)
      (compiles : call.step = .compile) (tooLong : ¬ f.stoneNumber.isWritable) :
      Attempted c m calls ending (first.map (·.made c) ++ [⟨.ask c call.request, .error f⟩])
        (.error (.invalid .tooManyDigits))

namespace Attempted

variable {α β : Type} {c : Connection} {m : MethodDraft} {calls : List CompileCall}
  {ending : Except Fault α} {ds : List Doing} {outcome : Except Fault α}

theorem after (attempted : Attempted c m calls ending ds outcome) (first : List CompileCall) :
    Attempted c m (first ++ calls) ending (first.map (·.made c) ++ ds) outcome := by
  cases attempted with
  | made =>
    rw [← List.map_append]
    exact .made
  | failed parts fromStone numbered cleans =>
    rw [← List.append_assoc, ← List.map_append]
    exact .failed (by rw [parts, List.append_assoc]) fromStone numbered cleans
  | unnumbered parts fromStone compiles tooLong =>
    rw [← List.append_assoc, ← List.map_append]
    exact .unnumbered (by rw [parts, List.append_assoc]) fromStone compiles tooLong

theorem stopped {o : Outlook} {f : Fault} (fails : o.FailsFromStone) (first : List CompileCall)
    (call : CompileCall) (last : List CompileCall)
    (admitted : ∀ d ∈ first.map (·.made c) ++ [⟨.ask c call.request, .error f⟩], o.admits d.1 d.2)
    (before : call.step ≠ .compile) :
    Attempted c m (first ++ call :: last) ending
      (first.map (·.made c) ++ [⟨.ask c call.request, .error f⟩])
      (.error (f.inStep (call.step.fallback m.className f))) := by
  have fromStone := fails.isFromStone admitted
    (List.mem_append_right _ (List.mem_singleton_self _))
  have plain : call.step.left f = none := by
    unfold CompileStep.left
    split
    · next compiles => exact absurd compiles before
    · rfl
  rw [Fault.inStep, if_pos fromStone]
  exact .failed rfl fromStone (absurd · before) (by rw [plain]; rfl)

end Attempted

namespace Handle

variable {h : Handle} {m : MethodDraft} {o : Outlook} {ds : List Doing}
  {outcome : Except Fault RemoteObject}

def compileIn (h : Handle) (m : MethodDraft) (behavior : RemoteObject) : Program RemoteObject := do
  let sourceText ← h.remoteStep "Cannot create source string" (h.newString m.source)
  let categoryName ← h.remoteStep "Cannot create category symbol" (h.newSymbol (.text m.category))
  let environment ← Program.ofExcept m.environment.asWritable
  Program.log (.called h.sessionId "compile_method"
    [("source", sourceText.printed), ("behavior", printedObject (some behavior)),
      ("category", categoryName.printed), ("symbol_list", Value.null.quoted),
      ("override_selector", Value.null.quoted), ("compile_flags", Text.ofInt 0),
      ("environment_id", environment.quoted)])
  let compiled ← (h.compile (some sourceText) (some behavior) (some categoryName)
    { environment := environment }).handling Fault.isFromStone h.failedCompile
  Program.log (.result h.sessionId ("Compiled -> " ++ compiled.printed))
  return compiled

theorem does_clearAfter {context : Option RemoteObject} {outcome : Except Fault Unit}
    (fails : o.FailsFromStone) (admitted : ∀ d ∈ callsIn ds, o.admits d.1 d.2)
    (does : (h.clearAfter context).Does ds outcome) :
    (callsIn ds).map (·.1) =
        (context.toList.map fun context => .ask h.connection (.terminate context)) ∧
      outcome = .ok () := by
  cases context with
  | none =>
    obtain ⟨rfl, rfl⟩ := Program.does_done.mp does
    exact ⟨rfl, rfl⟩
  | some context =>
    obtain ⟨a, clears, rfl⟩ | ⟨f, first, rest, rfl, clears, handled⟩ := Does.of_handling does
    · have called := does_request (r := .terminate context) clears
      rw [called]
      exact ⟨rfl, rfl⟩
    · have called := does_request (r := .terminate context) clears
      rw [callsIn_append, called] at admitted ⊢
      obtain ⟨_, logs⟩ | ⟨other, _⟩ := handled
      · obtain ⟨_, rest, rfl, finished⟩ := Program.does_act.mp logs
        obtain ⟨rfl, rfl⟩ := Program.does_done.mp finished
        exact ⟨rfl, rfl⟩
      · have fromStone := fails.isFromStone admitted
          (List.mem_append_left _ (List.mem_singleton_self _))
        rw [other] at fromStone
        contradiction

theorem does_failedCompile {f : Fault} (fails : o.FailsFromStone)
    (admitted : ∀ d ∈ callsIn ds, o.admits d.1 d.2) (fromStone : f.isFromStone)
    (does : (h.failedCompile f).Does ds outcome) :
    (f.stoneNumber.isWritable ∧ (callsIn ds).map (·.1) =
        ((CompileStep.compile.left f).toList.map fun context =>
          .ask h.connection (.terminate context)) ∧
        outcome = .error (f.inStep (CompileStep.compile.fallback m.className f))) ∨
      (¬ f.stoneNumber.isWritable ∧ callsIn ds = [] ∧
        outcome = .error (.invalid .tooManyDigits)) := by
  cases f with
  | stone e =>
    obtain ⟨numbered, does⟩ | ⟨tooLong, rfl, rfl⟩ := does_asWritable_bind does
    · obtain ⟨rest, goes, same⟩ := Program.does_log_bind does
      rw [same] at admitted ⊢
      obtain ⟨_, first, last, rfl, clears, ends⟩ | ⟨f, clears, rfl⟩ := Does.of_bind goes
      · rw [callsIn_append] at admitted ⊢
        obtain ⟨cleared, _⟩ := does_clearAfter fails
          (fun d mem => admitted d (List.mem_append_left _ mem)) clears
        obtain ⟨none, rfl⟩ := does_failedCall fromStone ends
        rw [none, List.append_nil]
        exact .inl ⟨numbered, cleared, rfl⟩
      · obtain ⟨_, ⟨⟩⟩ := does_clearAfter fails admitted clears
    · exact .inr ⟨tooLong, rfl, rfl⟩
  | misuse m =>
    have numbered : "Compile error 0" = "Compile error " ++ (Value.whole 0).shown := by
      decide +kernel
    obtain ⟨none, rfl⟩ := does_failedCall fromStone does
    rw [none, numbered]
    exact .inl ⟨Value.isWritable_zero, rfl, rfl⟩
  | _ => contradiction

theorem attempted_compile {source behavior category : RemoteObject} (fails : o.FailsFromStone)
    (admitted : ∀ d ∈ callsIn ds, o.admits d.1 d.2)
    (does : ((h.compile (some source) (some behavior) (some category)
      { environment := m.environment }).handling Fault.isFromStone h.failedCompile).Does
        ds outcome) :
    ∃ symbolList method, Attempted h.connection m
      [⟨.compile, .execute (.text Smalltalk.symbolList), symbolList⟩,
        ⟨.compile, .compile source behavior symbolList category m.environment, method⟩]
      (.ok method) (callsIn ds) outcome := by
  obtain ⟨method, compiles, rfl⟩ | ⟨f, first, rest, rfl, compiles, handled⟩ :=
    Does.of_handling does
  · obtain ⟨f, _, ⟨⟩⟩ | ⟨symbolList, called⟩ := does_compile compiles
    rw [called]
    exact ⟨symbolList, method, .made⟩
  · rw [callsIn_append] at admitted ⊢
    -- Either call may have failed, and what is done about it is the same for both.
    obtain ⟨symbolList, method, made, call, last, parts, compiling, called⟩ :
        ∃ symbolList method made call last,
          [⟨.compile, .execute (.text Smalltalk.symbolList), symbolList⟩,
            ⟨.compile, .compile source behavior symbolList category m.environment, method⟩] =
              made ++ call :: last ∧ call.step = .compile ∧
          callsIn first = made.map (CompileCall.made h.connection) ++
            [⟨.ask h.connection call.request, .error f⟩] := by
      obtain ⟨_, called, ⟨⟩⟩ | ⟨l, called⟩ := does_compile compiles
      · exact ⟨unanswered, unanswered, [],
          ⟨.compile, .execute (.text Smalltalk.symbolList), unanswered⟩, _, rfl, rfl, called⟩
      · exact ⟨l, unanswered, [⟨.compile, .execute (.text Smalltalk.symbolList), l⟩],
          ⟨.compile, .compile source behavior l category m.environment, unanswered⟩, _, rfl, rfl,
          called⟩
    rw [called] at admitted ⊢
    have fromStone : f.isFromStone := fails.isFromStone admitted
      (List.mem_append_left _ (List.mem_append_right _ (List.mem_singleton_self _)))
    refine ⟨symbolList, method, ?_⟩
    rw [List.append_assoc, List.singleton_append]
    obtain ⟨_, clears⟩ | ⟨other, _⟩ := handled
    · obtain ⟨numbered, cleared, rfl⟩ | ⟨tooLong, none, rfl⟩ := does_failedCompile (m := m) fails
        (fun d mem => admitted d (List.mem_append_right _ mem)) fromStone clears
      · have ends : Attempted h.connection m _ (.ok method) _ _ :=
          .failed parts fromStone (fun _ => numbered) (compiling ▸ cleared)
        rw [compiling] at ends
        rw [Fault.inStep, if_pos fromStone]
        exact ends
      · rw [none]
        exact .unnumbered parts fromStone compiling tooLong
    · rw [other] at fromStone
      contradiction

theorem attempted_making {behavior : RemoteObject} (fails : o.FailsFromStone)
    (admitted : ∀ d ∈ callsIn ds, o.admits d.1 d.2)
    (does : (h.compileIn m behavior).Does ds outcome) :
    ∃ objects, Attempted h.connection m (m.making behavior objects) (m.ending objects)
      (callsIn ds) outcome := by
  obtain ⟨text, made, rest, creates, goes, same⟩ | ⟨f, made, creates, same, rfl⟩ :=
    does_remoteStep_bind does
  · rw [same, does_request creates] at admitted ⊢
    obtain ⟨symbol, named, rest, creates, goes, same⟩ | ⟨f, named, creates, same, rfl⟩ :=
      does_remoteStep_bind goes
    · rw [same] at admitted ⊢
      obtain ⟨f, _, ⟨⟩⟩ | ⟨name, called⟩ := does_newSymbol creates
      rw [called] at admitted ⊢
      obtain ⟨writable, goes⟩ | ⟨tooLong, rfl, rfl⟩ := does_asWritable_bind goes
      · obtain ⟨compiling, goes, calls⟩ := Program.does_log_bind goes
        rw [calls] at admitted ⊢
        obtain ⟨compiled, compiles, same⟩ := Program.does_logged goes
        rw [same] at admitted ⊢
        obtain ⟨symbolList, method, attempted⟩ := attempted_compile (m := m) fails
          (fun d mem => admitted d (List.mem_append_right _ (List.mem_append_right _ mem))) compiles
        let objects : CompiledObjects := ⟨text, name, symbol, symbolList, method⟩
        refine ⟨objects, ?_⟩
        rw [MethodDraft.making, MethodDraft.ending, if_pos writable, if_pos writable]
        exact attempted.after (m.preparing objects)
      · refine ⟨⟨text, name, symbol, unanswered, unanswered⟩, ?_⟩
        rw [MethodDraft.making, MethodDraft.ending, if_neg tooLong, if_neg tooLong]
        exact .made
    · rw [same] at admitted ⊢
      obtain ⟨f, called, ⟨⟩⟩ | ⟨name, called⟩ := does_newSymbol creates
      · rw [called] at admitted ⊢
        exact ⟨⟨text, unanswered, unanswered, unanswered, unanswered⟩,
          .stopped fails [⟨.source, .create m.source, text⟩]
            ⟨.category, .create (.text m.category), unanswered⟩ _ admitted nofun⟩
      · rw [called] at admitted ⊢
        exact ⟨⟨text, name, unanswered, unanswered, unanswered⟩, .stopped fails
          [⟨.source, .create m.source, text⟩, ⟨.category, .create (.text m.category), name⟩]
          ⟨.category, .toSymbol name, unanswered⟩ _ admitted nofun⟩
  · rw [same, does_request creates] at admitted ⊢
    exact ⟨allUnanswered, .stopped fails [] ⟨.source, .create m.source, unanswered⟩ _ admitted nofun⟩

theorem attempted_metaclass {cls : RemoteObject} {next : Option RemoteObject → Program RemoteObject}
    (fails : o.FailsFromStone) (admitted : ∀ d ∈ callsIn ds, o.admits d.1 d.2)
    (makes : ∀ metaclass, next (some metaclass) = h.compileIn m metaclass)
    (does : ((some <$> h.remoteStep ("Cannot get metaclass for " ++ m.className)
      (h.perform (some cls) (.text "class") [])) >>= next).Does ds outcome) :
    ∃ metaclass objects, Attempted h.connection m
      (⟨.metaclass, .perform (.text "class") cls [], metaclass⟩ :: m.making metaclass objects)
      (m.ending objects) (callsIn ds) outcome := by
  obtain ⟨found, looking, rest, rfl, looks, goes⟩ | ⟨f, looks, rfl⟩ := Does.of_bind does
  · obtain ⟨f | metaclass, called, ended⟩ := does_metaclass looks
    · contradiction
    · cases ended
      rw [callsIn_append, called] at admitted ⊢
      rw [makes] at goes
      obtain ⟨objects, attempted⟩ := attempted_making fails
        (fun d mem => admitted d (List.mem_append_right _ mem)) goes
      exact ⟨metaclass, objects, attempted.after [_]⟩
  · obtain ⟨f | metaclass, called, ended⟩ := does_metaclass looks
    · cases ended
      rw [called] at admitted ⊢
      exact ⟨unanswered, allUnanswered, .stopped fails []
        ⟨.metaclass, .perform (.text "class") cls [], unanswered⟩ _ admitted nofun⟩
    · contradiction

theorem attempted_calls (fails : o.FailsFromStone) (resolves : o.Resolves)
    (admitted : ∀ d ∈ callsIn ds, o.admits d.1 d.2)
    (does : (h.compileSteps (.text m.className) m.isMeta (.text m.category) m.source
      m.environment).Does ds outcome) :
    ∃ cls metaclass objects, Attempted h.connection m (m.calls cls metaclass objects)
      (m.ending objects) (callsIn ds) outcome := by
  obtain ⟨_, does⟩ | ⟨tooLong, _⟩ := does_asWritable_bind does
  swap
  · exact absurd rfl tooLong
  obtain ⟨found, resolving, rest, finds, goes, same⟩ | ⟨f, resolving, finds, same, rfl⟩ :=
    does_remoteStep_bind does
  · rw [same, does_request finds] at admitted ⊢
    cases found with
    | none => exact absurd (admitted _ List.mem_cons_self) (resolves (.text m.className))
    | some cls =>
      dsimp only at goes
      split at goes
      · next wanted =>
        obtain ⟨metaclass, objects, attempted⟩ := attempted_metaclass fails
          (fun d mem => admitted d (List.mem_append_right _ mem)) (fun _ => rfl) goes
        have lookup : m.lookup cls metaclass = [⟨.cls, .resolve (.text m.className), some cls⟩,
            ⟨.metaclass, .perform (.text "class") cls [], metaclass⟩] := by
          rw [MethodDraft.lookup, if_pos wanted]
        have behavior : m.behavior cls metaclass = metaclass := if_pos wanted
        refine ⟨cls, metaclass, objects, ?_⟩
        rw [MethodDraft.calls, lookup, behavior]
        exact attempted.after [_]
      · next plain =>
        obtain ⟨objects, attempted⟩ := attempted_making fails
          (fun d mem => admitted d (List.mem_append_right _ mem)) goes
        have lookup : m.lookup cls unanswered = [⟨.cls, .resolve (.text m.className), some cls⟩] := by
          rw [MethodDraft.lookup, if_neg plain]
        have behavior : m.behavior cls unanswered = cls := if_neg plain
        refine ⟨cls, unanswered, objects, ?_⟩
        rw [MethodDraft.calls, lookup, behavior]
        exact attempted.after _
  · rw [same, does_request finds] at admitted ⊢
    exact ⟨unanswered, unanswered, allUnanswered,
      .stopped fails [] ⟨.cls, .resolve (.text m.className), some unanswered⟩ _ admitted nofun⟩

/-- In a session that is idle, whatever a stone answers to the calls of a compile and however it
fails them, the calls are made in turn up to the first that fails, and what became of that one is
what becomes of the compile. The session is idle again at the end. -/
theorem concludes_compileMethod {w : World} (fails : o.FailsFromStone) (resolves : o.Resolves)
    (idle : w.depth h.number = 0) (m : MethodDraft) :
    (h.compileMethod (.text m.className) m.isMeta (.text m.category) m.source
      m.environment).Concludes o w
      fun ds outcome v => v.depth h.number = 0 ∧
        ∃ cls metaclass objects, Attempted h.connection m (m.calls cls metaclass objects)
          (m.ending objects) (callsIn ds) outcome := by
  constructor
  · have meets : Program.Meets o (fun _ => True)
        (h.compileMethod (.text m.className) m.isMeta (.text m.category) m.source m.environment)
        (fun _ => True) fun f => False → f.isRefusal :=
      meets_compileMethod (fun _ _ _ _ => trivial) nofun nofun nofun
    exact (meets w trivial).mono fun _ _ _ => trivial
  · intro ds outcome v does leads admitted
    have logical : h.Logical (fun _ _ => True) (h.compileMethod (.text m.className) m.isMeta
        (.text m.category) m.source m.environment) :=
      logical_compileMethod fun _ _ _ => trivial
    constructor
    · rw [depth_of_logical logical does leads, idle]
    · have free : ¬ 0 < w.depth h.number := by omega
      obtain ⟨_, rest, rfl, goes⟩ := Program.does_act.mp does
      obtain ⟨inner, compiles, same⟩ := does_exclusively free goes leads.of_log
      show ∃ cls metaclass objects, Attempted _ _ _ _ (callsIn rest) outcome
      rw [same]
      apply attempted_calls fails resolves _ compiles
      rw [← same]
      exact fun d mem => admitted d (List.mem_cons_of_mem _ (List.mem_of_mem_filter mem))

def Knows : (r : Request) → Except Fault r.Answer → Prop
  | .resolve _, .ok none => False
  | _, .ok _ => True
  | _, .error f => f.isFromStone

theorem exists_knows (r : Request) : ∃ answer, Knows r answer :=
  ⟨.error (.misuse .noResultClass), by cases r <;> exact rfl⟩

def knowing : Outlook where
  ask := Knows
  login _ := True
  exists_ask := exists_knows
  exists_login := Outlook.unlimited.exists_login

/-- A stone that fails to compile without a word, leaves a context, and fails to terminate it. -/
def breaking : Outside
  | .ask _ (.resolve _) => some (.ok (some ⟨1, .null, "Order"⟩))
  | .ask _ (.create _) => some (.ok ⟨2, .null, "a text"⟩)
  | .ask _ (.toSymbol _) => some (.ok ⟨3, .null, "a symbol"⟩)
  | .ask _ (.execute _) => some (.ok ⟨4, .null, "a symbol list"⟩)
  | .ask _ (.compile ..) =>
    some (.error (.stone ⟨"", .whole 1001, some ⟨5, .null, "a process"⟩, .flag false, none⟩))
  | .ask _ (.terminate _) => some (.error (.misuse (.reported "not suspended")))
  | _ => none

theorem admits_breaking (a : Action) (r : a.Reply) (answered : breaking a = some r) :
    knowing.admits a r := by
  cases a with
  | ask c q =>
    cases q
    all_goals first
      | contradiction
      | cases answered
        first
          | exact trivial
          | exact rfl
  | _ => trivial

theorem failsFromStone_knowing : knowing.FailsFromStone :=
  fun r _ admitted => by cases r <;> exact admitted

theorem resolves_knowing : knowing.Resolves := fun _ => id

def totalIn (environment : Int) : MethodDraft :=
  ⟨"Order", .flag false, "accessing", .text "total ^0", .whole environment⟩

theorem concludes_compileMethod_breaking :
    let h : Handle := ⟨0, .text "session-1", ⟨.null⟩⟩
    let m := totalIn 0
    let failure : Except Fault RemoteObject :=
      .error (.refused (.queryFailed "Compile error 1001" (.whole 1001)))
    knowing.FailsFromStone ∧ knowing.Resolves ∧ ({} : World).depth h.number = 0 ∧
      ∃ ds v, (h.compileMethod (.text m.className) m.isMeta (.text m.category) m.source
          m.environment).Does ds failure ∧ Leads {} ds v ∧ v.depth h.number = 0 ∧
        ∃ cls metaclass objects, Attempted h.connection m (m.calls cls metaclass objects)
          (m.ending objects) (callsIn ds) failure := by
  intro h m failure
  have ended : ((h.compileMethod (.text m.className) m.isMeta (.text m.category) m.source
      m.environment).alone breaking {}).map (·.1) = some failure := by decide +kernel
  obtain ⟨v, runs⟩ := Program.exists_runs_of_alone breaking admits_breaking ended
  obtain ⟨ds, does, leads, admitted⟩ := runs.exists_does
  obtain ⟨idle, attempted⟩ :=
    (concludes_compileMethod failsFromStone_knowing resolves_knowing rfl m).2 does leads admitted
  exact ⟨failsFromStone_knowing, resolves_knowing, rfl, ds, v, does, leads, idle, attempted⟩

/-- In an environment that cannot be written the compile ends with neither a method nor a failure
of the stone. -/
theorem compileMethod_unwritable :
    let h : Handle := ⟨0, .text "session-1", ⟨.null⟩⟩
    let m := totalIn (Int.pow 10 4300)
    let compiles := h.compileMethod (.text m.className) m.isMeta (.text m.category) m.source
      m.environment
    knowing.FailsFromStone ∧ knowing.Resolves ∧ ({} : World).depth h.number = 0 ∧
      (∃ v, compiles.Runs knowing {} (.error (.invalid .tooManyDigits)) v) ∧
      ¬ compiles.Ends knowing {} fun outcome _ => (∃ method, outcome = .ok method) ∨
        ∃ message number, outcome = .error (.refused (.queryFailed message number)) := by
  intro h m compiles
  have ended : (compiles.alone breaking {}).map (·.1) =
      some (.error (.invalid .tooManyDigits)) := by decide +kernel
  obtain ⟨v, runs⟩ := Program.exists_runs_of_alone (o := knowing) breaking admits_breaking ended
  refine ⟨failsFromStone_knowing, resolves_knowing, rfl, ⟨v, runs⟩, ?_⟩
  intro ends
  obtain ⟨method, ⟨⟩⟩ | ⟨message, number, ⟨⟩⟩ := ends.of_runs runs

end Handle

end ImageBrowser
