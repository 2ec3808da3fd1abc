import ImageBrowser.World

/-!
Operations as programs: what one caller does, action by action, up to its result or its failure.
A step on the shared state is answered by the state; everything else is answered from outside, by
a stone, by a listener, or by the end of another caller's fetch.
-/

namespace ImageBrowser

inductive Message
  | selectionChanged (id : Option Value)
  | treeChanged
  deriving DecidableEq, Repr

inductive Action
  | step (s : Step)
  | ask (connection : Connection) (r : Request)
  | login (l : Login)
  | wait (ticket : Nat)
  | tell (listener : Nat) (m : Message)
  | report (message : String)
  | log (e : LogEntry)

@[reducible] def Action.Reply : Action → Type
  | step s => s.Reply
  | ask _ r => Except Fault r.Answer
  | login _ => Except Fault Connection
  | wait _ => Except Fault CacheEntry
  | tell _ _ | report _ => Except Fault Unit
  | log _ => Unit

inductive Program (α : Type) : Type
  | done (a : α)
  | fail (f : Fault)
  | act (a : Action) (next : a.Reply → Program α)

namespace Program

variable {α β : Type}

def bind : Program α → (α → Program β) → Program β
  | done a, next => next a
  | fail f, _ => fail f
  | act a k, next => act a fun r => bind (k r) next

instance : Monad Program where
  pure := done
  bind := bind

def attempt : Program α → Program (Except Fault α)
  | done a => done (.ok a)
  | fail f => done (.error f)
  | act a k => act a fun r => attempt (k r)

def ofExcept : Except Fault α → Program α
  | .ok a => done a
  | .error f => fail f

def ensure (p : Program α) (cleanup : Program Unit) : Program α := do
  let outcome ← p.attempt
  cleanup
  ofExcept outcome

def handling (p : Program α) (handles : Fault → Bool) (handler : Fault → Program α) :
    Program α := do
  match ← p.attempt with
  | .ok a => done a
  | .error f => if handles f then handler f else fail f

def step (s : Step) : Program s.Reply := act (.step s) done

def ask (connection : Connection) (r : Request) : Program r.Answer :=
  act (.ask connection r) ofExcept

def login (l : Login) : Program Connection := act (.login l) ofExcept

def wait (ticket : Nat) : Program CacheEntry := act (.wait ticket) ofExcept

def tell (listener : Nat) (m : Message) : Program Unit := act (.tell listener m) ofExcept

def report (message : String) : Program Unit := act (.report message) ofExcept

def log (e : LogEntry) : Program Unit := act (.log e) done

def interpret {m : Type → Type} [Monad m] (answer : (a : Action) → m a.Reply) :
    Program α → m (Except Fault α)
  | done a => pure (.ok a)
  | fail f => pure (.error f)
  | act a k => do
    let r ← answer a
    interpret answer (k r)

end Program

end ImageBrowser
