/-!
Subscribed listeners, each of which lives only as long as somebody holds it: its owner, or a
notification under way. Dead listeners are dropped from the list when the next notification
begins.
-/

namespace ImageBrowser

structure Subscribers (ℓ : Type) where
  subscribed : List ℓ := []
  abandoned : List ℓ := []
  held : List ℓ := []
  deriving DecidableEq, Repr

namespace Subscribers

variable {ℓ : Type} [DecidableEq ℓ]

def subscribe (s : Subscribers ℓ) (l : ℓ) : Subscribers ℓ :=
  { s with subscribed := s.subscribed ++ [l] }

def abandon (s : Subscribers ℓ) (l : ℓ) : Subscribers ℓ :=
  { s with abandoned := l :: s.abandoned }

def isAlive (s : Subscribers ℓ) (l : ℓ) : Bool := !s.abandoned.contains l || s.held.contains l

def alive (s : Subscribers ℓ) : List ℓ := s.subscribed.filter s.isAlive

def forgetDead (s : Subscribers ℓ) : Subscribers ℓ := { s with subscribed := s.alive }

/-- The listeners to call. They are held until the notification has ended. -/
def begin (s : Subscribers ℓ) : List ℓ × Subscribers ℓ :=
  (s.alive, { s.forgetDead with held := s.held ++ s.alive })

def finish (s : Subscribers ℓ) (called : List ℓ) : Subscribers ℓ :=
  { s with held := called.foldl List.erase s.held }

end Subscribers

end ImageBrowser
