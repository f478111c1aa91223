import TraitCatalog.Registry

/-!
# Pages

The page of an interface keeps contributions back until it is activated. The first activation makes
a registry and replays them into it in their order; from then on contributions go straight in.
-/

namespace TraitCatalog

inductive Page where
  /-- Not activated: the contributions so far, in the order of their arrival. -/
  | buffering (pending : List Contribution)
  /-- Activated: contributions are registered as they arrive. -/
  | direct (registry : Registry)
deriving DecidableEq

namespace Page

inductive Outcome where
  /-- The page was activated and so many contributions were replayed. -/
  | activated (replayed : Nat)
  | alreadyActive
deriving DecidableEq

def Outcome.isActivated : Outcome → Bool
  | .activated _ => true
  | .alreadyActive => false

def fresh : Page := .buffering []

def submit (contribution : Contribution) : Page → Page
  | .buffering pending => .buffering (pending ++ [contribution])
  | .direct registry => .direct (registry.register contribution)

/-- Activates the page. `factory` makes the registry that the pending contributions are replayed
into; it is run by the first activation only. -/
def activateWith {m : Type → Type} [Monad m] (factory : m Registry) (page : Page) :
    m (Outcome × Page) :=
  match page with
  | .buffering pending => do
    let registry ← factory
    return (.activated pending.length, .direct (registry.registerAll pending))
  | .direct registry => return (.alreadyActive, .direct registry)

def activate (page : Page) : Outcome × Page :=
  Id.run (page.activateWith (pure .empty))

def isDirect : Page → Bool
  | .buffering _ => false
  | .direct _ => true

def pendingCount : Page → Nat
  | .buffering pending => pending.length
  | .direct _ => 0

/-- What queries see: nothing before the activation. -/
def visible : Page → Registry
  | .buffering _ => .empty
  | .direct registry => registry

end Page
end TraitCatalog
