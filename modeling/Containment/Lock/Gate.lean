/-
Module: Containment.Lock.Gate
Purpose: A lock that many may share or one may have alone, strictly first come, first served: who has to
  wait is never overtaken, not even by those who could share with the present holders.
Main exports: Mode, Claim, Gate, Gate.request, Gate.leave
-/

namespace Containment

/-- How a lock is held. -/
inductive Mode where
  | shared
  | exclusive
deriving Repr, DecidableEq, Inhabited

/-- A claim on a lock: who makes it and how. -/
structure Claim where
  holder : Nat
  mode : Mode
deriving Repr, DecidableEq, Inhabited

/-- The claims that are granted and those that wait, the longest waiting first. -/
structure Gate where
  granted : List Claim := []
  waiting : List Claim := []
deriving Repr, DecidableEq, Inhabited

namespace Gate

/-- Whether a claim can be granted beside others: a shared one beside shared ones, an exclusive one
beside none. -/
def compatible (granted : List Claim) (mode : Mode) : Bool :=
  match mode with
  | .shared => granted.all (·.mode == .shared)
  | .exclusive => granted.isEmpty

/-- Grant waiting claims from the front as long as they are compatible. The answer lists who got in. -/
def letIn : List Claim → List Claim → List Nat × Gate
  | granted, [] => ([], { granted, waiting := [] })
  | granted, claim :: rest =>
    if compatible granted claim.mode then
      let (holders, gate) := letIn (granted ++ [claim]) rest
      (claim.holder :: holders, gate)
    else ([], { granted, waiting := claim :: rest })

/-- Make a claim: it is granted at once if nobody waits and it is compatible, and waits otherwise. -/
def request (gate : Gate) (claim : Claim) : Bool × Gate :=
  if gate.waiting.isEmpty && compatible gate.granted claim.mode then
    (true, { gate with granted := gate.granted ++ [claim] })
  else (false, { gate with waiting := gate.waiting ++ [claim] })

/-- Give a claim up, granted or not. The answer lists who gets in because of it. -/
def leave (gate : Gate) (holder : Nat) : List Nat × Gate :=
  letIn (gate.granted.filter (·.holder ≠ holder)) (gate.waiting.filter (·.holder ≠ holder))

/-- Whether somebody's claim is granted. -/
def isHeldBy (gate : Gate) (holder : Nat) : Bool :=
  gate.granted.any (·.holder == holder)

/-- Whether nobody holds the lock or waits for it. -/
def isIdle (gate : Gate) : Bool :=
  gate.granted.isEmpty && gate.waiting.isEmpty

end Gate

end Containment
