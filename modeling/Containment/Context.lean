/-
Module: Containment.Context
Purpose: The contexts in which calls run. A context can be cancelled, alone or together with all contexts
  derived from it, and may have a deadline. Time is counted in milliseconds from an arbitrary start.
Main exports: Token, Timeline, Context, Cancellation, Context.check
-/

namespace Containment

/-- What cancels a context: a node in a tree of tokens, named by the way to it from the top. -/
abbrev Token := List Nat

/-- Why a call gives up. -/
inductive Cancellation where
  | cancelled
  | deadlineExceeded
deriving Repr, DecidableEq

/-- The wording of a reason. -/
def Cancellation.message : Cancellation → String
  | .cancelled => "context canceled"
  | .deadlineExceeded => "deadline exceeded"

/-- The present time, the tokens that have been cancelled, and the number of tokens made so far. -/
structure Timeline where
  now : Nat := 0
  cancelled : List Token := []
  made : Nat := 0
deriving Repr, Inhabited

namespace Timeline

/-- A token is cancelled together with any token above it. -/
def isCancelled (tl : Timeline) (token : Token) : Bool :=
  tl.cancelled.any (·.isPrefixOf token)

/-- Cancel a token. -/
def cancel (tl : Timeline) (token : Token) : Timeline :=
  { tl with cancelled := token :: tl.cancelled }

/-- Let time pass. -/
def advance (tl : Timeline) (ms : Nat) : Timeline :=
  { tl with now := tl.now + ms }

/-- Let time pass up to a point, unless it lies in the past. -/
def advanceTo (tl : Timeline) (time : Nat) : Timeline :=
  { tl with now := max tl.now time }

end Timeline

/-- A context: its token and its deadline. -/
structure Context where
  token : Token
  deadline : Option Nat := none
deriving Repr, DecidableEq, Inhabited

namespace Context

/-- A context with a token of its own and no deadline. -/
def background (tl : Timeline) : Context × Timeline :=
  ({ token := [tl.made] }, { tl with made := tl.made + 1 })

/-- A context with a token of its own that ends after some time. -/
def withTimeout (ms : Nat) (tl : Timeline) : Context × Timeline :=
  ({ token := [tl.made], deadline := some (tl.now + ms) }, { tl with made := tl.made + 1 })

/-- A context that is cancelled together with `ctx` and can also be cancelled alone. -/
def child (ctx : Context) (tl : Timeline) : Context × Timeline :=
  ({ ctx with token := ctx.token ++ [tl.made] }, { tl with made := tl.made + 1 })

/-- A context with the token of `ctx` but without its deadline. -/
def ofToken (ctx : Context) : Context :=
  { token := ctx.token }

/-- Whether the deadline has come. -/
def isExpired (ctx : Context) (tl : Timeline) : Bool :=
  ctx.deadline.any (· ≤ tl.now)

/-- Why a call in this context has to give up now, if it has to; being cancelled goes first. -/
def check (ctx : Context) (tl : Timeline) : Option Cancellation :=
  if tl.isCancelled ctx.token then some .cancelled
  else if ctx.isExpired tl then some .deadlineExceeded
  else none

/-- Whether the context is done. -/
def isDone (ctx : Context) (tl : Timeline) : Bool :=
  (ctx.check tl).isSome

/-- Wait for some time, but no longer than the context allows. -/
def sleep (ctx : Context) (ms : Nat) (tl : Timeline) : Option Cancellation × Timeline :=
  match ctx.check tl with
  | some reason => (some reason, tl)
  | none =>
    match ctx.deadline with
    | some deadline =>
      if deadline ≤ tl.now + ms then (some .deadlineExceeded, tl.advanceTo deadline)
      else (none, tl.advance ms)
    | none => (none, tl.advance ms)

theorem check_of_isCancelled {ctx : Context} {tl : Timeline} (h : tl.isCancelled ctx.token = true) :
    ctx.check tl = some .cancelled := by
  simp [check, h]

end Context

end Containment
