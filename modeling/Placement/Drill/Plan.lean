import Placement.Fault

/-!
Planned faults.

A plan says which calls it meets, how many of them it lets pass first, how often it acts, and what it does.
Of several plans the first that is due acts; a plan before it that still lets calls pass counts the call, and
plans after it do not see it.
-/

namespace Placement.Drill

/-- What a plan answers in place of a call. -/
inductive Answer
  | count (n : Nat)
  | record (fields : List (String × String))
  | truth (b : Bool)
  | keys (keys : List String)
deriving DecidableEq, Repr

inductive Effect
  /-- The call fails without being made. -/
  | fail (fault : Fault)
  /-- The call is answered like this. -/
  | answer (a : Answer)

/-- A planned fault for calls of a kind. -/
structure Plan (κ : Type) where
  meets : κ → Bool
  /-- How many calls are let pass. -/
  passes : Nat := 0
  /-- How often the plan still acts, if that is limited. -/
  times : Option Nat := none
  effect : Effect

variable {κ : Type}

def due (call : κ) : List (Plan κ) → Option Effect × List (Plan κ)
  | [] => (none, [])
  | plan :: rest =>
    if !plan.meets call || plan.times == some 0 then
      let (effect, rest) := due call rest
      (effect, plan :: rest)
    else
      match plan.passes with
      | passes + 1 =>
        let (effect, rest) := due call rest
        (effect, { plan with passes } :: rest)
      | 0 => (some plan.effect, { plan with times := plan.times.map (· - 1) } :: rest)

end Placement.Drill
