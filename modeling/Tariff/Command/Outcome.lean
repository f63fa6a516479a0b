/-!
This module contains the outcomes of commands.
-/

namespace Tariff.Command

structure Outcome where
  /-- The exit code: zero for success, one for a failure and two for misuse. -/
  code : Nat
  output : List String := []
  failure : Option String := none
deriving Repr, DecidableEq

namespace Outcome

def success (output : List String) : Outcome where
  code := 0
  output := output

/--
A command that failed. Of a message with several lines the first one is told.
-/
def failed (message : String) (output : List String := []) : Outcome where
  code := 1
  output := output
  failure := some ("Error: " ++ .ofList (message.toList.takeWhile (· != '\n')))

def misuse : Outcome where
  code := 2

end Outcome

end Tariff.Command
