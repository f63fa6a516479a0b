/-!
This module contains the arguments of command lines. Options have a long name and maybe a short one,
and take one value each, which is the next argument or is attached to the name.
-/

namespace Tariff.Command

structure Parameter where
  long : String
  short : Option Char := none
  repeatable : Bool := false
  accepts : String → Bool := fun _ => true

structure Usage where
  parameters : List Parameter
  hasVersion : Bool := false
  /-- Whether the first word that is no option begins another command line. -/
  hasTasks : Bool := false
  /-- The words that are no options and are allowed at their positions. -/
  words : List (String → Bool) := []

inductive Stop where
  | misuse
  | version
deriving Repr, DecidableEq

inductive Argument where
  /-- Two dashes alone: everything after them is a word. -/
  | separator
  | long (name : String) (value : Option String)
  | short (letter : Char) (value : Option String)
  /-- Anything else. A dash alone is a word. -/
  | word (text : String)
deriving Repr, DecidableEq

def Argument.read (text : String) : Argument :=
  match text.toList with
  | ['-', '-'] => separator
  | '-' :: '-' :: cs =>
    let name := cs.takeWhile (· != '=')
    match cs.drop name.length with
    | [] => long (.ofList name) none
    | _ :: value => long (.ofList name) (some (.ofList value))
  | ['-', letter] => short letter none
  | '-' :: letter :: '=' :: value => short letter (some (.ofList value))
  | '-' :: letter :: value => short letter (some (.ofList value))
  | _ => word text

/--
The values of options by their long names, and the words, in the order in which they were given.
-/
structure Given where
  values : List (String × String) := []
  words : List String := []

namespace Given

def value? (given : Given) (name : String) : Option String :=
  given.values.lookup name

def valuesOf (given : Given) (name : String) : List String :=
  (given.values.filter (·.1 == name)).map (·.2)

def addValue (given : Given) (parameter : Parameter) (value : String) : Except Stop Given :=
  if !parameter.accepts value then
    .error .misuse
  else if !parameter.repeatable && (given.value? parameter.long).isSome then
    .error .misuse
  else
    .ok { given with values := given.values ++ [(parameter.long, value)] }

def addWord (given : Given) (usage : Usage) (word : String) : Except Stop Given :=
  match usage.words[given.words.length]? with
  | some accepts =>
    if accepts word then .ok { given with words := given.words ++ [word] } else .error .misuse
  | none => .error .misuse

end Given

def isValue (text : String) : Bool :=
  match Argument.read text with
  | .word _ => true
  | _ => false

/--
Go through arguments. The arguments after the name of a task are left, with the name.
-/
def scan (usage : Usage) (given : Given) : List String → Except Stop (Given × List String)
  | [] => .ok (given, [])
  | argument :: rest =>
    match Argument.read argument with
    | .separator => do
      let given ← rest.foldlM (fun given word => given.addWord usage word) given
      return (given, [])
    | .word text =>
      if usage.hasTasks then
        .ok (given, argument :: rest)
      else do
        let given ← given.addWord usage text
        scan usage given rest
    | .long name value =>
      if usage.hasVersion && name == "version" && value.isNone then
        .error .version
      else
        match usage.parameters.find? (·.long == name) with
        | some parameter => option parameter value rest
        | none => .error .misuse
    | .short letter value =>
      if usage.hasVersion && letter == 'V' then
        .error .version
      else
        match usage.parameters.find? (·.short == some letter) with
        | some parameter => option parameter value rest
        | none => .error .misuse
termination_by arguments => 2 * arguments.length
where
  /-- Take the value of an option, which is attached or the next argument, and go on. -/
  option (parameter : Parameter) (value : Option String) (rest : List String) :
      Except Stop (Given × List String) :=
    match value, rest with
    | some value, rest => do
      let given ← given.addValue parameter value
      scan usage given rest
    | none, value :: rest =>
      if isValue value then do
        let given ← given.addValue parameter value
        scan usage given rest
      else
        .error .misuse
    | none, [] => .error .misuse
  termination_by 2 * rest.length + 1

def isPath (text : String) : Bool :=
  !text.isEmpty

end Tariff.Command
