import Tariff.Command.Render

/-!
This module contains the program. With `render` as the first argument it writes a curve, and
otherwise it answers requests.
-/

namespace Tariff

/--
Read those of some files that exist.
-/
def readFiles (paths : List String) : IO Command.Directory := do
  let mut files : KeyMap String := ∅
  for path in paths do
    if let some name := Command.Directory.name? path then
      try
        files := files.insert name (← IO.FS.readFile path)
      catch _ =>
        continue
  return { files }

def report (outcome : Command.Outcome) : IO UInt32 := do
  for line in outcome.output do
    IO.println line
  if let some failure := outcome.failure then
    IO.eprintln failure
  return outcome.code.toUInt32

def renderMain (arguments : List String) : IO UInt32 := do
  match Command.Render.parse arguments with
  | .error _ => report .misuse
  | .ok render =>
    let directory ← readFiles [render.model]
    let start ← IO.monoMsNow
    match render.draw directory with
    | .error message => report (.failed message)
    | .ok rendering =>
      let elapsed := toString ((← IO.monoMsNow) - start) ++ "ms"
      try
        IO.FS.writeFile rendering.path rendering.text
        report (rendering.written elapsed)
      catch _ =>
        report (rendering.refused elapsed)

def rateMain (arguments : List String) : IO UInt32 := do
  match Command.Rate.parse arguments with
  | .error stop => report (Command.Rate.stopped stop)
  | .ok rate =>
    let directory ← readFiles rate.paths
    let input ← if rate.needsInput then (← IO.getStdin).readToEnd else pure ""
    report (rate.run directory input)

end Tariff

def main (arguments : List String) : IO UInt32 :=
  match arguments with
  | "render" :: arguments => Tariff.renderMain arguments
  | arguments => Tariff.rateMain arguments
