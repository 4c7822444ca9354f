import LeaseQueue.Settings.Format
import LeaseQueue.Simulation.Run

/-!
# The command line

    leasequeue [-v] [-c FILE | --config FILE]

runs a broker as the settings in the file say, or with standard settings.  The store in memory is
the only one with a client here, and nothing is logged.  The program goes through the stages of a
simulated world and sleeps whenever its time jumps, so that they take place in real time.
-/

namespace LeaseQueue.CommandLine

open Simulation

structure Arguments where
  /-- Whether the settings are shown first. -/
  verbose : Bool
  config : Option String
deriving DecidableEq, Repr

namespace Arguments

def none : Arguments := ⟨false, .none⟩

/-- Reads arguments after those read before; the fault is told in words. -/
def read (a : Arguments) : List String → Except String Arguments
  | [] => .ok a
  | "-v" :: rest => read { a with verbose := true } rest
  | "-c" :: file :: rest | "--config" :: file :: rest => read { a with config := some file } rest
  | arg :: _ => .error ("unexpected argument '" ++ arg ++ "'")

end Arguments

/-- A broker in its own world, which it leaves when it has been superseded. -/
def brokerScript (options : Broker.Options) : List Step :=
  [.startBroker "broker" options, .awaitStopped "broker" 1000000000000000]

/-- What is told of an outcome. -/
def report : Outcome → String
  | .started address => "broker " ++ address ++ " started"
  | .brokerError e => (e.message?).getD "the queue document cannot be read"
  | _ => "broker lost leadership"

/-- Sleeps as long as time has jumped, and lets the clock keep pace with it. -/
def keepPace (before after : World) : IO World := do
  let passed := after.time - before.time
  unless passed = 0 do IO.sleep (UInt32.ofNat (min passed (UInt32.size - 1)))
  return { after with clock := after.clock + Int64.ofNat passed }

/-- Tells what has happened since. -/
def tell (before after : World) : IO Unit := do
  (after.records.drop before.records.length).forM fun (outcome, _) => do
    IO.println (report outcome)
    (← IO.getStdout).flush

partial def run (w : World) : IO Unit := do
  let (goesOn, after) := World.step.run w
  tell w after
  let after ← keepPace w after
  if goesOn then run after

/-- The octets of a file, if it can be read. -/
def contents? (file : String) : IO (Option Bytes) := do
  try return some (← IO.FS.readBinFile file).data.toList
  catch _ => return .none

def settings (a : Arguments) : IO (Except Settings.Error Settings) := do
  match a.config with
  | .none => return .ok .standard
  | some file => return Settings.load (← contents? file)

def fail (message : String) : IO UInt32 := do
  IO.eprintln ("error: " ++ message)
  return 1

def serve (s : Settings) : IO UInt32 := do
  match s.storage.place with
  | .error e => fail e.message
  | .ok (.bucket _ _ adapter) => fail ("there is no client for " ++ adapter.name)
  | .ok .memory =>
    let clock := Int64.ofNat (← IO.monoMsNow)
    run (World.start clock (.inMemory s.limits) (brokerScript s.brokerOptions))
    return 0

/-- Does what the arguments say; gives the exit code. -/
def start (args : List String) : IO UInt32 := do
  match Arguments.none.read args with
  | .error message => fail message
  | .ok a =>
    match ← settings a with
    | .error e => fail e.message
    | .ok s =>
      if a.verbose then IO.println (repr s).pretty
      serve s

end LeaseQueue.CommandLine

def main (args : List String) : IO UInt32 := LeaseQueue.CommandLine.start args
