import Apfs.Arguments.Request
import Apfs.Report
import Apfs.Source.Node

/-!
# The command

The command reads one node of an image and reports it. What it has written when it fails stays
written: the name of the image as soon as the node has a location, and the digest of the block as
soon as the block is there, even if it holds no node.

The error output has the messages of the command and the lines of its log. How digests are made and
how the log is kept are left to services. The log is told of each step before anything else is
written about it, but what it makes of that, and in which form, is not modelled any further.
-/

namespace Apfs

/-- A line of the error output. -/
inductive ErrorLine
  | log (text : String)
  | message (text : String)
deriving DecidableEq, Repr

def ErrorLine.text : ErrorLine → String
  | log text | message text => text

/-- What a run of the command leaves behind. -/
structure Outcome where
  exitCode : UInt8
  output : String
  errors : List ErrorLine
deriving DecidableEq, Repr

/-- All that is written to the error output. -/
def Outcome.errorText (o : Outcome) : String := Report.unlines (o.errors.map (·.text))

namespace Command

/-- A step of the command with what has come of it. -/
inductive Event
  | load (location : Location) (block : Except NodeError Block)
  | decode (location : Location) (node : Except NodeError LocatedNode)

/-- What the command leaves to others. -/
structure Services where
  digest : List UInt8 → List UInt8
  /-- The lines of the log on a step, depending on how often more detail was asked for. -/
  log : UInt8 → Event → List String

end Command

namespace Command

open Numeral (decimal hexadecimal)
open Arguments (Request UsageError)

def usage : String :=
  "Usage: read [OPTIONS] <--block <NUMBER>|--node-offset <BYTES>> <IMAGE>"

def usageMessage : UsageError → String
  | .helpRequested => "Decode one file-system B-tree node from an APFS image."
  | .nothingGiven => "no arguments given"
  | .missingArgument => "a required argument is missing"
  | .conflict => "two arguments exclude each other"
  | .missingValue => "a value is missing"
  | .invalidValue => "a value is invalid"
  | .unexpectedValue => "a value is not expected"
  | .unknownArgument => "an argument is unknown"

def refuse (error : UsageError) : Outcome :=
  match error with
  | .helpRequested => ⟨0, Report.unlines [usageMessage error, "", usage], []⟩
  | _ => ⟨2, "", ["error: " ++ usageMessage error, "", usage].map .message⟩

def causeLines : List String → List String
  | [] => []
  | [cause] => ["", "Caused by:", "    " ++ cause]
  | causes => "" :: "Caused by:" :: causes.mapIdx fun i cause =>
      "    " ++ decimal i ++ ": " ++ cause

/-- The lines of a failure and of what caused it. -/
def failureLines (message : String) (causes : List String) : List String :=
  ("Error: " ++ message) :: causeLines causes

def nodeFailureLines (e : NodeError) : List String := [
  "Failed to read node.",
  "\tnode offset: " ++ hexadecimal e.location.offset.toNat,
  "\tblock size: " ++ decimal e.location.blockSize.toNat,
  "\terror kind: " ++ e.kind.name] ++ failureLines e.message e.causes

def fail (output log messages : List String) : Outcome :=
  ⟨1, Report.unlines output, log.map .log ++ messages.map .message⟩

/-- Reads the requested node from an image, which is a source or the fault met in opening it, given
a way to read blocks. -/
def executeReading (services : Services)
    (readBlock : Source → Location → Except NodeError Block) (request : Request)
    (image : Except Fault Source) : Outcome :=
  match request.location? with
  | none => fail [] [] (failureLines "node offset does not fit in 64 bits" [])
  | some location =>
    let output := ["Operating on " ++ request.image]
    match image with
    | .error fault =>
      fail output [] (failureLines ("unable to open " ++ request.image) [fault.message])
    | .ok source =>
      let loaded := readBlock source location
      let log := services.log request.verbosity (.load location loaded)
      match loaded with
      | .error e => fail output log (nodeFailureLines e)
      | .ok block =>
        let output := output ++ ["Block SHA-256: " ++ Hex.encode (services.digest block.toList)]
        let decoded := LocatedNode.decode location block request.verifyChecksum
        let log := log ++ services.log request.verbosity (.decode location decoded)
        match decoded with
        | .error e => fail output log (nodeFailureLines e)
        | .ok node => ⟨0, Report.unlines output ++ Report.text node request.hexdump, log.map .log⟩

/-- Reads the requested node from an image. -/
def execute (services : Services) (request : Request) (image : Except Fault Source) : Outcome :=
  executeReading services (fun source location => (source.readBlock location).1) request image

/-- Runs the command with the words of a command line, where `openFile` opens files by name. -/
def run (services : Services) (openFile : String → Except Fault Source) (words : List String) :
    Outcome :=
  match Arguments.parse words with
  | .error error => refuse error
  | .ok request => execute services request (openFile request.image)

end Command

end Apfs
