import Apfs.Command
import Apfs.Proofs.Arguments.Accepted
import Apfs.Proofs.FileTree
import Apfs.Proofs.Location
import Apfs.Proofs.Message
import Apfs.Proofs.Node.Records
import Apfs.Proofs.Report
import Apfs.Proofs.Source.File
import Apfs.Sha256

/-!
# What the command tells about a node

The command does not read its node in one go: it writes the digest of the block before it decodes
the block. Still it tells what reading the node from the bytes of the image gives. It succeeds on
the same images, and where it fails, it reports the same error. Which offset is asked for decides
how far this goes: an offset of more than 64 bits is refused at once, and the upper half of the
offsets that remain is out of reach for a file.

What is told of an error is spelled out here word by word. Nothing is said of the log but that its
lines come first, and all of it holds for every digest and every log.
-/

namespace Apfs

namespace Arguments.Request

/-- The offset of the requested node in the image, computed without bounds. -/
def offset (r : Request) : Nat :=
  match r.address with
  | .block volumeOffset number => volumeOffset.toNat + number.toNat * r.blockSize.toNat
  | .absolute offset => offset.toNat

/-- Where the requested node is, provided that its offset is a machine word. -/
def location (r : Request) : Location := ⟨.ofNat r.offset, r.blockSize⟩

theorem location?_eq (r : Request) :
    r.location? = if r.offset < 2 ^ 64 then some r.location else none := by
  obtain ⟨image, address, blockSize, verifyChecksum, hexdump, verbosity⟩ := r
  cases address with
  | block volumeOffset number => exact Location.ofBlock?_eq volumeOffset number blockSize
  | absolute offset =>
    have fits : offset.toNat < 2 ^ 64 := offset.toNat_lt
    simp only [location?, location, Request.offset, if_pos fits, UInt64.ofNat_toNat]

theorem toNat_offset_location {r : Request} (fits : r.offset < 2 ^ 64) :
    r.location.offset.toNat = r.offset := UInt64.toNat_ofNat_of_lt' fits

end Arguments.Request

namespace Command

open Arguments (Request)
open Numeral (decimal hexadecimal)

/-! ## What is told -/

/-- The digest of the block, if there is a block. -/
def digestLines (digest : List UInt8 → List UInt8) : Except NodeError Block → List String
  | .ok b => ["Block SHA-256: " ++ Hex.encode (digest b.toList)]
  | .error _ => []

/-- The report of the node, if there is a node. -/
def nodeLines (hexdump : Bool) : Except NodeError LocatedNode → List String
  | .ok n => Report.lines n hexdump
  | .error _ => []

def outputLines (digest : List UInt8 → List UInt8) (request : Request)
    (block : Except NodeError Block) (node : Except NodeError LocatedNode) : List String :=
  ("Operating on " ++ request.image) :: digestLines digest block ++ nodeLines request.hexdump node

/-- The kind of an error in words. -/
def kindText : NodeError → String
  | .fetch _ (.invalidBlockSize _) => "invalid argument"
  | .fetch .. => "i/o"
  | .decode _ .emptyBlock => "invalid argument"
  | .decode _ (.unsupported ..) => "unsupported format"
  | .decode _ (.checksumMismatch ..) => "checksum"
  | .decode .. => "out of bounds"

/-- What went wrong at the location. -/
def reasonText : NodeError → String
  | .fetch _ (.invalidBlockSize size) => "invalid block size: " ++ decimal size.toNat
  | .fetch _ (.seek offset _) => "unable to seek to offset " ++ hexadecimal offset.toNat
  | .fetch _ (.read offset _) => "unable to read block at offset " ++ hexadecimal offset.toNat
  | .fetch _ (.short offset expected actual) =>
    "short read at offset " ++ hexadecimal offset.toNat ++ ": expected "
      ++ decimal expected.toNat ++ " bytes, got " ++ decimal actual.toNat
  | .decode _ defect => defect.form.text

/-- What went wrong, and beneath it the fault of the source, if the source itself has failed. -/
def beneath : NodeError → List String
  | e@(.fetch _ (.seek _ fault)) | e@(.fetch _ (.read _ fault)) =>
    ["    0: " ++ reasonText e, "    1: " ++ fault.message]
  | e => ["    " ++ reasonText e]

/-- All that is told of an error, if there is one. -/
def messageLines : Except NodeError LocatedNode → List String
  | .ok _ => []
  | .error e => [
    "Failed to read node.",
    "\tnode offset: " ++ hexadecimal e.location.offset.toNat,
    "\tblock size: " ++ decimal e.location.blockSize.toNat,
    "\terror kind: " ++ kindText e,
    "Error: node at offset " ++ hexadecimal e.location.offset.toNat ++ " (block size "
      ++ decimal e.location.blockSize.toNat ++ "): " ++ reasonText e,
    "",
    "Caused by:"] ++ beneath e

/-- A run that tells what reading the block and the node has given. -/
structure Tells (digest : List UInt8 → List UInt8) (request : Request)
    (block : Except NodeError Block) (node : Except NodeError LocatedNode)
    (outcome : Outcome) : Prop where
  exit_zero_iff : outcome.exitCode = 0 ↔ ∃ n, node = .ok n
  exit_one_iff : outcome.exitCode = 1 ↔ ∃ e, node = .error e
  output : outcome.output = Report.unlines (outputLines digest request block node)
  headings (n : LocatedNode) : node = .ok n →
    (outputLines digest request block node).filter Report.isHeading
      = n.entries.mapIdx Report.heading
  errors : ∃ log : List String,
    outcome.errors = log.map .log ++ (messageLines node).map .message ∧
      outcome.errorText = Report.unlines (log ++ messageLines node)

variable {request : Request} {location : Location} {source : Source}
  {block : Block} {node : LocatedNode} {e : NodeError}

theorem isHeading_operating (image : String) :
    Report.isHeading ("Operating on " ++ image) = false := by
  simp [Report.isHeading]

theorem isHeading_digest (digest : String) :
    Report.isHeading ("Block SHA-256: " ++ digest) = false := by
  simp [Report.isHeading]

theorem text_errorLines (log messages : List String) :
    (log.map ErrorLine.log ++ messages.map ErrorLine.message).map (·.text) = log ++ messages := by
  simp [Function.comp_def, ErrorLine.text]

theorem reasonText_eq (e : NodeError) : reasonText e = e.causeMessage := by
  cases e with
  | fetch location cause => cases cause <;> rfl
  | decode location defect => exact defect.text_form

theorem kindText_eq (e : NodeError) : kindText e = e.kind.name := by
  cases e with
  | fetch location cause => cases cause <;> rfl
  | decode location defect => cases defect <;> rfl

theorem causeLines_pair (first second : String) :
    causeLines [first, second] = ["", "Caused by:", "    0: " ++ first, "    1: " ++ second] := by
  have labels : "    " ++ decimal 0 ++ ": " = "    0: " ∧
      "    " ++ decimal 1 ++ ": " = "    1: " := by decide
  simp [causeLines, labels]

theorem causeLines_eq (e : NodeError) :
    causeLines e.causes = ["", "Caused by:"] ++ beneath e := by
  have reason := reasonText_eq e
  cases e with
  | fetch location cause =>
    cases cause with
    | seek offset fault | read offset fault => exact causeLines_pair ..
    | invalidBlockSize size | short offset expected actual => rfl
  | decode location defect =>
    rw [beneath, reason]
    · rfl
    · nofun
    · nofun

theorem label_message (offset size reason : String) :
    "Error: " ++ ("node at offset " ++ offset ++ " (block size " ++ size ++ "): " ++ reason)
      = "Error: node at offset " ++ offset ++ " (block size " ++ size ++ "): " ++ reason := by
  simp only [← String.append_assoc]
  rfl

/-- The command writes the lines that are spelled out here. -/
theorem nodeFailureLines_eq (e : NodeError) : nodeFailureLines e = messageLines (.error e) := by
  have message : "Error: " ++ e.message = "Error: node at offset "
      ++ hexadecimal e.location.offset.toNat ++ " (block size "
      ++ decimal e.location.blockSize.toNat ++ "): " ++ reasonText e :=
    reasonText_eq e ▸ label_message ..
  rw [nodeFailureLines, failureLines, messageLines, kindText_eq, causeLines_eq, message]
  simp

/-- The outcome of a run that fails tells the error, and no more of the block than its digest. -/
theorem tells_error (services : Services) (request : Request) (block : Except NodeError Block)
    (e : NodeError) (log : List String) :
    Tells services.digest request block (.error e)
      (fail (outputLines services.digest request block (.error e)) log (nodeFailureLines e)) := by
  rw [fail, nodeFailureLines_eq]
  constructor
  case exit_zero_iff => simp
  case exit_one_iff => simp
  case output => dsimp only
  case headings => nofun
  case errors => exact ⟨log, rfl, congrArg Report.unlines (text_errorLines log _)⟩

theorem tells_ok (services : Services) (request : Request) (block : Block) (log : List String)
    (lengths : node.records.length = node.entries.length) :
    Tells services.digest request (.ok block) (.ok node)
      ⟨0, Report.unlines (outputLines services.digest request (.ok block) (.ok node)),
        log.map .log⟩ := by
  constructor
  case exit_zero_iff => simp
  case exit_one_iff => simp
  case output => dsimp only
  case headings =>
    rintro n ⟨⟩
    rw [outputLines, digestLines, nodeLines, List.filter_append, Report.filter_lines _ lengths]
    simp [isHeading_operating, isHeading_digest]
  case errors =>
    have texts := text_errorLines log []
    rw [List.map_nil, List.append_nil] at texts
    exact ⟨log, (List.append_nil _).symm, congrArg Report.unlines texts⟩

/-- The command loads and decodes in two steps what `readNode` reads in one. -/
theorem tells_execute (services : Services) (source : Source)
    (located : request.location? = some location) :
    Tells services.digest request (source.readBlock location).1
      (source.readNode location request.verifyChecksum).1
      (execute services request (.ok source)) := by
  rw [Source.fst_readNode, execute, executeReading, located]
  dsimp only
  cases (source.readBlock location).1 with
  | error e => exact tells_error services request (.error e) e _
  | ok block =>
    show Tells _ request (.ok block) (LocatedNode.decode location block request.verifyChecksum) _
    dsimp only
    cases decoded : LocatedNode.decode location block request.verifyChecksum with
    | error e => exact tells_error services request (.ok block) e _
    | ok node =>
      have lengths := LocatedNode.length_records decoded
      have told := tells_ok services request block
        (services.log request.verbosity (.load location (.ok block))
          ++ services.log request.verbosity (.decode location (.ok node))) lengths
      rw [outputLines, Report.unlines_append] at told
      exact told

/-- How the command acts on an image that is there or not. -/
structure Refines (digest : List UInt8 → List UInt8) (request : Request)
    (image : Option ByteArray) (outcome : Outcome) : Prop where
  unlocated : 2 ^ 64 ≤ request.offset →
    outcome = ⟨1, "", [.message "Error: node offset does not fit in 64 bits"]⟩
  absent : request.offset < 2 ^ 64 → image = none →
    outcome = ⟨1, "Operating on " ++ request.image ++ "\n",
      [.message ("Error: unable to open " ++ request.image), .message "", .message "Caused by:",
        .message "    No such file or directory (os error 2)"]⟩
  within (bytes : ByteArray) : request.offset < 2 ^ 63 → image = some bytes →
    Tells digest request ((Source.ofBytes bytes).readBlock request.location).1
      ((Source.ofBytes bytes).readNode request.location request.verifyChecksum).1 outcome
  beyond (bytes : ByteArray) : 2 ^ 63 ≤ request.offset → request.offset < 2 ^ 64 →
    image = some bytes →
      let seek := NodeError.fetch request.location
        (.seek request.location.offset .invalidPosition)
      Tells digest request (.error seek) (.error seek) outcome

/-- Only a file limits the offsets that can be reached, and it does so only in the upper half. -/
theorem execute_refines (services : Services) (request : Request)
    (size : BlockSize.Valid request.blockSize) (image : Option ByteArray) :
    Refines services.digest request image
      (execute services request (Source.ofFile? image)) := by
  have location := request.location?_eq
  constructor
  case unlocated =>
    intro large
    rw [if_neg (Nat.not_lt.mpr large)] at location
    rw [execute, executeReading, location]
    rfl
  case absent =>
    rintro fits rfl
    rw [if_pos fits] at location
    rw [execute, executeReading, location]
    have label : "Error: " ++ "unable to open " = "Error: unable to open " := by decide
    simp [Source.ofFile?, fail, failureLines, causeLines, Report.unlines, Fault.notFound,
      ← String.append_assoc, label]
  case within =>
    rintro bytes near rfl
    have fits : request.offset < 2 ^ 64 := Nat.lt_trans near (by decide)
    have told := tells_execute services (.ofFile bytes) (location.trans (if_pos fits))
    rw [← Request.toNat_offset_location fits] at near
    rw [Source.fst_readNode, Source.readBlock_ofFile near] at told
    exact told
  case beyond =>
    rintro bytes far fits rfl
    have told := tells_execute services (.ofFile bytes) (location.trans (if_pos fits))
    rw [← Request.toNat_offset_location fits] at far
    rw [Source.fst_readNode, Source.readBlock_ofFile_of_beyond size.ne_zero far] at told
    exact told

end Command

end Apfs
