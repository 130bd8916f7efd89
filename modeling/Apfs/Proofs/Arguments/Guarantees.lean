import Apfs.Command
import Apfs.Proofs.Arguments.Recognition
import Apfs.Proofs.Location

/-!
# What an accepted command line guarantees

An accepted command line is a spelling of exactly one image and of the values and flags that are
said besides. What it says settles each field of its request, where the requested node is, and that
its block is never empty.
-/

namespace Apfs

namespace Arguments

namespace Request

def block? (r : Request) : Option UInt64 :=
  match r.address with
  | .block _ number => some number
  | .absolute _ => none

def nodeOffset? (r : Request) : Option UInt64 :=
  match r.address with
  | .block .. => none
  | .absolute offset => some offset

/-- Where the volume starts. It starts with the image unless something else is given. -/
def volumeOffset (r : Request) : UInt64 :=
  match r.address with
  | .block volumeOffset _ => volumeOffset
  | .absolute _ => 0

/-- Chooses a location by what is there, if anything is: an offset, or else a block number. -/
def choose? (volumeOffset : UInt64) (block? nodeOffset? : Option UInt64) (blockSize : UInt32) :
    Option (Option Location) :=
  match block?, nodeOffset? with
  | _, some offset => some (some ⟨offset, blockSize⟩)
  | some number, none => some (Location.ofBlock? volumeOffset number blockSize)
  | none, none => none

@[simp] theorem choose?_eq_none_iff {volumeOffset : UInt64} {block nodeOffset : Option UInt64}
    {blockSize : UInt32} :
    choose? volumeOffset block nodeOffset blockSize = none ↔ block = none ∧ nodeOffset = none := by
  cases block <;> cases nodeOffset <;> simp [choose?]

open Given Mention

/-- What a request conveys of all that its command line says besides the image. -/
structure Conveys (request : Request) (ms : List Mention) : Prop where
  image_ne : request.image ≠ ""
  block : ReadFrom readWord (values .block ms) request.block?
  nodeOffset : ReadFrom readWord (values .nodeOffset ms) request.nodeOffset?
  one_address : (values .block ms).length + (values .nodeOffset ms).length = 1
  volumeOffset : ∃ given, ReadFrom readWord (values .volumeOffset ms) given ∧
    request.volumeOffset = given.getD 0
  no_volume : values .nodeOffset ms ≠ [] → values .volumeOffset ms = [] ∧ request.volumeOffset = 0
  blockSize : ∃ given, ReadFrom readBlockSize (values .blockSize ms) given ∧
    request.blockSize = given.getD BlockSize.standard
  setting_once (setting : Setting) : (values setting ms).length ≤ 1
  flag_once (flag : Flag) : flag ≠ .verbose → ms.count (.flag flag) ≤ 1
  verifyChecksum : request.verifyChecksum ↔ ms.count (.flag .verifyChecksum) = 1
  hexdump : request.hexdump ↔ ms.count (.flag .hexdump) = 1
  verbosity : request.verbosity.toNat = min (ms.count (.flag .verbose)) 255

/-- A request for a node where its command line says, in a block of a valid size. -/
structure WellFormed (request : Request) (ms : List Mention) : Prop where
  power_of_two : ∃ k, 12 ≤ k ∧ k ≤ 16 ∧ request.blockSize.toNat = 2 ^ k
  chosen : ∃ volumeOffset block nodeOffset,
    ReadFrom readWord (values .volumeOffset ms) volumeOffset ∧
    ReadFrom readWord (values .block ms) block ∧
    ReadFrom readWord (values .nodeOffset ms) nodeOffset ∧
    choose? (volumeOffset.getD 0) block nodeOffset request.blockSize = some request.location?
  at_nodeOffset (text : String) (offset : UInt64) : values .nodeOffset ms = [text] →
    readWord text = .ok offset → request.location? = some ⟨offset, request.blockSize⟩
  at_block (text : String) (number : UInt64) : values .block ms = [text] →
    readWord text = .ok number → request.location? =
      let offset := request.volumeOffset.toNat + number.toNat * request.blockSize.toNat
      if offset < 2 ^ 64 then some ⟨.ofNat offset, request.blockSize⟩ else none

variable {request : Request} {ms : List Mention}

/-- A request whose address is what has been given conveys what its command line says. -/
theorem conveys_requestAt {g : Given} {image : String} {address : Address}
    (said : g.Matches image ms)
    (block : (g.requestAt image address).block? = g.block)
    (nodeOffset : (g.requestAt image address).nodeOffset? = g.nodeOffset)
    (volumeOffset : (g.requestAt image address).volumeOffset = g.volumeOffset.getD 0)
    (apart : g.nodeOffset.isSome → g.volumeOffset = none) :
    (g.requestAt image address).Conveys ms := by
  have blocks : ReadFrom readWord (values .block ms) g.block := (said.settings .block).of_present
  have offsets : ReadFrom readWord (values .nodeOffset ms) g.nodeOffset :=
    (said.settings .nodeOffset).of_present
  have volumes : ReadFrom readWord (values .volumeOffset ms) g.volumeOffset :=
    (said.settings .volumeOffset).of_present
  have sizes : ReadFrom readBlockSize (values .blockSize ms) g.blockSize :=
    (said.settings .blockSize).of_present
  constructor
  case image_ne => exact said.image_ne
  case block => exact block ▸ blocks
  case nodeOffset => exact nodeOffset ▸ offsets
  case one_address =>
    rw [blocks.length_eq, offsets.length_eq, ← block, ← nodeOffset]
    cases address <;> rfl
  case volumeOffset => exact ⟨g.volumeOffset, volumes, volumeOffset⟩
  case no_volume =>
    intro absolute
    have none := apart (Option.isSome_iff_ne_none.mpr (mt offsets.eq_none_iff.mp absolute))
    exact ⟨volumes.eq_none_iff.mp none, by rw [volumeOffset, none]; rfl⟩
  case blockSize => exact ⟨g.blockSize, sizes, rfl⟩
  case setting_once => exact fun setting => by simpa using (said.settings setting).length_le
  case flag_once => exact fun flag single => (said.flags flag).le_one single
  case verifyChecksum =>
    have counts : ms.count (.flag .verifyChecksum) = g.verifyChecksum.toNat :=
      said.flags .verifyChecksum
    rw [counts, Bool.toNat_eq_one]
    rfl
  case hexdump =>
    have counts : ms.count (.flag .hexdump) = g.hexdump.toNat := said.flags .hexdump
    rw [counts, Bool.toNat_eq_one]
    rfl
  case verbosity => exact said.flags .verbose

theorem conveys_of_matches {g : Given} {image : String} (said : g.Matches image ms)
    (judged : g.request = .ok request) : request.image = image ∧ request.Conveys ms := by
  obtain ⟨image', given, judgement⟩ := request_eq_ok judged
  obtain rfl := Option.some.inj (said.image_eq.symm.trans given)
  obtain ⟨number, block, nodeOffset, rfl⟩ | ⟨offset, nodeOffset, block, volumeOffset, rfl⟩ :=
    judgement
  · exact ⟨rfl, conveys_requestAt said block.symm nodeOffset.symm rfl (by simp [nodeOffset])⟩
  · exact ⟨rfl, conveys_requestAt said block.symm nodeOffset.symm (by rw [volumeOffset]; rfl)
      (fun _ => volumeOffset)⟩

theorem choose?_eq (r : Request) :
    choose? r.volumeOffset r.block? r.nodeOffset? r.blockSize = some r.location? := by
  obtain ⟨image, address, blockSize, verifyChecksum, hexdump, verbosity⟩ := r
  cases address <;> rfl

/-- A request is well-formed by what it conveys and the size of its block. -/
theorem Conveys.wellFormed (conveys : request.Conveys ms)
    (valid : BlockSize.Valid request.blockSize) : request.WellFormed ms := by
  obtain ⟨given, volumes, volumeOffset⟩ := conveys.volumeOffset
  have chosen := choose?_eq request
  constructor
  case power_of_two => exact valid.exists_eq_pow
  case chosen =>
    exact ⟨given, _, _, volumes, conveys.block, conveys.nodeOffset, volumeOffset ▸ chosen⟩
  case at_nodeOffset =>
    intro text offset said read
    have given : request.nodeOffset? = some offset :=
      (said ▸ conveys.nodeOffset).unique (.once read)
    rw [given] at chosen
    exact (Option.some.inj chosen).symm
  case at_block =>
    intro text number said read
    have given : request.block? = some number := (said ▸ conveys.block).unique (.once read)
    have none : request.nodeOffset? = none := by
      have one := conveys.one_address
      rw [said, List.length_singleton] at one
      exact conveys.nodeOffset.eq_none_iff.mpr (List.length_eq_zero_iff.mp (by omega))
    rw [given, none] at chosen
    rw [← Option.some.inj chosen]
    exact Location.ofBlock?_eq request.volumeOffset number request.blockSize

end Request

open Item in
/-- Accepted words are a spelling of the image that is asked for. -/
theorem exists_spelled_of_parse {words : List String} {request : Request}
    (accepted : parse words = .ok request) :
    ∃ ms, Spelled request.image ms words ∧ request.Conveys ms := by
  obtain ⟨g, given, judged⟩ := bind_eq_ok.mp accepted
  have reflects := Given.reflects_of_accept given
  cases recognized_of_accept given with
  | ended ended =>
    obtain ⟨items, read, means⟩ := ended.exists_items false
    obtain ⟨image, given, -⟩ := Given.request_eq_ok judged
    have last := reflects.image
    rw [ofWords, read, images_of_means means, given] at last
    cases last
  | spelled spelled =>
    have said := (spelled.reflects_iff_matches g).mp reflects
    obtain ⟨rfl, conveys⟩ := Request.conveys_of_matches said judged
    exact ⟨_, spelled, conveys⟩

theorem Request.blockSize_of_location? {request : Request} {location : Location}
    (located : request.location? = some location) : location.blockSize = request.blockSize := by
  obtain ⟨image, address, blockSize, verifyChecksum, hexdump, verbosity⟩ := request
  cases address with
  | block volumeOffset number => exact (Location.ofBlock?_eq_some_iff.mp located).2
  | absolute offset =>
    obtain rfl := Option.some.inj located
    rfl

end Arguments

namespace Command

open Arguments (Request Mention Spelled)

theorem executeReading_congr {request : Request}
    {readBlock readBlock' : Source → Location → Except NodeError Block}
    (same : ∀ source location, request.location? = some location →
      readBlock source location = readBlock' source location) (services : Services)
    (image : Except Fault Source) :
    executeReading services readBlock request image
      = executeReading services readBlock' request image := by
  unfold executeReading
  cases located : request.location? with
  | none => rfl
  | some location =>
    cases image with
    | error fault => rfl
    | ok source => simp only [same source location located]

/-- An accepted command line says one thing only, its request conveys that and has one node, and
the command never reads a block of size zero for it. -/
theorem parse_guarantees {words : List String} {request : Request}
    (accepted : Arguments.parse words = .ok request) :
    (∃ ms, Spelled request.image ms words ∧
      (∀ image ms', Spelled image ms' words → image = request.image ∧ ms' = ms) ∧
      request.Conveys ms ∧ request.WellFormed ms) ∧
    ∀ (services : Services) (readBlock : Source → Location → Except NodeError Block)
        (image : Except Fault Source),
      (∀ source location, location.blockSize ≠ 0 →
        readBlock source location = (source.readBlock location).1) →
      executeReading services readBlock request image = execute services request image := by
  have valid := Arguments.blockSize_valid accepted
  obtain ⟨ms, spelled, conveys⟩ := Arguments.exists_spelled_of_parse accepted
  refine ⟨⟨ms, spelled, ?_, conveys, conveys.wellFormed valid⟩, ?_⟩
  · exact fun image ms' again => spelled.unique again
  intro services readBlock image same
  refine executeReading_congr (fun source location located => ?_) services image
  have size := Request.blockSize_of_location? located
  exact same source location (size ▸ valid.ne_zero)

/-- Clusters, values in all their places, and an image behind the end of the options. -/
theorem parse_guarantees_mixed :
    let words := ["-xvo512", "--block", "+3", "-s=8192", "-v", "--", "disk.img"]
    let request : Request := ⟨"disk.img", .block 512 3, 8192, false, true, 2⟩
    Arguments.parse words = .ok request ∧
      (∃ ms, Spelled request.image ms words ∧
        (∀ image ms', Spelled image ms' words → image = request.image ∧ ms' = ms) ∧
        request.Conveys ms ∧ request.WellFormed ms) ∧
      ∀ (services : Services) (readBlock : Source → Location → Except NodeError Block)
          (image : Except Fault Source),
        (∀ source location, location.blockSize ≠ 0 →
          readBlock source location = (source.readBlock location).1) →
        executeReading services readBlock request image = execute services request image := by
  have accepted :
      Arguments.parse ["-xvo512", "--block", "+3", "-s=8192", "-v", "--", "disk.img"]
        = .ok ⟨"disk.img", .block 512 3, 8192, false, true, 2⟩ := by decide +kernel
  exact ⟨accepted, parse_guarantees accepted⟩

end Command

end Apfs
