import Apfs.Proofs.Arguments.Acceptance
import Apfs.Proofs.Arguments.Spelling
import Mathlib.Algebra.Ring.Nat

/-!
# Requests round-trip

A user intends a request. The settings and flags that convey it may be said in any order and in
any spelling, and every command line that says them is read back as the request.
-/

namespace Apfs

namespace Arguments

open Numeral (decimal)
open Given Item

theorem Given.readWord_decimal (n : UInt64) : readWord (decimal n.toNat) = .ok n := by
  have bound : n.toNat ≤ UInt64.size - 1 := Nat.le_sub_one_of_lt n.toNat_lt
  rw [readWord, Numeral.read_decimal bound]
  simp only [UInt64.ofNat_toNat]

theorem Given.readBlockSize_decimal {n : UInt32} (valid : BlockSize.Valid n) :
    readBlockSize (decimal n.toNat) = .ok n := by
  rw [readBlockSize, BlockSize.read_decimal valid]

/-- How a user chooses a node. -/
inductive Choice
  /-- A numbered block of a volume, which need not be said to start with the image. -/
  | block (volumeOffset? : Option UInt64) (number : UInt64)
  | absolute (offset : UInt64)
deriving DecidableEq, Repr

namespace Choice

def volumeOffset? : Choice → Option UInt64
  | block volumeOffset? _ => volumeOffset?
  | absolute _ => none

def block? : Choice → Option UInt64
  | block _ number => some number
  | absolute _ => none

def nodeOffset? : Choice → Option UInt64
  | block .. => none
  | absolute offset => some offset

/-- The address of the chosen node. A volume starts with the image unless something is said. -/
def address : Choice → Address
  | block volumeOffset? number => .block (volumeOffset?.getD 0) number
  | absolute offset => .absolute offset

end Choice

/-- What a user wants of an image. -/
structure Intent where
  image : String
  image_ne : image ≠ ""
  node : Choice
  blockSize? : Option UInt32
  blockSize_valid : ∀ n ∈ blockSize?, ∃ k, 12 ≤ k ∧ k ≤ 16 ∧ n.toNat = 2 ^ k
  verifyChecksum : Bool
  hexdump : Bool
  /-- How often to ask for more detail. -/
  verbosity : Nat

namespace Intent

variable {intent : Intent} {ms : List Mention} {words : List String}

/-- The number that a setting is to be given, if any. -/
def number? (intent : Intent) : Setting → Option Nat
  | .volumeOffset => intent.node.volumeOffset?.map (·.toNat)
  | .block => intent.node.block?.map (·.toNat)
  | .nodeOffset => intent.node.nodeOffset?.map (·.toNat)
  | .blockSize => intent.blockSize?.map (·.toNat)

/-- How often a flag is to be raised. -/
def times (intent : Intent) : Flag → Nat
  | .verifyChecksum => intent.verifyChecksum.toNat
  | .hexdump => intent.hexdump.toNat
  | .verbose => intent.verbosity
  | .help => 0

/-- All that has to be said besides the image. Numbers are in decimal without leading zeros. -/
def mentions (intent : Intent) : List Mention :=
  Setting.all.flatMap (fun s => ((intent.number? s).map fun n => .setting s (decimal n)).toList)
    ++ Flag.all.flatMap (fun f => .replicate (intent.times f) (.flag f))

/-- The words that say all of it in some order and in some spelling. -/
def SaidBy (intent : Intent) (words : List String) : Prop :=
  ∃ ms, ms.Perm intent.mentions ∧ Spelled intent.image ms words

/-- The request that is meant. -/
def request (intent : Intent) : Request where
  image := intent.image
  address := intent.node.address
  blockSize := intent.blockSize?.getD 4096
  verifyChecksum := intent.verifyChecksum
  hexdump := intent.hexdump
  verbosity := .ofNat (min intent.verbosity 255)

/-- All that is to be given. -/
def given (intent : Intent) : Given where
  image := some intent.image
  volumeOffset := intent.node.volumeOffset?
  block := intent.node.block?
  nodeOffset := intent.node.nodeOffset?
  blockSize := intent.blockSize?
  verifyChecksum := intent.verifyChecksum
  hexdump := intent.hexdump
  verbosity := .ofNat (min intent.verbosity 255)

theorem request_given (intent : Intent) : intent.given.request = .ok intent.request := by
  have something : intent.given ≠ {} := fun nothing => nomatch congrArg Given.image nothing
  rw [Given.request, if_neg something]
  obtain ⟨image, image_ne, node, blockSize?, blockSize_valid, verifyChecksum, hexdump, k⟩ := intent
  cases node with
  | block volumeOffset? number => rfl
  | absolute offset => rfl

theorem values_mentions (intent : Intent) (setting : Setting) :
    Mention.values setting intent.mentions = ((intent.number? setting).map decimal).toList := by
  have alone (s : Setting) :
      (((intent.number? s).map fun n => Mention.setting s (decimal n)).toList).filterMap
          (Mention.value? setting)
        = if s = setting then ((intent.number? s).map decimal).toList else [] := by
    cases intent.number? s <;> by_cases same : s = setting <;> simp [Mention.value?, same]
  have none (f : Flag) : (List.replicate (intent.times f) (Mention.flag f)).filterMap
      (Mention.value? setting) = [] := by
    simp [List.filterMap_replicate, Mention.value?]
  simp only [Mention.values, mentions, List.filterMap_append, List.filterMap_flatMap, alone, none]
  cases setting <;> simp [Setting.all]

theorem count_flag_mentions (intent : Intent) (f : Flag) :
    intent.mentions.count (.flag f) = intent.times f := by
  have settings : (Setting.all.flatMap fun s => ((intent.number? s).map fun n =>
      Mention.setting s (decimal n)).toList).count (.flag f) = 0 := by
    simp [List.count_eq_zero]
  rw [mentions, List.count_append, settings, Nat.zero_add]
  cases f <;> simp [Flag.all, List.count_replicate]

/-- What is to be given is read from what is to be said. -/
theorem holds_given (intent : Intent) (setting : Setting) :
    intent.given.Holds (((intent.number? setting).map decimal).toList.map some) setting := by
  have word (field : Option UInt64) : ReadFrom (present readWord)
      (((field.map (·.toNat)).map decimal).toList.map some) field := by
    cases field with
    | none => exact .nothing
    | some n => exact .once (readWord_decimal n)
  cases setting with
  | volumeOffset => exact word intent.node.volumeOffset?
  | block => exact word intent.node.block?
  | nodeOffset => exact word intent.node.nodeOffset?
  | blockSize =>
    show ReadFrom (present readBlockSize)
      (((intent.blockSize?.map (·.toNat)).map decimal).toList.map some) intent.blockSize?
    cases given : intent.blockSize? with
    | none => exact .nothing
    | some n =>
      obtain ⟨k, low, high, power⟩ := intent.blockSize_valid n given
      exact .once (readBlockSize_decimal (BlockSize.valid_of_toNat_eq_pow low high power))

theorem counts_given (intent : Intent) (f : Flag) : intent.given.Counts (intent.times f) f := by
  cases f with
  | verifyChecksum | hexdump | help => rfl
  | verbose =>
    show (UInt8.ofNat (min intent.verbosity 255)).toNat = min intent.verbosity 255
    rw [UInt8.toNat_ofNat']
    omega

/-- What is meant matches all that is said of it, in any order. -/
theorem matches_given (order : ms.Perm intent.mentions) :
    intent.given.Matches intent.image ms := by
  constructor
  case image_eq => rfl
  case image_ne => exact intent.image_ne
  case settings =>
    intro setting
    have values : Mention.values setting ms = ((intent.number? setting).map decimal).toList := by
      have permuted : (Mention.values setting ms).Perm (Mention.values setting intent.mentions) :=
        order.filterMap _
      rw [values_mentions] at permuted
      cases number : intent.number? setting with
      | none => simpa [number] using permuted
      | some n => simpa [number] using permuted
    exact values ▸ intent.holds_given setting
  case flags =>
    intro f
    rw [order.count_eq, count_flag_mentions]
    exact intent.counts_given f

/-- Every command line that says what is meant makes the request that is meant. -/
theorem parse_of_saidBy (said : intent.SaidBy words) : parse words = .ok intent.request := by
  obtain ⟨ms, order, spelled⟩ := said
  have reflects : intent.given.Reflects (ofWords words) :=
    (spelled.reflects_iff_matches intent.given).mpr (matches_given order)
  have unrefused (error : UsageError) : .refused error ∉ ofWords words :=
    spelled.unrefused_ofWords error
  have accepted : Given.accept {} (ofWords words) = .ok intent.given :=
    accept_eq_ok_iff.mpr ⟨reflects, unrefused⟩
  rw [parse, accepted]
  exact intent.request_given

/-- A cluster that ends in a value, values in other places, and an image that looks like an
option. -/
theorem parse_of_saidBy_mixed :
    let intent : Intent :=
      { image := "-disk", image_ne := by decide, node := .block (some 512) 3,
        blockSize? := some 8192, blockSize_valid := by rintro n ⟨⟩; exact ⟨13, by decide⟩,
        verifyChecksum := false, hexdump := true, verbosity := 2 }
    let words := ["-xvo512", "--block", "3", "-s=8192", "-v", "--", "-disk"]
    intent.SaidBy words ∧ parse words = .ok intent.request ∧
      intent.request = ⟨"-disk", .block 512 3, 8192, false, true, 2⟩ := by
  intro intent words
  have letters : Letters [.hexdump, .verbose] ['x', 'v'] := .cons .hexdump (.cons .verbose .nil)
  have cluster :
      Group [.flag .hexdump, .flag .verbose, .setting .volumeOffset (decimal 512)] ["-xvo512"] :=
    .adjoined letters .volumeOffset (adjoinable_decimal 512)
  have block : Group [.setting .block (decimal 3)] ["--block", "3"] :=
    .apart (.long .block) (bare_decimal 3)
  have blockSize : Group [.setting .blockSize (decimal 8192)] ["-s=8192"] :=
    .equals (decimal 8192) (.short .nil .blockSize)
  have verbose : Group [.flag .verbose] ["-v"] := .cluster (.cons .verbose .nil) nofun
  have said : intent.SaidBy words := by
    refine ⟨_, ?_, .behind (.cons cluster (.cons block (.cons blockSize (.cons verbose .nil))))⟩
    decide
  exact ⟨said, parse_of_saidBy said, rfl⟩

end Intent

end Arguments

end Apfs
