/-!
# Options

The command line knows settings, which take a value, and flags, which take none. Each has a long
name, and most have a letter as well.
-/

namespace Apfs.Arguments

/-- The options that take a value. -/
inductive Setting
  | volumeOffset
  | block
  | nodeOffset
  | blockSize
deriving DecidableEq, Repr

/-- The options that take no value. -/
inductive Flag
  | verifyChecksum
  | hexdump
  | verbose
  | help
deriving DecidableEq, Repr

namespace Setting

def all : List Setting := [volumeOffset, block, nodeOffset, blockSize]

def name : Setting → String
  | volumeOffset => "volume-offset"
  | block => "block"
  | nodeOffset => "node-offset"
  | blockSize => "block-size"

def letter? : Setting → Option Char
  | volumeOffset => some 'o'
  | block => some 'b'
  | nodeOffset => none
  | blockSize => some 's'

end Setting

namespace Flag

def all : List Flag := [verifyChecksum, hexdump, verbose, help]

def name : Flag → String
  | verifyChecksum => "verify-checksum"
  | hexdump => "hexdump"
  | verbose => "verbose"
  | help => "help"

def letter? : Flag → Option Char
  | verifyChecksum => none
  | hexdump => some 'x'
  | verbose => some 'v'
  | help => some 'h'

end Flag

inductive Opt
  | setting (setting : Setting)
  | flag (flag : Flag)
deriving DecidableEq, Repr

namespace Opt

def ofName? (name : String) : Option Opt :=
  (Setting.all.find? (·.name = name)).map .setting
    <|> (Flag.all.find? (·.name = name)).map .flag

def ofLetter? (letter : Char) : Option Opt :=
  (Setting.all.find? (·.letter? = some letter)).map .setting
    <|> (Flag.all.find? (·.letter? = some letter)).map .flag

end Opt

end Apfs.Arguments
