import Apfs.Arguments.Option

/-!
# Items of a command line

The words of a command line are read into items: an option with its value, if it takes one, or the
image. A word that starts with two dashes names one option, and may hold its value behind an
equals sign. A word that starts with one dash is a cluster of letters, of which a setting takes
the rest of the word as its value. A setting without a value in its own word takes the next word,
unless that looks like an option. Behind the word `--` nothing does any more.
-/

namespace Apfs.Arguments

/-- Why a command line is refused. -/
inductive UsageError
  | helpRequested
  | nothingGiven
  | missingArgument
  | conflict
  | missingValue
  | invalidValue
  | unexpectedValue
  | unknownArgument
deriving DecidableEq, Repr

/-- A word of the command line by its looks. -/
inductive Word
  | plain
  | endOfOptions
  | long (name : String) (value? : Option String)
  | cluster (letters : List Char)
deriving DecidableEq, Repr

def Word.ofString (text : String) : Word :=
  match text.toList with
  | ['-', '-'] => endOfOptions
  | '-' :: '-' :: cs =>
    long (.ofList (cs.takeWhile (· ≠ '='))) <|
      match cs.dropWhile (· ≠ '=') with
      | [] => none
      | _ :: value => some (.ofList value)
  | '-' :: c :: cs => cluster (c :: cs)
  | _ => plain

inductive Item
  | image (text : String)
  /-- A setting with its value in the same word. -/
  | attached (setting : Setting) (value : String)
  /-- A setting that takes the next word as its value, if that is one. -/
  | separate (setting : Setting) (value? : Option String)
  | flag (flag : Flag)
  /-- A word that cannot be accepted whatever stands before it. -/
  | refused (error : UsageError)
deriving DecidableEq, Repr

namespace Item

/-- The items in a long option, and the setting that waits for a value behind it. -/
def ofLong (name : String) (value? : Option String) : List Item × Option Setting :=
  match Opt.ofName? name, value? with
  | none, _ => ([refused .unknownArgument], none)
  | some (.flag f), none => ([flag f], none)
  | some (.flag _), some _ => ([refused .unexpectedValue], none)
  | some (.setting s), some value => ([attached s value], none)
  | some (.setting s), none => ([], some s)

/-- The items in a cluster, and the setting that waits for a value behind it. -/
def ofCluster : List Char → List Item × Option Setting
  | [] => ([], none)
  | c :: cs =>
    match Opt.ofLetter? c with
    | none => ([refused .unknownArgument], none)
    | some (.flag f) => (ofCluster cs).map (flag f :: ·) id
    | some (.setting s) =>
      match cs with
      | [] => ([], some s)
      | '=' :: value => ([attached s (.ofList value)], none)
      | value => ([attached s (.ofList value)], none)

/-- The item that a waiting setting makes when no value comes. -/
def ofWaiting (waiting : Option Setting) : List Item :=
  (waiting.map (separate · none)).toList

/-- The items in words of which none is an option: one image and no more. -/
def ofPlain (imageSeen : Bool) : List String → List Item
  | [] => []
  | text :: texts =>
    (if imageSeen then refused .unknownArgument else image text) :: ofPlain true texts

/-- The items in the words that follow an image, if `imageSeen`, and the name of a setting, if
`waiting`. -/
def scan (imageSeen : Bool) (waiting : Option Setting) : List String → List Item
  | [] => ofWaiting waiting
  | text :: texts =>
    match Word.ofString text, waiting with
    | .plain, some s => separate s (some text) :: scan imageSeen none texts
    | .plain, none => ofPlain imageSeen [text] ++ scan true none texts
    | .endOfOptions, _ => ofWaiting waiting ++ ofPlain imageSeen texts
    | .long name value?, _ =>
      let (items, next) := ofLong name value?
      ofWaiting waiting ++ items ++ scan imageSeen next texts
    | .cluster letters, _ =>
      let (items, next) := ofCluster letters
      ofWaiting waiting ++ items ++ scan imageSeen next texts

/-- The items of a whole command line. -/
def ofWords (words : List String) : List Item := scan false none words

/-- Whether the item ends with a word of its own for a value. Such a word is looked at only when
the word behind it has been read. -/
def isDeferred : Item → Bool
  | image _ | separate .. => true
  | attached .. | flag _ | refused _ => false

end Item

end Apfs.Arguments
