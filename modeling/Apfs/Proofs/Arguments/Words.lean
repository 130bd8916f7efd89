import Apfs.Arguments.Item
import Mathlib.Data.List.Forall2

/-!
# Reading words

What each kind of word looks like, and which items are read from it. An option is read in the same
way wherever it stands before the end of the options, so long as no setting waits for a value. Words
that are read in this way can be put one behind the other.
-/

namespace Apfs.Arguments

/-! ## Names and letters -/

/-- The long name of a setting as it is written. -/
def Setting.long : Setting → String
  | volumeOffset => "--volume-offset"
  | block => "--block"
  | nodeOffset => "--node-offset"
  | blockSize => "--block-size"

/-- The settings that have a letter. -/
inductive Setting.Short : Setting → Char → Prop
  | volumeOffset : Short volumeOffset 'o'
  | block : Short block 'b'
  | blockSize : Short blockSize 's'

/-- The long name of a flag as it is written. -/
def Flag.long : Flag → String
  | verifyChecksum => "--verify-checksum"
  | hexdump => "--hexdump"
  | verbose => "--verbose"
  | help => "--help"

/-- The flags that have a letter. -/
inductive Flag.Short : Flag → Char → Prop
  | hexdump : Short hexdump 'x'
  | verbose : Short verbose 'v'
  | help : Short help 'h'

/-- Flags and their letters. -/
def Letters : List Flag → List Char → Prop := List.Forall₂ Flag.Short

/-- A name that can stand behind two dashes. -/
def Writable (name : String) : Prop := name ≠ "" ∧ '=' ∉ name.toList

instance (name : String) : Decidable (Writable name) := inferInstanceAs (Decidable (_ ∧ _))

variable {flag : Flag} {flags : List Flag} {letters : List Char} {setting : Setting}
  {letter : Char}

theorem Setting.long_eq (setting : Setting) : setting.long = "--" ++ setting.name := by
  cases setting <;> decide

theorem Flag.long_eq (flag : Flag) : flag.long = "--" ++ flag.name := by
  cases flag <;> decide

theorem Setting.name_writable (setting : Setting) : Writable setting.name := by
  cases setting <;> decide

theorem Flag.name_writable (flag : Flag) : Writable flag.name := by
  cases flag <;> decide

theorem Setting.Short.ne_dash (short : setting.Short letter) : letter ≠ '-' := by
  cases short <;> decide

theorem Flag.Short.ne_dash (short : flag.Short letter) : letter ≠ '-' := by
  cases short <;> decide

theorem Opt.ofName?_setting (setting : Setting) :
    ofName? setting.name = some (.setting setting) := by
  cases setting <;> decide

theorem Opt.ofName?_flag (flag : Flag) : ofName? flag.name = some (.flag flag) := by
  cases flag <;> decide

theorem Opt.ofLetter?_setting (short : setting.Short letter) :
    ofLetter? letter = some (.setting setting) := by
  cases short <;> rfl

theorem Opt.ofLetter?_flag (short : flag.Short letter) :
    ofLetter? letter = some (.flag flag) := by
  cases short <;> rfl

/-! ## The looks of words -/

/-- A text that does not look like an option. -/
def Bare (text : String) : Prop := text.toList.head? ≠ some '-' ∨ text = "-"

namespace Word

variable {text name : String}

theorem ofString_bare (bare : Bare text) : ofString text = .plain := by
  rcases bare with other | rfl
  · unfold ofString
    split
    case h_1 dashes => simp [dashes] at other
    case h_2 dashes => simp [dashes] at other
    case h_3 dash => simp [dash] at other
    case h_4 => rfl
  · decide

/-- Two dashes and a name, with nothing or an equals sign behind it. -/
theorem ofString_long (writable : Writable name) (tail : List Char)
    (dashes : text.toList = '-' :: '-' :: (name.toList ++ tail))
    (behind : ∀ c ∈ tail.head?, c = '=') :
    ofString text = .long name (tail.tail?.map .ofList) := by
  have other : ∀ c ∈ name.toList, decide (c ≠ '=') = true := fun c member =>
    decide_eq_true (ne_of_mem_of_not_mem member writable.2)
  have taken : (name.toList ++ tail).takeWhile (· ≠ '=') = name.toList := by
    rw [List.takeWhile_append_of_pos other]
    cases tail with
    | nil => simp
    | cons c value => simp [behind c rfl]
  have dropped : (name.toList ++ tail).dropWhile (· ≠ '=') = tail := by
    rw [List.dropWhile_append_of_pos other]
    cases tail with
    | nil => rfl
    | cons c value => simp [behind c rfl]
  -- The word is not `--` itself, because the name is not empty.
  obtain ⟨c, cs, named⟩ := List.exists_cons_of_ne_nil (mt String.toList_eq_nil_iff.mp writable.1)
  rw [named, List.cons_append] at taken dropped dashes
  unfold ofString
  simp only [dashes]
  rw [taken, dropped, ← named, String.ofList_toList]
  cases tail <;> rfl

theorem ofString_cluster {c : Char} {cs : List Char} (dash : text.toList = '-' :: c :: cs)
    (other : c ≠ '-') : ofString text = .cluster (c :: cs) := by
  unfold ofString
  rw [dash]
  split
  case h_1 dashes => simp [other] at dashes
  case h_2 dashes => simp [other] at dashes
  case h_3 same =>
    cases same
    rfl
  case h_4 single => exact absurd rfl (single c cs)

end Word

/-! ## Items of options -/

namespace Item

variable {text : String} {items : List Item} {next : Option Setting}

theorem ofCluster_append (named : Letters flags letters) (tail : List Char) :
    ofCluster (letters ++ tail)
      = (flags.map .flag ++ (ofCluster tail).1, (ofCluster tail).2) := by
  induction named with
  | nil => rfl
  | cons first _ ih =>
    rw [List.cons_append, ofCluster, Opt.ofLetter?_flag first]
    dsimp only
    rw [ih]
    rfl

theorem ofCluster_setting (short : setting.Short letter) :
    ofCluster [letter] = ([], some setting) := by
  rw [ofCluster, Opt.ofLetter?_setting short]

theorem ofCluster_equals (short : setting.Short letter) (value : List Char) :
    ofCluster (letter :: '=' :: value) = ([attached setting (.ofList value)], none) := by
  rw [ofCluster, Opt.ofLetter?_setting short]
  rfl

theorem ofCluster_value {c : Char} (short : setting.Short letter) (other : c ≠ '=')
    (cs : List Char) :
    ofCluster (letter :: c :: cs) = ([attached setting (.ofList (c :: cs))], none) := by
  rw [ofCluster, Opt.ofLetter?_setting short]
  dsimp only
  split
  case h_1 nothing => cases nothing
  case h_2 joined => exact absurd (List.cons.inj joined).1 other
  case h_3 => rfl

/-- The items in an option, and the setting that waits for a value behind it. -/
def ofOption? : Word → Option (List Item × Option Setting)
  | .long name value? => some (ofLong name value?)
  | .cluster letters => some (ofCluster letters)
  | .plain | .endOfOptions => none

theorem ofOption?_flag (flag : Flag) :
    ofOption? (.ofString flag.long) = some ([.flag flag], none) := by
  rw [Word.ofString_long flag.name_writable [] (by simp [flag.long_eq]) nofun]
  simp only [ofOption?, ofLong, Opt.ofName?_flag]
  rfl

theorem ofOption?_setting (setting : Setting) :
    ofOption? (.ofString setting.long) = some ([], some setting) := by
  rw [Word.ofString_long setting.name_writable [] (by simp [setting.long_eq]) nofun]
  simp only [ofOption?, ofLong, Opt.ofName?_setting]
  rfl

theorem ofOption?_setting_equals (setting : Setting) (value : String) :
    ofOption? (.ofString (setting.long ++ "=" ++ value))
      = some ([attached setting value], none) := by
  rw [Word.ofString_long setting.name_writable ('=' :: value.toList) (by simp [setting.long_eq])
    (by simp)]
  simp [ofOption?, ofLong, Opt.ofName?_setting]

/-- The letters of flags at the start of a cluster. -/
theorem ofOption?_letters (named : Letters flags letters) (tail : List Char)
    (dash : text.toList = '-' :: (letters ++ tail)) (nonempty : letters ++ tail ≠ [])
    (other : '-' ∉ tail.head?) :
    ofOption? (.ofString text)
      = some (flags.map .flag ++ (ofCluster tail).1, (ofCluster tail).2) := by
  rw [← ofCluster_append named]
  cases named with
  | nil =>
    obtain ⟨c, cs, rfl⟩ := List.exists_cons_of_ne_nil nonempty
    have first : c ≠ '-' := by simpa using other
    rw [Word.ofString_cluster dash first]
    rfl
  | cons first _ =>
    rw [List.cons_append] at dash ⊢
    rw [Word.ofString_cluster dash first.ne_dash]
    rfl

/-- The letter of a setting behind those of flags. -/
theorem ofOption?_letters_setting (named : Letters flags letters)
    (last : setting.Short letter) (value : List Char)
    (dash : text.toList = '-' :: (letters ++ letter :: value)) :
    ofOption? (.ofString text) = some (flags.map .flag ++ (ofCluster (letter :: value)).1,
      (ofCluster (letter :: value)).2) := by
  refine ofOption?_letters named (letter :: value) dash (by simp) ?_
  simpa [eq_comm] using last.ne_dash

/-! ## Words one behind the other -/

theorem scan_option (option : ofOption? (.ofString text) = some (items, next)) (imageSeen : Bool)
    (texts : List String) :
    scan imageSeen none (text :: texts) = items ++ scan imageSeen next texts := by
  rw [scan.eq_def]
  cases looks : Word.ofString text with
  | plain | endOfOptions =>
    rw [looks] at option
    cases option
  | long name value? =>
    rw [looks] at option
    have read : ofLong name value? = (items, next) := Option.some.inj option
    simp only [looks, read]
    rfl
  | cluster letters =>
    rw [looks] at option
    have read : ofCluster letters = (items, next) := Option.some.inj option
    simp only [looks, read]
    rfl

theorem scan_value (bare : Bare text) (imageSeen : Bool) (setting : Setting)
    (texts : List String) :
    scan imageSeen (some setting) (text :: texts)
      = separate setting (some text) :: scan imageSeen none texts := by
  rw [scan.eq_def]
  simp only [Word.ofString_bare bare]

theorem scan_image (bare : Bare text) (texts : List String) :
    scan false none (text :: texts) = image text :: scan true none texts := by
  rw [scan.eq_def]
  simp only [Word.ofString_bare bare]
  rfl

theorem scan_end (imageSeen : Bool) (texts : List String) :
    scan imageSeen none ("--" :: texts) = ofPlain imageSeen texts := rfl

/-- Words that are read into the same items wherever they stand before the end of the options. -/
def ReadAs (words : List String) (items : List Item) : Prop :=
  ∀ (imageSeen : Bool) (texts : List String),
    scan imageSeen none (words ++ texts) = items ++ scan imageSeen none texts

namespace ReadAs

variable {words words' : List String} {items' : List Item}

theorem nil : ReadAs [] [] := fun _ _ => rfl

theorem append (first : ReadAs words items) (rest : ReadAs words' items') :
    ReadAs (words ++ words') (items ++ items') := by
  intro imageSeen texts
  rw [List.append_assoc, first, rest, List.append_assoc]

theorem option (option : ofOption? (.ofString text) = some (items, none)) :
    ReadAs [text] items :=
  fun imageSeen texts => scan_option option imageSeen texts

/-- An option with its value in the next word. -/
theorem apart {value : String}
    (option : ofOption? (.ofString text) = some (items, some setting)) (bare : Bare value) :
    ReadAs [text, value] (items ++ [separate setting (some value)]) := by
  intro imageSeen texts
  calc scan imageSeen none (text :: value :: texts)
    _ = items ++ scan imageSeen (some setting) (value :: texts) := scan_option option _ _
    _ = items ++ separate setting (some value) :: scan imageSeen none texts := by
      rw [scan_value bare]
    _ = (items ++ [separate setting (some value)]) ++ scan imageSeen none texts := by simp

/-- An image with more behind it that is not an image. -/
theorem image_between (before : ReadAs words items) (bare : Bare text)
    (after : scan true none words' = items') :
    ofWords (words ++ text :: words') = items ++ image text :: items' := by
  calc scan false none (words ++ text :: words')
    _ = items ++ scan false none (text :: words') := before _ _
    _ = items ++ image text :: scan true none words' := by rw [scan_image bare]
    _ = items ++ image text :: items' := by rw [after]

theorem image_behind (before : ReadAs words items) (text : String) :
    ofWords (words ++ ["--", text]) = items ++ [image text] := by
  calc scan false none (words ++ ["--", text])
    _ = items ++ scan false none ["--", text] := before _ _
    _ = items ++ ofPlain false [text] := by rw [scan_end]

/-- Words at the end of a command line. -/
theorem scan_eq (read : ReadAs words items) (imageSeen : Bool) :
    scan imageSeen none words = items := by
  simpa [scan, ofWaiting] using read imageSeen []

/-- Words in front of an end of the options with nothing behind it. -/
theorem scan_marked (read : ReadAs words items) (imageSeen : Bool) :
    scan imageSeen none (words ++ ["--"]) = items := by
  rw [read, scan_end, ofPlain, List.append_nil]

end ReadAs

end Item

end Apfs.Arguments
