import Apfs.Proofs.Arguments.Accepted
import Apfs.Proofs.Arguments.Words
import Apfs.Proofs.Numeral

/-!
# Spellings of a command line

A command line can say the same in many ways: with long names or with letters, with values in
words of their own or behind an equals sign, with letters apart or in clusters, and with its image
in many places. `Spelled` relates what is said to all the words for it. Reading the words leads
back to what is said.
-/

namespace Apfs.Arguments

open Numeral (decimal)

/-- What a command line says besides its image: a value for a setting, or a flag. -/
inductive Mention
  | setting (setting : Setting) (value : String)
  | flag (flag : Flag)
deriving DecidableEq, Repr

namespace Mention

/-- The value that a mention gives to a setting. -/
def value? (setting : Setting) : Mention → Option String
  | .setting s value => if s = setting then some value else none
  | .flag _ => none

/-- The values given to a setting, one for each time that it is given. -/
def values (setting : Setting) (ms : List Mention) : List String := ms.filterMap (value? setting)

end Mention

/-- How a setting can be named: by its long name, or by its letter in one cluster with the letters
of flags. -/
inductive Head : List Flag → Setting → String → Prop
  | long (setting : Setting) : Head [] setting setting.long
  | short {flags : List Flag} {letters : List Char} {setting : Setting} {letter : Char} :
      Letters flags letters → setting.Short letter →
      Head flags setting (.ofList ('-' :: (letters ++ [letter])))

/-- A value that can stand right behind the letter of its setting. -/
def Adjoinable (value : String) : Prop := value ≠ "" ∧ value.toList.head? ≠ some '='

/-- Words that belong together, and what they say. -/
inductive Group : List Mention → List String → Prop
  | flag (flag : Flag) : Group [.flag flag] [flag.long]
  | cluster {flags : List Flag} {letters : List Char} :
      Letters flags letters → letters ≠ [] →
      Group (flags.map .flag) [.ofList ('-' :: letters)]
  /-- The value in a word of its own. -/
  | apart {flags : List Flag} {setting : Setting} {head value : String} :
      Head flags setting head → Bare value →
      Group (flags.map .flag ++ [.setting setting value]) [head, value]
  | equals {flags : List Flag} {setting : Setting} {head : String} (value : String) :
      Head flags setting head →
      Group (flags.map .flag ++ [.setting setting value]) [head ++ "=" ++ value]
  /-- The value right behind the letter. -/
  | adjoined {flags : List Flag} {letters : List Char} {setting : Setting} {letter : Char}
      {value : String} : Letters flags letters → setting.Short letter → Adjoinable value →
      Group (flags.map .flag ++ [.setting setting value])
        [.ofList ('-' :: (letters ++ [letter])) ++ value]

inductive Groups : List Mention → List String → Prop
  | nil : Groups [] []
  | cons {ms ms' : List Mention} {words words' : List String} :
      Group ms words → Groups ms' words' → Groups (ms ++ ms') (words ++ words')

/-- Groups at the end of a command line. The end of the options may be marked. -/
inductive Ended : List Mention → List String → Prop
  | unmarked {ms : List Mention} {words : List String} : Groups ms words → Ended ms words
  | marked {ms : List Mention} {words : List String} : Groups ms words → Ended ms (words ++ ["--"])

/-- What a command line says besides its image, and its words. An image that looks like an option
can only stand behind the end of the options. -/
inductive Spelled (image : String) : List Mention → List String → Prop
  | between {before after : List Mention} {words words' : List String} : Bare image →
      Groups before words → Ended after words' →
      Spelled image (before ++ after) (words ++ image :: words')
  | behind {ms : List Mention} {words : List String} : Groups ms words →
      Spelled image ms (words ++ ["--", image])

namespace Item

/-- What an item says. -/
inductive Means : Item → Mention → Prop
  | attached (setting : Setting) (value : String) :
      Means (attached setting value) (.setting setting value)
  | separate (setting : Setting) (value : String) :
      Means (separate setting (some value)) (.setting setting value)
  | flag (f : Flag) : Means (flag f) (.flag f)

/-- What an item says besides the image, if it says anything. -/
def mention? : Item → Option Mention
  | attached setting value | separate setting (some value) => some (.setting setting value)
  | flag f => some (.flag f)
  | image _ | separate _ none | refused _ => none

variable {items : List Item} {ms : List Mention}

theorem means_flags (flags : List Flag) :
    List.Forall₂ Means (flags.map .flag) (flags.map .flag) := by
  induction flags with
  | nil => exact .nil
  | cons flag flags ih => exact .cons (.flag flag) ih

theorem mentions_of_means (means : List.Forall₂ Means items ms) :
    items.filterMap mention? = ms := by
  induction means with
  | nil => rfl
  | cons first _ ih => cases first <;> simpa [mention?] using ih

theorem values_of_means (means : List.Forall₂ Means items ms) (setting : Setting) :
    values setting items = (Mention.values setting ms).map some := by
  induction means with
  | nil => rfl
  | cons first _ ih =>
    cases first with
    | attached s value | separate s value =>
      by_cases same : s = setting <;>
        simpa [values, value?, Mention.values, Mention.value?, same] using ih
    | flag f => exact ih

theorem raised_of_means (means : List.Forall₂ Means items ms) (f : Flag) :
    raised f items = ms.count (.flag f) := by
  induction means with
  | nil => rfl
  | cons first _ ih => cases first <;> simpa [raised, List.count_cons] using ih

theorem images_of_means (means : List.Forall₂ Means items ms) : images items = [] := by
  induction means with
  | nil => rfl
  | cons first _ ih => cases first <;> exact ih

theorem unrefused_of_means (means : List.Forall₂ Means items ms) (error : UsageError) :
    .refused error ∉ items := by
  induction means with
  | nil => exact List.not_mem_nil
  | cons first _ ih => cases first <;> simpa using ih

end Item

/-! ## Reading back -/

open Item

variable {flags : List Flag} {letters : List Char} {setting : Setting} {letter : Char}
  {head image : String} {ms : List Mention} {words : List String}

theorem bare_decimal (n : Nat) : Bare (decimal n) := by
  obtain ⟨c, cs, first, digit⟩ := Numeral.exists_toList_decimal_eq_cons n
  refine .inl ?_
  rw [first, List.head?_cons]
  rintro ⟨⟩
  exact absurd digit (by decide)

theorem adjoinable_decimal (n : Nat) : Adjoinable (decimal n) := by
  obtain ⟨c, cs, first, digit⟩ := Numeral.exists_toList_decimal_eq_cons n
  constructor
  · intro empty
    simp [empty] at first
  · rw [first, List.head?_cons]
    rintro ⟨⟩
    exact absurd digit (by decide)

theorem Head.option (named : Head flags setting head) :
    ofOption? (.ofString head) = some (flags.map .flag, some setting) := by
  cases named with
  | long => exact ofOption?_setting setting
  | short letters last =>
    rw [ofOption?_letters_setting letters last [] (by simp), ofCluster_setting last,
      List.append_nil]

theorem Head.option_equals (named : Head flags setting head) (value : String) :
    ofOption? (.ofString (head ++ "=" ++ value))
      = some (flags.map .flag ++ [.attached setting value], none) := by
  cases named with
  | long => exact ofOption?_setting_equals setting value
  | short letters last =>
    rw [ofOption?_letters_setting letters last ('=' :: value.toList) (by simp),
      ofCluster_equals last, String.ofList_toList]

theorem Letters.option_adjoined (named : Letters flags letters)
    (last : setting.Short letter) {value : String} (adjoinable : Adjoinable value) :
    ofOption? (.ofString (.ofList ('-' :: (letters ++ [letter])) ++ value))
      = some (flags.map .flag ++ [.attached setting value], none) := by
  obtain ⟨nonempty, other⟩ := adjoinable
  obtain ⟨c, cs, chars⟩ := List.exists_cons_of_ne_nil (mt String.toList_eq_nil_iff.mp nonempty)
  rw [chars, List.head?_cons] at other
  rw [ofOption?_letters_setting named last (c :: cs) (by simp [chars]),
    ofCluster_value last (mt (congrArg some) other), ← chars, String.ofList_toList]

/-- A group is read into items that say what the group says, wherever it stands. -/
theorem Group.exists_items (group : Group ms words) :
    ∃ items, ReadAs words items ∧ List.Forall₂ Means items ms := by
  cases group with
  | flag flag => exact ⟨_, .option (ofOption?_flag flag), .cons (.flag flag) .nil⟩
  | @cluster flags letters named nonempty =>
    refine ⟨flags.map .flag, .option ?_, means_flags flags⟩
    rw [ofOption?_letters named [] (by simp) (by simpa using nonempty) nofun]
    simp [ofCluster]
  | @apart flags setting head value named bare =>
    exact ⟨_, .apart named.option bare,
      List.rel_append (means_flags flags) (.cons (.separate setting value) .nil)⟩
  | @equals flags setting head value named =>
    exact ⟨_, .option (named.option_equals value),
      List.rel_append (means_flags flags) (.cons (.attached setting value) .nil)⟩
  | @adjoined flags letters setting letter value named last adjoinable =>
    exact ⟨_, .option (named.option_adjoined last adjoinable),
      List.rel_append (means_flags flags) (.cons (.attached setting value) .nil)⟩

theorem Groups.exists_items (groups : Groups ms words) :
    ∃ items, ReadAs words items ∧ List.Forall₂ Means items ms := by
  induction groups with
  | nil => exact ⟨[], .nil, .nil⟩
  | cons group _ ih =>
    obtain ⟨first, read_first, means_first⟩ := group.exists_items
    obtain ⟨rest, read_rest, means_rest⟩ := ih
    exact ⟨first ++ rest, read_first.append read_rest, List.rel_append means_first means_rest⟩

theorem Ended.exists_items (ended : Ended ms words) (imageSeen : Bool) :
    ∃ items, scan imageSeen none words = items ∧ List.Forall₂ Means items ms := by
  cases ended with
  | unmarked groups =>
    obtain ⟨items, read, means⟩ := groups.exists_items
    exact ⟨items, read.scan_eq imageSeen, means⟩
  | marked groups =>
    obtain ⟨items, read, means⟩ := groups.exists_items
    exact ⟨items, read.scan_marked imageSeen, means⟩

/-- A command line is read into its image and items that say what it says. -/
theorem Spelled.exists_items (spelled : Spelled image ms words) :
    ∃ before after, ofWords words = before ++ .image image :: after ∧
      List.Forall₂ Means (before ++ after) ms := by
  cases spelled with
  | between bare groups ended =>
    obtain ⟨before, read_before, means_before⟩ := groups.exists_items
    obtain ⟨after, read_after, means_after⟩ := ended.exists_items true
    exact ⟨before, after, read_before.image_between bare read_after,
      List.rel_append means_before means_after⟩
  | behind groups =>
    obtain ⟨items, read, means⟩ := groups.exists_items
    refine ⟨items, [], read.image_behind image, ?_⟩
    rwa [List.append_nil]

theorem Spelled.images_ofWords (spelled : Spelled image ms words) :
    images (ofWords words) = [image] := by
  obtain ⟨before, after, read, means⟩ := spelled.exists_items
  have others := images_of_means means
  rw [images, List.filterMap_append, List.append_eq_nil_iff] at others
  rw [read, images, List.filterMap_append, List.filterMap_cons, others.1, others.2]
  rfl

theorem Spelled.mentions_ofWords (spelled : Spelled image ms words) :
    (ofWords words).filterMap mention? = ms := by
  obtain ⟨before, after, read, means⟩ := spelled.exists_items
  rw [read, List.filterMap_append, List.filterMap_cons_none rfl, ← List.filterMap_append]
  exact mentions_of_means means

theorem Spelled.unrefused_ofWords (spelled : Spelled image ms words) (error : UsageError) :
    .refused error ∉ ofWords words := by
  obtain ⟨before, after, read, means⟩ := spelled.exists_items
  simpa [read] using unrefused_of_means means error

/-- Words say one thing at most. -/
theorem Spelled.unique {image' : String} {ms' : List Mention} (spelled : Spelled image ms words)
    (again : Spelled image' ms' words) : image' = image ∧ ms' = ms := by
  have images_eq := again.images_ofWords.symm.trans spelled.images_ofWords
  have mentions_eq := again.mentions_ofWords.symm.trans spelled.mentions_ofWords
  exact ⟨List.singleton_inj.mp images_eq, mentions_eq⟩

/-! ## What is given -/

/-- What has been given is what a command line says. -/
structure Given.Matches (g : Given) (image : String) (ms : List Mention) : Prop where
  image_eq : g.image = some image
  image_ne : image ≠ ""
  settings : ∀ setting, g.Holds ((Mention.values setting ms).map some) setting
  flags : ∀ flag, g.Counts (ms.count (.flag flag)) flag

/-- Items reflect what their command line says. -/
theorem Spelled.reflects_iff_matches (spelled : Spelled image ms words) (g : Given) :
    g.Reflects (ofWords words) ↔ g.Matches image ms := by
  have images_eq := spelled.images_ofWords
  obtain ⟨before, after, read, means⟩ := spelled.exists_items
  have values_eq (setting : Setting) :
      values setting (ofWords words) = (Mention.values setting ms).map some := by
    rw [← values_of_means means, read]
    simp only [values, List.filterMap_append]
    rw [List.filterMap_cons_none rfl]
  have raised_eq (flag : Flag) : raised flag (ofWords words) = ms.count (.flag flag) := by
    rw [← raised_of_means means, read]
    simp [raised]
  constructor
  · intro reflects
    constructor
    case image_eq => rw [reflects.image, images_eq, List.getLast?_singleton]
    case image_ne => exact reflects.nonempty image (by simp [images_eq])
    case settings => exact fun setting => values_eq setting ▸ reflects.settings setting
    case flags => exact fun flag => raised_eq flag ▸ reflects.flags flag
  · intro said
    constructor
    case image => rw [said.image_eq, images_eq, List.getLast?_singleton]
    case nonempty => simpa [images_eq] using said.image_ne
    case settings => exact fun setting => values_eq setting ▸ said.settings setting
    case flags => exact fun flag => raised_eq flag ▸ said.flags flag

end Apfs.Arguments
