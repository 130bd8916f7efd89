import Apfs.Arguments.Request
import Apfs.Proofs.BlockSize

/-!
# Accepted command lines

What has been given so far reflects the items that have been accepted: each field was read from
the one value that its option has been given, if it has been given any. One item after the other
keeps this up, so it holds of all that a command line gives, and the request is made of that.
-/

namespace Apfs

namespace Arguments

namespace Item

/-- The value that an item gives to a setting. The value itself may be missing. -/
def value? (setting : Setting) : Item → Option (Option String)
  | attached s text => if s = setting then some (some text) else none
  | separate s value? => if s = setting then some value? else none
  | image _ | flag _ | refused _ => none

def image? : Item → Option String
  | image text => some text
  | attached .. | separate .. | flag _ | refused _ => none

/-- The values that items give to a setting, one for each time that it is given. -/
def values (setting : Setting) (items : List Item) : List (Option String) :=
  items.filterMap (value? setting)

/-- How often a flag is given. -/
def raised (f : Flag) (items : List Item) : Nat := items.count (flag f)

def images (items : List Item) : List String := items.filterMap image?

variable {items : List Item} {item : Item}

theorem values_concat (setting : Setting) :
    values setting (items ++ [item]) = values setting items ++ (item.value? setting).toList := by
  cases h : item.value? setting <;> simp [values, h]

theorem images_concat : images (items ++ [item]) = images items ++ item.image?.toList := by
  cases h : item.image? <;> simp [images, h]

theorem raised_concat (f : Flag) :
    raised f (items ++ [item]) = raised f items + if item = flag f then 1 else 0 := by
  simp [raised, List.count_singleton]

end Item

/-- A field as it is read from the values that its option has been given, of which there is at most
one. -/
inductive ReadFrom {α β : Type} (read : β → Except UsageError α) : List β → Option α → Prop
  | nothing : ReadFrom read [] none
  | once {value : β} {a : α} : read value = .ok a → ReadFrom read [value] (some a)

/-- Reads a value that may be missing. -/
def present {α : Type} (read : String → Except UsageError α) : Option String → Except UsageError α
  | some text => read text
  | none => .error .missingValue

theorem present_eq_ok {α : Type} {read : String → Except UsageError α} {value? : Option String}
    {a : α} : present read value? = .ok a ↔ ∃ text, value? = some text ∧ read text = .ok a := by
  cases value? <;> simp [present]

namespace ReadFrom

variable {α β : Type} {read : β → Except UsageError α} {values : List β} {field : Option α}

theorem length_eq (h : ReadFrom read values field) : values.length = field.isSome.toNat := by
  cases h <;> rfl

theorem eq_none_iff (h : ReadFrom read values field) : field = none ↔ values = [] := by
  cases h <;> simp

theorem eq_some {a : α} (h : ReadFrom read values (some a)) :
    ∃ value, read value = .ok a ∧ values = [value] := by
  cases h with
  | once accepted => exact ⟨_, accepted, rfl⟩

theorem concat (h : ReadFrom read values field) (first : field.isSome = false)
    {value : β} {a : α} (accepted : read value = .ok a) :
    ReadFrom read (values ++ [value]) (some a) := by
  cases h with
  | nothing => exact .once accepted
  | once => cases first

/-- Values that are all there are read as they are. -/
theorem of_present {read : String → Except UsageError α} {texts : List String}
    (h : ReadFrom (present read) (texts.map some) field) : ReadFrom read texts field := by
  match texts, h with
  | [], .nothing => exact .nothing
  | [_], .once accepted => exact .once accepted

end ReadFrom

namespace Given

open Item

variable {g g' : Given} {text : String} {setting other : Setting} {flag : Flag} {item : Item}

theorem once_eq_ok {given : Bool} (accepted : once given = .ok ()) : given = false := by
  cases given with
  | false => rfl
  | true => cases accepted

/-- What giving a value to a setting changes. -/
inductive Sets (g : Given) (text : String) : Setting → Given → Prop
  | volumeOffset {n : UInt64} : g.volumeOffset.isSome = false → readWord text = .ok n →
      Sets g text .volumeOffset { g with volumeOffset := some n }
  | block {n : UInt64} : g.block.isSome = false → readWord text = .ok n →
      Sets g text .block { g with block := some n }
  | nodeOffset {n : UInt64} : g.nodeOffset.isSome = false → readWord text = .ok n →
      Sets g text .nodeOffset { g with nodeOffset := some n }
  | blockSize {n : UInt32} : g.blockSize.isSome = false → readBlockSize text = .ok n →
      Sets g text .blockSize { g with blockSize := some n }

theorem sets_of_set (accepted : g.set text setting = .ok g') : Sets g text setting g' := by
  cases setting with
  | volumeOffset | block | nodeOffset | blockSize =>
    obtain ⟨⟨⟩, first, rest⟩ := bind_eq_ok.mp accepted
    obtain ⟨n, read, given⟩ := bind_eq_ok.mp rest
    obtain rfl := Except.ok.inj given
    constructor
    · exact once_eq_ok first
    · exact read

/-- What raising a flag changes. -/
inductive Raises (g : Given) : Flag → Given → Prop
  | verifyChecksum : g.verifyChecksum = false →
      Raises g .verifyChecksum { g with verifyChecksum := true }
  | hexdump : g.hexdump = false → Raises g .hexdump { g with hexdump := true }
  | verbose :
      Raises g .verbose { g with verbosity := if g.verbosity = 255 then 255 else g.verbosity + 1 }

theorem raises_of_raise (accepted : g.raise flag = .ok g') : Raises g flag g' := by
  cases flag with
  | help => cases accepted
  | verbose =>
    obtain rfl := Except.ok.inj accepted
    exact .verbose
  | verifyChecksum | hexdump =>
    obtain ⟨⟨⟩, first, given⟩ := bind_eq_ok.mp accepted
    obtain rfl := Except.ok.inj given
    constructor
    exact once_eq_ok first

/-- What has been given to a setting is read from its values. -/
def Holds (g : Given) (values : List (Option String)) : Setting → Prop
  | .volumeOffset => ReadFrom (present readWord) values g.volumeOffset
  | .block => ReadFrom (present readWord) values g.block
  | .nodeOffset => ReadFrom (present readWord) values g.nodeOffset
  | .blockSize => ReadFrom (present readBlockSize) values g.blockSize

/-- What has been given tells how often a flag has been raised. -/
def Counts (g : Given) (times : Nat) : Flag → Prop
  | .verifyChecksum => times = g.verifyChecksum.toNat
  | .hexdump => times = g.hexdump.toNat
  | .verbose => g.verbosity.toNat = min times 255
  | .help => times = 0

section Steps

variable {values : List (Option String)} {times : Nat}

theorem Holds.length_le (holds : g.Holds values setting) : values.length ≤ 1 := by
  cases setting with
  | volumeOffset | block | nodeOffset | blockSize =>
    rw [ReadFrom.length_eq holds]
    exact Bool.toNat_le _

theorem Holds.set (holds : g.Holds values setting) (sets : Sets g text setting g') :
    g'.Holds (values ++ [some text]) setting := by
  cases sets with
  | volumeOffset first read | block first read | nodeOffset first read | blockSize first read =>
    exact ReadFrom.concat holds first read

theorem Holds.set_of_ne (holds : g.Holds values other) (sets : Sets g text setting g')
    (different : setting ≠ other) : g'.Holds values other := by
  cases sets with
  | volumeOffset | block | nodeOffset | blockSize =>
    cases other <;> simp_all [Holds]

theorem Holds.raise (holds : g.Holds values setting) (raises : Raises g flag g') :
    g'.Holds values setting := by
  cases raises with
  | verifyChecksum | hexdump | verbose => cases setting <;> exact holds

theorem Counts.set (counts : g.Counts times flag) (sets : Sets g text setting g') :
    g'.Counts times flag := by
  cases sets with
  | volumeOffset | block | nodeOffset | blockSize => cases flag <;> exact counts

theorem Counts.le_one (counts : g.Counts times flag) (single : flag ≠ .verbose) : times ≤ 1 := by
  cases flag with
  | verifyChecksum =>
    obtain rfl : times = g.verifyChecksum.toNat := counts
    exact Bool.toNat_le _
  | hexdump =>
    obtain rfl : times = g.hexdump.toNat := counts
    exact Bool.toNat_le _
  | verbose => exact absurd rfl single
  | help =>
    obtain rfl : times = 0 := counts
    exact Nat.zero_le 1

theorem toNat_verbosity_succ (v : UInt8) :
    (if v = 255 then 255 else v + 1).toNat = min (v.toNat + 1) 255 := by
  have bound := v.toNat_lt
  split
  case isTrue top => simp [top]
  case isFalse below =>
    have : v.toNat ≠ 255 := fun top => below (UInt8.toNat_inj.mp top)
    show (v.toNat + 1) % 2 ^ 8 = min (v.toNat + 1) 255
    omega

theorem Counts.raise (counts : g.Counts times flag) (raises : Raises g flag g') :
    g'.Counts (times + 1) flag := by
  cases raises with
  | verifyChecksum first | hexdump first => simp_all [Counts]
  | verbose =>
    show (if g.verbosity = 255 then 255 else g.verbosity + 1).toNat = min (times + 1) 255
    have before : g.verbosity.toNat = min times 255 := counts
    rw [toNat_verbosity_succ]
    omega

theorem Counts.raise_of_ne {f : Flag} (counts : g.Counts times f) (raises : Raises g flag g')
    (different : flag ≠ f) : g'.Counts times f := by
  cases raises with
  | verifyChecksum | hexdump | verbose =>
    cases f <;> simp_all [Counts]

end Steps

/-- What has been given is what the items say. -/
structure Reflects (g : Given) (items : List Item) : Prop where
  image : g.image = (images items).getLast?
  nonempty : ∀ text ∈ images items, text ≠ ""
  settings : ∀ setting, g.Holds (values setting items) setting
  flags : ∀ flag, g.Counts (raised flag items) flag

variable {items : List Item}

theorem reflects_nil : Reflects {} [] where
  image := rfl
  nonempty := nofun
  settings setting := by cases setting <;> exact .nothing
  flags flag := by cases flag <;> rfl

theorem Reflects.setImage (reflects : g.Reflects items) (nonempty : text ≠ "") :
    Reflects { g with image := some text } (items ++ [.image text]) where
  image := by simp [images_concat, image?]
  nonempty := by
    simpa [images_concat, image?, or_imp, forall_and] using ⟨reflects.nonempty, nonempty⟩
  settings setting := by
    have same : values setting (items ++ [.image text]) = values setting items := by
      simp [values_concat, value?]
    have holds := reflects.settings setting
    rw [same]
    cases setting <;> exact holds
  flags flag := by
    have same : raised flag (items ++ [.image text]) = raised flag items := by
      simp [raised_concat]
    have counts := reflects.flags flag
    rw [same]
    cases flag <;> exact counts

theorem Reflects.set (reflects : g.Reflects items) (accepted : g.set text setting = .ok g')
    (said : item = .attached setting text ∨ item = .separate setting (some text)) :
    g'.Reflects (items ++ [item]) := by
  have sets := sets_of_set accepted
  obtain ⟨value, image, flag⟩ :
      (∀ other, item.value? other = if setting = other then some (some text) else none) ∧
        item.image? = none ∧ ∀ f, item ≠ .flag f := by
    obtain rfl | rfl := said
    · simp [value?, image?]
    · simp [value?, image?]
  constructor
  case image =>
    have same : g'.image = g.image := by cases sets <;> rfl
    simp [images_concat, image, same, reflects.image]
  case nonempty => simpa [images_concat, image] using reflects.nonempty
  case settings =>
    intro other
    rw [values_concat, value]
    by_cases same : setting = other
    · subst same
      simpa using (reflects.settings setting).set sets
    · simpa [same] using (reflects.settings other).set_of_ne sets same
  case flags =>
    intro f
    simpa [raised_concat, flag f] using (reflects.flags f).set sets

theorem Reflects.raise (reflects : g.Reflects items) (accepted : g.raise flag = .ok g') :
    g'.Reflects (items ++ [.flag flag]) := by
  have raises := raises_of_raise accepted
  constructor
  case image =>
    have same : g'.image = g.image := by cases raises <;> rfl
    simp [images_concat, image?, same, reflects.image]
  case nonempty => simpa [images_concat, image?] using reflects.nonempty
  case settings =>
    intro setting
    simpa [values_concat, value?] using (reflects.settings setting).raise raises
  case flags =>
    intro f
    rw [raised_concat]
    by_cases same : flag = f
    · subst same
      simpa using (reflects.flags flag).raise raises
    · simpa [same] using (reflects.flags f).raise_of_ne raises same

theorem Reflects.apply (reflects : g.Reflects items) (accepted : g.apply item = .ok g') :
    g'.Reflects (items ++ [item]) := by
  cases item with
  | image text =>
    by_cases empty : text = ""
    · rw [Given.apply, if_pos empty] at accepted
      cases accepted
    · rw [Given.apply, if_neg empty] at accepted
      obtain rfl := Except.ok.inj accepted
      exact reflects.setImage empty
  | attached setting text => exact reflects.set accepted (.inl rfl)
  | separate setting value? =>
    cases value? with
    | none => cases accepted
    | some text => exact reflects.set accepted (.inr rfl)
  | flag flag => exact reflects.raise accepted
  | refused error => cases accepted

/-- A relation to the items seen that each item keeps up holds of a whole command line. -/
theorem accept_induction {P : List Item → Given → Prop}
    (step : ∀ {seen : List Item} {g g' : Given} {item : Item}, P seen g → g.apply item = .ok g' →
      P (seen ++ [item]) g')
    {seen : List Item} (before : P seen g) (accepted : g.accept items = .ok g') :
    P (seen ++ items) g' := by
  induction items generalizing seen g with
  | nil =>
    obtain rfl := Except.ok.inj accepted
    simpa using before
  | cons item items ih =>
    unfold accept at accepted
    split at accepted
    case h_1 => cases accepted
    case h_2 =>
      obtain ⟨next, applied, rest⟩ := bind_eq_ok.mp accepted
      simpa using ih (step before applied) rest

theorem reflects_of_accept (accepted : Given.accept {} items = .ok g) : g.Reflects items :=
  accept_induction (P := fun seen g => g.Reflects seen) Reflects.apply reflects_nil accepted

theorem readBlockSize_valid {n : UInt32} (accepted : readBlockSize text = .ok n) :
    BlockSize.Valid n := by
  unfold readBlockSize at accepted
  split at accepted
  case h_1 m read =>
    obtain rfl := Except.ok.inj accepted
    exact BlockSize.read_valid read
  case h_2 => cases accepted

theorem Reflects.blockSize_valid (reflects : g.Reflects items) :
    BlockSize.Valid (g.blockSize.getD BlockSize.standard) := by
  have field : ReadFrom (present readBlockSize) (values .blockSize items) g.blockSize :=
    reflects.settings .blockSize
  cases given : g.blockSize with
  | none => exact BlockSize.standard_valid
  | some n =>
    rw [given] at field
    obtain ⟨value, accepted, -⟩ := field.eq_some
    obtain ⟨text, -, read⟩ := present_eq_ok.mp accepted
    exact readBlockSize_valid read

/-- The requests that can be made of what has been given. -/
theorem request_eq_ok {request : Request} (accepted : g.request = .ok request) :
    ∃ image, g.image = some image ∧
      ((∃ number, g.block = some number ∧ g.nodeOffset = none ∧
          request = g.requestAt image (.block (g.volumeOffset.getD 0) number)) ∨
        (∃ offset, g.nodeOffset = some offset ∧ g.block = none ∧ g.volumeOffset = none ∧
          request = g.requestAt image (.absolute offset))) := by
  unfold Given.request at accepted
  by_cases nothing : g = {}
  · rw [if_pos nothing] at accepted
    cases accepted
  by_cases conflict : g.nodeOffset.isSome ∧ (g.block.isSome ∨ g.volumeOffset.isSome)
  · rw [if_neg nothing, if_pos conflict] at accepted
    cases accepted
  rw [if_neg nothing, if_neg conflict] at accepted
  split at accepted
  case h_1 image number given block nodeOffset =>
    obtain rfl := Except.ok.inj accepted
    exact ⟨image, given, .inl ⟨number, block, nodeOffset, rfl⟩⟩
  case h_2 image offset given block nodeOffset =>
    obtain rfl := Except.ok.inj accepted
    have volumeOffset : g.volumeOffset = none := by
      simpa [nodeOffset, block] using conflict
    exact ⟨image, given, .inr ⟨offset, nodeOffset, block, volumeOffset, rfl⟩⟩
  case h_3 => cases accepted

end Given

/-- Every accepted command line asks for blocks of a valid size. -/
theorem blockSize_valid {words : List String} {request : Request}
    (accepted : parse words = .ok request) : BlockSize.Valid request.blockSize := by
  obtain ⟨g, given, judged⟩ := bind_eq_ok.mp accepted
  have usual := (Given.reflects_of_accept given).blockSize_valid
  obtain ⟨image, -, ⟨number, -, -, rfl⟩ | ⟨offset, -, -, -, rfl⟩⟩ := Given.request_eq_ok judged
  · exact usual
  · exact usual

end Arguments

end Apfs
