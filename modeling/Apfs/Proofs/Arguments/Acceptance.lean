import Apfs.Proofs.Arguments.Accepted

/-!
# When items are accepted

What the items of an accepted command line give reflects them. The converse holds as well: if
anything reflects the items, and none of them is refused, they are accepted and give just that.
So the order in which things are given plays no role.
-/

namespace Apfs.Arguments

namespace ReadFrom

variable {α β : Type} {read : β → Except UsageError α} {values : List β} {value : β}
  {field other : Option α}

theorem exists_read (h : ReadFrom read [value] field) : ∃ a, read value = .ok a := by
  cases h with
  | once accepted => exact ⟨_, accepted⟩

theorem unique (h : ReadFrom read values field) (again : ReadFrom read values other) :
    field = other := by
  cases h with
  | nothing => exact (again.eq_none_iff.mpr rfl).symm
  | once accepted =>
    cases again with
    | once accepted' => exact congrArg some (Except.ok.inj (accepted.symm.trans accepted'))

/-- A value that a field is read from stands alone. -/
theorem of_append_cons {before after : List β}
    (h : ReadFrom read (before ++ value :: after) field) :
    before = [] ∧ ReadFrom read [value] field := by
  have single := h.length_eq
  rw [List.length_append, List.length_cons] at single
  have bound := Bool.toNat_le field.isSome
  obtain rfl : before = [] := List.length_eq_zero_iff.mp (by omega)
  obtain rfl : after = [] := List.length_eq_zero_iff.mp (by omega)
  exact ⟨rfl, h⟩

end ReadFrom

namespace Given

open Item

variable {g g' : Given} {text : String} {setting : Setting} {flag : Flag} {item : Item}
  {seen items rest : List Item}

/-- Items determine what has been given. -/
theorem Reflects.unique (reflects : g.Reflects items) (again : g'.Reflects items) : g = g' := by
  have image : g.image = g'.image := reflects.image.trans again.image.symm
  have volumeOffset : g.volumeOffset = g'.volumeOffset :=
    ReadFrom.unique (reflects.settings .volumeOffset) (again.settings .volumeOffset)
  have block : g.block = g'.block :=
    ReadFrom.unique (reflects.settings .block) (again.settings .block)
  have nodeOffset : g.nodeOffset = g'.nodeOffset :=
    ReadFrom.unique (reflects.settings .nodeOffset) (again.settings .nodeOffset)
  have blockSize : g.blockSize = g'.blockSize :=
    ReadFrom.unique (reflects.settings .blockSize) (again.settings .blockSize)
  have toNat_injective : ∀ b b' : Bool, b.toNat = b'.toNat → b = b' := by decide
  have verifyChecksum : g.verifyChecksum = g'.verifyChecksum :=
    toNat_injective _ _ ((reflects.flags .verifyChecksum).symm.trans (again.flags .verifyChecksum))
  have hexdump : g.hexdump = g'.hexdump :=
    toNat_injective _ _ ((reflects.flags .hexdump).symm.trans (again.flags .hexdump))
  have verbosity : g.verbosity = g'.verbosity :=
    UInt8.toNat_inj.mp ((reflects.flags .verbose).trans (again.flags .verbose).symm)
  cases g
  cases g'
  simp_all

theorem Holds.of_append_cons {before after : List (Option String)} {value : Option String}
    (holds : g.Holds (before ++ value :: after) setting) :
    before = [] ∧ ∃ text, value = some text ∧ g.Holds [some text] setting := by
  cases setting with
  | volumeOffset | block | nodeOffset | blockSize =>
    obtain ⟨first, alone⟩ := ReadFrom.of_append_cons holds
    obtain ⟨a, read⟩ := alone.exists_read
    obtain ⟨text, rfl, -⟩ := present_eq_ok.mp read
    exact ⟨first, text, rfl, alone⟩

theorem once_false : once false = .ok () := rfl

/-- A setting without a value takes any value that something can be read from. -/
theorem exists_set (unset : g.Holds [] setting) (readable : g'.Holds [some text] setting) :
    ∃ next, g.set text setting = .ok next := by
  cases setting with
  | volumeOffset | block | nodeOffset | blockSize =>
    have none := (ReadFrom.eq_none_iff unset).mpr rfl
    obtain ⟨n, read⟩ := ReadFrom.exists_read readable
    simp only [present] at read
    simp only [set, none, Option.isSome_none, once_false, read]
    exact ⟨_, rfl⟩

/-- A flag that is not up can be raised, and a flag that counts can be raised again. -/
theorem exists_raise (lowered : flag ≠ .verbose → g.Counts 0 flag) (known : flag ≠ .help) :
    ∃ next, g.raise flag = .ok next := by
  cases flag with
  | help => exact absurd rfl known
  | verbose => exact ⟨_, rfl⟩
  | verifyChecksum | hexdump =>
    have unset := Bool.toNat_eq_zero.mp (lowered nofun).symm
    simp only [raise, unset, once_false]
    exact ⟨_, rfl⟩

section Steps

/-! Where `whole` reflects all the items, each of them is accepted behind those before it. -/

variable {whole : Given}

theorem Reflects.exists_set (reflects : g.Reflects seen)
    (all : whole.Reflects (seen ++ item :: rest)) {value : Option String}
    (said : item.value? setting = some value) :
    ∃ text, value = some text ∧ ∃ next, g.set text setting = .ok next := by
  have values : values setting (seen ++ item :: rest)
      = values setting seen ++ value :: values setting rest := by
    simp [Item.values, said]
  obtain ⟨first, text, given, readable⟩ := Holds.of_append_cons (values ▸ all.settings setting)
  exact ⟨text, given, Given.exists_set (first ▸ reflects.settings setting) readable⟩

theorem Reflects.exists_raise (reflects : g.Reflects seen)
    (all : whole.Reflects (seen ++ .flag flag :: rest)) : ∃ next, g.raise flag = .ok next := by
  have times : raised flag (seen ++ .flag flag :: rest)
      = raised flag seen + (raised flag rest + 1) := by
    simp [raised]
  have counts := all.flags flag
  rw [times] at counts
  refine Given.exists_raise (fun single => ?_) ?_
  · have once := counts.le_one single
    have lowered : raised flag seen = 0 := by omega
    exact lowered ▸ reflects.flags flag
  · rintro rfl
    have never : raised .help seen + (raised .help rest + 1) = 0 := counts
    omega

theorem Reflects.exists_apply (reflects : g.Reflects seen)
    (all : whole.Reflects (seen ++ item :: rest)) (unrefused : ∀ error, item ≠ .refused error) :
    ∃ next, g.apply item = .ok next := by
  cases item with
  | image text =>
    have nonempty : text ≠ "" := all.nonempty text (by simp [images, image?])
    exact ⟨_, if_neg nonempty⟩
  | attached setting text =>
    obtain ⟨text, ⟨⟩, accepted⟩ := reflects.exists_set all (if_pos rfl)
    exact accepted
  | separate setting value? =>
    obtain ⟨text, rfl, accepted⟩ := reflects.exists_set all (if_pos rfl)
    exact accepted
  | flag flag => exact reflects.exists_raise all
  | refused error => exact absurd rfl (unrefused error)

/-- Where no item is refused, they are applied one by one. -/
theorem accept_cons (unrefused : ∀ error, .refused error ∉ items) :
    g.accept (item :: items) = g.apply item >>= (·.accept items) := by
  rw [accept.eq_def]
  dsimp only
  split
  case h_1 error rest _ => exact absurd List.mem_cons_self (unrefused error)
  case h_2 => rfl

theorem Reflects.exists_accept (reflects : g.Reflects seen) (all : whole.Reflects (seen ++ items))
    (unrefused : ∀ error, .refused error ∉ items) : ∃ last, g.accept items = .ok last := by
  induction items generalizing seen g with
  | nil => exact ⟨g, rfl⟩
  | cons item items ih =>
    have unrefused_rest (error : UsageError) : .refused error ∉ items := fun member =>
      unrefused error (List.mem_cons_of_mem item member)
    have unrefused_item (error : UsageError) : item ≠ .refused error := by
      rintro rfl
      exact unrefused error List.mem_cons_self
    obtain ⟨next, applied⟩ := reflects.exists_apply all unrefused_item
    obtain ⟨last, accepted⟩ :=
      ih (reflects.apply applied) (by simpa using all) unrefused_rest
    exact ⟨last, by rw [accept_cons unrefused_rest, applied]; exact accepted⟩

end Steps

/-- What holds of each item that can be applied holds of all items that are accepted. -/
theorem forall_of_accept {P : Item → Prop}
    (each : ∀ {g g' : Given} {item : Item}, g.apply item = .ok g' → P item)
    (accepted : Given.accept {} items = .ok g) : ∀ item ∈ items, P item := by
  show ∀ item ∈ [] ++ items, P item
  refine accept_induction (P := fun seen _ => ∀ item ∈ seen, P item) ?_ nofun accepted
  intro seen g g' item before applied
  rw [List.forall_mem_append, List.forall_mem_singleton]
  exact ⟨before, each applied⟩

theorem unrefused_of_accept (accepted : Given.accept {} items = .ok g) (error : UsageError) :
    .refused error ∉ items := by
  have other : ∀ item ∈ items, item ≠ .refused error := by
    refine forall_of_accept ?_ accepted
    rintro g g' item applied rfl
    cases applied
  exact fun member => other _ member rfl

/-- Items are accepted exactly if something reflects them and none of them is refused, and what
reflects them is what they give. -/
theorem accept_eq_ok_iff :
    Given.accept {} items = .ok g ↔ g.Reflects items ∧ ∀ error, .refused error ∉ items := by
  constructor
  · intro accepted
    exact ⟨reflects_of_accept accepted, unrefused_of_accept accepted⟩
  · rintro ⟨reflects, unrefused⟩
    obtain ⟨last, accepted⟩ := reflects_nil.exists_accept reflects unrefused
    obtain rfl := reflects.unique (reflects_of_accept accepted)
    exact accepted

end Given

end Apfs.Arguments
