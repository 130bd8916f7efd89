import Apfs.Proofs.Arguments.Acceptance
import Apfs.Proofs.Arguments.Spelling

/-!
# Recognition of spellings

Reading accepts nothing but spellings. Where the items of a command line are complete, so that no
word is refused and no setting is left without a value, the words are a spelling of what the items
say. Together with the reading of spellings, this ties an accepted command line to what it says by
its words alone.
-/

namespace Apfs.Arguments

open Item

variable {text name : String} {flag : Flag} {flags : List Flag} {letters : List Char}
  {setting : Setting} {letter : Char} {ms : List Mention} {words : List String}

/-! ## Words by their looks -/

namespace Word

theorem bare_of_ofString (looks : ofString text = .plain) : Bare text := by
  unfold ofString at looks
  split at looks
  case h_1 | h_2 | h_3 => cases looks
  case h_4 other =>
    match chars : text.toList with
    | [] => exact .inl (by simp [chars])
    | [c] =>
      by_cases dash : c = '-'
      · exact .inr (String.toList_inj.mp (by rw [chars, dash]; rfl))
      · exact .inl (by simpa [chars] using dash)
    | c :: c' :: cs =>
      refine .inl ?_
      rw [chars, List.head?_cons]
      rintro ⟨⟩
      exact other c' cs chars

theorem eq_of_ofString_endOfOptions (looks : ofString text = .endOfOptions) : text = "--" := by
  unfold ofString at looks
  split at looks
  case h_1 chars => exact String.toList_inj.mp chars
  case h_2 | h_3 | h_4 => cases looks

/-- Two dashes and a name, and a value behind an equals sign if there is one. -/
theorem eq_of_ofString_long {value? : Option String} (looks : ofString text = .long name value?) :
    text = "--" ++ name ++ value?.elim "" ("=" ++ ·) := by
  unfold ofString at looks
  split at looks
  case h_1 | h_3 | h_4 => cases looks
  case h_2 cs _ chars =>
    obtain ⟨named, valued⟩ := Word.long.inj looks
    have taken : name.toList = cs.takeWhile (· ≠ '=') := by rw [← named, String.toList_ofList]
    have whole : cs.takeWhile (· ≠ '=') ++ cs.dropWhile (· ≠ '=') = cs :=
      List.takeWhile_append_dropWhile
    refine String.toList_inj.mp ?_
    cases rest : cs.dropWhile (· ≠ '=') with
    | nil =>
      rw [rest] at valued
      obtain rfl := valued
      rw [← taken, rest] at whole
      simp [chars, ← whole]
    | cons c value =>
      have stopped := List.head?_dropWhile_not (fun c => decide (c ≠ '=')) cs
      rw [rest] at stopped valued
      obtain rfl := valued
      have sign : c = '=' := by simpa using stopped
      rw [← taken, rest, sign] at whole
      simp [chars, ← whole]

theorem eq_of_ofString_cluster (looks : ofString text = .cluster letters) :
    text = .ofList ('-' :: letters) ∧ letters ≠ [] := by
  unfold ofString at looks
  split at looks
  case h_1 | h_2 | h_4 => cases looks
  case h_3 c cs _ _ chars =>
    obtain rfl := Word.cluster.inj looks
    exact ⟨by rw [← chars, String.ofList_toList], List.cons_ne_nil c cs⟩

end Word

/-! ## Options by their names and letters -/

namespace Opt

variable {settings : Option Setting} {others : Option Flag}

theorem orElse_eq_setting :
    (settings.map Opt.setting <|> others.map Opt.flag) = some (.setting setting)
      ↔ settings = some setting := by
  cases settings <;> cases others <;> simp

theorem orElse_eq_flag :
    (settings.map Opt.setting <|> others.map Opt.flag) = some (.flag flag)
      ↔ settings = none ∧ others = some flag := by
  cases settings <;> cases others <;> simp

theorem name_of_ofName?_setting (found : ofName? name = some (.setting setting)) :
    setting.name = name := by
  simpa using List.find?_some (orElse_eq_setting.mp found)

theorem name_of_ofName?_flag (found : ofName? name = some (.flag flag)) : flag.name = name := by
  simpa using List.find?_some (orElse_eq_flag.mp found).2

theorem short_of_ofLetter?_setting (found : ofLetter? letter = some (.setting setting)) :
    setting.Short letter := by
  have lettered : setting.letter? = some letter := by
    simpa using List.find?_some (orElse_eq_setting.mp found)
  cases setting <;> cases lettered <;> constructor

theorem short_of_ofLetter?_flag (found : ofLetter? letter = some (.flag flag)) :
    flag.Short letter := by
  have lettered : flag.letter? = some letter := by
    simpa using List.find?_some (orElse_eq_flag.mp found).2
  cases flag <;> cases lettered <;> constructor

end Opt

/-! ## Options -/

namespace Item

/-- An item that has all that belongs to it. -/
def Complete : Item → Prop
  | .separate _ none | .refused _ => False
  | .image _ | .attached .. | .separate _ (some _) | .flag _ => True

theorem not_complete_refused (error : UsageError) : ¬ (refused error).Complete := id

theorem not_complete_waiting (setting : Setting) : ¬ (separate setting none).Complete := id

end Item

/-- A word that is an option, and the setting that waits for a value behind it. -/
inductive IsOption : String → Option Setting → Prop
  | group {text : String} {ms : List Mention} : Group ms [text] → IsOption text none
  | head {flags : List Flag} {setting : Setting} {text : String} :
      Head flags setting text → IsOption text (some setting)

variable {next : Option Setting}

theorem isOption_of_ofLong {value? : Option String}
    (complete : ∀ item ∈ (ofLong name value?).1, item.Complete) :
    IsOption ("--" ++ name ++ value?.elim "" ("=" ++ ·)) (ofLong name value?).2 := by
  revert complete
  fun_cases ofLong name value? with
  | case1 value? unknown =>
    intro complete
    exact absurd (complete _ (.head _)) (not_complete_refused _)
  | case2 f found =>
    intro _
    rw [Option.elim_none, String.append_empty, ← Opt.name_of_ofName?_flag found, ← f.long_eq]
    exact .group (.flag f)
  | case3 f value found =>
    intro complete
    exact absurd (complete _ (.head _)) (not_complete_refused _)
  | case4 s value found =>
    intro _
    rw [Option.elim_some, ← Opt.name_of_ofName?_setting found, ← s.long_eq, ← String.append_assoc]
    exact .group (.equals value (.long s))
  | case5 s found =>
    intro _
    rw [Option.elim_none, String.append_empty, ← Opt.name_of_ofName?_setting found, ← s.long_eq]
    exact .head (.long s)

/-- The letters of a cluster from left to right, of which those of flags have been read. -/
theorem Letters.isOption (named : Letters flags letters) (cs : List Char)
    (nonempty : letters ++ cs ≠ []) (complete : ∀ item ∈ (ofCluster cs).1, item.Complete) :
    IsOption (.ofList ('-' :: (letters ++ cs))) (ofCluster cs).2 := by
  fun_induction ofCluster cs generalizing flags letters with
  | case1 =>
    rw [List.append_nil] at nonempty ⊢
    exact .group (.cluster named nonempty)
  | case2 c cs unknown => exact absurd (complete _ (.head _)) (not_complete_refused _)
  | case3 c cs f found ih =>
    have longer : Letters (flags ++ [f]) (letters ++ [c]) :=
      List.rel_append named (.cons (Opt.short_of_ofLetter?_flag found) .nil)
    have rest := ih longer (by simp) fun item member => complete item (.tail _ member)
    rwa [List.append_assoc] at rest
  | case4 c s found => exact .head (.short named (Opt.short_of_ofLetter?_setting found))
  | case5 c s found value =>
    have group := Group.equals (.ofList value)
      (.short named (Opt.short_of_ofLetter?_setting found))
    have joined : String.ofList ('-' :: (letters ++ [c])) ++ "=" ++ .ofList value
        = .ofList ('-' :: (letters ++ c :: '=' :: value)) := String.toList_inj.mp (by simp)
    exact .group (joined ▸ group)
  | case6 c s found value nonempty_value other =>
    have adjoinable : Adjoinable (.ofList value) := by
      refine ⟨fun empty => nonempty_value (by simpa using empty), fun first => ?_⟩
      obtain ⟨rest, starts⟩ := List.head?_eq_some_iff.mp first
      exact other rest (by simpa using starts)
    have group := Group.adjoined named (Opt.short_of_ofLetter?_setting found) adjoinable
    have joined : String.ofList ('-' :: (letters ++ [c])) ++ .ofList value
        = .ofList ('-' :: (letters ++ c :: value)) := String.toList_inj.mp (by simp)
    exact .group (joined ▸ group)

/-! ## Whole command lines -/

/-- Words that say something behind an image, if `imageSeen`, or else with an image or without. -/
inductive Recognized : Bool → List String → Prop
  | ended {imageSeen : Bool} {ms : List Mention} {words : List String} :
      Ended ms words → Recognized imageSeen words
  | spelled {image : String} {ms : List Mention} {words : List String} :
      Spelled image ms words → Recognized false words

/-- Words that say something once the setting that waits has taken its value from them. -/
def Continues (imageSeen : Bool) : Option Setting → List String → Prop
  | none, words => Recognized imageSeen words
  | some _, words => ∃ value words', words = value :: words' ∧ Bare value ∧
      Recognized imageSeen words'

variable {imageSeen : Bool} {words' : List String}

theorem Group.ended {ms' : List Mention} (group : Group ms words) (rest : Ended ms' words') :
    Ended (ms ++ ms') (words ++ words') := by
  cases rest with
  | unmarked groups => exact .unmarked (.cons group groups)
  | marked groups =>
    rw [← List.append_assoc]
    exact .marked (.cons group groups)

theorem Group.recognized (group : Group ms words) (rest : Recognized imageSeen words') :
    Recognized imageSeen (words ++ words') := by
  cases rest with
  | ended rest => exact .ended (group.ended rest)
  | spelled rest =>
    cases rest with
    | between bare groups ended =>
      rw [← List.append_assoc]
      exact .spelled (.between bare (.cons group groups) ended)
    | behind groups =>
      rw [← List.append_assoc]
      exact .spelled (.behind (.cons group groups))

theorem IsOption.recognized (option : IsOption text next) (rest : Continues imageSeen next words) :
    Recognized imageSeen (text :: words) := by
  cases option with
  | group group => exact group.recognized rest
  | head head =>
    obtain ⟨value, words', rfl, bare, rest⟩ := rest
    exact (Group.apart head bare).recognized rest

theorem eq_none_of_ofWaiting {waiting : Option Setting}
    (complete : ∀ item ∈ ofWaiting waiting, item.Complete) : waiting = none := by
  cases waiting with
  | none => rfl
  | some setting => exact absurd (complete _ (.head _)) (not_complete_waiting setting)

/-- Behind the end of the options, there is one image at most. -/
theorem recognized_of_ofPlain (complete : ∀ item ∈ ofPlain imageSeen words, item.Complete) :
    Recognized imageSeen ("--" :: words) := by
  match imageSeen, words with
  | _, [] => exact .ended (.marked .nil)
  | true, _ :: _ => exact absurd (complete _ (.head _)) (not_complete_refused _)
  | false, [_] => exact .spelled (.behind .nil)
  | false, _ :: _ :: _ => exact absurd (complete _ (.tail _ (.head _))) (not_complete_refused _)

/-- Reading keeps to spellings as long as every item is complete. -/
theorem continues_of_scan {waiting : Option Setting}
    (complete : ∀ item ∈ scan imageSeen waiting words, item.Complete) :
    Continues imageSeen waiting words := by
  fun_induction scan imageSeen waiting words with
  | case1 imageSeen waiting =>
    obtain rfl := eq_none_of_ofWaiting complete
    exact .ended (.unmarked .nil)
  | case2 imageSeen text texts setting looks ih =>
    have rest := ih fun item member => complete item (.tail _ member)
    exact ⟨text, texts, rfl, Word.bare_of_ofString looks, rest⟩
  | case3 imageSeen text texts looks ih =>
    have rest := ih fun item member => complete item (List.mem_append_right _ member)
    cases imageSeen with
    | true => exact absurd (complete _ (.head _)) (not_complete_refused _)
    | false =>
      cases rest with
      | ended rest => exact .spelled (.between (Word.bare_of_ofString looks) .nil rest)
  | case4 imageSeen waiting text texts looks =>
    rw [List.forall_mem_append] at complete
    obtain rfl := eq_none_of_ofWaiting complete.1
    obtain rfl := Word.eq_of_ofString_endOfOptions looks
    exact recognized_of_ofPlain complete.2
  | case5 imageSeen waiting text texts name value? looks items next read ih =>
    rw [List.forall_mem_append, List.forall_mem_append] at complete
    obtain ⟨⟨waits, option⟩, rest⟩ := complete
    obtain rfl := eq_none_of_ofWaiting waits
    obtain ⟨rfl, rfl⟩ := Prod.mk.inj read.symm
    obtain rfl := Word.eq_of_ofString_long looks
    exact (isOption_of_ofLong option).recognized (ih rest)
  | case6 imageSeen waiting text texts letters looks items next read ih =>
    rw [List.forall_mem_append, List.forall_mem_append] at complete
    obtain ⟨⟨waits, option⟩, rest⟩ := complete
    obtain rfl := eq_none_of_ofWaiting waits
    obtain ⟨rfl, nonempty⟩ := Word.eq_of_ofString_cluster looks
    have whole := Letters.isOption .nil letters nonempty (read ▸ option)
    rw [read] at whole
    exact whole.recognized (ih rest)

theorem complete_of_apply {g g' : Given} {item : Item} (applied : g.apply item = .ok g') :
    item.Complete := by
  match item with
  | .image _ | .attached .. | .separate _ (some _) | .flag _ => trivial
  | .separate _ none | .refused _ => cases applied

/-- Accepted words say something, with an image or without. -/
theorem recognized_of_accept {g : Given} (accepted : Given.accept {} (ofWords words) = .ok g) :
    Recognized false words :=
  continues_of_scan (Given.forall_of_accept complete_of_apply accepted)

end Apfs.Arguments
