import Mathlib.Data.List.Induction
import Stun.Tool.Arguments

/-!
# The command lines that are read

A command line is read exactly when it is some arguments in a row, at most one of which is a text.
An option takes the next word for its value whatever that word is, so the arguments of a command
line are found from the left in one way only. What a command line says depends on the arguments of
each kind alone and not on how those of different kinds are mixed.

## Main definitions

* `Argument.Kind`, `Argument.kind`: the kinds of arguments.
* `Argument.valueOf?`, `Argument.text?`: the value of an option, and the text of an argument.
* `Arguments.ofList`: what some arguments say.

## Main results

* `Argument.parse?_eq_some_iff`: the words of arguments.
* `Arguments.foldlM_add?`: some arguments say something unless two of them are texts.
* `Arguments.parse?_iff_and_swap`: the command lines that are read, and what they say.
-/

namespace Stun

/-! ### Arguments -/

theorem Setting.word_of_ofWord? {word : Bytes} {option : Setting} (h : ofWord? word = some option) :
    option.word = word := by
  simpa using List.find?_some h

namespace Argument

/-- The kinds of arguments. -/
inductive Kind where
  /-- The word that asks for a message to be built. -/
  | build
  /-- An option with its value. -/
  | setting (option : Setting)
  /-- A message in hexadecimal digits. -/
  | hex
  deriving DecidableEq

/-- The kind of an argument. -/
def kind : Argument → Kind
  | build => .build
  | setting option _ => .setting option
  | hex _ => .hex

/-- The value that an argument gives to an option. -/
def valueOf? (option : Setting) : Argument → Option Bytes
  | setting other value => if other = option then some value else none
  | _ => none

/-- The text of an argument. -/
def text? : Argument → Option Bytes
  | hex text => some text
  | _ => none

/-- A row of words is read as some arguments exactly when it is their words. -/
theorem parse?_eq_some_iff {words : List Bytes} {arguments : List Argument} :
    parse? words = some arguments ↔
      words = arguments.flatMap Argument.words ∧ ∀ a ∈ arguments, a.IsPlain := by
  refine ⟨fun h => ?_, fun ⟨hwords, hplain⟩ => hwords ▸ parse?_flatMap_words hplain⟩
  fun_induction parse? words generalizing arguments with
  | case1 =>
    obtain rfl := Option.some.inj h
    simp
  | case2 rest ih =>
    obtain ⟨behind, hrest, rfl⟩ := Option.map_eq_some_iff.mp h
    obtain ⟨rfl, hplain⟩ := ih hrest
    exact ⟨rfl, List.forall_mem_cons.mpr ⟨trivial, hplain⟩⟩
  | case3 => cases h
  | case4 word hword option value rest hoption ih =>
    obtain ⟨behind, hrest, rfl⟩ := Option.map_eq_some_iff.mp h
    obtain ⟨rfl, hplain⟩ := ih hrest
    refine ⟨?_, List.forall_mem_cons.mpr ⟨trivial, hplain⟩⟩
    rw [List.flatMap_cons, words, Setting.word_of_ofWord? hoption]
    rfl
  | case5 => cases h
  | case6 word hword rest hoption hdashed ih =>
    obtain ⟨behind, hrest, rfl⟩ := Option.map_eq_some_iff.mp h
    obtain ⟨rfl, hplain⟩ := ih hrest
    exact ⟨rfl, List.forall_mem_cons.mpr ⟨Bool.eq_false_iff.mpr hdashed, hplain⟩⟩

end Argument

/-! ### What arguments say -/

namespace Argument

/-- The values that some arguments give to an option, in order. -/
def valuesOf (option : Setting) (arguments : List Argument) : List Bytes :=
  arguments.filterMap (valueOf? option)

/-- The texts among some arguments. -/
def texts (arguments : List Argument) : List Bytes := arguments.filterMap text?

@[simp] theorem texts_append (front back : List Argument) :
    texts (front ++ back) = texts front ++ texts back := List.filterMap_append

variable {option : Setting} {a b : Argument} {arguments : List Argument}

theorem valueOf?_eq_none (h : a.kind ≠ .setting option) : a.valueOf? option = none := by
  cases a with
  | setting other value => exact if_neg fun heq => h (congrArg Kind.setting heq)
  | _ => rfl

theorem text?_eq_none (h : a.kind ≠ .hex) : a.text? = none := by
  cases a with
  | hex text => exact absurd rfl h
  | _ => rfl

/-- What only one of two neighbours has does not depend on which of them comes first. -/
private theorem filterMap_swap {f : Argument → Option Bytes} (h : f a = none ∨ f b = none)
    (front back : List Argument) :
    (front ++ a :: b :: back).filterMap f = (front ++ b :: a :: back).filterMap f := by
  obtain h | h := h <;> simp [List.filterMap_append, List.filterMap_cons, h]

theorem valuesOf_swap (h : a.kind ≠ b.kind) (front back : List Argument) :
    valuesOf option (front ++ a :: b :: back) = valuesOf option (front ++ b :: a :: back) := by
  refine filterMap_swap ?_ front back
  by_cases ha : a.kind = .setting option
  · exact .inr (valueOf?_eq_none (ha ▸ h.symm))
  · exact .inl (valueOf?_eq_none ha)

theorem texts_swap (h : a.kind ≠ b.kind) (front back : List Argument) :
    texts (front ++ a :: b :: back) = texts (front ++ b :: a :: back) := by
  refine filterMap_swap ?_ front back
  by_cases ha : a.kind = .hex
  · exact .inr (text?_eq_none (ha ▸ h.symm))
  · exact .inl (text?_eq_none ha)

end Argument

namespace Arguments

/-- What some arguments say: whether a message is to be built, the last value of each option and
the first text. -/
def ofList (arguments : List Argument) : Arguments where
  build := arguments.contains .build
  password := (Argument.valuesOf .password arguments).getLast?
  username := (Argument.valuesOf .username arguments).getLast?
  software := (Argument.valuesOf .software arguments).getLast?
  hex := (Argument.texts arguments).head?

/-- One more argument is added to what others say, unless it is a second text. -/
theorem add?_ofList (arguments : List Argument) (a : Argument) :
    (ofList arguments).add? a =
      if a.kind = .hex ∧ Argument.texts arguments ≠ [] then none
      else some (ofList (arguments ++ [a])) := by
  cases a with
  | build =>
    simp [add?, ofList, Argument.kind, Argument.valuesOf, Argument.texts, Argument.valueOf?,
      Argument.text?]
  | setting option value =>
    cases option <;>
      simp [add?, ofList, Argument.kind, Argument.valuesOf, Argument.texts, Argument.valueOf?,
        Argument.text?]
  | hex text =>
    cases htexts : Argument.texts arguments with
    | nil =>
      have hlater : Argument.texts (arguments ++ [.hex text]) = [text] := by
        rw [Argument.texts_append, htexts]
        rfl
      simp [add?, ofList, htexts, hlater, Argument.valuesOf, Argument.valueOf?]
    | cons first texts => simp [add?, ofList, htexts, Argument.kind]

/-- Some arguments say something unless two of them are texts. -/
theorem foldlM_add? (arguments : List Argument) :
    arguments.foldlM add? {} =
      if (Argument.texts arguments).length ≤ 1 then some (ofList arguments) else none := by
  induction arguments using List.reverseRecOn with
  | nil => rfl
  | append_singleton arguments a ih =>
    have hlast (s : Arguments) : [a].foldlM add? s = s.add? a := by
      simp only [List.foldlM_cons, List.foldlM_nil, bind_pure]
    have hone : (Argument.texts [a]).length = if a.kind = .hex then 1 else 0 := by cases a <;> rfl
    have hnil := List.length_eq_zero_iff (l := Argument.texts arguments)
    rw [List.foldlM_append, ih, Argument.texts_append, List.length_append, hone]
    by_cases htexts : (Argument.texts arguments).length ≤ 1
    · rw [if_pos htexts]
      refine (hlast _).trans ?_
      rw [add?_ofList]
      by_cases hkind : a.kind = .hex <;> grind
    · rw [if_neg htexts, if_neg (by omega)]
      rfl

/-- The command lines that say something, and what they say. -/
theorem parse?_eq_some_iff {words : List Bytes} {options : Arguments} :
    parse? words = some options ↔ ∃ arguments : List Argument,
      words = arguments.flatMap Argument.words ∧ (∀ a ∈ arguments, a.IsPlain) ∧
        (Argument.texts arguments).length ≤ 1 ∧ options = ofList arguments := by
  rw [parse?, Option.bind_eq_some_iff]
  simp only [Argument.parse?_eq_some_iff, foldlM_add?]
  grind

/-- Of two neighbours of different kinds it does not matter which comes first. -/
theorem parse?_swap {a b : Argument} (h : a.kind ≠ b.kind) {front back : List Argument}
    (hplain : ∀ c ∈ front ++ a :: b :: back, c.IsPlain) :
    parse? ((front ++ a :: b :: back).flatMap Argument.words) =
      parse? ((front ++ b :: a :: back).flatMap Argument.words) := by
  have hswapped : ∀ c ∈ front ++ b :: a :: back, c.IsPlain := by
    intro c hc
    exact hplain c (by simp only [List.mem_append, List.mem_cons] at hc ⊢; tauto)
  have hsame : ofList (front ++ a :: b :: back) = ofList (front ++ b :: a :: back) := by
    have hbuild : (front ++ a :: b :: back).contains .build =
        (front ++ b :: a :: back).contains .build := by
      simp only [List.contains_append, List.contains_cons, Bool.or_left_comm]
    simp only [ofList, Argument.valuesOf_swap h, Argument.texts_swap h, hbuild]
  rw [parse?, parse?, Argument.parse?_flatMap_words hplain,
    Argument.parse?_flatMap_words hswapped, Option.bind_some, Option.bind_some, foldlM_add?,
    foldlM_add?, Argument.texts_swap h, hsame]

/-! ### Canonical command lines -/

theorem ofList_toArguments (options : Arguments) : ofList options.toArguments = options := by
  obtain ⟨build, password, username, software, hex⟩ := options
  cases build <;> cases password <;> cases username <;> cases software <;> cases hex <;> rfl

theorem texts_toArguments (options : Arguments) :
    Argument.texts options.toArguments = options.hex.toList := by
  obtain ⟨build, password, username, software, hex⟩ := options
  cases build <;> cases password <;> cases username <;> cases software <;> cases hex <;> rfl

/-- What a command line can say is said by its canonical command line. -/
theorem parse?_toWords {options : Arguments}
    (h : ∀ text, options.hex = some text → Argument.isDashed text = false) :
    parse? options.toWords = some options := by
  have htexts := options.texts_toArguments
  refine parse?_eq_some_iff.mpr ⟨options.toArguments, rfl, fun a ha => ?_, ?_,
    options.ofList_toArguments.symm⟩
  · cases a with
    | hex text =>
      have hmem : text ∈ Argument.texts options.toArguments :=
        List.mem_filterMap.mpr ⟨.hex text, ha, rfl⟩
      rw [htexts, Option.mem_toList] at hmem
      exact h text hmem
    | _ => trivial
  · rw [htexts]
    exact Option.length_toList_le

/-! ### Command lines -/

theorem eq_ofList_iff {options : Arguments} {arguments : List Argument} :
    options = ofList arguments ↔
      (options.build = true ↔ .build ∈ arguments) ∧
      options.password = (Argument.valuesOf .password arguments).getLast? ∧
      options.username = (Argument.valuesOf .username arguments).getLast? ∧
      options.software = (Argument.valuesOf .software arguments).getLast? ∧
      options.hex = (Argument.texts arguments).head? := by
  obtain ⟨build, password, username, software, hex⟩ := options
  have hbuild : build = arguments.contains .build ↔ (build = true ↔ .build ∈ arguments) := by
    rw [Bool.eq_iff_iff, List.contains_iff_mem]
  simp only [ofList, mk.injEq, hbuild]

/-- A command line is read exactly when it is some arguments in a row, none of them a text that
starts with two dashes and at most one of them a text. It says whether a message is to be built, the
last value of each option and the text. Two neighbours of different kinds may change places, and
all that can be said is said by some command line. -/
theorem parse?_iff_and_swap :
    (∀ (words : List Bytes) (options : Arguments), parse? words = some options ↔
      ∃ arguments : List Argument, words = arguments.flatMap Argument.words ∧
        (∀ a ∈ arguments, a.IsPlain) ∧ (Argument.texts arguments).length ≤ 1 ∧
        (options.build = true ↔ .build ∈ arguments) ∧
        options.password = (Argument.valuesOf .password arguments).getLast? ∧
        options.username = (Argument.valuesOf .username arguments).getLast? ∧
        options.software = (Argument.valuesOf .software arguments).getLast? ∧
        options.hex = (Argument.texts arguments).head?) ∧
    (∀ (a b : Argument) (front back : List Argument), a.kind ≠ b.kind →
      (∀ c ∈ front ++ a :: b :: back, c.IsPlain) →
        parse? ((front ++ a :: b :: back).flatMap Argument.words) =
          parse? ((front ++ b :: a :: back).flatMap Argument.words)) ∧
    ∀ options : Arguments,
      (∀ text, options.hex = some text → Argument.isDashed text = false) →
        parse? options.toWords = some options := by
  refine ⟨fun words options => ?_, fun a b front back h => parse?_swap h,
    fun options => parse?_toWords⟩
  simp only [parse?_eq_some_iff, eq_ofList_iff]

/-- The word behind an option is its value even where it looks like an option, and the last value
of an option counts. A message may be asked for before or behind an option, and what a command line
says is read from its canonical command line. -/
theorem parse?_iff_and_swap_literalWords :
    parse? (["--password", "--build", "--username", "bob", "0001", "--username", "alice"].map
        Bytes.ofString) =
      some {
        password := some (Bytes.ofString "--build")
        username := some (Bytes.ofString "alice")
        hex := some (Bytes.ofString "0001") } ∧
    parse? (["--software", "s", "--username", "bob", "--build", "0001"].map Bytes.ofString) =
      parse? (["--software", "s", "--build", "--username", "bob", "0001"].map Bytes.ofString) ∧
    parse? (["--build", "--password", "pw", "--username", "bob", "0001"].map Bytes.ofString) =
      some {
        build := true
        password := some (Bytes.ofString "pw")
        username := some (Bytes.ofString "bob")
        hex := some (Bytes.ofString "0001") } := by
  let bob : Argument := .setting .username (Bytes.ofString "bob")
  let text : Argument := .hex (Bytes.ofString "0001")
  let arguments : List Argument := [.setting .password (Bytes.ofString "--build"), bob, text,
    .setting .username (Bytes.ofString "alice")]
  let front : List Argument := [.setting .software (Bytes.ofString "s")]
  let canonical : Arguments := ⟨true, some (Bytes.ofString "pw"), some (Bytes.ofString "bob"), none,
    some (Bytes.ofString "0001")⟩
  have hplain : ∀ a ∈ arguments, a.IsPlain := by decide +kernel
  have hplain' : ∀ a ∈ front ++ bob :: .build :: [text], a.IsPlain := by decide +kernel
  have hbuild : (false = true) ↔ Argument.build ∈ arguments := by decide
  obtain ⟨hiff, hswap, hcanonical⟩ := parse?_iff_and_swap
  refine ⟨(hiff _ _).mpr ⟨arguments, rfl, hplain, by decide, hbuild, rfl, rfl, rfl, rfl⟩,
    hswap bob .build front [text] (by decide) hplain', hcanonical canonical fun hex h => ?_⟩
  obtain rfl := Option.some.inj h
  decide +kernel

end Arguments

end Stun
