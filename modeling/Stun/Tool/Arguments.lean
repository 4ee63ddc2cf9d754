import Stun.Bytes.Basic

/-!
# The command line

A command line is a row of arguments: the word `--build`, one of three options with the word that
follows it as its value, whatever that word is, and a text of hexadecimal digits that does not
start with two dashes. At most one text may be given. Of an option that is given more than once the
last value counts.

## Main definitions

* `Setting`, `Argument`, `Argument.words`: options with a value, arguments, and the words of one.
* `Argument.parse?`: the arguments of a row of words.
* `Arguments`, `Arguments.add?`, `Arguments.parse?`: what a command line says.
* `Arguments.toWords`: a command line that says it.

## Main results

* `Argument.parse?_flatMap_words`: the words of arguments are read as these arguments.
-/

namespace Stun

/-- An option that is followed by a value. -/
inductive Setting where
  /-- The password of the message. -/
  | password
  /-- The username of the message. -/
  | username
  /-- The software of the message. -/
  | software
  deriving Repr, DecidableEq

namespace Setting

/-- The options. -/
def all : List Setting := [password, username, software]

/-- The word of an option. -/
def word : Setting → Bytes
  | password => Bytes.ofString "--password"
  | username => Bytes.ofString "--username"
  | software => Bytes.ofString "--software"

/-- The option of a word. -/
def ofWord? (word : Bytes) : Option Setting := all.find? (·.word = word)

@[simp] theorem ofWord?_word (option : Setting) : ofWord? option.word = some option := by
  cases option <;> decide +kernel

end Setting

/-! ### Arguments -/

/-- A part of a command line. -/
inductive Argument where
  /-- A message is to be built. -/
  | build
  /-- An option and its value. -/
  | setting (option : Setting) (value : Bytes)
  /-- A message in hexadecimal digits. -/
  | hex (text : Bytes)
  deriving Repr, DecidableEq

namespace Argument

/-- The word that asks for a message to be built. -/
def buildWord : Bytes := Bytes.ofString "--build"

/-- Whether a word starts with two dashes. -/
def isDashed (word : Bytes) : Bool := (Bytes.ofString "--").isPrefixOf word

/-- The words of an argument. -/
def words : Argument → List Bytes
  | build => [buildWord]
  | setting option value => [option.word, value]
  | hex text => [text]

/-- The arguments of a row of words. Fails on an option without a value and on a word that starts
with two dashes and is no option. -/
def parse? : List Bytes → Option (List Argument)
  | [] => some []
  | word :: rest =>
    if word = buildWord then (parse? rest).map (build :: ·)
    else
      match Setting.ofWord? word, rest with
      | some _, [] => none
      | some option, value :: rest => (parse? rest).map (setting option value :: ·)
      | none, rest => if isDashed word then none else (parse? rest).map (hex word :: ·)

/-- An argument whose words are not taken for another one: a text that does not start with two
dashes, or any other argument. -/
def IsPlain : Argument → Prop
  | hex text => isDashed text = false
  | _ => True

instance : DecidablePred IsPlain
  | hex text => inferInstanceAs (Decidable (isDashed text = false))
  | build => .isTrue trivial
  | setting _ _ => .isTrue trivial

private theorem ne_of_not_isDashed {word dashed : Bytes} (h : isDashed word = false)
    (hdashed : isDashed dashed = true) : word ≠ dashed := by
  rintro rfl
  exact absurd (h.symm.trans hdashed) nofun

/-- The words of a plain argument are read as this argument, whatever words follow. -/
theorem parse?_words_append {a : Argument} (h : a.IsPlain) (rest : List Bytes) :
    parse? (a.words ++ rest) = (parse? rest).map (a :: ·) := by
  cases a with
  | build =>
    have hsetting : Setting.ofWord? buildWord = none := by decide +kernel
    simp [words, parse?, hsetting]
  | setting option value =>
    have hword : option.word ≠ buildWord := by cases option <;> decide +kernel
    simp [words, parse?, hword]
  | hex text =>
    have hbuild : text ≠ buildWord := ne_of_not_isDashed h (by decide +kernel)
    have hsetting : Setting.ofWord? text = none := by
      rw [Setting.ofWord?, List.find?_eq_none]
      intro option _
      have hword : isDashed option.word = true := by cases option <;> decide +kernel
      simpa using (ne_of_not_isDashed h hword).symm
    simp [words, parse?, hbuild, hsetting, show isDashed text = false from h]

/-- The words of plain arguments are read as these arguments. -/
theorem parse?_flatMap_words {arguments : List Argument} (h : ∀ a ∈ arguments, a.IsPlain) :
    parse? (arguments.flatMap words) = some arguments := by
  induction arguments with
  | nil => rfl
  | cons a arguments ih =>
    rw [List.flatMap_cons, parse?_words_append (h a (List.mem_cons_self ..)),
      ih fun b hb => h b (List.mem_cons_of_mem _ hb)]
    rfl

end Argument

/-! ### Command lines -/

/-- What a command line says. -/
structure Arguments where
  /-- Whether a message is to be built. -/
  build : Bool := false
  /-- The password. -/
  password : Option Bytes := none
  /-- The username. -/
  username : Option Bytes := none
  /-- The software. -/
  software : Option Bytes := none
  /-- The message in hexadecimal digits. -/
  hex : Option Bytes := none
  deriving Repr, DecidableEq

namespace Arguments

/-- What a command line says with one more argument. Fails on a second text. -/
def add? (arguments : Arguments) : Argument → Option Arguments
  | .build => some { arguments with build := true }
  | .setting .password value => some { arguments with password := some value }
  | .setting .username value => some { arguments with username := some value }
  | .setting .software value => some { arguments with software := some value }
  | .hex text => if arguments.hex = none then some { arguments with hex := some text } else none

/-- What the words of a command line say. -/
def parse? (words : List Bytes) : Option Arguments :=
  (Argument.parse? words).bind fun arguments => arguments.foldlM add? {}

/-- The arguments that say the same, each at most once. -/
def toArguments (arguments : Arguments) : List Argument :=
  (if arguments.build then [.build] else []) ++
    (arguments.password.map (Argument.setting .password)).toList ++
    (arguments.username.map (Argument.setting .username)).toList ++
    (arguments.software.map (Argument.setting .software)).toList ++
    (arguments.hex.map Argument.hex).toList

/-- A command line that says the same. -/
def toWords (arguments : Arguments) : List Bytes := arguments.toArguments.flatMap Argument.words

end Arguments

end Stun
