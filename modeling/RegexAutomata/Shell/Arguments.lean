import RegexAutomata.Shell.Session
import RegexAutomata.Text.Digit

/-!
# Command lines

A command line holds options and one group of regexes; options may stand before and after the
group. First every argument is sorted by its form (`sort?`), then they are taken from left to
right (`take`). A long option may be cut short as long as it stays unique. What looks like a
negative number or holds a blank is a regex even with a dash in front, and after `--` everything
is one.

A request for help is granted when it is reached. A wrong option value, an ambiguous option or
a missing value is refused at once; unknown options and regexes outside the group only at the
end. The value `--` takes an earlier choice of a format back.

Main definition: `request`.
-/

namespace RegexAutomata.Shell

/-- The options. -/
inductive Switch where
  | help
  | format
  | quiet
deriving DecidableEq

/-- The long names of the options. -/
def longNames : List (String × Switch) :=
  [("--help", .help), ("--format", .format), ("--quiet", .quiet)]

/-- The options whose long names begin with the text. -/
def abbreviated (text : String) : List Switch :=
  (longNames.filter fun entry => text.toList.isPrefixOf entry.1.toList).map (·.2)

/-- An argument by its form. -/
inductive Argument where
  /-- The first `--`. -/
  | separator
  /-- No option. -/
  | operand (text : String)
  /-- An option, with the text behind its equals sign. -/
  | switch (switch : Switch) (attached : Option String)
  /-- The short option for help, with the characters behind it. -/
  | helpAnd (more : List Char)
  /-- An option nobody knows. -/
  | unknown
deriving DecidableEq

/-- The text before the first equals sign, and the text behind it. -/
def splitEquals (text : String) : String × Option String :=
  let name := String.ofList (text.toList.takeWhile (· != '='))
  match text.toList.dropWhile (· != '=') with
  | [] => (name, none)
  | _ :: value => (name, some (String.ofList value))

/-- An argument with a dash that names no option: a number, a text with a blank, or an option
nobody knows. -/
def sortUnnamed (text : String) : Argument :=
  if Text.looksNegative text.toList || text.toList.contains ' ' then .operand text else .unknown

/-- The form of an argument other than `--`; none, if it is an ambiguous option. A full name
counts before an abbreviation. -/
def sort? (text : String) : Option Argument :=
  match text.toList with
  | '-' :: second :: rest =>
    let (name, attached) := splitEquals text
    if second = '-' then
      match longNames.lookup name, abbreviated name with
      | some switch, _ => some (.switch switch attached)
      | none, [] => some (sortUnnamed text)
      | none, [switch] => some (.switch switch attached)
      | none, _ => none
    else if second = 'h' then some (.helpAnd rest)
    else some (sortUnnamed text)
  | _ => some (.operand text)

/-- The forms of all arguments, unless an option is ambiguous. -/
def sortAll? : List String → Option (List Argument)
  | [] => some []
  | text :: rest =>
    if text = "--" then some (.separator :: rest.map .operand)
    else do
      let first ← sort? text
      let others ← sortAll? rest
      return first :: others

/-- Whether the short option for help may be followed by these characters. They are short
options themselves, and no other takes part; an equals sign may stand before the first. -/
def allowsHelp : List Char → Bool
  | '=' :: letters => !letters.isEmpty && letters.all (· == 'h')
  | letters => letters.all (· == 'h')

/-- The format that the value of an option sets. -/
def formatValue? (value : String) : Option Format :=
  if value = "--" then some .list else Format.named? value

/-- What a command line sets. -/
structure Options where
  format : Format
  quiet : Bool
  regexes : List String
deriving DecidableEq

/-- What a command line asks for. -/
inductive Request where
  /-- An explanation. -/
  | help
  /-- Nothing that could be done. -/
  | misuse
  /-- A session. -/
  | run (options : Options)
deriving DecidableEq

/-- How far the group of regexes has come. -/
inductive Group where
  /-- No regex yet. -/
  | before
  /-- The last argument belonged to the group. -/
  | inside
  /-- An option followed the group. -/
  | past
deriving DecidableEq

/-- An option ends the group. -/
def Group.closed : Group → Group
  | before => before
  | _ => past

/-- Takes the arguments from left to right. `stray` tells whether something was found that has
no place. -/
def take (options : Options) (group : Group) (stray : Bool) : List Argument → Request
  | [] => if stray then .misuse else .run options
  | .separator :: rest =>
    if group = .past then take options group true rest else take options .inside stray rest
  | .operand text :: rest =>
    if group = .past then take options group true rest
    else take { options with regexes := options.regexes ++ [text] } .inside stray rest
  | .switch .help none :: _ => .help
  | .switch .quiet none :: rest => take { options with quiet := true } group.closed stray rest
  | .switch .format none :: .operand value :: rest
  | .switch .format (some value) :: rest =>
    match formatValue? value with
    | none => .misuse
    | some format => take { options with format } group.closed stray rest
  | .helpAnd more :: _ => if allowsHelp more then .help else .misuse
  | .unknown :: rest => take options group.closed true rest
  | .switch _ _ :: _ => .misuse

/-- What the arguments ask for. -/
def request (arguments : List String) : Request :=
  match sortAll? arguments with
  | none => .misuse
  | some sorted => take ⟨.list, false, []⟩ .before false sorted

end RegexAutomata.Shell
