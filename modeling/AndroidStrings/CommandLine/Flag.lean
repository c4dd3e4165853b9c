import AndroidStrings.Markup.Reference
import AndroidStrings.Text.Search

/-!
# Flags

A flag is named by an argument that begins with two dashes, some also by a letter behind a
single dash.  Some take a value, which follows the name as the next argument or behind an equals
sign.
-/

namespace AndroidStrings
namespace CommandLine

inductive Flag where
  | resourceDirectory
  | config
  | verbose
  | help
  | version
  | full
  | near
  | summary
  | json
  | strict
  | raw
  | create
  | sourceOnly
  | sources
  | variant
  deriving DecidableEq, Repr

namespace Flag

def name : Flag → Text
  | resourceDirectory => "res-dir".toList
  | config => "config".toList
  | verbose => "verbose".toList
  | help => "help".toList
  | version => "version".toList
  | full => "full".toList
  | near => "near".toList
  | summary => "summary".toList
  | json => "json".toList
  | strict => "strict".toList
  | raw => "raw".toList
  | create => "create".toList
  | sourceOnly => "source-only".toList
  | sources => "src".toList
  | variant => "variant".toList

def letter? : Flag → Option Char
  | verbose => some 'v'
  | help => some 'h'
  | version => some 'V'
  | _ => none

def takesValue : Flag → Bool
  | resourceDirectory => true
  | config => true
  | near => true
  | sources => true
  | variant => true
  | _ => false

/-- Flags may be given once, but more than one request for a verbose log adds up. -/
def repeats : Flag → Bool
  | verbose => true
  | _ => false

/-- Flags that are a request of their own, whatever stands behind them. -/
def endsReading : Flag → Bool
  | help => true
  | version => true
  | _ => false

/-- The flags that stand before and after the name of a command. -/
def everywhere : List Flag :=
  [resourceDirectory, config, verbose, help]

/-- The flags that stand before the name of a command. -/
def before : List Flag :=
  everywhere ++ [version]

def named? (known : List Flag) (name : Text) : Option Flag :=
  known.find? fun flag => flag.name == name

def lettered? (known : List Flag) (c : Char) : Option Flag :=
  known.find? fun flag => flag.letter? == some c

end Flag

/-!
## Values
-/

/-- A number of decimal digits, perhaps with a plus sign, below two to the power of 64. -/
def parseNat? (t : Text) : Option Nat :=
  let digits := match t with
    | '+' :: rest => rest
    | _ => t
  match digits.mapM (Markup.digitValue? 10) with
  | none => none
  | some [] => none
  | some values =>
      let number := values.foldl (fun n digit => n * 10 + digit) 0
      if number < Nat.pow 2 64 then some number else none

/-- A path is not empty. -/
def parsePath? (t : Text) : Option Text :=
  if t.isEmpty then none else some t

namespace Flag

/-- Whether a value can stand with a flag. -/
def accepts (flag : Flag) (value : Text) : Bool :=
  match flag with
  | resourceDirectory => (parsePath? value).isSome
  | config => (parsePath? value).isSome
  | sources => (parsePath? value).isSome
  | near => (parseNat? value).isSome
  | _ => true

end Flag

/-!
## What an argument looks like
-/

inductive Shape where
  | plain
  | endOfFlags
  | long (name : Text) (value : Option Text)
  | letters (letters : Text)
  deriving DecidableEq, Repr

namespace Shape

/-- The name of a long flag ends at the first equals sign. -/
def ofLong (t : Text) : Shape :=
  match Text.cutAt? ['='] t with
  | some (name, value) => long name (some value)
  | none => long t none

def ofArgument : Text → Shape
  | ['-', '-'] => endOfFlags
  | '-' :: '-' :: t => ofLong t
  | '-' :: c :: t => letters (c :: t)
  | _ => plain

end Shape
end CommandLine
end AndroidStrings
