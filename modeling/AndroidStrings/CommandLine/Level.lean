import AndroidStrings.CommandLine.Flag

/-!
# Levels of a command line

A command line has two levels: flags up to the name of a command, and the flags and words of that
command.  Each level knows its flags and the slots for its words.  A word may begin with a dash
only where its slot says so, and there the known flags still go first.
-/

namespace AndroidStrings
namespace CommandLine

inductive Slot where
  /-- The name of a command and all that follows it. -/
  | command
  /-- One word. -/
  | word (dashes : Bool)
  /-- Any number of words, with flags between them. -/
  | words
  /-- Any number of words; behind the first one everything is a word. -/
  | verbatim
  deriving DecidableEq, Repr

namespace Slot

/-- Whether a word that begins with a dash can stand here. -/
def takesDashes : Slot → Bool
  | word dashes => dashes
  | verbatim => true
  | _ => false

end Slot

/-- What stands on a level, in order. -/
inductive Item where
  | flag (flag : Flag) (value : Text)
  | word (content : Text)
  deriving DecidableEq, Repr

namespace Item

def flag? : Item → Option (Flag × Text)
  | flag f value => some (f, value)
  | word _ => none

def word? : Item → Option Text
  | flag _ _ => none
  | word content => some content

end Item

namespace Level

/-- Reads arguments that are words only. -/
def readWords : List Slot → List Text → Option (List Item)
  | _, [] => some []
  | .word _ :: slots, argument :: rest => (readWords slots rest).map (Item.word argument :: ·)
  | .words :: _, arguments => some (arguments.map Item.word)
  | .verbatim :: _, arguments => some (arguments.map Item.word)
  | _, _ :: _ => none

def firstTakesDashes (slots : List Slot) : Bool :=
  match slots with
  | slot :: _ => slot.takesDashes
  | [] => false

/-- What an argument means by itself. -/
inductive Meaning where
  | flags (flags : List Flag)
  | valued (flag : Flag) (value : Text)
  | awaitsValue (flag : Flag)
  | endOfFlags
  | word
  | fault
  deriving DecidableEq, Repr

/-- An argument that begins with a dash and names no flag. -/
def unknown (dashes : Bool) : Meaning :=
  if dashes then .word else .fault

/-- Letters behind a dash.  Where not all of them name flags, those in front count nevertheless
if one of them ends the reading. -/
def meaningOfLetters (known : List Flag) (dashes : Bool) (letters : Text) : Meaning :=
  let found := letters.map (Flag.lettered? known)
  let flags := (found.takeWhile Option.isSome).filterMap id
  if found.all Option.isSome || (!dashes && flags.any Flag.endsReading) then .flags flags
  else unknown dashes

/-- A long flag with the value attached to it. -/
def meaningOfFlag (flag : Flag) (attached : Option Text) : Meaning :=
  match flag.takesValue, attached with
  | true, some value => .valued flag value
  | true, none => .awaitsValue flag
  | false, some _ => .fault
  | false, none => .flags [flag]

def meaning (known : List Flag) (dashes : Bool) (argument : Text) : Meaning :=
  match Shape.ofArgument argument with
  | .plain => .word
  | .endOfFlags => .endOfFlags
  | .letters letters => meaningOfLetters known dashes letters
  | .long name attached =>
      match Flag.named? known name with
      | some flag => meaningOfFlag flag attached
      | none => unknown dashes

/-- Reads the arguments of a level, given the slots that are left.  What follows a flag
that ends the reading does not matter, and the value of a flag is an argument that could be a
word at its place.  A value that is attached to its flag is looked at in passing. -/
def read (known : List Flag) : List Slot → List Text → Option (List Item)
  | _, [] => some []
  | slots, argument :: rest =>
      match meaning known (firstTakesDashes slots) argument with
      | .fault => none
      | .endOfFlags => readWords slots rest
      | .flags flags =>
          let items := flags.map fun flag => Item.flag flag []
          if flags.any Flag.endsReading then some items
          else (read known slots rest).map (items ++ ·)
      | .valued flag value =>
          if flag.accepts value then (read known slots rest).map (Item.flag flag value :: ·)
          else none
      | .awaitsValue flag =>
          match rest with
          | [] => none
          | value :: after =>
              if meaning known (firstTakesDashes slots) value = .word then
                (read known slots after).map (Item.flag flag value :: ·)
              else none
      | .word =>
          match slots with
          | [] => none
          | .word _ :: others => (read known others rest).map (Item.word argument :: ·)
          | .words :: others => (read known (.words :: others) rest).map (Item.word argument :: ·)
          | _ => some ((argument :: rest).map Item.word)

end Level

/-- A level that has been read. -/
structure Level where
  flags : List (Flag × Text)
  words : List Text
  deriving DecidableEq, Repr

namespace Level

def ofItems (items : List Item) : Level :=
  ⟨items.filterMap Item.flag?, items.filterMap Item.word?⟩

/-- Whether every flag that may be given once is given once at most. -/
def isFlagGivenOnce : List (Flag × Text) → Bool
  | [] => true
  | (flag, _) :: rest =>
      (flag.repeats || !rest.any fun other => other.1 == flag) && isFlagGivenOnce rest

def read? (known : List Flag) (slots : List Slot) (arguments : List Text) : Option Level :=
  match read known slots arguments with
  | none => none
  | some items =>
      let level := ofItems items
      if isFlagGivenOnce level.flags then some level else none

def has (level : Level) (flag : Flag) : Bool :=
  level.flags.any fun given => given.1 == flag

/-- The flag that ended the reading of a level, if one did. -/
def ending? (level : Level) : Option Flag :=
  (level.flags.map Prod.fst).find? Flag.endsReading

def value? (level : Level) (flag : Flag) : Option Text :=
  (level.flags.find? fun given => given.1 == flag).map Prod.snd

end Level
end CommandLine
end AndroidStrings
