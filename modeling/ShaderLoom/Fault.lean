/-
  ShaderLoom.Fault — why an operation fails, and how that is told.
-/

import ShaderLoom.Schema.Problem

namespace ShaderLoom

/-- The closed sets of names that a value is looked up in. -/
inductive NameSet where
  | noise
  | theme
  | complexity
  deriving DecidableEq

inductive Fault where
  /-- A value of a kind the operation has no use for. -/
  | wrongKind
  /-- Entries asked of something that is not a mapping. -/
  | notAMapping
  | notANumber (text : String)
  | integerTooLarge
  | tooFewParts (expected found : Nat)
  | tooManyParts (expected : Nat)
  | notAPair (position length : Nat)
  | unknownName (given : Value) (names : NameSet)
  | unknownEffect (given : Value)
  | notAColor (text : String)
  | notAHexPair (pair : String)
  | invalidConfig (name : Value) (problems : List Problem)
  | invalidCustomShader (name : Value) (problems : List Problem)
  | noDefaultShader
  | misfiledPreset (key : Int) (id : Value)
  | repeatedName (name : Value)
  | missingRecordKeys (keys : List String)
  | unreadableRecord
  /-- A whole number written with more digits than a record may have. -/
  | tooManyDigits (count : Nat)
  /-- A text would show a whole number that has too many digits to be written out. -/
  | unprintable
  /-- A record holds such a number. -/
  | unwritable
  /-- More decimals asked for than a literal can have. -/
  | tooManyDecimals (count : Int)
  | notAVariableName
  | nullCharacter
  /-- A position past the end of a group. -/
  | noSuchMember
  | noSuchFile
  | isDirectory
  | fileInTheWay
  | notADirectory
  | nameTooLong

def NameSet.title : NameSet → String
  | .noise => "NoiseType"
  | .theme => "VibeTheme"
  | .complexity => "VibeComplexity"

namespace Fault

/-- The sentence that tells a fault; faults of kind and of files have none of their own. -/
def message? : Fault → Option String
  | notANumber text => some ("could not convert string to float: " ++ Text.quoted text)
  | integerTooLarge => some "int too large to convert to float"
  | tooFewParts expected found =>
    some ("not enough values to unpack (expected " ++ intText expected ++ ", got " ++ intText found ++ ")")
  | tooManyParts expected => some ("too many values to unpack (expected " ++ intText expected ++ ")")
  | notAPair position length =>
    some ("dictionary update sequence element #" ++ intText position ++ " has length " ++
      intText length ++ "; 2 is required")
  | unknownName given names => some (given.inspect ++ " is not a valid " ++ names.title)
  | unknownEffect given => some ("Unknown effect type: " ++ given.inspect)
  | notAColor text => some ("expected #RRGGBB colour, got " ++ Text.quoted text)
  | notAHexPair pair => some ("invalid literal for int() with base 16: " ++ Text.quoted pair)
  | invalidConfig name _ => some ("invalid shader config " ++ name.inspect ++ ": validation_failed")
  | invalidCustomShader name _ =>
    some ("invalid custom shader config " ++ name.inspect ++ ": validation_failed")
  | noDefaultShader => some "preset catalog must define shader id 0"
  | misfiledPreset key id =>
    some ("preset key " ++ intText key ++ " does not match config id " ++ id.text)
  | repeatedName name => some ("duplicate preset name " ++ name.inspect)
  | missingRecordKeys keys =>
    some ("generation record missing keys: " ++ ", ".intercalate keys)
  | tooManyDigits count =>
    some ("Exceeds the limit (4300 digits) for integer string conversion: value has " ++
      intText count ++ " digits; use sys.set_int_max_str_digits() to increase the limit")
  | unprintable | unwritable =>
    some ("Exceeds the limit (4300 digits) for integer string conversion; " ++
      "use sys.set_int_max_str_digits() to increase the limit")
  | tooManyDecimals count =>
    some (if count < 0x8000000000000000 then "precision too big"
      else "Too many decimal digits in format string")
  | notAVariableName => some "illegal environment variable name"
  | nullCharacter => some "embedded null byte"
  | noSuchMember => some "tuple index out of range"
  | wrongKind | notAMapping | unreadableRecord | noSuchFile | isDirectory | fileInTheWay
  | notADirectory | nameTooLong => none

/-- The values written out to tell a fault: those its sentence shows, and the count of decimals that
a literal is asked for. -/
def shown : Fault → List Value
  | unknownName given _ | unknownEffect given => [given]
  | invalidConfig name _ | invalidCustomShader name _ | repeatedName name => [name]
  | misfiledPreset key id => [.int key, id]
  | tooManyDecimals count => [.int count]
  | _ => []

/-- A fault as it comes out: one whose sentence cannot be written out gives way to that. -/
def told (f : Fault) : Fault := if f.shown.all (·.isPrintable) then f else .unprintable

/-- The problems that a fault carries. -/
def problems : Fault → List Problem
  | invalidConfig _ problems | invalidCustomShader _ problems => problems
  | _ => []

end Fault

end ShaderLoom
