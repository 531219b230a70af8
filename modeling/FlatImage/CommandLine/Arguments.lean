import FlatImage.Text.Utf8

/-!
# Command lines

A command has operands, options with a value and flags, all of them at most once. Arguments are
read from left to right and the first one that decides the outcome ends the reading: a request for
the version or for help, or an argument that is not understood.

An option's value follows it after an equals sign or as the next argument, which then may not look
like an option itself. A lone hyphen is an operand, and two hyphens end the options.
-/

namespace FlatImage.CommandLine

/-- What a command accepts. A value is refused where it is read. -/
structure Command where
  operands : List String
  options : List String
  flags : List String
  accepts : (name : String) → (value : Bytes) → Bool

structure Arguments where
  operands : List Bytes := []
  options : List (String × Bytes) := []
  flags : List String := []

/-- What a command line asks for. -/
inductive Request where
  | run (arguments : Arguments)
  | misuse
  | version
  | help

def hyphen : UInt8 := 0x2D

/-- An argument as an option would be written. -/
inductive Form where
  | operand
  | ending
  /-- After one hyphen. -/
  | letters (rest : Bytes)
  /-- After two hyphens, with what follows the first equals sign. -/
  | word (name : Bytes) (value : Option Bytes)

/-- Cuts a text at the first equals sign. -/
def cutAtEquals : Bytes → Bytes × Option Bytes
  | [] => ([], none)
  | b :: rest =>
    if b = 0x3D then ([], some rest)
    else
      let (name, value) := cutAtEquals rest
      (b :: name, value)

def Form.of : Bytes → Form
  | [] => operand
  | [_] => operand
  | a :: b :: rest =>
    if a ≠ hyphen then operand
    else if b ≠ hyphen then letters (b :: rest)
    else if rest = [] then ending
    else
      let (name, value) := cutAtEquals rest
      word name value

/-- The argument can be the value of the option before it. -/
def Form.isOperand : Form → Bool
  | operand => true
  | _ => false

namespace Command

/-- Takes an operand, if there is one more and it accepts the value. -/
def takeOperand (c : Command) (found : Arguments) (value : Bytes) : Option Arguments :=
  match c.operands[found.operands.length]? with
  | some name =>
    if c.accepts name value then some { found with operands := found.operands ++ [value] }
    else none
  | none => none

/-- Takes an option's value, if there is none yet and the option accepts it. -/
def takeOption (c : Command) (found : Arguments) (name : String) (value : Bytes) :
    Option Arguments :=
  if (found.options.any fun option => option.1 = name) || !c.accepts name value then none
  else some { found with options := found.options ++ [(name, value)] }

def takeFlag (found : Arguments) (name : String) : Option Arguments :=
  if found.flags.contains name then none else some { found with flags := found.flags ++ [name] }

/-- Ends the reading: every operand has to be there. -/
def finish (c : Command) (found : Arguments) : Request :=
  if found.operands.length = c.operands.length then .run found else .misuse

/-- Reads arguments after two hyphens, which are all operands. -/
def readOperands (c : Command) (found : Arguments) : List Bytes → Request
  | [] => c.finish found
  | value :: rest =>
    match c.takeOperand found value with
    | some found => c.readOperands found rest
    | none => .misuse

def readFrom (c : Command) (found : Arguments) : List Bytes → Request
  | [] => c.finish found
  | argument :: rest =>
    match Form.of argument with
    | .operand =>
      match c.takeOperand found argument with
      | some found => c.readFrom found rest
      | none => .misuse
    | .ending => c.readOperands found rest
    | .letters letters =>
      if letters.head? = some 0x56 then .version
      else if letters.head? = some 0x68 then .help
      else .misuse
    | .word word value =>
      match Utf8.decode? word with
      | none => .misuse
      | some name =>
        if name = "version" then if value.isNone then .version else .misuse
        else if name = "help" then if value.isNone then .help else .misuse
        else if c.flags.contains name then
          match value, takeFlag found name with
          | none, some found => c.readFrom found rest
          | _, _ => .misuse
        else if c.options.contains name then
          match value, rest with
          | some value, rest =>
            match c.takeOption found name value with
            | some found => c.readFrom found rest
            | none => .misuse
          | none, [] => .misuse
          | none, value :: rest =>
            if !(Form.of value).isOperand then .misuse
            else
              match c.takeOption found name value with
              | some found => c.readFrom found rest
              | none => .misuse
        else .misuse

def read (c : Command) (arguments : List Bytes) : Request := c.readFrom {} arguments

end Command

namespace Arguments

/-- The operand at a position, and nothing where there is none. -/
def operand (a : Arguments) (i : Nat) : Bytes := a.operands.getD i []

def option? (a : Arguments) (name : String) : Option Bytes :=
  (a.options.find? fun option => option.1 = name).map (·.2)

def flag (a : Arguments) (name : String) : Bool := a.flags.contains name

end Arguments

end FlatImage.CommandLine
