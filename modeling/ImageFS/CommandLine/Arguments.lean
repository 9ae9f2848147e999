/-!
# Command line arguments

The arguments name a command and what it works on. Options are read from left to right, and the
first thing that is wrong, or that asks for help, ends the reading.
-/

set_option autoImplicit false

namespace ImageFS.CommandLine

inductive Command where
  | format (image : String) (blocks inodes : Option UInt32)
  | mount (image point : String) (fsName : Option String) (allowRoot autoUnmount : Bool)
  | info (image : String)
deriving DecidableEq

structure Invocation where
  config : Option String
  command : Command
deriving DecidableEq

inductive Topic where
  | program
  | format
  | mount
  | info
  | help
deriving DecidableEq

inductive Halt where
  | unexpected (argument : String)
  | missingValue (option : String)
  | badValue (option value : String)
  | repeated (option : String)
  | missingOperand
  | missingCommand
  | help (topic : Topic)
  | version
deriving DecidableEq

inductive Shape where
  | switch
  | path
  | text
  | number
deriving DecidableEq

def number? (text : String) : Option UInt32 :=
  let natural (digits : List Char) : Option Nat :=
    if digits = [] ∨ !digits.all Char.isDigit then none
    else some (digits.foldl (fun n c => 10 * n + (c.toNat - '0'.toNat)) 0)
  match text.toList with
  | '-' :: digits => if natural digits = some 0 then some 0 else none
  | '+' :: digits => bounded (natural digits)
  | digits => bounded (natural digits)
where
  bounded (n : Option Nat) : Option UInt32 := n.bind fun n => if n < UInt32.size then some (.ofNat n) else none

def Shape.accepts : Shape → String → Bool
  | .switch, _ => false
  | .path, value => value ≠ ""
  | .text, _ => true
  | .number, value => (number? value).isSome

/-- The options that may stand at a place, with how many operands there may be. -/
structure Level where
  topic : Topic
  options : List (String × Shape)
  operands : Nat

namespace Level

def program : Level := ⟨.program, [("config", .path)], 0⟩

def format : Level := ⟨.format, [("blocks", .number), ("inodes", .number), ("config", .path)], 1⟩

def mount : Level :=
  ⟨.mount, [("fs-name", .text), ("allow-root", .switch), ("auto-unmount", .switch), ("config", .path)], 2⟩

def info : Level := ⟨.info, [("config", .path)], 1⟩

end Level

/-- The options and operands that were read. A switch has the empty value. -/
structure Found where
  options : List (String × String) := []
  operands : List String := []
deriving DecidableEq

namespace Found

def value? (f : Found) (option : String) : Option String := f.options.lookup option

def has (f : Found) (option : String) : Bool := (f.value? option).isSome

def addOption (f : Found) (option : String) (shape : Shape) (value : String) : Except Halt Found :=
  if shape ≠ .switch ∧ !shape.accepts value then .error (.badValue option value)
  else if f.has option then .error (.repeated option)
  else .ok { f with options := f.options ++ [(option, value)] }

def addOperand (level : Level) (f : Found) (operand : String) : Except Halt Found :=
  if level.operands ≤ f.operands.length then .error (.unexpected operand)
  else if operand = "" then .error .missingOperand
  else .ok { f with operands := f.operands ++ [operand] }

end Found

inductive Form where
  | endOfOptions
  | long (name : String) (value : Option String)
  | short (letter : Char)
  | operand
deriving DecidableEq

def Form.of (argument : String) : Form :=
  match argument.toList with
  | ['-', '-'] => .endOfOptions
  | '-' :: '-' :: name =>
    match name.dropWhile (· ≠ '=') with
    | [] => .long (String.ofList name) none
    | _ :: value => .long (String.ofList (name.takeWhile (· ≠ '='))) (some (String.ofList value))
  | '-' :: letter :: _ => .short letter
  | _ => .operand

/-- Where an option that asks for help or for the version ends the reading. The version can only be
asked for before the command. -/
def Level.halt? (level : Level) (asksHelp asksVersion : Bool) : Option Halt :=
  if asksHelp then some (.help level.topic)
  else if asksVersion && level.topic = .program then some .version
  else none

/-- Reads options and operands. Before the command the first operand ends the reading, and what is
left starts with it. -/
def Level.read (level : Level) : List String → Found → Except Halt (Found × List String)
  | [], f => .ok (f, [])
  | argument :: rest, f =>
    match Form.of argument with
    | .endOfOptions => do
      let f ← rest.foldlM (Found.addOperand level) f
      return (f, [])
    | .short letter =>
      .error ((level.halt? (letter = 'h') (letter = 'V')).getD (.unexpected argument))
    | .operand =>
      if level.topic = .program then .ok (f, argument :: rest)
      else do
        let f ← f.addOperand level argument
        level.read rest f
    | .long name attached =>
      match level.options.lookup name with
      | none =>
        if attached.isSome then .error (.unexpected argument)
        else .error ((level.halt? (name = "help") (name = "version")).getD (.unexpected argument))
      | some .switch =>
        if attached.isSome then .error (.unexpected argument)
        else do
          let f ← f.addOption name .switch ""
          level.read rest f
      | some shape =>
        match attached with
        | some value => do
          let f ← f.addOption name shape value
          level.read rest f
        | none =>
          match rest with
          | [] => .error (.missingValue name)
          | value :: rest =>
            if Form.of value ≠ .operand then .error (.missingValue name)
            else do
              let f ← f.addOption name shape value
              level.read rest f

def Topic.ofArguments : List String → Except Halt Topic
  | [] => .ok .program
  | ["format"] => .ok .format
  | ["mount"] => .ok .mount
  | ["info"] => .ok .info
  | ["help"] => .ok .help
  | argument :: _ => .error (.unexpected argument)

def Command.read : String → List String → Except Halt (Found × Command)
  | "format", rest => do
    let (f, _) ← Level.format.read rest {}
    match f.operands with
    | [image] => return (f, .format image ((f.value? "blocks").bind number?) ((f.value? "inodes").bind number?))
    | _ => throw .missingOperand
  | "mount", rest => do
    let (f, _) ← Level.mount.read rest {}
    match f.operands with
    | [image, point] =>
      return (f, .mount image point (f.value? "fs-name") (f.has "allow-root") (f.has "auto-unmount"))
    | _ => throw .missingOperand
  | "info", rest => do
    let (f, _) ← Level.info.read rest {}
    match f.operands with
    | [image] => return (f, .info image)
    | _ => throw .missingOperand
  | "help", rest => do throw (.help (← Topic.ofArguments rest))
  | other, _ => throw (.unexpected other)

/-- Reads all arguments. Settings named behind the command go before those named in front of it. -/
def Invocation.read (arguments : List String) : Except Halt Invocation := do
  let (f, rest) ← Level.program.read arguments {}
  match rest with
  | [] => throw .missingCommand
  | name :: rest =>
    let (g, command) ← Command.read name rest
    return { config := (g.value? "config").or (f.value? "config"), command }

end ImageFS.CommandLine
