import ImageFS.CommandLine.Arguments

/-!
# Help texts
-/

set_option autoImplicit false

namespace ImageFS.CommandLine

def versionText : String := "flatfs 0.1.0\n"

def columns (rows : List (String × String)) : String :=
  let width := (rows.map (·.1.length)).foldl max 0
  String.join (rows.map fun (left, right) =>
    "  " ++ left ++ String.ofList (List.replicate (width - left.length + 2) ' ') ++ right ++ "\n")

def commandRows : List (String × String) :=
  [("format", "Create and format a new image file"),
   ("mount", "Mount an image through FUSE"),
   ("info", "Print the superblock and usage of an image"),
   ("help", "Print this message or the help of the given subcommand(s)")]

def configRow : String × String :=
  ("    --config <FILE>", "YAML configuration file (defaults to ./flatfs.yml when present)")

def helpRow : String × String := ("-h, --help", "Print help")

def Topic.about : Topic → String
  | .program => "Flat block-image file system"
  | .format => "Create and format a new image file"
  | .mount => "Mount an image through FUSE"
  | .info => "Print the superblock and usage of an image"
  | .help => "Print this message or the help of the given subcommand(s)"

def Topic.usage : Topic → String
  | .program => "flatfs [OPTIONS] <COMMAND>"
  | .format => "flatfs format [OPTIONS] <IMAGE>"
  | .mount => "flatfs mount [OPTIONS] <IMAGE> <MOUNT_POINT>"
  | .info => "flatfs info [OPTIONS] <IMAGE>"
  | .help => "flatfs help [COMMAND]..."

def Topic.operandRows : Topic → List (String × String)
  | .format | .info => [("<IMAGE>", "")]
  | .mount => [("<IMAGE>", ""), ("<MOUNT_POINT>", "")]
  | .help => [("[COMMAND]...", "Print help for the subcommand(s)")]
  | .program => []

def Topic.optionRows : Topic → List (String × String)
  | .program => [configRow, helpRow, ("-V, --version", "Print version")]
  | .format =>
    [("    --blocks <BLOCKS>", "Size of the volume in blocks"), configRow,
     ("    --inodes <INODES>", "Number of inodes, including the two reserved ones"), helpRow]
  | .mount =>
    [configRow, ("    --fs-name <FS_NAME>", ""), ("    --allow-root", ""), ("    --auto-unmount", ""), helpRow]
  | .info => [configRow, helpRow]
  | .help => []

def table (title : String) (rows : List (String × String)) : String :=
  if rows = [] then "" else "\n" ++ title ++ ":\n" ++ columns rows

def Topic.text (t : Topic) : String :=
  t.about ++ "\n\nUsage: " ++ t.usage ++ "\n"
    ++ table "Commands" (if t = .program then commandRows else [])
    ++ table "Arguments" t.operandRows
    ++ table "Options" t.optionRows

def Halt.message : Halt → String
  | .unexpected argument => s!"unexpected argument '{argument}' found"
  | .missingValue option => s!"a value is required for '--{option}' but none was supplied"
  | .badValue option value => s!"invalid value '{value}' for '--{option}'"
  | .repeated option => s!"the argument '--{option}' cannot be used multiple times"
  | .missingOperand => "required arguments were not provided"
  | .missingCommand => "a command is required"
  | .help topic => topic.text
  | .version => versionText

end ImageFS.CommandLine
