import SpanTree.Config
import SpanTree.File.Store

/-!
# Configuration files

A configuration is loaded from a file if there is one, and written to a file, over one
that exists only by force.
-/

namespace SpanTree

namespace Config

/-- The file that is loaded if none is named. -/
def defaultPath : String := "polyparse.toml"

/-- Why a configuration file could not be loaded or written. -/
inductive Trouble where
  /-- the file could not be read or written -/
  | file (cause : FileFault)
  /-- the content is no configuration -/
  | content (cause : Error)
  /-- there is a file already -/
  | inTheWay (path : String)
  deriving DecidableEq, Repr

/-- The wording of a trouble. -/
def Trouble.message : Trouble → String
  | file cause => cause.text
  | content cause => cause.message
  | inTheWay path => "config already exists at " ++ path ++ " (use force to overwrite)"

/-- The configuration in a file; nothing if there is no file. -/
def load (files : File.Store) (path : Option String) : Except Trouble (Option Config) :=
  let path := path.getD defaultPath
  if !files.existsAt path then .ok none
  else
    match files.readText path with
    | .error cause => .error (.file cause)
    | .ok text =>
      match ofToml text with
      | .error cause => .error (.content cause)
      | .ok config => .ok (some config)

/-- The files after a configuration is written to one of them. -/
def write (files : File.Store) (path : String) (config : Config) (force : Bool) :
    Except Trouble File.Store :=
  if files.existsAt path && !force then .error (.inTheWay path)
  else
    match files.write path (Utf8.encode config.toToml) with
    | .error cause => .error (.file cause)
    | .ok files => .ok files

end Config

end SpanTree
