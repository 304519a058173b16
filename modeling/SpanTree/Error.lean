import SpanTree.Fault
import SpanTree.Span
import SpanTree.Text.Quoted

/-!
# Errors

What can go wrong in a call, by cause; the wording of each cause is in one place,
`Error.message`. A syntax problem in a target is no error, it shows up as nodes of
the tree. A pattern is refused only where there is nothing to search for in it, or
where the engine is strict.
-/

namespace SpanTree

/-- Why a fragment cannot serve as a pattern. -/
inductive Refusal where
  /-- there is nothing but blank characters -/
  | blank
  /-- there is nothing but white space and comments -/
  | noCode
  /-- no part of the fragment has structure in the named grammar -/
  | noStructure (grammar : String)
  /-- the engine is strict and the parser had to recover from an error -/
  | syntaxError
  /-- the bytes are no text -/
  | notUtf8
  deriving DecidableEq, Repr

/-- The wording of a refusal. -/
def Refusal.text : Refusal → String
  | blank => "empty pattern"
  | noCode => "pattern has no code"
  | noStructure grammar => "not a " ++ grammar ++ " fragment"
  | syntaxError => "pattern contains a syntax error"
  | notUtf8 => "pattern is not valid UTF-8"

/-- Why a file could not be read or written. -/
inductive FileFault where
  | notFound
  | permissionDenied
  | isDirectory
  | notDirectory
  | nameTooLong
  | nulInName
  | notUtf8
  | alreadyExists
  | invalidData
  | invalidInput
  | interrupted
  | wouldBlock
  | timedOut
  | unexpectedEnd
  | other
  deriving DecidableEq, Repr

/-- The wording of a file fault; those that the operating system reports carry
its number. -/
def FileFault.text : FileFault → String
  | notFound => "No such file or directory (os error 2)"
  | permissionDenied => "Permission denied (os error 13)"
  | isDirectory => "Is a directory (os error 21)"
  | notDirectory => "Not a directory (os error 20)"
  | nameTooLong => "File name too long (os error 36)"
  | nulInName => "file name contained an unexpected NUL byte"
  | notUtf8 => "stream did not contain valid UTF-8"
  | alreadyExists => "entity already exists"
  | invalidData => "invalid data"
  | invalidInput => "invalid input parameter"
  | interrupted => "operation interrupted"
  | wouldBlock => "operation would block"
  | timedOut => "timed out"
  | unexpectedEnd => "unexpected end of file"
  | other => "other error"

/-- Why a grammar cannot be made. -/
inductive GrammarFault where
  /-- the table of the grammar has no such start rule -/
  | unknownStart (grammar rule : String)
  /-- the character cannot mark metavariables -/
  | badSigil (sigil : Char)
  deriving DecidableEq, Repr

/-- The wording of a grammar fault. -/
def GrammarFault.text : GrammarFault → String
  | unknownStart grammar rule => grammar ++ " grammar has no start rule named " ++ rule
  | badSigil sigil => "Invalid metavariable sigil: " ++ Text.quoteChar sigil

/-- Why a configuration text was not accepted. -/
inductive ConfigFault where
  /-- the text is not in the configuration format -/
  | malformed
  /-- a field of the configuration holds a value of the wrong kind -/
  | mistyped
  deriving DecidableEq, Repr

/-- The wording of a configuration fault. -/
def ConfigFault.text : ConfigFault → String
  | malformed => "not a configuration text"
  | mistyped => "a field has a value of the wrong kind"

/-- Why a call failed. -/
inductive Error where
  /-- no grammar is registered for the id, given as the caller spelled it -/
  | unknownLanguage (id : String)
  /-- the normalized id is registered already -/
  | duplicateLanguage (id : String)
  /-- the fragment is of no use as a pattern, because of what is at the span -/
  | unparseablePattern (span : Span) (reason : Refusal)
  | sourceNotFound (path : String)
  | permissionDenied (path : String)
  | unreadable (path : String) (cause : FileFault)
  | grammar (cause : GrammarFault)
  | config (cause : ConfigFault)
  /-- a precondition of the library's own arithmetic did not hold -/
  | broken (fault : Fault)
  deriving DecidableEq, Repr

namespace Error

/-- The error of a call that could not read the file at a path. -/
def ofFile (path : String) : FileFault → Error
  | .notFound => sourceNotFound path
  | .permissionDenied => permissionDenied path
  | cause => unreadable path cause

/-- The wording of an error. -/
def message : Error → String
  | unknownLanguage id => "Unknown language: " ++ id
  | duplicateLanguage id => "Language already registered: " ++ id
  | unparseablePattern span reason =>
    "Unparseable pattern at " ++ span.text ++ ": " ++ reason.text
  | sourceNotFound path => "Source not found: " ++ path
  | permissionDenied path => "Permission denied: " ++ path
  | unreadable path cause => "IO error reading " ++ path ++ ": " ++ cause.text
  | grammar cause => "Grammar error: " ++ cause.text
  | config cause => "Config error: " ++ cause.text
  | broken _ => "Internal error"

/-- Whether the language asked for is not registered. -/
def isUnknownLanguage : Error → Bool
  | unknownLanguage _ => true
  | _ => false

/-- Whether the fragment is of no use as a pattern. -/
def isUnparseablePattern : Error → Bool
  | unparseablePattern _ _ => true
  | _ => false

/-- Whether a source could not be read. -/
def isSourceFailure : Error → Bool
  | sourceNotFound _ => true
  | permissionDenied _ => true
  | unreadable _ _ => true
  | _ => false

end Error

/-- A computation whose faults are errors of the call. -/
def Fault.lift {α : Type} : Except Fault α → Except Error α
  | .ok a => .ok a
  | .error fault => .error (.broken fault)

end SpanTree
