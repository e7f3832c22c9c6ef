import NullSafeEq.Grammar.Reading
import NullSafeEq.Report.Markup
import NullSafeEq.Text.CodePoint
import NullSafeEq.Text.Numeral
import NullSafeEq.Text.Utf8

/-!
# What can go wrong

The causes of failure outside of single expressions, with their wording. A setting is stored as it
comes; when its value is used in a way that its kind or its size does not allow, the use fails.
-/
namespace NullSafeEq

/-- A value was used in a way that it does not allow. The `kind` is that of the value. -/
inductive KindError where
  /-- Compared with a number by the operator. -/
  | unordered (op : String) (kind : String)
  | notCallable (kind : String)
  | notIterable (kind : String)
  | unhashable (kind : String)
  | noLength (kind : String)
  /-- Joined with commas without having items. -/
  | notJoinable
  /-- Item `index` of a list of texts. -/
  | notText (index : Nat) (kind : String)
  /-- A section that is no mapping. -/
  | noEntries (kind : String)
  /-- The name of a setting that is no text. -/
  | badName (kind : String)
  /-- All settings of a section at once from a value that is no mapping. -/
  | noSettings (kind : String)
  /-- A format that is no text. -/
  | noLetterCase (kind : String)
  /-- A path that is no text. -/
  | noPath (kind : String)
  /-- Written although it holds a whole number with too many digits. -/
  | longNumber
  deriving DecidableEq, Repr

def KindError.message : KindError → String
  | unordered op kind => s!"'{op}' not supported between instances of '{kind}' and 'int'"
  | notCallable kind => s!"'{kind}' object is not callable"
  | notIterable kind => s!"'{kind}' object is not iterable"
  | unhashable kind => s!"unhashable type: '{kind}'"
  | noLength kind => s!"object of type '{kind}' has no len()"
  | notJoinable => "can only join an iterable"
  | notText index kind => s!"sequence item {index}: expected str instance, {kind} found"
  | noEntries kind => s!"'{kind}' object has no attribute 'items'"
  | badName kind => s!"attribute name must be string, not '{kind}'"
  | noSettings kind => s!"__dict__ must be set to a dictionary, not a '{kind}'"
  | noLetterCase kind => s!"'{kind}' object has no attribute 'lower'"
  | noPath kind => s!"expected str, bytes or os.PathLike object, not {kind}"
  | longNumber => Text.limitMessage none

/-- A path could not be read or written. -/
inductive FileError where
  | notFound (path : String)
  | isDirectory (path : String)
  | notDirectory (path : String)
  | nameTooLong (path : String)
  | nullInPath
  deriving DecidableEq, Repr

def FileError.message : FileError → String
  | notFound path => s!"[Errno 2] No such file or directory: {Text.quoted path}"
  | isDirectory path => s!"[Errno 21] Is a directory: {Text.quoted path}"
  | notDirectory path => s!"[Errno 20] Not a directory: {Text.quoted path}"
  | nameTooLong path => s!"[Errno 36] File name too long: {Text.quoted path}"
  | nullInPath => "embedded null byte"

/-- A configuration is not acceptable. -/
inductive ConfigurationError where
  | sectionNotMapping (name : String)
  | languageLevel
  | requireGuard
  | blankName (key : String)
  | strategy
  | nameList (key : String)
  | format
  | maxWorkers
  | missingFile (path : String)
  | malformed (reason : String)
  | unreadable (cause : FileError)
  | notMapping
  | unwritable (cause : FileError)
  deriving DecidableEq, Repr

def ConfigurationError.message : ConfigurationError → String
  | sectionNotMapping name => s!"{name} must be a mapping"
  | languageLevel => "language_level must be a positive integer"
  | requireGuard => "require_explicit_null_guard must be a boolean"
  | blankName key => s!"{key} must be a non-empty string"
  | strategy => "strategy must be one of: ['convention', 'scope']"
  | nameList key => s!"resolution.{key} must be a list of names"
  | format => "format must be one of: ['text', 'json']"
  | maxWorkers => "max_workers must be positive"
  | missingFile path => s!"Configuration file not found: {path}"
  | malformed reason => s!"Invalid configuration file format: {reason}"
  | unreadable cause => s!"Error reading configuration file: {cause.message}"
  | notMapping => "Configuration file must contain a mapping at the top level"
  | unwritable cause => s!"Error saving configuration file: {cause.message}"

/-- Any failure that ends an operation. -/
inductive Failure where
  | syntaxError (cause : ReadError)
  | kind (cause : KindError)
  | configuration (cause : ConfigurationError)
  | file (cause : FileError)
  | encoding (cause : Text.Utf8.Fault)
  | unencodable (cause : Text.EncodingFault)
  | markup (cause : Report.Markup.Fault)
  /-- A scalar has the form of a number or a date but is none. -/
  | invalidScalar (reason : String)
  /-- Names were given for another number of texts. -/
  | nameCount
  deriving DecidableEq, Repr

namespace Failure

/-- The word for the kind of a failure in reports. -/
def label : Failure → String
  | syntaxError _ => "ExpressionSyntaxError"
  | kind (.noEntries _) | kind (.noLetterCase _) => "AttributeError"
  | kind .longNumber => "ValueError"
  | kind _ => "TypeError"
  | configuration _ => "ConfigurationError"
  | file (.notFound _) => "FileNotFoundError"
  | file (.isDirectory _) => "IsADirectoryError"
  | file (.notDirectory _) => "NotADirectoryError"
  | file (.nameTooLong _) => "OSError"
  | encoding _ => "UnicodeDecodeError"
  | unencodable _ => "UnicodeEncodeError"
  | markup _ => "MarkupError"
  | file .nullInPath | invalidScalar _ | nameCount => "ValueError"

def message : Failure → String
  | syntaxError cause => cause.message
  | kind cause => cause.message
  | configuration cause => cause.message
  | file cause => cause.message
  | encoding cause => cause.message
  | unencodable cause => cause.message
  | markup cause => cause.message
  | invalidScalar reason => reason
  | nameCount => "source_names must match texts in length"

/-- The place of a failure in an expression. -/
def place? : Failure → Option Text.Place
  | syntaxError cause => some cause.place
  | _ => none

end Failure

end NullSafeEq
