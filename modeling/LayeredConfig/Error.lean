import LayeredConfig.Tree.Kind
import LayeredConfig.KeyPath.Basic
import LayeredConfig.File.Failure

/-!
# Errors

Every way in which an operation fails is one constructor of `Error`, holding what its message names.
`Error.category` sorts the causes into the classes that a caller tells apart, and `Error.message` words
them. The causes of the last group have no message of their own.
-/

namespace LayeredConfig

/-- The classes of errors that callers tell apart. The last five are no configuration errors. -/
inductive Category where
  | parse
  | defaults
  | typeMismatch
  | interpolationType
  | missingKey
  | conflict
  | includeCycle
  | interpolationCycle
  | unresolved
  | io
  | value
  | encoding
  | overflow
  | type
  deriving DecidableEq, Repr

/-- The causes of failure. -/
inductive Error where
  /-- A key path text is empty. -/
  | emptyPath
  /-- A key path text has an empty component before a dot. -/
  | emptyComponent (expression : String)
  /-- A key path text ends in a lone backslash. -/
  | openEscape (expression : String)
  /-- A key path text has nothing after its last dot. -/
  | trailingDot (expression : String)
  /-- An assignment has no path. -/
  | assignToRoot
  /-- The root is neither a mapping nor null. -/
  | rootNotMapping (kind : Kind)
  /-- The last component is absent and may not be added. -/
  | keyAbsent (key : String)
  /-- The last component is present and may not be replaced. -/
  | keyPresent (key : String)
  /-- A component on the way is absent and may not be added. -/
  | componentAbsent (key : String)
  /-- A component on the way leads to a node that is no mapping. -/
  | componentNotMapping (key : String) (kind : Kind)
  /-- A node is not of the kind that an accessor asks for. -/
  | notWanted (wanted : Wanted) (kind : Kind)
  /-- No node stands at a required path. -/
  | nodeAbsent (path : KeyPath)
  /-- The node at a path is not of the wanted kind. -/
  | unexpectedKind (wanted : Wanted) (path : KeyPath) (kind : Kind)
  /-- An integer does not fit 64 bits. -/
  | integerOutOfRange (value : Int)
  /-- A value of this type has no place in a tree. -/
  | unrepresentable (type : String)
  /-- A mapping key is of this type instead of text. -/
  | keyNotText (type : String)
  /-- A mapping key is a container or a tree, which cannot be a key at all. -/
  | keyNotSimple
  /-- A node of one type is asked for with a value of another. -/
  | wrongType (expected actual : String)
  /-- The text is no YAML. -/
  | malformed (source : String)
  /-- The events do not begin with the start of a stream. -/
  | streamNotStarted (source : String)
  /-- The stream does not go on with the start of a document. -/
  | documentNotStarted (source : String)
  /-- The root is not followed by the end of its document. -/
  | documentNotEnded (source : String)
  /-- The stream holds more than one document. -/
  | manyDocuments (source : String)
  /-- An event that starts no node stands where a node is due. -/
  | unexpectedEvent (event source : String)
  /-- An alias is used. -/
  | aliasUsed (source : String)
  /-- An anchor is used. -/
  | anchorUsed (anchor source : String)
  /-- A mapping key is not read as a string. -/
  | keyNotString (kind : Kind) (source : String)
  /-- A container is asked for its text as a scalar. -/
  | containerAsScalar
  /-- An override is empty. -/
  | emptyOverride
  /-- An override has nothing after its plus sign. -/
  | overrideKeyMissing
  /-- An override has no equals sign. -/
  | overrideWithoutEquals (expression : String)
  /-- An override has nothing before its equals sign. -/
  | overrideEmptyKey (expression : String)
  /-- An override has nothing after its equals sign. -/
  | overrideEmptyValue (expression : String)
  /-- The value text of an override does not read as part of a mapping. -/
  | overrideNotMapping
  /-- The value text of an override leaves no value. -/
  | overrideValueMissing
  /-- A container is asked for its text inside a string. -/
  | containerInterpolated (kind : Kind)
  /-- A placeholder is not closed in a text at a path. -/
  | unterminatedPlaceholder (text : String) (path : KeyPath)
  /-- A reference from a path leads nowhere. -/
  | referenceAbsent (expression : String) (path : KeyPath)
  /-- A reference depends on itself. -/
  | interpolationCycle (path : KeyPath)
  /-- An include entry is blank. -/
  | emptyInclude
  /-- An include entry is a mapping without exactly one key. -/
  | includeKeyCount
  /-- The value of a group entry is no string. -/
  | includeValueKind (kind : Kind) (key : String)
  /-- An include entry is neither a string nor a mapping. -/
  | includeKind (kind : Kind)
  /-- The list of includes of a file is no sequence. -/
  | includesNotSequence (file : String)
  /-- A file includes itself. -/
  | includeCycle (file : String)
  /-- A required include does not exist. -/
  | includeAbsent (file : String)
  /-- The root is no mapping where run settings go. -/
  | runRootNotMapping
  /-- A run setting is no mapping where one is due. -/
  | notMapping (label : String)
  /-- The run directory is neither a string nor null. -/
  | runDirectoryKind
  /-- A source file cannot be read. -/
  | sourceUnreadable (path : String) (failure : File.Failure)
  /-- An output file cannot be opened. -/
  | outputUnwritable (path : String) (failure : File.Failure)
  /-- A run directory cannot be made. -/
  | runDirectoryUnmakable (path : String) (failure : File.Failure)
  /-- A log file cannot be opened. -/
  | logUnwritable (path : String) (failure : File.Failure)
  /-- An integer numeral has more digits than are read. -/
  | numeralTooLong
  /-- An escape names a code point beyond the last one. -/
  | codePointTooLarge
  /-- An escape names a number that does not fit a signed word of 32 bits. -/
  | codePointBeyondWord
  /-- An include path has no file name to extend. -/
  | includeUnnamed
  /-- The name of a file or directory holds a null character. -/
  | nullInPath
  /-- The content of a file is not UTF-8. -/
  | notUtf8
  /-- An integer is too large to be rounded to a double. -/
  | integerTooLarge
  /-- A text does not spell a double. -/
  | notANumeral
  /-- A value of a type that is no number is asked for as a double. -/
  | notNumeric
  deriving DecidableEq, Repr

/-- Whether a class is one of configuration errors, which the command line reports. -/
def Category.isConfiguration : Category → Bool
  | .value | .encoding | .overflow | .type => false
  | _ => true

namespace Error

/-- The class of a cause. -/
def category : Error → Category
  | emptyPath | emptyComponent _ | openEscape _ | trailingDot _ | assignToRoot => .parse
  | malformed _ | streamNotStarted _ | documentNotStarted _ | documentNotEnded _ => .parse
  | manyDocuments _ | unexpectedEvent _ _ | aliasUsed _ | anchorUsed _ _ | keyNotString _ _ => .parse
  | emptyOverride | overrideKeyMissing | overrideWithoutEquals _ | overrideEmptyKey _ => .parse
  | overrideEmptyValue _ | overrideNotMapping | overrideValueMissing => .parse
  | unterminatedPlaceholder _ _ => .parse
  | emptyInclude | includeKeyCount | includeValueKind _ _ | includeKind _ => .defaults
  | includesNotSequence _ => .defaults
  | notWanted _ _ | unexpectedKind _ _ _ | unrepresentable _ | keyNotText _ => .typeMismatch
  | wrongType _ _ | containerAsScalar | runDirectoryKind => .typeMismatch
  | containerInterpolated _ => .interpolationType
  | keyAbsent _ | componentAbsent _ | nodeAbsent _ => .missingKey
  | rootNotMapping _ | keyPresent _ | componentNotMapping _ _ => .conflict
  | runRootNotMapping | notMapping _ => .conflict
  | includeCycle _ => .includeCycle
  | interpolationCycle _ => .interpolationCycle
  | referenceAbsent _ _ | includeAbsent _ => .unresolved
  | sourceUnreadable _ _ | outputUnwritable _ _ => .io
  | runDirectoryUnmakable _ _ | logUnwritable _ _ => .io
  | integerOutOfRange _ | numeralTooLong | codePointTooLarge => .value
  | includeUnnamed | nullInPath | notANumeral => .value
  | notUtf8 => .encoding
  | codePointBeyondWord | integerTooLarge => .overflow
  | keyNotSimple | notNumeric => .type

/-- The wording of a cause, for those that have one. -/
def message : Error → Option String
  | emptyPath => "Path expression cannot be empty"
  | emptyComponent expression => s!"Empty path component in expression '{expression}'"
  | openEscape expression => s!"Dangling escape in path expression '{expression}'"
  | trailingDot expression => s!"Path expression '{expression}' cannot end with '.'"
  | assignToRoot => "Cannot assign empty path"
  | rootNotMapping kind => s!"Root configuration is not a mapping ({kind.name})"
  | keyAbsent key => s!"Key '{key}' does not exist. Use '+{key}=...' to add new parameters."
  | keyPresent key => s!"Cannot add new key '{key}' because it already exists"
  | componentAbsent key =>
    s!"Path component '{key}' does not exist. Use '+{key}=...' to introduce new nested parameters."
  | componentNotMapping key kind =>
    s!"Path component '{key}' refers to a non-mapping node ({kind.name})"
  | notWanted wanted kind => s!"ConfigNode: value is not {wanted.label} (got {kind.name})"
  | nodeAbsent path => s!"Missing required configuration node: {path.render}"
  | unexpectedKind wanted path kind =>
    s!"Expected {wanted.phrase} at {path.render} (got {kind.name})"
  | integerOutOfRange value =>
    "integer " ++ toString value ++ " is outside the int64 range"
  | unrepresentable type => s!"cannot represent {type} as a ConfigNode"
  | keyNotText type => s!"mapping keys must be strings, got {type}"
  | wrongType expected actual => s!"expected {expected}, got {actual}"
  | malformed source => s!"YAML parse error in {source}"
  | streamNotStarted source => s!"YAML stream did not start correctly (in {source})"
  | documentNotStarted source => s!"Expected YAML document start (in {source})"
  | documentNotEnded source => s!"Expected YAML document end (in {source})"
  | manyDocuments source => s!"Expected a single YAML document (in {source})"
  | unexpectedEvent event source =>
    s!"Unexpected YAML event while parsing node: {event} (in {source})"
  | aliasUsed source => s!"YAML aliases are not supported (in {source})"
  | anchorUsed anchor source => s!"YAML anchors are not supported ('&{anchor}') (in {source})"
  | keyNotString kind source => s!"YAML mapping keys must be strings (got {kind.name}) (in {source})"
  | containerAsScalar => "Cannot format non-scalar node directly"
  | emptyOverride => "Empty override expression"
  | overrideKeyMissing => "Override expression missing key after '+'"
  | overrideWithoutEquals expression => s!"Override expression '{expression}' is missing '='"
  | overrideEmptyKey expression => s!"Override expression '{expression}' has empty key"
  | overrideEmptyValue expression => s!"Override expression '{expression}' has empty value"
  | overrideNotMapping => "Override value parsing failed: unexpected YAML structure"
  | overrideValueMissing => "Override value parsing failed: missing 'value' key"
  | containerInterpolated kind => s!"Cannot interpolate complex node types ({kind.name})"
  | unterminatedPlaceholder text path =>
    "Unterminated $\x7b...\x7d placeholder in '" ++ text ++ "' at '" ++ path.render ++ "'"
  | referenceAbsent expression path =>
    s!"Interpolation reference '{expression}' not found (referenced from '{path.render}')"
  | interpolationCycle path => s!"Detected interpolation cycle involving '{path.render}'"
  | emptyInclude => "defaults entries cannot be empty strings"
  | includeKeyCount => "defaults entries as mappings must contain exactly one key"
  | includeValueKind kind key =>
    s!"defaults mapping values must be strings (got {kind.name} for '{key}')"
  | includeKind kind => s!"Unsupported defaults entry type: {kind.name}"
  | includesNotSequence file => s!"'defaults' must be a sequence in {file}"
  | includeCycle file => s!"Detected recursive configuration include involving '{file}'"
  | includeAbsent file => s!"Included configuration '{file}' not found"
  | runRootNotMapping => "Root configuration is not a mapping"
  | notMapping label => s!"'{label}' must be a mapping"
  | runDirectoryKind => "hydra.run.dir must be a string or null"
  | sourceUnreadable path failure => s!"Failed to open YAML file '{path}': {failure.text}"
  | outputUnwritable path failure => s!"Failed to open output file '{path}': {failure.text}"
  | runDirectoryUnmakable path failure =>
    s!"Failed to create run directory '{path}': {failure.text}"
  | logUnwritable path failure => s!"Failed to open log file '{path}': {failure.text}"
  | numeralTooLong | codePointTooLarge | codePointBeyondWord | includeUnnamed => none
  | keyNotSimple | nullInPath | notUtf8 | integerTooLarge | notANumeral | notNumeric => none

end Error

end LayeredConfig
