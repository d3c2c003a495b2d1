import RequestEngine.Files
import RequestEngine.Function.Codec

/-! Function tables from configuration files. The extension of the name tells the format. -/
namespace RequestEngine

inductive ConfigError where
  | io (fault : FileFault)
  | json (e : Json.Error)
  | yaml (e : Yaml.Error)
  | unsupportedFormat (path : String)

namespace ConfigError

/-- The message of what lies behind, if that is a failure of its own. -/
def cause? : ConfigError → Option String
  | .io fault => some fault.message
  | .json e => some e.message
  | .yaml e => some e.message
  | .unsupportedFormat _ => none

def message : ConfigError → String
  | .io fault => "IO error: " ++ fault.message
  | .json e => "JSON error: " ++ e.message
  | .yaml e => "YAML error: " ++ e.message
  | .unsupportedFormat path => "Unsupported configuration format: " ++ path

def engineMessage (e : ConfigError) : String := "Configuration error: " ++ e.message

end ConfigError

inductive ConfigFormat where
  | json
  | yaml
  deriving DecidableEq, Repr

/-- The format that an extension stands for, in small or capital letters. -/
def ConfigFormat.ofPath? (path : String) : Option ConfigFormat := do
  let extension := (← extension? path.toList).map Char.toLower
  if extension = ['j', 's', 'o', 'n'] then some .json
  else if extension = ['y', 'a', 'm', 'l'] ∨ extension = ['y', 'm', 'l'] then some .yaml
  else none

/-- The table in a file, whose content is read first. -/
def FunctionTable.ofFile (path : String) (content : Except FileFault ByteArray) :
    Except ConfigError FunctionTable := do
  let bytes ← content.mapError .io
  let text ← (textOfBytes bytes).mapError .io
  match ConfigFormat.ofPath? path with
  | some .json => (FunctionTable.decoder.decodeText text).mapError .json
  | some .yaml => (FunctionTable.yamlDecoder.decodeText text).mapError .yaml
  | none => throw (.unsupportedFormat path)

end RequestEngine
