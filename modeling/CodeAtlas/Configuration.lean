import CodeAtlas.Settings
import CodeAtlas.Toml.Reader

/-!
Settings from a configuration file.
-/

namespace CodeAtlas.Settings

/-- The settings that a file's text gives, where no limit is zero that must be positive. -/
def parse (text : String) : Except Fault Settings :=
  match (Toml.parse? text).bind fun fields => ofJson? (.obj (Toml.fieldsToJson fields)) with
  | some s => s.validate
  | none => .error .toml

end CodeAtlas.Settings
