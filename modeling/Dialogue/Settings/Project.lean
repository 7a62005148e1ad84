import Dialogue.Script.Index
import Dialogue.Settings.File
import Dialogue.Settings.PathValue
import Dialogue.Store

/-!
# Where a project keeps its files

Each folder of a project has a default, and a field of the settings that replaces it. A field that
is empty or missing leaves the default. Messages are by default taken from the English folder of the
assets, if there is one. A pattern is kept as the settings have it, and is looked at only when files
are looked for.
-/

namespace Dialogue.Settings

/-- The folders of a project and the patterns of its files. -/
structure Project where
  path : Text
  scriptFolder : Text
  scriptPattern : Json
  assetFolder : Text
  assetPattern : Json
  schemaFolder : Text

/-- A field, or the default where the field is empty or missing. -/
def fieldOr (fields : Fields) (name : Text) (default : Text) : Json :=
  let value := (Json.object fields).field name
  if value.truthy then value else .string default

/-- The default folder of dumps in a project. -/
def defaultAssets (tree : FileTree) (project : Text) : Text :=
  let assets := Path.join project "Assets"
  let english := Path.join (Path.join (Path.join assets "format_msbt") "en") "english"
  if tree.isFolder english then english else assets

def Project.ofFields (tree : FileTree) (fields : Fields) : Except PathError Project := do
  let path := Path.absolute tree.homePath (← pathOf (fieldOr fields "project_path" ['.']))
  let scripts ← partOf (fieldOr fields "script_dir" [])
  let assets ← partOf (fieldOr fields "asset_dir" (defaultAssets tree path))
  let schema ← partOf (fieldOr fields "schema_dir" "JSON")
  pure
    { path
      scriptFolder := Path.join path scripts
      scriptPattern := fieldOr fields "script_glob" Script.defaultPattern
      assetFolder := Path.join path assets
      assetPattern := fieldOr fields "asset_glob" Store.defaultPattern
      schemaFolder := Path.join path schema }

/-- The pattern of the files in a folder. It is looked at only if the folder is there. -/
def patternIn (tree : FileTree) (folder : Text) (pattern : Json) : Except PathError Text :=
  if tree.isFolder folder then partOf pattern else .ok []

end Dialogue.Settings
