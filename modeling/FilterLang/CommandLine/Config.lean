import FilterLang.CommandLine.Arguments
import FilterLang.Toml.Reader
/-!
Configuration files: the format of the output, and names for every context.
-/

namespace FilterLang.CommandLine

/-- The content of a configuration file. -/
structure Config where
  output : Option Format := none
  /-- Names that every context holds. -/
  context : Table Json := []

namespace Config

/-- The format that a document names: by its name, or by an object with nothing
under that name. -/
def format? : Json → Option Format
  | .str name => Format.ofName? name
  | .object [(name, .object [])] => Format.ofName? name
  | .object [(name, .array [])] => Format.ofName? name
  | _ => none

/-- The configuration that the members of a document describe. Members with other
names are not allowed. -/
def ofMembers? (members : Table Json) : Option Config := do
  let config ← match Table.get? members "output" with
    | some j => (format? j).map fun f => { output := some f : Config }
    | none => some {}
  let config ← match Table.get? members "context" with
    | some (.object context) => some { config with context }
    | some _ => none
    | none => some config
  if members.all fun m => m.1 == "output" || m.1 == "context" then some config else none

def read? (text : String) : Option Config :=
  (Toml.read? text).bind ofMembers?

end Config

end FilterLang.CommandLine
