import PlanArchive.Payload
import PlanArchive.Text.Quoted

/-!
# Plugins and their registry

An action names the plugin that runs it. The archive asks a plugin one thing only: to decode the
payloads that the actions of its name were stored with. The registry knows plugins by name and
holds at most one of each name.
-/

namespace PlanArchive

/-- Decodes the payloads of the actions that name it. -/
structure Plugin where
  name : String
  /-- The request that a stored value encodes. -/
  decodeRequest : Json → Option Payload
  /-- The response that a stored value encodes. -/
  decodeResponse : Json → Option Payload

namespace Plugin

/-- A plugin whose requests and responses are records. -/
def typed (name : String) (request response : RecordType) : Plugin where
  name := name
  decodeRequest := request.decode?
  decodeResponse := response.decode?

/-- The type name of payloads that are kept as they are. -/
def untypedName : String := "json"

/-- A plugin that keeps any payload as it is. -/
def untyped (name : String) : Plugin where
  name := name
  decodeRequest := fun v => some (.ofJson untypedName v)
  decodeResponse := fun v => some (.ofJson untypedName v)

end Plugin

/-- The registered plugins, each under its name. -/
structure Registry where
  plugins : List Plugin
  /-- No two plugins have the same name. -/
  distinct : (plugins.map Plugin.name).Nodup

namespace Registry

/-- The registry without plugins. -/
def empty : Registry := ⟨[], List.nodup_nil⟩

instance : Inhabited Registry := ⟨empty⟩

/-- The plugin of a name. -/
def lookup? (r : Registry) (name : String) : Option Plugin :=
  r.plugins.find? fun p => p.name == name

/-- Registers a plugin, in place of the one of its name if there is one. -/
def register (r : Registry) (plugin : Plugin) : Registry where
  plugins := r.plugins.filter (fun p => p.name != plugin.name) ++ [plugin]
  distinct := by
    rw [List.map_append, List.nodup_append]
    refine ⟨(r.distinct.sublist (List.Sublist.map _ List.filter_sublist)), by simp, ?_⟩
    intro a inKept b isNew equal
    obtain ⟨p, kept, rfl⟩ := List.mem_map.mp inKept
    have different := (List.mem_filter.mp kept).2
    simp only [List.map_cons, List.map_nil, List.mem_singleton] at isNew
    simp [equal, isNew] at different

/-- A registry of these plugins, registered in order. -/
def ofList (plugins : List Plugin) : Registry := plugins.foldl register empty

/-- How many plugins there are. -/
def size (r : Registry) : Nat := r.plugins.length

/-- Whether there is no plugin. -/
def isEmpty (r : Registry) : Bool := r.plugins.isEmpty

/-- The names of all plugins in ascending order. -/
def names (r : Registry) : List String :=
  (r.plugins.map Plugin.name).mergeSort fun a b => !decide (b < a)

/-- The registry as a message shows it. -/
def toText (r : Registry) : String :=
  "Registry \x7b plugins: " ++ Text.quotedList r.names ++ " \x7d"

end Registry

end PlanArchive
