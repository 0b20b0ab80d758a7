import Soql.Schema.Basic
import Soql.Schema.Search

namespace Soql

/-- What one tenant has: objects, a vector for some of them, and records. -/
structure Holdings where
  objects : Catalog := []
  vectors : List (String × List Float) := []
  records : List Record := []
  deriving Inhabited

abbrev Tenant := Option String

abbrev SchemaGraph := List (Tenant × Holdings)

namespace SchemaGraph

def schema (graph : SchemaGraph) (tenant : Tenant) : Holdings :=
  (Table.find? tenant graph).getD {}

def load (graph : SchemaGraph) (tenant : Tenant) (schema : Holdings) : SchemaGraph :=
  Table.put tenant schema graph

def loadObject (graph : SchemaGraph) (tenant : Tenant) (o : SObject) : SchemaGraph :=
  let schema := graph.schema tenant
  Table.put tenant { schema with objects := Table.put o.name o schema.objects } graph

def objects (graph : SchemaGraph) (tenant : Tenant) : Catalog :=
  (graph.schema tenant).objects

def summaries (graph : SchemaGraph) (tenant : Tenant) : List Summary :=
  (graph.objects tenant).map (·.2.summary)

def detail (graph : SchemaGraph) (tenant : Tenant) (name : String) : Option SObject :=
  (graph.objects tenant).get? name

def vectors (graph : SchemaGraph) (tenant : Tenant) (names : List String) :
    List (String × List Float) :=
  let held := (graph.schema tenant).vectors
  Table.putAll (names.filterMap fun name => (Table.find? name held).map fun v => (name, v)) []

def neighbors (graph : SchemaGraph) (tenant : Tenant) (name : String) : List String :=
  match Table.find? name (graph.objects tenant) with
  | some o => o.neighbors
  | none => []

def search (graph : SchemaGraph) (tenant : Tenant) (text : String) : List Record :=
  Search.run (graph.schema tenant).records text

end SchemaGraph

end Soql
