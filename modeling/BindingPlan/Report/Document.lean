import BindingPlan.Binding.Analysis
import BindingPlan.Digest
import BindingPlan.Json.Writer
import BindingPlan.Report.FlagList

/-!
# Analyses as documents

An analysis in full: digests of what it was made from, the flags, the imports, the roots of the
bindings, all nodes with their edges, and the passes.
-/

namespace BindingPlan

/-- The version that a document names. -/
def programVersion : String := "0.1.0"

def Json.nats (numbers : List Nat) : Json :=
  .array (numbers.map .nat)

def Guard.toJson (guard : Guard) : Json :=
  .object [("predicate", .nat guard.predicate), ("branch", .bool guard.branch)]

/-- The guard stands last, where there is one. -/
def Dependency.toJson (dependency : Dependency) : Json :=
  .object
    ([("target", .nat dependency.target), ("mandatory", .bool dependency.mandatory)] ++
      dependency.guard.toList.map fun guard => ("guard", guard.toJson))

def Import.toJson (entry : Import) : Json :=
  .object [("alias", .string entry.shortName), ("qualified", .string entry.qualified)]

namespace Graph

def flagToJson (graph : Graph) (flag : Nat) (purpose : Purpose) : Json :=
  .object
    [("index", .nat flag), ("kind", .string purpose.word), ("name", .string (graph.flagName flag))]

def nodeToJson (graph : Graph) (id : Nat) : Json :=
  let node := graph.node id
  let netNode := graph.netNodeOf id
  .object
    [ ("id", .nat id), ("key", .string node.key),
      ("type", .optional (fun type => .string type.name) node.resolvedType),
      ("dynamic", .bool node.isDynamic), ("binding", .bool node.isBinding),
      ("flag", .optional .nat netNode.flag), ("invalid", .nats netNode.invalid.toList),
      ("dependencies", .array (netNode.dependencies.map Dependency.toJson)) ]

def readToJson (graph : Graph) (read : ScheduledRead) : Json :=
  .object
    [ ("expr", .nat read.node), ("key", .string (graph.keyOf read.node)),
      ("layer", .nat read.layer), ("flags", .nats read.flags.toList) ]

def passToJson (graph : Graph) (pass : Pass) : Json :=
  .array (pass.reads.map graph.readToJson)

end Graph

namespace Analysis

/-- The digest of the description as it was read (`source_hash_hex`). -/
def sourceDigest (analysis : Analysis) : Digest :=
  .ofText analysis.source

/-- The digest of all declared classes, those of the layout included
(`registry_fingerprint_hex`). -/
def classDigest (analysis : Analysis) : Digest :=
  .ofText analysis.classes.canonicalText

/-- The document of an analysis (`report`). -/
def toJson (analysis : Analysis) : Json :=
  let graph := analysis.graph
  .object
    [ ("compiler_version", .string programVersion),
      ("source_hash", .string analysis.sourceDigest.hex),
      ("registry_fingerprint", .string analysis.classDigest.hex),
      ("flag_count", .nat analysis.schedule.flagCount),
      ("invalidateable_limit", .nat analysis.schedule.limit),
      ("flags",
        .array (graph.flags.toList.map fun (flag, purpose) => graph.flagToJson flag purpose)),
      ("imports", .array (graph.imports.entries.map Import.toJson)),
      ("bindings", .nats analysis.roots),
      ("expressions", .array (graph.ids.map graph.nodeToJson)),
      ("passes", .array (analysis.schedule.passes.map graph.passToJson)) ]

end Analysis
end BindingPlan
