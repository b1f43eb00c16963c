import BindingPlan.Class.Registry
import BindingPlan.Json.Reader
import BindingPlan.Json.Writer

/-!
# Class descriptions as documents

How classes are read from class files and layouts, and the canonical text of a registry, which is
the class list of a class file again.
-/

namespace BindingPlan

/-- Fields must have a name and a type; all else is false unless it is given. -/
def FieldDef.form : RecordForm FieldDef where
  name := "struct FieldDef"
  blank := ⟨"", "", false, false, false⟩
  slots :=
    [ ⟨"name", true, fun f => return { f with name := ← Reader.text }⟩,
      ⟨"type", true, fun f => return { f with type := ← Reader.text }⟩,
      ⟨"static", false, fun f => return { f with isStatic := ← Reader.bool }⟩,
      ⟨"final", false, fun f => return { f with isFinal := ← Reader.bool }⟩,
      ⟨"bindable", false, fun f => return { f with bindable := ← Reader.bool }⟩ ]

/-- Methods must have a name and a type; without parameters they take none. -/
def MethodDef.form : RecordForm MethodDef where
  name := "struct MethodDef"
  blank := ⟨"", "", [], false, false⟩
  slots :=
    [ ⟨"name", true, fun m => return { m with name := ← Reader.text }⟩,
      ⟨"type", true, fun m => return { m with type := ← Reader.text }⟩,
      ⟨"params", false, fun m => return { m with params := ← Reader.list Reader.text }⟩,
      ⟨"static", false, fun m => return { m with isStatic := ← Reader.bool }⟩,
      ⟨"bindable", false, fun m => return { m with bindable := ← Reader.bool }⟩ ]

/-- Classes must have a name. -/
def ClassDef.form : RecordForm ClassDef where
  name := "struct ClassDef"
  blank := .bare ""
  slots :=
    [ ⟨"name", true, fun c => return { c with name := ← Reader.text }⟩,
      ⟨"extends", false, fun c => return { c with parent := ← Reader.optionalText }⟩,
      ⟨"observable", false, fun c => return { c with observable := ← Reader.bool }⟩,
      ⟨"observable_field", false, fun c => return { c with observableField := ← Reader.bool }⟩,
      ⟨"fields", false, fun c => return { c with fields := ← Reader.list FieldDef.form.read }⟩,
      ⟨"methods", false, fun c => return { c with methods := ← Reader.list MethodDef.form.read }⟩ ]

/-- The content of a class file (`ClassFile`). -/
structure ClassFile where
  classes : List ClassDef
deriving DecidableEq, Repr

def ClassFile.form : RecordForm ClassFile where
  name := "struct ClassFile"
  blank := ⟨[]⟩
  slots := [⟨"classes", true, fun _ => return ⟨← Reader.list ClassDef.form.read⟩⟩]

def ClassFile.read (text : String) : Except JsonError ClassFile :=
  ClassFile.form.readDocument text

/-! ## Canonical text -/

def FieldDef.toJson (f : FieldDef) : Json :=
  .object
    [ ("name", .string f.name), ("type", .string f.type), ("static", .bool f.isStatic),
      ("final", .bool f.isFinal), ("bindable", .bool f.bindable) ]

def MethodDef.toJson (m : MethodDef) : Json :=
  .object
    [ ("name", .string m.name), ("type", .string m.type), ("params", .array (m.params.map .string)),
      ("static", .bool m.isStatic), ("bindable", .bool m.bindable) ]

/-- All fields in order; the parent only if there is one. -/
def ClassDef.toJson (c : ClassDef) : Json :=
  let parent :=
    match c.parent with
    | some parent => [("extends", Json.string parent)]
    | none => []
  .object
    ([("name", .string c.name)] ++ parent ++
      [ ("observable", .bool c.observable), ("observable_field", .bool c.observableField),
        ("fields", .array (c.fields.map FieldDef.toJson)),
        ("methods", .array (c.methods.map MethodDef.toJson)) ])

/-- One text per content (`canonical_json`): the declared classes, compact and in order. -/
def ClassRegistry.canonicalText (registry : ClassRegistry) : String :=
  (Json.array (registry.declared.map ClassDef.toJson)).compact

/-! ## Loading -/

/-- Why a class file cannot be loaded. -/
inductive LoadError where
  | document (error : JsonError)
  | registry (error : RegistryError)
deriving DecidableEq, Repr

def LoadError.message : LoadError → String
  | .document e => "invalid class description: " ++ e.message
  | .registry e => e.message

/-- Adds the classes of a class file (`load_json`). Where a class is a duplicate, those before it
stay. -/
def ClassRegistry.load (registry : ClassRegistry) (text : String) :
    ClassRegistry × Except LoadError Nat :=
  match ClassFile.read text with
  | .error e => (registry, .error (.document e))
  | .ok file =>
    match registry.extend file.classes with
    | (registry, .ok ()) => (registry, .ok file.classes.length)
    | (registry, .error e) => (registry, .error (.registry e))

/-- Adds the classes of several class files in order, up to the first failure (`load_file`). -/
def ClassRegistry.loadAll (registry : ClassRegistry) : List String → Except LoadError ClassRegistry
  | [] => .ok registry
  | text :: texts =>
    match registry.load text with
    | (registry, .ok _) => registry.loadAll texts
    | (_, .error e) => .error e

end BindingPlan
