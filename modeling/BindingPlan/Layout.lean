import BindingPlan.Class.Document

/-!
# Layouts

The description of one layout: its own classes, its imports and variables, and its binding
expressions.
-/

namespace BindingPlan

/-- An imported class, under its simple name if no other is given (`ImportDecl`). -/
structure ImportDecl where
  shortName : Option String
  type : String
deriving DecidableEq, Repr

/-- A declared variable with its type (`VariableDecl`). -/
structure VariableDecl where
  name : String
  type : String
deriving DecidableEq, Repr

/-- The description of a layout: its classes, imports and variables, and its bindings (`Layout`). -/
structure Layout where
  classes : List ClassDef
  imports : List ImportDecl
  variableDecls : List VariableDecl
  bindings : List String
deriving DecidableEq, Repr

def ImportDecl.form : RecordForm ImportDecl where
  name := "struct ImportDecl"
  blank := ⟨none, ""⟩
  slots :=
    [ ⟨"alias", false, fun i => return { i with shortName := ← Reader.optionalText }⟩,
      ⟨"type", true, fun i => return { i with type := ← Reader.text }⟩ ]

def VariableDecl.form : RecordForm VariableDecl where
  name := "struct VariableDecl"
  blank := ⟨"", ""⟩
  slots :=
    [ ⟨"name", true, fun v => return { v with name := ← Reader.text }⟩,
      ⟨"type", true, fun v => return { v with type := ← Reader.text }⟩ ]

/-- Every part of a layout may be left out. -/
def Layout.form : RecordForm Layout where
  name := "struct Layout"
  blank := ⟨[], [], [], []⟩
  slots :=
    [ ⟨"classes", false, fun l => return { l with classes := ← Reader.list ClassDef.form.read }⟩,
      ⟨"imports", false, fun l => return { l with imports := ← Reader.list ImportDecl.form.read }⟩,
      ⟨"variables", false,
        fun l => return { l with variableDecls := ← Reader.list VariableDecl.form.read }⟩,
      ⟨"bindings", false, fun l => return { l with bindings := ← Reader.list Reader.text }⟩ ]

/-- A layout by its document (`from_json`). -/
def Layout.read (text : String) : Except JsonError Layout :=
  Layout.form.readDocument text

end BindingPlan
