import BindingPlan.Class.Member
import BindingPlan.Text.Upper

/-!
# The class registry

Descriptions of the host classes, in the order in which they were added, after the built-in types.

* A name finds the class of that name, or else the only class with that simple name.
* A member is searched in the class and then up its chain of parents, which ends at an unknown
  parent or before a class that is already in the chain.
* An access to `name` finds the first of the getters `getName()`, `isName()`, `name()` and then the
  field `name`.
* A class is observable if some class of its chain is declared observable or an observable wrapper.
-/

namespace BindingPlan

/-- A field of a class (`FieldDef`). -/
structure FieldDef where
  name : String
  type : String
  isStatic : Bool
  isFinal : Bool
  bindable : Bool
deriving DecidableEq, Repr

/-- A method of a class (`MethodDef`). -/
structure MethodDef where
  name : String
  type : String
  params : List String
  isStatic : Bool
  bindable : Bool
deriving DecidableEq, Repr

/-- A class with its members (`ClassDef`). -/
structure ClassDef where
  name : String
  parent : Option String
  observable : Bool
  observableField : Bool
  fields : List FieldDef
  methods : List MethodDef
deriving DecidableEq, Repr

/-- A class without parent and members. -/
def ClassDef.bare (name : String) : ClassDef :=
  ⟨name, none, false, false, [], []⟩

instance : Inhabited ClassDef := ⟨.bare ""⟩

/-- The known classes, the built-in types first (`ClassRegistry`). -/
structure ClassRegistry where
  classes : List ClassDef
deriving DecidableEq, Repr

/-- Why a class cannot be added (`RegistryError`). -/
inductive RegistryError where
  | duplicateClass (name : String)
deriving DecidableEq, Repr

def RegistryError.message : RegistryError → String
  | .duplicateClass name => "duplicate class `" ++ name ++ "`"

namespace ClassRegistry

/-- The registry of the built-in types (`new`). -/
def builtin : ClassRegistry :=
  ⟨TypeName.builtin.map ClassDef.bare⟩

instance : Inhabited ClassRegistry := ⟨builtin⟩

/-- The classes that were added to the built-in types. -/
def declared (registry : ClassRegistry) : List ClassDef :=
  registry.classes.filter fun c => !TypeName.builtin.contains c.name

def contains (registry : ClassRegistry) (name : String) : Bool :=
  registry.classes.any (·.name == name)

/-- Adds classes up to the first one whose name is taken (`extend`). -/
def extend (registry : ClassRegistry) : List ClassDef → ClassRegistry × Except RegistryError Unit
  | [] => (registry, .ok ())
  | c :: classes =>
    if registry.contains c.name then (registry, .error (.duplicateClass c.name))
    else extend ⟨registry.classes ++ [c]⟩ classes

/-- The class of the name, or else the only class with that simple name (`lookup`). -/
def lookup? (registry : ClassRegistry) (name : String) : Option ClassDef :=
  match registry.classes.find? (·.name == name) with
  | some c => some c
  | none =>
    match registry.classes.filter fun c => TypeName.simple c.name == name with
    | [only] => some only
    | _ => none

/-! ## Ancestors -/

/-- The parent of a class, as far as it is known. -/
def parent? (registry : ClassRegistry) (c : ClassDef) : Option ClassDef :=
  c.parent.bind registry.lookup?

/-- The ancestors of the last class of a chain that are not in the chain. Each one is another class
of the registry, so there are at most as many as the bound if that is the number of classes. -/
def ancestors (registry : ClassRegistry) : Nat → List String → ClassDef → List ClassDef
  | 0, _, _ => []
  | bound + 1, seen, last =>
    match registry.parent? last with
    | none => []
    | some parent =>
      if parent.name ∈ seen then []
      else parent :: ancestors registry bound (parent.name :: seen) parent

/-- A class followed by its ancestors (`chain`). -/
def chain (registry : ClassRegistry) (c : ClassDef) : List ClassDef :=
  c :: registry.ancestors registry.classes.length [c.name] c

/-- A class as the type of an expression (`model_class`). -/
def typeOf (registry : ClassRegistry) (c : ClassDef) : ClassType :=
  let chain := registry.chain c
  ⟨c.name, chain.any fun c => c.observable || c.observableField, chain.any (·.observableField)⟩

/-! ## Look-up of types and members -/

/-- The type of a class by its name (`find_class`). -/
def findClass (registry : ClassRegistry) (name : String) : Except ResolveError ClassType :=
  match registry.lookup? name with
  | some c => .ok (registry.typeOf c)
  | none => .error (.unknownClass name)

/-- The chain of the class that a type names (`class_def`). -/
def chainOf (registry : ClassRegistry) (owner : ClassType) :
    Except ResolveError (List ClassDef) :=
  match registry.lookup? owner.name with
  | some c => .ok (registry.chain c)
  | none => .error (.unknownClass owner.name)

/-- A method as the member of an access (`method_callable`). -/
def memberOfMethod (registry : ClassRegistry) (method : MethodDef) :
    Except ResolveError Member := do
  let type ← registry.findClass method.type
  return ⟨method.name, .method, method.isStatic, true, method.bindable, type⟩

/-- A field is dynamic unless it is final. -/
def memberOfField (registry : ClassRegistry) (field : FieldDef) : Except ResolveError Member := do
  let type ← registry.findClass field.type
  return ⟨field.name, .field, field.isStatic, !field.isFinal, field.bindable, type⟩

/-- The names of the methods that an access can go through, first choice first. -/
def getterNames (name : String) : List String :=
  ["get" ++ capitalize name, "is" ++ capitalize name, name]

/-- The first method of the chain with the name that takes no arguments. -/
def findGetter? (chain : List ClassDef) (staticOnly : Bool) (name : String) : Option MethodDef :=
  (chain.flatMap ClassDef.methods).find? fun m =>
    m.name == name && m.params.isEmpty && (!staticOnly || m.isStatic)

/-- The member that an access to a name finds (`find_getter_or_field`): the first getter, or else
the field. Where only static members count, others are passed over. -/
def findMember (registry : ClassRegistry) (owner : ClassType) (name : String)
    (staticOnly : Bool) : Except ResolveError Member := do
  let chain ← registry.chainOf owner
  match (getterNames name).findSome? (findGetter? chain staticOnly) with
  | some method => registry.memberOfMethod method
  | none =>
    let field := (chain.flatMap ClassDef.fields).find? fun f =>
      f.name == name && (!staticOnly || f.isStatic)
    match field with
    | some field => registry.memberOfField field
    | none => throw (.unknownMember owner.name name)

/-- Every parameter names the class of its argument. -/
def accepts (registry : ClassRegistry) (method : MethodDef) (args : List ClassType) : Bool :=
  (method.params.zip args).all fun (param, arg) =>
    match registry.lookup? param with
    | some c => c.name == arg.name
    | none => false

/-- The method that a call finds (`find_method`): of the methods with the name and the number of
arguments, the first one whose parameters are the argument types, or else the first one. -/
def findMethod (registry : ClassRegistry) (owner : ClassType) (name : String)
    (args : List ClassType) (staticOnly : Bool) : Except ResolveError Member := do
  let chain ← registry.chainOf owner
  let candidates := (chain.flatMap ClassDef.methods).filter fun m =>
    m.name == name && m.params.length == args.length && (!staticOnly || m.isStatic)
  match (candidates.find? (registry.accepts · args)).or candidates.head? with
  | some method => registry.memberOfMethod method
  | none => throw (.unknownMethod owner.name name args.length)

end ClassRegistry
end BindingPlan
