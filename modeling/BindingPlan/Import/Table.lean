/-!
# The import table

Short names of qualified class names, in the order in which they were added. A name never changes
its class: when a wanted name is taken by another class, the first free numeral is appended, so
`View` becomes `View1`, then `View2`.
-/

namespace BindingPlan

/-- A short name and the class that it stands for. -/
structure Import where
  shortName : String
  qualified : String
deriving DecidableEq, Repr

/-- The imports in the order in which they were declared (`ImportRegistry`). -/
structure ImportTable where
  entries : List Import
deriving DecidableEq, Repr

namespace ImportTable

def empty : ImportTable := ⟨[]⟩

instance : Inhabited ImportTable := ⟨empty⟩

/-- The class behind a short name (`get`). -/
def get? (table : ImportTable) (shortName : String) : Option String :=
  (table.entries.find? (·.shortName = shortName)).map Import.qualified

/-- The earliest short name of a class (`alias_of`). -/
def shortNameOf? (table : ImportTable) (qualified : String) : Option String :=
  (table.entries.find? (·.qualified = qualified)).map Import.shortName

/-- Whether a name is unused or already stands for the class. -/
def fits (table : ImportTable) (qualified name : String) : Bool :=
  match table.get? name with
  | none => true
  | some other => other == qualified

/-- The wanted name if it fits, else the first numbered one that does (`free_alias`). Of one number
more than the table has entries, at least one is unused. -/
def freeName (table : ImportTable) (wanted qualified : String) : String :=
  if table.fits qualified wanted then wanted
  else
    let numbers := List.range' 1 (table.entries.length + 1)
    let candidates := numbers.map fun n => wanted ++ toString n
    (candidates.find? (table.fits qualified)).getD wanted

/-- Imports a class (`add`); gives the short name that it got. -/
def add (table : ImportTable) (wanted qualified : String) : String × ImportTable :=
  let name := table.freeName wanted qualified
  match table.get? name with
  | some _ => (name, table)
  | none => (name, ⟨table.entries ++ [⟨name, qualified⟩]⟩)

/-- The short name of a class, which is imported as wanted if it has none (`alias_for_type`). -/
def nameFor (table : ImportTable) (qualified wanted : String) : String × ImportTable :=
  match table.shortNameOf? qualified with
  | some name => (name, table)
  | none => table.add wanted qualified

end ImportTable
end BindingPlan
