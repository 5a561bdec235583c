import SymbolGraph.Import.Candidates

/-! A choice of languages. -/

namespace SymbolGraph

/-- The languages that are indexed, each at most once. -/
structure Registry where
  languages : List Language
  deriving Repr, BEq, DecidableEq

namespace Registry

/-- All languages. -/
def full : Registry := ⟨Language.all⟩

/-- The languages with the given names; unknown names are passed over. -/
def ofIds (ids : List String) : Registry := ⟨(ids.filterMap Language.ofId?).eraseDups⟩

/-- The language of that name, if it is registered. -/
def get? (r : Registry) (id : String) : Option Language := r.languages.find? (·.id == id)

/-- The language of a path, if it is registered. -/
def forPath? (r : Registry) (path : String) : Option Language :=
  (Language.ofPath? path).filter r.languages.contains

/-- The texts in ascending order. -/
def sorted (texts : List String) : List String := texts.mergeSort fun a b => decide (a ≤ b)

/-- The names of the languages, in ascending order. -/
def ids (r : Registry) : List String := sorted (r.languages.map (·.id))

/-- The extensions of the languages, in ascending order. -/
def extensions (r : Registry) : List String := sorted (r.languages.flatMap (·.extensions))

end Registry
end SymbolGraph
