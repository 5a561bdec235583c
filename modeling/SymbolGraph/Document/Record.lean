import SymbolGraph.Document.Value

/-! Values as records with named fields. A record may be written as a table or, with its fields in
    order, as a list. A date counts as a table with a field of its own. -/

namespace SymbolGraph.Document

/-- What is let pass in a record. -/
structure RecordRule where
  /-- Fields with other names. -/
  otherFields : Bool := true
  /-- Items after those for the fields. -/
  otherItems : Bool := false
  deriving Repr, BEq, DecidableEq

/-- The field of that name; it must not be given twice. -/
def field? (entries : List (String × Value)) (name : String) : Option (Option Value) :=
  match entries.filter (·.1 == name) with
  | [] => some none
  | [(_, v)] => some (some v)
  | _ => none

/-- The values of the named fields, each of which may be missing. -/
def fields (rule : RecordRule) (names : List String) : Value → Option (List (Option Value))
  | .table _ entries =>
    if rule.otherFields || entries.all (names.contains ·.1) then names.mapM (field? entries) else none
  | .list items => ofItems items
  | .headedList items => ofItems items
  | .date _ => if rule.otherFields then some (names.map fun _ => none) else none
  | _ => none
where
  /-- The fields in order, as many as there are items. -/
  ofItems (items : List Value) : Option (List (Option Value)) :=
    if rule.otherItems || items.length ≤ names.length then
      some ((List.range names.length).map fun i => items[i]?)
    else none

/-- The value of a field, or the default if the field is missing. -/
def fieldOr {α : Type} (default : α) (read : Value → Option α) : Option Value → Option α
  | none => some default
  | some v => read v

end SymbolGraph.Document
