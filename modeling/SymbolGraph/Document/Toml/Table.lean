import SymbolGraph.Document.Value

/-! Putting a TOML document together. Headers and keys name tables by paths; a table may be described
    in several places, but only in ways that do not contradict each other. -/

namespace SymbolGraph.Document.Toml

/-- The entries of a table with the way it came to be. -/
structure Table where
  form : TableForm
  entries : List (String × Value)
  deriving Repr, BEq

namespace Table

/-- The table as a value. -/
def toValue (t : Table) : Value := .table t.form t.entries

/-- The entry of that name. -/
def get? (t : Table) (key : String) : Option Value := t.entries.lookup key

/-- Replaces the first entry of that name, or adds it at the end. -/
def putEntry (key : String) (v : Value) : List (String × Value) → List (String × Value)
  | [] => [(key, v)]
  | (k, w) :: rest => if k = key then (k, v) :: rest else (k, w) :: putEntry key v rest

/-- The table with the entry. -/
def put (t : Table) (key : String) (v : Value) : Table := { t with entries := putEntry key v t.entries }

/-- The table that a mention of it creates. -/
def mentioned (dotted : Bool) : Table := ⟨if dotted then .dotted else .implied, []⟩

/-- Whether a key with dots may reach into the table: it has no header of its own. -/
def openToKeys (form : TableForm) : Bool := form == .implied || form == .dotted

/-- Changes the table at the path. Tables on the way that do not exist are created, and of a list of
    tables the last one is meant. With `dotted` the path stands in a key. -/
def changeAt (dotted : Bool) : List String → (Table → Option Table) → Table → Option Table
  | [], change, t => change t
  | key :: path, change, t =>
    match t.get? key with
    | none => (changeAt dotted path change (mentioned dotted)).map fun u => t.put key u.toValue
    | some (.table form entries) =>
      if form == .closed || (dotted && !openToKeys form) then none
      else (changeAt dotted path change ⟨form, entries⟩).map fun u => t.put key u.toValue
    | some (.headedList items) =>
      match items.getLast? with
      | some (.table form entries) =>
        (changeAt dotted path change ⟨form, entries⟩).map fun u =>
          t.put key (.headedList (items.dropLast ++ [u.toValue]))
      | _ => none
    | some _ => none

/-- Adds an entry under a key with dots. Only tables that keys with dots have made are reached that
    way, and no entry is given twice. -/
def assign (t : Table) (path : List String) (key : String) (v : Value) : Option Table :=
  let add (u : Table) : Option Table :=
    if (u.form == .dotted) == path.isEmpty || (u.get? key).isSome then none else some (u.put key v)
  changeAt true path add t

/-- Opens the table of a header. Only a table that other headers have mentioned may be there. -/
def openHeaded (t : Table) (path : List String) (key : String) : Option Table :=
  let enter (u : Table) : Option Table :=
    match u.get? key with
    | none => some (u.put key (.table .headed []))
    | some (.table .implied entries) => some (u.put key (.table .headed entries))
    | some _ => none
  changeAt false path enter t

/-- Opens the next table of a list of tables. -/
def openNext (t : Table) (path : List String) (key : String) : Option Table :=
  let enter (u : Table) : Option Table :=
    match u.get? key with
    | none => some (u.put key (.headedList [.table .headed []]))
    | some (.headedList items) => some (u.put key (.headedList (items ++ [.table .headed []])))
    | some _ => none
  changeAt false path enter t

end Table
end SymbolGraph.Document.Toml
