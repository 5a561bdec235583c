import SymbolGraph.Proofs.TomlValues

/-! Documents of sections survive being written. A document is read line by line, and each line adds to the
    draft what it says: a header opens a table, an assignment adds an entry to the table that was opened
    last. -/

namespace SymbolGraph.Document.Toml

open Reader

/-! ### Keys and lines -/

/-- A name that a key may be without quotes. -/
structure IsKey (name : String) : Prop where
  some_text : name.toList ≠ []
  chars : ∀ c ∈ name.toList, isKeyChar c

instance (name : String) : Decidable (IsKey name) :=
  decidable_of_iff (name.toList ≠ [] ∧ name.toList.all isKeyChar = true)
    ⟨fun ⟨a, b⟩ => ⟨a, List.all_eq_true.mp b⟩, fun ⟨a, b⟩ => ⟨a, List.all_eq_true.mpr b⟩⟩

section
variable {name : String} {after s : List Char}

theorem IsKey.head?_ne (h : IsKey name) {c : Char} (hc : isKeyChar c = false) (after : List Char) :
    (name.toList ++ after).head? ≠ some c := by
  intro hhead
  rw [List.head?_append_of_ne_nil _ h.some_text] at hhead
  rw [h.chars c (List.mem_of_head? hhead)] at hc
  cases hc

theorem IsKey.spaces (h : IsKey name) (after : List Char) :
    spaces (name.toList ++ after) = some ((), name.toList ++ after) := by
  rw [Toml.spaces, bind_taken (run_nothing fun c hc => ?_)]
  · rfl
  · rw [isSpace, Bool.or_eq_false_iff, beq_eq_false_iff_ne, beq_eq_false_iff_ne]
    constructor
    · rintro rfl
      exact h.head?_ne (by decide) after hc
    · rintro rfl
      exact h.head?_ne (by decide) after hc

/-- A key of one part ends before the first character that may not stand in it, and takes the spaces
    after it. -/
theorem IsKey.key (h : IsKey name) (hafter : ∀ c ∈ after.head?, isKeyChar c = false)
    (hspaces : Toml.spaces after = some ((), s)) (hdot : s.head? ≠ some '.') :
    key (name.toList ++ after) = some (([], name), s) := by
  have hpart : keyPart (name.toList ++ after) = some (name, after) := by
    have hrun := run1_append h.some_text h.chars hafter
    rw [keyPart, bind_taken peek?_apply]
    generalize hpeek : (name.toList ++ after).head? = o
    split
    · exact absurd hpeek (h.head?_ne (by decide) after)
    · exact absurd hpeek (h.head?_ne (by decide) after)
    · rw [bind_taken hrun, String.ofList_toList]
      rfl
  have hskip : ¬ ".".toList <+: s := fun hprefix => hdot (List.singleton_prefix_iff_head?_eq_some.mp hprefix)
  have hparts : keyParts nestingLimit (name.toList ++ after) = some ([name], s) := by
    rw [show nestingLimit = 79 + 1 from rfl, keyParts, bind_taken (h.spaces after), bind_taken hpart,
      bind_taken hspaces, branch_other hskip, pure_apply]
  rw [Toml.key, bind_taken hparts]
  rfl

theorem line_blank (s : List Char) : line ('\n' :: s) = some (.blank, '\n' :: s) := rfl

theorem line_header (h : IsKey name) (s : List Char) :
    line ('[' :: (name.toList ++ ']' :: s)) = some (.header [] name, s) := by
  have hspaces : spaces ('[' :: (name.toList ++ ']' :: s)) = some ((), '[' :: (name.toList ++ ']' :: s)) := rfl
  have hnext : ¬ "[[".toList <+: '[' :: (name.toList ++ ']' :: s) := fun hprefix =>
    h.head?_ne (by decide) _ (List.singleton_prefix_iff_head?_eq_some.mp (List.cons_prefix_cons.mp hprefix).2)
  have hkey : key (name.toList ++ ']' :: s) = some (([], name), ']' :: s) :=
    h.key (by simp [isKeyChar]) rfl (by simp)
  rw [line, bind_taken hspaces, bind_taken peek?_apply]
  show (skip? "[[" >>= fun _ => _ : Reader Line) _ = _
  rw [branch_other hnext, bind_taken (mark_cons _), bind_taken hkey]
  dsimp only
  rw [bind_taken (mark_cons _)]
  rfl

theorem line_assignment (h : IsKey name) {chars rest : List Char} {v : Value} (hvalue : Stands chars rest v) :
    line (name.toList ++ (" = ".toList ++ (chars ++ rest))) = some (.assignment [] name v, rest) := by
  let after := " = ".toList ++ (chars ++ rest)
  have hequals : spaces after = some ((), '=' :: ' ' :: (chars ++ rest)) := rfl
  have hrun : run isSpace (' ' :: (chars ++ rest)) = some ([' '], chars ++ rest) :=
    @run_append [' '] _ isSpace (by simp [isSpace]) hvalue.no_space
  have hwide : spaces (' ' :: (chars ++ rest)) = some ((), chars ++ rest) := by
    rw [spaces, bind_taken hrun]
    rfl
  have hkey : key (name.toList ++ after) = some (([], name), '=' :: ' ' :: (chars ++ rest)) :=
    h.key (by simp [after, isKeyChar]) hequals (by simp)
  have hread := hvalue.read _ (Nat.lt_succ_self _)
  show line (name.toList ++ after) = _
  rw [line, bind_taken (h.spaces after), bind_taken peek?_apply]
  -- No other kind of line starts with a character of a key.
  generalize hpeek : (name.toList ++ after).head? = o
  split
  · rw [List.head?_append_of_ne_nil _ h.some_text, List.head?_eq_none_iff] at hpeek
    exact absurd hpeek h.some_text
  · exact absurd hpeek (h.head?_ne (by decide) after)
  · exact absurd hpeek (h.head?_ne (by decide) after)
  · exact absurd hpeek (h.head?_ne (by decide) after)
  · exact absurd hpeek (h.head?_ne (by decide) after)
  · rw [bind_taken hkey]
    dsimp only
    rw [bind_taken (mark_cons _), bind_taken hwide, bind_taken rest_apply, bind_taken hread]
    rfl

end

/-! ### Documents -/

/-- With the draft so far the text is read to its end, and the draft is then `d'`. -/
def Says (d : Draft) (text : List Char) (d' : Draft) : Prop :=
  ∀ fuel, text.length < fuel → lines fuel d text = some (d', [])

theorem says_nil (d : Draft) : Says d [] d := by
  intro fuel hfuel
  cases fuel with
  | zero => omega
  | succ fuel => rfl

theorem Says.cons {d d₁ d' : Draft} {l s : List Char} {entry : Line} (h : Says d₁ s d')
    (hline : line (l ++ '\n' :: s) = some (entry, '\n' :: s)) (hadd : d.add entry = some d₁) :
    Says d (l ++ '\n' :: s) d' := by
  intro fuel hfuel
  cases fuel with
  | zero => omega
  | succ fuel =>
    have hnext := h fuel (by simp at hfuel; omega)
    have hspaces : spaces ('\n' :: s) = some ((), '\n' :: s) := rfl
    have hcomment : comment ('\n' :: s) = some ((), '\n' :: s) := rfl
    rw [lines, bind_taken hline, hadd]
    dsimp only
    rw [bind_taken hspaces, bind_taken hcomment, bind_taken peek?_apply]
    rw [if_neg (by simp), bind_taken (newline_taken s), hnext]

/-! ### What a line adds -/

/-- The draft in which the tables have headers of their own and the last of them is open. -/
def drafted (tables : List (String × List (String × Value))) : Draft where
  root := ⟨.headed, tables.map fun t => (t.1, .table .headed t.2)⟩
  current := (tables.getLast?.map (·.1)).toList

theorem putEntry_new {key : String} {entries : List (String × Value)} (h : key ∉ entries.map (·.1)) (v : Value) :
    Table.putEntry key v entries = entries ++ [(key, v)] := by
  induction entries with
  | nil => rfl
  | cons e es ih =>
    rw [List.map_cons, List.mem_cons, not_or] at h
    rw [Table.putEntry, if_neg (Ne.symm h.1), ih h.2, List.cons_append]

theorem putEntry_last {key : String} {entries : List (String × Value)} (h : key ∉ entries.map (·.1)) (v w : Value) :
    Table.putEntry key v (entries ++ [(key, w)]) = entries ++ [(key, v)] := by
  induction entries with
  | nil => exact if_pos rfl
  | cons e es ih =>
    rw [List.map_cons, List.mem_cons, not_or] at h
    rw [List.cons_append, Table.putEntry, if_neg (Ne.symm h.1), ih h.2, List.cons_append]

theorem lookup_new {key : String} {entries : List (String × Value)} (h : key ∉ entries.map (·.1)) :
    entries.lookup key = none := by
  rw [List.lookup_eq_none_iff]
  intro e he
  exact bne_iff_ne.mpr fun heq => h (by rw [heq]; exact List.mem_map_of_mem he)

theorem lookup_last {key : String} {entries : List (String × Value)} (h : key ∉ entries.map (·.1)) (v : Value) :
    (entries ++ [(key, v)]).lookup key = some v := by
  rw [List.lookup_append, lookup_new h, Option.none_or]
  simp

section
variable {tables : List (String × List (String × Value))} {name key : String}

theorem map_tables : (tables.map fun t => (t.1, Value.table .headed t.2)).map (·.1) = tables.map (·.1) := by
  rw [List.map_map]
  rfl

/-- A header with a new name opens a table without entries. -/
theorem add_header (h : name ∉ tables.map (·.1)) :
    (drafted tables).add (.header [] name) = some (drafted (tables ++ [(name, [])])) := by
  rw [← map_tables] at h
  simp [Draft.add, Table.openHeaded, Table.changeAt, Table.get?, Table.put, drafted, lookup_new h, putEntry_new h]

/-- An assignment to a new key adds an entry to the table that was opened last. -/
theorem add_assignment {entries : List (String × Value)} (h : name ∉ tables.map (·.1)) (hkey : key ∉ entries.map (·.1))
    (v : Value) :
    (drafted (tables ++ [(name, entries)])).add (.assignment [] key v) =
      some (drafted (tables ++ [(name, entries ++ [(key, v)])])) := by
  have hclosed : (TableForm.headed == TableForm.closed) = false := rfl
  have hdotted : (TableForm.headed == TableForm.dotted) = false := rfl
  rw [← map_tables] at h
  simp [Draft.add, Table.assign, Table.changeAt, Table.get?, Table.put, Table.toValue, drafted, lookup_last h,
    putEntry_last h, lookup_new hkey, putEntry_new hkey, hclosed, hdotted]

end

/-! ### Sections -/

/-- An assignment as it is written, with the value that it gives. -/
structure Setting where
  key : String
  chars : List Char
  value : Value
  isKey : IsKey key
  stands : ∀ rest, Stands chars ('\n' :: rest) value

namespace Setting
variable (key : String) (isKey : IsKey key)

def number (n : Nat) (h : n < 9223372036854775808) : Setting :=
  ⟨key, (toString n).toList, .integer n, isKey, fun _ => stands_number h⟩

def bool (b : Bool) : Setting := ⟨key, (toString b).toList, .bool b, isKey, fun _ => stands_bool b⟩

def text (s : String) : Setting :=
  ⟨key, (writeText s).toList, .text s, isKey, fun _ => stands_text s ⟨by simp, by simp⟩⟩

def texts (ss : List String) : Setting :=
  ⟨key, (writeTexts ss).toList, .list (ss.map .text), isKey, fun _ => stands_texts ss⟩

end Setting

/-- A header with the assignments below it. -/
structure Section where
  name : String
  settings : List Setting
  isKey : IsKey name
  distinct : (settings.map (·.key)).Nodup

/-- The line of a setting. -/
def Setting.written (e : Setting) : List Char := e.key.toList ++ (" = ".toList ++ (e.chars ++ ['\n']))

/-- The lines of a section. -/
def Section.written (t : Section) : List Char :=
  '[' :: (t.name.toList ++ ']' :: '\n' :: t.settings.flatMap Setting.written)

/-- The table of a section. -/
def Section.table (t : Section) : String × List (String × Value) :=
  (t.name, t.settings.map fun e => (e.key, e.value))

theorem Says.header {d d₁ d' : Draft} {name : String} {s : List Char} (h : Says d₁ s d') (hname : IsKey name)
    (hadd : d.add (.header [] name) = some d₁) : Says d ('[' :: (name.toList ++ ']' :: '\n' :: s)) d' := by
  have hline : line ('[' :: (name.toList ++ [']']) ++ '\n' :: s) = some (.header [] name, '\n' :: s) := by
    simpa using line_header hname ('\n' :: s)
  simpa using h.cons hline hadd

theorem Says.setting {d d₁ d' : Draft} {s : List Char} (e : Setting) (h : Says d₁ s d')
    (hadd : d.add (.assignment [] e.key e.value) = some d₁) : Says d (e.written ++ s) d' := by
  have hline : line (e.key.toList ++ (" = ".toList ++ e.chars) ++ '\n' :: s) =
      some (.assignment [] e.key e.value, '\n' :: s) := by
    simpa using line_assignment e.isKey (e.stands s)
  simpa [Setting.written] using h.cons hline hadd

section
variable {tables : List (String × List (String × Value))} {s : List Char} {d : Draft}

theorem says_settings {name : String} {entries : List (String × Value)} {settings : List Setting}
    (hname : name ∉ tables.map (·.1)) (hkeys : (entries.map (·.1) ++ settings.map (·.key)).Nodup)
    (h : Says (drafted (tables ++ [(name, entries ++ settings.map fun e => (e.key, e.value))])) s d) :
    Says (drafted (tables ++ [(name, entries)])) (settings.flatMap Setting.written ++ s) d := by
  induction settings generalizing entries with
  | nil => simpa using h
  | cons e more ih =>
    have hkey : e.key ∉ entries.map (·.1) := fun hmem =>
      (List.nodup_append.mp hkeys).2.2 _ hmem _ (List.mem_map_of_mem List.mem_cons_self) rfl
    have hmore := @ih (entries ++ [(e.key, e.value)]) (by simpa using hkeys) (by simpa using h)
    rw [List.flatMap_cons, List.append_assoc]
    exact hmore.setting e (add_assignment hname hkey e.value)

theorem says_section (t : Section) (hname : t.name ∉ tables.map (·.1)) (h : Says (drafted (tables ++ [t.table])) s d) :
    Says (drafted tables) (t.written ++ s) d := by
  have hsettings : Says (drafted (tables ++ [(t.name, [])])) (t.settings.flatMap Setting.written ++ s) d :=
    says_settings hname (by simpa using t.distinct) h
  simpa [Section.written] using hsettings.header t.isKey (add_header hname)

/-- The sections after the first one have a blank line before them. -/
theorem says_sections {ts : List Section} (hnames : (tables.map (·.1) ++ ts.map (·.name)).Nodup) :
    Says (drafted tables) (ts.flatMap fun t => '\n' :: t.written) (drafted (tables ++ ts.map Section.table)) := by
  induction ts generalizing tables with
  | nil => simpa using says_nil _
  | cons t more ih =>
    have hname : t.name ∉ tables.map (·.1) := fun hmem =>
      (List.nodup_append.mp hnames).2.2 _ hmem _ (List.mem_map_of_mem List.mem_cons_self) rfl
    have hmore := @ih (tables ++ [t.table]) (by simpa [Section.table] using hnames)
    have hsection := says_section t hname (by simpa using hmore)
    simpa using hsection.cons (l := []) (line_blank _) rfl

end

/-- A document of sections with different names is read as their tables. -/
theorem read_sections {source : String} (t : Section) (ts : List Section) (hnames : ((t :: ts).map (·.name)).Nodup)
    (hsource : source.toList = t.written ++ ts.flatMap fun t => '\n' :: t.written) :
    read source = some (.table .headed ((t :: ts).map fun t => (t.name, .table .headed t.table.2))) := by
  have hdraft : Says {} source.toList (drafted ((t :: ts).map Section.table)) := by
    rw [hsource]
    have hmore : Says (drafted [t.table]) (ts.flatMap fun t => '\n' :: t.written) (drafted ([t.table] ++ ts.map Section.table)) :=
      says_sections (by simpa [Section.table] using hnames)
    exact @says_section [] _ _ t (by simp) hmore
  have hmark : ¬ "\uFEFF".toList <+: source.toList := by
    rw [hsource]
    exact other_head (by decide)
  rw [read, onText, bind_taken (skip?_other hmark), bind_taken (hdraft _ (Nat.lt_succ_self _))]
  simp [drafted, Table.toValue, Section.table]

end SymbolGraph.Document.Toml
