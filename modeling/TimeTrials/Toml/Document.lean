import TimeTrials.Toml.Value

/-!
# TOML documents

A document is a sequence of sections: the keys before the first header, then one section for every
header.  Sections are added one by one to a tree, and the tree remembers how each of its tables came
about, because that decides what may still be added to it:

* a *declared* table has had its header and accepts no second one, nor keys from elsewhere;
* an *implied* table was only passed through by a longer header, and may still get its own;
* a *dotted* table was made by dotted keys, and accepts more of these but never a header.

When an implied table gets its header it moves to the place of that header in the order of keys.
-/

namespace TimeTrials.Toml

/-- How a table came about. -/
inductive Origin where
  | declared
  | implied
  | dotted
  deriving DecidableEq

/-- A tree under construction. -/
inductive Node where
  | value (v : Value)
  | table (origin : Origin) (entries : List (String × Node))
  /-- An array with one table for each of its headers. -/
  | tables (elements : List (List (String × Node)))

/-- The keys of a table under construction. -/
abbrev Entries := List (String × Node)

namespace Entries

/-- Puts a node in place of the one at a key. -/
def replace (key : String) (node : Node) (entries : Entries) : Entries :=
  entries.map fun (k, n) => if k = key then (k, node) else (k, n)

/-- Takes a key away. -/
def erase (key : String) (entries : Entries) : Entries := entries.filter (·.1 != key)

/-- Adds a new key at the end. -/
def insertNew (key : String) (node : Node) (entries : Entries) : Option Entries :=
  match entries.lookup key with
  | none => some (entries ++ [(key, node)])
  | some _ => none

/-- Applies a change to the last of several tables. -/
def changeLast (change : Entries → Option Entries) (elements : List Entries) :
    Option (List Entries) := do
  let last ← elements.getLast?
  return elements.dropLast ++ [← change last]

/-- Adds a dotted key.  Tables on the way are made as needed, and the one that takes the last part
has to be a dotted one. -/
def insertPath (key : String) (node : Node) : List String → Entries → Option Entries
  | [], entries => insertNew key node entries
  | part :: rest, entries =>
    match entries.lookup part with
    | none => do return entries ++ [(part, .table .dotted (← insertPath key node rest []))]
    | some (.table origin inner) =>
      if origin = .declared ∨ (rest = [] ∧ origin ≠ .dotted) then none
      else do return entries.replace part (.table origin (← insertPath key node rest inner))
    | some (.tables elements) =>
      if rest = [] then none
      else do
        return entries.replace part (.tables (← changeLast (insertPath key node rest) elements))
    | some (.value _) => none

/-- Changes the table at the end of a header's path.  Tables on the way are implied; a way through an
array of tables goes on in its last element. -/
def changeAt (change : Entries → Option Entries) : List String → Entries → Option Entries
  | [], entries => change entries
  | part :: rest, entries =>
    match entries.lookup part with
    | none => do return entries ++ [(part, .table .implied (← changeAt change rest []))]
    | some (.table origin inner) =>
      do return entries.replace part (.table origin (← changeAt change rest inner))
    | some (.tables elements) =>
      do return entries.replace part (.tables (← changeLast (changeAt change rest) elements))
    | some (.value _) => none

end Entries

/-- A key with its value: the parts of the key, the last one apart. -/
structure Assignment where
  path : List String
  key : String
  value : Value

/-- Adds assignments to a table in order. -/
def Entries.assign (entries : Entries) (assignments : List Assignment) : Option Entries :=
  assignments.foldlM
    (fun entries a => entries.insertPath a.key (.value a.value) a.path) entries

/-- Which table a section's keys go to. -/
inductive Header where
  | table (path : List String) (key : String)
  | element (path : List String) (key : String)

/-- A header and the keys under it. -/
structure Section where
  header : Header
  assignments : List Assignment

/-- Adds a section to the tree. -/
def Entries.addSection (entries : Entries) (s : Section) : Option Entries :=
  match s.header with
  | .table path key =>
    entries.changeAt (fun parent =>
      match parent.lookup key with
      | none => do return parent ++ [(key, .table .declared (← Entries.assign [] s.assignments))]
      | some (.table .implied inner) => do
        let inner ← Entries.assign inner s.assignments
        return parent.erase key ++ [(key, .table .declared inner)]
      | some _ => none) path
  | .element path key =>
    entries.changeAt (fun parent => do
      let element ← Entries.assign [] s.assignments
      match parent.lookup key with
      | none => return parent ++ [(key, .tables [element])]
      | some (.tables elements) => return parent.replace key (.tables (elements ++ [element]))
      | some _ => none) path

mutual

/-- A finished node. -/
def Node.toValue : Node → Value
  | .value v => v
  | .table _ entries => .table (Node.entriesToValues entries)
  | .tables elements => .array (Node.elementsToValues elements)

/-- The finished entries of a table. -/
def Node.entriesToValues : List (String × Node) → List (String × Value)
  | [] => []
  | (key, node) :: rest => (key, node.toValue) :: Node.entriesToValues rest

/-- The finished elements of an array of tables. -/
def Node.elementsToValues : List (List (String × Node)) → List Value
  | [] => []
  | entries :: rest => .table (Node.entriesToValues entries) :: Node.elementsToValues rest

end

/-- The table that assignments between braces make. -/
def inlineTable? (assignments : List Assignment) : Option Value := do
  return .table (Node.entriesToValues (← Entries.assign [] assignments))

/-- The table of a whole document. -/
def document? (leading : List Assignment) (sections : List Section) : Option Table := do
  let root ← Entries.assign [] leading
  return Node.entriesToValues (← sections.foldlM Entries.addSection root)

end TimeTrials.Toml
