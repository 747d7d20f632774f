import FilterLang.Json.Basic
/-!
The tables of a TOML text while it is read.

A table can be opened by a heading, by a heading of a table below it, or by a
dotted key. Which of these it was decides whether it may be opened again: a heading
may not repeat another or reopen the table of a dotted key, and a dotted key may
not reach into the table of a heading.
-/

namespace FilterLang.Toml

/-- What stands under a key. -/
inductive Node where
  /-- A value that nothing can be added to. -/
  | value (j : Json)
  /-- A table. It is implicit as long as no heading names it, and dotted if a
  dotted key opened it. -/
  | table (implicit dotted : Bool) (entries : List (String × Node))
  /-- The tables of repeated headings, the last first. -/
  | tables (items : List (List (String × Node)))

namespace Node

mutual

def toJson : Node → Json
  | value j => j
  | table _ _ entries => .object (members entries)
  | tables items => .array (objects items).reverse

/-- The entries of a table as the members of an object. -/
def members : List (String × Node) → List (String × Json)
  | [] => []
  | e :: rest => member e :: members rest

def member : String × Node → String × Json
  | (name, n) => (name, n.toJson)

def objects : List (List (String × Node)) → List Json
  | [] => []
  | t :: rest => .object (members t) :: objects rest

end

end Node

/-- Changes the table at a path below a table, opening tables on the way. `change`
learns whether a dotted key opened the table. -/
def changeAt (byKey : Bool) (change : Bool → Table Node → Option (Table Node)) :
    List String → Bool → Table Node → Option (Table Node)
  | [], dotted, entries => change dotted entries
  | k :: path, _, entries =>
    match Table.get? entries k with
    | none =>
      (changeAt byKey change path byKey []).map fun sub =>
        Table.insert entries k (.table true byKey sub)
    | some (.value _) => none
    | some (.table implicit dotted sub) =>
      if byKey && !implicit then none
      else (changeAt byKey change path dotted sub).map fun sub =>
        Table.insert entries k (.table implicit dotted sub)
    | some (.tables []) => none
    | some (.tables (t :: ts)) =>
      (changeAt byKey change path false t).map fun t => Table.insert entries k (.tables (t :: ts))

/-- Sets a dotted key, which must be new, below a table. -/
def setKey (entries : Table Node) (path : List String) (key : String) (j : Json) :
    Option (Table Node) :=
  changeAt true
    (fun dotted sub =>
      if dotted == path.isEmpty || Table.contains sub key then none
      else some (Table.insert sub key (.value j)))
    path false entries

/-- Where the keys after a heading go. -/
inductive Heading where
  | table (path : List String) (key : String)
  | item (path : List String) (key : String)

/-- A TOML text of which a part has been read: the tables before the last heading,
that heading, and the table below it. -/
structure Draft where
  root : Table Node := []
  heading : Option Heading := none
  current : Table Node := []

namespace Draft

def close (d : Draft) : Option (Table Node) :=
  match d.heading with
  | none => some d.current
  | some (.table path key) =>
    changeAt false (fun _ sub => some (Table.insert sub key (.table false false d.current)))
      path false d.root
  | some (.item path key) =>
    changeAt false
      (fun _ sub =>
        match Table.get? sub key with
        | none => some (Table.insert sub key (.tables [d.current]))
        | some (.tables ts) => some (Table.insert sub key (.tables (d.current :: ts)))
        | some _ => none)
      path false d.root

/-- The table that a heading opens: a new one, or one that so far was implicit. -/
def opened? : Option Node → Option (Table Node)
  | none => some []
  | some (.table true false entries) => some entries
  | some _ => none

/-- The entry that a table has at a path, tables being opened on the way. The
outer result tells whether the path can be followed. -/
def find? : List String → String → Table Node → Option (Option Node)
  | [], key, entries => some (Table.get? entries key)
  | k :: path, key, entries =>
    match Table.get? entries k with
    | none => some none
    | some (.value _) => none
    | some (.table _ _ sub) => find? path key sub
    | some (.tables []) => none
    | some (.tables (t :: _)) => find? path key t

def startTable (d : Draft) (path : List String) (key : String) : Option Draft := do
  let root ← d.close
  let current ← opened? (← find? path key root)
  return { root, heading := some (.table path key), current }

/-- Starts one more table of a repeated heading. -/
def startItem (d : Draft) (path : List String) (key : String) : Option Draft := do
  let root ← d.close
  match ← find? path key root with
  | none | some (.tables _) => return { root, heading := some (.item path key), current := [] }
  | some _ => none

/-- Sets a key below the last heading. -/
def set (d : Draft) (path : List String) (key : String) (j : Json) : Option Draft := do
  return { d with current := ← setKey d.current path key j }

end Draft

end FilterLang.Toml
