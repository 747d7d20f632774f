/-!
Tables: lists of named entries kept in the order of their names.

Names are ordered by code point. `insert` keeps the order and holds one entry for
each name, so a table reads the same whatever the order in which it was filled.
-/

namespace FilterLang

/-- Named entries in the order of their names. -/
abbrev Table (α : Type) := List (String × α)

namespace Table

variable {α : Type}

def get? (t : Table α) (name : String) : Option α :=
  match t with
  | [] => none
  | (n, a) :: rest => if n = name then some a else get? rest name

/-- The table with the entry under a name set. -/
def insert (t : Table α) (name : String) (a : α) : Table α :=
  match t with
  | [] => [(name, a)]
  | (n, b) :: rest =>
    if n = name then (name, a) :: rest
    else if name < n then (name, a) :: (n, b) :: rest
    else (n, b) :: insert rest name a

/-- The table with every entry of `other` set, later ones winning. -/
def overlay (t : Table α) (other : List (String × α)) : Table α :=
  other.foldl (fun t e => insert t e.1 e.2) t

/-- The table of a list of entries, later ones winning. -/
def ofList (entries : List (String × α)) : Table α :=
  overlay [] entries

/-- The names of a table, in order. -/
def names (t : Table α) : List String :=
  t.map (·.1)

def contains (t : Table α) (name : String) : Bool :=
  (get? t name).isSome

@[simp] theorem get?_nil (name : String) : get? ([] : Table α) name = none := rfl

theorem get?_insert_self (t : Table α) (name : String) (a : α) :
    get? (insert t name a) name = some a := by
  induction t with
  | nil => simp [insert, get?]
  | cons e rest ih =>
    obtain ⟨n, b⟩ := e
    simp only [insert]
    split
    · simp [get?]
    · rename_i h
      split
      · simp [get?]
      · simp [get?, h, ih]

theorem get?_insert_of_ne (t : Table α) {name other : String} (a : α) (h : other ≠ name) :
    get? (insert t name a) other = get? t other := by
  induction t with
  | nil => simp [insert, get?, Ne.symm h]
  | cons e rest ih =>
    obtain ⟨n, b⟩ := e
    simp only [insert]
    split
    · rename_i hn
      subst hn
      simp [get?, Ne.symm h]
    · split
      · simp [get?, Ne.symm h]
      · simp only [get?, ih]

end Table

end FilterLang
