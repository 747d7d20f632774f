import FilterLang.Composition.Basic
/-!
A batch: contexts, domains and group-bys composed on top of one base object.

Each of the three starts anew, so none sees the names of another. What it composes to
is read as an object or an array, a document of another form counting as empty.

Operations: `evaluate_domains_and_contexts` is `evaluate`.
-/

namespace FilterLang

/-- What a batch is composed from. -/
structure Batch where
  contexts : List Json := []
  domains : List Json := []
  groupBys : List Json := []
  base : Table Json := []

namespace Batch

/-- The fragments of a document that has to be an array. -/
def fragments? : Json → Option (List Json)
  | .array items => some items
  | _ => none

/-- The base object of a document that is an object or nothing. -/
def base? : Json → Option (Table Json)
  | .object members => some members
  | .null => some []
  | _ => none

/-- The member of an object as `read` reads it, or nothing where it is missing. -/
def memberOr {α : Type} (read : Json → Option (List α)) (members : Table Json) (name : String) :
    Option (List α) :=
  match Table.get? members name with
  | some j => read j
  | none => some []

/-- The item of an array as `read` reads it, or nothing where it is missing. -/
def itemOr {α : Type} (read : Json → Option (List α)) (items : List Json) (index : Nat) :
    Option (List α) :=
  match items[index]? with
  | some j => read j
  | none => some []

/-- The batch that a document describes: an object with its parts under their
names, or an array of its parts in order. Parts may be missing. -/
def ofJson? : Json → Option Batch
  | .object members => do
    return {
      contexts := ← memberOr fragments? members "contexts"
      domains := ← memberOr fragments? members "domains"
      groupBys := ← memberOr fragments? members "group_by_seq"
      base := ← memberOr base? members "eval_context" }
  | .array items =>
    if items.length ≤ 4 then do
      return {
        contexts := ← itemOr fragments? items 0
        domains := ← itemOr fragments? items 1
        groupBys := ← itemOr fragments? items 2
        base := ← itemOr base? items 3 }
    else none
  | _ => none

/-- A batch whose base object stands on top of further entries. Without any it stays as
it is. -/
def onTopOf (b : Batch) (entries : Table Json) : Batch :=
  if entries.isEmpty then b else { b with base := Table.overlay entries b.base }

/-- The members of an object. Other documents count as having none. -/
def members : Json → Table Json
  | .object members => members
  | _ => []

/-- The items of an array. Other documents count as having none. -/
def items : Json → List Json
  | .array items => items
  | _ => []

def evaluate (host : Host) (b : Batch) : Outcome Json := do
  let context := members (← Composition.evaluate host .context b.contexts b.base)
  let domain := items (← Composition.evaluate host .domain b.domains b.base)
  let groupBy := items (← Composition.evaluate host .groupBy b.groupBys b.base)
  return .object
    [("context", .object context), ("domain", .array domain), ("group_by", .array groupBy)]

end Batch

end FilterLang
