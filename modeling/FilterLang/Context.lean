import FilterLang.Value.Call
/-!
Contexts: the names that an expression sees on top of the builtin ones.

A context is a table, so its names stand in order. Entries that come from a
document are known by their names: filling the same names twice, at once or one
after the other, gives the same context.
-/

namespace FilterLang

/-- The names that an expression sees, with their values. -/
abbrev Context := Table Value

namespace Context

/-- The name under which a composition shows the context to itself. -/
def selfName : String := "context"

/-- A context with the members of a document's object set. -/
def extend (c : Context) (site : Identity) (members : Table Json) : Context :=
  Table.overlay c (members.map fun (name, j) => (name, .ofJson (site.entry name) j))

def ofMembers (site : Identity) (members : Table Json) : Context :=
  extend [] site members

def datetimeModule (site : Identity) : Value :=
  .object (site.entry "datetime") .module
    [("date", .cls .date), ("datetime", .cls .datetime), ("time", .cls .time),
      ("timedelta", .cls .timedelta)]

def timeModule (site : Identity) : Value :=
  .object (site.entry "time") .module [("strftime", .function .strftime)]

/-- The names around the calendar and the clock. -/
def helpers (host : Host) (site : Identity) : Context :=
  [("context_today", .function .contextToday), ("current_date", .str host.utc.date.iso),
    ("datetime", datetimeModule site), ("relativedelta", .cls .relativedelta),
    ("time", timeModule site)]

/-- The context with the calendar names and, on top of them, the members of a
document's object. -/
def seeded (host : Host) (site : Identity) (base : Table Json) : Context :=
  (helpers host site).extend site base

/-- The context as a dict, the entry that shows the context to itself left out. -/
def toDict (site : Identity) (c : Context) : Value :=
  .dict site ((c.filter (·.1 ≠ selfName)).foldl
    (fun (d : Dict) (name, v) => d.set (.str name) (.str name) v) [])

end Context

end FilterLang
