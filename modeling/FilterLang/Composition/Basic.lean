import FilterLang.Composition.Fragment
import FilterLang.Json.Writer
import FilterLang.Source
/-!
Composition of fragments.

Every composition starts from a context with the calendar names and a base object.
What a fragment of a context or a group-by evaluates to is added to the context
before the next one, so later fragments can refer to names of earlier ones. For an
expression the name `context` is set to show all the other names, and it stays set.
Nothing that happens inside a compound is seen outside but its result.
-/

namespace FilterLang.Composition

/-- The place at which the entries of a context are made. -/
def contextSite : Identity := .root 0

def fragmentSite : Identity := .root 1

def seed (host : Host) (base : Table Json) : Context :=
  .seeded host contextSite base

/-- A context with the members of an object added. -/
def extend (c : Context) (members : Table Json) : Context :=
  c.extend contextSite members

/-- The context as an expression sees it: `context` shows all other names. -/
def reflect (c : Context) : Context :=
  Table.insert c Context.selfName (c.toDict (contextSite.entry Context.selfName))

/-- The native form of the value of a fragment's expression in a context. A
`name = value` stands for the dict with that one entry, and its value has the place
that it has in that dict. -/
def evalSource (host : Host) (c : Context) (text : String) : Outcome Json := do
  match ← compile text with
  | .keyword name value => do
    let v ← value.eval host c ((fragmentSite.operand 0).operand 1)
    return .object [(name, ← v.toNative host fragmentSite)]
  | e => do (← e.eval host c fragmentSite).toNative host fragmentSite

/-- What an expression evaluates to in a context that shows itself, and that
context: the name `context` stays bound for what comes after. -/
def evalReflected (host : Host) (c : Context) (text : String) : Outcome (Json × Context) := do
  return (← evalSource host (reflect c) text, reflect c)

/-- The members of what a fragment of a context evaluated to, which has to be an
object. -/
def contextMembers : Json → Outcome (Table Json)
  | .object members => .ok members
  | j => .error (.type (.contextFragment j.kindName))

/-- The items of what a fragment of a domain evaluated to, which has to be an
array. -/
def domainItems : Json → Outcome (List Json)
  | .array items => .ok items
  | j => .error (.type (.domainFragment j.kindName))

mutual

/-- What a fragment of a context evaluates to, and the context that it leaves. -/
def evalContext (host : Host) (c : Context) : Fragment → Outcome (Json × Context)
  | .literal j => .ok (j, c)
  | .expression text => evalReflected host c text
  | .compound inner parts => do
    let scope ← (if inner.isEmpty then pure [] else
      evalContext host (seed host []) inner >>= (contextMembers ·.1))
    return (.object (← composeContexts host (extend c scope) [] parts), c)

/-- Composes fragments of a context on top of a result; later entries win. -/
def composeContexts (host : Host) (c : Context) (result : Table Json) :
    List Fragment → Outcome (Table Json)
  | [] => .ok result
  | f :: rest =>
    if f.isEmpty then composeContexts host c result rest
    else do
      let (j, c) ← evalContext host c f
      let members ← contextMembers j
      composeContexts host (extend c members) (Table.overlay result members) rest

end

/-- The context in which the parts of a compound are composed: the outer one, and
on top of it the compound's own, which does not depend on the outer one. -/
def compoundScope (host : Host) (c : Context) (inner : Fragment) : Outcome Context := do
  return extend c (← composeContexts host (seed host []) [] [inner])

/-- Whether the first of several fragments asks for normalization. -/
def isMarked (fragments : List Fragment) : Bool :=
  (fragments.head?.map Fragment.isMarker).getD false

mutual

/-- What a fragment of a domain evaluates to, and the context that it leaves. -/
def evalDomain (host : Host) (c : Context) : Fragment → Outcome (Json × Context)
  | .literal j => .ok (j, c)
  | .expression text => evalReflected host c text
  | .compound inner parts => do
    let scope ← compoundScope host c inner
    return (.array (← composeDomains host scope (isMarked parts) parts), c)

/-- Composes fragments of a domain, one after the other. -/
def composeDomains (host : Host) (c : Context) (normalize : Bool) :
    List Fragment → Outcome (List Json)
  | [] => .ok []
  | f :: rest =>
    if f.isEmpty then composeDomains host c normalize rest
    else do
      let (j, c) ← evalDomain host c f
      let items ← domainItems j
      let later ← composeDomains host c normalize rest
      return (if normalize then Domain.normalize items else items) ++ later

end

/-- The names that an object asks to group by, if it asks for any. -/
def groupNames? (members : Table Json) : Outcome (Option (List Json)) :=
  match Table.get? members "group_by" with
  | none | some .null | some (.bool false) => .ok none
  | some (.str name) => .ok (if name.isEmpty then none else some [.str name])
  | some (.array names) => .ok (some names)
  | some (.int n) =>
    if n = 0 then .ok none else .error (.value (.groupBy (Json.int n).compact))
  | some (.float x) =>
    if x == 0.0 then .ok none else .error (.value (.groupBy (Json.float x).compact))
  | some j => .error (.value (.groupBy j.compact))

/-- Composes the names to group by. A fragment without any, and one that is no
object, is passed over. -/
def composeGroupBys (host : Host) (c : Context) : List Fragment → Outcome (List Json)
  | [] => .ok []
  | f :: rest =>
    if f.isEmpty then composeGroupBys host c rest
    else do
      let (j, c) ← evalContext host c f
      match j with
      | .object members =>
        match ← groupNames? members with
        | some names => return names ++ (← composeGroupBys host (extend c members) rest)
        | none => composeGroupBys host c rest
      | _ => composeGroupBys host c rest

def compose (host : Host) (kind : FragmentKind) (c : Context) (fragments : List Fragment) :
    Outcome Json :=
  match kind with
  | .context => do return .object (← composeContexts host c [] fragments)
  | .domain => do return .array (← composeDomains host c (isMarked fragments) fragments)
  | .groupBy => do return .array (← composeGroupBys host c fragments)

/-- Composes documents that are fragments of a kind on top of a base object. -/
def evaluate (host : Host) (kind : FragmentKind) (fragments : List Json) (base : Table Json) :
    Outcome Json := do
  compose host kind (seed host base) (← Fragment.ofItems fragments)

end FilterLang.Composition
