import FilterLang.Error
import FilterLang.Json.Basic
import FilterLang.Text.Blank
/-!
Fragments: the pieces from which contexts, domains and group-bys are composed.

In a document a text is an expression still to be evaluated, and an object with a
`__ref` text refers to something: to an expression, whose source is in `__debug`,
or to a list of fragments that are composed under a context of their own. All else
is data that stands for itself.

A domain is a list of conditions in prefix notation: `"&"` and `"|"` join the two
operands after them, `"!"` negates the one after it, and everything else is a
condition. Where more operands stand side by side than the operators ask for, they
are meant to be joined by `"&"`.
-/

namespace FilterLang

/-- What a list of fragments is composed into. -/
inductive FragmentKind where
  /-- A table of names. -/
  | context
  /-- A list of conditions and operators. -/
  | domain
  /-- A list of names to group by. -/
  | groupBy
deriving DecidableEq

namespace FragmentKind

def name : FragmentKind → String
  | context => "context"
  | domain => "domain"
  | groupBy => "groupby"

/-- The kind with a name; each kind has several. -/
def ofName? : String → Option FragmentKind
  | "context" => some .context
  | "contexts" => some .context
  | "domain" => some .domain
  | "domains" => some .domain
  | "groupby" => some .groupBy
  | "groupbys" => some .groupBy
  | "group_by" => some .groupBy
  | _ => none

/-- The kind with a name, or the failure that there is none. -/
def ofName (s : String) : Outcome FragmentKind :=
  match ofName? s with
  | some k => .ok k
  | none => .error (.value (.unknownKind s))

end FragmentKind

/-- What an object with a `__ref` text refers to. -/
inductive Reference where
  | context | domain | compoundContext | compoundDomain
deriving DecidableEq

namespace Reference

def name : Reference → String
  | context => "context"
  | domain => "domain"
  | compoundContext => "compound_context"
  | compoundDomain => "compound_domain"

def ofName? : String → Option Reference
  | "context" => some .context
  | "domain" => some .domain
  | "compound_context" => some .compoundContext
  | "compound_domain" => some .compoundDomain
  | _ => none

/-- What the referenced fragments are composed into. -/
def kind : Reference → FragmentKind
  | context | compoundContext => .context
  | domain | compoundDomain => .domain

/-- The text under which an object says what it refers to. -/
def text? (j : Json) : Option String :=
  (j.member? "__ref").bind Json.text?

end Reference

/-- A piece of a composition. -/
inductive Fragment where
  /-- Data that stands for itself. -/
  | literal (j : Json)
  /-- The source of an expression. -/
  | expression (text : String)
  /-- Fragments that are composed under a context of their own, which is itself
  given by a fragment. -/
  | compound (inner : Fragment) (parts : List Fragment)

namespace Fragment

/-- The expression that an object with a reference holds in its `__debug` text. -/
def ofSource (r : Reference) (members : Table Json) : Outcome Fragment :=
  match (Table.get? members "__debug").bind Json.text? with
  | some text => .ok (.expression text)
  | none => .error (.value (.missingSource r.name))

mutual

def ofJson : Json → Outcome Fragment
  | .str text => .ok (.expression text)
  | .object members =>
    match ((Table.get? members "__ref").bind Json.text?).bind Reference.ofName? with
    | some .compoundContext => do
      let inner ← innerOf members
      return .compound inner (← partsOf "__contexts" members)
    | some .compoundDomain => do
      let inner ← innerOf members
      return .compound inner (← partsOf "__domains" members)
    | some r => ofSource r members
    | none => .ok (.literal (.object members))
  | j => .ok (.literal j)

/-- The fragment that gives the context of a compound; without one there is
nothing in it. -/
def innerOf : List (String × Json) → Outcome Fragment
  | [] => .ok (.literal .null)
  | m :: rest => if m.1 = "__eval_context" then ofMember m else innerOf rest

def ofMember : String × Json → Outcome Fragment
  | (_, j) => ofJson j

/-- The fragments under a name, which may be missing. -/
def partsOf (name : String) : List (String × Json) → Outcome (List Fragment)
  | [] => .ok []
  | m :: rest => if m.1 = name then partsOfMember m else partsOf name rest

/-- The fragments that a member of an object lists. -/
def partsOfMember : String × Json → Outcome (List Fragment)
  | (name, j) => partsOfList name j

/-- The fragments that a list, found under a name, holds. -/
def partsOfList (name : String) : Json → Outcome (List Fragment)
  | .array items => ofItems items
  | .null => .ok []
  | j => .error (.type (.fragmentList name j.kindName))

def ofItems : List Json → Outcome (List Fragment)
  | [] => .ok []
  | j :: rest => do
    let f ← ofJson j
    return f :: (← ofItems rest)

end

/-- Whether a fragment is empty: nothing, an empty container or blank text. Empty
fragments are passed over. -/
def isEmpty : Fragment → Bool
  | literal .null => true
  | literal (.array items) => items.isEmpty
  | literal (.object members) => members.isEmpty
  | literal (.str text) => Text.allBlank text
  | literal _ => false
  | expression text => Text.allBlank text
  | compound .. => false

/-- Whether a fragment is `["|"]` or `["!"]`. As the first of a list of domains it
asks for the others to be normalized. -/
def isMarker : Fragment → Bool
  | literal (.array [.str op]) => op == "|" || op == "!"
  | _ => false

end Fragment

namespace Domain

/-- How an item changes the number of operands that are still wanted. -/
def demand (item : Json) : Int :=
  match item with
  | .str "&" => 1
  | .str "|" => 1
  | .str "!" => 0
  | _ => -1

/-- How many operands are still wanted after a list of items, of a domain that is
one operand. -/
def wanted (items : List Json) : Int :=
  items.foldl (fun n item => n + demand item) 1

/-- A domain with the joins that it leaves out written in front. -/
def normalize (items : List Json) : List Json :=
  List.replicate (-(wanted items)).toNat (.str "&") ++ items

end Domain

end FilterLang
