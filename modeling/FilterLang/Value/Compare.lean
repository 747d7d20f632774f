import FilterLang.Value.Truth
/-!
The rich comparisons.

Two values of one built-in kind are compared by that kind: sequences item by item,
dicts by their entries, in whichever of its two forms a list or a dict comes.
Otherwise the left operand's special method is asked, then the right operand's.
When neither answers, equality is identity and order is the order of the names of
the classes. The recursion ends because items weigh less than what holds them.
-/

namespace FilterLang

mutual

/-- The number of documents in a document. -/
def Json.weight : Json → Nat
  | .array items => 1 + weightItems items
  | .object members => 1 + weightMembers members
  | _ => 1

def Json.weightItems : List Json → Nat
  | [] => 0
  | j :: rest => 1 + j.weight + weightItems rest

def Json.weightMembers : List (String × Json) → Nat
  | [] => 0
  | m :: rest => Json.weightMember m + weightMembers rest

def Json.weightMember : String × Json → Nat
  | (_, j) => 3 + j.weight

end

namespace Value

mutual

/-- The number of values in a value, as far as a comparison can reach them. -/
def weight : Value → Nat
  | tuple _ items | list _ items => 1 + weightItems items
  | dict _ ⟨entries, _⟩ => 1 + weightPairs entries
  | nativeList _ items => 1 + Json.weightItems items
  | nativeDict _ members => 1 + Json.weightMembers members
  | _ => 1

def weightItems : List Value → Nat
  | [] => 0
  | v :: rest => 1 + v.weight + weightItems rest

def weightPairs : List (Value × Value) → Nat
  | [] => 0
  | p :: rest => weightPair p + weightPairs rest

def weightPair : Value × Value → Nat
  | (k, v) => 2 + k.weight + v.weight

end

theorem weight_ofJson (site : Identity) (j : Json) : (ofJson site j).weight = j.weight := by
  cases j <;> simp [ofJson, int, number, weight, Json.weight]

theorem weightItems_mapIdx (site : Identity) (items : List Json) (f : Nat → Nat) :
    weightItems (items.mapIdx fun i j => ofJson (site.child (f i)) j) = Json.weightItems items := by
  induction items generalizing f with
  | nil => rfl
  | cons j rest ih =>
    simp only [List.mapIdx_cons, weightItems, Json.weightItems, weight_ofJson]
    rw [ih (fun i => f (i + 1))]

theorem weightItems_ofItems (site : Identity) (items : List Json) :
    weightItems (ofItems site items) = Json.weightItems items :=
  weightItems_mapIdx site items id

theorem weightPairs_ofMembers (site : Identity) (members : List (String × Json)) :
    weightPairs (ofMembers site members) = Json.weightMembers members := by
  induction members with
  | nil => rfl
  | cons m rest ih =>
    obtain ⟨name, j⟩ := m
    have ih : weightPairs (List.map (fun (x : String × Json) =>
        ((.str x.1 : Value), ofJson (site.entry x.1) x.2)) rest) = Json.weightMembers rest := ih
    simp only [ofMembers, List.map_cons, weightPairs, weightPair, Json.weightMembers,
      Json.weightMember, weight_ofJson, ih]
    simp only [weight]

theorem weightItems_listItems {site : Identity} {v : Value} {items : List Value}
    (h : v.listItems? site = some items) : weightItems items < v.weight := by
  cases v <;> simp [listItems?] at h
  · subst h; simp [weight]
  · subst h; simp [weight, weightItems_ofItems]

theorem weightPairs_entries? {site : Identity} {v : Value} {pairs : List (Value × Value)}
    (h : v.entries? site = some pairs) : weightPairs pairs < v.weight := by
  cases v <;> simp [entries?] at h
  · subst h; simp [weight]
  · subst h; simp [weight, weightPairs_ofMembers]

def itemsOfBoth? (site : Identity) (a b : Value) : Option (List Value × List Value) :=
  match a, b with
  | tuple _ xs, tuple _ ys => some (xs, ys)
  | a, b =>
    match a.listItems? site, b.listItems? site with
    | some xs, some ys => some (xs, ys)
    | _, _ => none

theorem weightItems_itemsOfBoth {site : Identity} {a b : Value} {xs ys : List Value}
    (h : itemsOfBoth? site a b = some (xs, ys)) : weightItems xs < a.weight := by
  unfold itemsOfBoth? at h
  split at h
  · simp only [Option.some.injEq, Prod.mk.injEq] at h
    obtain ⟨rfl, _⟩ := h
    simp [weight]
  · split at h
    · rename_i hx _
      simp only [Option.some.injEq, Prod.mk.injEq] at h
      obtain ⟨rfl, _⟩ := h
      exact weightItems_listItems hx
    · simp at h

/-- The entries of a dict that is compared with a dict. -/
def entriesOfBoth? (site : Identity) (a b : Value) : Option (List (Value × Value)) :=
  match a.entries? site, b.entries? site with
  | some pairs, some _ => some pairs
  | _, _ => none

theorem weightPairs_entriesOfBoth {site : Identity} {a b : Value} {pairs : List (Value × Value)}
    (h : entriesOfBoth? site a b = some pairs) : weightPairs pairs < a.weight := by
  unfold entriesOfBoth? at h
  split at h
  · rename_i hx _
    simp only [Option.some.injEq] at h
    subst h
    exact weightPairs_entries? hx
  · simp at h

/-- Whether two values without parts are equal, if they are of one kind. -/
def scalarEqual? : Value → Value → Option Bool
  | null, null => some true
  | notImplemented, notImplemented => some true
  | bool a, bool b => some (a == b)
  | float a, float b => some (a.float == b.float)
  | str a, str b => some (a == b)
  | _, _ => none

/-- Whether two numbers satisfy a comparison. Nothing is less or more than
not-a-number, or equal to it. -/
def compareFloat (r : Relation) (a b : Float) : Bool :=
  match r with
  | .eq => a == b
  | .ne => a != b
  | .lt => a < b
  | .le => a ≤ b
  | .gt => a > b
  | .ge => a ≥ b

/-- Whether two values without parts satisfy a comparison, if they are of one
kind that has it. -/
def scalarCompare? (r : Relation) (a b : Value) : Option Bool :=
  match r with
  | .eq => scalarEqual? a b
  | .ne => (scalarEqual? a b).map (!·)
  | r =>
    match a, b with
    | float x, float y => some (compareFloat r x.float y.float)
    | bool x, bool y => some (r.accepts (compare x y))
    | str x, str y => some (r.accepts (compare x y))
    | _, _ => none

/-- Asks the special method of an instance. No answer is a method that is missing
or that returns `NotImplemented`. -/
def askOperator (host : Host) (site : Identity) (receiver : Value) (name : String)
    (other : Value) : Outcome (Option Value) :=
  match receiver.special? host name with
  | none => .ok none
  | some m => do
    match ← m.call host site receiver [other] with
    | notImplemented => return none
    | result => return some result

/-- The comparison of two values that are not compared by their kinds. -/
def compareByMethods (host : Host) (site : Identity) (r : Relation) (a b : Value) :
    Outcome Value := do
  match ← askOperator host site a r.method b with
  | some result => return result
  | none =>
    match ← askOperator host site b r.flip.method a with
    | some result => return result
    | none =>
      match r with
      | .eq => return .bool (a.identical b)
      | .ne => return .bool (!a.identical b)
      | r => return .bool (r.accepts (compare a.typeName b.typeName))

mutual

def compareWith (host : Host) (site : Identity) (r : Relation) (a b : Value) : Outcome Value :=
  match scalarCompare? r a b with
  | some answer => .ok (.bool answer)
  | none =>
    match _hi : itemsOfBoth? site a b with
    | some (xs, ys) =>
      match r with
      | .eq =>
        if xs.length = ys.length then do return .bool (← sameItems host site xs ys)
        else .ok (.bool false)
      | .ne =>
        if xs.length = ys.length then do return .bool (!(← sameItems host site xs ys))
        else .ok (.bool true)
      | r => orderItems host site r xs ys
    | none =>
      match r, _he : entriesOfBoth? site a b with
      | .eq, some pairs => do
        if pairs.length = (← b.len host site) then return .bool (← sameEntries host site pairs b)
        else return .bool false
      | .ne, some pairs => do
        if pairs.length = (← b.len host site) then
          return .bool (!(← sameEntries host site pairs b))
        else return .bool true
      | r, _ => compareByMethods host site r a b
termination_by a.weight
decreasing_by
  · exact weightItems_itemsOfBoth _hi
  · exact weightItems_itemsOfBoth _hi
  · exact weightItems_itemsOfBoth _hi
  · exact weightPairs_entriesOfBoth _he
  · exact weightPairs_entriesOfBoth _he

/-- Whether two lists of values of one length have equal items in the same places. -/
def sameItems (host : Host) (site : Identity) (xs ys : List Value) : Outcome Bool :=
  match xs, ys with
  | x :: xs, y :: ys => do
    let equal ← compareWith host site .eq x y
    if ← equal.isTruthy host site then sameItems host site xs ys else return false
  | _, _ => .ok true
termination_by weightItems xs
decreasing_by
  all_goals simp only [weightItems]; omega

/-- Whether a dict holds each of the given entries. -/
def sameEntries (host : Host) (site : Identity) (pairs : List (Value × Value)) (other : Value) :
    Outcome Bool :=
  match pairs with
  | [] => .ok true
  | (k, v) :: rest => do
    match ← other.lookup host site k with
    | none => return false
    | some found =>
      let equal ← compareWith host site .eq v found
      if ← equal.isTruthy host site then sameEntries host site rest other else return false
termination_by weightPairs pairs
decreasing_by
  all_goals simp only [weightPairs, weightPair]; omega

/-- The order of two lists of values: the first items that are not equal decide,
or else the lengths. -/
def orderItems (host : Host) (site : Identity) (r : Relation) (xs ys : List Value) :
    Outcome Value :=
  match xs, ys with
  | x :: xs, y :: ys => do
    let equal ← compareWith host site .eq x y
    if ← equal.isTruthy host site then orderItems host site r xs ys
    else compareWith host site r x y
  | xs, ys => .ok (.bool (r.accepts (compare xs.length ys.length)))
termination_by weightItems xs
decreasing_by
  all_goals simp only [weightItems]; omega

end

def equals (host : Host) (site : Identity) (a b : Value) : Outcome Bool := do
  (← compareWith host site .eq a b).isTruthy host site

/-- Whether a list of values holds one that is equal to a value. -/
def anyEqual (host : Host) (site : Identity) (item : Value) : List Value → Outcome Bool
  | [] => .ok false
  | v :: rest => do
    if ← v.equals host site item then return true else anyEqual host site item rest

end Value

def CompareOp.relation? : CompareOp → Option Relation
  | lt => some .lt
  | le => some .le
  | gt => some .gt
  | ge => some .ge
  | ne => some .ne
  | eq => some .eq
  | _ => none

/-- The rich comparison of two values by an operator. -/
def Value.compareBy (host : Host) (site : Identity) (op : CompareOp) (a b : Value) :
    Outcome Value :=
  match op.relation? with
  | some r => a.compareWith host site r b
  | none => .error (.notRelation op)

end FilterLang
