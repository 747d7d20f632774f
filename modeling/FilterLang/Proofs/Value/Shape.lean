import FilterLang.Proofs.Fallible
import FilterLang.Proofs.Value.Records
import FilterLang.Value.Arithmetic
import FilterLang.Value.Items
/-!
The shape of a value.

A list or a dict comes in two forms, and every container has an identity. The shape of a
value forgets both: documents are opened to the bottom, and the identities of tuples,
lists and dicts are all the same. Two values of one shape differ in nothing that the
operations here can see. The lemmas say, operation by operation, that it may be done on
the shape instead: kinds, lengths, truth, texts, hash keys and items.
-/

namespace FilterLang

/-- The identity that all containers of a shape have. -/
def Identity.origin : Identity := .root 0

mutual

/-- A document opened to the bottom. A member of an object stands under its name. -/
def Json.shape : Json → Value
  | .null => .null
  | .bool b => .bool b
  | .int n => .int n
  | .float x => .number x
  | .str s => .str s
  | .array items => .list .origin (shapeItems items)
  | .object members =>
    .dict .origin ⟨shapeMembers members, (members.map fun m => HashKey.str m.1).zipIdx⟩

def Json.shapeItems : List Json → List Value
  | [] => []
  | j :: rest => j.shape :: shapeItems rest

def Json.shapeMembers : List (String × Json) → List (Value × Value)
  | [] => []
  | m :: rest => Json.shapeMember m :: shapeMembers rest

def Json.shapeMember : String × Json → Value × Value
  | (name, j) => (.str name, j.shape)

end

theorem Json.shapeItems_eq_map (items : List Json) :
    Json.shapeItems items = items.map Json.shape := by
  induction items with
  | nil => rfl
  | cons j rest ih => rw [Json.shapeItems, ih, List.map_cons]

theorem Json.shapeMembers_eq_map (members : List (String × Json)) :
    Json.shapeMembers members = members.map Json.shapeMember := by
  induction members with
  | nil => rfl
  | cons m rest ih => rw [Json.shapeMembers, ih, List.map_cons]

namespace Value

mutual

/-- A value without the identities of its containers, its documents opened. -/
def shape : Value → Value
  | tuple _ items => .tuple .origin (shapeItems items)
  | list _ items => .list .origin (shapeItems items)
  | dict _ ⟨entries, index⟩ => .dict .origin ⟨shapeEntries entries, index⟩
  | nativeList _ items => .list .origin (Json.shapeItems items)
  | nativeDict _ members =>
    .dict .origin ⟨Json.shapeMembers members, (members.map fun m => HashKey.str m.1).zipIdx⟩
  | v => v

def shapeItems : List Value → List Value
  | [] => []
  | v :: rest => v.shape :: shapeItems rest

def shapeEntries : List (Value × Value) → List (Value × Value)
  | [] => []
  | e :: rest => shapePair e :: shapeEntries rest

def shapePair : Value × Value → Value × Value
  | (k, v) => (k.shape, v.shape)

end

/-! ## Parts -/

theorem shapeItems_eq_map (items : List Value) : shapeItems items = items.map shape := by
  induction items with
  | nil => rfl
  | cons v rest ih => rw [shapeItems, ih, List.map_cons]

theorem shapeEntries_eq_map (entries : List (Value × Value)) :
    shapeEntries entries = entries.map shapePair := by
  induction entries with
  | nil => rfl
  | cons e rest ih => rw [shapeEntries, ih, List.map_cons]

/-- The shape of a dict has the shapes of its entries, and its index. -/
theorem shape_dict (id : Identity) (d : Dict) :
    (dict id d).shape = .dict .origin (d.map shape) := by
  obtain ⟨entries, index⟩ := d
  have hpairs : entries.map shapePair = entries.map fun e => (e.1.shape, e.2.shape) := by
    refine List.map_congr_left fun e _ => ?_
    obtain ⟨key, value⟩ := e
    rfl
  rw [shape, shapeEntries_eq_map, hpairs, Dict.map]

section

variable {α : Type} (make : String × α → Value)

/-- Named members as a record, where each member is made a value. -/
def memberRecords (members : List (String × α)) : Records :=
  members.map fun m => ⟨.str m.1, .str m.1, make m⟩

theorem memberRecords_cons (m : String × α) (rest : List (String × α)) :
    memberRecords make (m :: rest) = ⟨.str m.1, .str m.1, make m⟩ :: memberRecords make rest := rfl

@[simp] theorem hashes_memberRecords (members : List (String × α)) :
    (memberRecords make members).hashes = members.map fun m => .str m.1 :=
  List.map_map

/-- Setting members with new names, one after the other, adds them in their order. -/
theorem foldl_set_dict {members : List (String × α)} (r : Records)
    (h : (r ++ memberRecords make members).hashes.Nodup) :
    members.foldl (fun d m => d.set (.str m.1) (.str m.1) (make m)) r.dict =
      (r ++ memberRecords make members).dict := by
  induction members generalizing r with
  | nil => rw [List.foldl_nil, memberRecords, List.map_nil, List.append_nil]
  | cons m rest ih =>
    rw [memberRecords_cons] at h ⊢
    rw [List.foldl_cons, Records.set_dict, Records.set_of_notMem (Records.notMem_hashes h), ih]
    · rw [List.append_assoc, List.singleton_append]
    · rwa [List.append_assoc, List.singleton_append]

end

theorem shape_object (members : List (String × Json)) :
    (Json.object members).shape =
      .dict .origin (memberRecords (fun m => m.2.shape) members).dict := by
  rw [Json.shape, Json.shapeMembers_eq_map]
  simp [memberRecords, Records.dict, Records.pairs, Records.hashes, Function.comp_def,
    Json.shapeMember]

@[simp] theorem shape_ofJson (site : Identity) (j : Json) : (ofJson site j).shape = j.shape := by
  cases j <;> rfl

theorem map_shape_ofItems (site : Identity) (items : List Json) :
    (ofItems site items).map shape = items.map Json.shape := by
  apply List.ext_getElem?
  intro i
  rw [ofItems, List.getElem?_map, List.getElem?_mapIdx, List.getElem?_map, Option.map_map]
  refine congrFun (congrArg Option.map ?_) items[i]?
  funext j
  exact shape_ofJson (site.child i) j

theorem map_shapePair_ofMembers (site : Identity) (members : List (String × Json)) :
    (ofMembers site members).map shapePair = Json.shapeMembers members := by
  rw [ofMembers, Json.shapeMembers_eq_map, List.map_map]
  refine List.map_congr_left fun m _ => ?_
  obtain ⟨name, j⟩ := m
  exact Prod.ext rfl (shape_ofJson _ j)

/-- A list of either form has the items of its shape, up to their shapes. -/
theorem listItems?_shape (site site' : Identity) (v : Value) :
    v.shape.listItems? site' = (v.listItems? site).map (List.map shape) := by
  cases v with
  | list id items => exact congrArg some (shapeItems_eq_map items)
  | nativeList id items =>
    refine congrArg some ?_
    rw [map_shape_ofItems, Json.shapeItems_eq_map]
  | _ => rfl

/-- A dict of either form has the entries of its shape, up to their shapes. -/
theorem entries?_shape (site site' : Identity) (v : Value) :
    v.shape.entries? site' = (v.entries? site).map (List.map shapePair) := by
  cases v with
  | dict id d => exact congrArg some (shapeEntries_eq_map d.entries)
  | nativeDict id members => exact congrArg some (map_shapePair_ofMembers site members).symm
  | _ => rfl

/-! ## A shape is its own shape -/

mutual

theorem shape_json : (j : Json) → j.shape.shape = j.shape
  | .null | .bool _ | .int _ | .float _ | .str _ => rfl
  | .array items => by rw [Json.shape, shape, shapeItems_json items]
  | .object members => by rw [Json.shape, shape, shapeEntries_json members]

theorem shapeItems_json : (items : List Json) →
    shapeItems (Json.shapeItems items) = Json.shapeItems items
  | [] => rfl
  | j :: rest => by rw [Json.shapeItems, shapeItems, shape_json j, shapeItems_json rest]

theorem shapeEntries_json : (members : List (String × Json)) →
    shapeEntries (Json.shapeMembers members) = Json.shapeMembers members
  | [] => rfl
  | m :: rest => by
    rw [Json.shapeMembers, shapeEntries, shapePair_json m, shapeEntries_json rest]

theorem shapePair_json : (m : String × Json) →
    shapePair (Json.shapeMember m) = Json.shapeMember m
  | (name, j) => by rw [Json.shapeMember, shapePair, shape_json j]; rfl

end

mutual

theorem shape_shape : (v : Value) → v.shape.shape = v.shape
  | tuple _ items => by rw [shape, shape, shapeItems_shape items]
  | list _ items => by rw [shape, shape, shapeItems_shape items]
  | dict _ ⟨entries, index⟩ => by rw [shape, shape, shapeEntries_shape entries]
  | nativeList _ items => by rw [shape, shape, shapeItems_json items]
  | nativeDict _ members => by rw [shape, shape, shapeEntries_json members]
  | null | notImplemented | bool _ | float _ | str _ | function _ | lambda .. | method ..
  | cls _ | temporal .. | object .. => rfl

theorem shapeItems_shape : (items : List Value) →
    shapeItems (shapeItems items) = shapeItems items
  | [] => rfl
  | v :: rest => by rw [shapeItems, shapeItems, shape_shape v, shapeItems_shape rest]

theorem shapeEntries_shape : (entries : List (Value × Value)) →
    shapeEntries (shapeEntries entries) = shapeEntries entries
  | [] => rfl
  | e :: rest => by rw [shapeEntries, shapeEntries, shapePair_shape e, shapeEntries_shape rest]

theorem shapePair_shape : (e : Value × Value) → shapePair (shapePair e) = shapePair e
  | (k, v) => by rw [shapePair, shapePair, shape_shape k, shape_shape v]

end

theorem map_shape_shape (items : List Value) : (items.map shape).map shape = items.map shape := by
  rw [List.map_map]
  exact List.map_congr_left fun v _ => shape_shape v

/-! ## Kinds and views -/

@[simp] theorem classOf_shape (v : Value) : v.shape.classOf = v.classOf := by
  cases v <;> rfl

@[simp] theorem typeName_shape (v : Value) : v.shape.typeName = v.typeName := by
  rw [typeName, typeName, classOf_shape]

@[simp] theorem isSequence_shape (v : Value) : v.shape.isSequence = v.isSequence := by
  cases v <;> rfl

/-- Instances are their own shapes, so their special methods are those of their shapes. -/
@[simp] theorem special?_shape (host : Host) (v : Value) (name : String) :
    v.shape.special? host name = v.special? host name := by
  cases v <;> rfl

/-! ## Length and truth -/

@[simp] theorem len_shape (host : Host) (site : Identity) (v : Value) :
    v.shape.len host site = v.len host site := by
  cases v with
  | tuple id items | list id items =>
    simp only [shape, len, shapeItems_eq_map, List.length_map]
  | dict id d => simp only [shape_dict, len, Dict.length, Dict.map, List.length_map]
  | nativeList id items => simp only [shape, len, Json.shapeItems_eq_map, List.length_map]
  | nativeDict id members =>
    simp only [shape, len, Dict.length, Json.shapeMembers_eq_map, List.length_map]
  | _ => rfl

@[simp] theorem isTruthy_shape (host : Host) (site : Identity) (v : Value) :
    v.shape.isTruthy host site = v.isTruthy host site := by
  cases v with
  | tuple id items | list id items =>
    simp only [shape, isTruthy, shapeItems_eq_map, List.isEmpty_map]
  | dict id d => simp only [shape_dict, isTruthy, Dict.map, List.isEmpty_map]
  | nativeList id items => simp only [shape, isTruthy, Json.shapeItems_eq_map, List.isEmpty_map]
  | nativeDict id members =>
    simp only [shape, isTruthy, Json.shapeMembers_eq_map, List.isEmpty_map]
  | _ => rfl

/-! ## Texts -/

mutual

/-- A document is written as its shape is. -/
theorem repr_json (host : Host) (site : Identity) :
    (j : Json) → j.shape.repr host site = .ok j.repr
  | .null | .bool _ | .int _ | .float _ | .str _ => rfl
  | .array items => by
    rw [Json.shape, repr, reprItems_json host site items]
    rfl
  | .object members => by
    rw [Json.shape, repr, reprEntries_json host site members]
    rfl

theorem reprItems_json (host : Host) (site : Identity) :
    (items : List Json) →
      reprItems host site (Json.shapeItems items) = .ok (Json.reprItems items)
  | [] => rfl
  | j :: rest => by
    rw [Json.shapeItems, reprItems, repr_json host site j, reprItems_json host site rest]
    rfl

theorem reprEntries_json (host : Host) (site : Identity) :
    (members : List (String × Json)) →
      reprEntries host site (Json.shapeMembers members) = .ok (Json.reprMembers members)
  | [] => rfl
  | m :: rest => by
    rw [Json.shapeMembers, reprEntries, reprEntry_json host site m,
      reprEntries_json host site rest]
    rfl

theorem reprEntry_json (host : Host) (site : Identity) :
    (m : String × Json) →
      reprEntry host site (Json.shapeMember m) = .ok (Json.reprMember m)
  | (name, j) => by
    rw [Json.shapeMember, reprEntry, repr_json host site j]
    rfl

end

mutual

/-- A value is written as its shape is. -/
theorem repr_shape (host : Host) (site : Identity) :
    (v : Value) → v.shape.repr host site = v.repr host site
  | tuple _ items => by rw [shape, repr, repr, reprItems_shape host site items]
  | list _ items => by rw [shape, repr, repr, reprItems_shape host site items]
  | dict _ ⟨entries, index⟩ => by rw [shape, repr, repr, reprEntries_shape host site entries]
  | nativeList _ items => by
    rw [shape, repr, reprItems_json]
    rfl
  | nativeDict _ members => by
    rw [shape, repr, reprEntries_json]
    rfl
  | null | notImplemented | bool _ | float _ | str _ | function _ | lambda .. | method ..
  | cls _ | temporal .. | object .. => rfl

theorem reprItems_shape (host : Host) (site : Identity) :
    (items : List Value) →
      reprItems host site (shapeItems items) = reprItems host site items
  | [] => rfl
  | v :: rest => by
    rw [shapeItems, reprItems, reprItems, repr_shape host site v, reprItems_shape host site rest]

theorem reprEntries_shape (host : Host) (site : Identity) :
    (entries : List (Value × Value)) →
      reprEntries host site (shapeEntries entries) = reprEntries host site entries
  | [] => rfl
  | e :: rest => by
    rw [shapeEntries, reprEntries, reprEntries, reprEntry_shape host site e,
      reprEntries_shape host site rest]

theorem reprEntry_shape (host : Host) (site : Identity) :
    (e : Value × Value) → reprEntry host site (shapePair e) = reprEntry host site e
  | (k, v) => by
    rw [shapePair, reprEntry, reprEntry, repr_shape host site k, repr_shape host site v]

end

theorem toText_shape (host : Host) (site : Identity) (v : Value) :
    v.shape.toText host site = v.toText host site := by
  cases v with
  | tuple id items => exact repr_shape host site (tuple id items)
  | list id items => exact repr_shape host site (list id items)
  | dict id entries => exact repr_shape host site (dict id entries)
  | nativeList id items => exact repr_shape host site (nativeList id items)
  | nativeDict id members => exact repr_shape host site (nativeDict id members)
  | _ => rfl

/-! ## Hash keys -/

mutual

theorem hashKeyWith_shape (host : Host) (site : Identity) (next : Value → Outcome HashKey) :
    (v : Value) → hashKeyWith host site next v.shape = hashKeyWith host site next v
  | tuple _ items => by
    rw [shape, hashKeyWith, hashKeyWith, hashKeysWith_shape host site next items]
  | list .. | dict .. | nativeList .. | nativeDict .. => rfl
  | null | notImplemented | bool _ | float _ | str _ | function _ | lambda .. | method ..
  | cls _ | temporal .. | object .. => rfl

theorem hashKeysWith_shape (host : Host) (site : Identity) (next : Value → Outcome HashKey) :
    (items : List Value) →
      hashKeysWith host site next (shapeItems items) = hashKeysWith host site next items
  | [] => rfl
  | v :: rest => by
    rw [shapeItems, hashKeysWith, hashKeysWith, hashKeyWith_shape host site next v,
      hashKeysWith_shape host site next rest]

end

/-- A value is found in a dict under the key of its shape. -/
@[simp] theorem hashKey_shape (host : Host) (site : Identity) (v : Value) :
    v.shape.hashKey host site = v.hashKey host site :=
  hashKeyWith_shape host site _ v

end Value

end FilterLang
