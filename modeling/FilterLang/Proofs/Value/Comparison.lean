import FilterLang.Proofs.Value.Arguments
/-!
Comparison sees the shapes of its operands.

`compareWith_eq` says how two values are compared, case by case. Values without instances
of the embedding program's classes are compared as their shapes are (`compareWith_shape`):
the cases are decided by the shapes, and the items and entries that they go on to are
again compared as their shapes are. The recursion is that of the comparison itself.
-/

namespace FilterLang

open Fallible

namespace Value

/-! ## How two values are compared -/

def compareItems (host : Host) (site : Identity) (r : Relation) (xs ys : List Value) :
    Outcome Value :=
  match r with
  | .eq =>
    if xs.length = ys.length then sameItems host site xs ys >>= fun same => .ok (.bool same)
    else .ok (.bool false)
  | .ne =>
    if xs.length = ys.length then sameItems host site xs ys >>= fun same => .ok (.bool !same)
    else .ok (.bool true)
  | r => orderItems host site r xs ys

/-- The comparison of a dict, with the given entries, with another. -/
def compareEntries (host : Host) (site : Identity) (r : Relation) (pairs : List (Value × Value))
    (a b : Value) : Outcome Value :=
  match r with
  | .eq =>
    b.len host site >>= fun n =>
      if pairs.length = n then sameEntries host site pairs b >>= fun same => .ok (.bool same)
      else .ok (.bool false)
  | .ne =>
    b.len host site >>= fun n =>
      if pairs.length = n then sameEntries host site pairs b >>= fun same => .ok (.bool !same)
      else .ok (.bool true)
  | r => compareByMethods host site r a b

/-- Two values are compared as scalars, as sequences, as dicts, or by their methods. -/
theorem compareWith_eq (host : Host) (site : Identity) (r : Relation) (a b : Value) :
    compareWith host site r a b =
      match scalarCompare? r a b with
      | some answer => .ok (.bool answer)
      | none =>
        match itemsOfBoth? site a b with
        | some (xs, ys) => compareItems host site r xs ys
        | none =>
          match entriesOfBoth? site a b with
          | some pairs => compareEntries host site r pairs a b
          | none => compareByMethods host site r a b := by
  rw [compareWith.eq_def]
  cases scalarCompare? r a b with
  | some answer => rfl
  | none =>
    dsimp only
    split
    · rename_i xs ys hi
      rw [hi]
      cases r <;> rfl
    · -- dicts without a relation of their own fall through to the methods
      rename_i hi
      rw [hi]
      dsimp only
      split
      · rename_i pairs he
        rw [he]
        rfl
      · rename_i pairs he
        rw [he]
        rfl
      · rename_i r' x heq hne
        cases hx : entriesOfBoth? site a b with
        | none => rfl
        | some pairs =>
          cases r' with
          | eq => exact (heq pairs rfl hx).elim
          | ne => exact (hne pairs rfl hx).elim
          | _ => rfl

/-! ## Lookups -/

/-- Only a text has the hash key of a text. -/
theorem text?_of_hashKey {host : Host} {site : Identity} {v : Value} {name : String}
    (h : v.hashKey host site = .ok (.str name)) : v.text? = some name := by
  rw [hashKey, maxHashHops, hashKeyWithin] at h
  cases v with
  | str s => cases h; rfl
  | tuple id items =>
    obtain ⟨keys, _, hkeys⟩ := bind_eq_ok.mp h
    cases keys <;> cases hkeys
  | temporal id t =>
    rw [hashKeyWith] at h
    cases ht : t.hashKey? with
    | none => rw [ht] at h; cases h
    | some k => rw [ht] at h; cases h
  | object id c fields =>
    rw [hashKeyWith] at h
    cases hm : special? host (object id c fields) "__hash__" with
    | none => rw [hm] at h; cases h
    | some m =>
      rw [hm] at h
      obtain ⟨hashed, _, h⟩ := bind_eq_ok.mp h
      obtain ⟨key, _, h⟩ := bind_eq_ok.mp h
      cases h
  | _ => cases h

theorem hashKey_of_text? {host : Host} {site : Identity} {v : Value} {name : String}
    (h : v.text? = some name) : v.hashKey host site = .ok (.str name) := by
  cases v <;> cases h
  rfl

theorem find?_memberRecords {α : Type} (make : String × α → Value) (members : Table α)
    (name : String) : (memberRecords make members).find? (.str name) =
      (Table.get? members name).map fun a => make (name, a) := by
  induction members with
  | nil => rfl
  | cons m rest ih =>
    obtain ⟨n, a⟩ := m
    rw [memberRecords_cons, Records.find?, Table.get?, ih]
    by_cases hn : n = name
    · rw [if_pos hn, if_pos (by rw [hn]), hn]; rfl
    · rw [if_neg hn, if_neg (by simpa using hn)]

/-- Named members are found under texts only. -/
theorem find?_memberRecords_of_ne {α : Type} (make : String × α → Value) (members : Table α)
    {hash : HashKey} (h : ∀ name, hash ≠ .str name) :
    (memberRecords make members).find? hash = none := by
  induction members with
  | nil => rfl
  | cons m rest ih =>
    rw [memberRecords_cons, Records.find?, if_neg (Ne.symm (h m.1)), ih]

/-- A hashable key finds the same in a dict of either form and in its shape. -/
theorem lookup_shape {host : Host} {site : Identity} (v : Value) {k : Value} {hash : HashKey}
    (hk : k.hashKey host site = .ok hash) :
    v.shape.lookup host site k.shape = (v.lookup host site k).map (Option.map shape) := by
  cases v with
  | dict id d =>
    rw [shape_dict, lookup, lookup, Dict.get, Dict.get, hashKey_shape, hk]
    exact congrArg Except.ok (Dict.find?_map shape d hash)
  | nativeDict id members =>
    have hshape : (nativeDict id members).shape =
        .dict .origin (memberRecords (fun m => m.2.shape) members).dict := shape_object members
    rw [hshape, lookup, lookup, Dict.get, hashKey_shape, hk]
    refine congrArg Except.ok ?_
    rw [Records.find?_dict]
    cases ht : k.text? with
    | some name =>
      rw [hashKey_of_text? ht] at hk
      cases hk
      rw [find?_memberRecords]
      cases hget : Table.get? members name with
      | none => simp [hget]
      | some j => simp [hget]
    | none =>
      -- a key that is no text is looked up among the entries of the shape, and is not there
      refine find?_memberRecords_of_ne _ members ?_
      rintro name rfl
      rw [text?_of_hashKey hk] at ht
      cases ht
  | _ => rfl

/-- The record of a dict of either form, where the members of a document are made values at a
place. -/
inductive Recorded (site : Identity) : Value → Records → Prop
  | dict (id : Identity) (r : Records) : Recorded site (.dict id r.dict) r
  | nativeDict (id : Identity) (members : List (String × Json)) :
    Recorded site (.nativeDict id members)
      (memberRecords (fun m => ofJson (site.entry m.1) m.2) members)

section Recorded

variable {site : Identity} {v : Value} {r : Records}

theorem Recorded.entries? (h : v.Recorded site r) : v.entries? site = some r.pairs := by
  cases h with
  | dict id r => rfl
  | nativeDict id members =>
    simp [Value.entries?, ofMembers, memberRecords, Records.pairs, Function.comp_def]

theorem Recorded.len (h : v.Recorded site r) (host : Host) : v.len host site = .ok r.length := by
  cases h with
  | dict id r => rw [Value.len, Records.length_dict]
  | nativeDict id members => rw [Value.len, memberRecords, List.length_map]

/-- A key is in a dict of either form when it is found there. -/
theorem Recorded.contains (h : v.Recorded site r) (host : Host) (k : Value) :
    v.contains host site k = (v.lookup host site k).map Option.isSome := by
  cases h with
  | dict id r =>
    rw [Value.contains, Value.lookup, Dict.containsKey, Dict.get]
    cases k.hashKey host site with
    | error e => rfl
    | ok hash =>
      rw [ok_bind, ok_bind, Records.isSome_slot?_dict, Records.find?_dict]
      rfl
  | nativeDict id members =>
    rw [Value.contains, Value.lookup]
    cases k.text? with
    | none => rfl
    | some name =>
      refine congrArg Except.ok ?_
      simp [Table.contains]

end Recorded

/-! ## Built-in values -/

mutual

/-- Whether a value can be a key of a dict without the embedding program being asked. -/
def isHashable : Value → Bool
  | tuple _ items => allHashable items
  | list .. | dict .. | nativeList .. | nativeDict .. | object .. => false
  | _ => true

def allHashable : List Value → Bool
  | [] => true
  | v :: rest => v.isHashable && allHashable rest

end

mutual

/-- Whether no instance of a class of the embedding program stands in a value, as far as
a comparison can reach. The keys of a dict are hashable. -/
def isBuiltIn : Value → Bool
  | object .. => false
  | tuple _ items | list _ items => allBuiltIn items
  | dict _ ⟨entries, _⟩ => entriesBuiltIn entries
  | _ => true

def allBuiltIn : List Value → Bool
  | [] => true
  | v :: rest => v.isBuiltIn && allBuiltIn rest

def entriesBuiltIn : List (Value × Value) → Bool
  | [] => true
  | e :: rest => entryBuiltIn e && entriesBuiltIn rest

/-- Whether an entry of a dict has a hashable key and a built-in value. -/
def entryBuiltIn : Value × Value → Bool
  | (k, v) => k.isHashable && v.isBuiltIn

end

mutual

theorem isHashable_shape : (v : Value) → v.shape.isHashable = v.isHashable
  | tuple _ items => allHashable_shape items
  | list .. | dict .. | nativeList .. | nativeDict .. => rfl
  | null | notImplemented | bool _ | float _ | str _ | function _ | lambda .. | method ..
  | cls _ | temporal .. | object .. => rfl

theorem allHashable_shape : (items : List Value) →
    allHashable (shapeItems items) = allHashable items
  | [] => rfl
  | v :: rest => by
    rw [shapeItems, allHashable, allHashable, isHashable_shape v, allHashable_shape rest]

end

mutual

/-- Documents and shapes of documents hold nothing of the embedding program. -/
theorem isBuiltIn_json : (j : Json) → j.shape.isBuiltIn = true
  | .null | .bool _ | .int _ | .float _ | .str _ => rfl
  | .array items => allBuiltIn_json items
  | .object members => entriesBuiltIn_json members

theorem allBuiltIn_json : (items : List Json) → allBuiltIn (Json.shapeItems items) = true
  | [] => rfl
  | j :: rest => by
    rw [Json.shapeItems, allBuiltIn, isBuiltIn_json j, allBuiltIn_json rest]
    rfl

theorem entriesBuiltIn_json : (members : List (String × Json)) →
    entriesBuiltIn (Json.shapeMembers members) = true
  | [] => rfl
  | m :: rest => by
    rw [Json.shapeMembers, entriesBuiltIn, entryBuiltIn_json m, entriesBuiltIn_json rest]
    rfl

theorem entryBuiltIn_json : (m : String × Json) → entryBuiltIn (Json.shapeMember m) = true
  | (_, j) => isBuiltIn_json j

end

mutual

theorem isBuiltIn_shape : (v : Value) → v.shape.isBuiltIn = v.isBuiltIn
  | tuple _ items | list _ items => allBuiltIn_shape items
  | dict _ ⟨entries, _⟩ => entriesBuiltIn_shape entries
  | nativeList _ items => allBuiltIn_json items
  | nativeDict _ members => entriesBuiltIn_json members
  | null | notImplemented | bool _ | float _ | str _ | function _ | lambda .. | method ..
  | cls _ | temporal .. | object .. => rfl

theorem allBuiltIn_shape : (items : List Value) →
    allBuiltIn (shapeItems items) = allBuiltIn items
  | [] => rfl
  | v :: rest => by
    rw [shapeItems, allBuiltIn, allBuiltIn, isBuiltIn_shape v, allBuiltIn_shape rest]

theorem entriesBuiltIn_shape : (entries : List (Value × Value)) →
    entriesBuiltIn (shapeEntries entries) = entriesBuiltIn entries
  | [] => rfl
  | e :: rest => by
    rw [shapeEntries, entriesBuiltIn, entriesBuiltIn, entryBuiltIn_shape e,
      entriesBuiltIn_shape rest]

theorem entryBuiltIn_shape : (e : Value × Value) → entryBuiltIn (shapePair e) = entryBuiltIn e
  | (k, v) => by
    rw [shapePair, entryBuiltIn, entryBuiltIn, isHashable_shape k, isBuiltIn_shape v]

end

theorem isBuiltIn_of_shape_eq {a b : Value} (h : a.shape = b.shape) (ha : a.isBuiltIn = true) :
    b.isBuiltIn = true := by
  rw [← isBuiltIn_shape, ← h, isBuiltIn_shape, ha]

mutual

theorem hashKeyWith_of_isHashable : (v : Value) → v.isHashable = true →
    ∃ hash, ∀ host site next, hashKeyWith host site next v = .ok hash
  | null, _ | notImplemented, _ | bool _, _ | float _, _ | str _, _ | function _, _ | cls _, _
  | lambda .., _ | method .., _ => ⟨_, fun _ _ _ => rfl⟩
  | temporal id t, _ => by
    cases ht : t.hashKey? with
    | none => exact ⟨.identity id, fun _ _ _ => by rw [hashKeyWith, ht]⟩
    | some k => exact ⟨.instanceOf t.cls k, fun _ _ _ => by rw [hashKeyWith, ht]⟩
  | tuple _ items, h => by
    obtain ⟨keys, hkeys⟩ := hashKeysWith_of_allHashable items h
    exact ⟨.ofTuple keys, fun host site next => by rw [hashKeyWith, hkeys]; rfl⟩

theorem hashKeysWith_of_allHashable : (items : List Value) → allHashable items = true →
    ∃ keys, ∀ host site next, hashKeysWith host site next items = .ok keys
  | [], _ => ⟨[], fun _ _ _ => rfl⟩
  | v :: rest, h => by
    obtain ⟨hv, hrest⟩ := (Bool.and_eq_true _ _).mp h
    obtain ⟨key, hkey⟩ := hashKeyWith_of_isHashable v hv
    obtain ⟨keys, hkeys⟩ := hashKeysWith_of_allHashable rest hrest
    exact ⟨key :: keys, fun host site next => by rw [hashKeysWith, hkey, hkeys]; rfl⟩

end

/-- A hashable value has one hash key, whatever the embedding program is. -/
theorem hashKey_of_isHashable {v : Value} (h : v.isHashable = true) :
    ∃ hash, ∀ host site, v.hashKey host site = .ok hash := by
  obtain ⟨hash, hhash⟩ := hashKeyWith_of_isHashable v h
  exact ⟨hash, fun host site => hhash host site _⟩

theorem isBuiltIn_of_mem {items : List Value} (h : allBuiltIn items = true) {v : Value}
    (hv : v ∈ items) : v.isBuiltIn = true := by
  induction items with
  | nil => cases hv
  | cons w rest ih =>
    obtain ⟨hw, hrest⟩ := (Bool.and_eq_true _ _).mp h
    rcases List.mem_cons.mp hv with rfl | hv
    · exact hw
    · exact ih hrest hv

theorem entryBuiltIn_of_mem {entries : List (Value × Value)} (h : entriesBuiltIn entries = true)
    {e : Value × Value} (he : e ∈ entries) : e.1.isHashable = true ∧ e.2.isBuiltIn = true := by
  induction entries with
  | nil => cases he
  | cons w rest ih =>
    obtain ⟨hw, hrest⟩ := (Bool.and_eq_true _ _).mp h
    rcases List.mem_cons.mp he with rfl | he
    · obtain ⟨k, v⟩ := e
      exact (Bool.and_eq_true _ _).mp hw
    · exact ih hrest he

theorem allBuiltIn_of_forall {items : List Value} (h : ∀ v ∈ items, v.isBuiltIn = true) :
    allBuiltIn items = true := by
  induction items with
  | nil => rfl
  | cons v rest ih =>
    rw [allBuiltIn, h v (by simp), ih fun w hw => h w (by simp [hw])]
    rfl

theorem entriesBuiltIn_of_forall {entries : List (Value × Value)}
    (h : ∀ e ∈ entries, e.1.isHashable = true ∧ e.2.isBuiltIn = true) :
    entriesBuiltIn entries = true := by
  induction entries with
  | nil => rfl
  | cons e rest ih =>
    obtain ⟨k, v⟩ := e
    obtain ⟨hk, hv⟩ := h (k, v) (by simp)
    rw [entriesBuiltIn, entryBuiltIn, hk, hv, ih fun w hw => h w (by simp [hw])]
    rfl

theorem isBuiltIn_ofJson (site : Identity) (j : Json) : (ofJson site j).isBuiltIn = true := by
  cases j <;> rfl

/-- The items of a built-in list are built-in. -/
theorem isBuiltIn_of_listItems? {site : Identity} {v : Value} {items : List Value}
    (hv : v.isBuiltIn = true) (h : v.listItems? site = some items) :
    ∀ w ∈ items, w.isBuiltIn = true := by
  cases v with
  | list id xs =>
    cases h
    exact fun w hw => isBuiltIn_of_mem hv hw
  | nativeList id xs =>
    cases h
    intro w hw
    obtain ⟨i, hi, rfl⟩ := List.mem_mapIdx.mp hw
    exact isBuiltIn_ofJson _ _
  | _ => cases h

/-- The entries of a built-in dict have hashable keys and built-in values. -/
theorem isBuiltIn_of_entries? {site : Identity} {v : Value} {pairs : List (Value × Value)}
    (hv : v.isBuiltIn = true) (h : v.entries? site = some pairs) :
    ∀ p ∈ pairs, p.1.isHashable = true ∧ p.2.isBuiltIn = true := by
  cases v with
  | dict id d =>
    cases h
    exact fun p hp => entryBuiltIn_of_mem hv hp
  | nativeDict id members =>
    cases h
    intro p hp
    obtain ⟨m, hm, rfl⟩ := List.mem_map.mp hp
    exact ⟨rfl, isBuiltIn_ofJson _ _⟩
  | _ => cases h

/-- What is found in a built-in dict is built-in. -/
theorem isBuiltIn_of_lookup {host : Host} {site : Identity} {v k found : Value}
    (hv : v.isBuiltIn = true) (h : v.lookup host site k = .ok (some found)) :
    found.isBuiltIn = true := by
  cases v with
  | dict id d =>
    obtain ⟨hash, _, h⟩ := bind_eq_ok.mp h
    obtain ⟨e, he, rfl⟩ := Dict.mem_of_find? (Except.ok.inj h)
    exact (entryBuiltIn_of_mem hv he).2
  | nativeDict id members =>
    obtain ⟨name, _, h⟩ := Option.bind_eq_some_iff.mp (Except.ok.inj h)
    obtain ⟨j, _, rfl⟩ := Option.map_eq_some_iff.mp h
    exact isBuiltIn_ofJson site j
  | _ => cases h

/-! ## The cases of a comparison are decided by the shapes -/

theorem scalarEqual?_shape (a b : Value) :
    scalarEqual? a.shape b.shape = scalarEqual? a b := by
  cases a <;> cases b <;> rfl

theorem scalarCompare?_shape (r : Relation) (a b : Value) :
    scalarCompare? r a.shape b.shape = scalarCompare? r a b := by
  cases r with
  | eq => exact scalarEqual?_shape a b
  | ne => exact congrArg (Option.map (!·)) (scalarEqual?_shape a b)
  | _ => cases a <;> cases b <;> rfl

/-- The items of two tuples or of two lists, in their shapes. -/
theorem itemsOfBoth?_shape (site : Identity) (a b : Value) :
    itemsOfBoth? site a.shape b.shape =
      (itemsOfBoth? site a b).map (Prod.map (List.map shape) (List.map shape)) := by
  cases a with
  | tuple id xs =>
    cases b with
    | tuple id' ys => simp [shape, itemsOfBoth?, shapeItems_eq_map]
    | _ => rfl
  | list id xs =>
    cases b with
    | list id' ys => simp [shape, itemsOfBoth?, listItems?, shapeItems_eq_map]
    | nativeList id' ys =>
      simp [shape, itemsOfBoth?, listItems?, shapeItems_eq_map, Json.shapeItems_eq_map,
        map_shape_ofItems]
    | _ => rfl
  | nativeList id xs =>
    cases b with
    | list id' ys =>
      simp [shape, itemsOfBoth?, listItems?, shapeItems_eq_map, Json.shapeItems_eq_map,
        map_shape_ofItems]
    | nativeList id' ys =>
      simp [shape, itemsOfBoth?, listItems?, Json.shapeItems_eq_map, map_shape_ofItems]
    | _ => rfl
  | _ => cases b <;> rfl

/-- The entries of a dict that is compared with a dict, in their shapes. -/
theorem entriesOfBoth?_shape (site : Identity) (a b : Value) :
    entriesOfBoth? site a.shape b.shape =
      (entriesOfBoth? site a b).map (List.map shapePair) := by
  rw [entriesOfBoth?, entriesOfBoth?, entries?_shape site site a, entries?_shape site site b]
  cases a.entries? site <;> cases b.entries? site <;> rfl

/-- Values that are not compared part by part are the same object exactly when their
shapes are. -/
theorem identical_shape {site : Identity} {a b : Value} (hi : itemsOfBoth? site a b = none)
    (he : entriesOfBoth? site a b = none) : a.shape.identical b.shape = a.identical b := by
  cases a <;> cases b <;> first | rfl | (cases hi; done) | cases he

/-! ## Methods -/

end Value

namespace Class

variable {host : Host} {c : Class}

/-- The classes of the language derive from each other only. -/
theorem lineage_ne_host (hc : ∀ name, c ≠ .host name) :
    ∀ k ∈ c.lineage host, ∀ name, k ≠ .host name := by
  rintro k hk name rfl
  cases c with
  | host owner => exact hc owner rfl
  | _ => simp [lineage, ancestors] at hk

/-- A method of a class of the language is declared by it or by one it derives from. -/
theorem mem_declaredBy (hc : ∀ name, c ≠ .host name) {name : String} {m : Method}
    (h : c.method? host name = some m) : ∃ k ∈ c.lineage host, m ∈ Method.declaredBy k := by
  obtain ⟨k, hk, hown⟩ := List.exists_of_findSome?_eq_some h
  refine ⟨k, hk, ?_⟩
  have hfind : (Method.declaredBy k).find? (·.name == name) = some m := by
    cases k with
    | host owner => exact absurd rfl (lineage_ne_host hc _ hk owner)
    | _ => exact hown
  exact List.mem_of_find?_eq_some hfind

/-- The instance methods that the classes of the language declare are those of the calendar. -/
theorem eq_temporal_of_mem {m : InstanceMethod} (h : .ofInstance m ∈ Method.declaredBy c) :
    ∃ tm ∈ TemporalMethod.declaredBy c, m = .temporal tm := by
  cases c with
  | str | tuple | list | dict =>
    obtain ⟨x, _, hx⟩ := List.mem_map.mp h
    cases hx
  | _ =>
    obtain ⟨tm, htm, heq⟩ := List.mem_map.mp h
    cases heq
    exact ⟨tm, htm, rfl⟩

end Class

theorem Temporal.cls_ne_host (t : Temporal) (name : String) : t.cls ≠ .host name := by
  cases t <;> simp [cls]

namespace Value

/-- The special methods of a calendar value are calendar methods. -/
theorem special?_temporal {host : Host} {id : Identity} {t : Temporal} {name : String}
    {m : InstanceMethod} (h : (temporal id t).special? host name = some m) :
    ∃ tm, m = .temporal tm := by
  rw [special?] at h
  cases hm : (temporal id t).classOf.method? host name with
  | none => rw [hm] at h; cases h
  | some found =>
    rw [hm] at h
    cases found with
    | ofInstance m' =>
      cases h
      obtain ⟨c, _, hmem⟩ := Class.mem_declaredBy t.cls_ne_host hm
      obtain ⟨tm, _, rfl⟩ := Class.eq_temporal_of_mem hmem
      exact ⟨tm, rfl⟩
    | str | sequence | dict => cases h

theorem askOperator_shape (host : Host) (site : Identity) {a : Value} (ha : a.isBuiltIn = true)
    (name : String) (b : Value) :
    askOperator host site a.shape name b.shape = askOperator host site a name b := by
  rw [askOperator, askOperator, special?_shape]
  cases hm : a.special? host name with
  | none => rfl
  | some m =>
    cases a with
    | temporal id t =>
      obtain ⟨tm, rfl⟩ := special?_temporal hm
      have hcall := tm.call_shape host site (temporal id t) [b]
      rw [List.map_singleton] at hcall
      simp only [shape, hcall]
    | object id c fields => cases ha
    | _ => cases hm

/-- Methods compare two built-in values as their shapes, where identity is not asked. -/
theorem compareByMethods_shape (host : Host) (site : Identity) (r : Relation) {a b : Value}
    (ha : a.isBuiltIn = true) (hb : b.isBuiltIn = true)
    (hid : r = .eq ∨ r = .ne → a.shape.identical b.shape = a.identical b) :
    compareByMethods host site r a.shape b.shape = compareByMethods host site r a b := by
  unfold compareByMethods
  rw [askOperator_shape host site ha, askOperator_shape host site hb, typeName_shape,
    typeName_shape]
  cases r with
  | eq => rw [hid (Or.inl rfl)]
  | ne => rw [hid (Or.inr rfl)]
  | _ => rfl

/-! ## Comparison of shapes

The statements about the four mutually recursive functions. -/

def ComparesShapes (host : Host) (site : Identity) (r : Relation) (a b : Value) : Prop :=
  a.isBuiltIn = true → b.isBuiltIn = true →
    compareWith host site r a.shape b.shape = compareWith host site r a b

def SameItemsShapes (host : Host) (site : Identity) (xs ys : List Value) : Prop :=
  (∀ x ∈ xs, x.isBuiltIn = true) → (∀ y ∈ ys, y.isBuiltIn = true) →
    sameItems host site (xs.map shape) (ys.map shape) = sameItems host site xs ys

def SameEntriesShapes (host : Host) (site : Identity) (pairs : List (Value × Value))
    (other : Value) : Prop :=
  (∀ p ∈ pairs, p.1.isHashable = true ∧ p.2.isBuiltIn = true) → other.isBuiltIn = true →
    sameEntries host site (pairs.map shapePair) other.shape = sameEntries host site pairs other

def OrderItemsShapes (host : Host) (site : Identity) (r : Relation) (xs ys : List Value) : Prop :=
  (∀ x ∈ xs, x.isBuiltIn = true) → (∀ y ∈ ys, y.isBuiltIn = true) →
    orderItems host site r (xs.map shape) (ys.map shape) = orderItems host site r xs ys

section Steps

variable {host : Host} {site : Identity} {r : Relation} {a b : Value}

/-- The items of two built-in sequences are built-in. -/
theorem isBuiltIn_of_itemsOfBoth? {xs ys : List Value} (ha : a.isBuiltIn = true)
    (hb : b.isBuiltIn = true) (hi : itemsOfBoth? site a b = some (xs, ys)) :
    (∀ x ∈ xs, x.isBuiltIn = true) ∧ (∀ y ∈ ys, y.isBuiltIn = true) := by
  rw [itemsOfBoth?.eq_def] at hi
  split at hi
  · cases hi
    exact ⟨fun x hx => isBuiltIn_of_mem ha hx, fun y hy => isBuiltIn_of_mem hb hy⟩
  · split at hi
    · rename_i xs' ys' hx hy
      cases hi
      exact ⟨isBuiltIn_of_listItems? ha hx, isBuiltIn_of_listItems? hb hy⟩
    · cases hi

theorem isBuiltIn_of_entriesOfBoth? {pairs : List (Value × Value)} (ha : a.isBuiltIn = true)
    (he : entriesOfBoth? site a b = some pairs) :
    ∀ p ∈ pairs, p.1.isHashable = true ∧ p.2.isBuiltIn = true := by
  rw [entriesOfBoth?] at he
  cases hx : a.entries? site with
  | none => rw [hx] at he; cases he
  | some found =>
    rw [hx] at he
    cases hy : b.entries? site with
    | none => rw [hy] at he; cases he
    | some _ =>
      rw [hy] at he
      cases he
      exact isBuiltIn_of_entries? ha hx

/-- Two sequences are compared as their shapes when their items are. -/
theorem comparesShapes_of_items {xs ys : List Value} (hs : scalarCompare? r a b = none)
    (hi : itemsOfBoth? site a b = some (xs, ys))
    (hc : (∀ x ∈ xs, x.isBuiltIn = true) → (∀ y ∈ ys, y.isBuiltIn = true) →
      compareItems host site r (xs.map shape) (ys.map shape) = compareItems host site r xs ys) :
    ComparesShapes host site r a b := by
  intro ha hb
  obtain ⟨hxs, hys⟩ := isBuiltIn_of_itemsOfBoth? ha hb hi
  rw [compareWith_eq, compareWith_eq, scalarCompare?_shape, hs, itemsOfBoth?_shape, hi]
  exact hc hxs hys

/-- Two dicts are compared as their shapes when their entries are. -/
theorem comparesShapes_of_entries {pairs : List (Value × Value)}
    (hs : scalarCompare? r a b = none) (hi : itemsOfBoth? site a b = none)
    (he : entriesOfBoth? site a b = some pairs)
    (hc : a.isBuiltIn = true → b.isBuiltIn = true →
      compareEntries host site r (pairs.map shapePair) a.shape b.shape =
        compareEntries host site r pairs a b) :
    ComparesShapes host site r a b := by
  intro ha hb
  rw [compareWith_eq, compareWith_eq, scalarCompare?_shape, hs, itemsOfBoth?_shape, hi,
    entriesOfBoth?_shape, he]
  exact hc ha hb

theorem sameItemsShapes_cons {x y : Value} {xs ys : List Value}
    (hx : ComparesShapes host site .eq x y) (hxs : SameItemsShapes host site xs ys) :
    SameItemsShapes host site (x :: xs) (y :: ys) := by
  intro ha hb
  have hhead := hx (ha x (by simp)) (hb y (by simp))
  have htail := hxs (fun v hv => ha v (by simp [hv])) (fun v hv => hb v (by simp [hv]))
  rw [List.map_cons, List.map_cons, sameItems, sameItems, hhead, htail]

theorem orderItemsShapes_cons {x y : Value} {xs ys : List Value}
    (heq : ComparesShapes host site .eq x y) (hxs : OrderItemsShapes host site r xs ys)
    (hr : ComparesShapes host site r x y) :
    OrderItemsShapes host site r (x :: xs) (y :: ys) := by
  intro ha hb
  have hx := ha x (by simp)
  have hy := hb y (by simp)
  have htail := hxs (fun v hv => ha v (by simp [hv])) (fun v hv => hb v (by simp [hv]))
  rw [List.map_cons, List.map_cons, orderItems, orderItems, heq hx hy, htail, hr hx hy]

theorem sameEntriesShapes_cons {other k v : Value} {rest : List (Value × Value)}
    (hv : ∀ found, ComparesShapes host site .eq v found)
    (hrest : SameEntriesShapes host site rest other) :
    SameEntriesShapes host site ((k, v) :: rest) other := by
  intro ha hb
  obtain ⟨hk, hvalue⟩ := ha (k, v) (by simp)
  obtain ⟨hash, hhash⟩ := hashKey_of_isHashable hk
  have htail := hrest (fun p hp => ha p (by simp [hp])) hb
  rw [List.map_cons, shapePair, sameEntries, sameEntries, lookup_shape other (hhash host site)]
  cases hl : other.lookup host site k with
  | error e => rfl
  | ok found =>
    cases found with
    | none => rfl
    | some found =>
      have hfound := hv found hvalue (isBuiltIn_of_lookup hb hl)
      simp only [Except.map, Option.map_some, ok_bind, hfound, htail]

end Steps

/-- Built-in values are compared as their shapes. -/
theorem compareWith_shape (host : Host) (site : Identity) (r : Relation) (a b : Value) :
    ComparesShapes host site r a b := by
  -- the cases come in the order in which the functions and their branches are defined
  refine (compareWith.mutual_induct site (ComparesShapes host site)
    (SameEntriesShapes host site) (OrderItemsShapes host site) (SameItemsShapes host site)
    ?_ ?_ ?_ ?_ ?_ ?_ ?_ ?_ ?_ ?_ ?_ ?_ ?_ ?_ ?_).1 r a b
  · intro r a b answer hs _ _
    rw [compareWith_eq, compareWith_eq, scalarCompare?_shape, hs]
  · intro a b xs ys hi hlen hs ih
    refine comparesShapes_of_items hs hi fun hxs hys => ?_
    simp only [compareItems, List.length_map, ih hxs hys]
  · intro a b xs ys hi hlen hs
    refine comparesShapes_of_items hs hi fun hxs hys => ?_
    simp only [compareItems, List.length_map, if_neg hlen]
  · intro a b xs ys hi hlen hs ih
    refine comparesShapes_of_items hs hi fun hxs hys => ?_
    simp only [compareItems, List.length_map, ih hxs hys]
  · intro a b xs ys hi hlen hs
    refine comparesShapes_of_items hs hi fun hxs hys => ?_
    simp only [compareItems, List.length_map, if_neg hlen]
  · intro a b xs ys hi r heq hne hs ih
    refine comparesShapes_of_items hs hi fun hxs hys => ?_
    cases r with
    | eq => exact (heq rfl).elim
    | ne => exact (hne rfl).elim
    | _ => exact ih hxs hys
  · intro a b hi pairs he hs ih
    refine comparesShapes_of_entries hs hi he fun ha hb => ?_
    have hpairs := ih (isBuiltIn_of_entriesOfBoth? ha he) hb
    simp only [compareEntries, len_shape, List.length_map, hpairs]
  · intro a b hi pairs he hs ih
    refine comparesShapes_of_entries hs hi he fun ha hb => ?_
    have hpairs := ih (isBuiltIn_of_entriesOfBoth? ha he) hb
    simp only [compareEntries, len_shape, List.length_map, hpairs]
  · intro a b hi r heq hne hs
    cases he : entriesOfBoth? site a b with
    | none =>
      intro ha hb
      rw [compareWith_eq, compareWith_eq, scalarCompare?_shape, hs, itemsOfBoth?_shape, hi,
        entriesOfBoth?_shape, he]
      exact compareByMethods_shape host site r ha hb fun _ => identical_shape hi he
    | some pairs =>
      refine comparesShapes_of_entries hs hi he fun ha hb => ?_
      -- two dicts have no order of their own: their methods are asked
      cases r with
      | eq => exact (heq pairs rfl he).elim
      | ne => exact (hne pairs rfl he).elim
      | _ =>
        refine compareByMethods_shape host site _ ha hb ?_
        rintro (h | h) <;> cases h
  · intro other _ _
    rw [List.map_nil, sameEntries, sameEntries]
  · intro other k v rest hv hrest
    exact sameEntriesShapes_cons hv hrest
  · intro r x xs y ys heq hxs hr
    exact orderItemsShapes_cons heq hxs hr
  · intro r xs ys hne _ _
    rcases xs with _ | ⟨x, xs⟩
    · simp [orderItems]
    · rcases ys with _ | ⟨y, ys⟩
      · simp [orderItems]
      · exact (hne x xs y ys rfl rfl).elim
  · intro x xs y ys hx hxs
    exact sameItemsShapes_cons hx hxs
  · intro xs ys hne _ _
    rcases xs with _ | ⟨x, xs⟩
    · simp [sameItems]
    · rcases ys with _ | ⟨y, ys⟩
      · simp [sameItems]
      · exact (hne x xs y ys rfl rfl).elim

/-- Equality does not tell built-in values from their shapes. -/
theorem equals_shape (host : Host) (site : Identity) {a b : Value} (ha : a.isBuiltIn = true)
    (hb : b.isBuiltIn = true) : equals host site a.shape b.shape = equals host site a b := by
  rw [equals, equals, compareWith_shape host site .eq a b ha hb]

end Value

end FilterLang
