import FilterLang.Proofs.Number.Nearest
import FilterLang.Proofs.Value.Alike
import FilterLang.Proofs.Value.Literal
import FilterLang.Source
/-!
Documents are opened when they are reached, and nothing shows that they were not before.

`eager` opens a document at once, to the bottom. A document and its opened form have one
shape (`shape_eager`), so they are alike, and so is what any path of subscripts finds in
them. Both go back to the document they came from, where its numbers are exact. What does
tell them apart is listed in `Distinguished`: identity, members as attributes, and keys that
are not hashable.
-/

namespace FilterLang

open Fallible

/-! ## Documents -/

/-- The members of every object in a document stand in the order of their names. -/
inductive Json.Ordered : Json → Prop
  | null : Ordered .null
  | bool (b : Bool) : Ordered (.bool b)
  | int (n : Int) : Ordered (.int n)
  | float (x : Float) : Ordered (.float x)
  | str (s : String) : Ordered (.str s)
  | array {items : List Json} (h : ∀ j ∈ items, Ordered j) : Ordered (.array items)
  | object {members : List (String × Json)} (names : (members.map (·.1)).Pairwise (· < ·))
    (h : ∀ m ∈ members, Ordered m.2) : Ordered (.object members)

/-- Every number in a document is a whole one that a float holds exactly, or a finite float
that is not whole. -/
inductive Json.Exact : Json → Prop
  | null : Exact .null
  | bool (b : Bool) : Exact (.bool b)
  | int {n : Int} (h : -Number.maxExact ≤ n ∧ n ≤ Number.maxExact) : Exact (.int n)
  | float {x : Float} (finite : x.isFinite = true) (h : Number.toInt? x = none) : Exact (.float x)
  | str (s : String) : Exact (.str s)
  | array {items : List Json} (h : ∀ j ∈ items, Exact j) : Exact (.array items)
  | object {members : List (String × Json)} (h : ∀ m ∈ members, Exact m.2) :
    Exact (.object members)

theorem nodup_of_ordered {names : List String} (h : names.Pairwise (· < ·)) : names.Nodup :=
  List.Pairwise.imp (fun hlt => String.ne_of_lt hlt) h

namespace Value

/-! ## Opening a document -/

mutual

/-- A document opened to the bottom: arrays become lists, and objects become dicts whose
text keys are set in the order of the names. -/
def eager (site : Identity) : Json → Value
  | .array items => .list site (eagerItems site 0 items)
  | .object members => .dict site (eagerMembers site [] members)
  | j => ofJson site j

def eagerItems (site : Identity) (i : Nat) : List Json → List Value
  | [] => []
  | j :: rest => eager (site.child i) j :: eagerItems site (i + 1) rest

/-- A dict with the members of an object set, opened. -/
def eagerMembers (site : Identity) (d : Dict) : List (String × Json) → Dict
  | [] => d
  | m :: rest => eagerMembers site (eagerMember site d m) rest

/-- A dict with a member of an object set, opened. -/
def eagerMember (site : Identity) (d : Dict) : String × Json → Dict
  | (name, j) => d.set (.str name) (.str name) (eager (site.entry name) j)

end

def eagerRecords (site : Identity) (members : List (String × Json)) : Records :=
  memberRecords (fun m => eager (site.entry m.1) m.2) members

theorem eagerMembers_eq_foldl (site : Identity) (d : Dict) (members : List (String × Json)) :
    eagerMembers site d members =
      members.foldl (fun d m => d.set (.str m.1) (.str m.1) (eager (site.entry m.1) m.2)) d := by
  induction members generalizing d with
  | nil => rfl
  | cons m rest ih => rw [eagerMembers, ih, List.foldl_cons, eagerMember]

theorem eager_object (site : Identity) {members : List (String × Json)}
    (h : (members.map (·.1)).Pairwise (· < ·)) :
    eager site (.object members) = .dict site (eagerRecords site members).dict := by
  have hkeyed : (eagerRecords site members).Keyed := keyed_memberRecords _ (nodup_of_ordered h)
  rw [eager, eagerMembers_eq_foldl]
  exact congrArg _ (foldl_set_dict _ [] hkeyed.distinct)

theorem map_shape_eagerItems {items : List Json}
    (h : ∀ j ∈ items, ∀ site, (eager site j).shape = j.shape) (site : Identity) (i : Nat) :
    (eagerItems site i items).map shape = items.map Json.shape := by
  induction items generalizing i with
  | nil => rfl
  | cons j rest ih =>
    rw [eagerItems, List.map_cons, List.map_cons, h j (by simp),
      ih fun k hk => h k (by simp [hk])]

/-- A document has the shape of its opened form. -/
theorem shape_eager {j : Json} (h : j.Ordered) (site : Identity) :
    (eager site j).shape = j.shape := by
  induction h generalizing site with
  | array h ih =>
    rw [eager, shape, shapeItems_eq_map, map_shape_eagerItems ih, Json.shape,
      Json.shapeItems_eq_map]
  | object names h ih =>
    rw [eager_object site names, shape_dict, Dict.map_dict, shape_object]
    refine congrArg (fun r : Records => Value.dict .origin r.dict) ?_
    rw [eagerRecords, memberRecords, Records.mapParts, List.map_map]
    exact List.map_congr_left fun m hm => congrArg (Entry.mk _ _) (ih m hm _)
  | _ => rfl

/-! ## Native forms -/

/-- A name after all others is set at the end of a table. -/
theorem insert_of_lt {α : Type} {t : Table α} {name : String} (h : ∀ e ∈ t, e.1 < name) (a : α) :
    Table.insert t name a = t ++ [(name, a)] := by
  induction t with
  | nil => rfl
  | cons e rest ih =>
    obtain ⟨n, b⟩ := e
    have hlt : n < name := h (n, b) (by simp)
    have hne : n ≠ name := fun heq => String.lt_irrefl _ (heq ▸ hlt)
    rw [Table.insert, if_neg hne, if_neg (String.lt_asymm hlt),
      ih fun e he => h e (by simp [he])]
    rfl

theorem nativeNumber_exact {x : Float} (finite : x.isFinite = true)
    (h : Number.toInt? x = none) : nativeNumber x = .ok (.float x) := by
  rw [nativeNumber, Number.integral?, h]
  exact if_pos finite

theorem nativeNumber_ofInt {n : Int} (h : -Number.maxExact ≤ n ∧ n ≤ Number.maxExact) :
    nativeNumber (Number.ofInt n) = .ok (.int n) := by
  have hbound : n.natAbs ≤ 2 ^ 53 := by
    have hmax : Number.maxExact = 2 ^ 53 := rfl
    omega
  rw [nativeNumber, Number.integral?_ofInt hbound]
  exact if_pos h

theorem nativeItems_eagerItems {host : Host} {place : Identity} {items : List Json}
    (h : ∀ j ∈ items, ∀ site, (eager site j).toNative host place = .ok j) (site : Identity)
    (i : Nat) : nativeItems host place (eagerItems site i items) = .ok items := by
  induction items generalizing i with
  | nil => rfl
  | cons j rest ih =>
    rw [eagerItems, nativeItems, h j (by simp), ok_bind, ih fun k hk => h k (by simp [hk])]
    rfl

/-- Entries whose names stand in order become the members of a table in that order. -/
theorem nativeEntries_eagerRecords {host : Host} {place : Identity} {members : List (String × Json)}
    (h : ∀ m ∈ members, ∀ site, (eager site m.2).toNative host place = .ok m.2)
    (site : Identity) (done : Table Json)
    (hnames : ((done ++ members).map (·.1)).Pairwise (· < ·)) :
    nativeEntries host place done (eagerRecords site members).pairs = .ok (done ++ members) := by
  induction members generalizing done with
  | nil =>
    rw [eagerRecords, memberRecords, List.map_nil, Records.pairs, List.map_nil, nativeEntries,
      List.append_nil]
  | cons m rest ih =>
    -- the names done so far come first, so the table grows at its end
    have hlt : ∀ e ∈ done, e.1 < m.1 := by
      intro e he
      rw [List.map_append, List.pairwise_append] at hnames
      exact hnames.2.2 _ (List.mem_map_of_mem he) _ (by simp)
    have hentry : nativeEntry host place (.str m.1, eager (site.entry m.1) m.2) =
        .ok (m.1, m.2) := by
      rw [nativeEntry, nativeKey, ok_bind, h m (by simp)]
      rfl
    rw [eagerRecords, memberRecords_cons, Records.pairs_cons, nativeEntries, hentry, ok_bind]
    dsimp only
    rw [← eagerRecords, insert_of_lt hlt, ih (fun n hn => h n (by simp [hn]))]
    · simp
    · simpa using hnames

/-- An opened document goes back to the document where its numbers are exact. -/
theorem toNative_eager {host : Host} {place : Identity} {j : Json} (h : j.Ordered)
    (hexact : j.Exact) (site : Identity) : (eager site j).toNative host place = .ok j := by
  induction h generalizing site with
  | null | bool | str => rfl
  | int n =>
    cases hexact with
    | int h => exact nativeNumber_ofInt h
  | float x =>
    cases hexact with
    | float finite h => exact nativeNumber_exact finite h
  | array h ih =>
    cases hexact with
    | array hexact =>
      rw [eager, toNative, nativeItems_eagerItems fun j hj => ih j hj (hexact j hj)]
      rfl
  | object names h ih =>
    cases hexact with
    | object hexact =>
      rw [eager_object site names, Records.dict, toNative,
        nativeEntries_eagerRecords (fun m hm => ih m hm (hexact m hm)) site [] names]
      rfl

theorem toNative_ofJson {host : Host} {place : Identity} {j : Json} (hexact : j.Exact)
    (site : Identity) : (ofJson site j).toNative host place = .ok j := by
  cases hexact with
  | int h => exact nativeNumber_ofInt h
  | float finite h => exact nativeNumber_exact finite h
  | _ => rfl

/-! ## What tells them apart -/

mutual

theorem hashKeyWith_of_not_isHashable : (v : Value) → v.isBuiltIn = true → v.isHashable = false →
    ∃ kind, ∀ host site next, hashKeyWith host site next v = .error (.type (.unhashable kind))
  | list .., _, _ | nativeList .., _, _ => ⟨"list", fun _ _ _ => by rw [hashKeyWith]⟩
  | dict .., _, _ | nativeDict .., _, _ => ⟨"dict", fun _ _ _ => by rw [hashKeyWith]⟩
  | null, _, h | notImplemented, _, h | bool _, _, h | float _, _, h | str _, _, h
  | function _, _, h | cls _, _, h | lambda .., _, h | method .., _, h | temporal .., _, h => by
    cases h
  | object .., hv, _ => by cases hv
  | tuple _ items, hv, h => by
    obtain ⟨kind, hkind⟩ := hashKeysWith_of_not_allHashable items hv h
    exact ⟨kind, fun host site next => by rw [hashKeyWith, hkind]; rfl⟩

theorem hashKeysWith_of_not_allHashable : (items : List Value) → allBuiltIn items = true →
    allHashable items = false →
    ∃ kind, ∀ host site next,
      hashKeysWith host site next items = .error (.type (.unhashable kind))
  | v :: rest, hv, h => by
    -- the first item that has no hash key is the one that is named
    obtain ⟨hfirst, hrest⟩ := (Bool.and_eq_true _ _).mp hv
    cases hh : v.isHashable with
    | false =>
      obtain ⟨kind, hkind⟩ := hashKeyWith_of_not_isHashable v hfirst hh
      exact ⟨kind, fun host site next => by rw [hashKeysWith, hkind]; rfl⟩
    | true =>
      have hall : allHashable rest = false := by
        rw [allHashable, hh] at h
        exact h
      obtain ⟨key, hkey⟩ := hashKeyWith_of_isHashable v hh
      obtain ⟨kind, hkind⟩ := hashKeysWith_of_not_allHashable rest hrest hall
      exact ⟨kind, fun host site next => by rw [hashKeysWith, hkey, ok_bind, hkind]; rfl⟩

end

/-- A built-in value that has no hash key is of a kind that has none. -/
theorem hashKey_unhashable {host : Host} {site : Identity} {v : Value} (hv : v.isBuiltIn = true)
    (h : ∀ hash, v.hashKey host site ≠ .ok hash) :
    ∃ kind, v.hashKey host site = .error (.type (.unhashable kind)) := by
  cases hh : v.isHashable with
  | true =>
    obtain ⟨hash, hhash⟩ := hashKey_of_isHashable hh
    exact absurd (hhash host site) (h hash)
  | false =>
    obtain ⟨kind, hkind⟩ := hashKeyWith_of_not_isHashable v hv hh
    exact ⟨kind, hkind host site _⟩

/-- The methods of lists and dicts are bound to the values they are taken from. -/
theorem bindsClass_of_method? {host : Host} {c : Class} {name : String} {m : Method}
    (hc : c = .list ∨ c = .dict) (h : c.method? host name = some m) :
    bindsClass host m = false := by
  obtain ⟨k, hk, hown⟩ := List.exists_of_findSome?_eq_some h
  rcases hc with rfl | rfl <;>
    simp only [Class.lineage, Class.ancestors, List.mem_cons, List.not_mem_nil, or_false] at hk <;>
    rcases hk with rfl | rfl
  · obtain ⟨x, _, rfl⟩ := List.mem_map.mp (List.mem_of_find?_eq_some hown)
    rfl
  · cases List.mem_of_find?_eq_some hown
  · obtain ⟨x, _, rfl⟩ := List.mem_map.mp (List.mem_of_find?_eq_some hown)
    rfl
  · cases List.mem_of_find?_eq_some hown

/-- An attribute of a list or a dict is its class, a method, or what it falls back to. -/
theorem getAttr_container {v : Value} (hv : v.isContainer = true)
    (hc : v.classOf = .list ∨ v.classOf = .dict) (host : Host) (site : Identity)
    (name : String) :
    v.getAttr host site name =
      if name = "__class__" then .ok (.cls v.classOf)
      else match v.classOf.method? host name with
        | some m => .ok (.method site v m)
        | none => fallbackAttr host site v name := by
  have hfield : v.field? name = none := by cases v <;> first | rfl | cases hv
  rw [getAttr.eq_def, hfield]
  cases v with
  | list | nativeList | dict | nativeDict =>
    dsimp only
    split
    · rfl
    · cases hm : (classOf _).method? host name with
      | none => rfl
      | some m =>
        dsimp only
        rw [bindsClass_of_method? hc hm]
        rfl
  | tuple => rcases hc with h | h <;> cases h
  | _ => cases hv

theorem fallbackAttr_list {v : Value} (hc : v.classOf = .list) (host : Host) (site : Identity)
    (name : String) : fallbackAttr host site v name = .error (.attribute "list" name) := by
  rw [fallbackAttr.eq_def, typeName, hc]
  rfl

theorem fallbackAttr_dict (host : Host) (site id : Identity) (entries : Dict) (name : String) :
    fallbackAttr host site (.dict id entries) name = .error (.attribute "dict" name) := rfl

theorem fallbackAttr_nativeDict (host : Host) (site id : Identity) (members : Table Json)
    (name : String) :
    fallbackAttr host site (.nativeDict id members) name =
      match Table.get? members name with
      | some k => .ok (ofJson site k)
      | none => .error (.attribute "dict" name) := rfl

/-- Where a document `w` that is not opened can be told from the same document `e`
opened. -/
structure Distinguished (host : Host) (j : Json) (w e : Value) : Prop where
  /-- Containers are not the same object; other values are the same. -/
  identity : if w.isContainer then w.identical e = false else w = e
  /-- A name that is no member means the same attribute, or the same method of each. So
  does one that every dict has. -/
  attributes : ∀ place name,
    j.member? name = none ∨ name = "__class__" ∨ (w.classOf.method? host name).isSome →
    w.getAttr host place name = e.getAttr host place name ∨
      ∃ m, w.getAttr host place name = .ok (.method place w m) ∧
        e.getAttr host place name = .ok (.method place e m)
  /-- Other members are attributes of the document that is not opened. -/
  members : ∀ place name k, j.member? name = some k → name ≠ "__class__" →
    w.classOf.method? host name = none →
    w.getAttr host place name = .ok (ofJson place k) ∧
      e.getAttr host place name = .error (.attribute "dict" name)
  /-- A key that is not hashable is not found in the one, and is an error in the other. -/
  unhashable : ∀ place k, w.classOf = .dict → k.isBuiltIn = true →
    (∀ hash, k.hashKey host place ≠ .ok hash) →
    w.lookup host place k = .ok none ∧
      ∃ kind, e.lookup host place k = .error (.type (.unhashable kind))

/-- Containers of one class have the same attributes, or the same methods, where they do
not fall back to different ones. -/
theorem getAttr_alike {host : Host} {place : Identity} {w e : Value} {name : String}
    (hw : w.isContainer = true) (he : e.isContainer = true) (hclass : e.classOf = w.classOf)
    (hc : w.classOf = .list ∨ w.classOf = .dict)
    (hfall : w.classOf.method? host name = none → name ≠ "__class__" →
      fallbackAttr host place w name = fallbackAttr host place e name) :
    w.getAttr host place name = e.getAttr host place name ∨
      ∃ m, w.getAttr host place name = .ok (.method place w m) ∧
        e.getAttr host place name = .ok (.method place e m) := by
  rw [getAttr_container hw hc, getAttr_container he (hclass ▸ hc), hclass]
  by_cases hname : name = "__class__"
  · rw [if_pos hname, if_pos hname]
    exact Or.inl rfl
  · rw [if_neg hname, if_neg hname]
    cases hm : w.classOf.method? host name with
    | none => exact Or.inl (hfall hm hname)
    | some m => exact Or.inr ⟨m, rfl, rfl⟩

theorem distinguished_array (host : Host) (site site' : Identity) (items : List Json) :
    Distinguished host (.array items) (ofJson site (.array items)) (eager site' (.array items)) := by
  rw [eager]
  refine ⟨rfl, fun place name _ => ?_, fun _ _ _ h => ?_, fun _ _ h => ?_⟩
  · refine getAttr_alike rfl rfl rfl (Or.inl rfl) fun _ _ => ?_
    rw [fallbackAttr_list rfl, fallbackAttr_list rfl]
  · cases h
  · cases h

theorem distinguished_object (host : Host) (site site' : Identity)
    (members : List (String × Json)) :
    Distinguished host (.object members) (ofJson site (.object members))
      (eager site' (.object members)) := by
  rw [eager]
  refine ⟨rfl, fun place name h => ?_, fun place name k hk hname hm => ?_,
    fun place k _ hbuilt hk => ?_⟩
  · -- a name that reaches the members is none of theirs
    refine getAttr_alike rfl rfl rfl (Or.inr rfl) fun hm hname => ?_
    have hnone : Table.get? members name = none := by
      rcases h with h | h | h
      · exact h
      · exact absurd h hname
      · rw [hm] at h
        cases h
    rw [fallbackAttr_dict, ofJson, fallbackAttr_nativeDict, hnone]
  · have hget : Table.get? members name = some k := hk
    have hm' : Class.dict.method? host name = none := hm
    constructor
    · rw [getAttr_container rfl (Or.inr rfl), if_neg hname]
      simp only [classOf, ofJson, hm', fallbackAttr_nativeDict, hget]
    · rw [getAttr_container rfl (Or.inr rfl), if_neg hname]
      simp only [classOf, hm', fallbackAttr_dict]
  · -- the members are asked for a text, the entries for a hash key
    obtain ⟨kind, hkind⟩ := hashKey_unhashable hbuilt hk
    have htext : k.text? = none := by
      cases ht : k.text? with
      | none => rfl
      | some name => exact absurd (hashKey_of_text? ht) (hk _)
    refine ⟨?_, kind, ?_⟩
    · rw [ofJson, lookup, htext]
      rfl
    · rw [lookup, Dict.get, hkind]
      rfl

theorem distinguished (host : Host) (site site' : Identity) (j : Json) :
    Distinguished host j (ofJson site j) (eager site' j) := by
  cases j with
  | array items => exact distinguished_array host site site' items
  | object members => exact distinguished_object host site site' members
  | null | bool | int | float | str =>
    refine ⟨rfl, fun _ _ _ => Or.inl rfl, fun _ _ _ h => ?_, fun _ _ h => ?_⟩
    · cases h
    · cases h

/-- A document and its opened form lead to values that are alike, along any path of
hashable subscripts; both go back to the document where its numbers are exact; and they
are told apart only by identity, members as attributes and keys that are not hashable. -/
theorem ofJson_alike_eager (host : Host) (site site' : Identity) {j : Json} (h : j.Ordered) :
    (∀ path, (∀ s ∈ path, ∃ hash, s.2.hashKey host s.1 = .ok hash) →
      Related (Alike host) (subscripts host path (ofJson site j))
        (subscripts host path (eager site' j))) ∧
    (j.Exact → ∀ place, (ofJson site j).toNative host place = .ok j ∧
      (eager site' j).toNative host place = .ok j) ∧
    Distinguished host j (ofJson site j) (eager site' j) := by
  have hshape : (ofJson site j).shape = (eager site' j).shape := by
    rw [shape_ofJson, shape_eager h]
  have halike := alike_of_shape_eq host hshape (isBuiltIn_ofJson site j)
  refine ⟨fun path hpath => halike.subscripts hpath, fun hexact place => ?_,
    distinguished host site site' j⟩
  exact ⟨toNative_ofJson hexact site, toNative_eager h hexact site'⟩

def nestedDocument : Json :=
  .object [("a", .array [.object [("b", .int 1)], .float 1.5]), ("c", .str "d")]

theorem ordered_nestedDocument : nestedDocument.Ordered := by
  have inner : (Json.object [("b", .int 1)]).Ordered := .object (by simp) (by simpa using .int 1)
  refine .object (by decide) ?_
  simpa using ⟨.array (by simpa using ⟨inner, .float 1.5⟩), .str "d"⟩

theorem exact_nestedDocument : nestedDocument.Exact := by
  have inner : (Json.object [("b", .int 1)]).Exact := .object (by simpa using .int (by decide))
  have half : (Json.float 1.5).Exact := .float (by decide) (by decide)
  refine .object ?_
  simpa using ⟨.array (by simpa using ⟨inner, half⟩), .str "d"⟩

theorem ofJson_alike_eager_nestedDocument :
    nestedDocument.Ordered ∧ nestedDocument.Exact ∧
      Related (Alike .idle)
        (subscripts .idle [(.origin, .str "a"), (.origin, .int 0)] (ofJson .origin nestedDocument))
        (subscripts .idle [(.origin, .str "a"), (.origin, .int 0)] (eager .origin nestedDocument)) ∧
      (ofJson .origin nestedDocument).toNative .idle .origin = .ok nestedDocument ∧
      (eager .origin nestedDocument).toNative .idle .origin = .ok nestedDocument ∧
      Distinguished .idle nestedDocument (ofJson .origin nestedDocument)
        (eager .origin nestedDocument) := by
  obtain ⟨halike, hnative, hdistinguished⟩ :=
    ofJson_alike_eager .idle .origin .origin ordered_nestedDocument
  obtain ⟨hlazy, hopened⟩ := hnative exact_nestedDocument .origin
  refine ⟨ordered_nestedDocument, exact_nestedDocument, halike _ ?_, hlazy, hopened,
    hdistinguished⟩
  simpa using ⟨⟨_, rfl⟩, ⟨_, rfl⟩⟩

end Value

end FilterLang
