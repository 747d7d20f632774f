import FilterLang.Proofs.Number.Order
import FilterLang.Proofs.Table
import FilterLang.Proofs.Value.Literal
/-!
The content of a value: what equality looks at.

A value without parts is its hash key. A tuple or a list is the contents of its items, and a
dict is what it has under each hash key, whatever the order of its entries. Identities, and
whether a list or a dict came from outside, leave no trace.

Contents are meant for *regular* values: numbers are numbers, dicts are found by the hashes
of their keys, and no identity is shared by calendar values of two classes.
-/

namespace FilterLang

/-! ## Values inside values -/

namespace Value

/-- The values that a comparison of a value goes on to. A part of a document is a member
wherever it is made a value. -/
inductive Member : Value → Value → Prop
  | tuple (id : Identity) {items : List Value} {v : Value} (h : v ∈ items) :
    Member (.tuple id items) v
  | list (id : Identity) {items : List Value} {v : Value} (h : v ∈ items) :
    Member (.list id items) v
  | dict (id : Identity) {d : Dict} {e : Value × Value} (h : e ∈ d.entries) :
    Member (.dict id d) e.2
  | nativeList (id site : Identity) {items : List Json} {j : Json} (h : j ∈ items) :
    Member (.nativeList id items) (ofJson site j)
  | nativeDict (id site : Identity) {members : List (String × Json)} {m : String × Json}
    (h : m ∈ members) : Member (.nativeDict id members) (ofJson site m.2)

/-- A value and itself, or a part of a document that is made a value at two places. -/
inductive Twin : Value → Value → Prop
  | refl (v : Value) : Twin v v
  | part (j : Json) (here there : Identity) : Twin (ofJson here j) (ofJson there j)

/-- A property holds of a value and, along a relation between values and their parts, of
everything in it. -/
def Throughout (part : Value → Value → Prop) (P : Value → Prop) (v : Value) : Prop :=
  ∀ w, Relation.ReflTransGen part v w → P w

namespace Throughout

variable {part : Value → Value → Prop} {P Q : Value → Prop} {v w : Value}

theorem here (h : v.Throughout part P) : P v :=
  h v .refl

theorem of_part (h : v.Throughout part P) (hw : part v w) : w.Throughout part P :=
  fun u hu => h u (.head hw hu)

theorem intro (hv : P v) (hparts : ∀ w, part v w → w.Throughout part P) :
    v.Throughout part P := by
  intro u hu
  rcases hu.cases_head with rfl | ⟨w, hw, hu⟩
  · exact hv
  · exact hparts w hw u hu

theorem imp (h : v.Throughout part P) (hPQ : ∀ u, P u → Q u) : v.Throughout part Q :=
  fun u hu => hPQ u (h u hu)

end Throughout

end Value

/-! ## Regular values -/

/-- Every entry of a record stands under the hash key of its key, and no two entries under
the same one. -/
structure Records.Indexed (r : Records) : Prop where
  hash : ∀ e ∈ r, ∀ host site, e.key.hashKey host site = .ok e.hash
  distinct : r.hashes.Nodup

theorem Records.Keyed.indexed {r : Records} (h : r.Keyed) : r.Indexed :=
  ⟨h.hash, h.distinct⟩

/-- The entries and the index of a dict are those of such a record. -/
def Dict.Indexed (d : Dict) : Prop :=
  ∃ r : Records, r.dict = d ∧ r.Indexed

/-- Whether a number is one: neither not-a-number is. -/
def Numeric.isNumber (x : Numeric) : Bool :=
  !x.isNan && !x.negativeNan

/-- What a value has to be itself in order to be compared like its content. `owner` gives the
class of the calendar value that has an identity. -/
def Value.Regular (owner : Identity → Class) : Value → Prop
  | float x => x.isNumber = true
  | dict _ d => Dict.Indexed d
  | nativeDict _ members => (members.map (·.1)).Nodup
  | object _ c _ => ∀ name, c ≠ .host name
  | temporal id t => owner id = t.cls
  | _ => True

/-! ## Contents -/

/-- The content of a value. -/
inductive Content where
  /-- A value without parts. -/
  | key (k : HashKey)
  | tuple (items : List Content)
  | list (items : List Content)
  /-- A dict by what it has under each hash key. -/
  | dict (find : HashKey → Option Content)

/-- The key of a value without parts: what it hashes to, with its class where that is an
identity. -/
def Value.ownKey : Value → HashKey
  | null => .none
  | notImplemented => .notImplemented
  | bool b => .bool b
  | float x => .ofNumber x
  | str s => .str s
  | function f => .function f
  | cls c => .cls c
  | lambda id .. => .instanceOf .function (.identity id)
  | method id .. => .instanceOf .method (.identity id)
  | object id .. => .instanceOf .object (.identity id)
  | temporal id t => .instanceOf t.cls (t.hashKey?.getD (.identity id))
  | tuple id _ | list id _ | dict id _ | nativeList id _ | nativeDict id _ => .identity id

mutual

def Json.content : Json → Content
  | .array items => .list (contentItems items)
  | .object members => .dict (contentMembers members)
  | j => .key (Value.ofJson .origin j).ownKey

def Json.contentItems : List Json → List Content
  | [] => []
  | j :: rest => j.content :: contentItems rest

def Json.contentMembers : List (String × Json) → HashKey → Option Content
  | [] => fun _ => none
  | m :: rest => contentMember m (contentMembers rest)

/-- The content of a member on top of those after it. -/
def Json.contentMember : String × Json → (HashKey → Option Content) → HashKey → Option Content
  | (name, j), rest => Function.update rest (.str name) (some j.content)

end

namespace Value

mutual

def content : Value → Content
  | tuple _ items => .tuple (contentItems items)
  | list _ items => .list (contentItems items)
  | nativeList _ items => .list (Json.contentItems items)
  | dict _ ⟨entries, index⟩ =>
    .dict fun hash => (index.lookup hash).bind fun slot => (contentEntries entries)[slot]?
  | nativeDict _ members => .dict (Json.contentMembers members)
  | v => .key v.ownKey

def contentItems : List Value → List Content
  | [] => []
  | v :: rest => v.content :: contentItems rest

def contentEntries : List (Value × Value) → List Content
  | [] => []
  | e :: rest => contentEntry e :: contentEntries rest

def contentEntry : Value × Value → Content
  | (_, v) => v.content

end

theorem contentItems_eq_map (items : List Value) : contentItems items = items.map content := by
  induction items with
  | nil => rfl
  | cons v rest ih => rw [contentItems, ih, List.map_cons]

theorem contentEntries_eq_map (entries : List (Value × Value)) :
    contentEntries entries = entries.map fun e => e.2.content := by
  induction entries with
  | nil => rfl
  | cons e rest ih =>
    obtain ⟨k, v⟩ := e
    rw [contentEntries, ih, List.map_cons]
    rfl

/-- What a dict has under a hash key is what it finds there. -/
theorem content_dict (id : Identity) (d : Dict) :
    (dict id d).content = .dict fun hash => (d.find? hash).map content := by
  obtain ⟨entries, index⟩ := d
  rw [content, contentEntries_eq_map]
  refine congrArg Content.dict (funext fun hash => ?_)
  rw [Dict.find?, Dict.slot?, Option.map_bind]
  refine congrArg _ (funext fun slot => ?_)
  rw [List.getElem?_map, Function.comp_apply, Option.map_map]
  rfl

theorem content_ofJson (site : Identity) (j : Json) : (ofJson site j).content = j.content := by
  cases j <;> rfl

/-- What does not depend on the places of a document's parts can be told from the document. -/
theorem map_ofItems {α : Type} {f : Value → α} {g : Json → α}
    (h : ∀ site j, f (ofJson site j) = g j) (site : Identity) (items : List Json) :
    (ofItems site items).map f = items.map g := by
  apply List.ext_getElem?
  intro i
  rw [ofItems, List.getElem?_map, List.getElem?_mapIdx, List.getElem?_map, Option.map_map]
  refine congrFun (congrArg Option.map ?_) items[i]?
  funext j
  exact h (site.child i) j

theorem Json.contentItems_eq_map (items : List Json) :
    Json.contentItems items = items.map Json.content := by
  induction items with
  | nil => rfl
  | cons j rest ih => rw [Json.contentItems, ih, List.map_cons]

/-- The items of a list are its content, in either form. -/
theorem content_of_listItems? {site : Identity} {v : Value} {items : List Value}
    (h : v.listItems? site = some items) : v.content = .list (items.map content) := by
  cases v with
  | list id xs =>
    cases h
    rw [content, contentItems_eq_map]
  | nativeList id xs =>
    cases h
    rw [content, map_ofItems content_ofJson, Json.contentItems_eq_map]
  | _ => cases h

theorem member_of_listItems? {site : Identity} {v w : Value} {items : List Value}
    (h : v.listItems? site = some items) (hw : w ∈ items) : v.Member w := by
  cases v with
  | list id xs =>
    cases h
    exact .list id hw
  | nativeList id xs =>
    cases h
    obtain ⟨i, hi, rfl⟩ := List.mem_mapIdx.mp hw
    exact .nativeList id _ (List.getElem_mem hi)
  | _ => cases h

theorem member_of_itemsOfBoth? {site : Identity} {a b : Value} {xs ys : List Value}
    (hi : itemsOfBoth? site a b = some (xs, ys)) :
    (∀ x ∈ xs, a.Member x) ∧ (∀ y ∈ ys, b.Member y) := by
  rw [itemsOfBoth?.eq_def] at hi
  split at hi
  · cases hi
    exact ⟨fun x hx => .tuple _ hx, fun y hy => .tuple _ hy⟩
  · split at hi
    · rename_i hx hy
      cases hi
      exact ⟨fun x => member_of_listItems? hx, fun y => member_of_listItems? hy⟩
    · cases hi

/-! ## Dicts of either form -/

section Recorded

variable {site : Identity} {v : Value} {r : Records}

theorem contentMembers_eq (site : Identity) (members : List (String × Json)) (hash : HashKey) :
    Json.contentMembers members hash =
      ((memberRecords (fun m => ofJson (site.entry m.1) m.2) members).find? hash).map content := by
  induction members with
  | nil => rfl
  | cons m rest ih =>
    obtain ⟨name, j⟩ := m
    rw [Json.contentMembers, Json.contentMember, memberRecords_cons, Records.find?]
    by_cases hh : HashKey.str name = hash
    · rw [hh, Function.update_self, if_pos rfl, Option.map_some, content_ofJson]
    · rw [Function.update_of_ne (Ne.symm hh), if_neg hh, ih]

/-- The content of a dict is what it finds. -/
theorem Recorded.content (h : v.Recorded site r) :
    v.content = .dict fun hash => (r.find? hash).map Value.content := by
  cases h with
  | dict id r => simp only [content_dict, Records.find?_dict]
  | nativeDict id members => exact congrArg Content.dict (funext (contentMembers_eq site members))

/-- The entries of a regular dict are those of a record. -/
theorem Regular.recorded {owner : Identity → Class} (hv : v.Regular owner)
    {pairs : List (Value × Value)} (h : v.entries? site = some pairs) :
    ∃ r : Records, v.Recorded site r ∧ r.Indexed ∧ pairs = r.pairs := by
  cases v with
  | dict id d =>
    obtain ⟨r, rfl, hr⟩ := hv
    exact ⟨r, .dict id r, hr, (Option.some.inj h).symm⟩
  | nativeDict id members =>
    have hrecorded : (nativeDict id members).Recorded site _ := .nativeDict id members
    exact ⟨_, hrecorded, (keyed_memberRecords _ hv).indexed,
      Option.some.inj (h.symm.trans hrecorded.entries?)⟩
  | _ => cases h

/-- The record of a regular dict makes an indexed dict. -/
theorem Recorded.indexed {owner : Identity → Class} (h : v.Recorded site r)
    (hv : v.Regular owner) : r.dict.Indexed := by
  cases h with
  | dict id r => exact hv
  | nativeDict id members => exact ⟨_, rfl, (keyed_memberRecords _ hv).indexed⟩

theorem Recorded.member (h : v.Recorded site r) {e : Entry} (he : e ∈ r) : v.Member e.value := by
  cases h with
  | dict id r => exact .dict id (Records.mem_entries he)
  | nativeDict id members =>
    obtain ⟨m, hm, rfl⟩ := List.mem_map.mp he
    exact .nativeDict id _ hm

theorem contentMembers_str (members : List (String × Json)) (name : String) :
    Json.contentMembers members (.str name) = (Table.get? members name).map Json.content := by
  induction members with
  | nil => rfl
  | cons m rest ih =>
    obtain ⟨n, j⟩ := m
    rw [Json.contentMembers, Json.contentMember, Table.get?_cons]
    by_cases hn : n = name
    · rw [hn, Function.update_self, if_pos rfl]
      rfl
    · rw [Function.update_of_ne (by simpa using Ne.symm hn), if_neg hn, ih]

/-- The members of an object stand under texts only. -/
theorem contentMembers_of_ne (members : List (String × Json)) {hash : HashKey}
    (h : ∀ name, hash ≠ .str name) : Json.contentMembers members hash = none := by
  induction members with
  | nil => rfl
  | cons m rest ih =>
    obtain ⟨n, j⟩ := m
    rw [Json.contentMembers, Json.contentMember, Function.update_of_ne (h n), ih]

/-- A hashable key finds a member with the content that the dict has under its hash. -/
theorem Recorded.lookup {host : Host} {k : Value} {hash : HashKey} (h : v.Recorded site r)
    (hk : k.hashKey host site = .ok hash) :
    ∃ found, v.lookup host site k = .ok found ∧
      found.map Value.content = (r.find? hash).map Value.content ∧
      ∀ w, found = some w → v.Member w := by
  cases h with
  | dict id r =>
    refine ⟨r.find? hash, ?_, rfl, fun w hw => ?_⟩
    · rw [Value.lookup, Dict.get, hk, Fallible.ok_bind, Records.find?_dict]
      rfl
    · obtain ⟨e, he, -, rfl⟩ := Records.mem_of_find? hw
      exact .dict id (Records.mem_entries he)
  | nativeDict id members =>
    refine ⟨_, rfl, ?_, fun w hw => ?_⟩
    · rw [← contentMembers_eq]
      cases ht : k.text? with
      | some name =>
        rw [hashKey_of_text? ht] at hk
        cases hk
        rw [contentMembers_str, Option.bind_some, Option.map_map]
        exact congrFun (congrArg Option.map (funext (content_ofJson site))) _
      | none =>
        -- a key that is no text is nowhere in the document
        rw [contentMembers_of_ne members]
        · rfl
        · rintro name rfl
          rw [text?_of_hashKey hk] at ht
          cases ht
    · obtain ⟨name, _, hw⟩ := Option.bind_eq_some_iff.mp hw
      obtain ⟨j, hj, rfl⟩ := Option.map_eq_some_iff.mp hw
      exact .nativeDict id site (Table.mem_of_get? hj)

end Recorded

/-! ## Equal dicts -/

/-- Records of one size are the same when one of them holds the entries of the other: the hash
keys of the second, being as many and all different, are no more than those of the first. -/
theorem find?_congr_iff {r r' : Records} (hr : r.hashes.Nodup) (hr' : r'.hashes.Nodup) :
    (r.length = r'.length ∧ ∀ e ∈ r, (r'.find? e.hash).map content = some e.value.content) ↔
      (fun hash => (r.find? hash).map content) = fun hash => (r'.find? hash).map content := by
  have hlength (f : Records) : f.hashes.length = f.length := List.length_map _
  constructor
  · rintro ⟨hlen, hsame⟩
    have hsub : r.hashes ⊆ r'.hashes := by
      intro hash hhash
      obtain ⟨e, he, rfl⟩ := List.mem_map.mp hhash
      rw [← Records.find?_isSome_iff, ← Option.isSome_map, hsame e he]
      rfl
    have hperm : r.hashes.Perm r'.hashes :=
      (List.subperm_of_subset hr hsub).perm_of_length_le (by rw [hlength, hlength, hlen])
    funext hash
    by_cases hhash : hash ∈ r.hashes
    · obtain ⟨e, he, rfl⟩ := List.mem_map.mp hhash
      rw [Records.find?_of_mem hr he, hsame e he]
      rfl
    · have hnone : ∀ f : Records, hash ∉ f.hashes → f.find? hash = none := by
        intro f hf
        rwa [← Records.find?_isSome_iff, Bool.not_eq_true, Option.isSome_eq_false_iff,
          Option.isNone_iff_eq_none] at hf
      rw [hnone r hhash, hnone r' (mt hperm.mem_iff.mpr hhash)]
  · intro hsame
    have hmem : ∀ hash, hash ∈ r.hashes ↔ hash ∈ r'.hashes := by
      intro hash
      rw [← Records.find?_isSome_iff, ← Records.find?_isSome_iff, ← Option.isSome_map,
        congrFun hsame hash, Option.isSome_map]
    refine ⟨?_, fun e he => ?_⟩
    · rw [← hlength, ← hlength]
      exact ((List.perm_ext_iff_of_nodup hr hr').mpr hmem).length_eq
    · rw [← congrFun hsame e.hash, Records.find?_of_mem hr he]
      rfl

end Value

end FilterLang
