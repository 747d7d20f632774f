import FilterLang.Expr.Eval
import FilterLang.Proofs.Value.Equality
import FilterLang.Proofs.Value.Methods
import FilterLang.Proofs.Value.Soundness
/-!
The interfaces of mappings agree.

A dict and an object from outside can be asked for a key in several ways, listed in several ways
and copied in two (`mapping_interfaces_agree`). All of them are told from the record of the
mapping, where its two forms are one.
-/

namespace FilterLang

open Fallible

/-! ## Filed entries -/

/-- Every entry of a record stands under the hash key that its key has at a place, and no two
entries under one. -/
structure Records.Filed (host : Host) (site : Identity) (r : Records) : Prop where
  hash : ∀ e ∈ r, e.key.hashKey host site = .ok e.hash
  distinct : r.hashes.Nodup

namespace Dict

/-- The entries and the index of a dict are those of such a record. -/
def Filed (host : Host) (site : Identity) (d : Dict) : Prop :=
  ∃ r : Records, r.dict = d ∧ r.Filed host site

variable {host : Host} {site : Identity} {d d' : Dict}

theorem Filed.nil : Filed host site [] :=
  ⟨[], rfl, by simp, by simp [Records.hashes]⟩

theorem Filed.insert (hd : d.Filed host site) {k v : Value}
    (h : d.insert host site k v = .ok d') : d'.Filed host site := by
  obtain ⟨r, rfl, hr⟩ := hd
  rw [insert_eq] at h
  obtain ⟨hash, hk, h⟩ := bind_eq_ok.mp h
  obtain rfl : r.dict.set hash k v = d' := Except.ok.inj h
  refine ⟨r.set hash k v, (r.set_dict hash k v).symm, fun e he => ?_,
    Records.nodup_hashes_set hr.distinct hash k v⟩
  rcases Records.mem_set he with ⟨old, hold, hsame, hkey, _⟩ | rfl
  · rw [hsame, hkey]
    exact hr.hash old hold
  · exact hk

/-- A dict that is made by setting keys is filed. -/
theorem Filed.insertAll (hd : d.Filed host site) {pairs : List (Value × Value)}
    (h : insertAll host site d pairs = .ok d') : d'.Filed host site := by
  induction pairs generalizing d with
  | nil => exact Except.ok.inj h ▸ hd
  | cons p rest ih =>
    obtain ⟨d₁, hinsert, h⟩ := bind_eq_ok.mp h
    exact ih (hd.insert hinsert) h

/-- Filed entries that are set one after the other come out as they were. -/
theorem insertAll_append {r r' : Records} (h : Records.Filed host site (r ++ r')) :
    insertAll host site r.dict r'.pairs = .ok (Records.dict (r ++ r')) := by
  induction r' generalizing r with
  | nil => rw [List.append_nil]; rfl
  | cons e rest ih =>
    have hinsert : r.dict.insert host site e.key e.value = .ok (Records.dict (r ++ [e])) := by
      rw [insert_eq, h.hash e (by simp), ok_bind, Records.set_dict,
        Records.set_of_notMem (Records.notMem_hashes h.distinct)]
    rw [Records.pairs_cons, Dict.insertAll, hinsert, ok_bind, ih (by simpa using h)]
    simp

/-- The pairs of a filed record make its dict. -/
theorem insertAll_pairs {r : Records} (h : r.Filed host site) :
    insertAll host site [] r.pairs = .ok r.dict :=
  insertAll_append (r := []) h

/-- Pairs that are given as tuples are set like the pairs, wherever the tuples were made. -/
theorem insertPairs_tuples (place : Nat → Identity) (index : Nat) (d : Dict)
    (pairs : List (Value × Value)) :
    insertPairs host site index d (pairs.mapIdx fun i p => .tuple (place i) [p.1, p.2]) =
      insertAll host site d pairs := by
  induction pairs generalizing place index d with
  | nil => rfl
  | cons p rest ih =>
    rw [List.mapIdx_cons, insertPairs, Dict.insertAll, Value.iterate, ok_bind]
    exact bind_congr_ok fun d' _ => ih (fun i => place (i + 1)) (index + 1) d'

end Dict

namespace Value

variable {host : Host} {site : Identity} {runBody : Expr → Table Value → Outcome Value}
  {m : Value} {r : Records}

/-! ## Mappings -/

/-- The mappings: dicts whose entries are filed, and objects from outside with a name for each
member. -/
inductive Mapping (host : Host) (site : Identity) : Value → Prop
  | plain (id : Identity) {d : Dict} (h : d.Filed host site) : Mapping host site (.dict id d)
  | native (id : Identity) {members : List (String × Json)} (h : (members.map (·.1)).Nodup) :
    Mapping host site (.nativeDict id members)

/-- A mapping has a filed record, wherever its members are made values. -/
theorem Mapping.recorded (h : m.Mapping host site) (place : Identity) :
    ∃ r, m.Recorded place r ∧ r.Filed host site := by
  cases h with
  | plain id h =>
    obtain ⟨r, rfl, hr⟩ := h
    exact ⟨r, .dict id r, hr⟩
  | native id h =>
    have hkeyed := (keyed_memberRecords (fun m => ofJson (place.entry m.1) m.2) h)
    exact ⟨_, .nativeDict id _, fun e he => hkeyed.hash e he host site, hkeyed.distinct⟩

namespace Recorded

variable (h : m.Recorded site r)

include h

theorem isContainer : m.isContainer = true := by
  cases h <;> rfl

theorem classOf : m.classOf = .dict := by
  cases h <;> rfl

/-- The methods of dicts are called by their names on both forms. -/
theorem send (method : DictMethod) (args : List Value) :
    m.send host site runBody method.name args =
      method.signature.bind method.name args [] >>= fun b => method.run host site m b :=
  send_dict h.isContainer h.classOf method args

/-- The elements of a mapping are its keys. -/
theorem iterate : m.iterate site = .ok r.dict.keys := by
  cases h with
  | dict id r => rfl
  | nativeDict id members => simp [Value.iterate, memberRecords]

theorem isTruthy : m.isTruthy host site = .ok (r.length != 0) := by
  cases h with
  | dict id r => cases r <;> rfl
  | nativeDict id members => cases members <;> rfl

/-- The entries that a method of dicts works on. -/
theorem receiver : DictMethod.receiver site m = .ok r.pairs := by
  rw [DictMethod.receiver, h.entries?]

end Recorded

/-- A hashable key finds something exactly when one of the keys has its hash key. -/
theorem exists_key_iff (hr : r.Filed host site) {hash : HashKey} :
    (r.find? hash).isSome = true ↔ ∃ key ∈ r.dict.keys, key.hashKey host site = .ok hash := by
  rw [Records.find?_isSome_iff, Records.keys_dict]
  constructor
  · intro h
    obtain ⟨e, he, rfl⟩ := List.mem_map.mp h
    exact ⟨e.key, List.mem_map_of_mem he, hr.hash e he⟩
  · rintro ⟨key, hkey, hash_eq⟩
    obtain ⟨e, he, rfl⟩ := List.mem_map.mp hkey
    rw [hr.hash e he] at hash_eq
    exact Except.ok.inj hash_eq ▸ List.mem_map_of_mem he

/-! ## All entries -/

/-- The keys and the values of a mapping, as the ways to list them tell. -/
structure Lists (host : Host) (site : Identity) (runBody : Expr → Table Value → Outcome Value)
    (m : Value) (keys values : List Value) : Prop where
  paired : values.length = keys.length
  elements : m.iterate site = .ok keys
  list : (cls .list).callWith host site runBody [m] [] = .ok (.list site keys)
  keyList : m.send host site runBody "keys" [] = .ok (.list site keys)
  valueList : m.send host site runBody "values" [] = .ok (.list site values)
  itemList : m.send host site runBody "items" [] =
    .ok (.list site (DictMethod.pairTuples site (keys.zip values)))
  length : m.len host site = .ok keys.length
  lengthCall : (function .len).callWith host site runBody [m] [] = .ok (.int keys.length)
  truth : m.isTruthy host site = .ok (keys.length != 0)

theorem zip_keys_values (r : Records) : r.dict.keys.zip r.dict.values = r.pairs := by
  rw [Records.keys_dict, Records.values_dict, List.zip_map', Records.pairs]

theorem Recorded.lists (h : m.Recorded site r) :
    m.Lists host site runBody r.dict.keys r.dict.values := by
  have hkeys : r.dict.keys.length = r.length := by rw [Records.keys_dict, List.length_map]
  have hlen : m.len host site = .ok r.dict.keys.length := by
    rw [hkeys]
    exact h.len host
  refine ⟨?_, h.iterate, ?_, ?_, ?_, ?_, hlen, ?_, ?_⟩
  · rw [hkeys, Records.values_dict, List.length_map]
  · rw [callWith_list, h.iterate]
    rfl
  · have hsend : m.send host site runBody "keys" [] =
        DictMethod.receiver site m >>= fun pairs => .ok (.list site (pairs.map (·.1))) :=
      h.send .keys []
    rw [hsend, h.receiver]
    rfl
  · have hsend : m.send host site runBody "values" [] =
        DictMethod.receiver site m >>= fun pairs => .ok (.list site (pairs.map (·.2))) :=
      h.send .values []
    rw [hsend, h.receiver]
    rfl
  · have hsend : m.send host site runBody "items" [] =
        DictMethod.receiver site m >>= fun pairs =>
          .ok (.list site (DictMethod.pairTuples site pairs)) :=
      h.send .items []
    rw [hsend, h.receiver, ok_bind, zip_keys_values]
  · rw [callWith_len, hlen]
    rfl
  · rw [hkeys]
    exact h.isTruthy

/-! ## One key -/

/-- What a mapping with the given keys and values holds under a key, `found`, as the ways to ask
for it tell. -/
structure Reads (host : Host) (site : Identity) (runBody : Expr → Table Value → Outcome Value)
    (m : Value) (keys values : List Value) (k : Value) (hash : HashKey) (found : Option Value) :
    Prop where
  isIn : CompareOp.isIn.holds host site k m = .ok found.isSome
  hasKey : m.send host site runBody "has_key" [k] = .ok (.bool found.isSome)
  listed : found.isSome = true ↔ ∃ key ∈ keys, key.hashKey host site = .ok hash
  paired : ∀ v, found = some v →
    ∃ entry ∈ keys.zip values, entry.1.hashKey host site = .ok hash ∧ v.Twin entry.2
  item : ∀ v, found = some v → m.getItem host site k = .ok v
  missing : found = none → ∃ text, m.getItem host site k = .error (.key text)
  get : ∀ d, m.send host site runBody "get" [k, d] = .ok (found.getD d)

/-- What a hashable key finds is the value of an entry, but for where it is made a value. -/
theorem Recorded.twin (h : m.Recorded site r) {k v : Value} {hash : HashKey}
    (hk : k.hashKey host site = .ok hash) (hfound : m.lookup host site k = .ok (some v)) :
    ∃ e ∈ r, e.hash = hash ∧ v.Twin e.value := by
  cases h with
  | dict id r =>
    rw [Value.lookup, Dict.get, hk, ok_bind, Records.find?_dict] at hfound
    obtain ⟨e, he, hhash, rfl⟩ := Records.mem_of_find? (Except.ok.inj hfound)
    exact ⟨e, he, hhash, .refl _⟩
  | nativeDict id members =>
    obtain ⟨name, hname, hget⟩ := Option.bind_eq_some_iff.mp (Except.ok.inj hfound)
    obtain ⟨j, hj, rfl⟩ := Option.map_eq_some_iff.mp hget
    rw [hashKey_of_text? hname] at hk
    exact ⟨_, List.mem_map_of_mem (Table.mem_of_get? hj), Except.ok.inj hk, .part j _ _⟩

theorem Recorded.reads (h : m.Recorded site r) (hfiled : r.Filed host site) {k : Value}
    {hash : HashKey} (hk : k.hashKey host site = .ok hash) :
    ∃ found, m.Reads host site runBody r.dict.keys r.dict.values k hash found := by
  obtain ⟨found, hfound, hcontent, _⟩ := h.lookup hk
  -- what is found may be made at another place than in the entries, but it is there or not alike
  have hsome : found.isSome = (r.find? hash).isSome := by
    rw [← Option.isSome_map, hcontent, Option.isSome_map]
  have hcontains : m.contains host site k = .ok found.isSome := by
    rw [h.contains, hfound]
    rfl
  refine ⟨found, hcontains, ?_, ?_, ?_, ?_, ?_, fun default => ?_⟩
  · have hsend : m.send host site runBody "has_key" [k] =
        m.contains host site k >>= fun present => .ok (.bool present) :=
      h.send .hasKey [k]
    rw [hsend, hcontains]
    rfl
  · rw [hsome, exists_key_iff hfiled]
  · rintro v rfl
    obtain ⟨e, he, rfl, htwin⟩ := h.twin hk hfound
    refine ⟨(e.key, e.value), ?_, hfiled.hash e he, htwin⟩
    rw [zip_keys_values]
    exact List.mem_map_of_mem he
  · rintro v rfl
    rw [getItem_dict h.isContainer h.classOf, hfound]
    rfl
  · rintro rfl
    rw [getItem_dict h.isContainer h.classOf, hfound, ok_bind]
    cases k.repr host site with
    | ok text => exact ⟨text, rfl⟩
    | error e => exact ⟨k.typeName, rfl⟩
  · have hsend : m.send host site runBody "get" [k, default] =
        m.lookup host site k >>= fun found => .ok (found.getD default) :=
      h.send .get [k, default]
    rw [hsend, hfound]
    rfl

/-! ## Copies -/

/-- A dict with the entries of a mapping in their order, and the index for them. The members of an
object from outside are made values at `place`. -/
def Copy (place : Identity) (m copy : Value) : Prop :=
  ∃ (id : Identity) (r : Records), copy = .dict id r.dict ∧ m.Recorded place r

/-- A dict that is made from nothing and filed entries has these entries. -/
theorem build_of_entries? (hr : r.Filed host site) {source : Value}
    (h : source.entries? site = some r.pairs) : Dict.build host site source [] = .ok r.dict := by
  rw [Dict.build, h]
  simp only [Dict.insertAll_pairs hr, ok_bind]
  rfl

/-- A dict that is made from the pairs of filed entries has these entries. -/
theorem build_pairTuples (hr : r.Filed host site) (id place : Identity) :
    Dict.build host site (.list id (DictMethod.pairTuples place r.pairs)) [] = .ok r.dict := by
  have hpairs : Dict.insertPairs host site 0 [] (DictMethod.pairTuples place r.pairs) =
      .ok r.dict := (Dict.insertPairs_tuples _ 0 [] _).trans (Dict.insertAll_pairs hr)
  rw [Dict.build]
  simp only [entries?, isNone, Value.iterate, ok_bind, hpairs]
  rfl

/-- A copy holds parts of the mapping only. -/
theorem Copy.regular {place : Identity} {copy : Value} (h : m.Copy place copy)
    {owner : Identity → Class} (hm : m.RegularThroughout owner) : copy.RegularThroughout owner := by
  obtain ⟨id, r, rfl, hr⟩ := h
  refine .intro (hr.indexed hm.here) fun w hw => ?_
  cases hw with
  | dict _ he =>
    obtain ⟨e, hmem, rfl⟩ := List.mem_map.mp he
    exact hm.of_part (hr.member hmem)

theorem Copy.content_eq {place : Identity} {copy : Value} (h : m.Copy place copy) :
    copy.content = m.content := by
  obtain ⟨id, r, rfl, hr⟩ := h
  have hcopy : (dict id r.dict).Recorded place r := .dict id r
  rw [hcopy.content, hr.content]

/-- The ways to copy a mapping make copies of it, and those are equal to it. -/
structure Copies (host : Host) (site : Identity) (runBody : Expr → Table Value → Outcome Value)
    (m : Value) : Prop where
  whole : ∃ copy, (cls .dict).callWith host site runBody [m] [] = .ok copy ∧ m.Copy site copy
  items : ∀ place, ∃ items copy, m.send host place runBody "items" [] = .ok items ∧
    (cls .dict).callWith host site runBody [items] [] = .ok copy ∧ m.Copy place copy
  equal : ∀ owner, m.RegularThroughout owner → ∀ place copy, m.Copy place copy →
    ∀ host site, copy.equals host site m = .ok true ∧ m.equals host site copy = .ok true

theorem Mapping.copies (hm : m.Mapping host site) : m.Copies host site runBody := by
  refine ⟨?_, fun place => ?_, fun owner hregular place copy hcopy host' site' => ?_⟩
  · obtain ⟨r, hr, hfiled⟩ := hm.recorded site
    refine ⟨.dict site r.dict, ?_, site, r, rfl, hr⟩
    rw [callWith_dict, build_of_entries? hfiled hr.entries?]
    rfl
  · obtain ⟨r, hr, hfiled⟩ := hm.recorded place
    refine ⟨_, .dict site r.dict, hr.lists.itemList, ?_, site, r, rfl, hr⟩
    rw [zip_keys_values, callWith_dict, build_pairTuples hfiled]
    rfl
  · have hcontent := hcopy.content_eq
    have hcopied := hcopy.regular hregular
    exact ⟨(equals_eq_ok_true hcopied hregular).mpr hcontent,
      (equals_eq_ok_true hregular hcopied).mpr hcontent.symm⟩

/-- The interfaces of a mapping agree. `keys`, `values`, `items`, `list`, `len` and the truth tell of
one list of entries; for each hashable key, `in`, `has_key`, the subscript and `get` tell whether one
of these entries stands under it, and its value; and `dict` of the mapping or of its items has these
entries, and is equal to the mapping when equality is that of contents. -/
theorem mapping_interfaces_agree {host : Host} {site : Identity}
    (runBody : Expr → Table Value → Outcome Value) {m : Value} (hm : m.Mapping host site) :
    ∃ keys values, m.Lists host site runBody keys values ∧
      (∀ k hash, k.hashKey host site = .ok hash →
        ∃ found, m.Reads host site runBody keys values k hash found) ∧
      m.Copies host site runBody := by
  obtain ⟨r, hr, hfiled⟩ := hm.recorded site
  exact ⟨r.dict.keys, r.dict.values, hr.lists, fun _ _ => hr.reads hfiled, hm.copies⟩

def tallyRecord : Records :=
  [⟨.bool true, .bool true, .str "yes"⟩, ⟨.str "b", .str "b", .null⟩]

def tally : Value :=
  .dict .origin tallyRecord.dict

theorem tally_mapping : tally.Mapping .idle .origin :=
  have hmade : Dict.insertAll .idle .origin [] [(.bool true, .str "yes"), (.str "b", .null)] =
      .ok tallyRecord.dict := rfl
  .plain _ (Dict.Filed.nil.insertAll hmade)

theorem regular_tally (owner : Identity → Class) : tally.RegularThroughout owner := by
  refine .intro ⟨tallyRecord, rfl, ?_, by decide⟩ fun w hw => ?_
  · intro e he host site
    rcases List.mem_pair.mp he with rfl | rfl <;> rfl
  · rw [tally] at hw
    cases hw with
    | dict _ he =>
      rcases List.mem_pair.mp he with rfl | rfl
      · exact .intro trivial fun _ hw => nomatch hw
      · exact regular_null owner

/-- A text that is not there, a truth value that is, and a copy that is equal. -/
theorem mapping_interfaces_agree_tally :
    tally.Mapping .idle .origin ∧
      (∃ text, tally.getItem .idle .origin (.str "a") = .error (.key text)) ∧
      tally.getItem .idle .origin (.bool true) = .ok (.str "yes") ∧
      ∃ copy, (cls .dict).callWith .idle .origin (fun _ _ => .error .tooDeep) [tally] [] = .ok copy ∧
        copy.equals .idle .origin tally = .ok true := by
  obtain ⟨keys, values, _, hreads, hcopies⟩ :=
    mapping_interfaces_agree (fun _ _ => .error .tooDeep) tally_mapping
  refine ⟨tally_mapping, ?_, ?_, ?_⟩
  · obtain ⟨found, hfound⟩ := hreads (.str "a") (.str "a") rfl
    have habsent : CompareOp.isIn.holds .idle .origin (.str "a") tally = .ok false := rfl
    refine hfound.missing (Option.not_isSome_iff_eq_none.mp fun hsome => ?_)
    rw [hfound.isIn, hsome] at habsent
    cases habsent
  · obtain ⟨found, hfound⟩ := hreads (.bool true) (.bool true) rfl
    have hpresent : CompareOp.isIn.holds .idle .origin (.bool true) tally = .ok true := rfl
    have hget : tally.send .idle .origin (fun _ _ => .error .tooDeep) "get" [.bool true, .null] =
        .ok (.str "yes") := rfl
    rw [hfound.isIn] at hpresent
    obtain ⟨v, rfl⟩ := Option.isSome_iff_exists.mp (Except.ok.inj hpresent)
    rw [hfound.item v rfl, ← hget]
    exact (hfound.get .null).symm
  · obtain ⟨copy, hcall, hcopy⟩ := hcopies.whole
    exact ⟨copy, hcall, (hcopies.equal _ (regular_tally fun _ => .object) _ _ hcopy .idle .origin).1⟩

end Value

end FilterLang
