import FilterLang.Proofs.Decimal.Injectivity
import FilterLang.Proofs.Value.Content
import FilterLang.Proofs.Value.Laziness
import FilterLang.Source
import Mathlib
/-!
What a dict keeps when it becomes an object.

The members of the object are the entries of the dict under the names that their keys become, the
last of each name: there are as many members as names, and no entry that is the last of its name
is lost. Along the parts of a value and of what it becomes (`Within`) this holds at every depth
(`toNative_keeps`).

Keys of one kind become different names: texts are their own names, and numbers are told apart by
their spellings. So an entry can only be lost when the dict has a text for a key and another key
that is written like it, or has both not-a-numbers (`Confused`).
-/

namespace FilterLang

open Fallible

/-! ## Tables from entries -/

namespace Table

variable {α : Type}

theorem mem_names_overlay {t : Table α} {other : List (String × α)} {name : String} :
    name ∈ names (overlay t other) ↔ name ∈ names other ∨ name ∈ names t := by
  induction other generalizing t with
  | nil => exact (or_iff_right (List.not_mem_nil)).symm
  | cons e other ih =>
    have hinsert : name ∈ names (insert t e.1 e.2) ↔ name = e.1 ∨ name ∈ names t := by
      rw [mem_names_iff, mem_names_iff, get?_insert]
      by_cases h : name = e.1 <;> simp [h]
    rw [show overlay t (e :: other) = overlay (insert t e.1 e.2) other from rfl, ih, hinsert]
    rw [show names (e :: other) = e.1 :: names other from rfl, List.mem_cons]
    tauto

/-- A table has as many entries as there were names to set. -/
theorem length_ofList (entries : List (String × α)) :
    (ofList entries).length = (names entries).dedup.length := by
  have hnodup : (names (ofList entries)).Nodup :=
    nodup_of_ordered (ordered_overlay ordered_nil entries)
  have hperm : (names (ofList entries)).Perm (names entries).dedup := by
    refine (List.perm_ext_iff_of_nodup hnodup (List.nodup_dedup _)).mpr fun name => ?_
    rw [ofList, mem_names_overlay, List.mem_dedup]
    exact or_iff_left (List.not_mem_nil)
  rw [← hperm.length_eq, names, List.length_map]

/-- The last entry that is set under a name is found there. -/
theorem get?_ofList_last {entries : List (String × α)} {i : Nat} {name : String} {a : α}
    (h : entries[i]? = some (name, a))
    (hlast : ∀ j b, i < j → entries[j]? ≠ some (name, b)) :
    get? (ofList entries) name = some a := by
  obtain ⟨hi, hentry⟩ := List.getElem?_eq_some_iff.mp h
  have hsplit : entries = entries.take i ++ (name, a) :: entries.drop (i + 1) := by
    rw [← hentry, ← List.drop_eq_getElem_cons hi, List.take_append_drop]
  have hafter : name ∉ names (entries.drop (i + 1)) := by
    intro hmem
    obtain ⟨e, he, rfl⟩ := List.mem_map.mp hmem
    obtain ⟨j, hj⟩ := List.mem_iff_getElem?.mp he
    rw [List.getElem?_drop] at hj
    exact hlast (i + 1 + j) e.2 (by omega) hj
  rw [hsplit, ofList, overlay, List.foldl_append]
  exact (get?_overlay_of_notMem _ hafter).trans (get?_insert_self _ _ _)

end Table

/-! ## Names of keys -/

namespace Value

/-- The name that a key becomes, if it becomes one. -/
def written? : Value → Option String
  | str s => some s
  | float x => some (Decimal.plain x.float)
  | bool b => some (if b then "true" else "false")
  | null => some "null"
  | _ => none

theorem nativeKey_eq_ok {host : Host} {site : Identity} {key : Value} {name : String} :
    nativeKey host site key = .ok name ↔ key.written? = some name := by
  cases key with
  | str | float | bool | null => simp [nativeKey, written?]
  | _ =>
    simp only [nativeKey, written?, reduceCtorEq, iff_false]
    split <;> simp

/-- Whether a key is a text. -/
def isText : Value → Bool
  | str _ => true
  | _ => false

def isNan : Value → Bool
  | float x => !x.isNumber
  | _ => false

/-- No number is written like a constant. -/
theorem written?_float_ne {x : Numeric} {word : String} (h : word ∈ ["true", "false", "null"]) :
    (float x).written? ≠ some word := by
  intro heq
  have hword : ∃ c, word.toList.head? = some c ∧ (c.isDigit = false ∧ c ≠ '-' ∧ c ≠ 'i') ∧
      word ≠ "nan" := by
    simp only [List.mem_cons, List.not_mem_nil, or_false] at h
    rcases h with rfl | rfl | rfl
    · exact ⟨'t', by decide⟩
    · exact ⟨'f', by decide⟩
    · exact ⟨'n', by decide⟩
  obtain ⟨c, hhead, hc, hnan⟩ := hword
  exact Decimal.plain_ne_of_head hhead hc hnan (Option.some.inj heq)

/-- Numbers are told apart by what they are written as. -/
theorem eq_of_written_float {x y : Numeric} (hx : x.isNumber = true) (hy : y.isNumber = true)
    (h : (float x).written? = (float y).written?) : x = y := by
  rw [Numeric.isNumber, Bool.and_eq_true, Bool.not_eq_true', Bool.not_eq_true'] at hx hy
  have hfloat : x.float = y.float := Decimal.plain_injective hx.1 hy.1 (Option.some.inj h)
  cases x
  cases y
  cases hfloat
  cases hx.2
  cases hy.2
  rfl

/-- A key that becomes a name is a text, a number, a truth value or `None`. -/
theorem written?_cases {key : Value} {name : String} (h : key.written? = some name) :
    key = .str name ∨ (∃ x, key = .float x) ∨
      (name = "true" ∧ key = .bool true ∨ name = "false" ∧ key = .bool false ∨
        name = "null" ∧ key = .null) := by
  cases key with
  | str s => exact Or.inl (congrArg Value.str (Option.some.inj h))
  | float x => exact Or.inr (Or.inl ⟨x, rfl⟩)
  | bool b => cases b <;> cases h <;> simp
  | null => cases h; simp
  | _ => cases h

/-- Keys of one kind become different names, not-a-numbers apart. -/
theorem eq_of_written {a b : Value} {name : String} (ha : a.written? = some name)
    (hb : b.written? = some name) (htext : a.isText = b.isText) (hna : a.isNan = false)
    (hnb : b.isNan = false) : a = b := by
  have hconstant {x : Numeric} (hx : (float x).written? = some name)
      (h : name = "true" ∨ name = "false" ∨ name = "null") : False :=
    written?_float_ne (by simpa using h) hx
  rcases written?_cases ha with rfl | ⟨x, rfl⟩ | hca
  · rcases written?_cases hb with rfl | ⟨y, rfl⟩ | hcb
    · rfl
    · cases htext
    · rcases hcb with ⟨-, rfl⟩ | ⟨-, rfl⟩ | ⟨-, rfl⟩ <;> cases htext
  · rcases written?_cases hb with rfl | ⟨y, rfl⟩ | hcb
    · cases htext
    · rw [isNan, Bool.not_eq_false'] at hna hnb
      rw [eq_of_written_float hna hnb (ha.trans hb.symm)]
    · exact (hconstant ha (by tauto)).elim
  · rcases written?_cases hb with rfl | ⟨y, rfl⟩ | hcb
    · rcases hca with ⟨-, rfl⟩ | ⟨-, rfl⟩ | ⟨-, rfl⟩ <;> cases htext
    · exact (hconstant hb (by tauto)).elim
    · rcases hca with ⟨rfl, rfl⟩ | ⟨rfl, rfl⟩ | ⟨rfl, rfl⟩ <;>
        rcases hcb with ⟨h, rfl⟩ | ⟨h, rfl⟩ | ⟨h, rfl⟩ <;> first | rfl | exact absurd h (by decide)

/-! ## What is kept -/

/-- The items of a tuple or of a list that was made in the language. -/
def ownItems? : Value → Option (List Value)
  | tuple _ items | list _ items => some items
  | _ => none

section Keeping

variable (host : Host) (site : Identity)

def memberNames (entries : List (Value × Value)) : List String :=
  entries.filterMap fun e => (nativeKey host site e.1).toOption

/-- The entry at a position is the last whose key becomes a name. -/
structure IsLast (entries : List (Value × Value)) (i : Nat) (e : Value × Value) (name : String) :
    Prop where
  entry : entries[i]? = some e
  becomes : nativeKey host site e.1 = .ok name
  last : ∀ j e', i < j → entries[j]? = some e' → nativeKey host site e'.1 ≠ .ok name

/-- The value of an entry, converted, is found under its key, converted. -/
def Finds (members : Table Json) (e : Value × Value) : Prop :=
  ∃ name k, nativeKey host site e.1 = .ok name ∧ Table.get? members name = some k ∧
    e.2.toNative host site = .ok k

/-- Two keys that become one name although they are different: a text and a key that is written
like it, or not-a-numbers. -/
def Confused (a b : Value) : Prop :=
  nativeKey host site a = nativeKey host site b ∧
    (a.isText ≠ b.isText ∨ a.isNan = true ∨ b.isNan = true)

/-- What the members of an object keep of the entries of a dict. -/
structure Keeps (d : Dict) (members : Table Json) : Prop where
  names : ∀ e ∈ d.entries, ∃ name, nativeKey host site e.1 = .ok name
  /-- There are as many members as different names. -/
  length : members.length = (memberNames host site d.entries).dedup.length
  /-- The last entry of each name is found. -/
  last : ∀ i e name, IsLast host site d.entries i e name → Finds host site members e
  /-- Nothing is lost where no keys are confused. -/
  whole : d.Indexed → (d.entries.Pairwise fun a b => ¬ Confused host site a.1 b.1) →
    members.length = d.length ∧ ∀ e ∈ d.entries, Finds host site members e

/-- What a value keeps in becoming a document: a tuple or a list its items, one by one, and a
dict its entries. -/
structure Kept (v : Value) (j : Json) : Prop where
  items : ∀ items, v.ownItems? = some items → ∃ js, j = .array js ∧ js.length = items.length
  entries : ∀ id d, v = .dict id d →
    ∃ members, j = .object members ∧ Keeps host site d members

/-- A value stands in another where a document stands in another. -/
inductive Within (v : Value) (j : Json) : Value → Json → Prop
  | here : Within v j v j
  | item {u : Value} {items : List Value} {js : List Json} {i : Nat} {w : Value} {k : Json}
    (h : Within v j u (.array js)) (hu : u.ownItems? = some items) (hitem : items[i]? = some w)
    (hk : js[i]? = some k) : Within v j w k
  | entry {id : Identity} {d : Dict} {members : Table Json} {i : Nat} {e : Value × Value}
    {name : String} {k : Json} (h : Within v j (.dict id d) (.object members))
    (hlast : IsLast host site d.entries i e name) (hk : Table.get? members name = some k) :
    Within v j e.2 k

end Keeping

/-! ## Conversion -/

section Converting

variable {host : Host} {site : Identity}

/-- Items are converted one by one. -/
theorem nativeItems_eq_ok {items : List Value} {js : List Json}
    (h : nativeItems host site items = .ok js) :
    List.Forall₂ (fun v j => v.toNative host site = .ok j) items js := by
  induction items generalizing js with
  | nil =>
    cases h
    exact .nil
  | cons v rest ih =>
    rw [nativeItems] at h
    obtain ⟨j, hj, h⟩ := bind_eq_ok.mp h
    obtain ⟨js', hjs, h⟩ := bind_eq_ok.mp h
    cases h
    exact .cons hj (ih hjs)

/-- An entry is converted to a member. -/
def Becomes (host : Host) (site : Identity) (e : Value × Value) (m : String × Json) : Prop :=
  nativeKey host site e.1 = .ok m.1 ∧ e.2.toNative host site = .ok m.2

/-- Entries are converted one by one, and set in a table one after the other. -/
theorem nativeEntries_eq_ok {entries : List (Value × Value)} {table members : Table Json}
    (h : nativeEntries host site table entries = .ok members) :
    ∃ converted, List.Forall₂ (Becomes host site) entries converted ∧
      members = Table.overlay table converted := by
  induction entries generalizing table with
  | nil =>
    cases h
    exact ⟨[], .nil, rfl⟩
  | cons e rest ih =>
    rw [nativeEntries] at h
    obtain ⟨⟨name, j⟩, hentry, h⟩ := bind_eq_ok.mp h
    obtain ⟨converted, hconverted, hmembers⟩ := ih h
    refine ⟨(name, j) :: converted, .cons ?_ hconverted, hmembers⟩
    obtain ⟨key, value⟩ := e
    rw [nativeEntry] at hentry
    obtain ⟨name', hname, hentry⟩ := bind_eq_ok.mp hentry
    obtain ⟨j', hj, hentry⟩ := bind_eq_ok.mp hentry
    cases hentry
    exact ⟨hname, hj⟩

/-- The names of members are those of the keys. -/
theorem memberNames_eq {entries : List (Value × Value)} {converted : List (String × Json)}
    (h : List.Forall₂ (Becomes host site) entries converted) :
    memberNames host site entries = Table.names converted := by
  induction h with
  | nil => rfl
  | cons hentry _ ih =>
    rw [memberNames, List.filterMap_cons, hentry.1]
    exact congrArg _ ih

/-- What stands at a position of a list is related to what stands there in a related list. -/
theorem exists_of_forall₂ {α β : Type} {R : α → β → Prop} {xs : List α} {ys : List β}
    (h : List.Forall₂ R xs ys) {i : Nat} {x : α} (hx : xs[i]? = some x) :
    ∃ y, ys[i]? = some y ∧ R x y := by
  obtain ⟨hi, rfl⟩ := List.getElem?_eq_some_iff.mp hx
  have hi' : i < ys.length := h.length_eq ▸ hi
  exact ⟨ys[i], List.getElem?_eq_getElem hi', h.get hi hi'⟩

section Entries

variable {entries : List (Value × Value)} {converted : List (String × Json)}
  (h : List.Forall₂ (Becomes host site) entries converted)

include h

/-- The last entry of a name is found in the table that the entries make. -/
theorem finds_last {i : Nat} {e : Value × Value} {name : String}
    (hlast : IsLast host site entries i e name) :
    ∃ k, Table.get? (Table.ofList converted) name = some k ∧
      e.2.toNative host site = .ok k := by
  obtain ⟨⟨name', k⟩, hm, hname, hvalue⟩ := exists_of_forall₂ h hlast.entry
  cases Except.ok.inj (hname.symm.trans hlast.becomes)
  refine ⟨k, Table.get?_ofList_last hm fun j k' hij hk => ?_, hvalue⟩
  -- a later member of this name would come from a later entry of it
  obtain ⟨e', he', hbecomes⟩ := exists_of_forall₂ h.flip hk
  exact hlast.last j e' hij he' hbecomes.1

theorem exists_name {e : Value × Value} (he : e ∈ entries) :
    ∃ name, nativeKey host site e.1 = .ok name := by
  obtain ⟨i, hi⟩ := List.mem_iff_getElem?.mp he
  obtain ⟨m, -, hm⟩ := exists_of_forall₂ h hi
  exact ⟨m.1, hm.1⟩

omit h in
/-- Keys that are not confused become different names. -/
theorem pairwise_names {r : Records}
    (hconverted : List.Forall₂ (Becomes host site) r.pairs converted) (hindexed : r.Indexed)
    (hclear : r.pairs.Pairwise fun a b => ¬ Confused host site a.1 b.1) :
    r.pairs.Pairwise fun a b => nativeKey host site a.1 ≠ nativeKey host site b.1 := by
  have hdistinct := List.pairwise_map.mp hindexed.distinct
  refine List.pairwise_map.mpr (((List.pairwise_map.mp hclear).and hdistinct).imp_of_mem
    fun {a b} ha hb hpair hsame => hpair.2 ?_)
  have hkinds : ¬ (a.key.isText ≠ b.key.isText ∨ a.key.isNan = true ∨ b.key.isNan = true) :=
    fun hmixed => hpair.1 ⟨hsame, hmixed⟩
  simp only [not_or, not_not, Bool.not_eq_true] at hkinds
  obtain ⟨name, hname⟩ := exists_name hconverted (List.mem_map_of_mem ha)
  have hkey : a.key = b.key := eq_of_written (nativeKey_eq_ok.mp hname)
    (nativeKey_eq_ok.mp (hsame.symm.trans hname)) hkinds.1 hkinds.2.1 hkinds.2.2
  -- entries with one key stand under one hash
  have hhash := hindexed.hash a ha host site
  rw [hkey, hindexed.hash b hb host site] at hhash
  exact (Except.ok.inj hhash).symm

omit h in
/-- Different names are not set twice. -/
theorem nodup_memberNames
    (hnames : entries.Pairwise fun a b => nativeKey host site a.1 ≠ nativeKey host site b.1) :
    (memberNames host site entries).Nodup := by
  have hok {outcome : Outcome String} {name : String} (ho : outcome.toOption = some name) :
      outcome = .ok name := by
    cases outcome with
    | error => cases ho
    | ok => exact congrArg Except.ok (Option.some.inj ho)
  rw [memberNames, List.Nodup, List.pairwise_filterMap]
  refine hnames.imp fun {a b} hne name hname name' hname' hsame => hne ?_
  rw [hok hname, hok hname', hsame]

omit h in
/-- The table that the entries of a dict make keeps them. -/
theorem keeps_ofList {d : Dict} (h : List.Forall₂ (Becomes host site) d.entries converted) :
    Keeps host site d (Table.ofList converted) := by
  have hlength : (Table.ofList converted).length =
      (memberNames host site d.entries).dedup.length := by
    rw [memberNames_eq h, Table.length_ofList]
  have hlast {i : Nat} {e : Value × Value} {name : String}
      (hi : IsLast host site d.entries i e name) :
      Finds host site (Table.ofList converted) e := by
    obtain ⟨k, hk, hvalue⟩ := finds_last h hi
    exact ⟨name, k, hi.becomes, hk, hvalue⟩
  refine ⟨fun e he => exists_name h he, hlength, fun i e name => hlast, ?_⟩
  rintro ⟨r, rfl, hindexed⟩ hclear
  have hnames : r.dict.entries.Pairwise fun a b =>
      nativeKey host site a.1 ≠ nativeKey host site b.1 := pairwise_names h hindexed hclear
  constructor
  · rw [hlength, List.dedup_eq_self.mpr (nodup_memberNames hnames), memberNames_eq h, Table.names,
      List.length_map, ← h.length_eq, Dict.length]
  · intro e he
    obtain ⟨i, hi⟩ := List.mem_iff_getElem?.mp he
    obtain ⟨name, hname⟩ := exists_name h he
    refine hlast ⟨hi, hname, fun j e' hij hj hname' => ?_⟩
    obtain ⟨hi', rfl⟩ := List.getElem?_eq_some_iff.mp hi
    obtain ⟨hj', rfl⟩ := List.getElem?_eq_some_iff.mp hj
    exact List.pairwise_iff_getElem.mp hnames i j hi' hj' hij (hname.trans hname'.symm)

end Entries

/-- A dict becomes the object of the table that its entries make. -/
theorem toNative_dict {id : Identity} {d : Dict} {j : Json}
    (h : (dict id d).toNative host site = .ok j) :
    ∃ converted, j = .object (Table.ofList converted) ∧
      List.Forall₂ (Becomes host site) d.entries converted := by
  obtain ⟨entries, index⟩ := d
  rw [toNative] at h
  obtain ⟨members, hmembers, h⟩ := bind_eq_ok.mp h
  obtain ⟨converted, hconverted, rfl⟩ := nativeEntries_eq_ok hmembers
  cases h
  exact ⟨converted, rfl, hconverted⟩

/-- A tuple or a list becomes an array, item by item. -/
theorem toNative_items {v : Value} {items : List Value} {j : Json} (hv : v.ownItems? = some items)
    (h : v.toNative host site = .ok j) :
    ∃ js, j = .array js ∧ List.Forall₂ (fun v k => v.toNative host site = .ok k) items js := by
  have harray : (do return Json.array (← nativeItems host site items)) = (.ok j : Outcome Json) := by
    cases v with
    | tuple id items' | list id items' =>
      cases hv
      rwa [toNative] at h
    | _ => cases hv
  obtain ⟨js, hjs, harray⟩ := bind_eq_ok.mp harray
  cases harray
  exact ⟨js, rfl, nativeItems_eq_ok hjs⟩

/-- A value that has a native form keeps what it holds in it. -/
theorem toNative_kept {v : Value} {j : Json} (h : v.toNative host site = .ok j) :
    Kept host site v j := by
  constructor
  · intro items hv
    obtain ⟨js, hj, hjs⟩ := toNative_items hv h
    exact ⟨js, hj, hjs.length_eq.symm⟩
  · rintro id entries rfl
    obtain ⟨converted, hj, hconverted⟩ := toNative_dict h
    exact ⟨_, hj, keeps_ofList hconverted⟩

/-- What stands in a value is converted to what stands there in the document. -/
theorem toNative_within {v w : Value} {j k : Json} (h : v.toNative host site = .ok j)
    (hw : Within host site v j w k) : w.toNative host site = .ok k := by
  -- along the way down, the document is what the value becomes
  induction hw with
  | here => exact h
  | item _ hu hitem hk ih =>
    obtain ⟨js, hjs, hitems⟩ := toNative_items hu ih
    cases hjs
    obtain ⟨k', hk', hvalue⟩ := exists_of_forall₂ hitems hitem
    rwa [Option.some.inj (hk'.symm.trans hk)] at hvalue
  | entry _ hlast hk ih =>
    obtain ⟨converted, hj, hconverted⟩ := toNative_dict ih
    cases hj
    obtain ⟨k', hk', hvalue⟩ := finds_last hconverted hlast
    rwa [Option.some.inj (hk'.symm.trans hk)] at hvalue

end Converting

/-- A value that has a native form keeps what it holds in it, at every depth: as many members as
the keys of a dict become names, the last entry of each, and all of them where no keys are
confused. -/
theorem toNative_keeps (host : Host) (site : Identity) {v w : Value} {j k : Json}
    (h : v.toNative host site = .ok j) (hw : Within host site v j w k) :
    w.toNative host site = .ok k ∧ Kept host site w k := by
  have hvalue := toNative_within h hw
  exact ⟨hvalue, toNative_kept hvalue⟩

/-- Keys of three kinds, none of which is written like another. -/
def clearRecord : Records :=
  [⟨.bool true, .bool true, .str "truth"⟩, ⟨.ofNumber (.ofFloat 1.0), .number 1.0, .str "number"⟩,
    ⟨.str "1.0", .str "1.0", .str "text"⟩]

def clearEntries : Dict :=
  clearRecord.dict

def clearMembers : Table Json :=
  [("1", .str "number"), ("1.0", .str "text"), ("true", .str "truth")]

theorem indexed_clearEntries : clearEntries.Indexed := by
  refine ⟨clearRecord, rfl, ?_, by decide⟩
  simp only [clearRecord, List.forall_mem_cons, List.not_mem_nil, false_implies, implies_true,
    and_true]
  exact ⟨fun _ _ => rfl, fun _ _ => rfl, fun _ _ => rfl⟩

theorem pairwise_clearEntries :
    clearEntries.entries.Pairwise fun a b => ¬ Confused .idle .origin a.1 b.1 := by
  have hclear {a b : Value} (name name' : String) (ha : nativeKey .idle .origin a = .ok name)
      (hb : nativeKey .idle .origin b = .ok name') (hne : name ≠ name') :
      ¬ Confused .idle .origin a b := by
    rintro ⟨hsame, -⟩
    rw [ha, hb] at hsame
    exact hne (Except.ok.inj hsame)
  refine List.pairwise_map.mpr ?_
  simp only [clearRecord, List.pairwise_cons, List.forall_mem_cons, List.not_mem_nil,
    false_implies, implies_true, and_true, List.Pairwise.nil]
  exact ⟨⟨hclear "true" "1" rfl rfl (by decide), hclear "true" "1.0" rfl rfl (by decide)⟩,
    hclear "1" "1.0" rfl rfl (by decide)⟩

/-- Nothing is lost of such a dict in a list. -/
theorem toNative_keeps_clearEntries :
    (list .origin [dict .origin clearEntries]).toNative .idle .origin =
      .ok (.array [.object clearMembers]) ∧
    clearMembers.length = clearEntries.length ∧
    ∀ e ∈ clearEntries.entries, Finds .idle .origin clearMembers e := by
  have hnative : (list .origin [dict .origin clearEntries]).toNative .idle .origin =
      .ok (.array [.object clearMembers]) := rfl
  have hkept := (toNative_keeps .idle .origin hnative (.item (i := 0) .here rfl rfl rfl)).2
  obtain ⟨members, hmembers, hkeeps⟩ := hkept.entries .origin clearEntries rfl
  cases hmembers
  exact ⟨hnative, hkeeps.whole indexed_clearEntries pairwise_clearEntries⟩

def confusedRecord : Records :=
  [⟨.ofNumber (.ofFloat 1.0), .number 1.0, .str "number"⟩, ⟨.str "1", .str "1", .str "text"⟩]

def confusedEntries : Dict :=
  confusedRecord.dict

/-- Of two entries whose keys are written alike the first is lost. -/
theorem toNative_keeps_confusedEntries :
    confusedEntries.Indexed ∧
    (dict .origin confusedEntries).toNative .idle .origin = .ok (.object [("1", .str "text")]) ∧
    [("1", Json.str "text")].length ≠ confusedEntries.length ∧
    ¬ ∀ e ∈ confusedEntries.entries, Finds .idle .origin [("1", .str "text")] e := by
  refine ⟨⟨confusedRecord, rfl, ?_, by decide⟩, rfl, by decide, fun hfinds => ?_⟩
  · simp only [confusedRecord, List.forall_mem_cons, List.not_mem_nil, false_implies,
      implies_true, and_true]
    exact ⟨fun _ _ => rfl, fun _ _ => rfl⟩
  · obtain ⟨name, k, hname, hk, hvalue⟩ := hfinds _ List.mem_cons_self
    cases hvalue
    obtain ⟨-, htext⟩ := Prod.mk.inj (List.mem_singleton.mp (Table.mem_of_get? hk))
    exact absurd (Json.str.inj htext) (by decide)

end Value

end FilterLang
