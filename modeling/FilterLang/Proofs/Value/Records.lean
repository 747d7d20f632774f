import FilterLang.Value.Dict
import Mathlib
/-!
A dict as one list.

A dict holds its entries and an index of slots. A *record* is the list of the entries with the
hash keys under which they stand, and it makes a dict (`Records.dict`). On a record a hash key is
looked up by going through the list, and set by replacing the first entry under it or adding one
at the end. The dict of a record does the same by its index: the slot of a hash key is the position
of its entry (`slot?_dict`), so what is found is the same (`find?_dict`), and setting a key leads
to the dict of the record with the key set (`set_dict`). The empty dict is that of the empty
record, so every dict that is made by setting keys is that of a record, whose slots are in range.
-/

namespace FilterLang

/-! ## The index as a list -/

/-- Numbered keys lead to the position of the first that is equal. -/
theorem lookup_zipIdx (keys : List HashKey) (start : Nat) (key : HashKey) :
    (keys.zipIdx start).lookup key = (keys.idxOf? key).map (· + start) := by
  induction keys generalizing start with
  | nil => rfl
  | cons first rest ih =>
    rw [List.zipIdx_cons, List.lookup_cons, List.idxOf?_cons, ih]
    by_cases h : first = key
    · simp [h]
    · have hne : (key == first) = false := beq_eq_false_iff_ne.mpr (Ne.symm h)
      have hne' : (first == key) = false := beq_eq_false_iff_ne.mpr h
      simp only [hne, hne', Option.map_map, Function.comp_def, Nat.add_assoc, Nat.add_comm 1,
        Bool.false_eq_true, if_false]

/-! ## Records -/

/-- An entry of a dict with the hash key under which it stands. -/
structure Entry where
  hash : HashKey
  key : Value
  value : Value

abbrev Records := List Entry

namespace Records

/-- The value of the first entry under a hash key. -/
def find? : Records → HashKey → Option Value
  | [], _ => none
  | e :: rest, hash => if e.hash = hash then some e.value else find? rest hash

/-- Sets the value under a hash key. A key that is there keeps its place and the key value it was
first given. -/
def set : Records → HashKey → Value → Value → Records
  | [], hash, key, value => [⟨hash, key, value⟩]
  | e :: rest, hash, key, value =>
    if e.hash = hash then { e with value } :: rest else e :: set rest hash key value

def hashes (r : Records) : List HashKey :=
  r.map (·.hash)

def pairs (r : Records) : List (Value × Value) :=
  r.map fun e => (e.key, e.value)

theorem hashes_cons (e : Entry) (r : Records) : hashes (e :: r) = e.hash :: r.hashes := rfl

theorem pairs_cons (e : Entry) (r : Records) : pairs (e :: r) = (e.key, e.value) :: r.pairs := rfl

theorem hashes_append (r r' : Records) : hashes (r ++ r') = r.hashes ++ r'.hashes :=
  List.map_append

@[simp] theorem length_pairs (r : Records) : r.pairs.length = r.length :=
  List.length_map _

/-- The dict with the entries of a record, where a hash key leads to the first entry under it. -/
def dict (r : Records) : Dict where
  entries := r.pairs
  index := r.hashes.zipIdx

/-- The record with its keys and values changed, under the hash keys they had. -/
def mapParts (f : Value → Value) (r : Records) : Records :=
  r.map fun e => ⟨e.hash, f e.key, f e.value⟩

@[simp] theorem hashes_mapParts (f : Value → Value) (r : Records) :
    (r.mapParts f).hashes = r.hashes :=
  List.map_map

variable {r : Records} {e : Entry} {hash : HashKey} {k v : Value}

/-! ### Finding a key -/

/-- Something is found exactly under the hash keys of the entries. -/
theorem find?_isSome_iff (r : Records) (hash : HashKey) :
    (r.find? hash).isSome = true ↔ hash ∈ r.hashes := by
  induction r with
  | nil => simp [find?, hashes]
  | cons e rest ih =>
    rw [find?, hashes_cons, List.mem_cons]
    by_cases h : e.hash = hash
    · simp [h]
    · rw [if_neg h, ih]
      simp [Ne.symm h]

theorem mem_of_find? (h : r.find? hash = some v) : ∃ e ∈ r, e.hash = hash ∧ e.value = v := by
  induction r with
  | nil => cases h
  | cons e rest ih =>
    rw [find?] at h
    by_cases he : e.hash = hash
    · rw [if_pos he] at h
      cases h
      exact ⟨e, by simp, he, rfl⟩
    · rw [if_neg he] at h
      obtain ⟨e', he', hfound⟩ := ih h
      exact ⟨e', by simp [he'], hfound⟩

/-- An entry is found under its own hash key. -/
theorem find?_of_mem (h : r.hashes.Nodup) (he : e ∈ r) : r.find? e.hash = some e.value := by
  induction r with
  | nil => cases he
  | cons f rest ih =>
    rw [hashes_cons, List.nodup_cons] at h
    rw [find?]
    rcases List.mem_cons.mp he with rfl | he
    · rw [if_pos rfl]
    · have hne : f.hash ≠ e.hash := by
        intro heq
        exact h.1 (heq ▸ List.mem_map_of_mem he)
      rw [if_neg hne, ih h.2 he]

/-! ### Setting a key -/

/-- A key that is not there yet is set at the end. -/
theorem set_of_notMem (h : hash ∉ r.hashes) (k v : Value) :
    r.set hash k v = r ++ [⟨hash, k, v⟩] := by
  induction r with
  | nil => rfl
  | cons e rest ih =>
    rw [hashes_cons, List.mem_cons, not_or] at h
    rw [set, if_neg (Ne.symm h.1), ih h.2, List.cons_append]

/-- An entry is under a new hash key when all are under different ones. -/
theorem notMem_hashes {r' : Records} (h : (hashes (r ++ e :: r')).Nodup) : e.hash ∉ r.hashes := by
  rw [hashes_append, hashes_cons, List.nodup_append] at h
  exact fun hmem => h.2.2 _ hmem _ (by simp) rfl

/-- An entry of a record with a key set has the hash key and the key of an entry that was there,
or it is the new one. -/
theorem mem_set (h : e ∈ r.set hash k v) :
    (∃ old ∈ r, e.hash = old.hash ∧ e.key = old.key ∧ (e.value = old.value ∨ e.value = v)) ∨
      e = ⟨hash, k, v⟩ := by
  induction r with
  | nil => exact Or.inr (List.mem_singleton.mp h)
  | cons first rest ih =>
    rw [set] at h
    split at h
    · rcases List.mem_cons.mp h with rfl | hrest
      · exact Or.inl ⟨first, by simp, rfl, rfl, Or.inr rfl⟩
      · exact Or.inl ⟨e, by simp [hrest], rfl, rfl, Or.inl rfl⟩
    · rcases List.mem_cons.mp h with rfl | hrest
      · exact Or.inl ⟨e, by simp, rfl, rfl, Or.inl rfl⟩
      · rcases ih hrest with ⟨old, hold, hsame⟩ | hnew
        · exact Or.inl ⟨old, by simp [hold], hsame⟩
        · exact Or.inr hnew

/-- Setting a key adds its hash key at the end, unless it is there. -/
theorem hashes_set (r : Records) (hash : HashKey) (k v : Value) :
    (r.set hash k v).hashes = if hash ∈ r.hashes then r.hashes else r.hashes ++ [hash] := by
  induction r with
  | nil => simp [set, hashes]
  | cons e rest ih =>
    rw [set, hashes_cons]
    by_cases he : e.hash = hash
    · simp [he, hashes_cons]
    · rw [if_neg he, hashes_cons, ih]
      by_cases hmem : hash ∈ hashes rest
      · rw [if_pos hmem, if_pos (List.mem_cons_of_mem _ hmem)]
      · rw [if_neg hmem, if_neg (by simpa [Ne.symm he] using hmem), List.cons_append]

/-- Setting a key keeps the hash keys distinct. -/
theorem nodup_hashes_set (hr : r.hashes.Nodup) (hash : HashKey) (k v : Value) :
    (r.set hash k v).hashes.Nodup := by
  rw [hashes_set]
  split
  · exact hr
  · next hnew => exact hr.append (List.nodup_singleton hash) (by simpa using hnew)

/-- The value of a key that is there is replaced at the position of its entry. -/
theorem pairs_set_of_idxOf? {slot : Nat} (h : r.hashes.idxOf? hash = some slot) (k v : Value) :
    (r.set hash k v).pairs = r.pairs.modify slot fun e => (e.1, v) := by
  induction r generalizing slot with
  | nil => cases h
  | cons e rest ih =>
    rw [hashes_cons, List.idxOf?_cons] at h
    rw [set, pairs_cons]
    by_cases he : e.hash = hash
    · rw [if_pos (beq_iff_eq.mpr he)] at h
      cases h
      rw [if_pos he]
      rfl
    · rw [if_neg (by simpa using he)] at h
      obtain ⟨n, hn, rfl⟩ := Option.map_eq_some_iff.mp h
      rw [if_neg he, List.modify_succ_cons, pairs_cons, ih hn]

/-! ## The dict of a record -/

@[simp] theorem entries_dict (r : Records) : r.dict.entries = r.pairs := rfl

theorem mem_entries (he : e ∈ r) : (e.key, e.value) ∈ r.dict.entries :=
  List.mem_map_of_mem he

@[simp] theorem length_dict (r : Records) : r.dict.length = r.length :=
  r.length_pairs

@[simp] theorem keys_dict (r : Records) : r.dict.keys = r.map (·.key) :=
  List.map_map

@[simp] theorem values_dict (r : Records) : r.dict.values = r.map (·.value) :=
  List.map_map

theorem hashes_index (r : Records) : r.dict.index.map (·.1) = r.hashes :=
  List.zipIdx_map_fst 0 r.hashes

theorem slots_index (r : Records) : r.dict.index.map (·.2) = List.range r.dict.entries.length := by
  rw [dict, List.zipIdx_map_snd, List.range_eq_range', hashes, pairs, List.length_map,
    List.length_map]

/-- The index of the dict of a record leads to the position of the first entry under a hash key. -/
theorem slot?_dict (r : Records) (hash : HashKey) : r.dict.slot? hash = r.hashes.idxOf? hash := by
  rw [Dict.slot?, dict, lookup_zipIdx]
  simp

/-- The dict of a record finds by its index what the record finds. -/
@[simp] theorem find?_dict (r : Records) (hash : HashKey) : r.dict.find? hash = r.find? hash := by
  rw [Dict.find?, slot?_dict, entries_dict]
  induction r with
  | nil => rfl
  | cons e rest ih =>
    rw [hashes_cons, List.idxOf?_cons, pairs_cons, find?]
    by_cases h : e.hash = hash
    · rw [if_pos (beq_iff_eq.mpr h), if_pos h]
      rfl
    · rw [if_neg (by simpa using h), if_neg h, ← ih, Option.bind_map]
      rfl

/-- The index of the dict of a record leads somewhere from the hash keys under which something is
found. -/
theorem isSome_slot?_dict (r : Records) (hash : HashKey) :
    (r.dict.slot? hash).isSome = (r.find? hash).isSome := by
  rw [slot?_dict, Bool.eq_iff_iff, find?_isSome_iff, List.isSome_idxOf?]

/-- Setting a key in the dict of a record sets it in the record. -/
theorem set_dict (r : Records) (hash : HashKey) (k v : Value) :
    r.dict.set hash k v = (r.set hash k v).dict := by
  rw [Dict.set, slot?_dict]
  cases h : r.hashes.idxOf? hash with
  | some slot =>
    have hmem : hash ∈ r.hashes := by
      by_contra hnew
      rw [List.idxOf?_eq_none_iff.mpr hnew] at h
      cases h
    rw [dict, dict, hashes_set, if_pos hmem, pairs_set_of_idxOf? h]
  | none =>
    have hnew := List.idxOf?_eq_none_iff.mp h
    rw [set_of_notMem hnew]
    simp [dict, pairs, hashes, List.zipIdx_append]

/-- In a record without repetition the slot of a hash key is where it stands. -/
theorem slot?_dict_eq_some_iff (h : r.hashes.Nodup) (hash : HashKey) (slot : Nat) :
    r.dict.slot? hash = some slot ↔ r.hashes[slot]? = some hash := by
  rw [slot?_dict, List.idxOf?, List.findIdx?_eq_some_iff_getElem, List.getElem?_eq_some_iff]
  constructor
  · rintro ⟨hslot, hhash, -⟩
    exact ⟨hslot, eq_of_beq hhash⟩
  · rintro ⟨hslot, rfl⟩
    refine ⟨hslot, beq_self_eq_true _, fun i hi hsame => ?_⟩
    exact absurd ((List.Nodup.getElem_inj_iff h).mp (eq_of_beq hsame)) hi.ne

end Records

namespace Dict

variable {d : Dict}

/-! ## Insertions -/

section

variable (host : Host) (site : Identity) (d : Dict) {k : Value} (v : Value)

theorem run_put_of_ok {hash : HashKey} (h : k.hashKey host site = .ok hash) :
    (put host site k v).run d = (.ok (), d.set hash k v) := by
  rw [put, h]
  rfl

/-- A key that is refused leaves the dict as it is. -/
theorem run_put_of_error {e : EvalError} (h : k.hashKey host site = .error e) :
    (put host site k v).run d = (.error e, d) := by
  rw [put, h]
  rfl

theorem insert_eq (k : Value) :
    d.insert host site k v = k.hashKey host site >>= fun hash => .ok (d.set hash k v) := by
  unfold insert
  cases h : k.hashKey host site with
  | ok hash => rw [run_put_of_ok host site d v h]; rfl
  | error e => rw [run_put_of_error host site d v h]; rfl

end

/-! ## Dicts with changed entries -/

/-- The dict with its keys and values changed, the index being kept. -/
def map (f : Value → Value) (d : Dict) : Dict :=
  { d with entries := d.entries.map fun e => (f e.1, f e.2) }

theorem find?_map (f : Value → Value) (d : Dict) (hash : HashKey) :
    (d.map f).find? hash = (d.find? hash).map f := by
  rw [find?, find?, Option.map_bind]
  refine congrArg _ (funext fun slot => ?_)
  simp only [map, List.getElem?_map, Option.map_map, Function.comp_def]

theorem set_map (f : Value → Value) (d : Dict) (hash : HashKey) (k v : Value) :
    (d.map f).set hash (f k) (f v) = (d.set hash k v).map f := by
  rw [set, set, slot?, slot?, map]
  cases d.index.lookup hash with
  | some slot =>
    simp only [map, Store.mk.injEq, and_true]
    apply List.ext_getElem?
    intro i
    rw [List.getElem?_modify, List.getElem?_map, List.getElem?_map, List.getElem?_modify]
    cases d.entries[i]? with
    | none => rfl
    | some e => split <;> rfl
  | none => simp [map]

/-- Changing the dict of a record changes the entries of the record. -/
theorem map_dict (f : Value → Value) (r : Records) : r.dict.map f = (r.mapParts f).dict := by
  rw [map, Records.dict, Records.dict, Records.hashes_mapParts]
  simp [Records.pairs, Function.comp_def, Records.mapParts]

theorem mem_of_find? {hash : HashKey} {v : Value} (h : d.find? hash = some v) :
    ∃ e ∈ d.entries, e.2 = v := by
  obtain ⟨slot, -, hslot⟩ := Option.bind_eq_some_iff.mp h
  obtain ⟨e, he, rfl⟩ := Option.map_eq_some_iff.mp hslot
  exact ⟨e, List.mem_of_getElem? he, rfl⟩

end Dict

end FilterLang
