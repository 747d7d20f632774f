import FilterLang.Proofs.Value.Soundness
/-!
A dict is a map that remembers the order of insertion.

Values are put into a new dict one after the other. A key without a hash key is refused, and the
dict stays as it was; the entries of the other insertions, in order, are the *history's record*.
From each record another is read off: for every hash key it has the key that came first and the
value that came last, in the order in which the hash keys first came (`recorded`). The dict that
the insertions leave, entries and index, is the dict of that one (`after_eq_recorded`), as each of
them moves it on as it moves the record on (`set_recorded`). So a dict answers as its record does,
and its index is in step with its entries, whatever was put in (`after_reflects`).
-/

namespace FilterLang

/-- A value that is put into a dict under a key, and the place at which this is done. -/
structure Insertion where
  site : Identity
  key : Value
  value : Value

/-- The entry that an insertion makes, if its key has a hash key. -/
def Insertion.entry? (host : Host) (i : Insertion) : Option Entry :=
  match i.key.hashKey host i.site with
  | .ok hash => some ⟨hash, i.key, i.value⟩
  | .error _ => none

namespace Dict

/-- The outcome of an insertion, and the dict after it. -/
def attempt (host : Host) (d : Dict) (i : Insertion) : Outcome Unit × Dict :=
  (put host i.site i.key i.value).run d

/-- The dict that insertions into a new one leave. -/
def after (host : Host) (history : List Insertion) : Dict :=
  history.foldl (fun d i => (d.attempt host i).2) {}

end Dict

namespace Records

/-! ## What is read off a record -/

/-- The entries that insertions make, in order. -/
def ofHistory (host : Host) (history : List Insertion) : Records :=
  history.filterMap (Insertion.entry? host)

/-- The entries of a record under a hash key. -/
def under (r : Records) (hash : HashKey) : Records :=
  r.filter fun e => e.hash = hash

/-- The value that came last under a hash key. -/
def lastUnder? (r : Records) (hash : HashKey) : Option Value :=
  (r.under hash).getLast?.map (·.value)

/-- The entries of a record that are the first under their hash keys. -/
def firsts : Records → Records
  | [] => []
  | e :: rest => e :: (firsts rest).filter fun f => f.hash ≠ e.hash

/-- The first entries of a record with the values that came last. -/
def recorded (r : Records) : Records :=
  r.firsts.map fun e => { e with value := (r.lastUnder? e.hash).getD e.value }

section Record

variable (r : Records) (e : Entry) (hash : HashKey)

theorem under_append :
    under (r ++ [e]) hash = r.under hash ++ if e.hash = hash then [e] else [] := by
  by_cases h : e.hash = hash <;> simp [under, h]

theorem lastUnder?_append :
    lastUnder? (r ++ [e]) hash = if e.hash = hash then some e.value else r.lastUnder? hash := by
  rw [lastUnder?, lastUnder?, under_append]
  by_cases h : e.hash = hash <;> simp [h]

theorem under_eq_nil : r.under hash = [] ↔ hash ∉ r.hashes := by
  rw [under, List.filter_eq_nil_iff]
  simp [hashes]

/-- Every hash key of a record has a first entry, and no other has one. -/
theorem mem_hashes_firsts : hash ∈ r.firsts.hashes ↔ hash ∈ r.hashes := by
  rw [hashes, hashes]
  induction r with
  | nil => rfl
  | cons e rest ih =>
    rw [firsts, List.map_cons, List.map_cons, List.mem_cons, List.mem_cons, ← ih]
    by_cases h : hash = e.hash
    · simp [h]
    · simp only [h, false_or, List.mem_map, List.mem_filter]
      constructor
      · rintro ⟨f, ⟨hf, -⟩, rfl⟩
        exact ⟨f, hf, rfl⟩
      · rintro ⟨f, hf, rfl⟩
        exact ⟨f, ⟨hf, decide_eq_true h⟩, rfl⟩

theorem nodup_hashes_firsts : r.firsts.hashes.Nodup := by
  induction r with
  | nil => exact List.nodup_nil
  | cons e rest ih =>
    rw [firsts, hashes_cons, List.nodup_cons]
    refine ⟨fun hmem => ?_, ih.sublist (List.filter_sublist.map _)⟩
    obtain ⟨f, hf, hsame⟩ := List.mem_map.mp hmem
    exact of_decide_eq_true (List.mem_filter.mp hf).2 hsame

theorem hashes_recorded : r.recorded.hashes = r.firsts.hashes :=
  List.map_map

/-- A further entry is a first one unless its hash key is in the record. -/
theorem firsts_append :
    firsts (r ++ [e]) = if e.hash ∈ r.hashes then r.firsts else r.firsts ++ [e] := by
  rw [hashes]
  induction r with
  | nil => simp [firsts]
  | cons f rest ih =>
    rw [List.cons_append, firsts, ih, firsts, List.map_cons]
    by_cases hmem : e.hash ∈ rest.map (·.hash)
    · rw [if_pos hmem, if_pos (List.mem_cons_of_mem _ hmem)]
    · rw [if_neg hmem, List.filter_append]
      by_cases hf : e.hash = f.hash
      · -- the filter that belongs to `f` drops the new entry
        rw [if_pos (by simp [hf])]
        simp [hf]
      · rw [if_neg (by simpa [hf] using hmem)]
        simp [hf]

end Record

/-! ## Setting a key -/

/-- A key that is there keeps its place: only the value found under its hash key changes. -/
theorem set_of_mem {r : Records} {hash : HashKey} (hr : r.hashes.Nodup) (h : hash ∈ r.hashes)
    (k v : Value) :
    r.set hash k v = r.map fun e => if e.hash = hash then { e with value := v } else e := by
  induction r with
  | nil => cases h
  | cons e rest ih =>
    rw [hashes_cons, List.nodup_cons] at hr
    rw [set, List.map_cons]
    by_cases he : e.hash = hash
    · -- no other entry stands under this hash key
      rw [if_pos he, if_pos he]
      refine congrArg _ ((List.map_id rest).symm.trans (List.map_congr_left fun f hf => ?_))
      rw [if_neg]
      · rfl
      · rintro rfl
        exact hr.1 (he ▸ List.mem_map_of_mem hf)
    · rw [if_neg he, if_neg he, ih hr.2]
      simpa [hashes, Ne.symm he] using h

/-- Setting a key changes what is found under its hash key and nothing else. -/
theorem find?_set (r : Records) (hash : HashKey) (k v : Value) (other : HashKey) :
    (r.set hash k v).find? other = if hash = other then some v else r.find? other := by
  induction r with
  | nil => rfl
  | cons e rest ih =>
    rw [set]
    by_cases he : e.hash = hash
    · rw [if_pos he, find?, find?, he]
      by_cases ho : hash = other
      · rw [if_pos ho, if_pos ho]
      · rw [if_neg ho, if_neg ho, if_neg ho]
    · rw [if_neg he, find?, ih, find?]
      by_cases ho : e.hash = other
      · rw [if_pos ho, if_pos ho, if_neg fun hh => he (ho.trans hh.symm)]
      · rw [if_neg ho, if_neg ho]

/-- Setting a key in what is read off a record is adding an entry to the record. -/
theorem set_recorded (r : Records) (e : Entry) :
    r.recorded.set e.hash e.key e.value = recorded (r ++ [e]) := by
  have hhashes := r.hashes_recorded
  by_cases hmem : e.hash ∈ r.hashes
  · rw [set_of_mem (hhashes ▸ r.nodup_hashes_firsts) (hhashes ▸ (r.mem_hashes_firsts _).mpr hmem),
      recorded, recorded, firsts_append, if_pos hmem, List.map_map]
    refine List.map_congr_left fun f _ => ?_
    rw [lastUnder?_append]
    by_cases hf : e.hash = f.hash
    · simp [hf]
    · simp [hf, Ne.symm hf]
  · have hnew : e.hash ∉ r.recorded.hashes := by
      rw [hhashes, mem_hashes_firsts]
      exact hmem
    rw [set_of_notMem hnew, recorded, recorded, firsts_append, if_neg hmem, List.map_append]
    congr 1
    · refine List.map_congr_left fun f hf => ?_
      have hne : e.hash ≠ f.hash := by
        intro hsame
        exact hmem ((r.mem_hashes_firsts _).mp (hsame ▸ List.mem_map_of_mem hf))
      rw [lastUnder?_append, if_neg hne]
    · simp [lastUnder?_append]

/-- What is found in what is read off a record is what came last. -/
theorem find?_recorded (r : Records) (hash : HashKey) :
    r.recorded.find? hash = r.lastUnder? hash := by
  induction r using List.reverseRecOn with
  | nil => rfl
  | append_singleton r e ih => rw [← set_recorded, find?_set, ih, lastUnder?_append]

/-- Each value that is read off a record is the last under the hash key of its key. -/
theorem values_recorded (r : Records) :
    r.recorded.dict.values.map some = r.firsts.map fun e => r.lastUnder? e.hash := by
  rw [values_dict, recorded, List.map_map, List.map_map]
  refine List.map_congr_left fun e he => ?_
  have hmem : e.hash ∈ r.hashes := (r.mem_hashes_firsts e.hash).mp (List.mem_map_of_mem he)
  cases hlast : r.lastUnder? e.hash with
  | some v => simp [hlast]
  | none =>
    rw [lastUnder?, Option.map_eq_none_iff, List.getLast?_eq_none_iff, under_eq_nil] at hlast
    exact absurd hmem hlast

end Records

namespace Dict

open Records (ofHistory)

/-! ## Runs of insertions -/

section Run

variable (host : Host)

/-- An insertion succeeds when its key has a hash key, and then sets the key under it. -/
theorem attempt_of_ok (d : Dict) {i : Insertion} {hash : HashKey}
    (h : i.key.hashKey host i.site = .ok hash) :
    d.attempt host i = (.ok (), d.set hash i.key i.value) :=
  run_put_of_ok host i.site d i.value h

/-- An insertion of a key without a hash key fails as hashing does, and leaves the dict. -/
theorem attempt_of_error (d : Dict) {i : Insertion} {e : EvalError}
    (h : i.key.hashKey host i.site = .error e) : d.attempt host i = (.error e, d) :=
  run_put_of_error host i.site d i.value h

/-- One more insertion moves a dict and its record on together. -/
theorem attempt_recorded (history : List Insertion) (i : Insertion) :
    ((ofHistory host history).recorded.dict.attempt host i).2 =
      (ofHistory host (history ++ [i])).recorded.dict := by
  rw [ofHistory, ofHistory, List.filterMap_append]
  cases h : i.key.hashKey host i.site with
  | ok hash =>
    have hentry : i.entry? host = some ⟨hash, i.key, i.value⟩ := by rw [Insertion.entry?, h]
    rw [attempt_of_ok host _ h, List.filterMap_cons_some hentry, Records.set_dict]
    exact congrArg Records.dict (Records.set_recorded _ ⟨hash, i.key, i.value⟩)
  | error e =>
    have hentry : i.entry? host = none := by rw [Insertion.entry?, h]
    rw [attempt_of_error host _ h, List.filterMap_cons_none hentry, List.filterMap_nil,
      List.append_nil]

/-- The dict that insertions leave is the one that is read off their record. -/
theorem after_eq_recorded (history : List Insertion) :
    after host history = (ofHistory host history).recorded.dict := by
  induction history using List.reverseRecOn with
  | nil => rfl
  | append_singleton history i ih =>
    rw [← attempt_recorded, ← ih, after, List.foldl_append]
    rfl

/-- What a dict shows of the insertions that made it. -/
structure Reflects (history : List Insertion) (d : Dict) : Prop where
  /-- A key without a hash key is looked up in vain, and as it fails to be hashed. -/
  unhashable : ∀ site k e, k.hashKey host site = .error e →
    d.get host site k = .error e ∧ d.containsKey host site k = .error e
  /-- Any other key has the value that came last under its hash key. -/
  get : ∀ site k hash, k.hashKey host site = .ok hash →
    d.get host site k = .ok ((ofHistory host history).lastUnder? hash)
  /-- It is there when something came under its hash key. -/
  containsKey : ∀ site k hash, k.hashKey host site = .ok hash →
    d.containsKey host site k = .ok (decide (hash ∈ (ofHistory host history).hashes))
  /-- A text is looked up as the value that it is. -/
  getText : ∀ site s, d.get host site (.str s) = .ok (d.getText s)
  /-- The keys are those that came first, in that order, -/
  keys : d.keys = (ofHistory host history).firsts.map (·.key)
  /-- no two of them under one hash key. -/
  distinct : (ofHistory host history).firsts.hashes.Nodup
  /-- The index leads from a hash key to the slot of its key, and from nothing else to anything; -/
  slot : ∀ hash i, d.slot? hash = some i ↔
    (ofHistory host history).firsts.hashes[i]? = some hash
  /-- it has a hash key once, -/
  bindings : (d.index.map (·.1)).Nodup
  /-- and each slot of an entry once, and no other. -/
  slots : (d.index.map (·.2)).Perm (List.range d.entries.length)
  /-- The values stand in the order of the keys, each the last that came under its hash key. -/
  values : d.values.map some =
    (ofHistory host history).firsts.map fun e => (ofHistory host history).lastUnder? e.hash
  /-- The entries are the keys with their values, -/
  entries : ∀ id site, (Value.dict id d).entries? site = some (d.keys.zip d.values)
  /-- and as many as there are keys. -/
  len : ∀ id site, (Value.dict id d).len host site = .ok d.keys.length
  /-- A further insertion of a key without a hash key fails and leaves the dict as it is. -/
  refused : ∀ i e, i.key.hashKey host i.site = .error e → d.attempt host i = (.error e, d)
  /-- Any other succeeds. -/
  accepted : ∀ i hash, i.key.hashKey host i.site = .ok hash → (d.attempt host i).1 = .ok ()

/-- A dict is a faithful map in the order of insertion, whatever was put into it. -/
theorem after_reflects (history : List Insertion) :
    Reflects host history (after host history) := by
  rw [after_eq_recorded]
  generalize hr : ofHistory host history = r
  have hhashes := r.hashes_recorded
  have hdistinct := r.nodup_hashes_firsts
  refine ⟨fun site k e h => ⟨?_, ?_⟩, fun site k hash h => ?_, fun site k hash h => ?_,
    fun site s => rfl, ?_, hr ▸ hdistinct, fun hash i => ?_, ?_, ?_, hr ▸ r.values_recorded,
    fun id site => ?_, fun id site => ?_, fun i e h => attempt_of_error host _ h,
    fun i hash h => ?_⟩
  · rw [get, h]
    rfl
  · rw [containsKey, h]
    rfl
  · rw [get, h, Fallible.ok_bind, Records.find?_dict, Records.find?_recorded, hr]
    rfl
  · have hfound : (r.recorded.find? hash).isSome = decide (hash ∈ r.hashes) := by
      rw [Bool.eq_iff_iff, decide_eq_true_iff, Records.find?_isSome_iff, hhashes,
        Records.mem_hashes_firsts]
    rw [containsKey, h, Fallible.ok_bind, Records.isSome_slot?_dict, hfound, hr]
    rfl
  · rw [Records.keys_dict, Records.recorded, List.map_map, hr]
    rfl
  · rw [Records.slot?_dict_eq_some_iff (hhashes ▸ hdistinct), hhashes, hr]
  · rw [Records.hashes_index, hhashes]
    exact hdistinct
  · rw [Records.slots_index]
  · rw [Value.entries?, keys, values, List.zip_map']
    simp
  · rw [Value.len, keys, List.length_map, length]
  · rw [attempt_of_ok host _ h]

end Run

end Dict

end FilterLang
