import FilterLang.Proofs.Number.Nearest
import FilterLang.Proofs.Value.Content
/-!
Sound values: what an evaluation can come upon.

A value is sound when its dicts are found by the hashes of their keys and nothing in it belongs
to the embedding program: no function, no class and no method of it, and no object that passes
for a calendar value. Unlike equality, soundness looks at everything that a value holds: the
keys of dicts, what lambdas keep, the receivers of methods and the fields of objects.

Main statements: whatever comes from outside is sound (`sound_ofJson`), setting a key keeps a
dict sound (`Dict.Sound.set`), and a sound value is well formed throughout
(`Sound.wellFormed`): the index of a dict leads from the hash key of each key to the slot of
its entry, and the fields of a calendar value read as whole numbers in their ranges.
-/

namespace FilterLang

open Fallible

/-- The classes whose instances are nothing but tables of fields: neither the embedding
program's nor the calendar's. -/
def Class.isPlain : Class → Bool
  | host _ | date | datetime | time | timedelta | relativedelta => false
  | _ => true

namespace Class

variable {host : Host} {c : Class}

theorem ne_host_of_isPlain (h : c.isPlain = true) (name : String) : c ≠ .host name := by
  rintro rfl
  cases h

theorem lineage_isPlain (hc : c.isPlain = true) : ∀ k ∈ c.lineage host, k.isPlain = true := by
  intro k hk
  cases c <;> simp_all [lineage, ancestors, isPlain] <;> rcases hk with rfl | rfl <;> rfl

theorem ofInstance_notMem (hc : c.isPlain = true) (m : InstanceMethod) :
    Method.ofInstance m ∉ Method.declaredBy c := by
  intro h
  obtain ⟨tm, htm, _⟩ := eq_temporal_of_mem h
  cases c <;> simp_all [isPlain, TemporalMethod.declaredBy]

/-- No class of the language has a method of the embedding program. -/
theorem method?_ne_host (hc : ∀ name, c ≠ .host name) {name : String} {m : Method}
    (h : c.method? host name = some m) : ∀ owner name, m ≠ .ofInstance (.host owner name) := by
  rintro owner name rfl
  obtain ⟨k, _, hmem⟩ := mem_declaredBy hc h
  obtain ⟨tm, _, heq⟩ := eq_temporal_of_mem hmem
  cases heq

end Class

namespace Value

/-! ## Everything in a value -/

inductive Part : Value → Value → Prop
  | member {v w : Value} (h : v.Member w) : Part v w
  | key (id : Identity) {d : Dict} {e : Value × Value} (h : e ∈ d.entries) :
    Part (.dict id d) e.1
  | kept (id : Identity) (params : List String) (body : Expr) {closure : List (String × Value)}
    {p : String × Value} (h : p ∈ closure) : Part (.lambda id params body closure) p.2
  | receiver (id : Identity) (v : Value) (m : Method) : Part (.method id v m) v
  | field (id : Identity) (c : Class) {fields : List (String × Value)} {p : String × Value}
    (h : p ∈ fields) : Part (.object id c fields) p.2

/-- What a value has to be itself in order to be sound. -/
def Proper : Value → Prop
  | dict _ d => Dict.Indexed d
  | function f => ∀ name, f ≠ .host name
  | cls c => ∀ name, c ≠ .host name
  | method _ _ m => ∀ owner name, m ≠ .ofInstance (.host owner name)
  | object _ c _ => c.isPlain = true
  | _ => True

/-- A value in which everything is proper. -/
def Sound (v : Value) : Prop :=
  v.Throughout Part Proper

variable {v w : Value}

/-- A proper value without parts is sound. -/
theorem sound_leaf (hv : v.Proper) (hparts : ∀ w, ¬ v.Part w) : v.Sound :=
  .intro hv fun w hw => (hparts w hw).elim

@[simp] theorem sound_null : null.Sound :=
  sound_leaf trivial (by rintro w ⟨⟨⟩⟩)

@[simp] theorem sound_notImplemented : notImplemented.Sound :=
  sound_leaf trivial (by rintro w ⟨⟨⟩⟩)

@[simp] theorem sound_bool (b : Bool) : (bool b).Sound :=
  sound_leaf trivial (by rintro w ⟨⟨⟩⟩)

@[simp] theorem sound_float (x : Numeric) : (float x).Sound :=
  sound_leaf trivial (by rintro w ⟨⟨⟩⟩)

@[simp] theorem sound_str (s : String) : (str s).Sound :=
  sound_leaf trivial (by rintro w ⟨⟨⟩⟩)

@[simp] theorem sound_temporal (id : Identity) (t : Temporal) : (temporal id t).Sound :=
  sound_leaf trivial (by rintro w ⟨⟨⟩⟩)

@[simp] theorem sound_number (x : Float) : (number x).Sound := sound_float _

@[simp] theorem sound_int (n : Int) : (int n).Sound := sound_float _

@[simp] theorem sound_function {f : Function} : (function f).Sound ↔ ∀ name, f ≠ .host name :=
  ⟨fun h => h.here, fun h => sound_leaf h (by rintro w ⟨⟨⟩⟩)⟩

@[simp] theorem sound_cls {c : Class} : (cls c).Sound ↔ ∀ name, c ≠ .host name :=
  ⟨fun h => h.here, fun h => sound_leaf h (by rintro w ⟨⟨⟩⟩)⟩

@[simp] theorem sound_tuple {id : Identity} {items : List Value} :
    (tuple id items).Sound ↔ ∀ v ∈ items, v.Sound := by
  refine ⟨fun h v hv => h.of_part (.member (.tuple id hv)), fun h => .intro trivial ?_⟩
  rintro w ⟨hw⟩
  cases hw with
  | tuple _ hw => exact h w hw

@[simp] theorem sound_list {id : Identity} {items : List Value} :
    (list id items).Sound ↔ ∀ v ∈ items, v.Sound := by
  refine ⟨fun h v hv => h.of_part (.member (.list id hv)), fun h => .intro trivial ?_⟩
  rintro w ⟨hw⟩
  cases hw with
  | list _ hw => exact h w hw

@[simp] theorem sound_lambda {id : Identity} {params : List String} {body : Expr}
    {closure : List (String × Value)} :
    (lambda id params body closure).Sound ↔ ∀ p ∈ closure, p.2.Sound := by
  refine ⟨fun h p hp => h.of_part (.kept id params body hp), fun h => .intro trivial ?_⟩
  intro w hw
  cases hw with
  | member hw => cases hw
  | kept _ _ _ hp => exact h _ hp

theorem sound_method {id : Identity} {m : Method} :
    (method id v m).Sound ↔ (∀ owner name, m ≠ .ofInstance (.host owner name)) ∧ v.Sound := by
  refine ⟨fun h => ⟨h.here, h.of_part (.receiver id v m)⟩, fun h => .intro h.1 ?_⟩
  intro w hw
  cases hw with
  | member hw => cases hw
  | receiver => exact h.2

theorem sound_object {id : Identity} {c : Class} {fields : List (String × Value)} :
    (object id c fields).Sound ↔ c.isPlain = true ∧ ∀ p ∈ fields, p.2.Sound := by
  refine ⟨fun h => ⟨h.here, fun p hp => h.of_part (.field id c hp)⟩, fun h => .intro h.1 ?_⟩
  intro w hw
  cases hw with
  | member hw => cases hw
  | field _ _ hp => exact h.2 _ hp

/-- A document is made of documents, and none of them can be improper. -/
@[simp] theorem sound_ofJson (site : Identity) (j : Json) : (ofJson site j).Sound := by
  intro w hw
  have hdocument : ∃ place document, w = ofJson place document := by
    induction hw with
    | refl => exact ⟨site, j, rfl⟩
    | tail _ hpart ih =>
      obtain ⟨place, document, rfl⟩ := ih
      cases document with
      | array items =>
        rcases hpart with ⟨⟨⟩⟩
        exact ⟨_, _, rfl⟩
      | object members =>
        rcases hpart with ⟨⟨⟩⟩
        exact ⟨_, _, rfl⟩
      | _ => rcases hpart with ⟨⟨⟩⟩
  obtain ⟨place, document, rfl⟩ := hdocument
  cases document <;> trivial

end Value

/-! ## Dicts -/

/-- The entries of a sound dict. -/
structure Dict.Sound (d : Dict) : Prop where
  indexed : d.Indexed
  keys : ∀ e ∈ d.entries, e.1.Sound
  values : ∀ e ∈ d.entries, e.2.Sound

namespace Value

theorem sound_dict {id : Identity} {d : Dict} : (dict id d).Sound ↔ d.Sound := by
  constructor
  · intro h
    exact ⟨h.here, fun e he => h.of_part (.key id he), fun e he => h.of_part (.member (.dict id he))⟩
  · intro h
    refine .intro h.indexed fun w hw => ?_
    cases hw with
    | member hw =>
      cases hw with
      | dict _ he => exact h.values _ he
    | key _ he => exact h.keys _ he

variable {v : Value} {site : Identity}

theorem Sound.listItems (hv : v.Sound) {items : List Value} (h : v.listItems? site = some items) :
    ∀ w ∈ items, w.Sound :=
  fun _ hw => hv.of_part (.member (member_of_listItems? h hw))

theorem Sound.entries (hv : v.Sound) {pairs : List (Value × Value)}
    (h : v.entries? site = some pairs) : ∀ p ∈ pairs, p.1.Sound ∧ p.2.Sound := by
  cases v with
  | dict id d =>
    cases h
    have hd := sound_dict.mp hv
    exact fun e he => ⟨hd.keys e he, hd.values e he⟩
  | nativeDict id members =>
    cases h
    exact List.forall_mem_map.mpr fun m _ => ⟨sound_str m.1, sound_ofJson _ m.2⟩
  | _ => cases h

/-! ## Special methods and hash keys -/

/-- Only calendar values and the embedding program's instances have methods of instances. -/
theorem special?_plain {id : Identity} {c : Class} {fields : List (String × Value)}
    (hc : c.isPlain = true) (host : Host) (name : String) :
    (object id c fields).special? host name = none := by
  rw [special?]
  cases hm : (object id c fields).classOf.method? host name with
  | none => rfl
  | some m =>
    obtain ⟨k, hk, hmem⟩ := Class.mem_declaredBy (c.ne_host_of_isPlain hc) hm
    cases m with
    | ofInstance m =>
      exact absurd hmem (Class.ofInstance_notMem (Class.lineage_isPlain hc k hk) m)
    | str | sequence | dict => rfl

/-- A special method of a sound value is a calendar method of a calendar value. -/
theorem Sound.special (hv : v.Sound) {host : Host} {name : String} {m : InstanceMethod}
    (h : v.special? host name = some m) :
    ∃ id t tm, v = temporal id t ∧ m = .temporal tm := by
  cases v with
  | temporal id t =>
    obtain ⟨tm, rfl⟩ := special?_temporal h
    exact ⟨id, t, tm, rfl, rfl⟩
  | object id c fields =>
    rw [special?_plain (sound_object.mp hv).1] at h
    cases h
  | _ => cases h

mutual

/-- The hash key of a sound value is the same for every embedding program at every place. -/
theorem hashKeyWith_congr {host host' : Host} {site site' : Identity}
    {next next' : Value → Outcome HashKey} :
    (v : Value) → v.Sound → hashKeyWith host site next v = hashKeyWith host' site' next' v
  | tuple _ items, hv => by
    rw [hashKeyWith, hashKeyWith, hashKeysWith_congr items (sound_tuple.mp hv)]
  | object id c fields, hv => by
    rw [hashKeyWith, hashKeyWith, special?_plain (sound_object.mp hv).1,
      special?_plain (sound_object.mp hv).1]
  | null, _ | notImplemented, _ | bool _, _ | float _, _ | str _, _ | list .., _ | dict .., _
  | nativeList .., _ | nativeDict .., _ | function _, _ | lambda .., _ | method .., _ | cls _, _
  | temporal .., _ => rfl

theorem hashKeysWith_congr {host host' : Host} {site site' : Identity}
    {next next' : Value → Outcome HashKey} :
    (items : List Value) → (∀ v ∈ items, v.Sound) →
      hashKeysWith host site next items = hashKeysWith host' site' next' items
  | [], _ => rfl
  | v :: rest, h => by
    rw [hashKeysWith, hashKeysWith, hashKeyWith_congr v (h v (by simp)),
      hashKeysWith_congr rest fun w hw => h w (by simp [hw])]

end

theorem Sound.hashKey_congr (hv : v.Sound) (host host' : Host) (site site' : Identity) :
    v.hashKey host site = v.hashKey host' site' :=
  hashKeyWith_congr v hv

end Value

namespace Dict

variable {d : Dict} {hash : HashKey} {k v : Value}

/-- Setting a key under its hash key keeps a dict indexed. -/
theorem Indexed.set (hd : d.Indexed) (hhash : ∀ host site, k.hashKey host site = .ok hash)
    (v : Value) : (d.set hash k v).Indexed := by
  obtain ⟨r, rfl, hr⟩ := hd
  refine ⟨r.set hash k v, (r.set_dict hash k v).symm, fun e he => ?_,
    Records.nodup_hashes_set hr.distinct hash k v⟩
  rcases Records.mem_set he with ⟨old, hold, hsame, hkey, -⟩ | rfl
  · rw [hkey, hsame]
    exact hr.hash old hold
  · exact hhash

theorem indexed_nil : Dict.Indexed [] :=
  ⟨[], rfl, by simp, by simp [Records.hashes]⟩

theorem sound_nil : Dict.Sound [] :=
  ⟨indexed_nil, by simp, by simp⟩

/-- Setting a key under its hash key keeps a dict sound. -/
theorem Sound.set (hd : d.Sound) (hhash : ∀ host site, k.hashKey host site = .ok hash)
    (hk : k.Sound) (hv : v.Sound) : Dict.Sound (d.set hash k v) := by
  have hindexed := hd.indexed.set hhash v
  obtain ⟨r, rfl, -⟩ := hd.indexed
  rw [Records.set_dict] at hindexed ⊢
  have hkeys : ∀ e ∈ r.set hash k v, e.key.Sound := by
    intro e he
    rcases Records.mem_set he with ⟨old, hold, -, hkey, -⟩ | rfl
    · rw [hkey]
      exact hd.keys _ (Records.mem_entries hold)
    · exact hk
  have hvalues : ∀ e ∈ r.set hash k v, e.value.Sound := by
    intro e he
    rcases Records.mem_set he with ⟨old, hold, -, -, hvalue | hvalue⟩ | rfl
    · rw [hvalue]
      exact hd.values _ (Records.mem_entries hold)
    · rw [hvalue]
      exact hv
    · exact hv
  exact ⟨hindexed, List.forall_mem_map.mpr hkeys, List.forall_mem_map.mpr hvalues⟩

end Dict

/-! ## Well-formed values -/

/-- The entries and the index of a dict are in step: the index leads from the hash key of every
entry's key to the slot of the entry, and from nothing else to anything. -/
structure Dict.Coherent (d : Dict) : Prop where
  hashable : ∀ e ∈ d.entries, ∃ hash, ∀ host site, e.1.hashKey host site = .ok hash
  slot : ∀ hash i, d.slot? hash = some i ↔
    ∃ e, d.entries[i]? = some e ∧ ∀ host site, e.1.hashKey host site = .ok hash
  /-- There is one slot for each hash key. -/
  distinct : (d.index.map (·.1)).Nodup

/-- A dict whose index is that of a record has it in step with the entries. -/
theorem Dict.Indexed.coherent {d : Dict} (hd : d.Indexed) : d.Coherent := by
  obtain ⟨r, rfl, hr⟩ := hd
  refine ⟨List.forall_mem_map.mpr fun e he => ⟨e.hash, hr.hash e he⟩, fun hash i => ?_,
    r.hashes_index ▸ hr.distinct⟩
  rw [Records.slot?_dict_eq_some_iff hr.distinct, Records.hashes, List.getElem?_map,
    Option.map_eq_some_iff, Records.entries_dict, Records.pairs, List.getElem?_map]
  constructor
  · rintro ⟨e, he, rfl⟩
    exact ⟨(e.key, e.value), by rw [he]; rfl, hr.hash e (List.mem_of_getElem? he)⟩
  · rintro ⟨p, hp, hhash⟩
    obtain ⟨e, he, rfl⟩ := Option.map_eq_some_iff.mp hp
    have hkey := hr.hash e (List.mem_of_getElem? he)
    exact ⟨e, he, Except.ok.inj ((hkey .idle .origin).symm.trans (hhash _ _))⟩

namespace Temporal

/-- The whole number that a field of a calendar value reads as. -/
def read? (t : Temporal) (name : String) : Option Int :=
  (t.field? name).bind Value.integer?

/-- A field reads as a whole number between two others. -/
def Reads (t : Temporal) (name : String) (lo hi : Int) : Prop :=
  ∃ n, t.read? name = some n ∧ lo ≤ n ∧ n ≤ hi

/-- The fields of a date read as a day of the calendar. -/
def ReadsDay (t : Temporal) : Prop :=
  ∃ year month day : Nat, t.read? "year" = some year ∧ t.read? "month" = some month ∧
    t.read? "day" = some day ∧ (1 ≤ year ∧ year ≤ 9999) ∧ (1 ≤ month ∧ month ≤ 12) ∧
    1 ≤ day ∧ day ≤ daysInMonth year month

/-- The fields of a time of day read as one. -/
def ReadsClock (t : Temporal) : Prop :=
  t.Reads "hour" 0 23 ∧ t.Reads "minute" 0 59 ∧ t.Reads "second" 0 59 ∧
    t.Reads "microsecond" 0 999999

/-- The fields of a calendar value read as numbers in their ranges. -/
def WellFormed (t : Temporal) : Prop :=
  match t with
  | date _ => t.ReadsDay
  | datetime _ => t.ReadsDay ∧ t.ReadsClock
  | time _ => t.ReadsClock
  | duration _ =>
    t.Reads "seconds" 0 86399 ∧ t.Reads "microseconds" 0 999999 ∧
      t.Reads "days" (-999999999) 999999999
  | offset _ => t.Reads "months" (-11) 11

theorem integer?_int {n : Int} (h : n.natAbs ≤ 2 ^ 53) : (Value.int n).integer? = some n :=
  Number.integral?_ofInt h

/-- Small numbers read as themselves. -/
theorem read?_of_field? {t : Temporal} {name : String} {n : Int}
    (h : t.field? name = some (.int n)) (hn : n.natAbs ≤ 2 ^ 53) : t.read? name = some n := by
  rw [read?, h, Option.bind_some, integer?_int hn]

theorem reads_of_field? {t : Temporal} {name : String} {n lo hi : Int}
    (h : t.field? name = some (.int n)) (hlo : lo ≤ n) (hhi : n ≤ hi)
    (hrange : lo.natAbs ≤ 2 ^ 53 ∧ hi.natAbs ≤ 2 ^ 53) : t.Reads name lo hi :=
  ⟨n, read?_of_field? h (by omega), hlo, hhi⟩

theorem readsDay_of_fields {t : Temporal} (d : Date) (hyear : t.field? "year" = some (.int d.year))
    (hmonth : t.field? "month" = some (.int d.month))
    (hday : t.field? "day" = some (.int d.day)) : t.ReadsDay := by
  have hyr := d.year_range
  have hmr := d.month_range
  have hdr := d.day_range
  have hlength : daysInMonth d.year d.month ≤ 31 := by
    unfold daysInMonth
    split_ifs <;> omega
  exact ⟨d.year, d.month, d.day, read?_of_field? hyear (by omega), read?_of_field? hmonth (by omega),
    read?_of_field? hday (by omega), hyr, hmr, hdr⟩

theorem readsClock_of_fields {t : Temporal} (c : Clock) (hhour : t.field? "hour" = some (.int c.hour))
    (hminute : t.field? "minute" = some (.int c.minute))
    (hsecond : t.field? "second" = some (.int c.second))
    (hmicro : t.field? "microsecond" = some (.int c.micro)) : t.ReadsClock := by
  have h1 := c.hour_range
  have h2 := c.minute_range
  have h3 := c.second_range
  have h4 := c.micro_range
  exact ⟨reads_of_field? hhour (by omega) (by omega) (by decide),
    reads_of_field? hminute (by omega) (by omega) (by decide),
    reads_of_field? hsecond (by omega) (by omega) (by decide),
    reads_of_field? hmicro (by omega) (by omega) (by decide)⟩

/-- Calendar values are well formed: what they carry is what their fields read as. -/
theorem wellFormed (t : Temporal) : t.WellFormed := by
  cases t with
  | date d => exact readsDay_of_fields d rfl rfl rfl
  | datetime x =>
    exact ⟨readsDay_of_fields x.date rfl rfl rfl, readsClock_of_fields x.clock rfl rfl rfl rfl⟩
  | time c => exact readsClock_of_fields c rfl rfl rfl rfl
  | duration d =>
    have hdays := d.days_range
    have hday : (0 : Int) < DateTime.microsPerDay := by decide
    have hpos := Int.emod_nonneg d.micros hday.ne'
    have hlt := Int.emod_lt_of_pos d.micros hday
    simp only [DateTime.microsPerDay, maxDurationDays] at hdays hpos hlt
    refine ⟨reads_of_field? (n := d.seconds) rfl ?_ ?_ (by decide),
      reads_of_field? (n := d.microseconds) rfl ?_ ?_ (by decide),
      reads_of_field? (n := d.days) rfl ?_ ?_ (by decide)⟩ <;>
      simp only [Duration.seconds, Duration.microseconds, Duration.days, DateTime.microsPerDay] <;>
      omega
  | offset o =>
    exact reads_of_field? (n := o.months) rfl o.months_range.1 o.months_range.2 (by decide)

end Temporal

namespace Value

/-- The entries and the index of a dict are in step; the fields of a calendar value read as numbers
in their ranges, and nothing else is an instance of a calendar class. -/
def WellFormed : Value → Prop
  | dict _ d => Dict.Coherent d
  | temporal _ t => t.WellFormed
  | object _ c _ => ∀ (host : Host) (t : Temporal), c.isSubclass host t.cls = false
  | _ => True

theorem Proper.wellFormed {v : Value} (h : v.Proper) : v.WellFormed := by
  cases v with
  | dict id d => exact Dict.Indexed.coherent h
  | temporal id t => exact t.wellFormed
  | object id c fields =>
    intro host t
    rw [Bool.eq_false_iff]
    intro hsub
    have hplain := Class.lineage_isPlain h _ (List.contains_iff_mem.mp hsub)
    cases t <;> cases hplain
  | _ => trivial

/-- A sound value is well formed throughout. -/
theorem Sound.wellFormed {v : Value} (h : v.Sound) : v.Throughout Part WellFormed :=
  h.imp fun _ hw => hw.wellFormed

end Value

end FilterLang
