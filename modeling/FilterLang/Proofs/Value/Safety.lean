import FilterLang.Proofs.Value.Instances
import FilterLang.Proofs.Value.Uniformity
/-!
Operations on sound values give sound values.

One lemma for each operation says what it gives on sound operands, and that its faults are
ordinary: binding arguments (`Signature.safe_bind`), asking special methods
(`Sound.safe_special`), length, truth, iteration and text, hash keys and dicts, comparisons,
membership, items, attributes and operators. All of them reach the calendar through special
methods only, and those of a sound value are calendar methods of a calendar value.
-/

namespace FilterLang

open Fallible Value

variable {host : Host} {site : Identity} {P : Value → Prop}

/-! ## Arguments -/

/-- A property of all the values that arguments bring in. -/
structure Bound.All (P : Value → Prop) (b : Bound) : Prop where
  values : ∀ v ∈ b.values, P v
  rest : ∀ v ∈ b.rest, P v
  keywords : ∀ p ∈ b.keywords, P p.2

theorem Bound.All.get {b : Bound} (h : b.All P) (hnull : P null) (name : String) :
    P (b.get name) := by
  unfold Bound.get
  split
  · rename_i i _
    rw [List.getD_eq_getElem?_getD]
    cases hi : b.values[i]? with
    | none => exact hnull
    | some v => exact h.values v (List.mem_of_getElem? hi)
  · exact hnull

theorem Bound.All.named {b : Bound} (h : b.All P) : ∀ p ∈ b.named, P p.2 :=
  fun p hp => h.values p.2 (List.of_mem_zip hp).2

namespace Signature

/-- A property of the values in slots that are filled. -/
def Filled (P : Value → Prop) (slots : List (Option Value)) : Prop :=
  ∀ v, some v ∈ slots → P v

theorem safe_place (s : Signature) (callee : String) {slots : List (Option Value)}
    (hslots : Filled P slots) {keywords : List (String × Value)} (hkw : ∀ p ∈ keywords, P p.2) :
    Safe host (fun placed => Filled P placed.1 ∧ ∀ p ∈ placed.2, P p.2)
      (s.place callee slots keywords) := by
  induction keywords generalizing slots with
  | nil => exact ⟨hslots, by simp⟩
  | cons k rest ih =>
    obtain ⟨name, value⟩ := k
    have hvalue : P value := hkw (name, value) (by simp)
    have hrest : ∀ p ∈ rest, P p.2 := fun p hp => hkw p (by simp [hp])
    rw [place]
    cases s.indexOf? name with
    | some i =>
      dsimp only
      split
      · trivial
      · refine ih (fun v hv => ?_) hrest
        rcases List.mem_or_eq_of_mem_set hv with hv | hv
        · exact hslots v hv
        · rw [Option.some.inj hv]
          exact hvalue
    | none =>
      refine (ih hslots hrest).bind fun placed hplaced => ?_
      refine ⟨hplaced.1, fun p hp => ?_⟩
      rcases List.mem_cons.mp hp with rfl | hp
      · exact hvalue
      · exact hplaced.2 p hp

theorem safe_fill (callee : String) {params : List Param}
    (hparams : ∀ p ∈ params, ∀ v, p.default = some v → P v) {slots : List (Option Value)}
    (hslots : Filled P slots) :
    Safe host (fun values => ∀ v ∈ values, P v) (fill callee params slots) := by
  induction params generalizing slots with
  | nil =>
    rw [fill]
    exact fun v hv => by cases hv
  | cons p params ih =>
    have htail : Filled P slots.tail := fun v hv => hslots v (List.mem_of_mem_tail hv)
    have hrest := ih (fun q hq => hparams q (by simp [hq])) htail
    rw [fill]
    cases hvalue : slots.head?.join.or p.default with
    | none => trivial
    | some value =>
      refine hrest.bind fun values hvalues w hw => ?_
      rcases List.mem_cons.mp hw with rfl | hw
      · rcases Option.or_eq_some_iff.mp hvalue with hhead | ⟨_, hdefault⟩
        · exact hslots w (List.mem_of_mem_head? (Option.join_eq_some_iff.mp hhead))
        · exact hparams p (by simp) w hdefault
      · exact hvalues w hw

/-- What is bound comes from the arguments and from the defaults. -/
theorem safe_bind {s : Signature} (hs : s.Defaults P) (callee : String) {args : List Value}
    (hargs : ∀ v ∈ args, P v) {keywords : List (String × Value)} (hkw : ∀ p ∈ keywords, P p.2) :
    Safe host (Bound.All P) (s.bind callee args keywords) := by
  have hslots : Filled P (s.slots args) := by
    intro v hv
    rcases List.mem_append.mp hv with hv | hv
    · obtain ⟨w, hw, hwv⟩ := List.mem_map.mp hv
      cases hwv
      exact hargs v (List.mem_of_mem_take hw)
    · cases (List.mem_replicate.mp hv).2
  rw [bind_eq]
  refine (s.safe_place callee hslots hkw).bind fun placed hplaced => ?_
  refine (safe_fill callee hs hplaced.1).bind fun values hvalues => Lands.ite (fun _ => trivial) ?_
  intro _
  split
  · trivial
  · exact ⟨hvalues, fun v hv => hargs v (List.mem_of_mem_drop hv), hplaced.2⟩

/-- Binding has ordinary faults whatever is bound. -/
theorem calm_bind (s : Signature) (callee : String) (args : List Value)
    (keywords : List (String × Value)) : Calm host (s.bind callee args keywords) :=
  (safe_bind (P := fun _ => True) (fun _ _ _ _ => trivial) callee (fun _ _ => trivial)
    fun _ _ => trivial).imp fun _ _ => trivial

end Signature

/-! ## Special methods -/

/-- A calendar method can be called on any proper value. -/
theorem TemporalMethod.safe_call (m : TemporalMethod) {this : Value} (h : this.Proper)
    (args : List Value) : Safe host Sound ((InstanceMethod.temporal m).call host site this args) :=
  (Signature.calm_bind _ _ args []).bind fun _ _ => m.safe_run h

namespace Value

variable {v w : Value}

theorem Sound.safe_special (hv : v.Sound) {name : String} {m : InstanceMethod}
    (h : v.special? host name = some m) (args : List Value) :
    Safe host Sound (m.call host site v args) := by
  obtain ⟨id, t, tm, rfl, rfl⟩ := hv.special h
  exact tm.safe_call hv.here args

/-- A special method is asked and its answer is read, or there is none and something else is
done. -/
theorem Sound.safe_specialOr {α : Type} (hv : v.Sound) (name : String) (args : List Value)
    {Q : α → Prop} {next : Value → Outcome α} (hnext : ∀ w : Value, w.Sound → Safe host Q (next w))
    {otherwise : Outcome α} (hother : Safe host Q otherwise) :
    Safe host Q
      (match v.special? host name with
        | some m => m.call host site v args >>= next
        | none => otherwise) := by
  cases hm : v.special? host name with
  | none => exact hother
  | some m => exact (hv.safe_special hm args).bind hnext

/-! ## Length, truth and iteration -/

theorem calm_lengthResult (v : Value) : Calm host (lengthResult v) := by
  unfold lengthResult
  split
  · exact Lands.ite (fun _ => trivial) fun _ => trivial
  · trivial

theorem Sound.calm_len (hv : v.Sound) : Calm host (v.len host site) := by
  cases v with
  | object id c fields =>
    exact hv.safe_specialOr "__len__" [] (fun w _ => calm_lengthResult w) trivial
  | temporal id t =>
    exact hv.safe_specialOr "__len__" [] (fun w _ => calm_lengthResult w) trivial
  | _ => trivial

theorem calm_nonzeroResult (v : Value) :
    Calm host (match v with
      | .bool b => .ok b
      | other => .error (.type (.nonzeroResult other.typeName)) : Outcome Bool) := by
  split <;> trivial

theorem Sound.calm_isTruthy (hv : v.Sound) : Calm host (v.isTruthy host site) := by
  have hlen : Calm host
      (match v.special? host "__len__" with
        | some _ => v.len host site >>= fun n => .ok (n != 0)
        | none => .ok true) := by
    split
    · exact hv.calm_len.bind fun _ _ => trivial
    · trivial
  cases v with
  | object id c fields =>
    exact hv.safe_specialOr "__nonzero__" [] (fun w _ => calm_nonzeroResult w) hlen
  | temporal id t =>
    exact hv.safe_specialOr "__nonzero__" [] (fun w _ => calm_nonzeroResult w) hlen
  | _ => trivial

theorem Sound.safe_iterate (hv : v.Sound) :
    Safe host (fun items => ∀ w ∈ items, w.Sound) (v.iterate site) := by
  cases v with
  | str s => exact List.forall_mem_map.mpr fun c _ => sound_str _
  | tuple id items => exact sound_tuple.mp hv
  | list id items => exact sound_list.mp hv
  | nativeList id items => exact hv.listItems rfl
  | dict id entries => exact List.forall_mem_map.mpr (sound_dict.mp hv).keys
  | nativeDict id members => exact List.forall_mem_map.mpr fun m _ => sound_str m.1
  | _ => trivial

/-! ## Texts -/

theorem calm_textResult (fault : String → TypeFault)
    (hfault : ∀ name, (EvalError.type (fault name)).Ordinary host) (v : Value) :
    Calm host (match v with
      | .str s => .ok s
      | other => .error (.type (fault other.typeName)) : Outcome String) := by
  split
  · trivial
  · exact hfault _

theorem Sound.calm_reprInstance (hv : v.Sound) : Calm host (v.reprInstance host site) :=
  hv.safe_specialOr "__repr__" [] (fun w _ => calm_textResult .reprResult (fun _ => trivial) w)
    trivial

mutual

theorem calm_repr : (v : Value) → v.Sound → Calm host (v.repr host site)
  | tuple _ items, hv => by
    rw [repr]
    exact (calm_reprItems items (sound_tuple.mp hv)).bind fun _ _ => trivial
  | list _ items, hv => by
    rw [repr]
    exact (calm_reprItems items (sound_list.mp hv)).bind fun _ _ => trivial
  | dict _ ⟨entries, index⟩, hv => by
    have hd := sound_dict.mp hv
    rw [repr]
    exact (calm_reprEntries entries fun e he => ⟨hd.keys e he, hd.values e he⟩).bind
      fun _ _ => trivial
  | temporal id t, hv | object id c fields, hv => by
    rw [repr]
    exact hv.calm_reprInstance
  | null, _ | notImplemented, _ | bool _, _ | float _, _ | str _, _ | nativeList .., _
  | nativeDict .., _ | function _, _ | lambda .., _ | method .., _ | cls _, _ => trivial

theorem calm_reprItems : (items : List Value) → (∀ v ∈ items, v.Sound) →
    Calm host (reprItems host site items)
  | [], _ => trivial
  | v :: rest, h => by
    rw [reprItems]
    refine (calm_repr v (h v (by simp))).bind fun _ _ => ?_
    exact (calm_reprItems rest fun w hw => h w (by simp [hw])).bind fun _ _ => trivial

theorem calm_reprEntries : (entries : List (Value × Value)) →
    (∀ e ∈ entries, e.1.Sound ∧ e.2.Sound) → Calm host (reprEntries host site entries)
  | [], _ => trivial
  | e :: rest, h => by
    rw [reprEntries]
    refine (calm_reprEntry e (h e (by simp))).bind fun _ _ => ?_
    exact (calm_reprEntries rest fun w hw => h w (by simp [hw])).bind fun _ _ => trivial

theorem calm_reprEntry : (e : Value × Value) → e.1.Sound ∧ e.2.Sound →
    Calm host (reprEntry host site e)
  | (k, v), h => by
    rw [reprEntry]
    exact (calm_repr k h.1).bind fun _ _ => (calm_repr v h.2).bind fun _ _ => trivial

end

theorem Sound.calm_toText (hv : v.Sound) : Calm host (v.toText host site) := by
  have hrepr : Calm host (v.repr host site) := calm_repr v hv
  cases v with
  | str s => trivial
  | object id c fields =>
    exact hv.safe_specialOr "__str__" [] (fun w _ => calm_textResult .strResult (fun _ => trivial) w)
      hrepr
  | temporal id t =>
    exact hv.safe_specialOr "__str__" [] (fun w _ => calm_textResult .strResult (fun _ => trivial) w)
      hrepr
  | _ => exact hrepr

/-! ## Hash keys and dicts -/

mutual

theorem calm_hashKeyWith {next : Value → Outcome HashKey} :
    (v : Value) → v.Sound → Calm host (hashKeyWith host site next v)
  | tuple _ items, hv => by
    rw [hashKeyWith]
    exact (calm_hashKeysWith items (sound_tuple.mp hv)).bind fun _ _ => trivial
  | object id c fields, hv => by
    rw [hashKeyWith, special?_plain (sound_object.mp hv).1]
    trivial
  | temporal _ t, _ => by
    rw [hashKeyWith]
    cases t.hashKey? <;> trivial
  | null, _ | notImplemented, _ | bool _, _ | float _, _ | str _, _ | list .., _ | dict .., _
  | nativeList .., _ | nativeDict .., _ | function _, _ | lambda .., _ | method .., _
  | cls _, _ => trivial

theorem calm_hashKeysWith {next : Value → Outcome HashKey} :
    (items : List Value) → (∀ v ∈ items, v.Sound) →
      Calm host (hashKeysWith host site next items)
  | [], _ => trivial
  | v :: rest, h => by
    rw [hashKeysWith]
    refine (calm_hashKeyWith v (h v (by simp))).bind fun _ _ => ?_
    exact (calm_hashKeysWith rest fun w hw => h w (by simp [hw])).bind fun _ _ => trivial

end

/-- A sound value has one hash key, if any. -/
theorem Sound.safe_hashKey (hv : v.Sound) :
    Safe host (fun hash => ∀ host' site', v.hashKey host' site' = .ok hash)
      (v.hashKey host site) := by
  have hcalm : Calm host (v.hashKey host site) := calm_hashKeyWith v hv
  cases hkey : v.hashKey host site with
  | error e =>
    rw [hkey] at hcalm
    exact hcalm
  | ok hash => exact fun host' site' => (hv.hashKey_congr host' host site' site).trans hkey

end Value

namespace Dict

variable {d : Dict} {k v : Value}

theorem Sound.find (hd : d.Sound) {hash : HashKey} (h : d.find? hash = some v) : v.Sound := by
  obtain ⟨e, he, rfl⟩ := mem_of_find? h
  exact hd.values e he

theorem Sound.safe_insert (hd : d.Sound) (hk : k.Sound) (hv : v.Sound) :
    Safe host Dict.Sound (d.insert host site k v) := by
  rw [insert_eq]
  exact hk.safe_hashKey.bind fun _ hhash => hd.set hhash hk hv

theorem safe_insertAll {pairs : List (Value × Value)} (hd : d.Sound)
    (h : ∀ p ∈ pairs, p.1.Sound ∧ p.2.Sound) :
    Safe host Dict.Sound (insertAll host site d pairs) := by
  induction pairs generalizing d with
  | nil => exact hd
  | cons p rest ih =>
    obtain ⟨k, v⟩ := p
    have hp := h (k, v) (by simp)
    exact (hd.safe_insert hp.1 hp.2).bind fun d' hd' => ih hd' fun q hq => h q (by simp [hq])

theorem safe_insertPairs {items : List Value} (hd : d.Sound) (h : ∀ v ∈ items, v.Sound)
    (index : Nat) : Safe host Dict.Sound (insertPairs host site index d items) := by
  induction items generalizing d index with
  | nil => exact hd
  | cons pair rest ih =>
    rw [insertPairs]
    refine (h pair (by simp)).safe_iterate.bind fun parts hparts => ?_
    split
    · refine (hd.safe_insert (hparts _ (by simp)) (hparts _ (by simp))).bind fun d' hd' => ?_
      exact ih hd' (fun v hv => h v (by simp [hv])) (index + 1)
    · trivial

end Dict

namespace Value

variable {a b v w k : Value} {r : Relation}

theorem Sound.safe_lookup (hv : v.Sound) (hk : k.Sound) :
    Safe host (fun found => ∀ w, found = some w → w.Sound) (v.lookup host site k) := by
  cases v with
  | dict id d => exact hk.safe_hashKey.bind fun hash _ w hw => (sound_dict.mp hv).find hw
  | nativeDict id members =>
    intro w hw
    obtain ⟨name, _, hw⟩ := Option.bind_eq_some_iff.mp hw
    obtain ⟨j, _, rfl⟩ := Option.map_eq_some_iff.mp hw
    exact sound_ofJson site j
  | _ => exact fun w hw => by cases hw

/-! ## Comparisons -/

theorem safe_answerOr {x : Outcome (Option Value)} {next : Outcome Value}
    (h : Safe host (fun found => ∀ w, found = some w → w.Sound) x) (hnext : Safe host Sound next) :
    Safe host Sound (answerOr x next) := by
  refine h.bind fun found hfound => ?_
  cases found with
  | none => exact hnext
  | some w => exact hfound w rfl

theorem Sound.safe_askOperator (ha : a.Sound) (name : String) (b : Value) :
    Safe host (fun found => ∀ w, found = some w → w.Sound) (askOperator host site a name b) := by
  rw [askOperator_eq]
  cases hm : a.special? host name with
  | none => exact fun w hw => by cases hw
  | some m =>
    refine (ha.safe_special hm [b]).bind fun u hu w hw => ?_
    cases u with
    | notImplemented => cases hw
    | _ => cases hw; exact hu

theorem safe_compareByMethods (ha : a.Sound) (hb : b.Sound) (r : Relation) :
    Safe host Sound (compareByMethods host site r a b) := by
  rw [compareByMethods_eq]
  refine safe_answerOr (ha.safe_askOperator _ b) (safe_answerOr (hb.safe_askOperator _ a) ?_)
  cases r <;> exact sound_bool _

/-- A value can be compared with every sound value. -/
def Comparable (host : Host) (site : Identity) (a : Value) : Prop :=
  ∀ r b, b.Sound → Safe host Sound (compareWith host site r a b)

/-- A comparison for equality decides how to go on. -/
theorem Comparable.calm_equal {α : Type} {Q : α → Prop} (h : Comparable host site a) (hb : b.Sound)
    {next : Bool → Outcome α} (hnext : ∀ same, Safe host Q (next same)) :
    Safe host Q (compareWith host site .eq a b >>= fun equal =>
      equal.isTruthy host site >>= next) :=
  (h .eq b hb).bind fun _ hequal => hequal.calm_isTruthy.bind fun same _ => hnext same

theorem calm_sameItems {xs ys : List Value} (hxs : ∀ x ∈ xs, Comparable host site x)
    (hys : ∀ y ∈ ys, y.Sound) : Calm host (sameItems host site xs ys) := by
  induction xs generalizing ys with
  | nil =>
    rw [sameItems.eq_def]
    trivial
  | cons x xs ih =>
    cases ys with
    | nil =>
      rw [sameItems.eq_def]
      trivial
    | cons y ys =>
      rw [sameItems]
      refine (hxs x (by simp)).calm_equal (hys y (by simp)) fun same => ?_
      exact Lands.ite (fun _ => ih (fun u hu => hxs u (by simp [hu])) fun u hu => hys u (by simp [hu]))
        fun _ => trivial

theorem safe_orderItems {xs ys : List Value} (hxs : ∀ x ∈ xs, Comparable host site x)
    (hys : ∀ y ∈ ys, y.Sound) (r : Relation) :
    Safe host Sound (orderItems host site r xs ys) := by
  induction xs generalizing ys with
  | nil =>
    rw [orderItems.eq_def]
    exact sound_bool _
  | cons x xs ih =>
    cases ys with
    | nil =>
      rw [orderItems.eq_def]
      exact sound_bool _
    | cons y ys =>
      have hx := hxs x (by simp)
      have hy := hys y (by simp)
      rw [orderItems]
      refine hx.calm_equal hy fun same => ?_
      exact Lands.ite (fun _ => ih (fun u hu => hxs u (by simp [hu])) fun u hu => hys u (by simp [hu]))
        fun _ => hx r y hy

theorem calm_sameEntries {pairs : List (Value × Value)} (hkeys : ∀ p ∈ pairs, p.1.Sound)
    (hvalues : ∀ p ∈ pairs, Comparable host site p.2) (hb : b.Sound) :
    Calm host (sameEntries host site pairs b) := by
  induction pairs with
  | nil =>
    rw [sameEntries]
    trivial
  | cons p rest ih =>
    obtain ⟨k, v⟩ := p
    rw [sameEntries]
    refine (hb.safe_lookup (hkeys (k, v) (by simp))).bind fun found hfound => ?_
    cases found with
    | none => trivial
    | some w =>
      refine (hvalues (k, v) (by simp)).calm_equal (hfound w rfl) fun same => ?_
      exact Lands.ite
        (fun _ => ih (fun q hq => hkeys q (by simp [hq])) fun q hq => hvalues q (by simp [hq]))
        fun _ => trivial

theorem safe_compareItems {xs ys : List Value} (hxs : ∀ x ∈ xs, Comparable host site x)
    (hys : ∀ y ∈ ys, y.Sound) (r : Relation) :
    Safe host Sound (compareItems host site r xs ys) := by
  have hsame := calm_sameItems hxs hys
  cases r with
  | eq | ne =>
    exact Lands.ite (fun _ => hsame.bind fun _ _ => sound_bool _) fun _ => sound_bool _
  | _ => exact safe_orderItems hxs hys _

theorem safe_compareEntries {pairs : List (Value × Value)} (hkeys : ∀ p ∈ pairs, p.1.Sound)
    (hvalues : ∀ p ∈ pairs, Comparable host site p.2) (ha : a.Sound) (hb : b.Sound)
    (r : Relation) : Safe host Sound (compareEntries host site r pairs a b) := by
  have hsame := calm_sameEntries hkeys hvalues hb
  cases r with
  | eq | ne =>
    refine hb.calm_len.bind fun n _ => ?_
    exact Lands.ite (fun _ => hsame.bind fun _ _ => sound_bool _) fun _ => sound_bool _
  | _ => exact safe_compareByMethods ha hb _

theorem entries?_of_entriesOfBoth? {pairs : List (Value × Value)}
    (h : entriesOfBoth? site a b = some pairs) : a.entries? site = some pairs := by
  unfold entriesOfBoth? at h
  split at h
  · rename_i hx _
    rw [hx, ← h]
  · cases h

/-- Sound values can be compared. -/
theorem Sound.comparable (ha : a.Sound) : Comparable host site a := by
  -- the parts that a comparison goes on to weigh less than the left operand
  induction hw : a.weight using Nat.strongRecOn generalizing a with
  | _ n ih =>
    intro r b hb
    rw [compareWith_eq]
    split
    · exact sound_bool _
    · split
      · rename_i xs ys hi
        obtain ⟨hxs, hys⟩ := member_of_itemsOfBoth? hi
        have hsound : ∀ y ∈ ys, y.Sound := fun y hy => hb.of_part (.member (hys y hy))
        refine safe_compareItems (fun x hx => ?_) hsound r
        have hlt := (weight_lt_of_mem hx).trans (weightItems_itemsOfBoth hi)
        exact ih x.weight (hw ▸ hlt) (ha.of_part (.member (hxs x hx))) rfl
      · split
        · rename_i pairs he
          have hsound := ha.entries (entries?_of_entriesOfBoth? he)
          refine safe_compareEntries (fun p hp => (hsound p hp).1) (fun p hp => ?_) ha hb r
          have hlt := (weight_snd_lt_of_mem hp).trans (weightPairs_entriesOfBoth he)
          exact ih p.2.weight (hw ▸ hlt) (hsound p hp).2 rfl
        · exact safe_compareByMethods ha hb r

theorem Sound.calm_equals (ha : a.Sound) (hb : b.Sound) : Calm host (a.equals host site b) :=
  (ha.comparable .eq b hb).bind fun _ hequal => hequal.calm_isTruthy

theorem Sound.calm_anyEqual (hv : v.Sound) {items : List Value} (h : ∀ w ∈ items, w.Sound) :
    Calm host (anyEqual host site v items) := by
  induction items with
  | nil => trivial
  | cons w rest ih =>
    rw [anyEqual]
    refine ((h w (by simp)).calm_equals hv).bind fun same _ => ?_
    exact Lands.ite (fun _ => trivial) fun _ => ih fun u hu => h u (by simp [hu])

/-! ## Membership, items and attributes -/

theorem Sound.calm_contains (hv : v.Sound) (hw : w.Sound) :
    Calm host (v.contains host site w) := by
  cases v with
  | str s => cases w <;> trivial
  | tuple id items => exact hw.calm_anyEqual (sound_tuple.mp hv)
  | list id items => exact hw.calm_anyEqual (sound_list.mp hv)
  | nativeList id items => exact hw.calm_anyEqual (hv.listItems rfl)
  | dict id entries => exact hw.safe_hashKey.bind fun _ _ => trivial
  | nativeDict id members => trivial
  | object id c fields =>
    exact hv.safe_specialOr "__contains__" [w] (fun u hu => hu.calm_isTruthy) trivial
  | temporal id t =>
    exact hv.safe_specialOr "__contains__" [w] (fun u hu => hu.calm_isTruthy) trivial
  | _ => trivial

theorem safe_pick {α : Type} (sequence : String) (items : List α) (index : Value) :
    Safe host (· ∈ items) (pick sequence items index) := by
  have hplace : Calm host (place sequence items.length index) := by
    unfold place
    split
    · trivial
    · exact Lands.ite (fun _ => trivial) fun _ => trivial
  refine hplace.bind fun i _ => ?_
  cases hi : items[i]? with
  | none => trivial
  | some a => exact List.mem_of_getElem? hi

theorem Sound.safe_getItem (hv : v.Sound) (hk : k.Sound) :
    Safe host Sound (v.getItem host site k) := by
  cases v with
  | str s => exact (safe_pick "str" s.toList k).bind fun _ _ => sound_str _
  | tuple id items => exact (safe_pick "tuple" items k).imp (sound_tuple.mp hv)
  | list id items => exact (safe_pick "list" items k).imp (sound_list.mp hv)
  | nativeList id items => exact (safe_pick "list" items k).bind fun j _ => sound_ofJson site j
  | dict id entries =>
    refine (hv.safe_lookup hk).bind fun found hfound => ?_
    cases found with
    | none =>
      dsimp only
      split <;> trivial
    | some w => exact hfound w rfl
  | nativeDict id members =>
    refine (hv.safe_lookup hk).bind fun found hfound => ?_
    cases found with
    | none =>
      dsimp only
      split <;> trivial
    | some w => exact hfound w rfl
  | object id c fields =>
    rw [getItem.eq_def]
    dsimp only
    split
    · rename_i m hm
      exact hv.safe_special hm [k]
    · trivial
  | temporal id t =>
    rw [getItem.eq_def]
    dsimp only
    split
    · rename_i m hm
      exact hv.safe_special hm [k]
    · trivial
  | _ => trivial

theorem sound_optionalField (part : Option Int) : (Temporal.optionalField part).Sound := by
  cases part with
  | none => exact sound_null
  | some n => exact sound_int n

theorem sound_field? {t : Temporal} {name : String} {w : Value} (h : t.field? name = some w) :
    w.Sound := by
  have hclock : ∀ c, Temporal.clockField? c name = some w → w.Sound := by
    intro c hc
    unfold Temporal.clockField? at hc
    split at hc <;> cases hc <;> simp
  have hdate : ∀ d, Temporal.dateField? d name = some w → w.Sound := by
    intro d hd
    unfold Temporal.dateField? at hd
    split at hd <;> cases hd <;> simp
  cases t with
  | date d => exact hdate d h
  | datetime t =>
    rcases Option.or_eq_some_iff.mp h with h | ⟨_, h⟩
    · exact hdate t.date h
    · exact hclock t.clock h
  | time c => exact hclock c h
  | duration d =>
    unfold Temporal.field? at h
    dsimp only at h
    split at h <;> cases h <;> simp
  | offset o =>
    unfold Temporal.field? Temporal.offsetField? at h
    dsimp only at h
    split at h <;> cases h <;> simp [sound_optionalField]

theorem Sound.field (hv : v.Sound) {name : String} (h : v.field? name = some w) : w.Sound := by
  cases v with
  | object id c fields => exact (sound_object.mp hv).2 _ (Table.mem_of_get? h)
  | temporal id t => exact sound_field? h
  | _ => cases h

theorem Sound.safe_fallbackAttr (hv : v.Sound) (name : String) :
    Safe host Sound (v.fallbackAttr host site name) := by
  unfold fallbackAttr
  split
  · rename_i m hm
    cases m with
    | temporal tm => exact tm.safe_call hv.here _
    | host owner own => exact absurd rfl (Class.method?_ne_host hv.here.classOf_ne_host hm owner own)
  · split
    · split
      · exact sound_ofJson site _
      · trivial
    · trivial
  · trivial

theorem Sound.sound_classOf (hv : v.Sound) : (cls v.classOf).Sound :=
  sound_cls.mpr hv.here.classOf_ne_host

theorem Sound.safe_getAttr (hv : v.Sound) (name : String) :
    Safe host Sound (v.getAttr host site name) := by
  by_cases hc : ∃ c, v = cls c
  · obtain ⟨c, rfl⟩ := hc
    have hne : ∀ name, c ≠ .host name := sound_cls.mp hv
    unfold getAttr
    refine Lands.ite (fun _ => sound_str _) fun _ => ?_
    split
    · rename_i m hm
      exact sound_method.mpr ⟨Class.method?_ne_host hne hm, hv⟩
    · trivial
  · rw [getAttr_eq fun c h => hc ⟨c, h⟩]
    have hfield : Safe host (fun found => ∀ w, found = some w → w.Sound)
        (.ok (v.field? name) : Outcome (Option Value)) := fun w hw => hv.field hw
    refine safe_answerOr hfield (Lands.ite (fun _ => hv.sound_classOf) fun _ => ?_)
    split
    · rename_i m hm
      refine sound_method.mpr ⟨Class.method?_ne_host hv.here.classOf_ne_host hm, ?_⟩
      split
      · exact hv.sound_classOf
      · exact hv
    · exact hv.safe_fallbackAttr name

/-! ## Operators -/

theorem calm_wholeArith (op : BinaryOp) (x y : Int) : Calm host (wholeArith op x y) := by
  unfold wholeArith
  split
  · exact Lands.ite (fun _ => trivial) fun _ => trivial
  · exact Lands.ite (fun _ => trivial) fun _ => trivial
  · trivial
  · trivial
  · trivial

theorem calm_numberArith (op : BinaryOp) (x y : Numeric) : Calm host (numberArith op x y) := by
  unfold numberArith
  split
  · trivial
  · trivial
  · trivial
  · exact Lands.ite (fun _ => trivial) fun _ => trivial
  · exact Lands.ite (fun _ => trivial) fun _ => trivial
  · exact Lands.ite (fun _ => trivial) fun _ => trivial
  · exact Lands.ite (fun _ => trivial) fun _ => Lands.ite (fun _ => trivial) fun _ => trivial
  · split
    · exact (calm_wholeArith op _ _).map fun _ _ => trivial
    · trivial

theorem sound_repeatItems {items : List Value} (h : ∀ v ∈ items, v.Sound) (n : Nat) :
    ∀ v ∈ repeatItems items n, v.Sound := by
  intro v hv
  obtain ⟨l, hl, hv⟩ := List.mem_flatten.mp hv
  rw [(List.mem_replicate.mp hl).2] at hv
  exact h v hv

theorem Sound.safe_repeated (hv : v.Sound) (count : Float) :
    Safe host Sound (repeated site v count) := by
  unfold repeated
  split
  · trivial
  · split
    · exact sound_str _
    · exact sound_tuple.mpr (sound_repeatItems (sound_tuple.mp hv) _)
    · refine sound_list.mpr (sound_repeatItems ?_ _)
      cases hi : v.listItems? site with
      | none => simp
      | some items => exact hv.listItems hi

/-- What a kind answers to an operator is sound. -/
theorem safe_some {x : Outcome Value} (h : Safe host Sound x) :
    Safe host (fun found => ∀ w, found = some w → w.Sound) (x.map some) :=
  h.map fun v hv w hw => by
    cases hw
    exact hv

theorem safe_none : Safe host (fun found => ∀ w, found = some w → w.Sound)
    (.ok none : Outcome (Option Value)) :=
  fun w hw => by cases hw

theorem safe_nativeArith (ha : a.Sound) (hb : b.Sound) (op : BinaryOp) :
    Safe host (fun found => ∀ w, found = some w → w.Sound) (nativeArith site op a b) := by
  unfold nativeArith
  split
  · refine (calm_numberArith op _ _).bind fun found _ w hw => ?_
    obtain ⟨x, _, rfl⟩ := Option.map_eq_some_iff.mp hw
    exact sound_float x
  · exact safe_some (x := .ok _) (sound_bool _)
  · exact safe_some (x := .ok _) (sound_bool _)
  · exact safe_some (x := .ok _) (sound_bool _)
  · exact safe_some (x := .ok _) (sound_str _)
  · refine safe_some (x := .ok _) (sound_tuple.mpr ?_)
    exact List.forall_mem_append.mpr ⟨sound_tuple.mp ha, sound_tuple.mp hb⟩
  · split
    · rename_i hx hy
      refine safe_some (x := .ok _) (sound_list.mpr ?_)
      exact List.forall_mem_append.mpr ⟨ha.listItems hx, hb.listItems hy⟩
    · exact safe_none
  · exact Lands.ite (fun _ => safe_some (ha.safe_repeated _)) fun _ => safe_none
  · exact safe_none

theorem safe_nativeReflected (hb : b.Sound) (op : BinaryOp) (a : Value) :
    Safe host (fun found => ∀ w, found = some w → w.Sound) (nativeReflected site op a b) := by
  unfold nativeReflected
  split
  · exact Lands.ite (fun _ => safe_some (hb.safe_repeated _)) fun _ => safe_none
  · exact safe_none

theorem safe_binary (ha : a.Sound) (hb : b.Sound) (op : BinaryOp) :
    Safe host Sound (binary host site op a b) := by
  rw [binary_eq]
  refine safe_answerOr (safe_nativeArith ha hb op) ?_
  refine safe_answerOr (ha.safe_askOperator _ b) ?_
  refine safe_answerOr (safe_nativeReflected hb op a) ?_
  exact safe_answerOr (hb.safe_askOperator _ a) trivial

theorem Sound.safe_unaryByMethod (hv : v.Sound) (name symbol : String) :
    Safe host Sound (unaryByMethod host site name symbol v) := by
  unfold unaryByMethod
  split
  · rename_i m hm
    exact hv.safe_special hm []
  · trivial

theorem Sound.safe_unary (hv : v.Sound) (op : UnaryOp) : Safe host Sound (unary host site op v) := by
  unfold unary
  split
  · exact sound_float _
  · exact sound_int _
  · exact hv.safe_unaryByMethod _ _
  · exact sound_float _
  · exact sound_int _
  · exact hv.safe_unaryByMethod _ _
  · split
    · exact sound_int _
    · exact hv.safe_unaryByMethod _ _

theorem safe_compareBy (ha : a.Sound) (hb : b.Sound) (op : CompareOp) :
    Safe host Sound (compareBy host site op a b) := by
  unfold compareBy
  split
  · exact ha.comparable _ b hb
  · trivial

end Value

end FilterLang
