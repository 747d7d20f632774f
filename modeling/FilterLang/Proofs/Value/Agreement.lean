import FilterLang.Proofs.Value.Alike
import FilterLang.Proofs.Value.Pruning
/-!
Operations do not see what lambdas keep and do not read.

Operation by operation: done on pruned values it gives the same, or a value that agrees
with what it gives on the values themselves. Only instances of the embedding program's
classes can answer with values of their own choice, and there the program's uniformity is
used. All other differences would have to come from looking into a lambda, and no
operation but its call does that.
-/

namespace FilterLang

open Fallible

namespace Value

/-! ## Parts -/

theorem map_prune_ofItems (site : Identity) (items : List Json) :
    (ofItems site items).map prune = ofItems site items := by
  apply List.ext_getElem?
  intro i
  rw [ofItems, List.getElem?_map, List.getElem?_mapIdx, Option.map_map]
  refine congrFun (congrArg Option.map ?_) items[i]?
  funext j
  exact prune_ofJson (site.child i) j

theorem map_prunePair_ofMembers (site : Identity) (members : List (String × Json)) :
    (ofMembers site members).map prunePair = ofMembers site members := by
  rw [ofMembers, List.map_map]
  refine List.map_congr_left fun m _ => ?_
  rw [Function.comp_apply, prunePair_eq]
  exact Prod.ext rfl (prune_ofJson _ m.2)

theorem listItems?_prune (site : Identity) (v : Value) :
    v.prune.listItems? site = (v.listItems? site).map (List.map prune) := by
  cases v with
  | list id items => exact congrArg some (pruneItems_eq_map items)
  | nativeList id items => exact congrArg some (map_prune_ofItems site items).symm
  | _ => rfl

theorem entries?_prune (site : Identity) (v : Value) :
    v.prune.entries? site = (v.entries? site).map (List.map prunePair) := by
  cases v with
  | dict id d => exact congrArg some (pruneEntries_eq_map d.entries)
  | nativeDict id members => exact congrArg some (map_prunePair_ofMembers site members).symm
  | _ => rfl

theorem iterate_prune (site : Identity) (v : Value) :
    v.prune.iterate site = (v.iterate site).map (List.map prune) := by
  cases v with
  | str s =>
    refine congrArg Except.ok ?_
    rw [List.map_map]
    rfl
  | tuple id items | list id items => exact congrArg Except.ok (pruneItems_eq_map items)
  | dict id d =>
    refine congrArg Except.ok ?_
    rw [Dict.keys, Dict.keys, pruneEntries_eq_map, List.map_map, List.map_map]
    exact List.map_congr_left fun e _ => congrArg Prod.fst (prunePair_eq e)
  | nativeList id items => exact congrArg Except.ok (map_prune_ofItems site items).symm
  | nativeDict id members =>
    refine congrArg Except.ok ?_
    rw [List.map_map]
    rfl
  | _ => rfl

/-! ## Special methods -/

variable {host : Host}

/-- A special method that both forms of a value have goes alike. -/
theorem special_consistent (hhost : host.Uniform) (site : Identity) (v : Value) (name : String)
    (args : List Value) (otherwise : Outcome Value) :
    Consistent
      (match v.prune.special? host name with
        | some m => m.call host site v.prune (args.map prune)
        | none => otherwise)
      (match v.special? host name with
        | some m => m.call host site v args
        | none => otherwise) := by
  rw [special?_prune]
  cases v.special? host name with
  | none => exact .refl otherwise
  | some m => exact m.call_prune hhost site v args

/-- A special method is asked, and what it answers is read in a way that pruning does not
change. -/
theorem special_prune {α : Type} (hhost : host.Uniform) (site : Identity) (v : Value)
    (name : String) (args : List Value) {next : Value → Outcome α}
    (hnext : ∀ w : Value, next w.prune = next w) (otherwise : Outcome α) :
    (match v.prune.special? host name with
      | some m => m.call host site v.prune (args.map prune) >>= next
      | none => otherwise) =
    (match v.special? host name with
      | some m => m.call host site v args >>= next
      | none => otherwise) := by
  rw [special?_prune]
  cases v.special? host name with
  | none => rfl
  | some m => exact (m.call_prune hhost site v args).bind_eq fun a b h => h.observe next hnext

/-! ## Length and truth -/

theorem len_prune (hhost : host.Uniform) (site : Identity) (v : Value) :
    v.prune.len host site = v.len host site := by
  cases v with
  | tuple id items | list id items =>
    simp only [prune, len, pruneItems_eq_map, List.length_map]
  | dict id d => simp only [prune_dict, len, Dict.length, Dict.map, List.length_map]
  | object id c fields =>
    refine special_prune hhost site (object id c fields) "__len__" [] (fun w => ?_) _
    rw [lengthResult, lengthResult, integer?_prune]
  | _ => rfl

theorem isTruthy_prune (hhost : host.Uniform) (site : Identity) (v : Value) :
    v.prune.isTruthy host site = v.isTruthy host site := by
  cases v with
  | tuple id items | list id items =>
    simp only [prune, isTruthy, pruneItems_eq_map, List.isEmpty_map]
  | dict id d => simp only [prune_dict, isTruthy, Dict.map, List.isEmpty_map]
  | object id c fields =>
    -- without a truth of its own an instance is asked for its length
    have hlen := len_prune hhost site (object id c fields)
    have hspecial := special?_prune host (object id c fields) "__len__"
    rw [prune] at hlen hspecial
    simp only [prune, isTruthy, hlen, hspecial]
    refine special_prune hhost site (object id c fields) "__nonzero__" [] (fun w => ?_) _
    cases w <;> rfl
  | _ => rfl

/-! ## Texts -/

theorem reprInstance_prune (hhost : host.Uniform) (site : Identity) (v : Value) :
    reprInstance host site v.prune = reprInstance host site v := by
  rw [reprInstance, typeName_prune]
  refine special_prune hhost site v "__repr__" [] (fun w => ?_) _
  cases w <;> rfl

mutual

theorem repr_prune (hhost : host.Uniform) (site : Identity) :
    (v : Value) → v.prune.repr host site = v.repr host site
  | tuple _ items => by rw [prune, repr, repr, reprItems_prune hhost site items]
  | list _ items => by rw [prune, repr, repr, reprItems_prune hhost site items]
  | dict _ ⟨entries, index⟩ => by rw [prune, repr, repr, reprEntries_prune hhost site entries]
  | method _ receiver m => by rw [prune, repr, repr, typeName_prune]
  | object id c fields => reprInstance_prune hhost site (object id c fields)
  | null | notImplemented | bool _ | float _ | str _ | nativeList .. | nativeDict .. | function _
  | lambda .. | cls _ | temporal .. => rfl

theorem reprItems_prune (hhost : host.Uniform) (site : Identity) :
    (items : List Value) →
      reprItems host site (pruneItems items) = reprItems host site items
  | [] => rfl
  | v :: rest => by
    rw [pruneItems, reprItems, reprItems, repr_prune hhost site v, reprItems_prune hhost site rest]

theorem reprEntries_prune (hhost : host.Uniform) (site : Identity) :
    (entries : List (Value × Value)) →
      reprEntries host site (pruneEntries entries) = reprEntries host site entries
  | [] => rfl
  | e :: rest => by
    rw [pruneEntries, reprEntries, reprEntries, reprEntry_prune hhost site e,
      reprEntries_prune hhost site rest]

theorem reprEntry_prune (hhost : host.Uniform) (site : Identity) :
    (e : Value × Value) → reprEntry host site (prunePair e) = reprEntry host site e
  | (k, v) => by
    rw [prunePair, reprEntry, reprEntry, repr_prune hhost site k, repr_prune hhost site v]

end

theorem toText_prune (hhost : host.Uniform) (site : Identity) (v : Value) :
    v.prune.toText host site = v.toText host site := by
  have hrepr := repr_prune hhost site v
  cases v with
  | object id c fields =>
    rw [prune] at hrepr
    simp only [prune, toText, hrepr]
    refine special_prune hhost site (object id c fields) "__str__" [] (fun w => ?_) _
    cases w <;> rfl
  | str s | temporal id t => rfl
  | _ => exact hrepr

/-! ## Hash keys and dicts -/

mutual

theorem hashKeyWith_prune (hhost : host.Uniform) (site : Identity)
    {next : Value → Outcome HashKey} (hnext : ∀ v : Value, next v.prune = next v) :
    (v : Value) → hashKeyWith host site next v.prune = hashKeyWith host site next v
  | tuple _ items => by
    rw [prune, hashKeyWith, hashKeyWith, hashKeysWith_prune hhost site hnext items]
  | object id c fields => by
    refine special_prune hhost site (object id c fields) "__hash__" [] (fun w => ?_) _
    rw [hnext]
  | null | notImplemented | bool _ | float _ | str _ | list .. | dict .. | nativeList ..
  | nativeDict .. | function _ | lambda .. | method .. | cls _ | temporal .. => rfl

theorem hashKeysWith_prune (hhost : host.Uniform) (site : Identity)
    {next : Value → Outcome HashKey} (hnext : ∀ v : Value, next v.prune = next v) :
    (items : List Value) →
      hashKeysWith host site next (pruneItems items) = hashKeysWith host site next items
  | [] => rfl
  | v :: rest => by
    rw [pruneItems, hashKeysWith, hashKeysWith, hashKeyWith_prune hhost site hnext v,
      hashKeysWith_prune hhost site hnext rest]

end

theorem hashKeyWithin_prune (hhost : host.Uniform) (site : Identity) (hops : Nat) (v : Value) :
    hashKeyWithin host site hops v.prune = hashKeyWithin host site hops v := by
  -- each hop hands what a method returned to the hops that are left
  induction hops generalizing v with
  | zero => exact hashKeyWith_prune hhost site (fun _ => rfl) v
  | succ hops ih => exact hashKeyWith_prune hhost site ih v

/-- A value is found in a dict under the key of its pruned form. -/
theorem hashKey_prune (hhost : host.Uniform) (site : Identity) (v : Value) :
    v.prune.hashKey host site = v.hashKey host site :=
  hashKeyWithin_prune hhost site maxHashHops v

theorem insert_prune (hhost : host.Uniform) (site : Identity) (d : Dict) (k v : Value) :
    (d.map prune).insert host site k.prune v.prune =
      (d.insert host site k v).map (Dict.map prune) := by
  rw [Dict.insert_eq, Dict.insert_eq, hashKey_prune hhost]
  cases k.hashKey host site with
  | error e => rfl
  | ok hash => exact congrArg Except.ok (Dict.set_map prune d hash k v)

theorem lookup_prune (hhost : host.Uniform) (site : Identity) (v k : Value) :
    v.prune.lookup host site k.prune = (v.lookup host site k).map (Option.map prune) := by
  cases v with
  | dict id d =>
    simp only [prune_dict, lookup, Dict.get, hashKey_prune hhost, Dict.find?_map]
    cases k.hashKey host site <;> rfl
  | nativeDict id members =>
    refine congrArg Except.ok ?_
    rw [text?_prune]
    cases k.text? with
    | none => rfl
    | some name =>
      rw [Option.bind_some, Option.map_map]
      refine congrFun (congrArg Option.map ?_) (Table.get? members name)
      funext j
      exact (prune_ofJson site j).symm
  | _ => rfl

/-! ## Answers -/

/-- What two searches found: nothing, or values that agree. -/
def FoundAlike (found found' : Option Value) : Prop :=
  found.map prune = found'.map prune

theorem foundAlike_prune (found : Option Value) : FoundAlike (found.map prune) found := by
  cases found with
  | none => rfl
  | some v => exact congrArg some (prune_prune v)

/-- What a special method answers; `NotImplemented` is no answer. -/
def answer? : Value → Option Value
  | notImplemented => none
  | v => some v

theorem answer?_prune (v : Value) : v.prune.answer? = v.answer?.map prune := by
  cases v <;> rfl

theorem askOperator_eq (host : Host) (site : Identity) (a : Value) (name : String) (b : Value) :
    askOperator host site a name b =
      match a.special? host name with
      | none => .ok none
      | some m => m.call host site a [b] >>= fun v => .ok v.answer? := by
  rw [askOperator.eq_def]
  cases a.special? host name with
  | none => rfl
  | some m =>
    dsimp only
    refine congrArg _ (funext fun v => ?_)
    cases v <;> rfl

theorem askOperator_prune (hhost : host.Uniform) (site : Identity) (a : Value) (name : String)
    (b : Value) :
    Related FoundAlike (askOperator host site a.prune name b.prune)
      (askOperator host site a name b) := by
  rw [askOperator_eq, askOperator_eq, special?_prune]
  cases a.special? host name with
  | none => exact .succeeded rfl
  | some m =>
    refine (m.call_prune hhost site a [b]).bind fun v w hvw => .succeeded ?_
    refine hvw.observe (fun u => u.answer?.map prune) fun u => ?_
    rw [answer?_prune]
    exact foundAlike_prune u.answer?

theorem consistent_answerOr {x y : Outcome (Option Value)} {n m : Outcome Value}
    (h : Related FoundAlike x y) (hnext : Consistent n m) :
    Consistent (answerOr x n) (answerOr y m) := by
  refine h.bind fun found found' hfound => ?_
  cases found with
  | none =>
    cases found' with
    | none => exact hnext
    | some w' => cases hfound
  | some w =>
    cases found' with
    | none => cases hfound
    | some w' => exact .succeeded (Option.some.inj hfound)

/-! ## Comparison -/

theorem scalarEqual?_prune (a b : Value) : scalarEqual? a.prune b.prune = scalarEqual? a b := by
  cases a <;> cases b <;> rfl

theorem scalarCompare?_prune (r : Relation) (a b : Value) :
    scalarCompare? r a.prune b.prune = scalarCompare? r a b := by
  cases r with
  | eq => exact scalarEqual?_prune a b
  | ne => exact congrArg (Option.map (!·)) (scalarEqual?_prune a b)
  | _ => cases a <;> cases b <;> rfl

theorem itemsOfBoth?_list {site : Identity} {a : Value} {xs : List Value}
    (h : a.listItems? site = some xs) (b : Value) :
    itemsOfBoth? site a b = (b.listItems? site).map fun ys => (xs, ys) := by
  cases a with
  | list | nativeList =>
    cases h
    cases b <;> rfl
  | _ => cases h

theorem itemsOfBoth?_prune (site : Identity) (a b : Value) :
    itemsOfBoth? site a.prune b.prune =
      (itemsOfBoth? site a b).map (Prod.map (List.map prune) (List.map prune)) := by
  -- lists of either form first; what is left to compare item by item are tuples
  cases hx : a.listItems? site with
  | some xs =>
    have hx' : a.prune.listItems? site = some (xs.map prune) := by
      rw [listItems?_prune, hx, Option.map_some]
    rw [itemsOfBoth?_list hx, itemsOfBoth?_list hx', listItems?_prune]
    cases b.listItems? site <;> rfl
  | none =>
    cases a with
    | tuple id xs =>
      cases b with
      | tuple id' ys => simp [prune, itemsOfBoth?, pruneItems_eq_map]
      | _ => rfl
    | list | nativeList => cases hx
    | _ => cases b <;> rfl

theorem entriesOfBoth?_prune (site : Identity) (a b : Value) :
    entriesOfBoth? site a.prune b.prune =
      (entriesOfBoth? site a b).map (List.map prunePair) := by
  rw [entriesOfBoth?, entriesOfBoth?, entries?_prune site a, entries?_prune site b]
  cases a.entries? site <;> cases b.entries? site <;> rfl

/-- The comparison by methods asks one operand, then the other, then falls back. -/
theorem compareByMethods_eq (host : Host) (site : Identity) (r : Relation) (a b : Value) :
    compareByMethods host site r a b =
      answerOr (askOperator host site a r.method b)
        (answerOr (askOperator host site b r.flip.method a)
          (match r with
            | .eq => .ok (.bool (a.identical b))
            | .ne => .ok (.bool (!a.identical b))
            | r => .ok (.bool (r.accepts (compare a.typeName b.typeName))))) := by
  cases r <;> rfl

theorem compareByMethods_prune (hhost : host.Uniform) (site : Identity) (r : Relation)
    (a b : Value) :
    Consistent (compareByMethods host site r a.prune b.prune)
      (compareByMethods host site r a b) := by
  rw [compareByMethods_eq, compareByMethods_eq, identical_prune, typeName_prune, typeName_prune]
  exact consistent_answerOr (askOperator_prune hhost site a _ b)
    (consistent_answerOr (askOperator_prune hhost site b _ a) (.refl _))

/-- Two values are compared like their pruned forms, by every relation. -/
def ComparesPruned (host : Host) (site : Identity) (a : Value) : Prop :=
  ∀ r b, Consistent (compareWith host site r a.prune b.prune) (compareWith host site r a b)

theorem equal_prune (hhost : host.Uniform) {site : Identity} {a b : Value} {α : Type}
    (h : ComparesPruned host site a) (next : Bool → Outcome α) :
    (compareWith host site .eq a.prune b.prune >>= fun equal =>
      equal.isTruthy host site >>= next) =
    (compareWith host site .eq a b >>= fun equal => equal.isTruthy host site >>= next) :=
  (h .eq b).bind_eq fun v w hvw => by
    rw [hvw.observe (isTruthy host site) (isTruthy_prune hhost site)]

theorem sameItems_prune (hhost : host.Uniform) {site : Identity} {xs : List Value}
    (h : ∀ x ∈ xs, ComparesPruned host site x) (ys : List Value) :
    sameItems host site (xs.map prune) (ys.map prune) = sameItems host site xs ys := by
  induction xs generalizing ys with
  | nil => simp [sameItems]
  | cons x xs ih =>
    cases ys with
    | nil => simp [sameItems]
    | cons y ys =>
      rw [List.map_cons, List.map_cons, sameItems, sameItems, ih fun v hv => h v (by simp [hv])]
      exact equal_prune hhost (h x (by simp)) _

theorem orderItems_prune (hhost : host.Uniform) {site : Identity} (r : Relation)
    {xs : List Value} (h : ∀ x ∈ xs, ComparesPruned host site x) (ys : List Value) :
    Consistent (orderItems host site r (xs.map prune) (ys.map prune))
      (orderItems host site r xs ys) := by
  induction xs generalizing ys with
  | nil => simp [orderItems, Consistent.refl]
  | cons x xs ih =>
    cases ys with
    | nil => simp [orderItems, Consistent.refl]
    | cons y ys =>
      have hx := h x (by simp)
      rw [List.map_cons, List.map_cons, orderItems, orderItems]
      refine (hx .eq y).bind fun v w hvw => ?_
      rw [hvw.observe (isTruthy host site) (isTruthy_prune hhost site)]
      refine Related.bind_same _ fun equal => ?_
      cases equal with
      | true => exact ih (fun v hv => h v (by simp [hv])) ys
      | false => exact hx r y

theorem sameEntries_prune (hhost : host.Uniform) {site : Identity}
    {pairs : List (Value × Value)} (h : ∀ p ∈ pairs, ComparesPruned host site p.2)
    (other : Value) :
    sameEntries host site (pairs.map prunePair) other.prune =
      sameEntries host site pairs other := by
  induction pairs with
  | nil => simp [sameEntries]
  | cons p pairs ih =>
    obtain ⟨k, v⟩ := p
    have hv : ComparesPruned host site v := h (k, v) (by simp)
    rw [List.map_cons, prunePair, sameEntries, sameEntries, lookup_prune hhost,
      ih fun q hq => h q (by simp [hq])]
    cases other.lookup host site k with
    | error e => rfl
    | ok found =>
      cases found with
      | none => rfl
      | some w => exact equal_prune hhost hv _

theorem weight_lt_of_mem {x : Value} {xs : List Value} (h : x ∈ xs) :
    x.weight < weightItems xs := by
  induction xs with
  | nil => cases h
  | cons y ys ih =>
    rw [weightItems]
    rcases List.mem_cons.mp h with rfl | h
    · omega
    · have := ih h
      omega

theorem weight_snd_lt_of_mem {p : Value × Value} {pairs : List (Value × Value)}
    (h : p ∈ pairs) : p.2.weight < weightPairs pairs := by
  induction pairs with
  | nil => cases h
  | cons q rest ih =>
    obtain ⟨k, v⟩ := q
    rw [weightPairs, weightPair]
    rcases List.mem_cons.mp h with rfl | h
    · show v.weight < _
      omega
    · have := ih h
      omega

/-- Two values are compared like their pruned forms. -/
theorem compareWith_prune (hhost : host.Uniform) (site : Identity) (a : Value) :
    ComparesPruned host site a := by
  -- the parts that a comparison goes on to weigh less than the left operand
  induction hw : a.weight using Nat.strongRecOn generalizing a with
  | _ n ih =>
    intro r b
    rw [compareWith_eq, compareWith_eq, scalarCompare?_prune, itemsOfBoth?_prune,
      entriesOfBoth?_prune]
    cases scalarCompare? r a b with
    | some answer => exact .refl _
    | none =>
      cases hi : itemsOfBoth? site a b with
      | some both =>
        obtain ⟨xs, ys⟩ := both
        have hxs : ∀ x ∈ xs, ComparesPruned host site x := by
          intro x hx
          have hlt := (weight_lt_of_mem hx).trans (weightItems_itemsOfBoth hi)
          exact ih x.weight (hw ▸ hlt) x rfl
        have hsame := sameItems_prune hhost hxs ys
        cases r with
        | eq | ne =>
          simp only [Option.map_some, Prod.map, compareItems, List.length_map, hsame]
          exact .refl _
        | _ => exact orderItems_prune hhost _ hxs ys
      | none =>
        cases he : entriesOfBoth? site a b with
        | some pairs =>
          have hpairs : ∀ p ∈ pairs, ComparesPruned host site p.2 := by
            intro p hp
            have hlt := (weight_snd_lt_of_mem hp).trans (weightPairs_entriesOfBoth he)
            exact ih p.2.weight (hw ▸ hlt) p.2 rfl
          have hsame := sameEntries_prune hhost hpairs b
          cases r with
          | eq | ne =>
            simp only [Option.map_some, Option.map_none, compareEntries, List.length_map, hsame,
              len_prune hhost]
            exact .refl _
          -- dicts have no order of their own
          | _ => exact compareByMethods_prune hhost site _ a b
        | none => exact compareByMethods_prune hhost site r a b

theorem equals_prune (hhost : host.Uniform) (site : Identity) (a b : Value) :
    equals host site a.prune b.prune = equals host site a b :=
  (compareWith_prune hhost site a .eq b).bind_eq fun _ _ h =>
    h.observe (isTruthy host site) (isTruthy_prune hhost site)

theorem compareBy_prune (hhost : host.Uniform) (site : Identity) (op : CompareOp) (a b : Value) :
    Consistent (compareBy host site op a.prune b.prune) (compareBy host site op a b) := by
  rw [compareBy, compareBy]
  cases op.relation? with
  | none => exact .failed _
  | some r => exact compareWith_prune hhost site a r b

theorem anyEqual_prune (hhost : host.Uniform) (site : Identity) (item : Value)
    (items : List Value) :
    anyEqual host site item.prune (items.map prune) = anyEqual host site item items := by
  induction items with
  | nil => rfl
  | cons v rest ih => rw [List.map_cons, anyEqual, anyEqual, equals_prune hhost, ih]

end Value

end FilterLang
