import FilterLang.Proofs.Value.Equality
/-!
Hashing agrees with equality.

A value without lists and dicts in it has a hash key, and two such values have the same one
exactly when they are equal (`hashKey_eq_iff_equals`). A hash key says what the content of a
value says, except that it leaves out the class of an object that is known by its identity;
`owner` puts it back.
-/

namespace FilterLang

open Fallible

namespace HashKey

/-- A key without the class that stands before an identity. -/
def bare : HashKey → HashKey
  | .instanceOf _ (.identity id) => .identity id
  | k => k

/-- A key with the class that the owner of an identity has. -/
def tagged (owner : Identity → Class) : HashKey → HashKey
  | .identity id => .instanceOf (owner id) (.identity id)
  | k => k

def isTuple : HashKey → Bool
  | emptyTuple | tuple .. => true
  | _ => false

theorem isTuple_ofTuple (keys : List HashKey) : (ofTuple keys).isTuple = true := by
  cases keys <;> rfl

theorem ofTuple_injective {keys keys' : List HashKey} (h : ofTuple keys = ofTuple keys') :
    keys = keys' := by
  induction keys generalizing keys' with
  | nil => cases keys' <;> first | rfl | cases h
  | cons k rest ih =>
    cases keys' with
    | nil => cases h
    | cons k' rest' =>
      obtain ⟨hk, hrest⟩ := HashKey.tuple.inj h
      rw [hk, ih hrest]

end HashKey

namespace Value

/-- Whether a value that is no list, dict or object can stand in a key: its number is one, and
its identity, if it has one, is that of an object of its class. -/
def Hashed (owner : Identity → Class) : Value → Prop
  | null | notImplemented | bool _ | str _ | cls _ | function _ | tuple .. => True
  | float x => x.isNumber = true
  | lambda id .. => owner id = .function
  | method id .. => owner id = .method
  | temporal id t => owner id = t.cls
  | _ => False

variable {host : Host} {site : Identity} {owner : Identity → Class} {a b : Value}

/-- Hashable values with owned identities, to any depth of tuples. -/
abbrev HashedThroughout (owner : Identity → Class) (v : Value) : Prop :=
  v.Throughout Member (Hashed owner)

theorem Hashed.regular {v : Value} (h : v.Hashed owner) : v.Regular owner := by
  cases v with
  | float | temporal => exact h
  | dict | nativeDict | object => exact h.elim
  | _ => trivial

/-- A value without parts has its own key as hash key, without the class of an identity, which
can be put back. -/
structure Leaf (owner : Identity → Class) (v : Value) : Prop where
  hash : ∀ host site next, hashKeyWith host site next v = .ok v.ownKey.bare
  content : v.content = .key v.ownKey
  tagged : v.ownKey.bare.tagged owner = v.ownKey
  noTuple : v.ownKey.bare.isTuple = false

/-- What can stand in a key is a tuple or has no parts. -/
theorem Hashed.cases {v : Value} (h : v.Hashed owner) :
    (∃ id items, v = tuple id items) ∨ v.Leaf owner := by
  cases v with
  | tuple id items => exact Or.inl ⟨id, items, rfl⟩
  | list | dict | nativeList | nativeDict | object => exact h.elim
  | lambda id params body closure =>
    have howner : owner id = .function := h
    exact Or.inr ⟨fun _ _ _ => rfl, rfl, by simp [ownKey, HashKey.bare, HashKey.tagged, howner], rfl⟩
  | method id receiver m =>
    have howner : owner id = .method := h
    exact Or.inr ⟨fun _ _ _ => rfl, rfl, by simp [ownKey, HashKey.bare, HashKey.tagged, howner], rfl⟩
  | temporal id t =>
    cases t with
    | offset o =>
      have howner : owner id = .relativedelta := h
      exact Or.inr ⟨fun _ _ _ => rfl, rfl,
        by simp [ownKey, Temporal.hashKey?, Temporal.cls, HashKey.bare, HashKey.tagged, howner], rfl⟩
    | _ => exact Or.inr ⟨fun _ _ _ => rfl, rfl, rfl, rfl⟩
  | _ => exact Or.inr ⟨fun _ _ _ => rfl, rfl, rfl, rfl⟩

mutual

/-- The hash key of a value that can stand in a key. -/
def hashOf : Value → HashKey
  | tuple _ items => .ofTuple (hashesOf items)
  | v => v.ownKey.bare

def hashesOf : List Value → List HashKey
  | [] => []
  | v :: rest => v.hashOf :: hashesOf rest

end

theorem hashesOf_eq_map (items : List Value) : hashesOf items = items.map hashOf := by
  induction items with
  | nil => rfl
  | cons v rest ih => rw [hashesOf, ih, List.map_cons]

/-- A value without parts has one key: that of its content, up to the class of an identity. -/
theorem Leaf.hashOf_eq {v : Value} (h : v.Leaf owner) : v.hashOf = v.ownKey.bare := by
  cases v with
  | tuple id items => cases h.content
  | _ => rfl

/-- Hashing succeeds, whatever the embedding program is. -/
theorem hashKeyWith_eq_hashOf (next : Value → Outcome HashKey) {v : Value}
    (h : v.HashedThroughout owner) : hashKeyWith host site next v = .ok v.hashOf := by
  have hitems {items : List Value}
      (ih : ∀ w ∈ items, hashKeyWith host site next w = .ok w.hashOf) :
      hashKeysWith host site next items = .ok (hashesOf items) := by
    induction items with
    | nil => rfl
    | cons w rest ihrest =>
      rw [hashKeysWith, ih w (by simp), ihrest fun u hu => ih u (by simp [hu])]
      rfl
  induction hw : v.weight using Nat.strongRecOn generalizing v with
  | _ n ih =>
    subst hw
    rcases h.here.cases with ⟨id, items, rfl⟩ | hleaf
    · rw [hashKeyWith, hitems fun w hw => ih w.weight ?_ (h.of_part (.tuple id hw)) rfl]
      · rfl
      · have := weight_lt_of_mem hw
        rw [weight]
        omega
    · rw [hleaf.hash, hleaf.hashOf_eq]

/-- Lists of keys and lists of contents are the same for the same lists. -/
theorem map_hashOf_eq_iff {xs ys : List Value}
    (h : ∀ x ∈ xs, ∀ y ∈ ys, x.hashOf = y.hashOf ↔ x.content = y.content) :
    xs.map hashOf = ys.map hashOf ↔ xs.map content = ys.map content := by
  induction xs generalizing ys with
  | nil => cases ys <;> simp
  | cons x xs ih =>
    cases ys with
    | nil => simp
    | cons y ys =>
      rw [List.map_cons, List.map_cons, List.map_cons, List.map_cons, List.cons.injEq,
        List.cons.injEq, h x (by simp) y (by simp),
        ih fun v hv w hw => h v (by simp [hv]) w (by simp [hw])]

/-- Hash keys tell apart what contents tell apart. -/
theorem hashOf_eq_iff_content (ha : a.HashedThroughout owner) (hb : b.HashedThroughout owner) :
    a.hashOf = b.hashOf ↔ a.content = b.content := by
  induction hw : a.weight using Nat.strongRecOn generalizing a b with
  | _ n ih =>
    subst hw
    rcases ha.here.cases with ⟨id, xs, rfl⟩ | hleaf <;>
      rcases hb.here.cases with ⟨id', ys, rfl⟩ | hleaf'
    · have hitems := map_hashOf_eq_iff fun x hx y hy => ih x.weight
        (by have := weight_lt_of_mem hx; rw [weight]; omega) (ha.of_part (.tuple id hx))
        (hb.of_part (.tuple id' hy)) rfl
      simp only [hashOf, hashesOf_eq_map, content, contentItems_eq_map, Content.tuple.injEq,
        ← hitems]
      exact ⟨HashKey.ofTuple_injective, congrArg _⟩
    · refine iff_of_false (fun heq => ?_) (fun heq => ?_)
      · have htuple := HashKey.isTuple_ofTuple (hashesOf xs)
        rw [hashOf, hleaf'.hashOf_eq] at heq
        rw [heq, hleaf'.noTuple] at htuple
        cases htuple
      · rw [hleaf'.content] at heq
        cases heq
    · refine iff_of_false (fun heq => ?_) (fun heq => ?_)
      · have htuple := HashKey.isTuple_ofTuple (hashesOf ys)
        rw [hashOf, hleaf.hashOf_eq] at heq
        rw [← heq, hleaf.noTuple] at htuple
        cases htuple
      · rw [hleaf.content] at heq
        cases heq
    · rw [hleaf.hashOf_eq, hleaf'.hashOf_eq, hleaf.content, hleaf'.content, Content.key.injEq]
      refine ⟨fun heq => ?_, congrArg _⟩
      rw [← hleaf.tagged, heq, hleaf'.tagged]

/-- Values built from scalars, classes, functions and calendar values by tuples have hash
keys, and have the same one exactly when they are equal. -/
theorem hashKey_eq_iff_equals {owner : Identity → Class} {a b : Value}
    (ha : a.HashedThroughout owner) (hb : b.HashedThroughout owner) :
    ∃ ka kb, (∀ host site, a.hashKey host site = .ok ka) ∧
      (∀ host site, b.hashKey host site = .ok kb) ∧
      ∀ host site, ka = kb ↔ a.equals host site b = .ok true := by
  refine ⟨a.hashOf, b.hashOf, fun _ _ => hashKeyWith_eq_hashOf _ ha,
    fun _ _ => hashKeyWith_eq_hashOf _ hb, fun host site => ?_⟩
  rw [hashOf_eq_iff_content ha hb]
  exact (equals_eq_ok_true (ha.imp fun _ => Hashed.regular) (hb.imp fun _ => Hashed.regular)).symm

def mixedTuple (x : Float) : Value :=
  .tuple .origin [.number x, .temporal .origin (.date Clock.placeholderDate), .function .abs]

theorem hashed_mixedTuple {x : Float} (hx : (Numeric.ofFloat x).isNumber = true) :
    (mixedTuple x).HashedThroughout fun _ => .date := by
  refine .intro trivial fun w hw => ?_
  rw [mixedTuple] at hw
  cases hw with
  | tuple _ hv =>
    simp only [List.mem_cons, List.not_mem_nil, or_false] at hv
    rcases hv with rfl | rfl | rfl
    · exact .intro hx fun _ hw => nomatch hw
    · exact .intro rfl fun _ hw => nomatch hw
    · exact .intro trivial fun _ hw => nomatch hw

/-- The two zeros are one key and are equal, also inside a tuple. -/
theorem hashKey_eq_iff_equals_zeros :
    (mixedTuple 0.0).equals .idle .origin (mixedTuple (-0.0)) = .ok true ∧
      (mixedTuple 0.0).hashKey .idle .origin = (mixedTuple (-0.0)).hashKey .idle .origin := by
  have hkeys : (mixedTuple 0.0).hashKey .idle .origin =
      (mixedTuple (-0.0)).hashKey .idle .origin := rfl
  obtain ⟨ka, kb, ha, hb, hiff⟩ := hashKey_eq_iff_equals (hashed_mixedTuple (x := 0.0) rfl)
    (hashed_mixedTuple (x := -0.0) rfl)
  refine ⟨(hiff .idle .origin).mp ?_, hkeys⟩
  rw [ha, hb] at hkeys
  exact Except.ok.inj hkeys

end Value

end FilterLang
