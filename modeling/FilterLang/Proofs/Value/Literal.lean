import FilterLang.Proofs.Number.Bits
import FilterLang.Proofs.Value.Comparison
/-!
Literal values: those that the language can write down.

A literal value is built from `None`, truth values, finite numbers and texts by tuples,
lists and dicts of either form. What is proved of them is proved of their shapes, where a
list or a dict has one form only (`Literal.inductionOnShape`). A literal value is equal to
every value of its shape (`equals_of_shape`).
-/

namespace FilterLang

open Fallible

/-- An embedding program that adds nothing, at a fixed moment. -/
def Host.idle : Host :=
  .plain ⟨Clock.placeholderDate, .midnight⟩ ⟨Clock.placeholderDate, .midnight⟩

/-- Every entry of a record stands under the hash key of its key, and no two under the same
one. -/
structure Records.Keyed (r : Records) : Prop where
  hashable : ∀ e ∈ r, e.key.isHashable = true
  hash : ∀ e ∈ r, ∀ host site, e.key.hashKey host site = .ok e.hash
  distinct : r.hashes.Nodup

namespace Value

/-- The values that can be written down. The parts of a document are literal when they are
as values. -/
inductive Literal : Value → Prop
  | null : Literal .null
  | bool (b : Bool) : Literal (.bool b)
  | number {x : Float} (h : x.isFinite = true) : Literal (.number x)
  | str {s : String} (h : ¬ ('\'' ∈ s.toList ∧ '"' ∈ s.toList)) : Literal (.str s)
  | tuple (id : Identity) {items : List Value} (h : ∀ v ∈ items, Literal v) :
    Literal (.tuple id items)
  | list (id : Identity) {items : List Value} (h : ∀ v ∈ items, Literal v) :
    Literal (.list id items)
  | dict (id : Identity) {r : Records} (keyed : r.Keyed)
    (keys : ∀ e ∈ r, Literal e.key) (values : ∀ e ∈ r, Literal e.value) :
    Literal (.dict id r.dict)
  | nativeList (id : Identity) {items : List Json} (h : ∀ j ∈ items, Literal (ofJson id j)) :
    Literal (.nativeList id items)
  | nativeDict (id : Identity) {members : List (String × Json)}
    (distinct : (members.map (·.1)).Nodup) (keys : ∀ m ∈ members, Literal (.str m.1))
    (values : ∀ m ∈ members, Literal (ofJson id m.2)) : Literal (.nativeDict id members)

/-! ## Shapes of literal values -/

theorem keyed_shape {r : Records} (h : r.Keyed) : (r.mapParts shape).Keyed := by
  refine ⟨List.forall_mem_map.mpr fun e he => ?_, List.forall_mem_map.mpr fun e he => ?_, ?_⟩
  · rw [isHashable_shape]
    exact h.hashable e he
  · intro host site
    rw [hashKey_shape]
    exact h.hash e he host site
  · rw [Records.hashes_mapParts]
    exact h.distinct

/-- Different texts have different hash keys. -/
theorem nodup_map_str {names : List String} (h : names.Nodup) : (names.map HashKey.str).Nodup :=
  List.Pairwise.map HashKey.str (fun _ _ hne heq => hne (HashKey.str.inj heq)) h

theorem keyed_memberRecords {α : Type} (make : String × α → Value) {members : List (String × α)}
    (h : (members.map (·.1)).Nodup) : (memberRecords make members).Keyed := by
  refine ⟨List.forall_mem_map.mpr fun m _ => rfl, List.forall_mem_map.mpr fun m _ _ _ => rfl, ?_⟩
  rw [hashes_memberRecords]
  simpa [Function.comp_def] using nodup_map_str h

/-- What holds of scalars, and of a container when it holds of its parts, holds of the
shape of every literal value. -/
theorem Literal.inductionOnShape {motive : Value → Prop} (null : motive .null)
    (bool : ∀ b, motive (.bool b)) (number : ∀ x, x.isFinite = true → motive (.number x))
    (str : ∀ s : String, ¬ ('\'' ∈ s.toList ∧ '"' ∈ s.toList) → motive (.str s))
    (tuple : ∀ items, (∀ v ∈ items, motive v) → motive (.tuple .origin items))
    (list : ∀ items, (∀ v ∈ items, motive v) → motive (.list .origin items))
    (dict : ∀ r : Records, r.Keyed → (∀ e ∈ r, motive e.key ∧ motive e.value) →
      motive (.dict .origin r.dict))
    {v : Value} (h : v.Literal) : motive v.shape := by
  induction h with
  | null => exact null
  | bool b => exact bool b
  | number h => exact number _ h
  | str h => exact str _ h
  | tuple id _ ih =>
    refine tuple _ ?_
    rw [shapeItems_eq_map]
    exact List.forall_mem_map.mpr ih
  | list id _ ih =>
    refine list _ ?_
    rw [shapeItems_eq_map]
    exact List.forall_mem_map.mpr ih
  | dict id keyed _ _ ihk ihv =>
    rw [shape_dict, Dict.map_dict]
    exact dict _ (keyed_shape keyed) (List.forall_mem_map.mpr fun e he => ⟨ihk e he, ihv e he⟩)
  | nativeList id _ ih =>
    -- the items have the shapes of the values that they are reached as
    refine list _ ?_
    rw [Json.shapeItems_eq_map]
    refine List.forall_mem_map.mpr fun j hj => ?_
    rw [← shape_ofJson id j]
    exact ih j hj
  | @nativeDict id members distinct _ _ ihk ihv =>
    have hmembers : ∀ m ∈ members, motive (.str m.1) ∧ motive m.2.shape := fun m hm =>
      ⟨ihk m hm, shape_ofJson id m.2 ▸ ihv m hm⟩
    have hshape := dict _ (keyed_memberRecords (fun m => m.2.shape) distinct)
      (List.forall_mem_map.mpr hmembers)
    rw [← shape_object] at hshape
    exact hshape

theorem Literal.isBuiltIn {v : Value} (h : v.Literal) : v.isBuiltIn = true := by
  induction h with
  | tuple id _ ih => exact allBuiltIn_of_forall ih
  | list id _ ih => exact allBuiltIn_of_forall ih
  | dict id keyed _ _ _ ihv =>
    exact entriesBuiltIn_of_forall
      (List.forall_mem_map.mpr fun e he => ⟨keyed.hashable e he, ihv e he⟩)
  | _ => rfl

/-! ## Equality -/

section Equality

variable {host : Host} {site : Identity}

/-- A value that is equal to itself. -/
def SelfEqual (host : Host) (site : Identity) (v : Value) : Prop :=
  compareWith host site .eq v v = .ok (.bool true)

theorem sameItems_self {items : List Value} (h : ∀ v ∈ items, SelfEqual host site v) :
    sameItems host site items items = .ok true := by
  induction items with
  | nil => rw [sameItems]; simp
  | cons v rest ih =>
    have hv : compareWith host site .eq v v = .ok (.bool true) := h v (by simp)
    have hrest := ih fun w hw => h w (by simp [hw])
    rw [sameItems, hv, hrest]
    rfl

/-- A dict holds those of its own entries that are equal to themselves. -/
theorem sameEntries_self {r : Records} (hr : r.Keyed) (id : Identity) {entries : Records}
    (hsub : ∀ e ∈ entries, e ∈ r) (h : ∀ e ∈ entries, SelfEqual host site e.value) :
    sameEntries host site entries.pairs (.dict id r.dict) = .ok true := by
  induction entries with
  | nil => rw [Records.pairs, List.map_nil, sameEntries]
  | cons e rest ih =>
    -- the other dict is all of `r`, while the entries grow fewer
    have hlookup : lookup host site (.dict id r.dict) e.key = .ok (some e.value) := by
      rw [lookup, Dict.get, hr.hash e (hsub e (by simp)) host site, ok_bind, Records.find?_dict,
        Records.find?_of_mem hr.distinct (hsub e (by simp))]
      rfl
    have hvalue : compareWith host site .eq e.value e.value = .ok (.bool true) := h e (by simp)
    have hrest := ih (fun f hf => hsub f (by simp [hf])) fun f hf => h f (by simp [hf])
    rw [Records.pairs_cons, sameEntries, hlookup, ok_bind]
    dsimp only
    rw [hvalue, hrest]
    rfl

theorem selfEqual_dict {r : Records} (hr : r.Keyed) (id : Identity)
    (h : ∀ e ∈ r, SelfEqual host site e.value) : SelfEqual host site (.dict id r.dict) := by
  have hentries := sameEntries_self hr id (fun _ he => he) h
  rw [SelfEqual, compareWith_eq]
  simp [scalarCompare?, scalarEqual?, itemsOfBoth?, listItems?, entriesOfBoth?, entries?,
    compareEntries, len, hentries]

/-- The shape of a literal value is equal to itself. -/
theorem Literal.selfEqual_shape {v : Value} (h : v.Literal) : SelfEqual host site v.shape := by
  refine h.inductionOnShape ?_ ?_ ?_ ?_ ?_ ?_ ?_
  · rw [SelfEqual, compareWith_eq]; rfl
  · intro b
    rw [SelfEqual, compareWith_eq]
    simp [scalarCompare?, scalarEqual?]
  · intro x hx
    rw [SelfEqual, compareWith_eq]
    simp [scalarCompare?, scalarEqual?, Value.number, Numeric.ofFloat,
      Number.beq_self_of_isFinite hx]
  · intro s _
    rw [SelfEqual, compareWith_eq]
    simp [scalarCompare?, scalarEqual?]
  · intro items ih
    rw [SelfEqual, compareWith_eq]
    simp [scalarCompare?, scalarEqual?, itemsOfBoth?, compareItems, sameItems_self ih]
  · intro items ih
    rw [SelfEqual, compareWith_eq]
    simp [scalarCompare?, scalarEqual?, itemsOfBoth?, listItems?, compareItems, sameItems_self ih]
  · intro entries keyed ih
    exact selfEqual_dict keyed _ fun e he => (ih e he).2

/-- A literal value is equal to every value of its shape. -/
theorem Literal.equals_of_shape {v w : Value} (h : v.Literal) (hw : w.shape = v.shape) :
    w.equals host site v = .ok true := by
  have hbuilt : w.isBuiltIn = true := isBuiltIn_of_shape_eq hw.symm h.isBuiltIn
  have hself : compareWith host site .eq v.shape v.shape = .ok (.bool true) := h.selfEqual_shape
  rw [← equals_shape host site hbuilt h.isBuiltIn, hw, equals, hself]
  rfl

end Equality

end Value

end FilterLang
