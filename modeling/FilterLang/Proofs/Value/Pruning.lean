import FilterLang.Proofs.Expr.Names
import FilterLang.Proofs.Table
import FilterLang.Proofs.Value.Arguments
import FilterLang.Value.Call
/-!
What lambdas keep, and values that differ in no more than that.

A lambda keeps all the names that were visible where it was written, and reads those of
its body. Pruning a value cuts what its lambdas keep down to what they read, at every
depth. Two values agree when they are the same pruned: they are built alike, and each
lambda of the one meets a lambda of the other with the same body and with values that
agree under the names that the body reads (`agrees_lambda`).

Binding arguments respects agreement, and so do the calendar methods. The embedding
program is given the values themselves; it is `Uniform` when its classes and functions do
not look at what lambdas keep and do not read.
-/

namespace FilterLang

open Fallible

/-! ## Entries under some names -/

namespace Table

variable {α : Type}

/-- The entries of a table under the given names. -/
def capture (names : List String) (t : Table α) : Table α :=
  names.filterMap fun n => (get? t n).map fun a => (n, a)

theorem capture_cons (n : String) (names : List String) (t : Table α) :
    capture (n :: names) t =
      match get? t n with
      | some a => (n, a) :: capture names t
      | none => capture names t := by
  rw [capture, List.filterMap_cons]
  cases get? t n <;> rfl

theorem get?_capture (names : List String) (t : Table α) (name : String) :
    get? (capture names t) name = if name ∈ names then get? t name else none := by
  induction names with
  | nil => simp [capture]
  | cons n names ih =>
    rw [capture_cons]
    by_cases hname : n = name
    · subst hname
      cases hn : get? t n with
      | none => simp [ih, hn]
      | some a => simp [get?_cons]
    · have hne : name ≠ n := fun h => hname h.symm
      cases get? t n with
      | none => simp [ih, hne]
      | some a => simp [get?_cons, hname, ih, hne]

/-- Entries under some names are decided by what is under each of them. -/
theorem capture_congr {names : List String} {t u : Table α}
    (h : ∀ n ∈ names, get? t n = get? u n) : capture names t = capture names u := by
  refine List.filterMap_congr fun n hn => ?_
  rw [h n hn]

end Table

namespace Value

/-! ## Pruning -/

mutual

/-- A value whose lambdas keep only what their bodies read. -/
def prune : Value → Value
  | tuple id items => .tuple id (pruneItems items)
  | list id items => .list id (pruneItems items)
  | dict id ⟨entries, index⟩ => .dict id ⟨pruneEntries entries, index⟩
  | lambda id params body closure =>
    .lambda id params body (Table.capture body.names (pruneNamed closure))
  | method id receiver m => .method id receiver.prune m
  | object id c fields => .object id c (pruneNamed fields)
  | v => v

def pruneItems : List Value → List Value
  | [] => []
  | v :: rest => v.prune :: pruneItems rest

def pruneEntries : List (Value × Value) → List (Value × Value)
  | [] => []
  | e :: rest => prunePair e :: pruneEntries rest

def prunePair : Value × Value → Value × Value
  | (k, v) => (k.prune, v.prune)

def pruneNamed : List (String × Value) → List (String × Value)
  | [] => []
  | m :: rest => pruneMember m :: pruneNamed rest

def pruneMember : String × Value → String × Value
  | (name, v) => (name, v.prune)

end

theorem pruneItems_eq_map (items : List Value) : pruneItems items = items.map prune := by
  induction items with
  | nil => rfl
  | cons v rest ih => rw [pruneItems, ih, List.map_cons]

theorem prunePair_eq (p : Value × Value) : prunePair p = (p.1.prune, p.2.prune) := by
  rw [prunePair.eq_def]

theorem pruneEntries_eq_map (entries : List (Value × Value)) :
    pruneEntries entries = entries.map prunePair := by
  induction entries with
  | nil => rfl
  | cons e rest ih => rw [pruneEntries, ih, List.map_cons]

/-- A pruned dict has the pruned entries, and the index it had. -/
theorem prune_dict (id : Identity) (d : Dict) : (dict id d).prune = .dict id (d.map prune) := by
  obtain ⟨entries, index⟩ := d
  rw [prune, pruneEntries_eq_map, Dict.map]
  exact congrArg _ (congrArg (Store.mk · index) (List.map_congr_left fun e _ => prunePair_eq e))

theorem pruneNamed_eq_map (named : List (String × Value)) :
    pruneNamed named = named.map fun m => (m.1, m.2.prune) := by
  induction named with
  | nil => rfl
  | cons m rest ih =>
    obtain ⟨name, v⟩ := m
    rw [pruneNamed, ih, List.map_cons, pruneMember]

theorem get?_pruneNamed (t : Table Value) (name : String) :
    Table.get? (pruneNamed t) name = (Table.get? t name).map prune := by
  rw [pruneNamed_eq_map]
  exact Table.get?_map (fun _ v => v.prune) t name

theorem pruneNamed_capture (names : List String) (t : Table Value) :
    pruneNamed (Table.capture names t) = Table.capture names (pruneNamed t) := by
  induction names with
  | nil => rfl
  | cons n names ih =>
    rw [Table.capture_cons, Table.capture_cons, get?_pruneNamed]
    cases Table.get? t n with
    | none => exact ih
    | some v => exact congrArg _ ih

mutual

/-- Pruning is done in one go. -/
theorem prune_prune : (v : Value) → v.prune.prune = v.prune
  | tuple _ items => by rw [prune, prune, pruneItems_prune items]
  | list _ items => by rw [prune, prune, pruneItems_prune items]
  | dict _ ⟨entries, index⟩ => by rw [prune, prune, pruneEntries_prune entries]
  | lambda _ _ body closure => by
    rw [prune, prune, pruneNamed_capture, pruneNamed_prune closure]
    -- under the names of the body nothing was cut
    refine congrArg _ (Table.capture_congr fun n hn => ?_)
    rw [Table.get?_capture, if_pos hn]
  | method _ receiver _ => by rw [prune, prune, prune_prune receiver]
  | object _ _ fields => by rw [prune, prune, pruneNamed_prune fields]
  | null | notImplemented | bool _ | float _ | str _ | nativeList .. | nativeDict .. | function _
  | cls _ | temporal .. => rfl

theorem pruneItems_prune : (items : List Value) →
    pruneItems (pruneItems items) = pruneItems items
  | [] => rfl
  | v :: rest => by rw [pruneItems, pruneItems, prune_prune v, pruneItems_prune rest]

theorem pruneEntries_prune : (entries : List (Value × Value)) →
    pruneEntries (pruneEntries entries) = pruneEntries entries
  | [] => rfl
  | e :: rest => by rw [pruneEntries, pruneEntries, prunePair_prune e, pruneEntries_prune rest]

theorem prunePair_prune : (e : Value × Value) → prunePair (prunePair e) = prunePair e
  | (k, v) => by rw [prunePair, prunePair, prune_prune k, prune_prune v]

theorem pruneNamed_prune : (named : List (String × Value)) →
    pruneNamed (pruneNamed named) = pruneNamed named
  | [] => rfl
  | m :: rest => by rw [pruneNamed, pruneNamed, pruneMember_prune m, pruneNamed_prune rest]

theorem pruneMember_prune : (m : String × Value) → pruneMember (pruneMember m) = pruneMember m
  | (_, v) => by rw [pruneMember, pruneMember, prune_prune v]

end

theorem map_prune_prune (items : List Value) : (items.map prune).map prune = items.map prune := by
  rw [← pruneItems_eq_map, ← pruneItems_eq_map, pruneItems_prune]

/-! ## Agreement -/

/-- Values that differ at most in what their lambdas keep and do not read. -/
def Agrees (v w : Value) : Prop :=
  v.prune = w.prune

theorem agrees_prune (v : Value) : v.prune.Agrees v :=
  prune_prune v

/-- Contexts whose values agree under the names given. -/
def AgreeOn (names : List String) (c d : Table Value) : Prop :=
  ∀ n ∈ names, (Table.get? c n).map prune = (Table.get? d n).map prune

theorem AgreeOn.mono {names names' : List String} {c d : Table Value} (h : AgreeOn names c d)
    (hsub : names' ⊆ names) : AgreeOn names' c d :=
  fun n hn => h n (hsub hn)

theorem AgreeOn.of_get? {names : List String} {c d : Table Value}
    (h : ∀ n ∈ names, Table.get? c n = Table.get? d n) : AgreeOn names c d :=
  fun n hn => congrArg _ (h n hn)

/-- Lambdas agree when what they keep agrees under the names of their body. -/
theorem agrees_lambda (id : Identity) (params : List String) {body : Expr}
    {c d : List (String × Value)} (h : AgreeOn body.names c d) :
    (lambda id params body c).Agrees (lambda id params body d) := by
  rw [Agrees, prune, prune]
  refine congrArg _ (Table.capture_congr fun n hn => ?_)
  rw [get?_pruneNamed, get?_pruneNamed, h n hn]

namespace Agrees

variable {a a' b b' : Value}

/-- What is the same after pruning is the same of values that agree. -/
theorem observe {α : Type} (h : Agrees a b) (f : Value → α) (hf : ∀ v : Value, f v.prune = f v) :
    f a = f b := by
  rw [← hf a, h, hf b]

theorem observe₂ {α : Type} (ha : Agrees a a') (hb : Agrees b b') (f : Value → Value → α)
    (hf : ∀ v w : Value, f v.prune w.prune = f v w) : f a b = f a' b' := by
  rw [← hf a b, ha, hb, hf a' b']

end Agrees

/-- Outcomes that fail alike, or succeed with values that agree. -/
abbrev Consistent (x y : Outcome Value) : Prop :=
  Related Agrees x y

namespace Consistent

variable {x y z : Outcome Value}

theorem refl (x : Outcome Value) : Consistent x x :=
  Related.refl (R := Agrees) (fun _ => rfl) x

theorem symm (h : Consistent x y) : Consistent y x := by
  cases h with
  | failed e => exact .failed e
  | succeeded h => exact .succeeded h.symm

theorem trans (h : Consistent x y) (h' : Consistent y z) : Consistent x z := by
  cases h with
  | failed e => exact h'
  | succeeded h =>
    cases h' with
    | succeeded h' => exact .succeeded (h.trans h')

end Consistent

/-- What is consistent with its pruned case is consistent on values that agree. -/
theorem Agrees.consistent {a b : Value} (h : Agrees a b) (f : Value → Outcome Value)
    (hf : ∀ v : Value, Consistent (f v.prune) (f v)) : Consistent (f a) (f b) := by
  have hb := hf b
  rw [← h] at hb
  exact (hf a).symm.trans hb

theorem Agrees.consistent₂ {a a' b b' : Value} (ha : Agrees a a') (hb : Agrees b b')
    (f : Value → Value → Outcome Value)
    (hf : ∀ v w : Value, Consistent (f v.prune w.prune) (f v w)) :
    Consistent (f a b) (f a' b') := by
  have hf' := hf a' b'
  rw [← ha, ← hb] at hf'
  exact (hf a b).symm.trans hf'

theorem Consistent.apply {x y : Outcome Value} (h : Consistent x y) (f : Value → Outcome Value)
    (hf : ∀ v : Value, Consistent (f v.prune) (f v)) : Consistent (x >>= f) (y >>= f) :=
  h.bind fun _ _ hvw => hvw.consistent f hf

theorem Consistent.apply₂ {x x' y y' : Outcome Value} (hx : Consistent x x')
    (hy : Consistent y y') (f : Value → Value → Outcome Value)
    (hf : ∀ v w : Value, Consistent (f v.prune w.prune) (f v w)) :
    Consistent (x >>= fun a => y >>= f a) (x' >>= fun a => y' >>= f a) :=
  hx.bind fun _ _ ha => hy.bind fun _ _ hb => ha.consistent₂ hb f hf

/-! ## Kinds and views -/

@[simp] theorem classOf_prune (v : Value) : v.prune.classOf = v.classOf := by
  cases v <;> rfl

@[simp] theorem typeName_prune (v : Value) : v.prune.typeName = v.typeName := by
  rw [typeName, typeName, classOf_prune]

@[simp] theorem text?_prune (v : Value) : v.prune.text? = v.text? := by
  cases v <;> rfl

@[simp] theorem integer?_prune (v : Value) : v.prune.integer? = v.integer? := by
  cases v <;> rfl

@[simp] theorem isNone_prune (v : Value) : v.prune.isNone = v.isNone := by
  cases v <;> rfl

@[simp] theorem isSequence_prune (v : Value) : v.prune.isSequence = v.isSequence := by
  cases v <;> rfl

@[simp] theorem prune_ofJson (site : Identity) (j : Json) : (ofJson site j).prune = ofJson site j := by
  cases j <;> rfl

/-- The special methods of a value are those of its class. -/
@[simp] theorem special?_prune (host : Host) (v : Value) (name : String) :
    v.prune.special? host name = v.special? host name := by
  cases v <;> rfl

theorem identical_prune (a b : Value) : a.prune.identical b.prune = a.identical b := by
  cases a <;> cases b <;> rfl

theorem resembles_prune (v : Value) : v.prune.Resembles v := by
  cases v with
  | tuple | list | dict | lambda | method | object => exact .unseen rfl rfl rfl
  | _ => exact .same _

end Value

/-! ## Bound arguments -/

namespace Bound

open Value

def prune (b : Bound) : Bound :=
  { b with
    values := b.values.map Value.prune
    rest := b.rest.map Value.prune
    keywords := pruneNamed b.keywords }

/-- Arguments that agree one by one. -/
def Agrees (b b' : Bound) : Prop :=
  b.prune = b'.prune

theorem agrees_prune (b : Bound) : b.prune.Agrees b := by
  simp only [Agrees, prune, map_prune_prune, pruneNamed_prune]

@[simp] theorem get_prune (b : Bound) (name : String) : b.prune.get name = (b.get name).prune := by
  have hsignature : b.prune.signature = b.signature := rfl
  rw [get, get, hsignature]
  cases b.signature.indexOf? name with
  | none => rfl
  | some i =>
    have hvalues : b.prune.values = b.values.map Value.prune := rfl
    simp only [hvalues, List.getD_eq_getElem?_getD, List.getElem?_map]
    cases b.values[i]? <;> rfl

theorem resembles_prune (b : Bound) : b.prune.Resembles b := by
  intro name
  rw [get_prune]
  exact (b.get name).resembles_prune

end Bound

namespace Signature

open Value

def pruneSlots (slots : List (Option Value)) : List (Option Value) :=
  slots.map (Option.map Value.prune)

theorem slots_prune (s : Signature) (args : List Value) :
    s.slots (args.map Value.prune) = pruneSlots (s.slots args) := by
  simp [slots, pruneSlots, ← List.map_take]

theorem place_prune (s : Signature) (callee : String) (slots : List (Option Value))
    (keywords : List (String × Value)) :
    s.place callee (pruneSlots slots) (pruneNamed keywords) =
      (s.place callee slots keywords).map (Prod.map pruneSlots pruneNamed) := by
  induction keywords generalizing slots with
  | nil => rfl
  | cons m rest ih =>
    obtain ⟨name, value⟩ := m
    rw [pruneNamed, pruneMember, place, place]
    cases s.indexOf? name with
    | none =>
      simp only [ih]
      cases s.place callee slots rest <;> rfl
    | some i =>
      have hslot : (pruneSlots slots)[i]? = (slots[i]?).map (Option.map Value.prune) := by
        simp [pruneSlots]
      have hset : (pruneSlots slots).set i (some value.prune) =
          pruneSlots (slots.set i (some value)) := by
        simp [pruneSlots, List.map_set]
      simp only [hslot, hset, ih]
      rcases slots[i]? with _ | _ | v <;> rfl

/-- The defaults are not pruned, but they agree with themselves. -/
theorem fill_prune (callee : String) (params : List Param) (slots : List (Option Value)) :
    Related (fun vs ws => vs.map Value.prune = ws.map Value.prune)
      (fill callee params (pruneSlots slots)) (fill callee params slots) := by
  induction params generalizing slots with
  | nil => exact .succeeded rfl
  | cons p params ih =>
    have hcons : ∀ v w : Value, v.Agrees w → Related (fun vs ws => vs.map prune = ws.map prune)
        (fill callee params (pruneSlots slots.tail) >>= fun vs => .ok (v :: vs))
        (fill callee params slots.tail >>= fun ws => .ok (w :: ws)) := by
      intro v w hvw
      refine (ih slots.tail).bind fun vs ws hvs => .succeeded ?_
      rw [List.map_cons, List.map_cons, hvw, hvs]
    rw [fill, fill]
    -- no slot, an empty slot, and a slot that is filled
    rcases slots with _ | ⟨_ | v, slots⟩
    · cases p.default with
      | none => exact .failed _
      | some v => exact hcons v v rfl
    · cases p.default with
      | none => exact .failed _
      | some v => exact hcons v v rfl
    · exact hcons v.prune v v.agrees_prune

/-- Arguments that agree are bound alike. -/
theorem bind_prune (s : Signature) (callee : String) (args : List Value)
    (keywords : List (String × Value)) :
    Related Bound.Agrees (s.bind callee (args.map Value.prune) (pruneNamed keywords))
      (s.bind callee args keywords) := by
  rw [bind_eq, bind_eq, slots_prune, place_prune, ← List.map_drop, List.isEmpty_map,
    List.length_map]
  cases s.place callee (s.slots args) keywords with
  | error e => exact .failed e
  | ok placed =>
    obtain ⟨slots, extra⟩ := placed
    refine (fill_prune callee s.params slots).bind fun vs ws hvs => ?_
    by_cases h : (!(args.drop s.positional).isEmpty && s.rest.isNone) = true
    · rw [if_pos h, if_pos h]
      exact .failed _
    · rw [if_neg h, if_neg h]
      have hbound : Related Bound.Agrees
          (.ok { signature := s, values := vs, rest := (args.drop s.positional).map Value.prune,
                 keywords := pruneNamed extra })
          (.ok { signature := s, values := ws, rest := args.drop s.positional,
                 keywords := extra }) := by
        refine .succeeded ?_
        simp only [Bound.Agrees, Bound.prune, hvs, map_prune_prune, pruneNamed_prune]
      rcases extra with _ | ⟨⟨name, v⟩, extra⟩
      · exact hbound
      · cases s.keywords with
        | none => exact .failed _
        | some _ => exact hbound

end Signature

/-! ## The embedding program -/

/-- The embedding program does not look at what lambdas keep and do not read: its methods
and functions go alike on arguments that agree, and so does the native form of instances
whose fields agree. -/
structure Host.Uniform (host : Host) : Prop where
  callMethod : ∀ {this this' : Value} {b b' : Bound}, this.Agrees this' → b.Agrees b' →
    ∀ owner name site, Value.Consistent (host.callMethod owner name site this b)
      (host.callMethod owner name site this' b')
  create : ∀ {b b' : Bound}, b.Agrees b' → ∀ owner site c,
    Value.Consistent (host.create owner site c b) (host.create owner site c b')
  callFunction : ∀ {b b' : Bound}, b.Agrees b' → ∀ name site,
    Value.Consistent (host.callFunction name site b) (host.callFunction name site b')
  toNative : ∀ {fields fields' : List (String × Value)},
    Value.pruneNamed fields = Value.pruneNamed fields' →
      ∀ owner, host.toNative owner fields = host.toNative owner fields'

/-- A host without classes and functions of its own looks at nothing. -/
theorem Host.uniform_plain (utc localTime : DateTime) : (plain utc localTime).Uniform where
  callMethod _ _ _ _ _ := .refl _
  create _ _ _ _ := .refl _
  callFunction _ _ _ := .refl _
  toNative _ _ := rfl

namespace InstanceMethod

open Value

variable {host : Host} (hhost : host.Uniform) (site : Identity)

include hhost

theorem run_agrees (m : InstanceMethod) {this this' : Value} {b b' : Bound}
    (hthis : this.Agrees this') (hb : b.Agrees b') :
    Consistent (m.run host site this b) (m.run host site this' b') := by
  cases m with
  | temporal m =>
    -- a calendar method sees nothing that pruning changes
    have hpruned : ∀ (v : Value) (c : Bound),
        m.run host site v.prune c.prune = m.run host site v c :=
      fun v c => m.run_resembles host site v.resembles_prune c.resembles_prune
    have hrun : m.run host site this b = m.run host site this' b' := by
      rw [← hpruned this b, hthis, hb, hpruned]
    rw [run, run, hrun]
    exact .refl _
  | host owner name => exact hhost.callMethod hthis hb owner name site

theorem call_prune (m : InstanceMethod) (this : Value) (args : List Value) :
    Consistent (m.call host site this.prune (args.map Value.prune)) (m.call host site this args) :=
  ((m.signature host).bind_prune m.name args []).bind fun _ _ hb =>
    m.run_agrees hhost site this.agrees_prune hb

end InstanceMethod

end FilterLang
