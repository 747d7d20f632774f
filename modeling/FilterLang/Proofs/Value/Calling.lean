import FilterLang.Proofs.Value.Uniformity
import FilterLang.Source
/-!
Calls with arguments that agree.

Methods, functions and classes get bound arguments. Those of strings and sequences give
texts, numbers and truth values, which are the same on pruned arguments; the others give
values that agree. Calling a lambda is the one place where what it keeps is used, and there
only under the names of its body: `callWith_prune` asks of the evaluation of bodies that it
goes alike in contexts that agree on the names read. Last, values that agree have one
native form.
-/

namespace FilterLang

open Fallible Value

variable {host : Host}

/-! ## Methods of strings -/

namespace StrMethod

@[simp] theorem receiver_prune (v : Value) : receiver v.prune = receiver v := by
  cases v <;> rfl

@[simp] theorem textArg_prune (what : String) (v : Value) :
    textArg what v.prune = textArg what v := by
  cases v <;> rfl

@[simp] theorem limitOf_prune (v : Value) : limitOf v.prune = limitOf v := by
  rw [limitOf, limitOf, integer?_prune]

theorem stripWith_prune (trim : (Char → Bool) → List Char → List Char) (this : Value)
    (b : Bound) : stripWith trim this.prune b.prune = stripWith trim this b := by
  rw [stripWith, stripWith, receiver_prune, Bound.get_prune]
  cases b.get "chars" <;> rfl

theorem anyAffix_prune (test : List Char → Bool) (items : List Value) :
    anyAffix test (items.map prune) = anyAffix test items := by
  induction items with
  | nil => rfl
  | cons v rest ih => rw [List.map_cons, anyAffix, anyAffix, textArg_prune, ih]

theorem affix_prune (test : List Char → List Char → Bool) (this v : Value) :
    affix test this.prune v.prune = affix test this v := by
  rw [affix, affix, receiver_prune]
  cases v with
  | tuple id options => simp only [prune, pruneItems_eq_map, anyAffix_prune]
  | _ => rfl

theorem splitPieces_prune (this : Value) (b : Bound) :
    splitPieces this.prune b.prune = splitPieces this b := by
  rw [splitPieces, splitPieces, receiver_prune, Bound.get_prune, Bound.get_prune, limitOf_prune]
  cases b.get "sep" <;> rfl

theorem texts_prune (index : Nat) (items : List Value) :
    texts index (items.map prune) = texts index items := by
  induction items generalizing index with
  | nil => rfl
  | cons v rest ih =>
    cases v with
    | str s => simp only [List.map_cons, prune, texts, ih]
    | _ => rfl

theorem run_prune (site : Identity) (m : StrMethod) (this : Value) (b : Bound) :
    m.run site this.prune b.prune = m.run site this b := by
  cases m with
  | lower | upper => simp only [run, receiver_prune]
  | strip | lstrip | rstrip => simp only [run, stripWith_prune]
  | startswith | endswith => simp only [run, Bound.get_prune, affix_prune]
  | split => simp only [run, splitPieces_prune]
  | join =>
    simp only [run, receiver_prune, Bound.get_prune, iterate_prune]
    refine bind_congr_ok fun sep _ => ?_
    cases (b.get "iterable").iterate site with
    | error e => rfl
    | ok items => simp only [Except.map, ok_bind, texts_prune]
  | replace => simp only [run, receiver_prune, Bound.get_prune, textArg_prune, limitOf_prune]

end StrMethod

/-! ## Methods of tuples, lists and dicts -/

namespace SequenceMethod

theorem indexFrom_prune (hhost : host.Uniform) (site : Identity) (value : Value) (start : Nat)
    (items : List Value) :
    indexFrom host site value.prune start (items.map prune) =
      indexFrom host site value start items := by
  induction items generalizing start with
  | nil => rfl
  | cons v rest ih => rw [List.map_cons, indexFrom, indexFrom, equals_prune hhost, ih]

theorem countEqual_prune (hhost : host.Uniform) (site : Identity) (value : Value)
    (items : List Value) :
    countEqual host site value.prune (items.map prune) = countEqual host site value items := by
  induction items with
  | nil => rfl
  | cons v rest ih => rw [List.map_cons, countEqual, countEqual, equals_prune hhost, ih]

theorem run_prune (hhost : host.Uniform) (site : Identity) (m : SequenceMethod) (this : Value)
    (b : Bound) : m.run host site this.prune b.prune = m.run host site this b := by
  rw [run, run, iterate_prune]
  cases this.iterate site with
  | error e => rfl
  | ok items =>
    simp only [Except.map, ok_bind, Bound.get_prune, indexFrom_prune hhost,
      countEqual_prune hhost, typeName_prune]

end SequenceMethod

namespace DictMethod

theorem receiver_prune (site : Identity) (this : Value) :
    receiver site this.prune = (receiver site this).map (List.map prunePair) := by
  rw [receiver, receiver, entries?_prune, typeName_prune]
  cases this.entries? site <;> rfl

/-- A list that is made from the entries of a dict. -/
theorem ofEntries_prune (site : Identity) (this : Value) (f : List (Value × Value) → List Value)
    (hf : ∀ pairs, (f (pairs.map prunePair)).map prune = (f pairs).map prune) :
    Consistent (receiver site this.prune >>= fun pairs => .ok (.list site (f pairs)))
      (receiver site this >>= fun pairs => .ok (.list site (f pairs))) := by
  rw [receiver_prune]
  cases receiver site this with
  | error e => exact .failed e
  | ok pairs =>
    refine .succeeded ?_
    simp only [Agrees, prune, pruneItems_eq_map, hf]

theorem pairTuples_prune (site : Identity) (pairs : List (Value × Value)) :
    (pairTuples site (pairs.map prunePair)).map prune = (pairTuples site pairs).map prune := by
  apply List.ext_getElem?
  intro i
  simp only [pairTuples, List.getElem?_map, List.getElem?_mapIdx]
  cases pairs[i]? with
  | none => rfl
  | some p => simp [prunePair_eq, prune, pruneItems, prune_prune]

theorem run_prune (hhost : host.Uniform) (site : Identity) (m : DictMethod) (this : Value)
    (b : Bound) : Consistent (m.run host site this.prune b.prune) (m.run host site this b) := by
  cases m with
  | get =>
    simp only [run, Bound.get_prune, lookup_prune hhost]
    cases this.lookup host site (b.get "key") with
    | error e => exact .failed e
    | ok found =>
      refine .succeeded ?_
      cases found with
      | none => exact (b.get "default").agrees_prune
      | some v => exact v.agrees_prune
  | hasKey =>
    simp only [run, Bound.get_prune, contains_prune hhost]
    exact .refl _
  | keys => exact ofEntries_prune site this _ fun pairs => by simp [prunePair_eq, prune_prune]
  | values => exact ofEntries_prune site this _ fun pairs => by simp [prunePair_eq, prune_prune]
  | items => exact ofEntries_prune site this _ (pairTuples_prune site)
  | getattr =>
    simp only [run, Bound.get_prune, text?_prune]
    cases this <;> exact .refl _

end DictMethod

theorem Method.run_prune (hhost : host.Uniform) (site : Identity) (m : Method) (this : Value)
    (b : Bound) : Consistent (m.run host site this.prune b.prune) (m.run host site this b) := by
  cases m with
  | str m =>
    rw [run, run, StrMethod.run_prune]
    exact .refl _
  | sequence m =>
    rw [run, run, SequenceMethod.run_prune hhost]
    exact .refl _
  | dict m => exact m.run_prune hhost site this b
  | ofInstance m => exact m.run_agrees hhost site this.agrees_prune b.agrees_prune

/-! ## Functions -/

@[simp] theorem numberArg_prune (callee : String) (v : Value) :
    numberArg callee v.prune = numberArg callee v := by
  cases v <;> rfl

@[simp] theorem toNumber_prune (v : Value) : toNumber v.prune = toNumber v := by
  cases v <;> rfl

@[simp] theorem toWhole_prune (v : Value) : toWhole v.prune = toWhole v := by
  cases v <;> rfl

mutual

theorem matchesClassInfo_prune (host : Host) (callee : String) (c : Class) :
    (v : Value) → matchesClassInfo host callee c v.prune = matchesClassInfo host callee c v
  | .tuple _ options => by
    rw [prune, matchesClassInfo, matchesClassInfo, matchesAnyClassInfo_prune host callee c options]
  | .null | .notImplemented | .bool _ | .float _ | .str _ | .list .. | .dict .. | .nativeList ..
  | .nativeDict .. | .function _ | .lambda .. | .method .. | .cls _ | .object .. | .temporal .. =>
    rfl

theorem matchesAnyClassInfo_prune (host : Host) (callee : String) (c : Class) :
    (options : List Value) → matchesAnyClassInfo host callee c (pruneItems options) =
      matchesAnyClassInfo host callee c options
  | [] => rfl
  | v :: rest => by
    rw [pruneItems, matchesAnyClassInfo, matchesAnyClassInfo, matchesClassInfo_prune host callee c v,
      matchesAnyClassInfo_prune host callee c rest]

end

theorem bestOf_prune (hhost : host.Uniform) (site : Identity) (r : Relation) (best : Value)
    (items : List Value) :
    Consistent (bestOf host site r best.prune (items.map prune)) (bestOf host site r best items) := by
  induction items generalizing best with
  | nil => exact .succeeded best.agrees_prune
  | cons v rest ih =>
    rw [List.map_cons, bestOf, bestOf]
    refine (compareWith_prune hhost site v r best).bind fun better better' hbetter => ?_
    rw [hbetter.observe (isTruthy host site) (isTruthy_prune hhost site)]
    refine Related.bind_same _ fun isBetter => ?_
    cases isBetter with
    | true => exact ih v
    | false => exact ih best

/-- What the least or the greatest is sought among. -/
def candidates (site : Identity) : List Value → Outcome (List Value)
  | [single] => single.iterate site
  | many => .ok many

theorem candidates_prune (site : Identity) (args : List Value) :
    candidates site (args.map prune) = (candidates site args).map (List.map prune) := by
  rcases args with _ | ⟨v, _ | ⟨w, rest⟩⟩
  · rfl
  · exact iterate_prune site v
  · rfl

theorem extreme_eq (host : Host) (site : Identity) (r : Relation) (callee : String)
    (args : List Value) :
    extreme host site r callee args = candidates site args >>= fun found =>
      match found with
      | [] => .error (.value (.emptySequence callee))
      | v :: rest => bestOf host site r v rest := by
  rcases args with _ | ⟨v, _ | ⟨w, rest⟩⟩ <;> rfl

theorem extreme_prune (hhost : host.Uniform) (site : Identity) (r : Relation) (callee : String)
    (args : List Value) :
    Consistent (extreme host site r callee (args.map prune)) (extreme host site r callee args) := by
  rw [extreme_eq, extreme_eq, candidates_prune]
  cases candidates site args with
  | error e => exact .failed e
  | ok found =>
    cases found with
    | nil => exact .failed _
    | cons v rest => exact bestOf_prune hhost site r v rest

theorem Function.run_prune (hhost : host.Uniform) (site : Identity) (f : Function) (b : Bound) :
    Consistent (f.run host site b.prune) (f.run host site b) := by
  cases f with
  | abs =>
    rw [run, run, Bound.get_prune, magnitude, magnitude, numberArg_prune]
    exact special_consistent hhost site _ "__abs__" [] _
  | len =>
    simp only [run, Bound.get_prune, len_prune hhost]
    exact .refl _
  | isinstance =>
    simp only [run, Bound.get_prune, classOf_prune, matchesClassInfo_prune]
    exact .refl _
  | issubclass =>
    simp only [run, Bound.get_prune, matchesClassInfo_prune]
    cases b.get "class" <;> exact .refl _
  | round =>
    simp only [run, Bound.get_prune, numberArg_prune, integer?_prune]
    exact .refl _
  | int =>
    simp only [run, Bound.get_prune, toWhole_prune]
    exact .refl _
  | min => exact extreme_prune hhost site .lt "min" b.rest
  | max => exact extreme_prune hhost site .gt "max" b.rest
  | contextToday => exact .refl _
  | strftime =>
    simp only [run, b.resembles_prune.layout]
    exact .refl _
  | host name => exact hhost.callFunction b.agrees_prune name site

/-! ## Classes -/

namespace Dict

theorem insertAll_prune (hhost : host.Uniform) (site : Identity) (d : Dict)
    (pairs : List (Value × Value)) :
    insertAll host site (d.map prune) (pairs.map prunePair) =
      (insertAll host site d pairs).map (Dict.map prune) := by
  induction pairs generalizing d with
  | nil => rfl
  | cons p rest ih =>
    obtain ⟨k, v⟩ := p
    rw [List.map_cons, prunePair, insertAll, insertAll, insert_prune hhost]
    cases d.insert host site k v with
    | error e => rfl
    | ok d' => exact ih d'

theorem insertPairs_prune (hhost : host.Uniform) (site : Identity) (index : Nat) (d : Dict)
    (pairs : List Value) :
    insertPairs host site index (d.map prune) (pairs.map prune) =
      (insertPairs host site index d pairs).map (Dict.map prune) := by
  induction pairs generalizing index d with
  | nil => rfl
  | cons pair rest ih =>
    rw [List.map_cons, insertPairs, insertPairs, iterate_prune]
    cases pair.iterate (site.child index) with
    | error e => rfl
    | ok items =>
      -- only two items make a pair; any other number is reported by its length
      rcases items with _ | ⟨k, _ | ⟨v, _ | ⟨w, items⟩⟩⟩
      · rfl
      · rfl
      · simp only [Except.map, ok_bind, List.map_cons, List.map_nil, insert_prune hhost]
        cases d.insert host site k v with
        | error e => rfl
        | ok d' => exact ih (index + 1) d'
      · simp [Except.map, throw, throwThe, MonadExceptOf.throw]

/-- The dict that is made from another dict or from pairs, before the named values. -/
def sourced (host : Host) (site : Identity) (source : Value) : Outcome Dict :=
  match source.entries? site with
  | some pairs => insertAll host site [] pairs
  | none =>
    if source.isNone then .ok [] else source.iterate site >>= insertPairs host site 0 []

theorem build_eq (host : Host) (site : Identity) (source : Value)
    (named : List (String × Value)) :
    build host site source named = sourced host site source >>= fun d =>
      insertAll host site d (named.map fun m => (.str m.1, m.2)) := by
  rw [build, sourced]
  cases source.entries? site with
  | some pairs => rfl
  | none =>
    cases source.isNone with
    | true => rfl
    | false => cases source.iterate site <;> rfl

theorem sourced_prune (hhost : host.Uniform) (site : Identity) (source : Value) :
    sourced host site source.prune = (sourced host site source).map (Dict.map prune) := by
  rw [sourced, sourced, entries?_prune, isNone_prune, iterate_prune]
  cases source.entries? site with
  | some pairs => exact insertAll_prune hhost site [] pairs
  | none =>
    cases source.isNone with
    | true => rfl
    | false =>
      cases source.iterate site with
      | error e => rfl
      | ok items => exact insertPairs_prune hhost site 0 [] items

theorem build_prune (hhost : host.Uniform) (site : Identity) (source : Value)
    (named : List (String × Value)) :
    build host site source.prune (pruneNamed named) =
      (build host site source named).map (Dict.map prune) := by
  have hnamed : (pruneNamed named).map (fun m => ((.str m.1 : Value), m.2)) =
      (named.map fun m => ((.str m.1 : Value), m.2)).map prunePair := by
    rw [pruneNamed_eq_map, List.map_map, List.map_map]
    exact List.map_congr_left fun m _ => (prunePair_eq (.str m.1, m.2)).symm
  rw [build_eq, build_eq, sourced_prune hhost, hnamed]
  cases sourced host site source with
  | error e => rfl
  | ok d => exact insertAll_prune hhost site d _

end Dict

theorem Class.create_prune (hhost : host.Uniform) (site : Identity) (owner c : Class)
    (b : Bound) :
    Consistent (create host site owner c b.prune) (create host site owner c b) := by
  have hiterate := iterate_prune site (b.get "iterable")
  cases owner with
  | type =>
    simp only [create, Bound.get_prune, classOf_prune]
    exact .refl _
  | bool =>
    simp only [create, Bound.get_prune, isTruthy_prune hhost]
    exact .refl _
  | float =>
    simp only [create, Bound.get_prune, toNumber_prune]
    exact .refl _
  | str =>
    simp only [create, Bound.get_prune, toText_prune hhost]
    exact .refl _
  | tuple | list =>
    simp only [create, Bound.get_prune, hiterate]
    cases (b.get "iterable").iterate site with
    | error e => exact .failed e
    | ok items =>
      refine .succeeded ?_
      simp only [Agrees, prune, pruneItems_eq_map, map_prune_prune]
  | dict =>
    have hbuild := Dict.build_prune hhost site (b.get "iterable") b.keywords
    have hkeywords : b.prune.keywords = pruneNamed b.keywords := rfl
    simp only [create, Bound.get_prune, hkeywords, hbuild]
    cases Dict.build host site (b.get "iterable") b.keywords with
    | error e => exact .failed e
    | ok d =>
      refine .succeeded ?_
      rw [← prune_dict]
      exact (Value.dict site d).agrees_prune
  | host name => exact hhost.create b.agrees_prune name site c
  | _ =>
    simp only [create, Temporal.create_resembles b.resembles_prune]
    exact .refl _

/-! ## Calls -/

theorem Bound.Agrees.consistent {b b' : Bound} (h : b.Agrees b') (f : Bound → Outcome Value)
    (hf : ∀ c : Bound, Consistent (f c.prune) (f c)) : Consistent (f b) (f b') := by
  have hb := hf b'
  rw [← h] at hb
  exact (hf b).symm.trans hb

theorem Method.run_agrees (hhost : host.Uniform) (site : Identity) (m : Method)
    {this this' : Value} {b b' : Bound} (hthis : this.Agrees this') (hb : b.Agrees b') :
    Consistent (m.run host site this b) (m.run host site this' b') := by
  have hrun := m.run_prune hhost site this' b'
  rw [← hthis, ← hb] at hrun
  exact (m.run_prune hhost site this b).symm.trans hrun

namespace Value

theorem ofList_pruneNamed (named : List (String × Value)) :
    Table.ofList (pruneNamed named) = pruneNamed (Table.ofList named) := by
  rw [pruneNamed_eq_map, pruneNamed_eq_map]
  exact Table.overlay_map (fun _ v => v.prune) [] named

/-- Contexts that agree still do with arguments that agree on top of them. -/
theorem AgreeOn.overlay {names : List String} {c d : Table Value} (h : AgreeOn names c d)
    {named named' : List (String × Value)} (hnamed : pruneNamed named = pruneNamed named') :
    AgreeOn names (Table.overlay c named) (Table.overlay d named') := by
  have hset : ∀ n, (Table.get? (Table.ofList named) n).map prune =
      (Table.get? (Table.ofList named') n).map prune := by
    intro n
    rw [← get?_pruneNamed, ← get?_pruneNamed, ← ofList_pruneNamed, ← ofList_pruneNamed, hnamed]
  -- an argument hides what the lambda kept under the same name
  intro n hn
  rw [Table.get?_overlay, Table.get?_overlay, Option.map_or, Option.map_or, hset n, h n hn]

theorem agreeOn_capture (names : List String) (t : Table Value) :
    AgreeOn names (Table.capture names (pruneNamed t)) t := by
  intro n hn
  rw [Table.get?_capture, if_pos hn, get?_pruneNamed]
  exact foundAlike_prune _

theorem pruneNamed_named {b b' : Bound} (h : b.Agrees b') :
    pruneNamed b.named = pruneNamed b'.named := by
  have hnamed : ∀ c : Bound, pruneNamed c.named = c.prune.named := by
    intro c
    rw [pruneNamed_eq_map, Bound.named, Bound.named, Bound.prune, List.zip_map_right]
    rfl
  rw [hnamed, hnamed, h]

/-- Bodies go alike in contexts that agree on the names that they read. -/
def BodiesAlike (runBody : Expr → Table Value → Outcome Value) : Prop :=
  ∀ {body : Expr} {c d : Table Value}, AgreeOn body.names c d →
    Consistent (runBody body c) (runBody body d)

/-- The call of an instance through its special method. -/
theorem callSpecial_prune (hhost : host.Uniform) (site : Identity) (v : Value)
    (args : List Value) (keywords : List (String × Value)) (otherwise : Outcome Value) :
    Consistent
      (match v.prune.special? host "__call__" with
        | some m => (m.signature host).bind m.name (args.map prune) (pruneNamed keywords) >>=
            fun b => m.run host site v.prune b
        | none => otherwise)
      (match v.special? host "__call__" with
        | some m => (m.signature host).bind m.name args keywords >>= fun b => m.run host site v b
        | none => otherwise) := by
  rw [special?_prune]
  cases v.special? host "__call__" with
  | none => exact .refl _
  | some m =>
    exact (Signature.bind_prune _ _ args keywords).bind fun b b' hb =>
      m.run_agrees hhost site v.agrees_prune hb

theorem callWith_prune (hhost : host.Uniform) (site : Identity)
    {runBody : Expr → Table Value → Outcome Value} (hrun : BodiesAlike runBody) (callee : Value)
    (args : List Value) (keywords : List (String × Value)) :
    Consistent (callee.prune.callWith host site runBody (args.map prune) (pruneNamed keywords))
      (callee.callWith host site runBody args keywords) := by
  have hbind := fun (s : Signature) (name : String) => s.bind_prune name args keywords
  cases callee with
  | function f =>
    exact (hbind _ _).bind fun b b' hb =>
      hb.consistent (f.run host site) (f.run_prune hhost site)
  | lambda id params body closure =>
    -- what is kept is read only under the names of the body
    exact (hbind _ _).bind fun b b' hb =>
      hrun ((agreeOn_capture body.names closure).overlay (pruneNamed_named hb))
  | method id receiver m =>
    exact (hbind _ _).bind fun b b' hb => m.run_agrees hhost site receiver.agrees_prune hb
  | cls c =>
    simp only [prune, callWith]
    cases c.creation? host with
    | none => exact .refl _
    | some creation =>
      obtain ⟨owner, s⟩ := creation
      exact (hbind s _).bind fun b b' hb =>
        hb.consistent (Class.create host site owner c) (Class.create_prune hhost site owner c)
  | object id c fields =>
    exact callSpecial_prune hhost site (object id c fields) args keywords _
  | temporal id t => exact callSpecial_prune hhost site (temporal id t) args keywords _
  | _ => exact .refl _

/-! ## Native forms -/

theorem nativeKey_prune (hhost : host.Uniform) (site : Identity) (key : Value) :
    nativeKey host site key.prune = nativeKey host site key := by
  have hrepr := repr_prune hhost site key
  cases key with
  | tuple | list | dict | lambda | method | object =>
    rw [prune] at hrepr
    simp only [prune, nativeKey, hrepr]
    rfl
  | _ => rfl

theorem nativeObject_prune (hhost : host.Uniform) (c : Class) (fields : List (String × Value)) :
    nativeObject host c (pruneNamed fields) = nativeObject host c fields := by
  rw [nativeObject, nativeObject]
  split
  · exact hhost.toNative (pruneNamed_prune fields) _
  · rfl

mutual

/-- Values that agree have one native form. -/
theorem toNative_prune (hhost : host.Uniform) (site : Identity) :
    (v : Value) → v.prune.toNative host site = v.toNative host site
  | tuple _ items => by rw [prune, toNative, toNative, nativeItems_prune hhost site items]
  | list _ items => by rw [prune, toNative, toNative, nativeItems_prune hhost site items]
  | dict _ ⟨entries, index⟩ => by
    rw [prune, toNative, toNative, nativeEntries_prune hhost site [] entries]
  | object _ c fields => nativeObject_prune hhost c fields
  | null | notImplemented | bool _ | float _ | str _ | nativeList .. | nativeDict .. | function _
  | lambda .. | method .. | cls _ | temporal .. => rfl

theorem nativeItems_prune (hhost : host.Uniform) (site : Identity) :
    (items : List Value) →
      nativeItems host site (pruneItems items) = nativeItems host site items
  | [] => rfl
  | v :: rest => by
    rw [pruneItems, nativeItems, nativeItems, toNative_prune hhost site v,
      nativeItems_prune hhost site rest]

theorem nativeEntries_prune (hhost : host.Uniform) (site : Identity) (members : Table Json) :
    (entries : List (Value × Value)) →
      nativeEntries host site members (pruneEntries entries) =
        nativeEntries host site members entries
  | [] => rfl
  | e :: rest => by
    rw [pruneEntries, nativeEntries, nativeEntries, nativeEntry_prune hhost site e]
    refine bind_congr_ok fun entry _ => ?_
    exact nativeEntries_prune hhost site _ rest

theorem nativeEntry_prune (hhost : host.Uniform) (site : Identity) :
    (e : Value × Value) → nativeEntry host site (prunePair e) = nativeEntry host site e
  | (k, v) => by
    rw [prunePair, nativeEntry, nativeEntry, nativeKey_prune hhost, toNative_prune hhost site v]

end

end Value

end FilterLang
