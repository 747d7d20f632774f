import FilterLang.Context
import FilterLang.Proofs.Value.Calling
import FilterLang.Proofs.Value.Safety
/-!
Calls on sound values give sound values.

A method, a function or a class of the language gets the arguments and its own defaults, all of
them sound, and what it gives back is made of these. Only a class that is no calendar class makes
an instance without calendar fields (`Class.safe_create`). A lambda adds its parameters to what
it keeps; what its body gives is up to the evaluation of bodies, of which `Sound.safe_callWith`
asks that it is safe in sound contexts.
-/

namespace FilterLang

open Fallible Value

variable {host : Host} {site : Identity} {this v : Value} {args : Bound}

/-! ## Methods of strings -/

/-- Classes of the calendar derive from no other class of values. -/
theorem Class.name_ne_of_mem_lineage {t : Temporal} {c : Class} (h : c ∈ t.cls.lineage host) :
    c.name ≠ "str" ∧ c.name ≠ "dict" := by
  cases t <;> simp [Temporal.cls, lineage, ancestors] at h <;> rcases h with rfl | rfl | rfl <;>
    decide

namespace StrMethod

theorem calm_receiver (this : Value) : Calm host (receiver this) := by
  unfold receiver
  split
  · trivial
  · exact fun t c hc h => (Class.name_ne_of_mem_lineage hc).1 h.1.symm

theorem calm_textArg (what : String) (v : Value) : Calm host (textArg what v) := by
  unfold textArg
  split <;> trivial

theorem sound_ofChars (s : List Char) : (ofChars s).Sound :=
  sound_str _

theorem safe_stripWith (trim : (Char → Bool) → List Char → List Char) :
    Safe host Sound (stripWith trim this args) := by
  unfold stripWith
  refine (calm_receiver this).bind fun s _ => ?_
  split
  · exact sound_ofChars _
  · exact (calm_textArg _ _).bind fun _ _ => sound_ofChars _

theorem calm_anyAffix (test : List Char → Bool) (options : List Value) :
    Calm host (anyAffix test options) := by
  induction options with
  | nil => trivial
  | cons v rest ih =>
    rw [anyAffix]
    exact (calm_textArg _ v).bind fun _ _ => Lands.ite (fun _ => trivial) fun _ => ih

theorem safe_affix (test : List Char → List Char → Bool) (affixes : Value) :
    Safe host Sound (affix test this affixes) := by
  unfold affix
  refine (calm_receiver this).bind fun s _ => ?_
  split
  · exact (calm_anyAffix _ _).bind fun _ _ => sound_bool _
  · exact (calm_textArg _ _).bind fun _ _ => sound_bool _

theorem calm_splitPieces : Calm host (splitPieces this args) := by
  unfold splitPieces
  refine (calm_receiver this).bind fun s _ => ?_
  dsimp only
  split
  · trivial
  · exact (calm_textArg _ _).bind fun sep _ => Lands.ite (fun _ => trivial) fun _ => trivial

theorem calm_texts (index : Nat) (items : List Value) : Calm host (texts index items) := by
  induction items generalizing index with
  | nil => trivial
  | cons v rest ih =>
    cases v with
    | str s => exact (ih (index + 1)).bind fun _ _ => trivial
    | _ => trivial

theorem safe_run (m : StrMethod) (hargs : args.All Sound) :
    Safe host Sound (m.run site this args) := by
  cases m with
  | lower | upper => exact safe_read (calm_receiver this) fun _ => sound_ofChars _
  | strip | lstrip | rstrip => exact safe_stripWith _
  | startswith | endswith => exact safe_affix _ _
  | split =>
    exact calm_splitPieces.bind fun _ _ =>
      sound_list.mpr (List.forall_mem_map.mpr fun _ _ => sound_ofChars _)
  | join =>
    refine (calm_receiver this).bind fun sep _ => ?_
    refine (hargs.get sound_null "iterable").safe_iterate.bind fun items _ => ?_
    exact safe_read (calm_texts 0 items) fun _ => sound_ofChars _
  | replace =>
    refine (calm_receiver this).bind fun s _ => ?_
    refine (calm_textArg _ (args.get "old")).bind fun old _ => ?_
    exact safe_read (calm_textArg _ (args.get "new")) fun _ => sound_ofChars _

end StrMethod

/-! ## Methods of sequences and dicts -/

namespace SequenceMethod

theorem calm_indexFrom (hv : v.Sound) {items : List Value} (h : ∀ w ∈ items, w.Sound)
    (start : Nat) : Calm host (indexFrom host site v start items) := by
  induction items generalizing start with
  | nil => trivial
  | cons w rest ih =>
    rw [indexFrom]
    refine ((h w (by simp)).calm_equals hv).bind fun same _ => ?_
    exact Lands.ite (fun _ => trivial) fun _ => ih (fun u hu => h u (by simp [hu])) (start + 1)

theorem calm_countEqual (hv : v.Sound) {items : List Value} (h : ∀ w ∈ items, w.Sound) :
    Calm host (countEqual host site v items) := by
  induction items with
  | nil => trivial
  | cons w rest ih =>
    rw [countEqual]
    refine ((h w (by simp)).calm_equals hv).bind fun same _ => ?_
    exact (ih fun u hu => h u (by simp [hu])).bind fun _ _ => trivial

theorem safe_run (m : SequenceMethod) (hthis : this.Sound) (hargs : args.All Sound) :
    Safe host Sound (m.run host site this args) := by
  have hvalue := hargs.get sound_null "value"
  unfold run
  refine hthis.safe_iterate.bind fun items hitems => ?_
  cases m with
  | index =>
    refine (calm_indexFrom hvalue hitems 0).bind fun found _ => ?_
    cases found with
    | none => trivial
    | some i => exact sound_int _
  | count => exact safe_read (calm_countEqual hvalue hitems) fun _ => sound_int _

end SequenceMethod

namespace DictMethod

theorem safe_receiver (hthis : this.Sound) :
    Safe host (fun pairs => ∀ p ∈ pairs, p.1.Sound ∧ p.2.Sound) (receiver site this) := by
  unfold receiver
  split
  · rename_i pairs hpairs
    exact hthis.entries hpairs
  · exact fun t c hc h => (Class.name_ne_of_mem_lineage hc).2 h.1.symm

theorem safe_run (m : DictMethod) (hthis : this.Sound) (hargs : args.All Sound) :
    Safe host Sound (m.run host site this args) := by
  have hkey := hargs.get sound_null "key"
  cases m with
  | get =>
    refine (hthis.safe_lookup hkey).bind fun found hfound => ?_
    cases found with
    | none => exact hargs.get sound_null "default"
    | some w => exact hfound w rfl
  | hasKey => exact safe_read (hthis.calm_contains hkey) fun _ => sound_bool _
  | keys =>
    exact (safe_receiver hthis).bind fun pairs hpairs =>
      sound_list.mpr (List.forall_mem_map.mpr fun p hp => (hpairs p hp).1)
  | values =>
    exact (safe_receiver hthis).bind fun pairs hpairs =>
      sound_list.mpr (List.forall_mem_map.mpr fun p hp => (hpairs p hp).2)
  | items =>
    refine (safe_receiver hthis).bind fun pairs hpairs => sound_list.mpr fun w hw => ?_
    obtain ⟨i, hi, rfl⟩ := List.mem_mapIdx.mp hw
    have hp := hpairs _ (List.getElem_mem hi)
    refine sound_tuple.mpr fun u hu => ?_
    rcases List.mem_cons.mp hu with rfl | hu
    · exact hp.1
    · cases List.mem_singleton.mp hu
      exact hp.2
  | getattr =>
    unfold run
    dsimp only
    split
    · split
      · exact sound_ofJson _ _
      · trivial
    · trivial

end DictMethod

/-- A method of the language gives a sound value on a sound receiver. -/
theorem Method.safe_run {m : Method} (hm : ∀ owner name, m ≠ .ofInstance (.host owner name))
    (hthis : this.Sound) (hargs : args.All Sound) : Safe host Sound (m.run host site this args) := by
  cases m with
  | str m => exact m.safe_run hargs
  | sequence m => exact m.safe_run hthis hargs
  | dict m => exact m.safe_run hthis hargs
  | ofInstance m =>
    cases m with
    | temporal m => exact m.safe_run hthis.here
    | host owner name => exact absurd rfl (hm owner name)

open Signature in
theorem Method.defaults_signature {m : Method}
    (hm : ∀ owner name, m ≠ .ofInstance (.host owner name)) :
    (m.signature host).Defaults Sound := by
  cases m with
  | str m =>
    cases m with
    | lower | upper => exact defaults_nil
    | strip | lstrip | rstrip => exact defaults_optional defaults_nil _ sound_null
    | startswith | endswith | join => exact defaults_ofNames _
    | split =>
      exact defaults_optional (defaults_optional defaults_nil _ sound_null) _ (sound_int _)
    | replace => exact defaults_optional (defaults_ofNames _) _ (sound_int _)
  | sequence m => exact defaults_ofNames _
  | dict m =>
    cases m with
    | get => exact defaults_optional (defaults_ofNames _) _ sound_null
    | keys | values | items => exact defaults_nil
    | hasKey | getattr => exact defaults_ofNames _
  | ofInstance m =>
    cases m with
    | temporal m => exact m.defaults_signature sound_null sound_str
    | host owner name => exact absurd rfl (hm owner name)

/-! ## Functions -/

theorem calm_numberArg (callee : String) (v : Value) : Calm host (numberArg callee v) := by
  unfold numberArg
  split <;> trivial

theorem calm_toNumber (v : Value) : Calm host (toNumber v) := by
  unfold toNumber
  split
  · split <;> trivial
  · exact calm_numberArg _ _

theorem calm_toWhole (v : Value) : Calm host (toWhole v) := by
  unfold toWhole
  split
  · split <;> trivial
  · exact (calm_numberArg _ _).map fun _ _ => trivial

mutual

theorem calm_matchesClassInfo (callee : String) (c : Class) :
    (v : Value) → Calm host (matchesClassInfo host callee c v)
  | .tuple _ options => by
    rw [matchesClassInfo]
    exact calm_matchesAnyClassInfo callee c options
  | .null | .notImplemented | .bool _ | .float _ | .str _ | .list .. | .dict .. | .nativeList ..
  | .nativeDict .. | .function _ | .lambda .. | .method .. | .cls _ | .object .. | .temporal .. =>
    trivial

theorem calm_matchesAnyClassInfo (callee : String) (c : Class) :
    (options : List Value) → Calm host (matchesAnyClassInfo host callee c options)
  | [] => trivial
  | v :: rest => by
    rw [matchesAnyClassInfo]
    refine (calm_matchesClassInfo callee c v).bind fun matched _ => ?_
    exact Lands.ite (fun _ => trivial) fun _ => calm_matchesAnyClassInfo callee c rest

end

theorem safe_bestOf (r : Relation) {best : Value} (hbest : best.Sound) {items : List Value}
    (h : ∀ v ∈ items, v.Sound) : Safe host Sound (bestOf host site r best items) := by
  induction items generalizing best with
  | nil => exact hbest
  | cons v rest ih =>
    have hv := h v (by simp)
    have hrest : ∀ w ∈ rest, w.Sound := fun w hw => h w (by simp [hw])
    rw [bestOf]
    refine (hv.comparable r best hbest).bind fun better hbetter => ?_
    refine hbetter.calm_isTruthy.bind fun isBetter _ => ?_
    exact Lands.ite (fun _ => ih hv hrest) fun _ => ih hbest hrest

theorem safe_extreme (r : Relation) (callee : String) {items : List Value}
    (h : ∀ v ∈ items, v.Sound) : Safe host Sound (extreme host site r callee items) := by
  have hcandidates : Safe host (fun found => ∀ v ∈ found, v.Sound) (candidates site items) := by
    rcases items with _ | ⟨v, _ | ⟨w, rest⟩⟩
    · exact h
    · exact (h v (by simp)).safe_iterate
    · exact h
  rw [extreme_eq]
  refine hcandidates.bind fun found hfound => ?_
  cases found with
  | nil => trivial
  | cons v rest => exact safe_bestOf r (hfound v (by simp)) fun w hw => hfound w (by simp [hw])

namespace Function

open Signature in
theorem defaults_signature {f : Function} (hf : ∀ name, f ≠ .host name) :
    (f.signature host).Defaults Sound := by
  cases f with
  | abs | len | isinstance | issubclass | strftime => exact defaults_ofNames _
  | round => exact defaults_optional (defaults_ofNames _) _ (sound_int _)
  | int => exact defaults_optional defaults_nil _ (sound_int _)
  | min | max | contextToday => exact defaults_nil
  | host name => exact absurd rfl (hf name)

theorem safe_magnitude (hv : v.Sound) : Safe host Sound (magnitude host site v) := by
  unfold magnitude
  split
  · rename_i m hm
    exact hv.safe_special hm []
  · exact safe_read (calm_numberArg "abs" v) fun _ => sound_float _

theorem safe_run {f : Function} (hf : ∀ name, f ≠ .host name) (hargs : args.All Sound) :
    Safe host Sound (f.run host site args) := by
  cases f with
  | abs => exact safe_magnitude (hargs.get sound_null "x")
  | len => exact safe_read (hargs.get sound_null "obj").calm_len fun _ => sound_int _
  | isinstance => exact safe_read (calm_matchesClassInfo _ _ _) fun _ => sound_bool _
  | issubclass =>
    unfold run
    dsimp only
    split
    · exact safe_read (calm_matchesClassInfo _ _ _) fun _ => sound_bool _
    · trivial
  | round =>
    unfold run
    dsimp only
    refine (calm_numberArg _ _).bind fun x _ => ?_
    split
    · exact sound_float _
    · trivial
  | int => exact safe_read (calm_toWhole _) fun _ => sound_float _
  | min | max => exact safe_extreme _ _ hargs.rest
  | contextToday => exact sound_temporal _ _
  | strftime =>
    refine args.calm_layout.bind fun layout _ => ?_
    exact safe_read (host.utc.usual_format layout).calm fun _ => sound_str _
  | host name => exact absurd rfl (hf name)

end Function

/-! ## Classes -/

theorem Dict.safe_build (hv : v.Sound) {named : List (String × Value)}
    (hnamed : ∀ p ∈ named, p.2.Sound) : Safe host Dict.Sound (Dict.build host site v named) := by
  have hsourced : Safe host Dict.Sound (Dict.sourced host site v) := by
    unfold Dict.sourced
    split
    · rename_i pairs hpairs
      exact Dict.safe_insertAll Dict.sound_nil (hv.entries hpairs)
    · refine Lands.ite (fun _ => Dict.sound_nil) fun _ => ?_
      exact hv.safe_iterate.bind fun items hitems => Dict.safe_insertPairs Dict.sound_nil hitems 0
  rw [Dict.build_eq]
  refine hsourced.bind fun d hd => Dict.safe_insertAll hd ?_
  exact List.forall_mem_map.mpr fun p hp => ⟨sound_str p.1, hnamed p hp⟩

namespace Class

variable {c owner : Class}

/-- A class of the language makes its instances itself, or it has none but plain instances. -/
theorem creation?_cases (hc : ∀ name, c ≠ .host name) {s : Signature}
    (h : c.creation? host = some (owner, s)) :
    (∀ name, owner ≠ .host name) ∧ (owner = c ∨ c.isPlain = true) ∧
      owner.ownCreation? host = some s := by
  obtain ⟨k, hk, hown⟩ := List.exists_of_findSome?_eq_some h
  obtain ⟨s', hs', heq⟩ := Option.map_eq_some_iff.mp hown
  cases heq
  refine ⟨lineage_ne_host hc _ hk, ?_, hs'⟩
  by_cases hplain : c.isPlain = true
  · exact Or.inr hplain
  · -- a class of the calendar is the first that is asked
    have hsome : ((c.ownCreation? host).map fun s => (c, s)).isSome = true := by
      cases c <;> first | rfl | exact absurd rfl hplain | exact absurd rfl (hc _)
    obtain ⟨p, hp⟩ := Option.isSome_iff_exists.mp hsome
    rw [creation?, lineage, List.findSome?_cons, hp] at h
    cases h
    obtain ⟨_, _, heq⟩ := Option.map_eq_some_iff.mp hp
    exact Or.inl (Prod.mk.inj heq).1.symm

/-- The defaults with which a class of the language makes instances are sound. -/
theorem defaults_ownCreation? (hc : ∀ name, c ≠ .host name) {s : Signature}
    (h : c.ownCreation? host = some s) : s.Defaults Sound := by
  have hfold : ∀ (d : Value), d.Sound → ∀ (names : List String) (s : Signature),
      s.Defaults Sound → (names.foldl (fun s n => s.optional n d) s).Defaults Sound := by
    intro d hd names
    induction names with
    | nil => exact fun s hs => hs
    | cons n names ih => exact fun s hs => ih _ (Signature.defaults_optional hs n hd)
  have hclock : ∀ s : Signature, s.Defaults Sound → (Temporal.clockSignature s).Defaults Sound :=
    fun s hs => Signature.defaults_optional (Signature.defaults_optional (Signature.defaults_optional
      (Signature.defaults_optional (Signature.defaults_optional hs _ (sound_int 0)) _ (sound_int 0))
      _ (sound_int 0)) _ (sound_int 0)) _ sound_null
  cases c with
  | host name => exact absurd rfl (hc name)
  | object => cases h; exact Signature.defaults_nil
  | type => cases h; exact Signature.defaults_ofNames _
  | bool => cases h; exact Signature.defaults_optional Signature.defaults_nil _ (sound_bool _)
  | float => cases h; exact Signature.defaults_optional Signature.defaults_nil _ (sound_int _)
  | str => cases h; exact Signature.defaults_optional Signature.defaults_nil _ (sound_str _)
  | tuple | list =>
    cases h
    exact Signature.defaults_optional Signature.defaults_nil _ (sound_tuple.mpr (by simp))
  | dict => cases h; exact Signature.defaults_optional Signature.defaults_nil _ sound_null
  | date => cases h; exact Signature.defaults_ofNames _
  | datetime => cases h; exact hclock _ (Signature.defaults_ofNames _)
  | time => cases h; exact hclock _ Signature.defaults_nil
  | timedelta => cases h; exact hfold _ (sound_int 0) _ _ Signature.defaults_nil
  | relativedelta =>
    cases h
    exact hfold _ (sound_int 0) _ _ (hfold _ sound_null _ _ fun p hp => by cases hp)
  | _ => cases h

theorem isPlain_of_ne (hc : ∀ name, c ≠ .host name) (h : ∀ t : Temporal, c ≠ t.cls) :
    c.isPlain = true := by
  cases c with
  | host name => exact absurd rfl (hc name)
  | date => exact absurd rfl (h (.date Clock.placeholderDate))
  | datetime => exact absurd rfl (h (.datetime ⟨Clock.placeholderDate, Clock.midnight⟩))
  | time => exact absurd rfl (h (.time Clock.midnight))
  | timedelta => exact absurd rfl (h (.duration ⟨0, by decide⟩))
  | relativedelta => exact absurd rfl (h (.offset {}))
  | _ => rfl

/-- What a class makes is sound: an instance of its own has no calendar class. -/
theorem safe_create (howner : ∀ name, owner ≠ .host name) (hc : ∀ name, c ≠ .host name)
    (hplain : owner = c ∨ c.isPlain = true) (hargs : args.All Sound) :
    Safe host Sound (create host site owner c args) := by
  have hiterable := hargs.get sound_null "iterable"
  cases owner with
  | type => exact (hargs.get sound_null "object").sound_classOf
  | bool => exact safe_read (hargs.get sound_null "x").calm_isTruthy fun _ => sound_bool _
  | float => exact safe_read (calm_toNumber _) fun _ => sound_float _
  | str => exact safe_read (hargs.get sound_null "object").calm_toText fun _ => sound_str _
  | tuple => exact hiterable.safe_iterate.bind fun _ hitems => sound_tuple.mpr hitems
  | list => exact hiterable.safe_iterate.bind fun _ hitems => sound_list.mpr hitems
  | dict =>
    exact (Dict.safe_build hiterable hargs.keywords).bind fun _ hd => sound_dict.mpr hd
  | host name => exact absurd rfl (howner name)
  | _ =>
    refine (Temporal.safe_create args _).bind fun made hmade => ?_
    cases made with
    | some t => exact sound_temporal _ _
    | none =>
      refine sound_object.mpr ⟨?_, by simp⟩
      rcases hplain with rfl | hplain
      · exact isPlain_of_ne hc (hmade rfl)
      · exact hplain

end Class

/-! ## Calls -/

def Context.Sound (c : Context) : Prop :=
  ∀ p ∈ c, p.2.Sound

/-- Values that are not called themselves answer a call by their special method. -/
theorem Value.Sound.safe_callSpecial {callee : Value} (hf : callee.Sound) {name : String}
    {m : InstanceMethod} (hm : callee.special? host name = some m) {args : List Value}
    {keywords : List (String × Value)} :
    Safe host Sound ((m.signature host).bind m.name args keywords >>= fun b =>
      m.run host site callee b) := by
  obtain ⟨id, t, tm, rfl, rfl⟩ := hf.special hm
  exact (Signature.calm_bind _ _ args keywords).bind fun _ _ => tm.safe_run trivial

/-- A call of a sound value with sound arguments gives a sound value, if evaluating the body of a
lambda in a sound context does. -/
theorem Value.Sound.safe_callWith {callee : Value} (hf : callee.Sound)
    {runBody : Expr → Table Value → Outcome Value}
    (hrun : ∀ (body : Expr) (c : Context), c.Sound → Safe host Sound (runBody body c))
    {args : List Value} (hargs : ∀ v ∈ args, v.Sound) {keywords : List (String × Value)}
    (hkw : ∀ p ∈ keywords, p.2.Sound) :
    Safe host Sound (callee.callWith host site runBody args keywords) := by
  cases callee with
  | function f =>
    have hown := sound_function.mp hf
    refine (Signature.safe_bind (f.defaults_signature hown) f.name hargs hkw).bind fun b hb => ?_
    exact Function.safe_run hown hb
  | lambda id params body closure =>
    refine (Signature.safe_bind (Signature.defaults_ofNames params) _ hargs hkw).bind fun b hb => ?_
    exact hrun body _ (Table.forall_overlay (sound_lambda.mp hf) hb.named)
  | method id receiver m =>
    obtain ⟨hm, hreceiver⟩ := sound_method.mp hf
    refine (Signature.safe_bind (m.defaults_signature hm) m.name hargs hkw).bind fun b hb => ?_
    exact Method.safe_run hm hreceiver hb
  | cls c =>
    have hc : ∀ name, c ≠ .host name := sound_cls.mp hf
    unfold callWith
    dsimp only
    split
    · rename_i owner s hs
      obtain ⟨howner, hplain, hown⟩ := Class.creation?_cases hc hs
      have hdefaults := Class.defaults_ownCreation? howner hown
      refine (Signature.safe_bind hdefaults c.name hargs hkw).bind fun b hb => ?_
      exact Class.safe_create howner hc hplain hb
    · trivial
  | _ =>
    unfold callWith
    dsimp only
    split
    · rename_i m hm
      exact hf.safe_callSpecial hm
    · trivial

end FilterLang
