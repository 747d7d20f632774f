import FilterLang.Proofs.Composition.Readings
import FilterLang.Proofs.Composition.Restart
/-!
The name `context` is never stale.

In every reading of a composition `context` is a dict that shows the other names of the reading's
own context (`Reading.Current`). The dict is made for that reading from the context as it is then,
so what the name stood for before does not matter (`current_reflect`). What earlier fragments have
added is in the context at every step of a run (`Shows`), in whatever state the expressions before
have left it.
-/

namespace FilterLang

/-! ## The context as a dict -/

namespace Context

open Table

def shown (c : Context) : Records :=
  Value.memberRecords (·.2) (c.filter (·.1 ≠ selfName))

/-- The record has under a name what the context has under it, and nothing under `context`. -/
theorem find?_shown (c : Context) (name : String) :
    c.shown.find? (.str name) = if name = selfName then none else get? c name := by
  rw [shown, Value.find?_memberRecords, get?_filter fun n => decide (n ≠ selfName)]
  simp

theorem keyed_shown {c : Context} (hc : Ordered c) : c.shown.Keyed := by
  have hnames : ((c.filter (·.1 ≠ selfName)).map (·.1)).Nodup :=
    (ordered_filter hc _).imp ne_of_lt
  exact Value.keyed_memberRecords _ hnames

/-- A context in order is shown by the dict of its record. -/
theorem toDict_eq {c : Context} (hc : Ordered c) (site : Identity) :
    c.toDict site = .dict site c.shown.dict :=
  congrArg _ (Value.foldl_set_dict _ [] (keyed_shown hc).distinct)

theorem mem_keys_shown (c : Context) (key : Value) :
    key ∈ c.shown.dict.keys ↔ ∃ name, key = .str name ∧ name ≠ selfName ∧ name ∈ names c := by
  simp only [Records.keys_dict, shown, Value.memberRecords, List.map_map, List.mem_map,
    List.mem_filter, names, decide_eq_true_eq, Function.comp]
  constructor
  · rintro ⟨⟨name, v⟩, ⟨he, hname⟩, rfl⟩
    exact ⟨name, rfl, hname, ⟨(name, v), he, rfl⟩⟩
  · rintro ⟨_, rfl, hname, ⟨⟨name, v⟩, he, rfl⟩⟩
    exact ⟨(name, v), ⟨he, hname⟩, rfl⟩

end Context

namespace Composition

open Fallible Table Recorded

/-! ## What a reading shows -/

/-- In the context of an expression, `context` is a dict with all other names as its keys, each
with the value of the bare name. What earlier fragments have added is there, as it was added
last. -/
def Reading.Current (host : Host) (r : Reading) : Prop :=
  ∃ (id : Identity) (shown : Records),
    (∀ site, (Expr.name "context").eval host r.context site = .ok (.dict id shown.dict)) ∧
    shown.Keyed ∧
    (∀ key, key ∈ shown.dict.keys ↔ ∃ name, key = .str name ∧ name ≠ "context" ∧
      name ∈ names r.context) ∧
    (∀ name, .str name ∈ shown.dict.keys → ∀ site,
      (Value.dict id shown.dict).getItem host site (.str name) =
        (Expr.name name).eval host r.context site) ∧
    ∀ name j, name ≠ "context" → get? r.added name = some j → ∀ site,
      (Value.dict id shown.dict).getItem host site (.str name) =
        .ok (.ofJson (contextSite.entry name) j)

/-- The members of a table, other than `context`, are in a context, as it holds documents. -/
def Shows (c : Context) (added : Table Json) : Prop :=
  ∀ name j, name ≠ Context.selfName → get? added name = some j →
    get? c name = some (.ofJson (contextSite.entry name) j)

namespace Shows

variable {c d : Context} {added : Table Json}

theorem nil (c : Context) : Shows c [] := by
  intro name j _ hj
  cases hj

theorem mirrors (h : Shows c added) (hcd : Mirrors c d) : Shows d added := by
  intro name j hname hj
  rw [← hcd.same name hname]
  exact h name j hname hj

/-- What is added to a context goes on top of what was added before. -/
theorem extend (h : Shows c added) (members : Table Json) :
    Shows (extend c members) (overlay added members) := by
  intro name j hname hj
  rw [get?_overlay] at hj
  rw [get?_extend]
  cases hlast : get? (ofList members) name with
  | some k =>
    rw [hlast] at hj
    cases hj
    rfl
  | none =>
    rw [hlast] at hj
    exact h name j hname hj

end Shows

theorem eval_name (host : Host) (c : Context) (site : Identity) (name : String) :
    (Expr.name name).eval host c site = c.lookup name := rfl

theorem getItem_shown (host : Host) (site id : Identity) {c : Context} {name : String} {v : Value}
    (hname : name ≠ Context.selfName) (h : get? c name = some v) :
    (Value.dict id c.shown.dict).getItem host site (.str name) = .ok v := by
  have hfind : c.shown.dict.find? (.str name) = some v := by
    rw [Records.find?_dict, Context.find?_shown, if_neg hname, h]
  have hlookup : (Value.dict id c.shown.dict).lookup host site (.str name) = .ok (some v) :=
    congrArg Except.ok hfind
  rw [Value.getItem, hlookup]
  rfl

/-- An expression is evaluated in a context whose `context` is current. -/
theorem current_reflect (host : Host) {c : Context} (hc : Ordered c) {added : Table Json}
    (h : Shows c added) (text : String) : Reading.Current host ⟨text, reflect c, added⟩ := by
  have hget : ∀ name, name ≠ Context.selfName → get? (reflect c) name = get? c name :=
    fun name hname => get?_insert_of_ne c _ hname
  refine ⟨contextSite.entry Context.selfName, c.shown, fun site => ?_, Context.keyed_shown hc,
    fun key => ?_, fun name hkey site => ?_, fun name j hname hj site => ?_⟩
  · rw [eval_name, Context.lookup, reflect, Context.selfName, get?_insert_self,
      ← Context.selfName, Context.toDict_eq hc]
    rfl
  · rw [Context.mem_keys_shown]
    refine exists_congr fun name => and_congr_right fun _ => and_congr_right fun hname => ?_
    rw [mem_names_iff, mem_names_iff, hget name hname]
  · obtain ⟨_, hkey, hname, hmem⟩ := (Context.mem_keys_shown c _).mp hkey
    cases hkey
    obtain ⟨v, hv⟩ := mem_names_iff.mp hmem
    rw [getItem_shown host site _ hname hv, eval_name, Context.lookup, hget name hname, hv]
    rfl
  · exact getItem_shown host site _ hname (h name j hname hj)

/-! ## Every reading is current -/

theorem all_recordText (host : Host) {c : Context} (hc : Ordered c) {added : Table Json}
    (h : Shows c added) (text : String) :
    All (Reading.Current host) (recordText host added c text) := by
  intro r hr
  cases List.mem_singleton.mp hr
  exact current_reflect host hc h text

mutual

theorem all_recordContext (host : Host) {c : Context} (hc : Ordered c) {added : Table Json}
    (h : Shows c added) :
    (f : Fragment) → All (Reading.Current host) (recordContext host added c f)
  | .literal j => all_pure (j, c)
  | .expression text => all_recordText host hc h text
  | .compound inner parts => by
    rw [recordContext]
    refine All.bind ?_ fun scope _ => ?_
    · split
      · exact all_pure []
      · -- the context of the compound starts anew
        have hinner := all_recordContext host (ordered_seed host []) (Shows.nil _) inner
        exact hinner.bind fun left _ => all_lift _
    · have hparts := all_recordContexts host (ordered_extend hc scope) (Shows.nil _) parts
      exact hparts.bind fun members _ => all_pure _

theorem all_recordContexts (host : Host) {c : Context} (hc : Ordered c) {result : Table Json}
    (h : Shows c result) :
    (fs : List Fragment) → All (Reading.Current host) (recordContexts host c result fs)
  | [] => all_pure result
  | f :: rest => by
    rw [recordContexts]
    split
    · exact all_recordContexts host hc h rest
    · refine (all_recordContext host hc h f).bind fun left hleft => ?_
      obtain ⟨j, d⟩ := left
      rw [outcome_recordContext] at hleft
      have hmirrors : Mirrors c d := evalContext_leaves hc hleft
      refine (all_lift (contextMembers j)).bind fun members _ => ?_
      exact all_recordContexts host (ordered_extend hmirrors.right members)
        ((h.mirrors hmirrors).extend members) rest

end

mutual

theorem all_recordDomain (host : Host) {c : Context} (hc : Ordered c) :
    (f : Fragment) → All (Reading.Current host) (recordDomain host c f)
  | .literal j => all_pure (j, c)
  | .expression text => all_recordText host hc (Shows.nil c) text
  | .compound inner parts => by
    rw [recordDomain]
    have hinner := all_recordContexts host (ordered_seed host []) (Shows.nil _) [inner]
    refine hinner.bind fun own _ => ?_
    have hparts := all_recordDomains host (ordered_extend hc own) (isMarked parts) parts
    exact hparts.bind fun items _ => all_pure _

theorem all_recordDomains (host : Host) {c : Context} (hc : Ordered c) (normalize : Bool) :
    (fs : List Fragment) → All (Reading.Current host) (recordDomains host c normalize fs)
  | [] => all_pure []
  | f :: rest => by
    rw [recordDomains]
    split
    · exact all_recordDomains host hc normalize rest
    · refine (all_recordDomain host hc f).bind fun left hleft => ?_
      obtain ⟨j, d⟩ := left
      rw [outcome_recordDomain] at hleft
      have hmirrors : Mirrors c d := evalDomain_leaves hc hleft
      refine (all_lift (domainItems j)).bind fun items _ => ?_
      exact (all_recordDomains host hmirrors.right normalize rest).bind fun later _ => all_pure _

end

theorem all_recordGroupBys (host : Host) {c : Context} (hc : Ordered c) {added : Table Json}
    (h : Shows c added) (fs : List Fragment) :
    All (Reading.Current host) (recordGroupBys host c added fs) := by
  induction fs generalizing c added with
  | nil => exact all_pure []
  | cons f rest ih =>
    rw [recordGroupBys]
    split
    · exact ih hc h
    · refine (all_recordContext host hc h f).bind fun left hleft => ?_
      obtain ⟨j, d⟩ := left
      rw [outcome_recordContext] at hleft
      have hmirrors : Mirrors c d := evalContext_leaves hc hleft
      have hrest := ih hmirrors.right (h.mirrors hmirrors)
      cases j with
      | object members =>
        refine (all_lift (groupNames? members)).bind fun found _ => ?_
        cases found with
        | none => exact hrest
        | some names =>
          have hlater := ih (ordered_extend hmirrors.right members)
            ((h.mirrors hmirrors).extend members)
          exact hlater.bind fun later _ => all_pure _
      | null | bool | int | float | str | array => exact hrest

/-- The name `context` is never stale. A composition of any kind can be run with a record of the
expressions that it evaluates, inside compounds too, each with the context that it is evaluated
in; the outcome is the same. In all of these contexts, whatever the base object and earlier
fragments have bound under `context`, that name is a dict whose keys are the other names of the
context, each with the value that the bare name has there, and it has all that earlier fragments
of the same list have added, with the value that was added last. -/
theorem context_current (host : Host) (kind : FragmentKind) (docs : List Json)
    (base : Table Json) :
    (record host kind docs base).outcome = evaluate host kind docs base ∧
      ∀ r ∈ (record host kind docs base).readings, r.Current host := by
  refine ⟨outcome_record host kind docs base, ?_⟩
  have hseed : Ordered (seed host base) := ordered_seed host base
  show All (Reading.Current host) (record host kind docs base)
  rw [record]
  refine (all_lift (Fragment.ofItems docs)).bind fun fragments _ => ?_
  cases kind with
  | context =>
    exact (all_recordContexts host hseed (Shows.nil _) fragments).bind fun _ _ => all_pure _
  | domain =>
    exact (all_recordDomains host hseed (isMarked fragments) fragments).bind
      fun _ _ => all_pure _
  | groupBy =>
    exact (all_recordGroupBys host hseed (Shows.nil _) fragments).bind fun _ _ => all_pure _

/-- A fragment that binds `context` itself, a compound with a context of its own, and an expression
after both. -/
def rebindingDocs : List Json :=
  [.object [("a", .str "x"), ("context", .null)],
    .object [("__contexts", .array [.str "c = context['a'] + context['b']"]),
      ("__eval_context", .str "b = 'y'"), ("__ref", .str "compound_context")],
    .str "d = context['c'] + a"]

/-- The last expression is evaluated after two others, and finds in `context` what the compound has
added, although the base object and the first fragment have bound that name. -/
theorem context_current_rebindingDocs :
    (record .idle .context rebindingDocs [("context", .int 1)]).readings.map Reading.text =
        ["b = 'y'", "c = context['a'] + context['b']", "d = context['c'] + a"] ∧
      ∃ r ∈ (record .idle .context rebindingDocs [("context", .int 1)]).readings,
        r.text = "d = context['c'] + a" ∧ get? r.added "c" = some (.str "xy") ∧
          r.Current .idle := by
  have hlast : ((record .idle .context rebindingDocs [("context", .int 1)]).readings[2]?).map
      (fun r => (r.text, (get? r.added "c").bind Json.text?)) =
        some ("d = context['c'] + a", some "xy") := by
    decide +kernel
  refine ⟨by decide +kernel, ?_⟩
  obtain ⟨r, hr, hpair⟩ := Option.map_eq_some_iff.mp hlast
  obtain ⟨htext, hadded⟩ := Prod.mk.inj hpair
  have hmem : r ∈ (record .idle .context rebindingDocs [("context", .int 1)]).readings :=
    List.mem_of_getElem? hr
  refine ⟨r, hmem, htext, ?_, (context_current .idle .context rebindingDocs _).2 r hmem⟩
  obtain ⟨j, hj, hadded⟩ := Option.bind_eq_some_iff.mp hadded
  cases j with
  | str text =>
    cases hadded
    exact hj
  | null | bool | int | float | array | object => cases hadded

end Composition

end FilterLang
