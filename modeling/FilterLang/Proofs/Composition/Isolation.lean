import FilterLang.Proofs.Composition.Restart
/-!
Compounds keep to themselves.

A composition is a run that carries a context from fragment to fragment: `contextAfter` says
which context the fragments after one are composed in, and a run over two lists is a run over
the first and one over the second in the context that the first leaves
(`composeFrom_append`). The context of a compound is composed apart from all that
(`contextOf_compound`, `domainOf_compound`), and what the compound leaves behind is the
context that it found, with at most its own result added (`contextAfter_compound`).
-/

namespace FilterLang.Composition

open Fallible Table

/-! ## Runs of any kind -/

/-- The context in which the fragments after a fragment are composed. -/
def contextAfter (host : Host) (kind : FragmentKind) (c : Context) (f : Fragment) :
    Outcome Context :=
  if f.isEmpty then .ok c
  else
    match kind with
    | .context => do
      let (j, d) ← evalContext host c f
      return extend d (← contextMembers j)
    | .domain => do
      let (j, d) ← evalDomain host c f
      let _ ← domainItems j
      return d
    | .groupBy => do
      let (j, d) ← evalContext host c f
      match j with
      | .object members =>
        match ← groupNames? members with
        | some _ => return extend d members
        | none => return d
      | _ => return d

/-- The context in which the fragments after several fragments are composed. -/
def contextsAfter (host : Host) (kind : FragmentKind) (c : Context) :
    List Fragment → Outcome Context
  | [] => .ok c
  | f :: rest => do contextsAfter host kind (← contextAfter host kind c f) rest

/-- What fragments of a kind compose to in a context, where it has been decided whether a
domain is normalized. -/
def composeFrom (host : Host) (kind : FragmentKind) (c : Context) (normalize : Bool)
    (fs : List Fragment) : Outcome Json :=
  match kind with
  | .context => do return .object (← composeContexts host c [] fs)
  | .domain => do return .array (← composeDomains host c normalize fs)
  | .groupBy => do return .array (← composeGroupBys host c fs)

theorem compose_eq_composeFrom (host : Host) (kind : FragmentKind) (c : Context)
    (fs : List Fragment) : compose host kind c fs = composeFrom host kind c (isMarked fs) fs := by
  cases kind <;> rfl

/-- What two runs make together. -/
def joined : Json → Json → Json
  | .object a, .object b => .object (overlay a b)
  | .array a, .array b => .array (a ++ b)
  | _, b => b

/-! ## Contexts in order -/

theorem ordered_contextAfter {host : Host} {kind : FragmentKind} {c d : Context} (hc : Ordered c)
    {f : Fragment} (h : contextAfter host kind c f = .ok d) : Ordered d := by
  unfold contextAfter at h
  split at h
  · cases h
    exact hc
  · cases kind with
    | context =>
      obtain ⟨⟨j, d'⟩, heval, h⟩ := bind_eq_ok.mp h
      obtain ⟨members, _, h⟩ := bind_eq_ok.mp h
      cases h
      exact ordered_extend (evalContext_leaves hc heval).right members
    | domain =>
      obtain ⟨⟨j, d'⟩, heval, h⟩ := bind_eq_ok.mp h
      obtain ⟨items, _, h⟩ := bind_eq_ok.mp h
      cases h
      exact (evalDomain_leaves hc heval).right
    | groupBy =>
      obtain ⟨⟨j, d'⟩, heval, h⟩ := bind_eq_ok.mp h
      have hd' : Ordered d' := (evalContext_leaves hc heval).right
      dsimp only at h
      split at h
      · rename_i members
        obtain ⟨names, _, h⟩ := bind_eq_ok.mp h
        cases names with
        | none =>
          cases h
          exact hd'
        | some names =>
          cases h
          exact ordered_extend hd' members
      · cases h
        exact hd'

theorem ordered_contextsAfter {host : Host} {kind : FragmentKind} {c d : Context}
    (hc : Ordered c) {fs : List Fragment} (h : contextsAfter host kind c fs = .ok d) :
    Ordered d := by
  induction fs generalizing c with
  | nil =>
    cases h
    exact hc
  | cons f rest ih =>
    obtain ⟨c', hstep, h⟩ := bind_eq_ok.mp h
    exact ih (ordered_contextAfter hc hstep) h

/-! ## What runs make -/

/-- What a run of a kind can make. -/
inductive IsResult : FragmentKind → Json → Prop
  | context {members : Table Json} (h : Ordered members) : IsResult .context (.object members)
  | domain (items : List Json) : IsResult .domain (.array items)
  | groupBy (names : List Json) : IsResult .groupBy (.array names)

theorem isResult_composeFrom {host : Host} {kind : FragmentKind} {c : Context} (hc : Ordered c)
    {normalize : Bool} {fs : List Fragment} {made : Json}
    (h : composeFrom host kind c normalize fs = .ok made) : IsResult kind made := by
  cases kind with
  | context =>
    obtain ⟨members, hmembers, h⟩ := bind_eq_ok.mp h
    cases h
    exact .context (ordered_of_composeContexts hc hmembers)
  | domain =>
    obtain ⟨items, _, h⟩ := bind_eq_ok.mp h
    cases h
    exact .domain items
  | groupBy =>
    obtain ⟨names, _, h⟩ := bind_eq_ok.mp h
    cases h
    exact .groupBy names

theorem joined_assoc {kind : FragmentKind} {a b c : Json} (ha : IsResult kind a)
    (hb : IsResult kind b) (hc : IsResult kind c) :
    joined a (joined b c) = joined (joined a b) c := by
  cases ha with
  | context ha =>
    cases hb with
    | context hb =>
      cases hc
      exact congrArg Json.object (overlay_overlay ha hb _)
  | domain a =>
    cases hb with
    | domain b =>
      cases hc with
      | domain c => exact congrArg Json.array (List.append_assoc a b c).symm
  | groupBy a =>
    cases hb with
    | groupBy b =>
      cases hc with
      | groupBy c => exact congrArg Json.array (List.append_assoc a b c).symm

/-- A run over no fragments makes nothing that could be seen in what follows. -/
theorem composeFrom_nil (host : Host) (kind : FragmentKind) {c : Context} (hc : Ordered c)
    (normalize : Bool) (fs : List Fragment) :
    (composeFrom host kind c normalize [] >>= fun own =>
        composeFrom host kind c normalize fs >>= fun more => .ok (joined own more)) =
      composeFrom host kind c normalize fs := by
  cases hmade : composeFrom host kind c normalize fs with
  | error e => cases kind <;> rfl
  | ok made =>
    cases isResult_composeFrom hc hmade with
    | context hmembers => exact congrArg (Except.ok ∘ Json.object) (overlay_nil hmembers)
    | domain items => rfl
    | groupBy names => rfl

/-! ## One fragment and the rest -/

theorem composeFrom_empty (host : Host) (kind : FragmentKind) (c : Context) (normalize : Bool)
    {f : Fragment} (hf : f.isEmpty = true) (rest : List Fragment) :
    composeFrom host kind c normalize (f :: rest) = composeFrom host kind c normalize rest := by
  cases kind with
  | context => rw [composeFrom, composeFrom, composeContexts, if_pos hf]
  | domain => rw [composeFrom, composeFrom, composeDomains, if_pos hf]
  | groupBy => rw [composeFrom, composeFrom, composeGroupBys, if_pos hf]

theorem composeFrom_cons_context (host : Host) {c : Context} (hc : Ordered c) (normalize : Bool)
    {f : Fragment} (hf : f.isEmpty = false) (rest : List Fragment) :
    composeFrom host .context c normalize (f :: rest) =
      composeFrom host .context c normalize [f] >>= fun own =>
        contextAfter host .context c f >>= fun d =>
          composeFrom host .context d normalize rest >>= fun more => .ok (joined own more) := by
  unfold composeFrom contextAfter
  simp only [composeContexts, hf]
  cases heval : evalContext host c f with
  | error e => rfl
  | ok left =>
    obtain ⟨j, d⟩ := left
    have hd : Ordered d := (evalContext_leaves hc heval).right
    cases hmembers : contextMembers j with
    | error e => simp [hmembers]
    | ok members =>
      have hfirst : Ordered (overlay [] members) := ordered_overlay ordered_nil members
      simp only [Bool.false_eq_true, if_false, ok_bind, hmembers, pure_eq]
      rw [composeContexts_result host (ordered_extend hd members) hfirst, bind_assoc, bind_assoc]
      rfl

theorem composeFrom_cons_domain (host : Host) (c : Context) (normalize : Bool)
    {f : Fragment} (hf : f.isEmpty = false) (rest : List Fragment) :
    composeFrom host .domain c normalize (f :: rest) =
      composeFrom host .domain c normalize [f] >>= fun own =>
        contextAfter host .domain c f >>= fun d =>
          composeFrom host .domain d normalize rest >>= fun more => .ok (joined own more) := by
  unfold composeFrom contextAfter
  simp only [composeDomains, hf]
  cases heval : evalDomain host c f with
  | error e => rfl
  | ok left =>
    obtain ⟨j, d⟩ := left
    cases hitems : domainItems j with
    | error e => simp [hitems]
    | ok items =>
      simp only [Bool.false_eq_true, if_false, ok_bind, hitems, pure_eq, List.append_nil,
        bind_assoc]
      rfl

theorem composeFrom_cons_groupBy (host : Host) (c : Context) (normalize : Bool)
    {f : Fragment} (hf : f.isEmpty = false) (rest : List Fragment) :
    composeFrom host .groupBy c normalize (f :: rest) =
      composeFrom host .groupBy c normalize [f] >>= fun own =>
        contextAfter host .groupBy c f >>= fun d =>
          composeFrom host .groupBy d normalize rest >>= fun more => .ok (joined own more) := by
  unfold composeFrom contextAfter
  simp only [composeGroupBys, hf]
  cases heval : evalContext host c f with
  | error e => rfl
  | ok left =>
    obtain ⟨j, d⟩ := left
    cases j with
    | object members =>
      cases hnames : groupNames? members with
      | error e => simp [hnames]
      | ok names =>
        cases names with
        | none =>
          simp only [Bool.false_eq_true, if_false, ok_bind, hnames, pure_eq, bind_assoc]
          rfl
        | some names =>
          simp only [Bool.false_eq_true, if_false, ok_bind, hnames, pure_eq, List.append_nil,
            bind_assoc]
          rfl
    | null | bool | int | float | str | array =>
      simp only [Bool.false_eq_true, if_false, ok_bind, pure_eq, bind_assoc]
      rfl

/-- What a run makes of a fragment and the rest: what it makes of the fragment alone, and what
it makes of the rest in the context after the fragment. -/
theorem composeFrom_cons (host : Host) (kind : FragmentKind) {c : Context} (hc : Ordered c)
    (normalize : Bool) (f : Fragment) (rest : List Fragment) :
    composeFrom host kind c normalize (f :: rest) =
      composeFrom host kind c normalize [f] >>= fun own =>
        contextAfter host kind c f >>= fun d =>
          composeFrom host kind d normalize rest >>= fun more => .ok (joined own more) := by
  cases hf : f.isEmpty with
  | true =>
    rw [composeFrom_empty host kind c normalize hf, composeFrom_empty host kind c normalize hf]
    unfold contextAfter
    rw [if_pos hf]
    exact (composeFrom_nil host kind hc normalize rest).symm
  | false =>
    cases kind with
    | context => exact composeFrom_cons_context host hc normalize hf rest
    | domain => exact composeFrom_cons_domain host c normalize hf rest
    | groupBy => exact composeFrom_cons_groupBy host c normalize hf rest

/-! ## Several fragments and the rest -/

theorem contextsAfter_append (host : Host) (kind : FragmentKind) (c : Context)
    (fs gs : List Fragment) :
    contextsAfter host kind c (fs ++ gs) =
      contextsAfter host kind c fs >>= fun d => contextsAfter host kind d gs := by
  induction fs generalizing c with
  | nil => rfl
  | cons f rest ih =>
    rw [List.cons_append, contextsAfter, contextsAfter, bind_assoc]
    exact bind_congr fun d => ih d

/-- A run over two lists of fragments is a run over the first, and one over the second in
the context that the first leaves. -/
theorem composeFrom_append (host : Host) (kind : FragmentKind) {c : Context} (hc : Ordered c)
    (normalize : Bool) (fs gs : List Fragment) :
    composeFrom host kind c normalize (fs ++ gs) =
      composeFrom host kind c normalize fs >>= fun own =>
        contextsAfter host kind c fs >>= fun d =>
          composeFrom host kind d normalize gs >>= fun more => .ok (joined own more) := by
  induction fs generalizing c with
  | nil => exact (composeFrom_nil host kind hc normalize gs).symm
  | cons f rest ih =>
    rw [List.cons_append, composeFrom_cons host kind hc normalize f (rest ++ gs),
      composeFrom_cons host kind hc normalize f rest, contextsAfter, bind_assoc]
    refine bind_congr_ok fun own hown => ?_
    cases hstep : contextAfter host kind c f with
    | error e => rfl
    | ok c' =>
      have hc' : Ordered c' := ordered_contextAfter hc hstep
      rw [ok_bind, ok_bind, ih hc', bind_assoc, bind_assoc]
      refine bind_congr_ok fun made hmade => ?_
      rw [ok_bind, ok_bind, bind_assoc]
      refine bind_congr_ok fun d hd => ?_
      rw [bind_assoc]
      refine bind_congr_ok fun more hmore => ?_
      -- what the fragment makes comes first either way
      rw [ok_bind, joined_assoc (isResult_composeFrom hc hown) (isResult_composeFrom hc' hmade)
        (isResult_composeFrom (ordered_contextsAfter hc' hd) hmore)]

/-! ## Compounds -/

/-- The context of a compound is composed from the seed alone, whatever the context around
it. -/
theorem contextOf_compound (host : Host) {c : Context} (hc : Ordered c) (inner : Fragment)
    (parts : List Fragment) :
    contextOf host c (.compound inner parts) =
      composeContexts host (seed host []) [] [inner] >>= fun own =>
        composeContexts host (extend c own) [] parts := by
  rw [contextOf, evalContext, composeContexts]
  cases hinner : inner.isEmpty with
  | true =>
    rw [if_pos rfl, if_pos rfl, composeContexts, pure_eq, ok_bind, ok_bind, bind_assoc]
    exact bind_pure _
  | false =>
    rw [if_neg Bool.false_ne_true, if_neg Bool.false_ne_true, bind_assoc, bind_assoc, bind_assoc]
    refine bind_congr fun left => ?_
    obtain ⟨j, _⟩ := left
    dsimp only
    rw [bind_assoc]
    refine bind_congr fun members => ?_
    rw [composeContexts, ok_bind, extend_overlay hc ordered_nil, bind_assoc]
    exact bind_pure _

theorem domainOf_compound (host : Host) (c : Context) (inner : Fragment)
    (parts : List Fragment) :
    domainOf host c (.compound inner parts) =
      composeContexts host (seed host []) [] [inner] >>= fun own =>
        composeDomains host (extend c own) (isMarked parts) parts := by
  rw [domainOf, evalDomain, compoundScope, bind_assoc, bind_assoc]
  refine bind_congr fun own => ?_
  rw [pure_eq, ok_bind, bind_assoc]
  exact bind_pure _

theorem get?_extend_of_notMem (c : Context) {members : Table Json} {name : String}
    (h : name ∉ names members) : get? (extend c members) name = get? c name := by
  apply get?_overlay_of_notMem
  rw [names, List.map_map]
  exact h

/-- A compound in a context gives an object, and leaves the context that it found. -/
theorem evalContext_compound {host : Host} {c d : Context} {inner : Fragment}
    {parts : List Fragment} {j : Json}
    (h : evalContext host c (.compound inner parts) = .ok (j, d)) :
    d = c ∧ ∃ members, j = .object members ∧
      contextOf host c (.compound inner parts) = .ok members := by
  have hown : contextOf host c (.compound inner parts) = contextMembers j := by
    rw [contextOf, h, ok_bind]
  rw [evalContext] at h
  obtain ⟨scope, _, h⟩ := bind_eq_ok.mp h
  obtain ⟨members, _, h⟩ := bind_eq_ok.mp h
  cases h
  exact ⟨rfl, members, rfl, hown⟩

/-- After a compound in a context or a group-by, the context is the one before it in all
names but those of the compound's result. -/
theorem contextAfter_compound {host : Host} {kind : FragmentKind} (hkind : kind ≠ .domain)
    {c d : Context} {inner : Fragment} {parts : List Fragment}
    (h : contextAfter host kind c (.compound inner parts) = .ok d) :
    ∃ members, contextOf host c (.compound inner parts) = .ok members ∧
      ∀ name, name ∉ names members → get? d name = get? c name := by
  cases kind with
  | domain => exact absurd rfl hkind
  | context =>
    obtain ⟨⟨j, d'⟩, heval, h⟩ := bind_eq_ok.mp h
    obtain ⟨rfl, members, rfl, hown⟩ := evalContext_compound heval
    cases h
    exact ⟨members, hown, fun name => get?_extend_of_notMem d'⟩
  | groupBy =>
    obtain ⟨⟨j, d'⟩, heval, h⟩ := bind_eq_ok.mp h
    obtain ⟨rfl, members, rfl, hown⟩ := evalContext_compound heval
    obtain ⟨names?, _, h⟩ := bind_eq_ok.mp h
    refine ⟨members, hown, ?_⟩
    cases names? with
    | none =>
      cases h
      exact fun _ _ => rfl
    | some asked =>
      cases h
      exact fun name => get?_extend_of_notMem d'

theorem contextAfter_compound_domain {host : Host} {c d : Context} {inner : Fragment}
    {parts : List Fragment} (h : contextAfter host .domain c (.compound inner parts) = .ok d) :
    d = c := by
  obtain ⟨⟨j, d'⟩, heval, h⟩ := bind_eq_ok.mp h
  obtain ⟨items, _, h⟩ := bind_eq_ok.mp h
  cases h
  rw [evalDomain] at heval
  obtain ⟨scope, _, heval⟩ := bind_eq_ok.mp heval
  obtain ⟨made, _, heval⟩ := bind_eq_ok.mp heval
  cases heval
  rfl

theorem isMarked_append_cons (fs : List Fragment) (f : Fragment) (gs : List Fragment) :
    isMarked (fs ++ f :: gs) = isMarked (fs ++ [f]) := by
  cases fs <;> rfl

/-- A compound is isolated from the fragments around it. Its own context is composed from
the seed, so it is the same in every context. The context after it is the one before it in
all names but those of its result, and the same in a domain; and that context is all that
the later fragments of a composition get from it. -/
theorem compound_isolated (host : Host) (inner : Fragment) (parts : List Fragment) :
    (∀ c, Ordered c →
      contextOf host c (.compound inner parts) =
        (composeContexts host (seed host []) [] [inner] >>= fun own =>
          composeContexts host (extend c own) [] parts) ∧
      domainOf host c (.compound inner parts) =
        (composeContexts host (seed host []) [] [inner] >>= fun own =>
          composeDomains host (extend c own) (isMarked parts) parts)) ∧
    ∀ (kind : FragmentKind) (start c d : Context) (before : List Fragment), Ordered start →
      contextsAfter host kind start before = .ok c →
      contextAfter host kind c (.compound inner parts) = .ok d →
      (kind = .domain → d = c) ∧
      (kind ≠ .domain → ∃ members, contextOf host c (.compound inner parts) = .ok members ∧
        ∀ name, name ∉ names members → get? d name = get? c name) ∧
      ∀ later, compose host kind start (before ++ .compound inner parts :: later) =
        compose host kind start (before ++ [.compound inner parts]) >>= fun own =>
          composeFrom host kind d (isMarked (before ++ [.compound inner parts])) later >>=
            fun more => .ok (joined own more) := by
  constructor
  · intro c hc
    exact ⟨contextOf_compound host hc inner parts, domainOf_compound host c inner parts⟩
  · intro kind start c d before hstart hbefore hcompound
    refine ⟨?_, fun hkind => contextAfter_compound hkind hcompound, ?_⟩
    · rintro rfl
      exact contextAfter_compound_domain hcompound
    · intro later
      have hafter : contextsAfter host kind start (before ++ [.compound inner parts]) = .ok d := by
        rw [contextsAfter_append, hbefore, ok_bind, contextsAfter, hcompound]
        rfl
      have hsplit : before ++ Fragment.compound inner parts :: later =
          (before ++ [.compound inner parts]) ++ later := by
        rw [List.append_assoc, List.singleton_append]
      rw [compose_eq_composeFrom, compose_eq_composeFrom, isMarked_append_cons, hsplit,
        composeFrom_append host kind hstart, hafter]
      rfl

/-- A context with a name besides those of the calendar. -/
def namedStart : Context := seed .idle [("uid", .str "me")]

/-- Parts of a compound: another compound, with one result from the contexts of both and from
an earlier name. -/
def nestedParts : List Fragment :=
  [.compound (.expression "deep = 'b'") [.expression "shown = hidden + deep + early"]]

/-- A compound around these parts, with a name of its own. -/
def nestedCompound : Fragment := .compound (.expression "hidden = 'a'") nestedParts

/-- The names of the contexts of both compounds are not there afterwards. -/
theorem compound_isolated_nestedCompound :
    ∃ (c d : Context) (members : Table Json),
      contextsAfter .idle .context namedStart [.expression "early = 'c'"] = .ok c ∧
      contextAfter .idle .context c nestedCompound = .ok d ∧
      contextOf .idle c nestedCompound = .ok members ∧ names members = ["shown"] ∧
      get? d "hidden" = get? c "hidden" ∧ get? d "deep" = get? c "deep" ∧
      ∀ later, compose .idle .context namedStart
          (.expression "early = 'c'" :: nestedCompound :: later) =
        compose .idle .context namedStart [.expression "early = 'c'", nestedCompound] >>= fun own =>
          composeFrom .idle .context d false later >>= fun more => .ok (joined own more) := by
  have hshown : (contextsAfter .idle .context namedStart [.expression "early = 'c'"] >>= fun c =>
      contextAfter .idle .context c nestedCompound >>= fun _ =>
        contextOf .idle c nestedCompound).toOption.map names = some ["shown"] := by
    decide +kernel
  cases hc : contextsAfter .idle .context namedStart [.expression "early = 'c'"] with
  | error e =>
    rw [hc] at hshown
    cases hshown
  | ok c =>
    rw [hc, ok_bind] at hshown
    cases hd : contextAfter .idle .context c nestedCompound with
    | error e =>
      rw [hd] at hshown
      cases hshown
    | ok d =>
      obtain ⟨_, hframe, hrun⟩ := (compound_isolated .idle (.expression "hidden = 'a'")
        nestedParts).2 .context _ c d _ (ordered_seed .idle _) hc hd
      obtain ⟨members, hmembers, hkept⟩ := hframe (by decide)
      have hown : contextOf .idle c nestedCompound = .ok members := hmembers
      rw [hd, ok_bind, hown] at hshown
      have hnames : names members = ["shown"] := Option.some.inj hshown
      refine ⟨c, d, members, rfl, hd, hown, hnames, hkept "hidden" ?_, hkept "deep" ?_, hrun⟩
      · rw [hnames]
        decide
      · rw [hnames]
        decide

end FilterLang.Composition
