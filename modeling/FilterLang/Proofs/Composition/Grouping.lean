import FilterLang.Proofs.Composition.Isolation
/-!
Group-bys: what each fragment contributes, and what the later ones see of it.

A group-by is told by rules, one for each way in which a fragment can take part (`Grouped`): it
is empty, or it evaluates to something that asks for nothing (`Idle`), or to an object that asks
for names (`Asks`). Only the last kind is added to the context of the fragments after it, so a
fragment of the other kinds can be taken away without a trace (`Grouped.eraseIdx`). Composition
finds exactly the groupings that follow these rules (`composeGroupBys_eq_ok`). What an object adds
is seen by all fragments after it, until another one adds the same name (`Grouped.scope`); only
what it adds under `context` is covered by the context that every expression is shown.
-/

namespace FilterLang.Composition

open Fallible Table

/-! ## What an evaluated fragment asks for -/

/-- The names that an object asks to group by: a text that is not empty alone, or the items of a
list. -/
inductive Asks (members : Table Json) : List Json → Prop
  | text {name : String} (h : get? members "group_by" = some (.str name)) (hname : name ≠ "") :
      Asks members [.str name]
  | list {asked : List Json} (h : get? members "group_by" = some (.array asked)) :
      Asks members asked

/-- A document that asks for no names: it is no object, or an object whose `group_by` is missing,
null, false, an empty text or zero. -/
inductive Idle : Json → Prop
  | value {j : Json} (h : ∀ members, j ≠ .object members) : Idle j
  | missing {members : Table Json} (h : get? members "group_by" = none) : Idle (.object members)
  | null {members : Table Json} (h : get? members "group_by" = some .null) :
      Idle (.object members)
  | bool {members : Table Json} (h : get? members "group_by" = some (.bool false)) :
      Idle (.object members)
  | text {members : Table Json} (h : get? members "group_by" = some (.str "")) :
      Idle (.object members)
  | int {members : Table Json} (h : get? members "group_by" = some (.int 0)) :
      Idle (.object members)
  | float {members : Table Json} {x : Float} (h : get? members "group_by" = some (.float x))
      (hx : (x == 0.0) = true) : Idle (.object members)

theorem Asks.groupNames? {members : Table Json} {asked : List Json} (h : Asks members asked) :
    Composition.groupNames? members = .ok (some asked) := by
  cases h with
  | @text name h hname =>
    have hname : name.isEmpty = false := by simpa using hname
    rw [Composition.groupNames?, h]
    simp [hname]
  | list h => rw [Composition.groupNames?, h]

theorem Idle.groupNames? {members : Table Json} (h : Idle (.object members)) :
    Composition.groupNames? members = .ok none := by
  cases h with
  | value h => exact absurd rfl (h members)
  | missing h | null h | bool h => rw [Composition.groupNames?, h]
  | text h | int h =>
    rw [Composition.groupNames?, h]
    rfl
  | float h hx => simp [Composition.groupNames?, h, hx]

/-- Names are looked for in an object without a failure only where it asks for names or is
idle. -/
theorem idle_or_asks {members : Table Json} {found : Option (List Json)}
    (h : groupNames? members = .ok found) :
    Idle (.object members) ∨ ∃ asked, Asks members asked := by
  rw [groupNames?] at h
  cases hget : get? members "group_by" with
  | none => exact .inl (.missing hget)
  | some j =>
    rw [hget] at h
    cases j with
    | null => exact .inl (.null hget)
    | bool b =>
      cases b with
      | false => exact .inl (.bool hget)
      | true => cases h
    | int n =>
      by_cases hn : n = 0
      · subst hn
        exact .inl (.int hget)
      · simp [hn] at h
    | float x =>
      by_cases hx : (x == 0.0) = true
      · exact .inl (.float hget hx)
      · simp [hx] at h
    | str name =>
      by_cases hname : name = ""
      · subst hname
        exact .inl (.text hget)
      · exact .inr ⟨_, .text hget hname⟩
    | array asked => exact .inr ⟨asked, .list hget⟩
    | object members => cases h

/-! ## Runs -/

/-- The name `context` that an expression leaves behind does not matter to a group-by. -/
theorem composeGroupBys_mirrors (host : Host) {c d : Context} (h : Mirrors c d)
    (fs : List Fragment) : composeGroupBys host c fs = composeGroupBys host d fs := by
  induction fs generalizing c d with
  | nil => rfl
  | cons f rest ih =>
    rw [composeGroupBys, composeGroupBys]
    by_cases hf : f.isEmpty = true
    · rw [if_pos hf, if_pos hf]
      exact ih h
    · rw [if_neg hf, if_neg hf]
      refine (evalContext_mirrors host h f).bind_eq ?_
      rintro ⟨j, c'⟩ ⟨_, d'⟩ ⟨rfl, hmirrors⟩
      cases j with
      | object members =>
        refine bind_congr fun found => ?_
        cases found with
        | none => exact ih hmirrors
        | some asked => exact congrArg (· >>= _) (ih (hmirrors.extend members))
      | null | bool | int | float | str | array => exact ih hmirrors

section Fragments

variable {host : Host} {c d : Context} {f : Fragment}

/-- A fragment that asks for nothing is passed over. -/
theorem composeGroupBys_idle (hc : Ordered c) (hf : f.isEmpty = false) {j : Json}
    (heval : evalContext host c f = .ok (j, d)) (hj : Idle j) (rest : List Fragment) :
    composeGroupBys host c (f :: rest) = composeGroupBys host c rest := by
  have hleft : composeGroupBys host d rest = composeGroupBys host c rest :=
    (composeGroupBys_mirrors host (evalContext_leaves hc heval) rest).symm
  rw [composeGroupBys, if_neg (by simp [hf]), heval, ok_bind]
  cases j with
  | object members =>
    dsimp only
    rw [hj.groupNames?, ok_bind]
    exact hleft
  | null | bool | int | float | str | array => exact hleft

/-- A fragment that asks for names adds them, and its members to the context. -/
theorem composeGroupBys_asks (hc : Ordered c) (hf : f.isEmpty = false) {members : Table Json}
    (heval : evalContext host c f = .ok (.object members, d)) {asked : List Json}
    (hasks : Asks members asked) (rest : List Fragment) :
    composeGroupBys host c (f :: rest) =
      composeGroupBys host (extend c members) rest >>= fun later => .ok (asked ++ later) := by
  rw [composeGroupBys, if_neg (by simp [hf]), heval, ok_bind]
  dsimp only
  rw [hasks.groupNames?, ok_bind,
    composeGroupBys_mirrors host ((evalContext_leaves hc heval).extend members)]
  rfl

/-- A fragment that a group-by gets past either asks for nothing or asks for names. -/
theorem evalContext_of_composeGroupBys (hf : f.isEmpty = false) {rest : List Fragment}
    {out : List Json} (h : composeGroupBys host c (f :: rest) = .ok out) :
    ∃ j d, evalContext host c f = .ok (j, d) ∧
      (Idle j ∨ ∃ members asked, j = .object members ∧ Asks members asked) := by
  rw [composeGroupBys, if_neg (by simp [hf])] at h
  obtain ⟨⟨j, d⟩, heval, h⟩ := bind_eq_ok.mp h
  refine ⟨j, d, heval, ?_⟩
  cases j with
  | object members =>
    obtain ⟨found, hfound, _⟩ := bind_eq_ok.mp h
    refine (idle_or_asks hfound).imp_right ?_
    rintro ⟨asked, hasks⟩
    exact ⟨members, asked, rfl, hasks⟩
  | null | bool | int | float | str | array =>
    refine .inl (.value fun members hj => ?_)
    cases hj

end Fragments

/-! ## Groupings -/

/-- How a fragment takes part in a group-by: the context that it is evaluated in, what it
evaluates to, and the names that it contributes. -/
structure Step where
  scope : Context
  value : Json
  asked : List Json

/-- The group-bys of lists of fragments that start in a context. -/
inductive Grouped (host : Host) : Context → List Fragment → List Step → Prop
  | nil (c : Context) : Grouped host c [] []
  /-- An empty fragment is not evaluated. -/
  | empty {c : Context} {f : Fragment} {fs : List Fragment} {steps : List Step}
      (hf : f.isEmpty = true) (h : Grouped host c fs steps) :
      Grouped host c (f :: fs) (⟨c, .null, []⟩ :: steps)
  /-- A fragment that asks for nothing changes nothing. -/
  | idle {c d : Context} {f : Fragment} {j : Json} {fs : List Fragment} {steps : List Step}
      (hf : f.isEmpty = false) (heval : evalContext host c f = .ok (j, d)) (hj : Idle j)
      (h : Grouped host c fs steps) : Grouped host c (f :: fs) (⟨c, j, []⟩ :: steps)
  /-- An object that asks for names is added to the context. -/
  | asks {c d : Context} {f : Fragment} {members : Table Json} {asked : List Json}
      {fs : List Fragment} {steps : List Step} (hf : f.isEmpty = false)
      (heval : evalContext host c f = .ok (.object members, d)) (hasks : Asks members asked)
      (h : Grouped host (extend c members) fs steps) :
      Grouped host c (f :: fs) (⟨c, .object members, asked⟩ :: steps)

/-- Composition finds the grouping that follows the rules, and fails where there is none. -/
theorem composeGroupBys_eq_ok {host : Host} {c : Context} (hc : Ordered c) {fs : List Fragment}
    {out : List Json} :
    composeGroupBys host c fs = .ok out ↔
      ∃ steps, Grouped host c fs steps ∧ out = steps.flatMap Step.asked := by
  constructor
  · intro h
    induction fs generalizing c out with
    | nil =>
      cases h
      exact ⟨[], .nil c, rfl⟩
    | cons f rest ih =>
      cases hf : f.isEmpty with
      | true =>
        rw [composeGroupBys, if_pos hf] at h
        obtain ⟨steps, hsteps, rfl⟩ := ih hc h
        exact ⟨_, .empty hf hsteps, rfl⟩
      | false =>
        obtain ⟨j, d, heval, hj | ⟨members, asked, rfl, hasks⟩⟩ :=
          evalContext_of_composeGroupBys hf h
        · rw [composeGroupBys_idle hc hf heval hj] at h
          obtain ⟨steps, hsteps, rfl⟩ := ih hc h
          exact ⟨_, .idle hf heval hj hsteps, rfl⟩
        · rw [composeGroupBys_asks hc hf heval hasks] at h
          obtain ⟨later, hlater, h⟩ := bind_eq_ok.mp h
          obtain ⟨steps, hsteps, rfl⟩ := ih (ordered_extend hc members) hlater
          cases h
          exact ⟨_, .asks hf heval hasks hsteps, rfl⟩
  · rintro ⟨steps, hsteps, rfl⟩
    induction hsteps with
    | nil c => rfl
    | empty hf _ ih =>
      rw [composeGroupBys, if_pos hf]
      exact ih hc
    | idle hf heval hj _ ih =>
      rw [composeGroupBys_idle hc hf heval hj]
      exact ih hc
    | asks hf heval hasks _ ih =>
      rw [composeGroupBys_asks hc hf heval hasks, ih (ordered_extend hc _)]
      rfl

/-- An object that asks for names is not idle. -/
theorem Asks.not_idle {members : Table Json} {asked : List Json} (h : Asks members asked) :
    ¬ Idle (.object members) := by
  intro hidle
  have hfound := h.groupNames?.symm.trans hidle.groupNames?
  cases hfound

theorem Asks.unique {members : Table Json} {asked asked' : List Json} (h : Asks members asked)
    (h' : Asks members asked') : asked' = asked := by
  have hfound := h'.groupNames?.symm.trans h.groupNames?
  cases hfound
  rfl

/-- A step adds a name to the context of the steps after it. -/
def Step.Adds (s : Step) (name : String) : Prop :=
  ∃ members, s.value = .object members ∧ ¬ Idle s.value ∧ name ∈ names members

namespace Grouped

variable {host : Host} {c : Context} {fs : List Fragment} {steps : List Step}

theorem of_empty {f : Fragment} (h : Grouped host c (f :: fs) steps) (hf : f.isEmpty = true) :
    ∃ later, steps = ⟨c, .null, []⟩ :: later ∧ Grouped host c fs later := by
  cases h with
  | empty _ h => exact ⟨_, rfl, h⟩
  | idle hf' | asks hf' =>
    rw [hf] at hf'
    cases hf'

theorem of_idle {d : Context} {f : Fragment} {j : Json} (h : Grouped host c (f :: fs) steps)
    (hf : f.isEmpty = false) (heval : evalContext host c f = .ok (j, d)) (hj : Idle j) :
    ∃ later, steps = ⟨c, j, []⟩ :: later ∧ Grouped host c fs later := by
  cases h with
  | empty hf' =>
    rw [hf] at hf'
    cases hf'
  | idle _ heval' _ h =>
    cases heval.symm.trans heval'
    exact ⟨_, rfl, h⟩
  | asks _ heval' hasks =>
    cases heval.symm.trans heval'
    exact absurd hj hasks.not_idle

theorem of_asks {d : Context} {f : Fragment} {members : Table Json} {asked : List Json}
    (h : Grouped host c (f :: fs) steps) (hf : f.isEmpty = false)
    (heval : evalContext host c f = .ok (.object members, d)) (hasks : Asks members asked) :
    ∃ later, steps = ⟨c, .object members, asked⟩ :: later ∧
      Grouped host (extend c members) fs later := by
  cases h with
  | empty hf' =>
    rw [hf] at hf'
    cases hf'
  | idle _ heval' hj =>
    cases heval.symm.trans heval'
    exact absurd hj hasks.not_idle
  | asks _ heval' hasks' h =>
    cases heval.symm.trans heval'
    cases hasks.unique hasks'
    exact ⟨_, rfl, h⟩

/-- The rules leave no choice. -/
theorem unique (h : Grouped host c fs steps) {other : List Step} (h' : Grouped host c fs other) :
    other = steps := by
  induction h generalizing other with
  | nil c =>
    cases h'
    rfl
  | empty hf _ ih =>
    obtain ⟨later, rfl, hlater⟩ := h'.of_empty hf
    rw [ih hlater]
  | idle hf heval hj _ ih =>
    obtain ⟨later, rfl, hlater⟩ := h'.of_idle hf heval hj
    rw [ih hlater]
  | asks hf heval hasks _ ih =>
    obtain ⟨later, rfl, hlater⟩ := h'.of_asks hf heval hasks
    rw [ih hlater]

/-- A grouping evaluates its first fragment in the context that it starts in, and goes on in one
that it makes of that. -/
theorem of_cons {f : Fragment} (h : Grouped host c (f :: fs) steps) :
    ∃ s d later, steps = s :: later ∧ s.scope = c ∧ Grouped host d fs later := by
  cases h with
  | empty _ h | idle _ _ _ h | asks _ _ _ h => exact ⟨_, _, _, rfl, rfl, h⟩

/-- A fragment that asks for nothing can be taken out of a grouping. -/
theorem eraseIdx (h : Grouped host c fs steps) {i : Nat} {s : Step} (hi : steps[i]? = some s)
    (hs : Idle s.value) :
    Grouped host c (fs.eraseIdx i) (steps.eraseIdx i) ∧
      (steps.eraseIdx i).flatMap Step.asked = steps.flatMap Step.asked := by
  induction h generalizing i with
  | nil c => cases hi
  | empty hf h ih =>
    cases i with
    | zero => exact ⟨h, rfl⟩
    | succ i =>
      obtain ⟨hsteps, hasked⟩ := ih hi
      exact ⟨.empty hf hsteps, hasked⟩
  | idle hf heval hj h ih =>
    cases i with
    | zero => exact ⟨h, rfl⟩
    | succ i =>
      obtain ⟨hsteps, hasked⟩ := ih hi
      exact ⟨.idle hf heval hj hsteps, hasked⟩
  | asks hf heval hasks h ih =>
    cases i with
    | zero =>
      cases hi
      exact absurd hs hasks.not_idle
    | succ i =>
      obtain ⟨hsteps, hasked⟩ := ih hi
      exact ⟨.asks hf heval hasks hsteps, congrArg (_ ++ ·) hasked⟩

/-- A name keeps its value as long as no step adds it. -/
theorem scope_of_not_adds (h : Grouped host c fs steps) {k : Nat} {t : Step}
    (hk : steps[k]? = some t) {name : String}
    (hadds : ∀ m u, m < k → steps[m]? = some u → ¬ u.Adds name) :
    get? t.scope name = get? c name := by
  induction h generalizing k with
  | nil c => cases hk
  | empty _ _ ih | idle _ _ _ _ ih =>
    cases k with
    | zero =>
      cases hk
      rfl
    | succ k => exact ih hk fun m u hm => hadds (m + 1) u (Nat.succ_lt_succ hm)
  | @asks c d f members asked fs steps hf heval hasks h ih =>
    cases k with
    | zero =>
      cases hk
      rfl
    | succ k =>
      have hname : name ∉ names members := fun hname =>
        hadds 0 _ (Nat.succ_pos k) rfl ⟨members, rfl, hasks.not_idle, hname⟩
      rw [ih hk fun m u hm => hadds (m + 1) u (Nat.succ_lt_succ hm)]
      exact get?_extend_of_notMem c hname

/-- After an object that asks for names the grouping goes on in the context that has its
members. -/
theorem after_asks (h : Grouped host c fs steps) {i : Nat} {s : Step} (hi : steps[i]? = some s)
    {members : Table Json} {asked : List Json} (hs : s.value = .object members)
    (hasks : Asks members asked) :
    ∃ later, Grouped host (extend s.scope members) later (steps.drop (i + 1)) := by
  induction h generalizing i with
  | nil c => cases hi
  | empty _ _ ih =>
    cases i with
    | zero =>
      cases hi
      cases hs
    | succ i => exact ih hi
  | idle _ _ hj _ ih =>
    cases i with
    | zero =>
      cases hi
      subst hs
      exact absurd hj hasks.not_idle
    | succ i => exact ih hi
  | asks _ _ _ h ih =>
    cases i with
    | zero =>
      cases hi
      cases hs
      exact ⟨_, h⟩
    | succ i => exact ih hi

/-- What an object that asks for names has under a name is seen at every later step, until
another step adds the name. -/
theorem scope_of_asks (h : Grouped host c fs steps) {i k : Nat} (hik : i < k) {s t : Step}
    (hi : steps[i]? = some s) (hk : steps[k]? = some t) {members : Table Json} {asked : List Json}
    (hs : s.value = .object members) (hasks : Asks members asked) {name : String} {j : Json}
    (hj : get? (ofList members) name = some j)
    (hadds : ∀ m u, i < m → m < k → steps[m]? = some u → ¬ u.Adds name) :
    get? t.scope name = some (.ofJson (contextSite.entry name) j) := by
  obtain ⟨later, hlater⟩ := h.after_asks hi hs hasks
  obtain ⟨n, rfl⟩ := Nat.exists_eq_add_of_le (Nat.succ_le_of_lt hik)
  have hkept : get? t.scope name = get? (extend s.scope members) name := by
    refine hlater.scope_of_not_adds (k := n) ?_ fun m u hm hu => ?_
    · rw [List.getElem?_drop]
      exact hk
    · rw [List.getElem?_drop] at hu
      exact hadds _ u (by omega) (by omega) hu
  rw [hkept, get?_extend, hj]
  rfl

end Grouped

/-! ## Compositions -/

theorem ofItems_eraseIdx {docs : List Json} {fs : List Fragment}
    (h : Fragment.ofItems docs = .ok fs) (i : Nat) :
    Fragment.ofItems (docs.eraseIdx i) = .ok (fs.eraseIdx i) := by
  induction docs generalizing fs i with
  | nil =>
    rw [Fragment.ofItems] at h
    cases h
    rfl
  | cons j rest ih =>
    rw [Fragment.ofItems] at h
    obtain ⟨f, hf, h⟩ := bind_eq_ok.mp h
    obtain ⟨fs, hfs, h⟩ := bind_eq_ok.mp h
    cases h
    cases i with
    | zero => exact hfs
    | succ i =>
      rw [List.eraseIdx_cons_succ, Fragment.ofItems, hf, ok_bind, ih hfs i]
      rfl

theorem evaluate_groupBy_eq_ok {host : Host} {docs : List Json} {fs : List Fragment}
    (hdocs : Fragment.ofItems docs = .ok fs) (base : Table Json) {result : Json} :
    evaluate host .groupBy docs base = .ok result ↔
      ∃ steps, Grouped host (seed host base) fs steps ∧
        result = .array (steps.flatMap Step.asked) := by
  have hevaluate : evaluate host .groupBy docs base =
      composeGroupBys host (seed host base) fs >>= fun out => .ok (.array out) := by
    rw [evaluate, hdocs]
    rfl
  rw [hevaluate, bind_eq_ok]
  constructor
  · rintro ⟨out, hout, hresult⟩
    obtain ⟨steps, hsteps, rfl⟩ := (composeGroupBys_eq_ok (ordered_seed host base)).mp hout
    exact ⟨steps, hsteps, (Except.ok.inj hresult).symm⟩
  · rintro ⟨steps, hsteps, rfl⟩
    exact ⟨_, (composeGroupBys_eq_ok (ordered_seed host base)).mpr ⟨steps, hsteps, rfl⟩, rfl⟩

/-- What the objects of a grouping that ask for names have under a name is what the expressions
after them see under it, unless an object in between that asks for names has it too. -/
def Visible (steps : List Step) (name : String) : Prop :=
  ∀ (i k : Nat) (s t : Step) (members : Table Json) (asked : List Json) (j : Json), i < k →
    steps[i]? = some s → steps[k]? = some t → s.value = .object members → Asks members asked →
    get? (ofList members) name = some j →
    (∀ (m : Nat) (u : Step), i < m → m < k → steps[m]? = some u → ¬ u.Adds name) →
      (reflect t.scope).lookup name = .ok (.ofJson (contextSite.entry name) j)

/-- A group-by that succeeds gives the names that its fragments contribute, one fragment after
the other. A fragment that, at its place, evaluates to no object or to one that asks for nothing
can be deleted without a change to the result. What an object that asks for names has under a
name is seen by the expressions after it, for all names but `context`. -/
theorem evaluate_groupBy {host : Host} {base : Table Json} {docs : List Json} {result : Json}
    (h : evaluate host .groupBy docs base = .ok result) :
    ∃ fragments steps, Fragment.ofItems docs = .ok fragments ∧
      Grouped host (seed host base) fragments steps ∧
      (∀ other, Grouped host (seed host base) fragments other → other = steps) ∧
      result = .array (steps.flatMap Step.asked) ∧
      (∀ (i : Nat) (s : Step), steps[i]? = some s → Idle s.value →
        evaluate host .groupBy (docs.eraseIdx i) base = .ok result) ∧
      ∀ name, name ≠ Context.selfName → Visible steps name := by
  obtain ⟨fragments, hdocs, _⟩ := bind_eq_ok.mp h
  obtain ⟨steps, hsteps, rfl⟩ := (evaluate_groupBy_eq_ok hdocs base).mp h
  refine ⟨fragments, steps, hdocs, hsteps, fun _ => hsteps.unique, rfl, fun i s hi hs => ?_, ?_⟩
  · obtain ⟨herased, hasked⟩ := hsteps.eraseIdx hi hs
    rw [evaluate_groupBy_eq_ok (ofItems_eraseIdx hdocs i)]
    exact ⟨_, herased, congrArg Json.array hasked.symm⟩
  · intro name hname i k s t members asked j hik hi hk hs hasks hj hadds
    rw [Context.lookup, reflect, get?_insert, if_neg hname,
      hsteps.scope_of_asks hik hi hk hs hasks hj hadds]
    rfl

/-- An object that asks for a name and has another member. -/
def askingMembers : Table Json := [("group_by", .str "stage"), ("user", .str "me")]

def idleMembers : Table Json := [("group_by", .int 0), ("user", .str "you")]

/-- Both objects, and an expression that refers to a member that both have. -/
def dependentGroups : List Json :=
  [.object askingMembers, .object idleMembers, .str "group_by = [user, 'date']"]

/-- The expression sees the member of the object that asks for a name; the other object can be
deleted. -/
theorem evaluate_groupBy_dependentGroups :
    Asks askingMembers [.str "stage"] ∧ Idle (.object idleMembers) ∧
      ∃ (result : Json) (fragments : List Fragment) (s t u : Step),
        evaluate .idle .groupBy dependentGroups [] = .ok result ∧
        Grouped .idle (seed .idle []) fragments [s, t, u] ∧
        s.value = .object askingMembers ∧ t.value = .object idleMembers ∧
        evaluate .idle .groupBy (dependentGroups.eraseIdx 1) [] = .ok result ∧
        (reflect u.scope).lookup "user" = .ok (.str "me") := by
  have hasks : Asks askingMembers [.str "stage"] := .text rfl (by decide)
  have hidle : Idle (.object idleMembers) := .int rfl
  have hruns : (evaluate .idle .groupBy dependentGroups []).isOk = true := by decide +kernel
  refine ⟨hasks, hidle, ?_⟩
  cases hresult : evaluate .idle .groupBy dependentGroups [] with
  | error e =>
    rw [hresult] at hruns
    cases hruns
  | ok result =>
    obtain ⟨_, steps, hdocs, hsteps, _, _, hdeleted, hvisible⟩ := evaluate_groupBy hresult
    cases hdocs
    obtain ⟨_, rfl, hfirst⟩ := hsteps.of_asks rfl rfl hasks
    obtain ⟨_, rfl, hsecond⟩ := hfirst.of_idle rfl rfl hidle
    obtain ⟨u, _, _, rfl, _, hthird⟩ := hsecond.of_cons
    cases hthird
    refine ⟨result, _, _, _, u, rfl, hsteps, rfl, rfl, hdeleted 1 _ rfl hidle, ?_⟩
    refine hvisible "user" (by decide) 0 2 _ u askingMembers _ (.str "me") (by decide) rfl rfl rfl
      hasks rfl fun m t hm hm' ht => ?_
    obtain rfl : m = 1 := by omega
    cases ht
    rintro ⟨_, _, hnot, _⟩
    exact hnot hidle

/-- An object that asks for a name and has a member `context`. -/
def coveringMembers : Table Json := [("context", .str "mine"), ("group_by", .str "stage")]

/-- That object, and an expression that tells whether it sees the member. -/
def coveredGroups : List Json :=
  [.object coveringMembers, .str "group_by = 'seen' if context == 'mine' else 'covered'"]

/-- The texts that a list holds, if it holds nothing else. -/
def texts? : Json → Option (List String)
  | .array items => items.mapM Json.text?
  | _ => none

theorem eq_of_texts? {j : Json} {texts : List String} (h : texts? j = some texts) :
    j = .array (texts.map .str) := by
  cases j with
  | array items =>
    have htexts : items.mapM Json.text? = some texts := h
    refine congrArg Json.array ?_
    induction items generalizing texts with
    | nil =>
      cases htexts
      rfl
    | cons item rest ih =>
      rw [List.mapM_cons] at htexts
      obtain ⟨text, htext, htexts⟩ := Option.bind_eq_some_iff.mp htexts
      obtain ⟨later, hlater, htexts⟩ := Option.bind_eq_some_iff.mp htexts
      cases htexts
      cases item with
      | str s =>
        cases htext
        rw [ih hlater hlater]
        rfl
      | null | bool | int | float | array | object => cases htext
  | null | bool | int | float | str | object => cases h

/-- What an object adds under `context` is not seen by the expression after it. -/
theorem evaluate_groupBy_coveredGroups :
    evaluate .idle .groupBy coveredGroups [] = .ok (.array [.str "stage", .str "covered"]) ∧
      ∃ fragments steps, Fragment.ofItems coveredGroups = .ok fragments ∧
        Grouped .idle (seed .idle []) fragments steps ∧ ¬ Visible steps "context" := by
  have hresult : evaluate .idle .groupBy coveredGroups [] =
      .ok (.array [.str "stage", .str "covered"]) := by
    have hnames : (evaluate .idle .groupBy coveredGroups []).toOption.bind texts? =
        some ["stage", "covered"] := by
      decide +kernel
    obtain ⟨result, hsome, htexts⟩ := Option.bind_eq_some_iff.mp hnames
    cases hresult : evaluate .idle .groupBy coveredGroups [] with
    | error e =>
      rw [hresult] at hsome
      cases hsome
    | ok made =>
      rw [hresult] at hsome
      cases hsome
      exact congrArg Except.ok (eq_of_texts? htexts)
  have hasks : Asks coveringMembers [.str "stage"] := .text rfl (by decide)
  have hdocs : Fragment.ofItems coveredGroups = .ok [.literal (.object coveringMembers),
    .expression "group_by = 'seen' if context == 'mine' else 'covered'"] := rfl
  obtain ⟨steps, hsteps, _⟩ := (evaluate_groupBy_eq_ok hdocs []).mp hresult
  refine ⟨hresult, _, steps, hdocs, hsteps, fun hvisible => ?_⟩
  obtain ⟨_, rfl, hfirst⟩ := hsteps.of_asks rfl rfl hasks
  obtain ⟨t, _, _, rfl, _, _⟩ := hfirst.of_cons
  have hseen := hvisible 0 1 _ t coveringMembers _ (.str "mine") Nat.one_pos rfl rfl rfl hasks rfl
    fun m _ hm hm' => absurd hm' (by omega)
  -- under `context` there is a dict
  rw [Context.lookup, reflect, Context.selfName, get?_insert_self] at hseen
  cases hseen

end FilterLang.Composition
