import FilterLang.Composition.Basic
import FilterLang.Proofs.Fallible
import FilterLang.Proofs.Table
/-!
The name `context` that an expression leaves behind does not matter.

Before an expression is evaluated, `context` is set to show all the other names, and it
stays set when the next fragment comes. Contexts that are the same in all other names
(`Mirrors`) show the same to an expression, because `context` is set anew and what it shows
leaves it out (`reflect_eq`). So a fragment evaluates alike in both and leaves such contexts
behind again, and a composition may be read as if no fragment left anything
(`composeContexts_cons`, `composeDomains_cons`).
-/

namespace FilterLang.Composition

open Fallible Table

/-! ## Contexts in order -/

theorem ordered_extend {c : Context} (hc : Ordered c) (members : Table Json) :
    Ordered (extend c members) :=
  ordered_overlay hc _

theorem ordered_helpers (host : Host) (site : Identity) : Ordered (Context.helpers host site) := by
  have hnames : names (Context.helpers host site) =
      ["context_today", "current_date", "datetime", "relativedelta", "time"] := rfl
  rw [Ordered, hnames]
  decide

theorem ordered_seed (host : Host) (base : Table Json) : Ordered (seed host base) :=
  ordered_overlay (ordered_helpers host contextSite) _

/-- Contexts in order that are the same in all names but `context`. -/
structure Mirrors (c d : Context) : Prop where
  left : Ordered c
  right : Ordered d
  same : ∀ name, name ≠ Context.selfName → get? c name = get? d name

namespace Mirrors

variable {c d : Context}

theorem refl (h : Ordered c) : Mirrors c c :=
  ⟨h, h, fun _ _ => rfl⟩

theorem toDict_eq (h : Mirrors c d) (site : Identity) : c.toDict site = d.toDict site := by
  have hfilter : c.filter (fun e => decide (e.1 ≠ Context.selfName)) =
      d.filter (fun e => decide (e.1 ≠ Context.selfName)) := by
    refine eq_of_get? (ordered_filter h.left _) (ordered_filter h.right _) fun name => ?_
    rw [get?_filter fun n => decide (n ≠ Context.selfName),
      get?_filter fun n => decide (n ≠ Context.selfName)]
    by_cases hname : name = Context.selfName
    · simp [hname]
    · simp [hname, h.same name hname]
  rw [Context.toDict, Context.toDict, hfilter]

/-- An expression sees the same in both contexts. -/
theorem reflect_eq (h : Mirrors c d) : reflect c = reflect d := by
  refine eq_of_get? (ordered_insert h.left _ _) (ordered_insert h.right _ _) fun name => ?_
  rw [Composition.reflect, Composition.reflect, get?_insert, get?_insert, h.toDict_eq]
  by_cases hname : name = Context.selfName
  · rw [if_pos hname, if_pos hname]
  · rw [if_neg hname, if_neg hname, h.same name hname]

theorem reflect (h : Ordered c) : Mirrors c (reflect c) := by
  refine ⟨h, ordered_insert h _ _, fun name hname => ?_⟩
  rw [Composition.reflect, get?_insert, if_neg hname]

theorem extend (h : Mirrors c d) (members : Table Json) :
    Mirrors (extend c members) (extend d members) := by
  refine ⟨ordered_overlay h.left _, ordered_overlay h.right _, fun name hname => ?_⟩
  rw [Composition.extend, Composition.extend, Context.extend, Context.extend, get?_overlay,
    get?_overlay d, h.same name hname]

end Mirrors

/-- The same document, and contexts that mirror each other. -/
def Leaves (x y : Json × Context) : Prop :=
  x.1 = y.1 ∧ Mirrors x.2 y.2

theorem evalReflected_mirrors {host : Host} {c d : Context} (h : Mirrors c d) (text : String) :
    Related Leaves (evalReflected host c text) (evalReflected host d text) := by
  rw [evalReflected, evalReflected, h.reflect_eq]
  refine Related.bind_same _ fun j => ?_
  exact .succeeded ⟨rfl, .refl (ordered_insert h.right _ _)⟩

theorem evalReflected_leaves {host : Host} {c d : Context} (h : Ordered c) {text : String}
    {j : Json} (heval : evalReflected host c text = .ok (j, d)) : Mirrors c d := by
  obtain ⟨_, _, hpair⟩ := bind_eq_ok.mp heval
  cases hpair
  exact .reflect h

/-! ## Contexts -/

/-- The members that a fragment adds to a context. -/
def contextOf (host : Host) (c : Context) (f : Fragment) : Outcome (Table Json) :=
  evalContext host c f >>= (contextMembers ·.1)

mutual

theorem evalContext_mirrors (host : Host) {c d : Context} (h : Mirrors c d) :
    (f : Fragment) → Related Leaves (evalContext host c f) (evalContext host d f)
  | .literal j => .succeeded ⟨rfl, h⟩
  | .expression text => evalReflected_mirrors h text
  | .compound inner parts => by
    rw [evalContext, evalContext]
    -- the context of the compound itself is evaluated apart from both
    refine Related.bind_same _ fun scope => ?_
    rw [composeContexts_mirrors host (h.extend scope) [] parts]
    exact Related.bind_same _ fun members => .succeeded ⟨rfl, h⟩

/-- Contexts that mirror each other give one composition. -/
theorem composeContexts_mirrors (host : Host) {c d : Context} (h : Mirrors c d)
    (result : Table Json) :
    (fs : List Fragment) → composeContexts host c result fs = composeContexts host d result fs
  | [] => rfl
  | f :: rest => by
    rw [composeContexts, composeContexts]
    by_cases hf : f.isEmpty = true
    · rw [if_pos hf, if_pos hf]
      exact composeContexts_mirrors host h result rest
    · rw [if_neg hf, if_neg hf]
      have hleaves := evalContext_mirrors host h f
      revert hleaves
      generalize evalContext host c f = x
      generalize evalContext host d f = y
      rintro (e | @⟨⟨j, c'⟩, ⟨_, d'⟩, rfl, hmirrors⟩)
      · rfl
      · refine bind_congr (x := contextMembers j) fun members => ?_
        exact composeContexts_mirrors host (hmirrors.extend members) _ rest

end

theorem evalContext_leaves {host : Host} {c d : Context} (h : Ordered c) {f : Fragment} {j : Json}
    (heval : evalContext host c f = .ok (j, d)) : Mirrors c d := by
  cases f with
  | literal k =>
    cases heval
    exact .refl h
  | expression text => exact evalReflected_leaves h heval
  | compound inner parts =>
    rw [evalContext] at heval
    obtain ⟨scope, _, heval⟩ := bind_eq_ok.mp heval
    obtain ⟨members, _, hpair⟩ := bind_eq_ok.mp heval
    cases hpair
    exact .refl h

/-- A fragment adds its members to the context and to the result; what else it leaves in
the context is not seen. -/
theorem composeContexts_cons {host : Host} {c : Context} (hc : Ordered c) (result : Table Json)
    {f : Fragment} (hf : f.isEmpty = false) (rest : List Fragment) :
    composeContexts host c result (f :: rest) = contextOf host c f >>= fun members =>
      composeContexts host (extend c members) (overlay result members) rest := by
  rw [composeContexts, if_neg (by simp [hf]), contextOf]
  cases heval : evalContext host c f with
  | error e => rfl
  | ok left =>
    obtain ⟨j, d⟩ := left
    refine bind_congr (x := contextMembers j) fun members => ?_
    exact (composeContexts_mirrors host ((evalContext_leaves hc heval).extend members) _ rest).symm

/-! ## Domains -/

/-- The items that a fragment adds to a domain. -/
def domainOf (host : Host) (c : Context) (f : Fragment) : Outcome (List Json) :=
  evalDomain host c f >>= (domainItems ·.1)

mutual

theorem evalDomain_mirrors (host : Host) {c d : Context} (h : Mirrors c d) :
    (f : Fragment) → Related Leaves (evalDomain host c f) (evalDomain host d f)
  | .literal j => .succeeded ⟨rfl, h⟩
  | .expression text => evalReflected_mirrors h text
  | .compound inner parts => by
    rw [evalDomain, evalDomain, compoundScope, compoundScope, bind_assoc, bind_assoc]
    refine Related.bind_same _ fun scope => ?_
    rw [pure_eq, pure_eq, ok_bind, ok_bind,
      composeDomains_mirrors host (h.extend scope) _ parts]
    exact Related.bind_same _ fun items => .succeeded ⟨rfl, h⟩

theorem composeDomains_mirrors (host : Host) {c d : Context} (h : Mirrors c d)
    (normalize : Bool) :
    (fs : List Fragment) →
      composeDomains host c normalize fs = composeDomains host d normalize fs
  | [] => rfl
  | f :: rest => by
    rw [composeDomains, composeDomains]
    by_cases hf : f.isEmpty = true
    · rw [if_pos hf, if_pos hf]
      exact composeDomains_mirrors host h normalize rest
    · rw [if_neg hf, if_neg hf]
      have hleaves := evalDomain_mirrors host h f
      revert hleaves
      generalize evalDomain host c f = x
      generalize evalDomain host d f = y
      rintro (e | @⟨⟨j, c'⟩, ⟨_, d'⟩, rfl, hmirrors⟩)
      · rfl
      · refine bind_congr (x := domainItems j) fun items => ?_
        rw [composeDomains_mirrors host hmirrors normalize rest]

end

theorem evalDomain_leaves {host : Host} {c d : Context} (h : Ordered c) {f : Fragment} {j : Json}
    (heval : evalDomain host c f = .ok (j, d)) : Mirrors c d := by
  cases f with
  | literal k =>
    cases heval
    exact .refl h
  | expression text => exact evalReflected_leaves h heval
  | compound inner parts =>
    rw [evalDomain] at heval
    obtain ⟨scope, _, heval⟩ := bind_eq_ok.mp heval
    obtain ⟨items, _, hpair⟩ := bind_eq_ok.mp heval
    cases hpair
    exact .refl h

/-- All fragments of a domain see the context in which it starts. -/
theorem composeDomains_cons {host : Host} {c : Context} (hc : Ordered c) (normalize : Bool)
    {f : Fragment} (hf : f.isEmpty = false) (rest : List Fragment) :
    composeDomains host c normalize (f :: rest) = domainOf host c f >>= fun items =>
      composeDomains host c normalize rest >>= fun later =>
        .ok ((if normalize then Domain.normalize items else items) ++ later) := by
  rw [composeDomains, if_neg (by simp [hf]), domainOf]
  cases heval : evalDomain host c f with
  | error e => rfl
  | ok left =>
    obtain ⟨j, d⟩ := left
    refine bind_congr (x := domainItems j) fun items => ?_
    rw [composeDomains_mirrors host (evalDomain_leaves hc heval) normalize rest]
    rfl

end FilterLang.Composition
