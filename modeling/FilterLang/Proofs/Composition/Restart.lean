import FilterLang.Proofs.Composition.Reflection
import FilterLang.Proofs.Value.Literal
/-!
A context can be composed in one run or in two.

What a run has added so far is all that the rest of it needs: the fragments that are left
may start anew, on a base object that has it on top (`composeContexts_append`). The context
and the result are filled with the same members in the same order, so either can be told
from the other; and names filled at once or one after the other give the same context
(`extend_overlay`).
-/

namespace FilterLang.Composition

open Fallible Table

/-! ## Contexts and what they are filled from -/

/-- To add a table that was filled on top of another is to add the one and then what it was
filled with. -/
theorem extend_overlay {c : Context} (hc : Ordered c) {members : Table Json}
    (hm : Ordered members) (more : List (String × Json)) :
    extend c (overlay members more) = extend (extend c members) more := by
  let value (name : String) (j : Json) : Value := .ofJson (contextSite.entry name) j
  have hextend : ∀ (c : Context) (t : Table Json),
      extend c t = overlay c (t.map fun e => (e.1, value e.1 e.2)) := fun _ _ => rfl
  rw [hextend, hextend, hextend, ← overlay_map, overlay_overlay hc (ordered_map hm value)]

/-- A name of a context stands for what was last added under it, and else for what it stood for
before. -/
theorem get?_extend (c : Context) (members : Table Json) (name : String) :
    get? (extend c members) name =
      ((get? (ofList members) name).map (Value.ofJson (contextSite.entry name))).or
        (get? c name) := by
  let value (name : String) (j : Json) : Value := .ofJson (contextSite.entry name) j
  have hextend : extend c members = overlay c (members.map fun e => (e.1, value e.1 e.2)) := rfl
  have hadded : ofList (members.map fun e => (e.1, value e.1 e.2)) =
      (ofList members).map fun e => (e.1, value e.1 e.2) := overlay_map value [] members
  rw [hextend, get?_overlay, hadded, get?_map]

theorem seed_overlay (host : Host) {base : Table Json} (hbase : Ordered base)
    (more : List (String × Json)) : seed host (overlay base more) = extend (seed host base) more :=
  extend_overlay (ordered_helpers host contextSite) hbase more

/-! ## Runs -/

/-- A run adds to the result that it is given what it makes of nothing. -/
theorem composeContexts_result (host : Host) {c : Context} (hc : Ordered c) {result : Table Json}
    (hresult : Ordered result) (fs : List Fragment) :
    composeContexts host c result fs =
      composeContexts host c [] fs >>= fun made => .ok (overlay result made) := by
  induction fs generalizing c result with
  | nil => rfl
  | cons f rest ih =>
    by_cases hf : f.isEmpty = true
    · rw [composeContexts, composeContexts, if_pos hf, if_pos hf]
      exact ih hc hresult
    · have hf : f.isEmpty = false := by simpa using hf
      rw [composeContexts_cons hc result hf, composeContexts_cons hc [] hf, bind_assoc]
      refine bind_congr fun members => ?_
      have hc' : Ordered (extend c members) := ordered_extend hc members
      have hfirst : Ordered (overlay [] members) := ordered_overlay ordered_nil members
      rw [ih hc' (ordered_overlay hresult members), ih hc' hfirst, bind_assoc]
      refine bind_congr fun made => ?_
      rw [ok_bind, overlay_overlay hresult hfirst, overlay_overlay hresult ordered_nil]
      rfl

theorem ordered_of_composeContexts {host : Host} {c : Context} (hc : Ordered c)
    {fs : List Fragment} {made : Table Json} (h : composeContexts host c [] fs = .ok made) :
    Ordered made := by
  have hagain := composeContexts_result host hc ordered_nil fs
  rw [h, ok_bind] at hagain
  rw [Except.ok.inj hagain]
  exact ordered_overlay ordered_nil made

/-- A run over two lists of fragments is a run over the first, and one over the second in
the context that the first made. -/
theorem composeContexts_append (host : Host) {c : Context} (hc : Ordered c)
    (fs gs : List Fragment) :
    composeContexts host c [] (fs ++ gs) =
      composeContexts host c [] fs >>= fun made =>
        composeContexts host (extend c made) [] gs >>= fun more => .ok (overlay made more) := by
  induction fs generalizing c with
  | nil =>
    rw [List.nil_append, composeContexts, ok_bind]
    exact composeContexts_result host hc ordered_nil gs
  | cons f rest ih =>
    by_cases hf : f.isEmpty = true
    · rw [List.cons_append, composeContexts, composeContexts, if_pos hf, if_pos hf]
      exact ih hc
    · have hf : f.isEmpty = false := by simpa using hf
      rw [List.cons_append, composeContexts_cons hc [] hf, composeContexts_cons hc [] hf,
        bind_assoc]
      refine bind_congr fun members => ?_
      have hc' : Ordered (extend c members) := ordered_extend hc members
      have hfirst : Ordered (overlay [] members) := ordered_overlay ordered_nil members
      rw [composeContexts_result host hc' hfirst, composeContexts_result host hc' hfirst, ih hc',
        bind_assoc, bind_assoc]
      refine bind_congr_ok fun made hmade => ?_
      -- the members of `f` come first in the context and in the result
      have hcontext : extend c (overlay (overlay [] members) made) =
          extend (extend c members) made := by
        rw [extend_overlay hc hfirst, extend_overlay hc ordered_nil]
        rfl
      rw [ok_bind, hcontext, bind_assoc]
      refine bind_congr fun more => ?_
      rw [ok_bind, overlay_overlay hfirst (ordered_of_composeContexts hc' hmade)]

/-! ## Compositions -/

/-- Documents are read in order, up to the first that is no fragment. -/
theorem ofItems_append_eq (xs ys : List Json) :
    Fragment.ofItems (xs ++ ys) =
      Fragment.ofItems xs >>= fun fs => Fragment.ofItems ys >>= fun gs => .ok (fs ++ gs) := by
  induction xs with
  | nil =>
    rw [List.nil_append, Fragment.ofItems, ok_bind]
    exact (bind_pure _).symm
  | cons j rest ih =>
    rw [List.cons_append, Fragment.ofItems, Fragment.ofItems, ih, bind_assoc]
    refine bind_congr fun f => ?_
    rw [bind_assoc, bind_assoc]
    refine bind_congr fun fs => ?_
    rw [bind_assoc]
    rfl

theorem ofItems_append {xs ys : List Json} {fs gs : List Fragment}
    (hxs : Fragment.ofItems xs = .ok fs) (hys : Fragment.ofItems ys = .ok gs) :
    Fragment.ofItems (xs ++ ys) = .ok (fs ++ gs) := by
  rw [ofItems_append_eq, hxs, hys]
  rfl

theorem evaluate_context {host : Host} {xs : List Json} {fs : List Fragment}
    (hxs : Fragment.ofItems xs = .ok fs) (base : Table Json) :
    evaluate host .context xs base =
      composeContexts host (seed host base) [] fs >>= fun made => .ok (.object made) := by
  rw [evaluate, hxs]
  rfl

/-- A composition of contexts can be broken off anywhere and started again on top of what
it has made: it succeeds when both runs do, with the one result on top of the other, and
else fails as the first run that fails. -/
theorem evaluate_append (host : Host) {xs ys : List Json} {fs gs : List Fragment}
    (hxs : Fragment.ofItems xs = .ok fs) (hys : Fragment.ofItems ys = .ok gs)
    {base : Table Json} (hbase : Ordered base) :
    (∀ result, evaluate host .context (xs ++ ys) base = .ok result ↔
      ∃ made more : Table Json, evaluate host .context xs base = .ok (.object made) ∧
        evaluate host .context ys (overlay base made) = .ok (.object more) ∧
        result = .object (overlay made more)) ∧
    ∀ e, evaluate host .context (xs ++ ys) base = .error e ↔
      evaluate host .context xs base = .error e ∨
        ∃ made : Table Json, evaluate host .context xs base = .ok (.object made) ∧
          evaluate host .context ys (overlay base made) = .error e := by
  have hc : Ordered (seed host base) := ordered_seed host base
  simp only [evaluate_context (ofItems_append hxs hys), evaluate_context hxs, evaluate_context hys,
    composeContexts_append host hc, seed_overlay host hbase]
  cases composeContexts host (seed host base) [] fs with
  | error e => simp
  | ok made =>
    -- what the first run made is the only thing that the second can start from
    simp only [ok_bind, Except.ok.injEq, Json.object.injEq, reduceCtorEq, false_or,
      exists_and_left, exists_eq_left']
    cases hmore : composeContexts host (extend (seed host base) made) [] gs with
    | error e => simp
    | ok more => simp [eq_comm]

def earlyFragments : List Json := [.str "\x7b'a': [1, 2]\x7d"]

/-- A fragment that is empty, and one that uses an earlier name and the context as a whole. -/
def laterFragments : List Json := [.null, .str "b = len(a) + len(context)"]

/-- A base object with a name that a fragment gives a new value. -/
def shadowedBase : Table Json := [("a", .null), ("uid", .int 7)]

theorem evaluate_append_laterFragments :
    Fragment.ofItems earlyFragments = .ok [.expression "\x7b'a': [1, 2]\x7d"] ∧
      Fragment.ofItems laterFragments =
        .ok [.literal .null, .expression "b = len(a) + len(context)"] ∧
      Ordered shadowedBase ∧
      ∃ made more : Table Json,
        evaluate .idle .context earlyFragments shadowedBase = .ok (.object made) ∧
        evaluate .idle .context laterFragments (overlay shadowedBase made) = .ok (.object more) ∧
        evaluate .idle .context (earlyFragments ++ laterFragments) shadowedBase =
          .ok (.object (overlay made more)) := by
  have hearly : Fragment.ofItems earlyFragments = .ok [.expression "\x7b'a': [1, 2]\x7d"] := rfl
  have hlater : Fragment.ofItems laterFragments =
      .ok [.literal .null, .expression "b = len(a) + len(context)"] := rfl
  have hbase : Ordered shadowedBase := by
    rw [Ordered]
    decide
  have hruns : (evaluate .idle .context (earlyFragments ++ laterFragments) shadowedBase).isOk =
      true := by
    decide +kernel
  refine ⟨hearly, hlater, hbase, ?_⟩
  cases hresult : evaluate .idle .context (earlyFragments ++ laterFragments) shadowedBase with
  | error e =>
    rw [hresult] at hruns
    cases hruns
  | ok result =>
    obtain ⟨made, more, hmade, hmore, rfl⟩ :=
      ((evaluate_append .idle hearly hlater hbase).1 result).mp hresult
    exact ⟨made, more, hmade, hmore, rfl⟩

end FilterLang.Composition
