import FilterLang.Composition.Basic
import FilterLang.Proofs.Value.Literal
/-!
Empty fragments are passed over.

None of the three compositions looks at an empty fragment, wherever it stands, so a list may
be composed without its empty fragments (`composeContexts_present`, `composeDomains_present`,
`composeGroupBys_present`). What does look at them is the question whether a domain is
normalized: that is read off the first fragment, also when it is empty. So a domain changes
when the empty fragments before its marker are taken away, and that is the only way in which
they are seen (`compose_present`).
-/

namespace FilterLang.Composition

open Fallible

def present (fs : List Fragment) : List Fragment :=
  fs.filter fun f => !f.isEmpty

theorem present_cons_empty {f : Fragment} (h : f.isEmpty = true) (rest : List Fragment) :
    present (f :: rest) = present rest := by
  simp [present, h]

theorem present_cons {f : Fragment} (h : f.isEmpty = false) (rest : List Fragment) :
    present (f :: rest) = f :: present rest := by
  simp [present, h]

/-! ## Lists of fragments -/

theorem composeContexts_present (host : Host) (c : Context) (result : Table Json)
    (fs : List Fragment) :
    composeContexts host c result (present fs) = composeContexts host c result fs := by
  induction fs generalizing c result with
  | nil => rfl
  | cons f rest ih =>
    cases hf : f.isEmpty with
    | true =>
      rw [present_cons_empty hf, composeContexts, if_pos hf]
      exact ih c result
    | false =>
      rw [present_cons hf, composeContexts, composeContexts, hf]
      apply bind_congr_ok
      intro left _
      apply bind_congr_ok
      intro members _
      exact ih _ _

theorem composeDomains_present (host : Host) (c : Context) (normalize : Bool)
    (fs : List Fragment) :
    composeDomains host c normalize (present fs) = composeDomains host c normalize fs := by
  induction fs generalizing c with
  | nil => rfl
  | cons f rest ih =>
    cases hf : f.isEmpty with
    | true =>
      rw [present_cons_empty hf, composeDomains, if_pos hf]
      exact ih c
    | false =>
      rw [present_cons hf, composeDomains, composeDomains, hf]
      apply bind_congr_ok
      intro left _
      apply bind_congr_ok
      intro items _
      show (composeDomains host left.2 normalize (present rest) >>= _) =
        composeDomains host left.2 normalize rest >>= _
      rw [ih left.2]

theorem composeGroupBys_present (host : Host) (c : Context) (fs : List Fragment) :
    composeGroupBys host c (present fs) = composeGroupBys host c fs := by
  induction fs generalizing c with
  | nil => rfl
  | cons f rest ih =>
    cases hf : f.isEmpty with
    | true =>
      rw [present_cons_empty hf, composeGroupBys, if_pos hf]
      exact ih c
    | false =>
      rw [present_cons hf, composeGroupBys, composeGroupBys, hf]
      apply bind_congr_ok
      rintro ⟨j, d⟩ _
      -- what comes after is composed in a context that does not depend on the rest
      cases j with
      | object members =>
        apply bind_congr_ok
        intro names _
        cases names with
        | none => exact ih d
        | some names =>
          show (composeGroupBys host (extend d members) (present rest) >>= _) =
            composeGroupBys host (extend d members) rest >>= _
          rw [ih]
      | null | bool | int | float | str | array => exact ih d

/-! ## Markers -/

/-- A marker is not empty, so it stays the first fragment. -/
theorem isMarked_present {fs : List Fragment} (h : isMarked fs = true) :
    isMarked (present fs) = true := by
  cases fs with
  | nil => cases h
  | cons f rest =>
    have hf : f.isEmpty = false := by
      have hmarker : f.isMarker = true := h
      unfold Fragment.isMarker at hmarker
      split at hmarker
      · rfl
      · cases hmarker
    rw [present_cons hf]
    exact h

/-- Whether a domain is normalized has nothing to do with whether it can be composed. -/
theorem composeDomains_related (host : Host) (c : Context) (normalize normalize' : Bool)
    (fs : List Fragment) :
    Related (fun _ _ => True) (composeDomains host c normalize fs)
      (composeDomains host c normalize' fs) := by
  induction fs generalizing c with
  | nil => exact .succeeded trivial
  | cons f rest ih =>
    rw [composeDomains, composeDomains]
    cases hf : f.isEmpty with
    | true => exact ih c
    | false =>
      apply Related.bind_same
      rintro ⟨j, d⟩
      apply Related.bind_same
      intro items
      apply Related.bind (ih d)
      intro later later' _
      exact .succeeded trivial

/-- Without its empty fragments a list fails as it does with them. -/
theorem compose_present_error (host : Host) (kind : FragmentKind) (c : Context)
    (fs : List Fragment) (e : EvalError) :
    compose host kind c (present fs) = .error e ↔ compose host kind c fs = .error e := by
  cases kind with
  | context =>
    unfold compose
    rw [composeContexts_present]
  | domain =>
    unfold compose
    rw [composeDomains_present]
    have hrelated := composeDomains_related host c (isMarked (present fs)) (isMarked fs) fs
    revert hrelated
    generalize composeDomains host c (isMarked (present fs)) fs = x
    generalize composeDomains host c (isMarked fs) fs = y
    rintro (e' | _)
    · exact Iff.rfl
    · simp
  | groupBy =>
    unfold compose
    rw [composeGroupBys_present]

/-- Without its empty fragments a list composes to the same, unless a marker becomes the first
fragment of a domain. -/
theorem compose_present (host : Host) {kind : FragmentKind} (c : Context) {fs : List Fragment}
    (h : kind = .domain → isMarked (present fs) = true → isMarked fs = true) :
    compose host kind c (present fs) = compose host kind c fs := by
  cases kind with
  | context =>
    unfold compose
    rw [composeContexts_present]
  | domain =>
    have hmarked : isMarked (present fs) = isMarked fs := by
      rw [Bool.eq_iff_iff]
      exact ⟨h rfl, isMarked_present⟩
    unfold compose
    rw [hmarked, composeDomains_present]
  | groupBy =>
    unfold compose
    rw [composeGroupBys_present]

/-! ## Documents -/

/-- Whether a document is an empty fragment. -/
def isVoid (j : Json) : Bool :=
  match Fragment.ofJson j with
  | .ok f => f.isEmpty
  | .error _ => false

theorem ofItems_present (docs : List Json) :
    Fragment.ofItems (docs.filter fun j => !isVoid j) =
      Fragment.ofItems docs >>= fun fs => .ok (present fs) := by
  induction docs with
  | nil => rfl
  | cons j rest ih =>
    rw [Fragment.ofItems]
    cases hj : Fragment.ofJson j with
    | error e =>
      have hvoid : isVoid j = false := by
        rw [isVoid, hj]
      rw [List.filter_cons_of_pos (by simp [hvoid]), Fragment.ofItems, hj]
      rfl
    | ok f =>
      have hvoid : isVoid j = f.isEmpty := by
        rw [isVoid, hj]
      cases hf : f.isEmpty with
      | true =>
        rw [List.filter_cons_of_neg (by simp [hvoid, hf]), ih]
        cases Fragment.ofItems rest with
        | error e => rfl
        | ok fs =>
          show Except.ok (present fs) = Except.ok (present (f :: fs))
          rw [present_cons_empty hf]
      | false =>
        rw [List.filter_cons_of_pos (by simp [hvoid, hf]), Fragment.ofItems, hj, ih]
        cases Fragment.ofItems rest with
        | error e => rfl
        | ok fs =>
          show Except.ok (f :: present fs) = Except.ok (present (f :: fs))
          rw [present_cons hf]

/-- Documents that are empty fragments can be taken out of what is composed, wherever they
stand: a failure stays the same one, and so does a result, unless a marker becomes the first
fragment of a domain. -/
theorem evaluate_present (host : Host) (kind : FragmentKind) (docs : List Json)
    (base : Table Json) :
    (∀ e, evaluate host kind (docs.filter fun j => !isVoid j) base = .error e ↔
        evaluate host kind docs base = .error e) ∧
      ((kind = .domain → ∀ fs, Fragment.ofItems docs = .ok fs →
          isMarked (present fs) = true → isMarked fs = true) →
        evaluate host kind (docs.filter fun j => !isVoid j) base =
          evaluate host kind docs base) := by
  unfold evaluate
  rw [ofItems_present]
  cases hdocs : Fragment.ofItems docs with
  | error e => exact ⟨fun _ => Iff.rfl, fun _ => rfl⟩
  | ok fs =>
    refine ⟨fun e => compose_present_error host kind _ fs e, fun h => ?_⟩
    apply compose_present
    intro hkind
    exact h hkind fs rfl

def isOne (field : String) : Json :=
  .array [.str field, .str "=", .int 1]

def emptyAfterMarker : List Json :=
  [.array [.str "|"], .null, .array [isOne "a", isOne "b"], .str " ", .array [isOne "c"]]

theorem evaluate_present_emptyAfterMarker :
    (∀ fs, Fragment.ofItems emptyAfterMarker = .ok fs → isMarked (present fs) = true →
        isMarked fs = true) ∧
      evaluate .idle .domain emptyAfterMarker [] =
        .ok (.array [.str "|", .str "&", isOne "a", isOne "b", isOne "c"]) ∧
      evaluate .idle .domain (emptyAfterMarker.filter fun j => !isVoid j) [] =
        evaluate .idle .domain emptyAfterMarker [] := by
  have hmarked : ∀ fs, Fragment.ofItems emptyAfterMarker = .ok fs → isMarked (present fs) = true →
      isMarked fs = true := by
    intro fs hfs _
    cases hfs
    rfl
  refine ⟨hmarked, rfl, ?_⟩
  apply (evaluate_present .idle .domain emptyAfterMarker []).2
  intro _
  exact hmarked

def emptyBeforeMarker : List Json :=
  [.null, .array [.str "|"], .array [isOne "a", isOne "b"], .array [isOne "c"]]

/-- An empty fragment before the marker of a domain keeps the domain from being normalized. -/
theorem evaluate_present_emptyBeforeMarker :
    evaluate .idle .domain emptyBeforeMarker [] =
        .ok (.array [.str "|", isOne "a", isOne "b", isOne "c"]) ∧
      evaluate .idle .domain (emptyBeforeMarker.filter fun j => !isVoid j) [] =
        .ok (.array [.str "|", .str "&", isOne "a", isOne "b", isOne "c"]) ∧
      evaluate .idle .domain (emptyBeforeMarker.filter fun j => !isVoid j) [] ≠
        evaluate .idle .domain emptyBeforeMarker [] := by
  have hbefore : evaluate .idle .domain emptyBeforeMarker [] =
      .ok (.array [.str "|", isOne "a", isOne "b", isOne "c"]) := rfl
  have hafter : evaluate .idle .domain (emptyBeforeMarker.filter fun j => !isVoid j) [] =
      .ok (.array [.str "|", .str "&", isOne "a", isOne "b", isOne "c"]) := rfl
  refine ⟨hbefore, hafter, ?_⟩
  rw [hbefore, hafter]
  simp

end FilterLang.Composition
