import FilterLang.Proofs.Composition.Isolation
import FilterLang.Proofs.Composition.Skipping
/-!
A compound without a context of its own stands for its parts.

What a compound makes is added to the context and to the result at once, and what its parts
make, were they fragments of the list themselves, one after the other. The two agree because a
run over several fragments is known by what it makes (`composeContexts_append`). Lists of
fragments that compose to the same in every context (`Alike`) may be exchanged for each other
inside a list (`Alike.framed`) and inside a compound (`Alike.compound`), so a compound may give
way to its parts at any depth.
-/

namespace FilterLang.Composition

open Fallible Table

/-! ## Lists that compose alike -/

/-- Lists of fragments that compose to the same, or fail alike, in every context. -/
def Alike (host : Host) (fs gs : List Fragment) : Prop :=
  ∀ c, Ordered c → composeContexts host c [] fs = composeContexts host c [] gs

namespace Alike

variable {host : Host} {fs gs : List Fragment}

theorem refl (host : Host) (fs : List Fragment) : Alike host fs fs :=
  fun _ _ => rfl

/-- Fragments around two lists are composed to the same, and in the same contexts. -/
theorem framed (h : Alike host fs gs) (before after : List Fragment) :
    Alike host (before ++ fs ++ after) (before ++ gs ++ after) := by
  intro c hc
  rw [composeContexts_append host hc, composeContexts_append host hc,
    composeContexts_append host hc, composeContexts_append host hc, bind_assoc, bind_assoc]
  refine bind_congr fun made => ?_
  rw [h _ (ordered_extend hc made)]

/-- A compound is told by what its context and its parts compose to. -/
theorem compound {inner inner' : Fragment} (hinner : Alike host [inner] [inner'])
    (hparts : Alike host fs gs) : Alike host [.compound inner fs] [.compound inner' gs] := by
  intro c hc
  rw [composeContexts_cons hc [] rfl, composeContexts_cons hc [] rfl,
    contextOf_compound host hc, contextOf_compound host hc, hinner _ (ordered_seed host [])]
  congr 1
  refine bind_congr fun own => ?_
  exact hparts _ (ordered_extend hc own)

/-- A compound without a context of its own composes to what its parts do. -/
theorem plain {inner : Fragment} (hinner : inner.isEmpty = true) (parts : List Fragment) :
    Alike host [.compound inner parts] parts := by
  intro c hc
  have hown : composeContexts host (seed host []) [] [inner] = .ok [] := by
    rw [composeContexts, if_pos hinner, composeContexts]
  have hextend : extend c [] = c := rfl
  rw [composeContexts_cons hc [] rfl, contextOf_compound host hc, hown, ok_bind, hextend]
  cases hmade : composeContexts host c [] parts with
  | error e => rfl
  | ok made =>
    rw [ok_bind, composeContexts, overlay_nil (ordered_of_composeContexts hc hmade)]

end Alike

/-! ## Documents that are compounds -/

theorem innerOf_eq (members : Table Json) :
    Fragment.innerOf members =
      ((get? members "__eval_context").map Fragment.ofJson).getD (.ok (.literal .null)) := by
  induction members with
  | nil =>
    rw [Fragment.innerOf]
    rfl
  | cons m rest ih =>
    obtain ⟨n, j⟩ := m
    rw [Fragment.innerOf, get?_cons, ih, Fragment.ofMember]
    by_cases hn : n = "__eval_context"
    · rw [if_pos hn, if_pos hn]
      rfl
    · rw [if_neg hn, if_neg hn]

theorem partsOf_eq (name : String) (members : Table Json) :
    Fragment.partsOf name members =
      ((get? members name).map (Fragment.partsOfList name)).getD (.ok []) := by
  induction members with
  | nil =>
    rw [Fragment.partsOf]
    rfl
  | cons m rest ih =>
    obtain ⟨n, j⟩ := m
    rw [Fragment.partsOf, get?_cons, ih, Fragment.partsOfMember]
    by_cases hn : n = name
    · subst hn
      rw [if_pos rfl, if_pos rfl]
      rfl
    · rw [if_neg hn, if_neg hn]

/-- The members of an object that is a compound of contexts. -/
def IsCompound (members : Table Json) : Prop :=
  get? members "__ref" = some (.str "compound_context")

theorem ofJson_compound {members : Table Json} (h : IsCompound members) :
    Fragment.ofJson (.object members) =
      Fragment.innerOf members >>= fun inner =>
        Fragment.partsOf "__contexts" members >>= fun parts => .ok (.compound inner parts) := by
  have href : ((get? members "__ref").bind Json.text?).bind Reference.ofName? =
      some .compoundContext := by
    rw [h]
    rfl
  rw [Fragment.ofJson, href]
  rfl

theorem ofItems_singleton (j : Json) :
    Fragment.ofItems [j] = Fragment.ofJson j >>= fun f => .ok [f] := by
  rw [Fragment.ofItems]
  rfl

/-- Documents that are read as lists that compose alike stay so among others. -/
theorem related_framed {host : Host} {docs docs' : List Json}
    (h : Related (Alike host) (Fragment.ofItems docs) (Fragment.ofItems docs'))
    (before after : List Json) :
    Related (Alike host) (Fragment.ofItems (before ++ docs ++ after))
      (Fragment.ofItems (before ++ docs' ++ after)) := by
  rw [ofItems_append_eq, ofItems_append_eq, ofItems_append_eq, ofItems_append_eq, bind_assoc,
    bind_assoc]
  refine .bind_same _ fun xs => ?_
  rw [bind_assoc, bind_assoc]
  refine h.bind fun fs gs halike => ?_
  exact .bind_same _ fun ys => .succeeded (halike.framed xs ys)

/-- The documents in a member that lists them. A member that is missing or null lists none. -/
def listed? : Option Json → Option (List Json)
  | none => some []
  | some .null => some []
  | some (.array docs) => some docs
  | some _ => none

theorem partsOf_listed {name : String} {members : Table Json} {docs : List Json}
    (h : listed? (get? members name) = some docs) :
    Fragment.partsOf name members = Fragment.ofItems docs := by
  rw [partsOf_eq]
  unfold listed? at h
  split at h
  · next hget =>
    cases h
    rw [hget, Fragment.ofItems]
    rfl
  · next hget =>
    cases h
    rw [hget, Fragment.ofItems]
    rfl
  · next hget =>
    cases h
    rw [hget, Option.map_some, Option.getD_some, Fragment.partsOfList]
  · cases h

/-! ## Compounds without a context of their own -/

/-- An object that is a compound of the contexts `docs`, and has no context of its own: that is
missing, null or otherwise empty. -/
structure IsPlain (members : Table Json) (docs : List Json) : Prop where
  compound : IsCompound members
  inner : ∀ j, get? members "__eval_context" = some j → isVoid j = true
  parts : listed? (get? members "__contexts") = some docs

theorem IsPlain.innerOf {members : Table Json} {docs : List Json} (h : IsPlain members docs) :
    ∃ inner, Fragment.innerOf members = .ok inner ∧ inner.isEmpty = true := by
  rw [innerOf_eq]
  cases hget : get? members "__eval_context" with
  | none => exact ⟨.literal .null, rfl, rfl⟩
  | some j =>
    have hvoid := h.inner j hget
    rw [isVoid] at hvoid
    split at hvoid
    · next inner hinner => exact ⟨inner, hinner, hvoid⟩
    · cases hvoid

theorem IsPlain.related (host : Host) {members : Table Json} {docs : List Json}
    (h : IsPlain members docs) :
    Related (Alike host) (Fragment.ofItems [.object members]) (Fragment.ofItems docs) := by
  obtain ⟨inner, hinner, hempty⟩ := h.innerOf
  rw [ofItems_singleton, ofJson_compound h.compound, hinner, ok_bind, partsOf_listed h.parts]
  cases Fragment.ofItems docs with
  | error e => exact .failed e
  | ok parts => exact .succeeded (.plain hempty parts)

/-- The second list is the first in which one compound without a context of its own gave way to
its parts. The compound may be in the list, among the parts of a compound, or in the context of
a compound, at any depth. -/
inductive Inlined : List Json → List Json → Prop
  | here {members : Table Json} {parts : List Json} (h : IsPlain members parts)
      (before after : List Json) :
      Inlined (before ++ [Json.object members] ++ after) (before ++ parts ++ after)
  | part {members : Table Json} {parts parts' : List Json} (hmembers : IsCompound members)
      (hparts : get? members "__contexts" = some (.array parts)) (h : Inlined parts parts')
      (before after : List Json) :
      Inlined (before ++ [Json.object members] ++ after)
        (before ++ [Json.object (insert members "__contexts" (.array parts'))] ++ after)
  | inner {members : Table Json} {j k : Json} (hmembers : IsCompound members)
      (hinner : get? members "__eval_context" = some j) (h : Inlined [j] [k])
      (before after : List Json) :
      Inlined (before ++ [Json.object members] ++ after)
        (before ++ [Json.object (insert members "__eval_context" k)] ++ after)

theorem IsCompound.insert {members : Table Json} (h : IsCompound members) {name : String}
    (hname : "__ref" ≠ name) (j : Json) : IsCompound (insert members name j) :=
  (get?_insert_of_ne members j hname).trans h

/-- Compounds that differ in their parts, or in their contexts, compose alike where these do. -/
theorem related_compound {host : Host} {members members' : Table Json}
    (h : IsCompound members) (h' : IsCompound members')
    (hinner : Related (fun f g => Alike host [f] [g]) (Fragment.innerOf members)
      (Fragment.innerOf members'))
    (hparts : Related (Alike host) (Fragment.partsOf "__contexts" members)
      (Fragment.partsOf "__contexts" members')) :
    Related (Alike host) (Fragment.ofItems [.object members])
      (Fragment.ofItems [.object members']) := by
  rw [ofItems_singleton, ofItems_singleton, ofJson_compound h, ofJson_compound h', bind_assoc,
    bind_assoc]
  refine hinner.bind fun f g hfg => ?_
  rw [bind_assoc, bind_assoc]
  exact hparts.bind fun fs gs hfgs => .succeeded (hfg.compound hfgs)

theorem related_of_singletons {host : Host} {j k : Json}
    (h : Related (Alike host) (Fragment.ofItems [j]) (Fragment.ofItems [k])) :
    Related (fun f g => Alike host [f] [g]) (Fragment.ofJson j) (Fragment.ofJson k) := by
  rw [ofItems_singleton, ofItems_singleton] at h
  revert h
  cases Fragment.ofJson j with
  | error e =>
    cases Fragment.ofJson k with
    | error e' =>
      rintro ⟨⟩
      exact .failed e
    | ok g => rintro ⟨⟩
  | ok f =>
    cases Fragment.ofJson k with
    | error e' => rintro ⟨⟩
    | ok g =>
      rintro (_ | halike)
      exact .succeeded halike

theorem Inlined.related (host : Host) {docs docs' : List Json} (h : Inlined docs docs') :
    Related (Alike host) (Fragment.ofItems docs) (Fragment.ofItems docs') := by
  induction h with
  | here h before after => exact related_framed (h.related host) before after
  | @part members parts parts' hmembers hparts _ before after ih =>
    refine related_framed (related_compound hmembers (hmembers.insert (by decide) _) ?_ ?_) before
      after
    · rw [innerOf_eq, innerOf_eq, get?_insert_of_ne members _ (by decide)]
      exact .refl (fun f => .refl host [f]) _
    · rw [partsOf_eq, partsOf_eq, hparts, get?_insert_self]
      exact ih
  | @inner members j k hmembers hinner _ before after ih =>
    refine related_framed (related_compound hmembers (hmembers.insert (by decide) _) ?_ ?_) before
      after
    · rw [innerOf_eq, innerOf_eq, hinner, get?_insert_self]
      exact related_of_singletons ih
    · rw [partsOf_eq, partsOf_eq, get?_insert_of_ne members _ (by decide)]
      exact .refl (.refl host) _

/-- A compound of contexts without a context of its own stands for its parts. In a list of
fragments, whatever stands before and after it and whatever the parts are, the parts may be
written in its place: what the list composes to is the same, and so is the failure where there
is one. The same holds of such a compound inside other compounds. -/
theorem evaluate_inlined (host : Host) (base : Table Json) :
    (∀ (members : Table Json) (parts : List Json), IsPlain members parts →
      ∀ before after : List Json,
        evaluate host .context (before ++ [Json.object members] ++ after) base =
          evaluate host .context (before ++ parts ++ after) base) ∧
      ∀ docs docs' : List Json, Inlined docs docs' →
        evaluate host .context docs base = evaluate host .context docs' base := by
  have hevaluate : ∀ docs docs' : List Json, Inlined docs docs' →
      evaluate host .context docs base = evaluate host .context docs' base := by
    intro docs docs' h
    rw [evaluate, evaluate]
    refine (h.related host).bind_eq fun fs gs halike => ?_
    rw [compose, compose, halike _ (ordered_seed host base)]
  exact ⟨fun members parts h before after => hevaluate _ _ (.here h before after), hevaluate⟩

/-- Parts of a compound: a fragment that refers to a name from outside, and a compound that has
no context of its own. -/
def dependentParts : List Json :=
  [.str "b = a + 'y'",
    .object [("__contexts", .array [.str "c = b + a", .null]), ("__ref", .str "compound_context")]]

def blankCompound : Table Json :=
  [("__contexts", .array dependentParts), ("__eval_context", .str " "),
    ("__ref", .str "compound_context")]

def namedCompound (parts : List Json) : Table Json :=
  [("__contexts", .array parts), ("__eval_context", .object [("a", .str "z")]),
    ("__ref", .str "compound_context")]

/-- A compound without a context gives way to its parts in a list, and inside a compound that
has a context. -/
theorem evaluate_inlined_dependentParts :
    IsPlain blankCompound dependentParts ∧
      evaluate .idle .context
          ([Json.str "a = 'x'"] ++ [Json.object blankCompound] ++ [Json.str "d = c"]) [] =
        evaluate .idle .context ([Json.str "a = 'x'"] ++ dependentParts ++ [Json.str "d = c"]) [] ∧
      Inlined [.object (namedCompound dependentParts)]
        [.object (namedCompound [.str "b = a + 'y'", .str "c = b + a", .null])] ∧
      evaluate .idle .context [.object (namedCompound dependentParts)] [] =
        evaluate .idle .context
          [.object (namedCompound [.str "b = a + 'y'", .str "c = b + a", .null])] [] := by
  have hblank : IsPlain blankCompound dependentParts := by
    refine ⟨rfl, fun j hj => ?_, rfl⟩
    cases hj
    rfl
  have hplain : IsPlain [("__contexts", .array [.str "c = b + a", .null]),
      ("__ref", .str "compound_context")] [.str "c = b + a", .null] := by
    refine ⟨rfl, fun j hj => ?_, rfl⟩
    cases hj
  have hparts : Inlined dependentParts [.str "b = a + 'y'", .str "c = b + a", .null] :=
    .here hplain [.str "b = a + 'y'"] []
  have hinlined : Inlined [.object (namedCompound dependentParts)]
      [.object (namedCompound [.str "b = a + 'y'", .str "c = b + a", .null])] :=
    @Inlined.part (namedCompound dependentParts) _ _ rfl rfl hparts [] []
  exact ⟨hblank, (evaluate_inlined .idle []).1 _ _ hblank _ _, hinlined,
    (evaluate_inlined .idle []).2 _ _ hinlined⟩

end FilterLang.Composition
