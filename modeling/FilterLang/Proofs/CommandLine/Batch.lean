import FilterLang.CommandLine.Run
import FilterLang.Proofs.Composition.Restart
import FilterLang.Proofs.Json.Reading
/-!
A batch is its three compositions.

The command for a batch and the command for one composition each put their base object
together by themselves: the former from the member of the batch file, and only where the
configuration has names, the latter from a context file, if there is one. From the same two
objects they get the same base object (`onTopOf_eq`, `baseContext_eq`), in which the names
of the file win. A batch would drop a composition of another form than it expects, but each
of the three always has that form (`Batch.evaluate_eq`). So a batch is the three compositions
one after the other (`batchComposition_chain`), and fails with the first of them that does.
-/

namespace FilterLang

open Fallible Table

/-! ## The base object of a batch -/

namespace Batch

def fragments (b : Batch) : FragmentKind → List Json
  | .context => b.contexts
  | .domain => b.domains
  | .groupBy => b.groupBys

theorem ordered_base? {j : Json} (hj : j.Ordered) {base : Table Json} (h : base? j = some base) :
    Ordered base := by
  unfold base? at h
  split at h
  · cases h
    exact Json.ordered_members hj
  · cases h
    exact ordered_nil
  · cases h

/-- The base object of a batch in order is in order. -/
theorem ordered_base {j : Json} (hj : j.Ordered) {b : Batch} (h : ofJson? j = some b) :
    Ordered b.base := by
  unfold ofJson? at h
  split at h
  · rename_i members
    obtain ⟨contexts, _, h⟩ := Option.bind_eq_some_iff.mp h
    obtain ⟨domains, _, h⟩ := Option.bind_eq_some_iff.mp h
    obtain ⟨groupBys, _, h⟩ := Option.bind_eq_some_iff.mp h
    obtain ⟨base, hbase, h⟩ := Option.bind_eq_some_iff.mp h
    cases h
    show Ordered base
    unfold memberOr at hbase
    split at hbase
    · rename_i k hk
      exact ordered_base? (Json.ordered_get? hj hk) hbase
    · cases hbase
      exact ordered_nil
  · rename_i items
    split at h
    · obtain ⟨contexts, _, h⟩ := Option.bind_eq_some_iff.mp h
      obtain ⟨domains, _, h⟩ := Option.bind_eq_some_iff.mp h
      obtain ⟨groupBys, _, h⟩ := Option.bind_eq_some_iff.mp h
      obtain ⟨base, hbase, h⟩ := Option.bind_eq_some_iff.mp h
      cases h
      show Ordered base
      unfold itemOr at hbase
      split at hbase
      · rename_i k hk
        exact ordered_base? (Json.ordered_getElem? hj hk) hbase
      · cases hbase
        exact ordered_nil
    · cases h
  · cases h

/-- To put the base object of a batch on top of no names leaves it as it is. -/
theorem onTopOf_eq {b : Batch} (hb : Ordered b.base) (entries : Table Json) :
    b.onTopOf entries = { b with base := overlay entries b.base } := by
  unfold onTopOf
  cases entries with
  | nil => rw [List.isEmpty_nil, if_pos rfl, overlay_nil hb]
  | cons e rest => rfl

/-! ## The three compositions -/

section

variable {host : Host} {docs : List Json} {base : Table Json} {j : Json}

/-- A context is composed to an object. -/
theorem object_members (h : Composition.evaluate host .context docs base = .ok j) :
    .object (members j) = j := by
  obtain ⟨_, -, h⟩ := bind_eq_ok.mp h
  obtain ⟨_, -, h⟩ := bind_eq_ok.mp h
  cases h
  rfl

/-- A domain is composed to an array, and so are the names to group by. -/
theorem array_items {kind : FragmentKind} (hkind : kind ≠ .context)
    (h : Composition.evaluate host kind docs base = .ok j) : .array (items j) = j := by
  obtain ⟨_, -, h⟩ := bind_eq_ok.mp h
  cases kind with
  | context => exact absurd rfl hkind
  | domain | groupBy =>
    obtain ⟨_, -, h⟩ := bind_eq_ok.mp h
    cases h
    rfl

end

/-- No composition is passed over for its form: a batch has in it what each of the three gives. -/
theorem evaluate_eq (host : Host) (b : Batch) :
    b.evaluate host =
      Composition.evaluate host .context b.contexts b.base >>= fun c =>
        Composition.evaluate host .domain b.domains b.base >>= fun d =>
          Composition.evaluate host .groupBy b.groupBys b.base >>= fun g =>
            .ok (.object [("context", c), ("domain", d), ("group_by", g)]) := by
  rw [evaluate]
  refine bind_congr_ok fun c hc => bind_congr_ok fun d hd => bind_congr_ok fun g hg => ?_
  show Except.ok (Json.object [("context", .object (members c)), ("domain", .array (items d)),
    ("group_by", .array (items g))]) = _
  rw [object_members hc, array_items (by decide) hd, array_items (by decide) hg]

end Batch

/-! ## Commands -/

namespace CommandLine

theorem readJson_eq_ok {files : Files} {path : String} {j : Json}
    (h : readJson files path = .ok j) : j.Ordered := by
  unfold readJson at h
  obtain ⟨text, _, h⟩ := bind_eq_ok.mp h
  split at h
  · rename_i k hk
    cases h
    exact Json.ordered_read hk
  · cases h

theorem ordered_readBatch {files : Files} {path : String} {b : Batch}
    (h : readBatch files path = .ok b) : Ordered b.base := by
  unfold readBatch at h
  obtain ⟨j, hj, h⟩ := bind_eq_ok.mp h
  split at h
  · rename_i b' hb
    cases h
    exact Batch.ordered_base (readJson_eq_ok hj) hb
  · cases h

/-- The members that a context file gives: those of its object, and none without a file. -/
def Gives (files : Files) (context : Option String) (members : Table Json) : Prop :=
  match context with
  | none => members = []
  | some path => readObject files path = .ok members

/-- A batch file, and the same batch in single files: one for the fragments of each kind, and
a context file for the base object. -/
structure Parts (files : Files) (b : Batch) (source : String) (lists : FragmentKind → String)
    (context : Option String) : Prop where
  source : readBatch files source = .ok b
  lists : ∀ kind, readFragments files (lists kind) = .ok (b.fragments kind)
  context : Gives files context b.base

theorem baseContext_eq {files : Files} {context : Option String} {members : Table Json}
    (h : Gives files context members) (config : Config) :
    baseContext files config context = .ok (overlay config.context members) := by
  cases context with
  | none =>
    cases h
    rfl
  | some path =>
    rw [baseContext, show readObject files path = .ok members from h]
    rfl

theorem evaluated_bind {α β : Type} (x : Outcome α) (f : α → Outcome β) :
    evaluated (x >>= f) = evaluated x >>= fun a => evaluated (f a) := by
  cases x <;> rfl

section

variable (host : Host) {files : Files} (config : Config) {b : Batch} {source : String}
  {lists : FragmentKind → String} {context : Option String}

/-- A single composition starts on the names of the configuration with those of the batch's
base object on top. -/
theorem composition_eq (h : Parts files b source lists context) (kind : FragmentKind) :
    composition host files config kind (lists kind) context =
      evaluated (Composition.evaluate host kind (b.fragments kind)
        (overlay config.context b.base)) := by
  rw [composition, baseContext_eq h.context, ok_bind, h.lists kind, ok_bind]

/-- A batch starts on the same names. -/
theorem batchComposition_eq (h : Parts files b source lists context) :
    batchComposition host files config source =
      evaluated ({ b with base := overlay config.context b.base }.evaluate host) := by
  rw [batchComposition, h.source, ok_bind, Batch.onTopOf_eq (ordered_readBatch h.source)]

/-- A batch is composed one kind after the other. -/
theorem batchComposition_chain (h : Parts files b source lists context) :
    batchComposition host files config source =
      composition host files config .context (lists .context) context >>= fun c =>
        composition host files config .domain (lists .domain) context >>= fun d =>
          composition host files config .groupBy (lists .groupBy) context >>= fun g =>
            .ok (.object [("context", c), ("domain", d), ("group_by", g)]) := by
  rw [batchComposition_eq host config h, Batch.evaluate_eq]
  simp only [composition_eq host config h, evaluated_bind]
  rfl

/-- A batch prints the object of what its three compositions compose to, each by itself, and
fails as the first of them that fails. All of them start on one base object, in which the names
of the batch win over those of the configuration. -/
theorem batchComposition_agrees (h : Parts files b source lists context) :
    (∀ format, output host files config format (.batch source) =
        (batchComposition host files config source).map fun j => [resultText format j]) ∧
      (∀ format kind, output host files config format (.compose kind (lists kind) context) =
        (composition host files config kind (lists kind) context).map fun j =>
          [resultText format j]) ∧
      (∀ result, batchComposition host files config source = .ok result ↔
        ∃ c d g,
          composition host files config .context (lists .context) context = .ok c ∧
          composition host files config .domain (lists .domain) context = .ok d ∧
          composition host files config .groupBy (lists .groupBy) context = .ok g ∧
          result = .object [("context", c), ("domain", d), ("group_by", g)]) ∧
      (∀ f, batchComposition host files config source = .error f ↔
        composition host files config .context (lists .context) context = .error f ∨
        ∃ c, composition host files config .context (lists .context) context = .ok c ∧
          (composition host files config .domain (lists .domain) context = .error f ∨
          ∃ d, composition host files config .domain (lists .domain) context = .ok d ∧
            composition host files config .groupBy (lists .groupBy) context = .error f)) ∧
      ∃ base : Table Json,
        (∀ name, get? base name = (get? b.base name).or (get? config.context name)) ∧
        (∀ kind, composition host files config kind (lists kind) context =
          evaluated (Composition.evaluate host kind (b.fragments kind) base)) ∧
        batchComposition host files config source =
          evaluated ({ b with base }.evaluate host) := by
  have hbase : Ordered b.base := ordered_readBatch h.source
  refine ⟨fun format => ?_, fun format kind => ?_, fun result => ?_, fun f => ?_,
    overlay config.context b.base, fun name => ?_, composition_eq host config h,
    batchComposition_eq host config h⟩
  · rw [output]
    cases batchComposition host files config source <;> rfl
  · rw [output]
    cases composition host files config kind (lists kind) context <;> rfl
  · rw [batchComposition_chain host config h]
    simp only [bind_eq_ok, Except.ok.injEq, exists_and_left, eq_comm (b := result)]
  · rw [batchComposition_chain host config h]
    simp only [bind_eq_error, reduceCtorEq, and_false, exists_false, or_false]
  · rw [get?_overlay, get?_ofList hbase]

end

def smallFiles : Files := fun path =>
  match path with
  | "batch" => .ok "\x7b\"domains\": [\"[a]\"], \"eval_context\": \x7b\"a\": \"own\"\x7d\x7d"
  | "domains" => .ok "[\"[a]\"]"
  | "empty" => .ok "[]"
  | "base" => .ok "\x7b\"a\": \"own\"\x7d"
  | _ => .error "not read"

def smallBatch : Batch :=
  { domains := [.str "[a]"], base := [("a", .str "own")] }

def smallLists : FragmentKind → String
  | .domain => "domains"
  | .context | .groupBy => "empty"

def sharedConfig : Config := { context := [("a", .str "shared"), ("lang", .str "en")] }

theorem smallParts : Parts smallFiles smallBatch "batch" smallLists (some "base") where
  source := by cbv
  lists kind := by cases kind <;> cbv
  context := by cbv

theorem batchComposition_agrees_small :
    Parts smallFiles smallBatch "batch" smallLists (some "base") ∧
      ∃ domain, composition .idle smallFiles sharedConfig .domain "domains" (some "base") =
          .ok domain ∧
        batchComposition .idle smallFiles sharedConfig "batch" =
          .ok (.object [("context", .object []), ("domain", domain), ("group_by", .array [])]) := by
  have hruns : (composition .idle smallFiles sharedConfig .domain "domains" (some "base")).isOk =
      true := by
    decide +kernel
  refine ⟨smallParts, ?_⟩
  cases hdomain : composition .idle smallFiles sharedConfig .domain "domains" (some "base") with
  | error f =>
    rw [hdomain] at hruns
    cases hruns
  | ok domain =>
    refine ⟨domain, rfl, ?_⟩
    apply ((batchComposition_agrees .idle sharedConfig smallParts).2.2.1 _).mpr
    exact ⟨_, _, _, by cbv, hdomain, by cbv, rfl⟩

end CommandLine

end FilterLang
