import FilterLang.Proofs.Table
import FilterLang.Proofs.Value.Arguments
import Mathlib
/-!
Arguments end where they belong.

A signature is declared parameter by parameter. What a call of it can do wrong is told from the
call alone: a keyword repeats a parameter that has its value, a parameter lacks one, arguments
overflow the parameters, a keyword strays from them. The binding of the arguments answers with
the first of these faults, and succeeds when there is none (`bind_declared`). Then every parameter
has its positional argument, or its keyword argument, or its default, and what is left over is
collected: no argument is dropped or used twice.

The keywords are followed one by one: placing one turns the faults of the remaining ones, seen
from the slots as they were, into faults seen from the slots as they are (`doubles_set`).
-/

namespace FilterLang

open Fallible

/-! ## Declarations -/

/-- A step in the declaration of a signature. -/
inductive Declaration where
  | required (name : String)
  | optional (name : String) (default : Value)
  | keywordOnly
  | varargs (name : String)
  | varkw (name : String)

namespace Declaration

/-- The signature with one more declaration. -/
def apply (s : Signature) : Declaration → Signature
  | required name => s.required name
  | optional name default => s.optional name default
  | keywordOnly => s.keywordOnly
  | varargs name => s.varargs name
  | varkw name => s.varkw name

/-- The parameter that is declared, if it is one. -/
def param? : Declaration → Option Param
  | required name => some ⟨name, none⟩
  | optional name default => some ⟨name, some default⟩
  | _ => none

/-- Whether the parameters from here on can only be given by name. -/
def isKeywordOnly : Declaration → Bool
  | keywordOnly => true
  | _ => false

/-- Whether further positional arguments are collected. -/
def isVarargs : Declaration → Bool
  | varargs _ => true
  | _ => false

/-- Whether further keyword arguments are collected. -/
def isVarkw : Declaration → Bool
  | varkw _ => true
  | _ => false

end Declaration

/-- The signature that declarations make one after the other. -/
def Signature.declared (ds : List Declaration) : Signature :=
  ds.foldl Declaration.apply {}

/-! ## Calls -/

structure Call where
  params : List Param
  /-- How many parameters can be given by position. -/
  limit : Nat
  /-- Whether further positional arguments are collected. -/
  collectsArgs : Bool
  /-- Whether further keyword arguments are collected. -/
  collectsKeywords : Bool
  args : List Value
  keywords : List (String × Value)

namespace Call

/-- A call with declared parameters: those before the first that can only be given by name can
be given by position. -/
def ofDeclarations (ds : List Declaration) (args : List Value)
    (keywords : List (String × Value)) : Call where
  params := ds.filterMap Declaration.param?
  limit := ((ds.takeWhile fun d => !d.isKeywordOnly).filterMap Declaration.param?).length
  collectsArgs := ds.any Declaration.isVarargs
  collectsKeywords := ds.any Declaration.isVarkw
  args := args
  keywords := keywords

def ofSignature (s : Signature) (args : List Value) (keywords : List (String × Value)) : Call where
  params := s.params
  limit := s.positional
  collectsArgs := s.rest.isSome
  collectsKeywords := s.keywords.isSome
  args := args
  keywords := keywords

variable (c : Call)

def Distinct : Prop := (c.params.map (·.name)).Nodup

instance : Decidable c.Distinct :=
  inferInstanceAs (Decidable (c.params.map (·.name)).Nodup)

/-- The positional argument for the parameter at a position. -/
def byPosition? (i : Nat) : Option Value :=
  if i < c.limit then c.args[i]? else none

/-- The argument for the parameter at a position. -/
def given? (i : Nat) (p : Param) : Option Value :=
  (c.byPosition? i).or (Table.get? c.keywords p.name)

/-- The keyword at a position names a parameter that has its value already, from a positional
argument or from an earlier keyword. -/
def Repeats (j : Nat) (name : String) : Prop :=
  ∃ value i p, c.keywords[j]? = some (name, value) ∧ c.params[i]? = some p ∧ p.name = name ∧
    ((i < c.limit ∧ i < c.args.length) ∨ name ∈ (c.keywords.take j).map (·.1))

/-- The parameter at a position has neither an argument nor a default. -/
def Lacks (i : Nat) (name : String) : Prop :=
  ∃ p, c.params[i]? = some p ∧ p.name = name ∧ (c.given? i p).or p.default = none

/-- There are more positional arguments than parameters for them. -/
def Overflows : Prop :=
  c.limit < c.args.length ∧ c.collectsArgs = false

/-- The keyword at a position names no parameter. -/
def Strays (j : Nat) (name : String) : Prop :=
  (∃ value, c.keywords[j]? = some (name, value)) ∧ name ∉ c.params.map (·.name) ∧
    c.collectsKeywords = false

/-- Nothing is wrong with a call. -/
structure Fits : Prop where
  repeats : ∀ j name, ¬ c.Repeats j name
  lacks : ∀ i name, ¬ c.Lacks i name
  overflows : ¬ c.Overflows
  strays : ∀ j name, ¬ c.Strays j name

/-- Bound arguments are those of a call. -/
structure Carried (b : Bound) : Prop where
  length : b.values.length = c.params.length
  /-- A parameter has its argument, or else its default. -/
  values : ∀ i p, c.params[i]? = some p → b.values[i]? = (c.given? i p).or p.default
  get : ∀ i p, c.params[i]? = some p → some (b.get p.name) = (c.given? i p).or p.default
  /-- The positional arguments that no parameter takes are collected, -/
  rest : b.rest = c.args.drop c.limit
  /-- and so are the keyword arguments. -/
  keywords : b.keywords = c.keywords.filter fun k => k.1 ∉ c.params.map (·.name)
  /-- Each argument is in one place. -/
  places : (c.args ++ c.keywords.map (·.2)).Perm
    ((c.params.mapIdx fun i p => (c.given? i p).toList).flatten ++ b.rest ++
      b.keywords.map (·.2))

/-- A position is the first at which something is wrong with a name. -/
def IsFirst (wrong : Nat → String → Prop) (i : Nat) (name : String) : Prop :=
  wrong i name ∧ ∀ k < i, ∀ other, ¬ wrong k other

/-- How a call has to be answered: with the first fault, or with all arguments bound. -/
inductive Answered (callee : String) : Outcome Bound → Prop
  | repeats {j : Nat} {name : String} (h : IsFirst c.Repeats j name) :
    Answered callee (.error (.type (.multipleValues callee name)))
  | lacks {i : Nat} {name : String} (hrepeats : ∀ j name, ¬ c.Repeats j name)
    (h : IsFirst c.Lacks i name) : Answered callee (.error (.type (.missingArgument callee name)))
  | overflows (hrepeats : ∀ j name, ¬ c.Repeats j name) (hlacks : ∀ i name, ¬ c.Lacks i name)
    (h : c.Overflows) :
    Answered callee (.error (.type (.tooManyArguments callee c.limit c.args.length)))
  | strays {j : Nat} {name : String} (hrepeats : ∀ j name, ¬ c.Repeats j name)
    (hlacks : ∀ i name, ¬ c.Lacks i name) (hoverflows : ¬ c.Overflows)
    (h : IsFirst c.Strays j name) :
    Answered callee (.error (.type (.unexpectedKeyword callee name)))
  | bound {b : Bound} (hfits : c.Fits) (h : c.Carried b) : Answered callee (.ok b)

end Call

/-! ## First faults -/

namespace Call

section Shift

variable {wrong wrong' : Nat → String → Prop} (hzero : ∀ name, ¬ wrong' 0 name)
  (hsucc : ∀ j name, wrong' (j + 1) name ↔ wrong j name)
include hzero hsucc

/-- The first fault after a faultless position is one position further on. -/
theorem IsFirst.succ {j : Nat} {name : String} (h : IsFirst wrong j name) :
    IsFirst wrong' (j + 1) name := by
  refine ⟨(hsucc j name).mpr h.1, fun k hk other hwrong => ?_⟩
  cases k with
  | zero => exact hzero other hwrong
  | succ k => exact h.2 k (by omega) other ((hsucc k other).mp hwrong)

theorem faultless_succ (h : ∀ j name, ¬ wrong j name) (j : Nat) (name : String) :
    ¬ wrong' j name := by
  cases j with
  | zero => exact hzero name
  | succ j => exact fun hwrong => h j name ((hsucc j name).mp hwrong)

end Shift

end Call

/-! ## What declarations make -/

namespace Signature

section Declared

variable (ds : List Declaration)

theorem declared_append (d : Declaration) : declared (ds ++ [d]) = d.apply (declared ds) := by
  rw [declared, List.foldl_append]
  rfl

theorem params_declared : (declared ds).params = ds.filterMap Declaration.param? := by
  induction ds using List.reverseRecOn with
  | nil => rfl
  | append_singleton ds d ih =>
    rw [declared_append, List.filterMap_append, ← ih]
    cases d with
    | required | optional => rfl
    | keywordOnly | varargs | varkw => exact (List.append_nil _).symm

/-- What one kind of declaration sets for good is set when there is one. -/
theorem any_declared (set : Signature → Bool) (sets : Declaration → Bool) (hnew : set {} = false)
    (hstep : ∀ s d, set (d.apply s) = (set s || sets d)) : set (declared ds) = ds.any sets := by
  induction ds using List.reverseRecOn with
  | nil => exact hnew
  | append_singleton ds d ih => simp [declared_append, hstep, ih]

theorem rest_declared : (declared ds).rest.isSome = ds.any Declaration.isVarargs := by
  refine any_declared ds (fun s => s.rest.isSome) Declaration.isVarargs rfl fun s d => ?_
  cases d with
  | varargs => exact (Bool.or_true _).symm
  | _ => exact (Bool.or_false _).symm

theorem keywords_declared : (declared ds).keywords.isSome = ds.any Declaration.isVarkw := by
  refine any_declared ds (fun s => s.keywords.isSome) Declaration.isVarkw rfl fun s d => ?_
  cases d with
  | varkw => exact (Bool.or_true _).symm
  | _ => exact (Bool.or_false _).symm

/-- Parameters are counted as long as they can be given by position. -/
theorem positional_foldl (s : Signature) (hs : s.named = false → s.positional = s.params.length) :
    (ds.foldl Declaration.apply s).positional =
      if s.named then s.positional
      else s.params.length +
        ((ds.takeWhile fun d => !d.isKeywordOnly).filterMap Declaration.param?).length := by
  induction ds generalizing s with
  | nil =>
    cases hnamed : s.named with
    | true => rfl
    | false => exact hs hnamed
  | cons d ds ih =>
    rw [List.foldl_cons]
    cases hnamed : s.named with
    | true =>
      -- nothing that is declared now can be given by position
      have hstep : (d.apply s).named = true ∧ (d.apply s).positional = s.positional := by
        cases d with
        | required | optional => exact ⟨hnamed, if_pos hnamed⟩
        | keywordOnly => exact ⟨rfl, rfl⟩
        | varargs | varkw => exact ⟨hnamed, rfl⟩
      rw [ih _ (by simp [hstep.1]), if_pos hstep.1, if_pos rfl, hstep.2]
    | false =>
      have hall := hs hnamed
      rw [if_neg (by simp), List.takeWhile_cons]
      cases hd : d.isKeywordOnly with
      | true =>
        cases d with
        | keywordOnly => exact (ih s.keywordOnly (fun h => nomatch h)).trans hall
        | _ => cases hd
      | false =>
        have hstep : (d.apply s).named = false ∧
            (d.apply s).positional = (d.apply s).params.length ∧
            (d.apply s).params.length = s.params.length + d.param?.toList.length := by
          cases d with
          | required | optional =>
            refine ⟨hnamed, ?_, List.length_append⟩
            simp [Declaration.apply, required, optional, push, hnamed]
          | keywordOnly => cases hd
          | varargs | varkw => exact ⟨hnamed, hall, rfl⟩
        rw [ih _ fun _ => hstep.2.1, if_neg (by simp [hstep.1]), hstep.2.2, Bool.not_false,
          if_pos rfl, List.filterMap_cons]
        cases d.param? with
        | none => rfl
        | some p =>
          simp only [Option.toList_some, List.length_cons, List.length_nil]
          omega

theorem positional_declared : (declared ds).positional =
    ((ds.takeWhile fun d => !d.isKeywordOnly).filterMap Declaration.param?).length := by
  rw [declared, positional_foldl ds {} fun _ => rfl]
  exact Nat.zero_add _

/-- A call of a declared signature is a call with what was declared. -/
theorem call_declared (args : List Value) (keywords : List (String × Value)) :
    Call.ofSignature (declared ds) args keywords = .ofDeclarations ds args keywords := by
  rw [Call.ofSignature, params_declared, positional_declared, rest_declared, keywords_declared]
  rfl

end Declared

/-! ## Names of parameters -/

section Names

variable {s : Signature}

theorem indexOf?_eq_none {name : String} :
    s.indexOf? name = none ↔ name ∉ s.params.map (·.name) := by
  rw [indexOf?, List.findIdx?_eq_none_iff]
  simp

/-- Where the names are distinct, a parameter is found by its name. -/
theorem indexOf?_eq_some (hs : (s.params.map (·.name)).Nodup) {name : String} {i : Nat} :
    s.indexOf? name = some i ↔ ∃ p, s.params[i]? = some p ∧ p.name = name := by
  rw [indexOf?, List.findIdx?_eq_some_iff_getElem]
  constructor
  · rintro ⟨hi, hname, _⟩
    exact ⟨s.params[i], List.getElem?_eq_getElem hi, by simpa using hname⟩
  · rintro ⟨p, hp, rfl⟩
    obtain ⟨hi, rfl⟩ := List.getElem?_eq_some_iff.mp hp
    refine ⟨hi, by simp, fun j hj hname => ?_⟩
    -- an earlier parameter of this name would be a second one
    have hne := List.nodup_iff_getElem?_ne_getElem?.mp hs j i hj (by simpa using hi)
    apply hne
    have hj' : j < s.params.length := by omega
    rw [List.getElem?_map, List.getElem?_map, List.getElem?_eq_getElem hi,
      List.getElem?_eq_getElem hj', Option.map_some, Option.map_some, eq_of_beq hname]

end Names

/-! ## Placing keywords -/

/-- The keyword at a position has a slot that is filled, or that an earlier keyword fills. -/
def Doubles (s : Signature) (slots : List (Option Value)) (keywords : List (String × Value))
    (j : Nat) (name : String) : Prop :=
  ∃ value i, keywords[j]? = some (name, value) ∧ s.indexOf? name = some i ∧
    (slots[i]?.join.isSome = true ∨ name ∈ (keywords.take j).map (·.1))

section Placing

variable {s : Signature} {slots : List (Option Value)} {keywords : List (String × Value)}
  {name : String} {value : Value}

theorem doubles_zero {other : String} :
    s.Doubles slots ((name, value) :: keywords) 0 other ↔
      other = name ∧ ∃ i, s.indexOf? name = some i ∧ slots[i]?.join.isSome = true := by
  constructor
  · rintro ⟨v, i, hv, hi, hfilled | hfilled⟩
    · cases hv
      exact ⟨rfl, i, hi, hfilled⟩
    · cases hfilled
  · rintro ⟨rfl, i, hi, hfilled⟩
    exact ⟨value, i, rfl, hi, Or.inl hfilled⟩

/-- A keyword without a slot fills none. -/
theorem doubles_skip (hname : s.indexOf? name = none) {j : Nat} {other : String} :
    s.Doubles slots ((name, value) :: keywords) (j + 1) other ↔
      s.Doubles slots keywords j other := by
  constructor
  · rintro ⟨v, i, hv, hi, hfilled⟩
    refine ⟨v, i, hv, hi, hfilled.imp_right fun hmem => ?_⟩
    rcases List.mem_cons.mp hmem with rfl | hmem
    · rw [hname] at hi
      cases hi
    · exact hmem
  · rintro ⟨v, i, hv, hi, hfilled⟩
    exact ⟨v, i, hv, hi, hfilled.imp_right (List.mem_cons_of_mem _)⟩

/-- A keyword with a slot fills it, and no other. -/
theorem doubles_set (hs : (s.params.map (·.name)).Nodup) {i : Nat}
    (hname : s.indexOf? name = some i) (hi : i < slots.length) {j : Nat} {other : String} :
    s.Doubles slots ((name, value) :: keywords) (j + 1) other ↔
      s.Doubles (slots.set i (some value)) keywords j other := by
  have hslot {k : Nat} (hk : s.indexOf? other = some k) :
      (slots.set i (some value))[k]?.join.isSome = true ↔
        other = name ∨ slots[k]?.join.isSome = true := by
    by_cases hki : k = i
    · subst hki
      obtain ⟨p, hp, rfl⟩ := (indexOf?_eq_some hs).mp hname
      obtain ⟨q, hq, rfl⟩ := (indexOf?_eq_some hs).mp hk
      rw [hp] at hq
      cases hq
      simp [hi]
    · have hne : other ≠ name := by
        rintro rfl
        rw [hname] at hk
        exact hki (Option.some.inj hk).symm
      rw [List.getElem?_set_ne (Ne.symm hki)]
      simp [hne]
  constructor
  · rintro ⟨v, k, hv, hk, hfilled⟩
    refine ⟨v, k, hv, hk, ?_⟩
    rw [hslot hk]
    rcases hfilled with hfilled | hmem
    · exact Or.inl (Or.inr hfilled)
    · exact (List.mem_cons.mp hmem).imp_left Or.inl
  · rintro ⟨v, k, hv, hk, hfilled⟩
    refine ⟨v, k, hv, hk, ?_⟩
    rw [hslot hk] at hfilled
    rcases hfilled with (rfl | hfilled) | hmem
    · exact Or.inr List.mem_cons_self
    · exact Or.inl hfilled
    · exact Or.inr (List.mem_cons_of_mem _ hmem)

/-- Placing keywords stops at the first that doubles a slot; if none does, every slot has its
keyword and the keywords without a slot are left over. -/
theorem place_cases (hs : (s.params.map (·.name)).Nodup) (callee : String)
    (keywords : List (String × Value)) (slots : List (Option Value))
    (hslots : slots.length = s.params.length) :
    (∃ j name, Call.IsFirst (s.Doubles slots keywords) j name ∧
      s.place callee slots keywords = .error (.type (.multipleValues callee name))) ∨
    ((∀ j name, ¬ s.Doubles slots keywords j name) ∧
      ∃ placed, s.place callee slots keywords =
          .ok (placed, keywords.filter fun k => k.1 ∉ s.params.map (·.name)) ∧
        ∀ (i : Nat) (p : Param), s.params[i]? = some p →
          placed[i]?.join = slots[i]?.join.or (Table.get? keywords p.name)) := by
  induction keywords generalizing slots with
  | nil =>
    refine Or.inr ⟨?_, slots, rfl, fun i p _ => (Option.or_none).symm⟩
    rintro j name ⟨value, i, hvalue, _⟩
    cases hvalue
  | cons keyword rest ih =>
    obtain ⟨name, value⟩ := keyword
    cases hname : s.indexOf? name with
    | none =>
      have hzero : ∀ other, ¬ s.Doubles slots ((name, value) :: rest) 0 other := by
        intro other hdoubles
        obtain ⟨-, i, hi, -⟩ := doubles_zero.mp hdoubles
        rw [hname] at hi
        cases hi
      have hsucc (j : Nat) (other : String) :
          s.Doubles slots ((name, value) :: rest) (j + 1) other ↔ s.Doubles slots rest j other :=
        doubles_skip hname
      have hstray : name ∉ s.params.map (·.name) := indexOf?_eq_none.mp hname
      rcases ih slots hslots with ⟨j, other, hfirst, herror⟩ | ⟨hnone, placed, hok, hplaced⟩
      · refine Or.inl ⟨j + 1, other, hfirst.succ hzero hsucc, ?_⟩
        rw [place, hname, herror]
        rfl
      · refine Or.inr ⟨Call.faultless_succ hzero hsucc hnone, placed, ?_, fun i p hp => ?_⟩
        · rw [place, hname, hok, List.filter_cons, if_pos (by simpa using hstray)]
          rfl
        · have hne : name ≠ p.name := by
            rintro rfl
            exact hstray (List.mem_map_of_mem (List.mem_of_getElem? hp))
          rw [hplaced i p hp, Table.get?_cons, if_neg hne]
    | some i =>
      obtain ⟨p, hp, rfl⟩ := (indexOf?_eq_some hs).mp hname
      obtain ⟨hi, -⟩ := List.getElem?_eq_some_iff.mp hp
      have hi : i < slots.length := by omega
      cases hslot : slots[i] with
      | some filled =>
        refine Or.inl ⟨0, p.name, ⟨doubles_zero.mpr ⟨rfl, i, hname, ?_⟩, by simp⟩, ?_⟩
        · rw [List.getElem?_eq_getElem hi, hslot]
          rfl
        · rw [place, hname]
          dsimp only
          rw [List.getElem?_eq_getElem hi, hslot]
      | none =>
        have hzero : ∀ other, ¬ s.Doubles slots ((p.name, value) :: rest) 0 other := by
          intro other hdoubles
          obtain ⟨-, k, hk, hfilled⟩ := doubles_zero.mp hdoubles
          rw [hname] at hk
          cases hk
          rw [List.getElem?_eq_getElem hi, hslot] at hfilled
          cases hfilled
        have hsucc (j : Nat) (other : String) :
            s.Doubles slots ((p.name, value) :: rest) (j + 1) other ↔
              s.Doubles (slots.set i (some value)) rest j other :=
          doubles_set hs hname hi
        have hstep : s.place callee slots ((p.name, value) :: rest) =
            s.place callee (slots.set i (some value)) rest := by
          rw [place, hname]
          dsimp only
          rw [List.getElem?_eq_getElem hi, hslot]
        have hmem : p.name ∈ s.params.map (·.name) :=
          List.mem_map_of_mem (List.mem_of_getElem? hp)
        rcases ih (slots.set i (some value)) (by simpa using hslots) with
          ⟨j, other, hfirst, herror⟩ | ⟨hnone, placed, hok, hplaced⟩
        · exact Or.inl ⟨j + 1, other, hfirst.succ hzero hsucc, hstep.trans herror⟩
        · refine Or.inr ⟨Call.faultless_succ hzero hsucc hnone, placed, ?_, fun k q hq => ?_⟩
          · rw [hstep, hok, List.filter_cons, if_neg (by simpa using hmem)]
          · rw [hplaced k q hq, Table.get?_cons]
            by_cases hki : k = i
            · subst hki
              rw [hp] at hq
              cases hq
              simp [hi, hslot]
            · have hne : p.name ≠ q.name := by
                intro hsame
                have hk := (indexOf?_eq_some hs).mpr ⟨q, hq, hsame.symm⟩
                rw [hname] at hk
                exact hki (Option.some.inj hk).symm
              rw [List.getElem?_set_ne (Ne.symm hki), if_neg hne]

end Placing

/-! ## Filling in defaults -/

/-- The parameter at a position has an empty slot and no default. -/
def Empty (params : List Param) (slots : List (Option Value)) (i : Nat) (name : String) : Prop :=
  ∃ p, params[i]? = some p ∧ p.name = name ∧ slots[i]?.join.or p.default = none

/-- Filling in defaults stops at the first parameter that stays empty; if none does, every
parameter has a value. -/
theorem fill_cases (callee : String) (params : List Param) (slots : List (Option Value)) :
    (∃ i name, Call.IsFirst (Empty params slots) i name ∧
      fill callee params slots = .error (.type (.missingArgument callee name))) ∨
    ((∀ i name, ¬ Empty params slots i name) ∧
      ∃ values, fill callee params slots = .ok values ∧ values.length = params.length ∧
        ∀ (i : Nat) (p : Param), params[i]? = some p →
          values[i]? = slots[i]?.join.or p.default) := by
  induction params generalizing slots with
  | nil =>
    refine Or.inr ⟨?_, [], rfl, rfl, fun i p hp => nomatch hp⟩
    rintro i name ⟨p, hp, -⟩
    cases hp
  | cons p params ih =>
    have hhead : slots.head? = slots[0]? := List.head?_eq_getElem?
    cases hslot : slots.head?.join.or p.default with
    | none =>
      refine Or.inl ⟨0, p.name, ⟨⟨p, rfl, rfl, hhead ▸ hslot⟩, by simp⟩, ?_⟩
      rw [fill, hslot]
      rfl
    | some value =>
      have hzero : ∀ name, ¬ Empty (p :: params) slots 0 name := by
        rintro name ⟨q, hq, -, hempty⟩
        cases hq
        rw [← hhead, hslot] at hempty
        cases hempty
      have hsucc : ∀ i name,
          Empty (p :: params) slots (i + 1) name ↔ Empty params slots.tail i name := by
        intro i name
        rw [Empty, Empty, List.getElem?_tail]
        rfl
      rcases ih slots.tail with ⟨i, name, hfirst, herror⟩ | ⟨hnone, values, hok, hlength, hvalues⟩
      · refine Or.inl ⟨i + 1, name, hfirst.succ hzero hsucc, ?_⟩
        rw [fill, hslot, herror]
        rfl
      · refine Or.inr ⟨Call.faultless_succ hzero hsucc hnone, value :: values, ?_, ?_, ?_⟩
        · rw [fill, hslot, hok]
          rfl
        · rw [List.length_cons, List.length_cons, hlength]
        · intro i q hq
          cases i with
          | zero =>
            cases hq
            rw [← hhead, hslot]
            rfl
          | succ i =>
            have htail := hvalues i q hq
            rw [List.getElem?_tail] at htail
            exact htail

end Signature

/-! ## Where arguments go -/

namespace Call

/-- A name that keywords give once is given by one of them. -/
theorem filter_name {keywords : List (String × Value)} {name : String}
    (honce : ∀ j value, keywords[j]? = some (name, value) →
      name ∉ (keywords.take j).map (·.1)) :
    (keywords.filter fun k => k.1 = name).map (·.2) = (Table.get? keywords name).toList := by
  induction keywords with
  | nil => rfl
  | cons keyword rest ih =>
    obtain ⟨first, value⟩ := keyword
    rw [Table.get?_cons, List.filter_cons]
    by_cases hfirst : first = name
    · have hrest : (rest.filter fun k => k.1 = name) = [] := by
        refine List.filter_eq_nil_iff.mpr fun k hk hname => ?_
        obtain ⟨j, hj⟩ := List.mem_iff_getElem?.mp hk
        obtain ⟨other, v⟩ := k
        cases of_decide_eq_true hname
        exact honce (j + 1) v hj (by simp [hfirst])
      rw [if_pos (by simpa using hfirst), if_pos hfirst, hrest]
      rfl
    · rw [if_neg (by simpa using hfirst), if_neg hfirst]
      refine ih fun j v hj hmem => honce (j + 1) v hj ?_
      exact List.mem_cons_of_mem _ hmem

/-- The keywords that name a parameter are the keyword arguments of the parameters. -/
theorem filter_declared {params : List Param} (hparams : (params.map (·.name)).Nodup)
    {keywords : List (String × Value)}
    (honce : ∀ j name value, keywords[j]? = some (name, value) → name ∈ params.map (·.name) →
      name ∉ (keywords.take j).map (·.1)) :
    ((keywords.filter fun k => k.1 ∈ params.map (·.name)).map (·.2)).Perm
      (params.map fun p => (Table.get? keywords p.name).toList).flatten := by
  induction params with
  | nil => simp
  | cons p params ih =>
    rw [List.map_cons, List.nodup_cons] at hparams
    have hfirst := filter_name fun j value hj => honce j p.name value hj (by simp)
    have hrest := ih hparams.2 fun j name value hj hname =>
      honce j name value hj (List.mem_cons_of_mem _ hname)
    -- a keyword names the first parameter or one of the others, and never both
    have hsplit := List.filter_append_perm (fun k : String × Value => decide (k.1 = p.name))
      (keywords.filter fun k => k.1 ∈ (p :: params).map (·.name))
    rw [List.filter_filter, List.filter_filter] at hsplit
    have hleft : (keywords.filter fun k =>
        decide (k.1 = p.name) && decide (k.1 ∈ (p :: params).map (·.name))) =
          keywords.filter fun k => k.1 = p.name := by
      refine List.filter_congr fun k _ => ?_
      by_cases hk : k.1 = p.name <;> simp [hk]
    have hright : (keywords.filter fun k =>
        (!decide (k.1 = p.name)) && decide (k.1 ∈ (p :: params).map (·.name))) =
          keywords.filter fun k => k.1 ∈ params.map (·.name) := by
      refine List.filter_congr fun k _ => ?_
      by_cases hk : k.1 = p.name
      · rw [hk]
        simpa using hparams.1
      · simp [hk]
    rw [hleft, hright] at hsplit
    refine (hsplit.symm.map _).trans ?_
    rw [List.map_append, hfirst]
    exact hrest.append_left _

/-- The positional arguments of the parameters are as many as can be given by position. -/
theorem flatten_byPosition {params : List Param} {limit : Nat} (args : List Value)
    (hlimit : limit ≤ params.length) :
    (params.mapIdx fun i _ => (if i < limit then args[i]? else none).toList).flatten =
      args.take limit := by
  induction params generalizing limit args with
  | nil =>
    cases Nat.le_zero.mp hlimit
    rfl
  | cons p params ih =>
    rw [List.mapIdx_cons, List.flatten_cons]
    cases limit with
    | zero => simp
    | succ limit =>
      have hrest := ih args.tail (Nat.le_of_succ_le_succ hlimit)
      simp only [List.getElem?_tail] at hrest
      simp only [Nat.add_lt_add_iff_right, Nat.zero_lt_succ, if_true, hrest]
      cases args <;> simp

theorem flatten_append (params : List Param) (f : Nat → List Value) (g : Param → List Value) :
    (params.mapIdx fun i p => f i ++ g p).flatten.Perm
      ((params.mapIdx fun i _ => f i).flatten ++ (params.map g).flatten) := by
  induction params generalizing f with
  | nil => exact .refl _
  | cons p params ih =>
    rw [List.mapIdx_cons, List.mapIdx_cons, List.map_cons, List.flatten_cons, List.flatten_cons,
      List.flatten_cons, List.append_assoc, List.append_assoc]
    refine List.Perm.append_left _ ?_
    exact ((ih fun i => f (i + 1)).append_left _).trans
      (by simpa using List.perm_append_comm_assoc _ _ _)

/-- Where no keyword repeats a parameter, each argument is in one place. -/
theorem places_of_not_repeats (c : Call) (hnames : c.Distinct) (hlimit : c.limit ≤ c.params.length)
    (hrepeats : ∀ j name, ¬ c.Repeats j name) :
    (c.args ++ c.keywords.map (·.2)).Perm
      ((c.params.mapIdx fun i p => (c.given? i p).toList).flatten ++ c.args.drop c.limit ++
        (c.keywords.filter fun k => k.1 ∉ c.params.map (·.name)).map (·.2)) := by
  have hgiven : (c.params.mapIdx fun i p => (c.given? i p).toList) =
      c.params.mapIdx fun i p =>
        (c.byPosition? i).toList ++ (Table.get? c.keywords p.name).toList := by
    refine List.ext_getElem? fun i => ?_
    rw [List.getElem?_mapIdx, List.getElem?_mapIdx]
    cases hp : c.params[i]? with
    | none => rfl
    | some p =>
      rw [Option.map_some, Option.map_some, given?]
      cases hposition : c.byPosition? i with
      | none => rfl
      | some v =>
        -- a keyword for this parameter would repeat it
        cases hkeyword : Table.get? c.keywords p.name with
        | none => rfl
        | some w =>
          obtain ⟨j, hj⟩ := List.mem_iff_getElem?.mp (Table.mem_of_get? hkeyword)
          rw [byPosition?] at hposition
          split at hposition
          · next hi =>
            have hlength := (List.getElem?_eq_some_iff.mp hposition).1
            exact absurd ⟨w, i, p, hj, hp, rfl, Or.inl ⟨hi, hlength⟩⟩ (hrepeats j p.name)
          · cases hposition
  have hdeclared := filter_declared hnames fun j name value hj hname hmem => by
    obtain ⟨p, hp, rfl⟩ := List.mem_map.mp hname
    obtain ⟨i, hi⟩ := List.mem_iff_getElem?.mp hp
    exact hrepeats j p.name ⟨value, i, p, hj, hi, rfl, Or.inr hmem⟩
  have hkeywords : (c.keywords.map (·.2)).Perm
      ((c.params.map fun p => (Table.get? c.keywords p.name).toList).flatten ++
        (c.keywords.filter fun k => k.1 ∉ c.params.map (·.name)).map (·.2)) := by
    have hsplit := (List.filter_append_perm
      (fun k : String × Value => decide (k.1 ∈ c.params.map (·.name))) c.keywords).symm.map (·.2)
    rw [List.map_append] at hsplit
    simp only [decide_not]
    exact hsplit.trans (hdeclared.append_right _)
  have harguments := flatten_append c.params (fun i => (c.byPosition? i).toList)
    fun p => (Table.get? c.keywords p.name).toList
  simp only [byPosition?, flatten_byPosition c.args hlimit] at harguments hgiven
  rw [hgiven]
  generalize (c.params.map fun p => (Table.get? c.keywords p.name).toList).flatten = declared
    at hkeywords harguments
  generalize (c.keywords.filter fun k => k.1 ∉ c.params.map (·.name)).map (·.2) = strays
    at hkeywords ⊢
  calc c.args ++ c.keywords.map (·.2)
    _ = c.args.take c.limit ++ (c.args.drop c.limit ++ c.keywords.map (·.2)) := by
      rw [← List.append_assoc, List.take_append_drop]
    List.Perm _ (c.args.take c.limit ++ (c.args.drop c.limit ++ (declared ++ strays))) :=
      (hkeywords.append_left _).append_left _
    List.Perm _ (c.args.take c.limit ++ (declared ++ (c.args.drop c.limit ++ strays))) :=
      (List.perm_append_comm_assoc _ _ _).append_left _
    _ = c.args.take c.limit ++ declared ++ c.args.drop c.limit ++ strays := by
      rw [List.append_assoc, List.append_assoc]
    List.Perm _ _ := (harguments.symm.append_right _).append_right _

end Call

namespace Signature

variable {s : Signature} (hs : (s.params.map (·.name)).Nodup)
  (hpositional : s.positional ≤ s.params.length) (args : List Value)
  (keywords : List (String × Value))

include hpositional

theorem length_slots : (s.slots args).length = s.params.length := by
  rw [slots, List.length_append, List.length_replicate, List.length_map, List.length_take]
  omega

/-- The slots hold the positional arguments. -/
theorem getElem?_slots {i : Nat} (hi : i < s.params.length) :
    (s.slots args)[i]? = some ((Call.ofSignature s args keywords).byPosition? i) := by
  rw [slots, Call.byPosition?, Call.ofSignature]
  dsimp only
  by_cases htaken : i < s.positional ∧ i < args.length
  · rw [List.getElem?_append_left (by simpa using htaken), List.getElem?_map,
      List.getElem?_take_of_lt htaken.1, if_pos htaken.1, List.getElem?_eq_getElem htaken.2]
    rfl
  · have hempty : (if i < s.positional then args[i]? else none) = none := by
      split
      · next hlt => exact List.getElem?_eq_none (by omega)
      · rfl
    rw [hempty, List.getElem?_append_right (by simp; omega), List.getElem?_replicate_of_lt]
    simp
    omega

include hs

theorem repeats_iff (j : Nat) (name : String) :
    s.Doubles (s.slots args) keywords j name ↔
      (Call.ofSignature s args keywords).Repeats j name := by
  have hfilled {i : Nat} (hi : i < s.params.length) :
      (s.slots args)[i]?.join.isSome = true ↔ i < s.positional ∧ i < args.length := by
    rw [getElem?_slots hpositional args keywords hi, Option.join_some, Call.byPosition?]
    show (if i < s.positional then args[i]? else none).isSome = true ↔ _
    split <;> simp_all
  constructor
  · rintro ⟨value, i, hvalue, hi, hdouble⟩
    obtain ⟨p, hp, rfl⟩ := (indexOf?_eq_some hs).mp hi
    obtain ⟨hlt, -⟩ := List.getElem?_eq_some_iff.mp hp
    rw [hfilled hlt] at hdouble
    exact ⟨value, i, p, hvalue, hp, rfl, hdouble⟩
  · rintro ⟨value, i, p, hvalue, hp, rfl, hdouble⟩
    obtain ⟨hlt, -⟩ := List.getElem?_eq_some_iff.mp hp
    refine ⟨value, i, hvalue, (indexOf?_eq_some hs).mpr ⟨p, hp, rfl⟩, ?_⟩
    rw [hfilled hlt]
    exact hdouble

/-- Values that are arguments or defaults carry a call in which nothing is repeated. -/
theorem carried {values : List Value} (hlength : values.length = s.params.length)
    (hvalues : ∀ (i : Nat) (p : Param), s.params[i]? = some p →
      values[i]? = ((Call.ofSignature s args keywords).given? i p).or p.default)
    (hrepeats : ∀ j name, ¬ (Call.ofSignature s args keywords).Repeats j name) :
    (Call.ofSignature s args keywords).Carried
      { signature := s, values, rest := args.drop s.positional
        keywords := keywords.filter fun k => k.1 ∉ s.params.map (·.name) } := by
  refine ⟨hlength, hvalues, fun i p hp => ?_, rfl, rfl, ?_⟩
  · have hi : i < values.length := by
      rw [hlength]
      exact (List.getElem?_eq_some_iff.mp hp).1
    rw [← hvalues i p hp, Bound.get, (indexOf?_eq_some hs).mpr ⟨p, hp, rfl⟩]
    dsimp only
    rw [List.getD_eq_getElem?_getD, List.getElem?_eq_getElem hi]
    rfl
  · exact Call.places_of_not_repeats (Call.ofSignature s args keywords) hs hpositional hrepeats

omit hs hpositional in
theorem overflows_iff : (!(args.drop s.positional).isEmpty && s.rest.isNone) = true ↔
    (Call.ofSignature s args keywords).Overflows := by
  rw [Bool.and_eq_true, Call.Overflows, Call.ofSignature]
  cases s.rest <;> simp

omit hs hpositional in
/-- The first keyword that is left over is the first that strays, where none is collected. -/
theorem strays_of_head? {keyword : String × Value} (hcollects : s.keywords = none)
    (h : (keywords.filter fun k => k.1 ∉ s.params.map (·.name)).head? = some keyword) :
    ∃ j, Call.IsFirst (Call.ofSignature s args keywords).Strays j keyword.1 := by
  rw [List.head?_filter, List.find?_eq_some_iff_getElem] at h
  obtain ⟨hstray, j, hj, hkeyword, hbefore⟩ := h
  refine ⟨j, ⟨⟨keyword.2, ?_⟩, of_decide_eq_true hstray, ?_⟩, ?_⟩
  · exact (List.getElem?_eq_getElem hj).trans (congrArg some hkeyword)
  · show s.keywords.isSome = false
    rw [hcollects]
    rfl
  · rintro k hk other ⟨⟨value, hvalue⟩, hother, -⟩
    obtain ⟨hk', hsame⟩ := List.getElem?_eq_some_iff.mp hvalue
    have hdeclared := hbefore k hk
    rw [show keywords[k] = (other, value) from hsame] at hdeclared
    simp only [Bool.not_eq_true', decide_eq_false_iff_not, not_not] at hdeclared
    exact hother hdeclared

omit hs hpositional in
theorem not_strays (h : (keywords.filter fun k => k.1 ∉ s.params.map (·.name)).head? = none ∨
    s.keywords.isSome = true) (j : Nat) (name : String) :
    ¬ (Call.ofSignature s args keywords).Strays j name := by
  rintro ⟨⟨value, hvalue⟩, hstray, hcollects⟩
  rcases h with hnone | hsome
  · rw [List.head?_filter, List.find?_eq_none] at hnone
    exact hnone _ (List.mem_of_getElem? hvalue) (decide_eq_true hstray)
  · have hnone : s.keywords.isSome = false := hcollects
    rw [hsome] at hnone
    cases hnone

/-- The binding of arguments answers a call as it has to be answered. -/
theorem bind_answered (callee : String) :
    (Call.ofSignature s args keywords).Answered callee (s.bind callee args keywords) := by
  have hrepeats : s.Doubles (s.slots args) keywords = (Call.ofSignature s args keywords).Repeats :=
    funext fun j => funext fun name => propext (repeats_iff hs hpositional args keywords j name)
  rw [bind_eq]
  rcases place_cases hs callee keywords (s.slots args) (length_slots hpositional args) with
    ⟨j, name, hfirst, herror⟩ | ⟨hnone, placed, hok, hplaced⟩
  · rw [herror]
    exact .repeats (hrepeats ▸ hfirst)
  · rw [hok, ok_bind]
    rw [hrepeats] at hnone
    have hgiven (i : Nat) (p : Param) (hp : s.params[i]? = some p) :
        placed[i]?.join = (Call.ofSignature s args keywords).given? i p := by
      have hi := (List.getElem?_eq_some_iff.mp hp).1
      rw [hplaced i p hp, getElem?_slots hpositional args keywords hi]
      rfl
    have hlacks : Empty s.params placed = (Call.ofSignature s args keywords).Lacks := by
      funext i name
      refine propext (exists_congr fun p => and_congr_right fun hp => and_congr_right fun _ => ?_)
      rw [hgiven i p hp]
    rcases fill_cases callee s.params placed with
      ⟨i, name, hfirst, herror⟩ | ⟨hfull, values, hok', hlength, hvalues⟩
    · rw [herror]
      exact .lacks hnone (hlacks ▸ hfirst)
    · rw [hok', ok_bind]
      rw [hlacks] at hfull
      by_cases hoverflows : (Call.ofSignature s args keywords).Overflows
      · rw [if_pos ((overflows_iff args keywords).mpr hoverflows)]
        exact .overflows hnone hfull hoverflows
      · rw [if_neg fun h => hoverflows ((overflows_iff args keywords).mp h)]
        have hcarried := carried hs hpositional args keywords hlength
          (fun i p hp => hgiven i p hp ▸ hvalues i p hp) hnone
        have hbound := fun h => @Call.Answered.bound _ callee _
          ⟨hnone, hfull, hoverflows, not_strays args keywords h⟩ hcarried
        dsimp only
        cases hhead : (keywords.filter fun k => k.1 ∉ s.params.map (·.name)).head? with
        | none => exact hbound (Or.inl hhead)
        | some keyword =>
          cases hcollects : s.keywords with
          | some name => exact hbound (Or.inr (by rw [hcollects]; rfl))
          | none =>
            obtain ⟨j, hfirst⟩ := strays_of_head? args keywords hcollects hhead
            exact .strays hnone hfull hoverflows hfirst

end Signature

/-! ## Bindings of declared signatures -/

namespace Call

/-- An answer is a success when nothing is wrong with the call. -/
theorem Answered.ok_iff {c : Call} {callee : String} {outcome : Outcome Bound}
    (h : c.Answered callee outcome) : (∃ b, outcome = .ok b) ↔ c.Fits := by
  cases h with
  | repeats h => exact iff_of_false (fun ⟨_, hb⟩ => nomatch hb) fun hfits => hfits.repeats _ _ h.1
  | lacks _ h => exact iff_of_false (fun ⟨_, hb⟩ => nomatch hb) fun hfits => hfits.lacks _ _ h.1
  | overflows _ _ h => exact iff_of_false (fun ⟨_, hb⟩ => nomatch hb) fun hfits => hfits.overflows h
  | strays _ _ _ h => exact iff_of_false (fun ⟨_, hb⟩ => nomatch hb) fun hfits => hfits.strays _ _ h.1
  | bound hfits _ => exact iff_of_true ⟨_, rfl⟩ hfits

theorem Answered.carried {c : Call} {callee : String} {b : Bound}
    (h : c.Answered callee (.ok b)) : c.Carried b := by
  cases h with
  | bound _ h => exact h

end Call

/-- Binding arguments to declared parameters with distinct names succeeds when nothing is wrong
with the call, then with every argument in its place, and fails with the first fault. -/
theorem Signature.bind_declared (ds : List Declaration) (callee : String) (args : List Value)
    (keywords : List (String × Value)) (hnames : (Call.ofDeclarations ds args keywords).Distinct) :
    ((∃ b, (declared ds).bind callee args keywords = .ok b) ↔
      (Call.ofDeclarations ds args keywords).Fits) ∧
    (Call.ofDeclarations ds args keywords).Answered callee
      ((declared ds).bind callee args keywords) := by
  rw [← call_declared] at hnames ⊢
  have hpositional : (declared ds).positional ≤ (declared ds).params.length := by
    rw [positional_declared, params_declared]
    exact (List.Sublist.filterMap _ (List.takeWhile_sublist _)).length_le
  have hanswered := bind_answered hnames hpositional args keywords callee
  exact ⟨hanswered.ok_iff, hanswered⟩

/-- A call with a positional argument too many for the parameters, a parameter by name, a default
and a keyword of its own fits parameters that collect. -/
theorem Signature.bind_declared_collecting :
    (Call.ofDeclarations [.required "a", .varargs "more", .keywordOnly, .required "b",
      .optional "c" .null, .varkw "named"] [.bool true, .bool false]
      [("d", .str "other"), ("b", .str "given")]).Fits :=
  (bind_declared _ "f" _ _ (by decide)).1.mp ⟨_, rfl⟩

end FilterLang
