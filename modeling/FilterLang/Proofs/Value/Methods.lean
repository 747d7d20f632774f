import FilterLang.Value.Call
import FilterLang.Proofs.Fallible
import FilterLang.Proofs.Value.Alike
/-!
Methods of built-in values, called by their names.

A call such as `v.name(args)` looks the name up in the class of `v` and binds the arguments to the
parameters of the method that it finds. On texts, tuples, lists and dicts this leads to the method
that the class declares (`send_declared`), whatever the embedding program is and whatever stands
among the members of an object from outside. `len` and the classes of containers are called on a
value directly.
-/

namespace FilterLang.Value

open Fallible

variable {host : Host} {site : Identity} {runBody : Expr → Table Value → Outcome Value}

/-- The call of an attribute of a value, on positional arguments: `v.name(args)` once its parts
have values. -/
def send (host : Host) (site : Identity) (runBody : Expr → Table Value → Outcome Value) (v : Value)
    (name : String) (args : List Value) : Outcome Value := do
  (← v.getAttr host (site.operand 0) name).callWith host site runBody args []

/-- Whether a value is a text or a container: its class has methods that it declares itself. -/
def isDeclaring : Value → Bool
  | str _ => true
  | v => v.isContainer

theorem isDeclaring_of_isContainer {v : Value} (hv : v.isContainer = true) :
    v.isDeclaring = true := by
  cases v with
  | str s => rfl
  | _ => exact hv

/-- A method that the class of a text or of a container declares is called by its name. -/
theorem send_declared {v : Value} (hv : v.isDeclaring = true) {m : Method}
    (hm : m ∈ Method.declaredBy v.classOf) (args : List Value) :
    v.send host site runBody m.name args =
      (m.signature host).bind m.name args [] >>= fun b => m.run host site v b := by
  cases v with
  | str s =>
    obtain ⟨m, -, rfl⟩ := List.mem_map.mp hm
    cases m <;> rfl
  | tuple | list | nativeList =>
    obtain ⟨m, -, rfl⟩ := List.mem_map.mp hm
    cases m <;> rfl
  | dict | nativeDict =>
    obtain ⟨m, -, rfl⟩ := List.mem_map.mp hm
    cases m <;> rfl
  | _ => cases hv

theorem send_str (s : String) (m : StrMethod) (args : List Value) :
    (str s).send host site runBody m.name args =
      m.signature.bind m.name args [] >>= fun b => m.run site (str s) b :=
  send_declared rfl (m := .str m) (by
    change Method.str m ∈ Method.declaredBy .str
    cases m <;> decide) args

theorem send_sequence {v : Value} (hv : v.isContainer = true)
    (hc : v.classOf = .tuple ∨ v.classOf = .list) (m : SequenceMethod) (args : List Value) :
    v.send host site runBody m.name args =
      (Signature.ofNames ["value"]).bind m.name args [] >>= fun b => m.run host site v b := by
  refine send_declared (isDeclaring_of_isContainer hv) (m := .sequence m) ?_ args
  rcases hc with hc | hc <;> rw [hc] <;> cases m <;> decide

theorem send_dict {v : Value} (hv : v.isContainer = true) (hc : v.classOf = .dict) (m : DictMethod)
    (args : List Value) :
    v.send host site runBody m.name args =
      m.signature.bind m.name args [] >>= fun b => m.run host site v b := by
  refine send_declared (isDeclaring_of_isContainer hv) (m := .dict m) ?_ args
  rw [hc]
  cases m <;> decide

/-! ## Functions and classes that are called on a value -/

theorem callWith_len (v : Value) :
    (function .len).callWith host site runBody [v] [] =
      v.len host site >>= fun n => .ok (.int n) := rfl

theorem callWith_list (v : Value) :
    (cls .list).callWith host site runBody [v] [] =
      v.iterate site >>= fun items => .ok (.list site items) := rfl

theorem callWith_tuple (v : Value) :
    (cls .tuple).callWith host site runBody [v] [] =
      v.iterate site >>= fun items => .ok (.tuple site items) := rfl

theorem callWith_dict (v : Value) :
    (cls .dict).callWith host site runBody [v] [] =
      Dict.build host site v [] >>= fun d => .ok (.dict site d) := rfl

end FilterLang.Value
