import FilterLang.Json.Reader
import FilterLang.Proofs.Table
import FilterLang.Proofs.Value.Laziness
/-!
Documents that are read from text are in order.

The reader puts the members of an object in a table one after the other, and that keeps
their names in order. So every document that it gives is one that the order of names is
assumed of (`ordered_read`), at every depth.
-/

namespace FilterLang.Json

open Table

/-- What is read is in order when it is for everything that it can be made from. -/
theorem ordered_of_map {α : Type} {o : Option α} {f : α → Json × List Char}
    (hf : ∀ a, (f a).1.Ordered) {j : Json} {rest : List Char} (h : o.map f = some (j, rest)) :
    j.Ordered := by
  obtain ⟨a, _, ha⟩ := Option.map_eq_some_iff.mp h
  have hj := hf a
  rw [ha] at hj
  exact hj

/-- A number is read as a whole one or as a float. -/
theorem ordered_readUnsigned {negative : Bool} {s rest : List Char} {j : Json}
    (h : readUnsigned negative s = some (j, rest)) : j.Ordered := by
  unfold readUnsigned at h
  dsimp only at h
  split at h
  · cases h
  · split at h
    · split at h
      · cases h
      · obtain ⟨e, _, h⟩ := Option.bind_eq_some_iff.mp h
        split at h
        · exact ordered_of_map (fun x => .float x) h
        · cases h
          exact .float _
    · obtain ⟨e, _, h⟩ := Option.bind_eq_some_iff.mp h
      split at h
      · cases h
        exact .int _
      · split at h
        · exact ordered_of_map (fun x => .float x) h
        · cases h
          exact .float _

theorem ordered_readNumber {s rest : List Char} {j : Json} (h : readNumber s = some (j, rest)) :
    j.Ordered := by
  unfold readNumber at h
  split at h
  · exact ordered_readUnsigned h
  · exact ordered_readUnsigned h

mutual

theorem ordered_readValue (fuel depth : Nat) {s rest : List Char} {j : Json}
    (h : readValue fuel depth s = some (j, rest)) : j.Ordered := by
  match fuel with
  | 0 => cases h
  | fuel + 1 =>
    rw [readValue] at h
    split at h
    · cases h
    · split at h
      · exact ordered_of_map (fun text => .str text.1) h
      · split at h
        · -- an array
          split at h
          · cases h
          · split at h
            · cases h
              exact .array (by simp)
            · obtain ⟨⟨items, r⟩, hitems, hr⟩ := Option.map_eq_some_iff.mp h
              cases hr
              exact .array (ordered_readItems fuel (depth - 1) (by simp) hitems)
        · split at h
          · -- an object
            split at h
            · cases h
            · split at h
              · cases h
                exact .object .nil (by simp)
              · obtain ⟨⟨members, r⟩, hmembers, hr⟩ := Option.map_eq_some_iff.mp h
                cases hr
                exact ordered_readMembers fuel (depth - 1) ordered_nil (by simp) hmembers
          · split at h
            · exact ordered_of_map (fun _ => .null) h
            · split at h
              · exact ordered_of_map (fun _ => .bool true) h
              · split at h
                · exact ordered_of_map (fun _ => .bool false) h
                · exact ordered_readNumber h

theorem ordered_readItems (fuel depth : Nat) {acc items : List Json} {s rest : List Char}
    (hacc : ∀ j ∈ acc, Json.Ordered j) (h : readItems fuel depth acc s = some (items, rest)) :
    ∀ j ∈ items, Json.Ordered j := by
  match fuel with
  | 0 => cases h
  | fuel + 1 =>
    rw [readItems] at h
    obtain ⟨⟨j, rest'⟩, hj, h⟩ := Option.bind_eq_some_iff.mp h
    have hmore : ∀ i ∈ j :: acc, Json.Ordered i := by
      intro i hi
      rcases List.mem_cons.mp hi with rfl | hi
      · exact ordered_readValue fuel depth hj
      · exact hacc i hi
    dsimp only at h
    split at h
    · exact ordered_readItems fuel depth hmore h
    · cases h
      intro i hi
      exact hmore i (List.mem_reverse.mp hi)
    · cases h

theorem ordered_readMembers (fuel depth : Nat) {acc members : Table Json} {s rest : List Char}
    (hnames : Table.Ordered acc) (hacc : ∀ m ∈ acc, Json.Ordered m.2)
    (h : readMembers fuel depth acc s = some (members, rest)) :
    (Json.object members).Ordered := by
  match fuel with
  | 0 => cases h
  | fuel + 1 =>
    rw [readMembers] at h
    split at h
    · obtain ⟨⟨name, rest₁⟩, _, h⟩ := Option.bind_eq_some_iff.mp h
      dsimp only at h
      split at h
      · obtain ⟨⟨j, rest₂⟩, hj, h⟩ := Option.bind_eq_some_iff.mp h
        have hmore : ∀ m ∈ insert acc name j, Json.Ordered m.2 := by
          intro m hm
          rcases mem_insert hm with rfl | hm
          · exact ordered_readValue fuel depth hj
          · exact hacc m hm
        dsimp only at h
        split at h
        · exact ordered_readMembers fuel depth (ordered_insert hnames name j) hmore h
        · cases h
          exact .object (ordered_insert hnames name j) hmore
        · cases h
      · cases h
    · cases h

end

/-- A document that is read from a text is in order at every depth. -/
theorem ordered_read {text : String} {j : Json} (h : read? text = some j) : j.Ordered := by
  unfold read? at h
  split at h
  · rename_i k rest hread
    split at h
    · cases h
      exact ordered_readValue _ _ hread
    · cases h
  · cases h

/-- The members of an object in order are a table in order. -/
theorem ordered_members {members : Table Json} (h : (Json.object members).Ordered) :
    Table.Ordered members := by
  cases h with
  | object hnames _ => exact hnames

theorem ordered_get? {members : Table Json} (h : (Json.object members).Ordered) {name : String}
    {j : Json} (hget : get? members name = some j) : j.Ordered := by
  cases h with
  | object _ hmembers => exact hmembers _ (mem_of_get? hget)

theorem ordered_getElem? {items : List Json} (h : (Json.array items).Ordered) {i : Nat} {j : Json}
    (hget : items[i]? = some j) : j.Ordered := by
  cases h with
  | array hitems => exact hitems _ (List.mem_of_getElem? hget)

end FilterLang.Json
