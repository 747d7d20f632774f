import Mathlib.Data.List.TakeWhile
/-!
Nested lists of words, and how they are written.

A list is written in parentheses, with blanks between its items. Words are not empty and have
neither blanks nor parentheses in them, so a word ends where it is followed by one of these
(`word_append_injective`), and every list ends with its own parenthesis. Whatever a text starts
with is therefore read in one way only (`Nested.render_append_injective`), and no two nested lists
are written alike.
-/

namespace FilterLang.Text

/-- The characters that stand between words. -/
def delimiters : List Char :=
  [' ', '(', ')']

/-- Characters that make up a word. -/
structure IsBareWord (w : List Char) : Prop where
  nonempty : w ≠ []
  plain : ∀ c ∈ w, c ∉ delimiters

def isBareWord (w : List Char) : Bool :=
  !w.isEmpty && w.all fun c => !delimiters.contains c

theorem isBareWord_iff {w : List Char} : isBareWord w = true ↔ IsBareWord w := by
  simp only [isBareWord, Bool.and_eq_true, Bool.not_eq_true', List.isEmpty_eq_false_iff,
    List.all_eq_true, List.contains_eq_mem, decide_eq_false_iff_not]
  exact ⟨fun h => ⟨h.1, h.2⟩, fun h => ⟨h.nonempty, h.plain⟩⟩

/-- A text is empty or begins with a character that ends a word. -/
def Delimited (rest : List Char) : Prop :=
  ∀ c ∈ rest.head?, c ∈ delimiters

theorem delimited_nil : Delimited [] := by
  simp [Delimited]

theorem delimited_cons {c : Char} (hc : c ∈ delimiters) (rest : List Char) :
    Delimited (c :: rest) := by
  simpa [Delimited] using hc

theorem takeWhile_word {w rest : List Char} (hw : IsBareWord w) (hrest : Delimited rest) :
    (w ++ rest).takeWhile (fun c => decide (c ∉ delimiters)) = w := by
  have hend : rest.takeWhile (fun c => decide (c ∉ delimiters)) = [] := by
    cases rest with
    | nil => rfl
    | cons c rest =>
      have hc : c ∈ delimiters := hrest c rfl
      simp [hc]
  rw [List.takeWhile_append_of_pos (by simpa using hw.plain), hend, List.append_nil]

/-- A word is read off the start of a text. -/
theorem word_append_injective {w w' rest rest' : List Char} (hw : IsBareWord w)
    (hw' : IsBareWord w') (hrest : Delimited rest) (hrest' : Delimited rest')
    (h : w ++ rest = w' ++ rest') : w = w' ∧ rest = rest' := by
  have hword : w = w' := by
    rw [← takeWhile_word hw hrest, h, takeWhile_word hw' hrest']
  subst hword
  exact ⟨rfl, List.append_cancel_left h⟩

/-- A word, or a list of nested lists. -/
inductive Nested where
  | word (w : String)
  | list (items : List Nested)

namespace Nested

mutual

def render : Nested → List Char
  | word w => w.toList
  | list items => '(' :: renderItems items

/-- The items of a list and the parenthesis after them. -/
def renderItems : List Nested → List Char
  | [] => [')']
  | x :: rest => x.render ++ renderMore rest

/-- The items after the first, a blank before each, and the parenthesis after them. -/
def renderMore : List Nested → List Char
  | [] => [')']
  | x :: rest => ' ' :: (x.render ++ renderMore rest)

end

mutual

/-- All words are such that their ends can be seen. -/
def Proper : Nested → Prop
  | word w => IsBareWord w.toList
  | list items => AllProper items

def AllProper : List Nested → Prop
  | [] => True
  | x :: rest => x.Proper ∧ AllProper rest

end

theorem allProper_iff {items : List Nested} : AllProper items ↔ ∀ x ∈ items, x.Proper := by
  induction items with
  | nil => simp [AllProper]
  | cons x rest ih => simp [AllProper, ih]

@[simp] theorem proper_word (w : String) : (word w).Proper ↔ IsBareWord w.toList := Iff.rfl

@[simp] theorem proper_list (items : List Nested) :
    (list items).Proper ↔ ∀ x ∈ items, x.Proper :=
  allProper_iff

theorem delimited_renderMore (items : List Nested) (rest : List Char) :
    Delimited (renderMore items ++ rest) := by
  cases items with
  | nil => exact delimited_cons (by decide) _
  | cons x items => exact delimited_cons (by decide) _

/-- No word begins with a delimiter, and a list begins with the opening parenthesis. -/
theorem head_render {x : Nested} (hx : x.Proper) :
    ∃ c cs, x.render = c :: cs ∧ (c ∈ delimiters → c = '(') := by
  cases x with
  | word w =>
    obtain ⟨c, cs, hw⟩ := List.exists_cons_of_ne_nil hx.nonempty
    refine ⟨c, cs, hw, ?_⟩
    intro hc
    exact absurd hc (hx.plain c (by rw [hw]; exact List.mem_cons_self))
  | list items => exact ⟨'(', _, rfl, fun _ => rfl⟩

/-- A word does not begin like a list. -/
theorem word_ne_list {w : String} {items : List Nested} {r r' : List Char}
    (hw : (word w).Proper) : (word w).render ++ r ≠ (list items).render ++ r' := by
  obtain ⟨c, cs, hcs⟩ := List.exists_cons_of_ne_nil hw.nonempty
  intro h
  rw [render, render, hcs] at h
  have hparen : c = '(' := (List.cons.inj h).1
  refine hw.plain c (by rw [hcs]; exact List.mem_cons_self) ?_
  rw [hparen]
  decide

/-- An item does not begin with a closing parenthesis. -/
theorem close_ne_item {x : Nested} {r r' : List Char} (hx : x.Proper) :
    ')' :: r ≠ x.render ++ r' := by
  obtain ⟨c, cs, hcs, hparen⟩ := head_render hx
  intro h
  rw [hcs] at h
  obtain rfl : ')' = c := (List.cons.inj h).1
  cases hparen (by decide)

mutual

/-- A nested list is read off the start of a text. -/
theorem render_append_injective : (x y : Nested) → {r r' : List Char} → x.Proper → y.Proper →
    Delimited r → Delimited r' → x.render ++ r = y.render ++ r' → x = y ∧ r = r'
  | word w, word w', _, _, hx, hy, hr, hr', h => by
    obtain ⟨hword, hrest⟩ := word_append_injective hx hy hr hr' h
    exact ⟨congrArg word (String.toList_injective hword), hrest⟩
  | word _, list _, _, _, hx, _, _, _, h => absurd h (word_ne_list hx)
  | list _, word _, _, _, _, hy, _, _, h => absurd h.symm (word_ne_list hy)
  | list items, list items', _, _, hx, hy, _, _, h => by
    obtain ⟨hitems, hrest⟩ := renderItems_append_injective items items' hx hy (List.cons.inj h).2
    exact ⟨congrArg list hitems, hrest⟩

theorem renderItems_append_injective : (xs ys : List Nested) → {r r' : List Char} →
    AllProper xs → AllProper ys → renderItems xs ++ r = renderItems ys ++ r' → xs = ys ∧ r = r'
  | [], [], _, _, _, _, h => ⟨rfl, (List.cons.inj h).2⟩
  | [], y :: ys, _, _, _, hy, h => by
    rw [renderItems, renderItems, List.append_assoc] at h
    exact absurd h (close_ne_item hy.1)
  | x :: xs, [], _, _, hx, _, h => by
    rw [renderItems, renderItems, List.append_assoc] at h
    exact absurd h.symm (close_ne_item hx.1)
  | x :: xs, y :: ys, r, r', hx, hy, h => by
    rw [renderItems, renderItems, List.append_assoc, List.append_assoc] at h
    obtain ⟨hitem, hmore⟩ := render_append_injective x y hx.1 hy.1 (delimited_renderMore xs r)
      (delimited_renderMore ys r') h
    obtain ⟨hitems, hrest⟩ := renderMore_append_injective xs ys hx.2 hy.2 hmore
    exact ⟨by rw [hitem, hitems], hrest⟩

theorem renderMore_append_injective : (xs ys : List Nested) → {r r' : List Char} →
    AllProper xs → AllProper ys → renderMore xs ++ r = renderMore ys ++ r' → xs = ys ∧ r = r'
  | [], [], _, _, _, _, h => ⟨rfl, (List.cons.inj h).2⟩
  | [], y :: ys, _, _, _, _, h => absurd (List.cons.inj h).1 (by decide)
  | x :: xs, [], _, _, _, _, h => absurd (List.cons.inj h).1 (by decide)
  | x :: xs, y :: ys, r, r', hx, hy, h => by
    rw [renderMore, renderMore, List.cons_append, List.cons_append, List.append_assoc,
      List.append_assoc] at h
    obtain ⟨hitem, hmore⟩ := render_append_injective x y hx.1 hy.1 (delimited_renderMore xs r)
      (delimited_renderMore ys r') (List.cons.inj h).2
    obtain ⟨hitems, hrest⟩ := renderMore_append_injective xs ys hx.2 hy.2 hmore
    exact ⟨by rw [hitem, hitems], hrest⟩

end

/-- No two nested lists are written alike. -/
theorem render_injective {x y : Nested} (hx : x.Proper) (hy : y.Proper)
    (h : x.render = y.render) : x = y := by
  have happend : x.render ++ [] = y.render ++ [] := by rw [h]
  exact (render_append_injective x y hx hy delimited_nil delimited_nil happend).1

end Nested

end FilterLang.Text
