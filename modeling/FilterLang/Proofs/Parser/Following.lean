import FilterLang.Proofs.Parser.Cursor
import FilterLang.Proofs.Parser.Steps
/-!
Runs of a cursor that give what the parser over a list gives.

`Keeps` relates a run to an outcome of the list parser: the same result, and a cost that is paid
for by the tokens that the run takes, one expression and one turn for each. `Follows` says it of a
reader at every cursor with the same tokens behind it. There is one lemma for each way in which
readers are put together, and each says what is left to spend afterwards.

The cursor does not move on the last token, so that no measure of what is left goes down there.
But the last token is an end marker: a token of another kind has one behind it, and taking it
moves the cursor.
-/

namespace FilterLang.Cursor

open Fallible
open FilterLang.Parser (forget forgetRest)

/-! ## Where a cursor stands -/

/-- The tokens from the cursor on are `s`, and it is not past the last one. -/
def At (ts : List Token) (pos : Nat) (s : List Token) : Prop :=
  ts.drop pos = s ∧ s ≠ []

namespace At

variable {ts s rest : List Token} {t : Token} {pos : Nat}

theorem length_eq (h : At ts pos s) : ts.length - pos = s.length := by
  rw [← List.length_drop, h.1]

theorem lt_length (h : At ts pos s) : pos < ts.length := by
  have hpos := List.length_pos_iff.mpr h.2
  have hlen := h.length_eq
  omega

/-- The token at hand is the first of those from the cursor on. -/
theorem token_eq (h : At ts pos (t :: rest)) :
    ts.getD (min pos (ts.length - 1)) Token.stop = t := by
  have hlt := h.lt_length
  have hmin : min pos (ts.length - 1) = pos := by omega
  have ht : ts[pos]? = some t := by
    rw [← List.head?_drop, h.1, List.head?_cons]
  rw [hmin, List.getD_eq_getElem?_getD, ht, Option.getD_some]

/-- Behind a token that is no end marker there is another one. -/
theorem rest_ne_nil (hend : Terminated ts)
    (h : At ts pos (t :: rest)) (ht : t.kind ≠ .stop) : rest ≠ [] := by
  -- otherwise it is the last token, and that is an end marker
  rintro rfl
  have hlast : (ts.drop pos).getLast? = ts.getLast? := by
    rw [List.getLast?_drop, if_neg (Nat.not_le.mpr h.lt_length)]
  rw [Terminated, ← hlast, h.1] at hend
  exact ht (Option.some.inj hend)

theorem lt_last (hrest : rest ≠ []) (h : At ts pos (t :: rest)) : pos < ts.length - 1 := by
  have hpos := List.length_pos_iff.mpr hrest
  have hlen := h.length_eq
  rw [List.length_cons] at hlen
  omega

theorem next (hrest : rest ≠ []) (h : At ts pos (t :: rest)) : At ts (pos + 1) rest := by
  refine ⟨?_, hrest⟩
  rw [← List.tail_drop, h.1, List.tail_cons]

end At

/-! ## Readers -/

section Readers

variable {α β : Type} {ts : List Token} {pos : Nat}

theorem bind_apply (y : Reader α) (g : α → Reader β) :
    (y >>= g) ts pos = match y ts pos with
      | none => none
      | some ⟨.error e, pos', cost⟩ => some ⟨.error e, pos', cost⟩
      | some ⟨.ok a, pos', cost⟩ =>
        (g a ts pos').map fun tr => { tr with cost := cost.add tr.cost } := rfl

/-- A first step that costs nothing leaves the cost of the rest. -/
theorem bind_of_read {y : Reader α} {g : α → Reader β} {a : α} {pos' : Nat}
    (h : y ts pos = some ⟨.ok a, pos', .zero⟩) : (y >>= g) ts pos = g a ts pos' := by
  have hadd : (fun tr : Trace β => { tr with cost := Cost.zero.add tr.cost }) = id := by
    funext tr
    simp [Cost.zero, Cost.add]
  rw [bind_apply, h]
  dsimp only
  rw [hadd, Option.map_id_fun, id]

end Readers

/-! ## Runs that keep to the list parser -/

/-- Of `m` expressions and `l` turns a cost leaves `left` of each, and there are no more expressions
inside each other than were begun. -/
structure Cost.Leaves (c : Cost) (m l left : Nat) : Prop where
  calls : c.calls + left ≤ m
  turns : c.turns + left ≤ l
  depth : c.depth ≤ c.calls

/-- A run gives what the parser over the list gives. When it fails it has spent at most `m`
expressions and `l` turns. When it succeeds it has moved the cursor to the tokens that are left
over, and one expression and one turn remain for each of those. -/
inductive Keeps {α : Type} (ts : List Token) (m l : Nat) :
    Except ParseError (α × List Token) → Option (Trace α) → Prop
  | failed {e : ParseError} {pos : Nat} {c : Cost} (hc : c.Leaves m l 0) :
    Keeps ts m l (.error e) (some ⟨.error e, pos, c⟩)
  | read {a : α} {r : List Token} {pos : Nat} {c : Cost} (hr : At ts pos r)
    (hc : c.Leaves m l r.length) : Keeps ts m l (.ok (a, r)) (some ⟨.ok a, pos, c⟩)

theorem Cost.Leaves.mono {c : Cost} {m l m' l' left : Nat} (h : c.Leaves m l left) (hm : m ≤ m')
    (hl : l ≤ l') : c.Leaves m' l' left :=
  ⟨Nat.le_trans h.calls hm, Nat.le_trans h.turns hl, h.depth⟩

/-- What a second run leaves of what a first one has left is left by both. -/
theorem Cost.Leaves.add {c d : Cost} {m l left left' : Nat} (h : c.Leaves m l left)
    (h' : d.Leaves left left left') : (c.add d).Leaves m l left' where
  calls := by
    have := h.calls
    have := h'.calls
    simp only [Cost.add]
    omega
  turns := by
    have := h.turns
    have := h'.turns
    simp only [Cost.add]
    omega
  depth := by
    have := h.depth
    have := h'.depth
    simp only [Cost.add]
    omega

theorem Cost.Leaves.zero {m l left : Nat} (hm : left ≤ m) (hl : left ≤ l) :
    Cost.zero.Leaves m l left :=
  ⟨by simpa [Cost.zero] using hm, by simpa [Cost.zero] using hl, Nat.le_refl _⟩

theorem Cost.Leaves.turn {c : Cost} {m l left : Nat} (h : c.Leaves m l left) :
    (Cost.add ⟨0, 0, 1⟩ c).Leaves m (l + 1) left where
  calls := by simpa [Cost.add] using h.calls
  turns := by
    have := h.turns
    simp only [Cost.add]
    omega
  depth := by simpa [Cost.add] using h.depth

theorem Cost.Leaves.enter {c : Cost} {m l left : Nat} (h : c.Leaves m l left) :
    c.enter.Leaves (m + 1) l left where
  calls := by
    have := h.calls
    simp only [Cost.enter]
    omega
  turns := h.turns
  depth := Nat.succ_le_succ h.depth

/-- A run within little is one within more. -/
theorem Keeps.mono {α : Type} {ts : List Token} {m l m' l' : Nat}
    {x : Except ParseError (α × List Token)} {run : Option (Trace α)} (h : Keeps ts m l x run)
    (hm : m ≤ m') (hl : l ≤ l') : Keeps ts m' l' x run := by
  cases h with
  | failed hc => exact .failed (hc.mono hm hl)
  | read hr hc => exact .read hr (hc.mono hm hl)

/-- From the tokens `s` on, the reader `y` keeps to the outcome `x`. -/
def Follows {α : Type} (ts s : List Token) (m l : Nat) (x : Except ParseError (α × List Token))
    (y : Reader α) : Prop :=
  ∀ pos, At ts pos s → Keeps ts m l x (y ts pos)

namespace Follows

variable {α β : Type} {ts s rest : List Token} {t : Token} {m l m' l' : Nat}
  {x : Except ParseError (α × List Token)} {y : Reader α}

/-- Past the last token nothing is asked. -/
theorem nil : Follows ts [] m l x y :=
  fun _ h => absurd rfl h.2

theorem mono (h : Follows ts s m l x y) (hm : m ≤ m') (hl : l ≤ l') :
    Follows ts s m' l' x y :=
  fun pos hpos => (h pos hpos).mono hm hl

theorem error (e : ParseError) : Follows ts s m l (.error e) (settled (.error e) : Reader α) :=
  fun _ _ => .failed (.zero (Nat.zero_le _) (Nat.zero_le _))

theorem ok (a : α) : Follows ts s s.length s.length (.ok (a, s)) (pure a) :=
  fun _ hpos => .read hpos (.zero (Nat.le_refl _) (Nat.le_refl _))

/-- One run and another after it: the second spends what the first has left. -/
theorem bind {f : α × List Token → Except ParseError (β × List Token)} {g : α → Reader β}
    (h : Follows ts s m l x y)
    (hfg : ∀ a r, x = .ok (a, r) → Follows ts r r.length r.length (f (a, r)) (g a)) :
    Follows ts s m l (x >>= f) (y >>= g) := by
  intro pos hpos
  rw [bind_apply]
  have hkeeps := h pos hpos
  generalize y ts pos = run at hkeeps
  cases hkeeps with
  | failed hc => exact .failed hc
  | @read a r pos' c hr hc =>
    -- the second run begins where the first has left the cursor
    have hnext := hfg a r rfl pos' hr
    rw [ok_bind]
    dsimp only
    generalize f (a, r) = x' at hnext
    generalize g a ts pos' = run' at hnext
    cases hnext with
    | failed hc' => exact .failed (hc.add hc')
    | read hr' hc' => exact .read hr' (hc.add hc')

/-- A run whose result is used without reading on. -/
theorem map (h : Follows ts s m l x y) (g : α → β) :
    Follows ts s m l (x >>= fun z => .ok (g z.1, z.2)) (y >>= fun a => pure (g a)) :=
  h.bind fun a _ _ => ok (g a)

/-- A first step that no token decides. -/
theorem settled_bind {x : Except ParseError α}
    {f : α → Except ParseError (β × List Token)} {g : α → Reader β}
    (hfg : ∀ a, x = .ok a → Follows ts s m l (f a) (g a)) :
    Follows ts s m l (x >>= f) (settled x >>= g) := by
  intro pos hpos
  cases x with
  | error e => exact .failed (.zero (Nat.zero_le _) (Nat.zero_le _))
  | ok a =>
    rw [bind_of_read rfl]
    exact hfg a rfl pos hpos

theorem settled (x : Except ParseError α) :
    Follows ts s s.length s.length (x >>= fun a => .ok (a, s)) (settled x) := by
  cases x with
  | error e => exact error e
  | ok a => exact ok a

theorem current_bind {x : Except ParseError (α × List Token)} {g : Token → Reader α}
    (h : Follows ts (t :: rest) m l x (g t)) : Follows ts (t :: rest) m l x (current >>= g) := by
  intro pos hpos
  rw [bind_of_read rfl, hpos.token_eq]
  exact h pos hpos

/-- Taking a token that is no end marker leaves the tokens behind it. -/
theorem advance_bind (hend : Terminated ts) (ht : t.kind ≠ .stop)
    {x : Except ParseError (α × List Token)} {g : Token → Reader α}
    (h : Follows ts rest m l x (g t)) : Follows ts (t :: rest) m l x (advance >>= g) := by
  intro pos hpos
  have hrest := hpos.rest_ne_nil hend ht
  rw [bind_of_read rfl, hpos.token_eq, if_pos (hpos.lt_last hrest)]
  exact h (pos + 1) (hpos.next hrest)

/-- A token that is taken leaves an expression and a turn over. -/
theorem take_bind (hend : Terminated ts) (ht : t.kind ≠ .stop)
    {x : Except ParseError (α × List Token)} {g : Token → Reader α}
    (h : Follows ts rest rest.length rest.length x (g t)) :
    Follows ts (t :: rest) (t :: rest).length ((t :: rest).length - 1) x (advance >>= g) :=
  (advance_bind hend ht h).mono (Nat.le_succ _) (Nat.le_refl _)

/-- A token after which nothing can be read may be taken whether or not the cursor moves. -/
theorem advance_fails {e : ParseError} {g : Token → Reader α}
    (h : ∀ pos, g t ts pos = some ⟨.error e, pos, .zero⟩) :
    Follows ts (t :: rest) m l (.error e) (advance >>= g) := by
  intro pos hpos
  rw [bind_of_read rfl, hpos.token_eq, h]
  exact .failed (.zero (Nat.zero_le _) (Nat.zero_le _))

/-- What leaves a turn over can be a turn of a loop. -/
theorem turn_bind {g : Unit → Reader α} (h : Follows ts s s.length (s.length - 1) x (g ())) :
    Follows ts s s.length s.length x (turn >>= g) := by
  intro pos hpos
  have hkeeps := h pos hpos
  have hl : s.length - 1 + 1 = s.length :=
    Nat.sub_add_cancel (List.length_pos_iff.mpr hpos.2)
  rw [bind_apply]
  change Keeps ts s.length s.length x ((g () ts pos).map _)
  rw [← hl]
  generalize g () ts pos = run at hkeeps
  cases hkeeps with
  | failed hc => exact .failed (by simpa only [hl] using hc.turn)
  | read hr hc => exact .read hr (by simpa only [hl] using hc.turn)

/-- An expression is paid for by an expression. -/
theorem entered (h : Follows ts s m l x y) : Follows ts s (m + 1) l x (entered y) := by
  intro pos hpos
  have hkeeps := h pos hpos
  change Keeps ts (m + 1) l x ((y ts pos).map _)
  generalize y ts pos = run at hkeeps
  cases hkeeps with
  | failed hc => exact .failed hc.enter
  | read hr hc => exact .read hr hc.enter

/-- What leaves a turn over stays within what there is. -/
theorem weaken (h : Follows ts s s.length (s.length - 1) x y) :
    Follows ts s s.length s.length x y :=
  h.mono (Nat.le_refl _) (Nat.sub_le _ _)

theorem expect (hend : Terminated ts) {k : Symbol} (hk : k ≠ .stop) :
    Follows ts s s.length s.length ((forgetRest (Parser.expect k s)).map fun r => ((), r))
      (expect k) := by
  cases s with
  | nil => exact nil
  | cons t rest =>
    refine current_bind ?_
    by_cases ht : t.kind = k
    · rw [Parser.forgetRest_expect k t rest ht, if_pos ht]
      exact (take_bind hend (by rw [ht]; exact hk) (ok ())).weaken
    · rw [Parser.expect, if_neg ht, if_neg ht]
      exact error _

/-- A symbol that is asked for, and then what follows it. -/
theorem expect_bind (hend : Terminated ts) {k : Symbol}
    (hk : k ≠ .stop) {f : List Token → Except ParseError (α × List Token)} {g : Unit → Reader α}
    (h : ∀ r, forgetRest (Parser.expect k s) = .ok r →
      Follows ts r r.length r.length (f r) (g ())) :
    Follows ts s s.length s.length (forgetRest (Parser.expect k s) >>= f)
      (Cursor.expect k >>= g) := by
  have hexpect := expect (s := s) hend hk
  generalize forgetRest (Parser.expect k s) = y at h hexpect
  cases y with
  | error e => exact hexpect.bind (f := fun z => f z.2) fun _ _ hr => nomatch hr
  | ok r =>
    refine hexpect.bind (f := fun z => f z.2) fun _ r' hr => ?_
    cases hr
    exact h r rfl

/-- A last symbol that is asked for. -/
theorem expect_last (hend : Terminated ts) {k : Symbol}
    (hk : k ≠ .stop) (a : α) :
    Follows ts s s.length s.length (forgetRest (Parser.expect k s) >>= fun r => .ok (a, r))
      (Cursor.expect k >>= fun _ => pure a) :=
  expect_bind hend hk fun _ _ => ok a

theorem expect_found (hend : Terminated ts) {k : Symbol} (hk : k ≠ .stop) (ht : t.kind = k)
    (a : α) : Follows ts (t :: rest) (t :: rest).length (t :: rest).length (.ok (a, rest))
      (Cursor.expect k >>= fun _ => pure a) := by
  have h := expect_last (s := t :: rest) hend hk a
  rwa [Parser.forgetRest_expect k t rest ht, ok_bind] at h

end Follows

end FilterLang.Cursor
