import FilterLang.Proofs.Parser.Soundness
/-!
The names that an expression reads.

A name is read where it stands as an expression of its own; the names of attributes, of
keyword arguments and of parameters are not. An expression reads what its parts read, the
bodies of its lambdas included. A name that a parsed expression reads stands in the text
as a token (`token_of_mem_names`): the signs of the tokens are those of the tree, and the
signs of a part are among those of the whole.
-/

namespace FilterLang

namespace Expr

def names (e : Expr) : List String :=
  match e with
  | name n => [n]
  | e => e.children.attach.flatMap fun c => c.1.names
termination_by sizeOf e
decreasing_by exact sizeOf_lt_of_mem_children c.2

@[simp] theorem names_name (n : String) : (name n).names = [n] := by
  rw [names]

/-- A name that a part reads is read by the whole. -/
theorem mem_names_of_child {e c : Expr} (hc : c ∈ e.children) {n : String} (hn : n ∈ c.names) :
    n ∈ e.names := by
  cases e with
  | name m => cases hc
  | _ =>
    rw [names]
    · exact List.mem_flatMap.mpr ⟨⟨c, hc⟩, List.mem_attach _ _, hn⟩
    · intro m h
      cases h

/-- A name is read as the whole expression or by a part. -/
theorem mem_names_cases {e : Expr} {n : String} (h : n ∈ e.names) :
    e = name n ∨ ∃ c ∈ e.children, n ∈ c.names := by
  cases e with
  | name m =>
    rw [names_name, List.mem_singleton] at h
    exact Or.inl (congrArg name h.symm)
  | _ =>
    rw [names] at h
    · obtain ⟨c, -, hn⟩ := List.mem_flatMap.mp h
      exact Or.inr ⟨c.1, c.2, hn⟩
    · intro m hm
      cases hm

/-! ## Signs of the parts -/

theorem signs_item {items : List Expr} {c : Expr} (hc : c ∈ items) :
    signs c.tokens ⊆ signs (tokensItems items) := by
  induction items with
  | nil => cases hc
  | cons e rest ih =>
    rw [tokensItems, signs_append, signs_moreItems]
    rcases List.mem_cons.mp hc with rfl | hc
    · exact List.subset_append_left _ _
    · exact fun s hs => List.mem_append_right _ (ih hc hs)

theorem signs_link {links : List (CompareOp × Expr)} {l : CompareOp × Expr} (hl : l ∈ links) :
    signs l.2.tokens ⊆ signs (tokensLinks links) := by
  induction links with
  | nil => cases hl
  | cons k rest ih =>
    intro s hs
    rw [tokensLinks, signs_append, List.mem_append]
    rcases List.mem_cons.mp hl with rfl | hl
    · obtain ⟨op, e⟩ := l
      left
      simp [hs]
    · exact Or.inr (ih hl hs)

theorem signs_entry {entries : List (Expr × Expr)} {p : Expr × Expr} (hp : p ∈ entries) :
    signs p.1.tokens ++ signs p.2.tokens ⊆ signs (tokensEntries entries) := by
  induction entries with
  | nil => cases hp
  | cons q rest ih =>
    intro s hs
    rw [tokensEntries, signs_append, signs_moreEntries, List.mem_append]
    rcases List.mem_cons.mp hp with rfl | hp
    · obtain ⟨k, v⟩ := p
      left
      rcases List.mem_append.mp hs with hs | hs <;> simp [hs]
    · exact Or.inr (ih hp hs)

/-- The signs of a part are among those of the whole. -/
theorem signs_child {e c : Expr} (hc : c ∈ e.children) : signs c.tokens ⊆ signs e.tokens := by
  intro s hs
  cases e with
  | name | number | str | const => cases hc
  | unary | not | keyword | attr | lambda =>
    cases List.mem_singleton.mp hc
    simp [hs]
  | binary _ l r | and l r | or l r | subscript l r =>
    simp only [children, List.mem_cons, List.not_mem_nil, or_false] at hc
    rcases hc with rfl | rfl <;> simp [hs]
  | conditional body test orelse =>
    simp only [children, List.mem_cons, List.not_mem_nil, or_false] at hc
    rcases hc with rfl | rfl | rfl <;> simp [hs]
  | compare first links =>
    simp only [children, List.mem_cons, List.mem_map] at hc
    rcases hc with rfl | ⟨l, hl, rfl⟩
    · simp [hs]
    · simp [signs_link hl hs]
  | call callee args =>
    rcases List.mem_cons.mp hc with rfl | hc
    · simp [hs]
    · simp [signs_item hc hs]
  | tuple items | list items =>
    have hitem : s ∈ signs (tokensItems items) := signs_item hc hs
    simp [hitem]
  | dict entries =>
    obtain ⟨p, hp, hc⟩ := List.mem_flatMap.mp hc
    have hentry : s ∈ signs p.1.tokens ++ signs p.2.tokens := by
      simp only [List.mem_cons, List.not_mem_nil, or_false] at hc
      rcases hc with rfl | rfl <;> simp [hs]
    simp [signs_entry hp hentry]

theorem sign_of_mem_names {e : Expr} {n : String} (h : n ∈ e.names) :
    Sign.name n ∈ signs e.tokens := by
  induction e using inductionOnChildren with
  | step e ih =>
    rcases mem_names_cases h with rfl | ⟨c, hc, hn⟩
    · simp [Token.sign?]
    · exact signs_child hc (ih c hc hn)

end Expr

theorem mem_of_sign_name {ts : List Token} {n : String} (h : Sign.name n ∈ signs ts) :
    Token.name n ∈ ts := by
  obtain ⟨t, ht, hs⟩ := List.mem_filterMap.mp h
  cases t with
  | name m => cases hs; exact ht
  | symbol s => cases s <;> cases hs
  | number | string => cases hs

/-- A name that a parsed expression reads is one of the tokens it was parsed from. -/
theorem token_of_mem_names {ts : List Token} {e : Expr} (h : parse ts = .ok e) {n : String}
    (hn : n ∈ e.names) : Token.name n ∈ ts := by
  obtain ⟨r, hr, -⟩ := parse_eq_ok h
  obtain ⟨piece, rfl, hs⟩ := Parser.spelling_closed.runs 0 ts e r hr
  refine List.mem_append_left r (mem_of_sign_name ?_)
  rw [hs]
  exact Expr.sign_of_mem_names hn

end FilterLang
