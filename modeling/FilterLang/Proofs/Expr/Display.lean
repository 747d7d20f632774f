import FilterLang.Proofs.Decimal.Injectivity
import FilterLang.Proofs.Expr.Names
import FilterLang.Proofs.Expr.Nesting
import FilterLang.Proofs.Token.Legible
/-!
Trees are told apart by their displays.

An expression whose names are words and whose numbers are numbers is known by its nested list
(`nested_injective`): expressions with one nested list are of one kind and have as many parts, so
they are equal when these are (`eq_of_parts`), and the parts are smaller. Texts without string
literals have such expressions only, and no two of them have one display (`eq_of_display_eq`).
-/

namespace FilterLang

open Text (IsBareWord Nested)

/-! ## Expressions of words and numbers -/

/-- A sign that is written as words: no string, no number but a proper one. -/
def Sign.Plain : Sign → Prop
  | number x => x.isNaN = false
  | string .. => False
  | name w => IsBareWord w.toList
  | symbol _ => True

namespace Expr

/-- The names of an expression are words and its numbers are numbers, and it has no string
literals. -/
def Plain (e : Expr) : Prop :=
  ∀ s ∈ signs e.tokens, s.Plain

theorem Plain.child {e c : Expr} (he : e.Plain) (hc : c ∈ e.children) : c.Plain :=
  fun s hs => he s (signs_child hc hs)

theorem Plain.number {x : Float} (h : (number x).Plain) : x.isNaN = false :=
  h (.number x) (by simp [Token.sign?])

theorem not_plain_str (raw : String) (unicode : Bool) : ¬ (str raw unicode).Plain := by
  intro h
  exact h (.string raw unicode) (by cases unicode <;> simp [stringToken, Token.sign?])

theorem signs_params {params : List String} {p : String} (hp : p ∈ params) :
    Sign.name p ∈ signs (paramTokens params) := by
  induction params with
  | nil => cases hp
  | cons q rest ih =>
    rw [signs_paramTokens_cons]
    rcases List.mem_cons.mp hp with rfl | hp
    · exact List.mem_cons_self
    · exact List.mem_cons_of_mem _ (ih hp)

end Expr

/-- The spelling of a number is a word. -/
theorem Decimal.isBareWord_plain {x : Float} (hx : x.isNaN = false) :
    IsBareWord (Decimal.plain x).toList := by
  cases hfinite : x.isFinite with
  | true =>
    obtain ⟨negative, whole, fraction, hd, htext, -⟩ := plain_eq hfinite
    have hchars : ∀ c ∈ (plain x).toList, c.isDigit = true ∨ c ∈ ['-', '.'] := by
      rw [htext, pointText]
      intro c hc
      rcases List.mem_append.mp hc with hc | hc
      · cases negative <;> simp_all
      · rcases List.mem_append.mp hc with hc | hc
        · exact Or.inl (hd.whole c hc)
        · cases fraction with
          | nil => cases hc
          | cons d rest =>
            rcases List.mem_cons.mp hc with rfl | hc
            · simp
            · exact Or.inl (hd.fraction c hc)
    refine ⟨?_, ?_⟩
    · rw [htext, pointText]
      simp [hd.nonempty]
    · intro c hc hdelimiter
      simp only [Text.delimiters, List.mem_cons, List.not_mem_nil, or_false] at hdelimiter
      rcases hdelimiter with rfl | rfl | rfl <;> simpa using hchars _ hc
  | false =>
    obtain ⟨negative, htext, -⟩ := plain_of_infinite hfinite hx
    rw [htext]
    cases negative <;> exact Text.isBareWord_iff.mp rfl

namespace Expr

/-- The key and the value of an entry are parts of a dict. -/
theorem mem_entries {entries : List (Expr × Expr)} {p : Expr × Expr} (hp : p ∈ entries) :
    p.1 ∈ (dict entries).children ∧ p.2 ∈ (dict entries).children :=
  ⟨List.mem_flatMap.mpr ⟨p, hp, by simp⟩, List.mem_flatMap.mpr ⟨p, hp, by simp⟩⟩

@[simp] theorem proper_node (h : Head) (parts : List Nested) :
    (node h parts).Proper ↔ ∀ x ∈ parts, x.Proper := by
  simp [node, h.isBareWord_word]

theorem isBareWord_constant (c : Constant) : IsBareWord c.text.toList := by
  cases c <;> exact Text.isBareWord_iff.mp rfl

theorem isBareWord_words {op : CompareOp} {w : String} (hw : w ∈ op.words) :
    IsBareWord w.toList := by
  have hall : ∀ w ∈ op.words, Text.isBareWord w.toList = true := by
    cases op <;> decide
  exact Text.isBareWord_iff.mp (hall w hw)

/-- The nested list of a plain expression has proper words. -/
theorem proper_nested (e : Expr) : e.Plain → e.nested.Proper := by
  induction e using inductionOnChildren with
  | step e ih =>
    intro he
    have hpart (c : Expr) (hc : c ∈ e.children) : c.nested.Proper := ih c hc (he.child hc)
    cases e with
    | name n =>
      have hn : IsBareWord n.toList := he (.name n) (by simp [Token.sign?])
      simpa [nested] using hn
    | number x =>
      simpa [nested] using Decimal.isBareWord_plain he.number
    | str raw unicode => exact absurd he (not_plain_str raw unicode)
    | const c => simpa [nested] using isBareWord_constant c
    | unary _ e | not e => simpa [nested] using hpart e (by simp [children])
    | keyword n e | attr e n =>
      have hn : IsBareWord n.toList := he (.name n) (by simp [Token.sign?])
      simpa [nested, hn] using hpart e (by simp [children])
    | binary _ l r | and l r | or l r | subscript l r =>
      simpa [nested] using ⟨hpart l (by simp [children]), hpart r (by simp [children])⟩
    | conditional body test orelse =>
      have htest := hpart test (by simp [children])
      have hbody := hpart body (by simp [children])
      have horelse := hpart orelse (by simp [children])
      simpa [nested] using ⟨htest, hbody, horelse⟩
    | lambda params body =>
      have hparams : ∀ p ∈ params, IsBareWord p.toList :=
        fun p hp => he (.name p) (by simp [signs_params hp])
      simpa [nested] using ⟨hparams, hpart body (by simp [children])⟩
    | tuple items | list items => simpa [nested, nestedAll_eq_map, children] using hpart
    | call callee args => simpa [nested, nestedAll_eq_map, children] using hpart
    | dict entries =>
      have hentry : ∀ p ∈ entries, (nestedEntry p).Proper := by
        rintro ⟨k, v⟩ hp
        obtain ⟨hk, hv⟩ := mem_entries hp
        simpa [nestedEntry] using ⟨hpart k hk, hpart v hv⟩
      rw [nested, proper_node, nestedEntries_eq_map]
      exact List.forall_mem_map.mpr hentry
    | compare first links =>
      have hlink : ∀ l ∈ links, ∀ x ∈ nestedLink l, x.Proper := by
        rintro ⟨op, e⟩ hl x hx
        rcases List.mem_append.mp hx with hx | hx
        · obtain ⟨w, hw, rfl⟩ := List.mem_map.mp hx
          exact isBareWord_words hw
        · rw [List.mem_singleton.mp hx]
          exact hpart e (List.mem_cons_of_mem _ (List.mem_map.mpr ⟨_, hl, rfl⟩))
      rw [nested, proper_node, nestedLinks_eq_flatMap]
      refine List.forall_mem_cons.mpr ⟨hpart first List.mem_cons_self, ?_⟩
      intro x hx
      obtain ⟨l, hl, hx⟩ := List.mem_flatMap.mp hx
      exact hlink l hl x hx

/-! ## Trees are told apart -/

/-- Items are known by their nested lists. -/
theorem map_injective_of {α : Type} {f : α → Nested} {xs ys : List α}
    (h : ∀ x ∈ xs, ∀ y ∈ ys, f x = f y → x = y) (heq : xs.map f = ys.map f) : xs = ys := by
  induction xs generalizing ys with
  | nil => exact (List.map_eq_nil_iff.mp heq.symm).symm
  | cons x xs ih =>
    cases ys with
    | nil => cases heq
    | cons y ys =>
      obtain ⟨hhead, htail⟩ := List.cons.inj heq
      rw [h x (by simp) y (by simp) hhead,
        ih (fun a ha b hb => h a (by simp [ha]) b (by simp [hb])) htail]

/-- Words are followed by a list in one way only. -/
theorem words_append_injective {ws ws' : List String} {xs xs' ys ys' : List Nested}
    (h : ws.map .word ++ .list xs :: ys = ws'.map .word ++ .list xs' :: ys') :
    ws = ws' ∧ xs = xs' ∧ ys = ys' := by
  induction ws generalizing ws' with
  | nil =>
    cases ws' with
    | nil => simpa using h
    | cons w' ws' => simp at h
  | cons w ws ih =>
    cases ws' with
    | nil => simp at h
    | cons w' ws' =>
      simp only [List.map_cons, List.cons_append, List.cons.injEq, Nested.word.injEq] at h
      obtain ⟨rfl, hrest⟩ := ih h.2
      exact ⟨by rw [h.1], hrest⟩

theorem nested_eq_list (e : Expr) : ∃ items, e.nested = .list items := by
  cases e <;> exact ⟨_, rfl⟩

theorem words_injective {op op' : CompareOp} (h : op.words = op'.words) : op = op' := by
  revert h
  cases op <;> cases op' <;> decide

/-- The links of a chain are told from its parts when their operands are. -/
theorem links_injective {links links' : List (CompareOp × Expr)}
    (h : ∀ e ∈ links.map (·.2), ∀ e' ∈ links'.map (·.2), e.nested = e'.nested → e = e')
    (heq : nestedLinks links = nestedLinks links') : links = links' := by
  have hparts (op : CompareOp) (e : Expr) (rest : List (CompareOp × Expr)) :
      nestedLinks ((op, e) :: rest) = op.words.map .word ++ e.nested :: nestedLinks rest := by
    rw [nestedLinks, nestedLink, List.append_assoc, List.singleton_append]
  induction links generalizing links' with
  | nil =>
    cases links' with
    | nil => rfl
    | cons l' rest' =>
      rw [hparts] at heq
      simp [nestedLinks] at heq
  | cons l rest ih =>
    cases links' with
    | nil =>
      rw [hparts] at heq
      simp [nestedLinks] at heq
    | cons l' rest' =>
      obtain ⟨op, e⟩ := l
      obtain ⟨op', e'⟩ := l'
      obtain ⟨items, hitems⟩ := nested_eq_list e
      obtain ⟨items', hitems'⟩ := nested_eq_list e'
      rw [hparts, hparts, hitems, hitems'] at heq
      obtain ⟨hwords, rfl, hrest⟩ := words_append_injective heq
      rw [words_injective hwords, h e (by simp) e' (by simp) (hitems.trans hitems'.symm),
        ih (fun a ha b hb => h a (by simp [ha]) b (by simp [hb])) hrest]

theorem constant_injective {c c' : Constant} (h : c.text = c'.text) : c = c' := by
  revert h
  cases c <;> cases c' <;> decide

/-- Two expressions of one kind are told apart by their parts. -/
theorem eq_of_parts {e e' : Expr} (he : e.Plain) (he' : e'.Plain) (h : e.nested = e'.nested)
    (hhead : e.head = e'.head)
    (hpart : ∀ c ∈ e.children, ∀ c' ∈ e'.children, c.nested = c'.nested → c = c') : e = e' := by
  have hchildren := map_injective_of hpart
  -- the kind of the second is that of the first, so in each case only one is left for it
  cases e with
  | name n =>
    cases e' with
    | name n' =>
      simpa [nested, node] using h
    | _ => cases hhead
  | number x =>
    cases e' with
    | number x' =>
      have hplain : Decimal.plain x = Decimal.plain x' := by simpa [nested, node] using h
      rw [Decimal.plain_injective he.number he'.number hplain]
    | _ => cases hhead
  | str raw unicode => exact absurd he (not_plain_str raw unicode)
  | const c =>
    cases e' with
    | const c' =>
      have htext : c.text = c'.text := by simpa [nested, node] using h
      rw [constant_injective htext]
    | _ => cases hhead
  | unary op e =>
    cases e' with
    | unary op' e' =>
      obtain rfl : op = op' := by simpa [head] using hhead
      have hoperand : [e] = [e'] := hchildren (by simpa [nested, node, children] using h)
      simpa using hoperand
    | _ => cases hhead
  | not e =>
    cases e' with
    | not e' =>
      have hoperand : [e] = [e'] := hchildren (by simpa [nested, node, children] using h)
      simpa using hoperand
    | _ => cases hhead
  | binary op l r =>
    cases e' with
    | binary op' l' r' =>
      obtain rfl : op = op' := by simpa [head] using hhead
      have hoperands : [l, r] = [l', r'] := hchildren (by simpa [nested, node, children] using h)
      simpa using hoperands
    | _ => cases hhead
  | and l r =>
    cases e' with
    | and l' r' =>
      have hoperands : [l, r] = [l', r'] := hchildren (by simpa [nested, node, children] using h)
      simpa using hoperands
    | _ => cases hhead
  | or l r =>
    cases e' with
    | or l' r' =>
      have hoperands : [l, r] = [l', r'] := hchildren (by simpa [nested, node, children] using h)
      simpa using hoperands
    | _ => cases hhead
  | compare first links =>
    cases e' with
    | compare first' links' =>
      obtain ⟨hfirst, hlinks⟩ : first.nested = first'.nested ∧
          nestedLinks links = nestedLinks links' := by
        simpa [nested, node] using h
      have hrest : links = links' := links_injective
        (fun c hc c' hc' => hpart c (List.mem_cons_of_mem _ hc) c' (List.mem_cons_of_mem _ hc'))
        hlinks
      rw [hpart first (by simp [children]) first' (by simp [children]) hfirst, hrest]
    | _ => cases hhead
  | call f args =>
    cases e' with
    | call f' args' =>
      have hparts : f :: args = f' :: args' :=
        hchildren (by simpa [nested, node, nestedAll_eq_map, children] using h)
      simpa using hparts
    | _ => cases hhead
  | keyword n e =>
    cases e' with
    | keyword n' e' =>
      obtain ⟨rfl, hvalue⟩ : n = n' ∧ e.nested = e'.nested := by simpa [nested, node] using h
      have hvalue : [e] = [e'] := hchildren (by simpa [children] using hvalue)
      simpa using hvalue
    | _ => cases hhead
  | attr e n =>
    cases e' with
    | attr e' n' =>
      obtain ⟨hobject, rfl⟩ : e.nested = e'.nested ∧ n = n' := by simpa [nested, node] using h
      have hobject : [e] = [e'] := hchildren (by simpa [children] using hobject)
      simpa using hobject
    | _ => cases hhead
  | subscript l r =>
    cases e' with
    | subscript l' r' =>
      have hoperands : [l, r] = [l', r'] := hchildren (by simpa [nested, node, children] using h)
      simpa using hoperands
    | _ => cases hhead
  | tuple items =>
    cases e' with
    | tuple items' =>
      have hitems : items = items' :=
        hchildren (by simpa [nested, node, nestedAll_eq_map, children] using h)
      rw [hitems]
    | _ => cases hhead
  | list items =>
    cases e' with
    | list items' =>
      have hitems : items = items' :=
        hchildren (by simpa [nested, node, nestedAll_eq_map, children] using h)
      rw [hitems]
    | _ => cases hhead
  | dict entries =>
    cases e' with
    | dict entries' =>
      have hentries : entries.map nestedEntry = entries'.map nestedEntry := by
        simpa [nested, node, nestedEntries_eq_map] using h
      have hentry : ∀ p ∈ entries, ∀ p' ∈ entries', nestedEntry p = nestedEntry p' → p = p' := by
        rintro ⟨k, v⟩ hp ⟨k', v'⟩ hp' hsame
        obtain ⟨hk, hv⟩ : k.nested = k'.nested ∧ v.nested = v'.nested := by
          simpa [nestedEntry] using hsame
        rw [hpart k (mem_entries hp).1 k' (mem_entries hp').1 hk,
          hpart v (mem_entries hp).2 v' (mem_entries hp').2 hv]
      rw [map_injective_of hentry hentries]
    | _ => cases hhead
  | conditional body test orelse =>
    cases e' with
    | conditional body' test' orelse' =>
      obtain ⟨htest, hbody, horelse⟩ : test.nested = test'.nested ∧ body.nested = body'.nested ∧
          orelse.nested = orelse'.nested := by
        simpa [nested, node] using h
      have hparts : [body, test, orelse] = [body', test', orelse'] :=
        hchildren (by simp [children, htest, hbody, horelse])
      simpa using hparts
    | _ => cases hhead
  | lambda params body =>
    cases e' with
    | lambda params' body' =>
      obtain ⟨hparams, hbody⟩ : params.map Nested.word = params'.map Nested.word ∧
          body.nested = body'.nested := by
        simpa only [nested, node, Nested.list.injEq, List.cons.injEq, true_and, and_true] using h
      have hbody : [body] = [body'] := hchildren (by simpa [children] using hbody)
      obtain rfl : params = params' :=
        List.map_injective_iff.mpr (fun _ _ => Nested.word.inj) hparams
      simpa using hbody
    | _ => cases hhead

/-- A plain expression is known by its nested list. -/
theorem nested_injective (e : Expr) : e.Plain → ∀ {e' : Expr}, e'.Plain → e.nested = e'.nested →
    e = e' := by
  induction e using inductionOnChildren with
  | step e ih =>
    intro he e' he' h
    exact eq_of_parts he he' h (head_of_nested h)
      fun c hc c' hc' => ih c hc (he.child hc) (he'.child hc')

/-- Plain expressions with one display are one expression. -/
theorem display_injective {e e' : Expr} (he : e.Plain) (he' : e'.Plain)
    (h : e.display = e'.display) : e = e' := by
  refine nested_injective e he he' (Nested.render_injective (proper_nested e he)
    (proper_nested e' he') ?_)
  rw [← display_eq_render, ← display_eq_render, h]

end Expr

/-! ## Texts -/

/-- An expression that is parsed from legible tokens, none of them a string, is plain. -/
theorem plain_of_parse {ts : List Token} {e : Expr} (hts : ∀ t ∈ ts, t.Legible)
    (hstring : ∀ t ∈ ts, t.kind ≠ .string) (h : parse ts = .ok e) : e.Plain := by
  obtain ⟨r, hr, -⟩ := parse_eq_ok h
  obtain ⟨piece, rfl, hsigns⟩ := Parser.spelling_closed.runs 0 ts e r hr
  intro s hs
  rw [← hsigns] at hs
  obtain ⟨t, ht, hsign⟩ := List.mem_filterMap.mp hs
  have hlegible := hts t (List.mem_append_left r ht)
  have hkind := hstring t (List.mem_append_left r ht)
  cases t with
  | number _ _ | name _ =>
    cases hsign
    exact hlegible
  | string _ _ _ => exact absurd rfl hkind
  | symbol sym => cases sym <;> cases hsign <;> trivial

/-- Displays are read in one way: expressions without string literals that were parsed from texts
are equal when their displays are. -/
theorem eq_of_display_eq {text text' : String} {ts ts' : List Token} {e e' : Expr}
    (hread : tokenize text = .ok ts) (hread' : tokenize text' = .ok ts')
    (hstring : ∀ t ∈ ts, t.kind ≠ .string) (hstring' : ∀ t ∈ ts', t.kind ≠ .string)
    (hparse : parse ts = .ok e) (hparse' : parse ts' = .ok e') (h : e.display = e'.display) :
    e = e' :=
  Expr.display_injective (plain_of_parse (tokenize_legible hread) hstring hparse)
    (plain_of_parse (tokenize_legible hread') hstring' hparse') h

def bareTokens : List Token :=
  [.name "a", .symbol .kwIsNot, .symbol .minus, .name "b", .stop]

def parenthesizedTokens : List Token :=
  [.symbol .parenOpen, .name "a", .symbol .parenClose, .symbol .kwIsNot, .symbol .parenOpen,
    .symbol .minus, .name "b", .symbol .parenClose, .stop]

/-- Parentheses around operands are not displayed, and make no other expression. -/
theorem eq_of_display_eq_parenthesized :
    ∃ e e', parse bareTokens = .ok e ∧ parse parenthesizedTokens = .ok e' ∧
      e.display = "(comparator (name a) is not (- (name b)))" ∧ e = e' := by
  have hread : tokenize "a is not -b" = .ok bareTokens := by with_unfolding_all rfl
  have hread' : tokenize "(a) is not (-b)" = .ok parenthesizedTokens := by with_unfolding_all rfl
  obtain ⟨e, hparse, hdisplay⟩ : ∃ e, parse bareTokens = .ok e ∧
      e.display = "(comparator (name a) is not (- (name b)))" :=
    ⟨_, by with_unfolding_all rfl, by with_unfolding_all rfl⟩
  obtain ⟨e', hparse', hdisplay'⟩ : ∃ e', parse parenthesizedTokens = .ok e' ∧
      e'.display = "(comparator (name a) is not (- (name b)))" :=
    ⟨_, by with_unfolding_all rfl, by with_unfolding_all rfl⟩
  exact ⟨e, e', hparse, hparse', hdisplay, eq_of_display_eq hread hread' (by decide) (by decide)
    hparse hparse' (hdisplay.trans hdisplay'.symm)⟩

end FilterLang
