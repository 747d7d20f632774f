import FilterLang.Composition.Basic
import FilterLang.Proofs.Parser.Framing
import FilterLang.Proofs.Text.Escaping
import FilterLang.Proofs.Token.Spacing
import FilterLang.Proofs.Value.Literal
/-!
A fragment `name = value` is the fragment that writes the dict with that one entry.

The one is a keyword argument, which composition takes apart before anything is evaluated; the
other is an ordinary expression. The text of the value has the same tokens in both, because what
stands before it joins no word and what comes after it starts with a separator, and these tokens
are the same expression in both, because what comes after them joins nothing (`compile_assignment`,
`compile_singleton`). The values are made and converted alike, failures included
(`evalSource_assignment`).
-/

namespace FilterLang

open Fallible

/-! ## Identifiers -/

/-- A name of the language: letters, digits and underscores, not a digit first, and no keyword. -/
structure IsIdentifier (n : String) : Prop where
  spelled : ∃ c cs, n.toList = c :: cs ∧ (c.isAlpha = true ∨ c = '_') ∧
    ∀ d ∈ cs, Token.isWordChar d = true
  free : Symbol.keyword? n = none

namespace Token

/-- A character that starts a word starts nothing else. -/
theorem startsWord_only {c : Char} (h : c.isAlpha = true ∨ c = '_') :
    Text.isBlank c = false ∧ c.isDigit = false ∧ (c == '.') = false ∧
      (c == '\'' || c == '"') = false := by
  have hascii : c.toNat < 128 := by
    rcases h with h | rfl
    · simp only [Char.isAlpha, Char.isUpper, Char.isLower, Bool.or_eq_true, Bool.and_eq_true,
        decide_eq_true_eq, UInt32.le_iff_toNat_le] at h
      have hupper : c.val.toNat ≤ 90 ∨ c.val.toNat ≤ 122 := h.imp And.right And.right
      show c.val.toNat < 128
      omega
    · decide
  refine Escape.of_ascii (P := fun c => (c.isAlpha = true ∨ c = '_') →
    Text.isBlank c = false ∧ c.isDigit = false ∧ (c == '.') = false ∧
      (c == '\'' || c == '"') = false) ?_ hascii h
  decide

/-- No quote and no backslash stands in a word. -/
theorem isWordChar_plain {c : Char} (h : isWordChar c = true) :
    c ≠ '\'' ∧ c ≠ '"' ∧ c ≠ '\\' := by
  refine ⟨?_, ?_, ?_⟩ <;> (rintro rfl; cases h)

/-- An identifier is read as a name. -/
theorem next?_identifier {n : String} (h : IsIdentifier n) :
    ∃ c cs, n.toList = c :: cs ∧ Text.isBlank c = false ∧ next? c cs = some (.name n, []) := by
  obtain ⟨c, cs, hn, hc, hcs⟩ := h.spelled
  obtain ⟨hblank, hdigit, hpoint, hquote⟩ := startsWord_only hc
  -- a name that starts with the mark of a string does not go on with a quote
  have hquoted : startsQuoted cs = false := by
    cases cs with
    | nil => rfl
    | cons d cs =>
      obtain ⟨hsingle, hdouble, _⟩ := isWordChar_plain (hcs d List.mem_cons_self)
      simp [startsQuoted, hsingle, hdouble]
  have hword : (c.isAlpha || c == '_') = true := by simpa using hc
  have hname : ofWord (String.ofList (c :: cs)) = .name n := by
    rw [← hn, String.ofList_toList, ofWord, h.free]
  refine ⟨c, cs, hn, hblank, ?_⟩
  rw [next?.eq_def, hdigit, hpoint, hquoted, hquote, hword, List.takeWhile_eq_self_iff.mpr hcs,
    List.dropWhile_eq_nil_iff.mpr hcs, hname]
  simp

/-- Neither stands in an identifier. -/
theorem plain_of_identifier {n : String} (h : IsIdentifier n) :
    ∀ c ∈ n.toList, c ≠ '\'' ∧ c ≠ '\\' := by
  obtain ⟨c, cs, hn, hc, hcs⟩ := h.spelled
  have hfirst : isWordChar c = true := by
    rcases hc with hc | rfl
    · simp [isWordChar, Char.isAlphanum, hc]
    · rfl
  intro d hd
  have hword : isWordChar d = true := by
    rw [hn, List.mem_cons] at hd
    rcases hd with rfl | hd
    · exact hfirst
    · exact hcs d hd
  obtain ⟨hsingle, _, hback⟩ := isWordChar_plain hword
  exact ⟨hsingle, hback⟩

/-- An identifier in front of a separator is taken off as a name. -/
theorem scan_identifier {n : String} (h : IsIdentifier n) (text : String) (acc : List Token)
    {rest : List Char} (hrest : Separated rest) :
    scan text acc (n.toList ++ rest) = scan text (.name n :: acc) rest := by
  obtain ⟨c, cs, hn, hblank, hnext⟩ := next?_identifier h
  rw [hn]
  exact scan_token text acc hblank (next?_append hrest hnext) (by simp) (by simp)

/-- An identifier in quotes is taken off as a string of what it is. -/
theorem scan_quotedIdentifier {n : String} (h : IsIdentifier n) (text : String)
    (acc : List Token) (rest : List Char) :
    scan text acc ('\'' :: (n.toList ++ '\'' :: rest)) =
      scan text (.string none '\'' n :: acc) rest := by
  have hother : ∀ c ∈ n.toList, (c != '\'') = true := by
    intro c hc
    exact bne_iff_ne.mpr (plain_of_identifier h c hc).1
  have hread : readString? none '\'' (n.toList ++ '\'' :: rest) =
      some (.string none '\'' n, rest) := by
    rw [readString?, List.dropWhile_append_of_pos hother, List.takeWhile_append_of_pos hother]
    simp
  exact scan_token text acc (by decide) hread (by simp) (by simp)

/-- An equals sign in front of a blank is a token of its own. -/
theorem scan_assign (text : String) (acc : List Token) (rest : List Char) :
    scan text acc ('=' :: ' ' :: rest) = scan text (.symbol .assign :: acc) rest := by
  have hnext : next? '=' [] = some (.symbol .assign, []) := by
    with_unfolding_all rfl
  have hspace : Separated (' ' :: rest) := separated_cons (by decide) rest
  have hread : next? '=' (' ' :: rest) = some (.symbol .assign, ' ' :: rest) :=
    next?_append hspace hnext
  rw [scan_token text acc (by decide) hread (by simp) (by simp), scan_blank]

end Token

/-! ## The two texts -/

def assignment (n e : String) : String :=
  n ++ " = " ++ e

/-- The text of a dict whose one entry has the name `n` and the value that `e` spells. -/
def singletonDict (n e : String) : String :=
  "\x7b'" ++ n ++ "': " ++ e ++ "\x7d"

section Texts

variable {n e : String}

theorem tokenize_assignment (hn : IsIdentifier n) {tokens : List Token}
    (he : tokenize e = .ok (tokens ++ [Token.stop])) :
    tokenize (assignment n e) =
      .ok (.name n :: .symbol .assign :: tokens ++ [Token.stop]) := by
  have htext : (assignment n e).toList = n.toList ++ ' ' :: '=' :: ' ' :: e.toList := by
    simp [assignment]
  have hspace : Token.Separated (' ' :: '=' :: ' ' :: e.toList) :=
    Token.separated_cons (by decide) _
  have hbase : Token.Settled [.symbol .assign, .name n] := by
    rintro t ⟨rfl⟩
    simp
  have hread := Token.scan_tokenized he hbase Token.separated_nil (assignment n e)
  rw [List.append_nil] at hread
  rw [tokenize, htext, Token.scan_identifier hn _ _ hspace, Token.scan_blank, Token.scan_assign,
    hread, Token.scan_eq]
  simp

theorem tokenize_singletonDict (hn : IsIdentifier n) {tokens : List Token}
    (he : tokenize e = .ok (tokens ++ [Token.stop])) :
    tokenize (singletonDict n e) =
      .ok (.symbol .braceOpen :: .string none '\'' n :: .symbol .colon ::
        (tokens ++ [.symbol .braceClose]) ++ [Token.stop]) := by
  have htext : (singletonDict n e).toList =
      '\x7b' :: '\'' :: (n.toList ++ '\'' :: ':' :: ' ' :: (e.toList ++ ['\x7d'])) := by
    simp [singletonDict]
  have hbase : Token.Settled [.symbol .colon, .string none '\'' n, .symbol .braceOpen] := by
    rintro t ⟨rfl⟩
    simp
  have hbrace : Token.Separated ['\x7d'] := Token.separated_cons (by decide) []
  have hread := Token.scan_tokenized he hbase hbrace (singletonDict n e)
  rw [tokenize, htext, Token.scan_mark (s := .braceOpen) (by decide),
    Token.scan_quotedIdentifier hn, Token.scan_mark (s := .colon) (by decide), Token.scan_blank,
    hread, Token.scan_mark (s := .braceClose) (by decide), Token.scan_eq]
  simp

/-- A text that compiles has tokens without an end marker before the last, and they are the
expression wherever a symbol that joins nothing comes after them. -/
theorem readsAs_of_compile {tree : Expr} (h : compile e = .ok tree) :
    ∃ tokens, tokenize e = .ok (tokens ++ [Token.stop]) ∧ Parser.ReadsAs tokens tree := by
  cases htokens : tokenize e with
  | error err =>
    rw [compile, htokens] at h
    cases h
  | ok ts =>
    rw [compile, htokens] at h
    obtain ⟨acc, rest, hts, hprogress, _⟩ :=
      Token.scan_progress [] e.toList (Token.progress_start e.toList) htokens
    have hparse : parse ts = .ok tree := by
      have h : (parse ts).mapError EvalError.parse = .ok tree := h
      cases hx : parse ts with
      | error err => rw [hx] at h; cases h
      | ok tree' => rw [hx] at h; cases h; rfl
    refine ⟨acc.reverse, by rw [hts], ?_⟩
    rw [hts] at hparse
    refine Parser.readsAs_of_parse (fun t ht => ?_) hparse
    exact hprogress.notStop t (List.mem_reverse.mp ht)

theorem compile_of_readsAs {text : String} {tokens : List Token} {tree : Expr}
    (htokens : tokenize text = .ok (tokens ++ [Token.stop]))
    (hread : Parser.ReadsAs tokens tree) : compile text = .ok tree := by
  rw [compile, htokens]
  show (parse (tokens ++ [Token.stop])).mapError EvalError.parse = .ok tree
  rw [Parser.parse_of_readsAs hread]
  rfl

/-- A keyword argument on its own. -/
theorem compile_assignment (hn : IsIdentifier n) {tree : Expr} (he : compile e = .ok tree) :
    compile (assignment n e) = .ok (.keyword n tree) := by
  obtain ⟨tokens, htokens, hread⟩ := readsAs_of_compile he
  refine compile_of_readsAs (tokenize_assignment hn htokens) ?_
  refine Parser.readsAs_of_joined (by decide) fun rest hrest => ?_
  rw [Parser.forget_joined_keyword (by rfl), hread rest hrest]
  rfl

/-- A dict with one entry. -/
theorem compile_singletonDict (hn : IsIdentifier n) {tree : Expr} (he : compile e = .ok tree) :
    compile (singletonDict n e) = .ok (.dict [(.str n false, tree)]) := by
  obtain ⟨tokens, htokens, hread⟩ := readsAs_of_compile he
  have hentry : Parser.ReadsAsEntry (.string none '\'' n :: .symbol .colon :: tokens)
      (.str n false, tree) :=
    ⟨[.string none '\'' n], tokens, rfl, Parser.readsAs_literal rfl rfl, hread⟩
  refine compile_of_readsAs (tokenize_singletonDict hn htokens) ?_
  refine Parser.readsAs_of_opened fun rest _ => ?_
  have hopened : Parser.forget (Parser.opened (.symbol .braceOpen) _) = .ok (_, rest) :=
    Parser.opened_dict (.cons hentry .nil)
  rw [Parser.commaJoined_singleton] at hopened
  rw [List.cons_append, List.cons_append, List.append_assoc]
  exact hopened

end Texts

/-! ## The two values -/

/-- An identifier spells itself. -/
theorem decodeLiteral_identifier {n : String} (h : IsIdentifier n) (unicode : Bool) :
    decodeLiteral n unicode = .ok n :=
  Escape.decodeLiteral_spelled (Escape.spelled_plain fun c hc =>
    (Token.plain_of_identifier h c hc).2)

/-- All evaluations call values in one way. -/
theorem Expr.eval_eq (host : Host) :
    ∃ call, ∀ c site e, Expr.eval host c site e = e.evalWith host call c site :=
  ⟨_, fun _ _ _ => rfl⟩

/-- A dict with one entry has the value of that entry at the place of the entry's value. -/
theorem eval_singletonDict (host : Host) (c : Context) (site : Identity) {n : String}
    (h : IsIdentifier n) (e : Expr) :
    (Expr.dict [(.str n false, e)]).eval host c site =
      e.eval host c ((site.operand 0).operand 1) >>= fun v =>
        .ok (.dict site ⟨[(.str n, v)], [(.str n, 0)]⟩) := by
  obtain ⟨call, heval⟩ := Expr.eval_eq host
  rw [heval, heval]
  simp only [Expr.evalWith, Expr.evalEntries, Expr.evalEntry, decodeLiteral_identifier h]
  cases Expr.evalWith host call c ((site.operand 0).operand 1) e with
  | error err => rfl
  | ok v => rfl

theorem toNative_singletonDict (host : Host) (site place : Identity) (n : String) (v : Value) :
    (Value.dict place ⟨[(.str n, v)], [(.str n, 0)]⟩).toNative host site =
      v.toNative host site >>= fun j => .ok (.object [(n, j)]) := by
  rw [Value.toNative, Value.nativeEntries, Value.nativeEntry]
  cases v.toNative host site with
  | error err => rfl
  | ok j => rfl

namespace Composition

/-- Both fragments have the same native form, or fail alike. -/
theorem evalSource_assignment (host : Host) (c : Context) {n e : String} (hn : IsIdentifier n)
    {tree : Expr} (he : compile e = .ok tree) :
    evalSource host c (assignment n e) = evalSource host c (singletonDict n e) := by
  rw [evalSource, evalSource, compile_assignment hn he, compile_singletonDict hn he, ok_bind,
    ok_bind]
  dsimp only
  rw [eval_singletonDict host c fragmentSite hn, bind_assoc]
  refine bind_congr fun v => ?_
  rw [ok_bind, toNative_singletonDict]
  rfl

/-- Fragments that no context tells apart. -/
structure Interchangeable (host : Host) (f g : Fragment) : Prop where
  isEmpty_eq : f.isEmpty = g.isEmpty
  evalContext_eq : ∀ c, evalContext host c f = evalContext host c g

theorem interchangeable_assignment (host : Host) {n e : String} (hn : IsIdentifier n)
    {tree : Expr} (he : compile e = .ok tree) :
    Interchangeable host (.expression (assignment n e)) (.expression (singletonDict n e)) where
  isEmpty_eq := by
    have hassign : Text.allBlank (assignment n e) = false := by
      rw [Text.allBlank, List.all_eq_false]
      exact ⟨'=', by simp [assignment], by decide⟩
    have hdict : Text.allBlank (singletonDict n e) = false := by
      rw [Text.allBlank, List.all_eq_false]
      exact ⟨'\x7b', by simp [singletonDict], by decide⟩
    rw [Fragment.isEmpty, Fragment.isEmpty, hassign, hdict]
  evalContext_eq c := by
    rw [evalContext, evalContext, evalReflected, evalReflected,
      evalSource_assignment host (reflect c) hn he]

/-- Lists that differ in one place. -/
def Replaced (f g : Fragment) (xs ys : List Fragment) : Prop :=
  ∃ before after, xs = before ++ f :: after ∧ ys = before ++ g :: after

theorem ofItems_replaced {f g : Fragment} {j k : Json} (hj : Fragment.ofJson j = .ok f)
    (hk : Fragment.ofJson k = .ok g) (before after : List Json) :
    Related (Replaced f g) (Fragment.ofItems (before ++ j :: after))
      (Fragment.ofItems (before ++ k :: after)) := by
  induction before with
  | nil =>
    rw [List.nil_append, List.nil_append, Fragment.ofItems, Fragment.ofItems, hj, hk, ok_bind,
      ok_bind]
    exact .bind_same _ fun fs => .succeeded ⟨[], fs, rfl, rfl⟩
  | cons d before ih =>
    rw [List.cons_append, List.cons_append, Fragment.ofItems, Fragment.ofItems]
    refine .bind_same _ fun x => ih.bind ?_
    rintro _ _ ⟨front, back, rfl, rfl⟩
    exact .succeeded ⟨x :: front, back, rfl, rfl⟩

/-- A fragment in a list may be exchanged for one that no context tells apart from it. -/
theorem composeContexts_replaced {host : Host} {f g : Fragment} (h : Interchangeable host f g)
    (before after : List Fragment) (c : Context) (result : Table Json) :
    composeContexts host c result (before ++ f :: after) =
      composeContexts host c result (before ++ g :: after) := by
  induction before generalizing c result with
  | nil =>
    rw [List.nil_append, List.nil_append, composeContexts, composeContexts, h.isEmpty_eq,
      h.evalContext_eq]
  | cons x before ih =>
    rw [List.cons_append, List.cons_append, composeContexts, composeContexts]
    by_cases hx : x.isEmpty = true
    · rw [if_pos hx, if_pos hx]
      exact ih c result
    · rw [if_neg hx, if_neg hx]
      refine bind_congr fun left => bind_congr fun members => ?_
      exact ih (extend left.2 members) (Table.overlay result members)

/-- The second fragment is the first with one expression changed for another, which may stand
anywhere in compounds. -/
inductive Swapped (old new : String) : Fragment → Fragment → Prop
  | here : Swapped old new (.expression old) (.expression new)
  | inner {x y : Fragment} (h : Swapped old new x y) (parts : List Fragment) :
      Swapped old new (.compound x parts) (.compound y parts)
  | part {x y : Fragment} (inner : Fragment) (before after : List Fragment)
      (h : Swapped old new x y) :
      Swapped old new (.compound inner (before ++ x :: after))
        (.compound inner (before ++ y :: after))

theorem Swapped.interchangeable {host : Host} {old new : String}
    (hsame : Interchangeable host (.expression old) (.expression new)) {x y : Fragment}
    (h : Swapped old new x y) : Interchangeable host x y := by
  induction h with
  | here => exact hsame
  | inner _ parts ih =>
    refine ⟨rfl, fun c => ?_⟩
    rw [evalContext, evalContext, ih.isEmpty_eq, ih.evalContext_eq]
  | part inner before after _ ih =>
    refine ⟨rfl, fun c => ?_⟩
    rw [evalContext, evalContext]
    refine bind_congr fun scope => ?_
    rw [composeContexts_replaced ih before after]

/-- In a list of fragments of a context, an expression `n = e` may be changed for one that writes
the dict in which the name `n` has the value of `e`: what the list composes to is the same, and so
is the failure where there is one. The name is no keyword, and `e` compiles by itself. The
expression may be a fragment of the list or stand in a compound, and it may be given as its text
or as an object that holds its source. -/
theorem evaluate_assignment (host : Host) {n e : String} (hn : IsIdentifier n)
    (he : ∃ tree, compile e = .ok tree) {j k : Json} {x y : Fragment}
    (hj : Fragment.ofJson j = .ok x) (hk : Fragment.ofJson k = .ok y)
    (hxy : Swapped (n ++ " = " ++ e) ("\x7b'" ++ n ++ "': " ++ e ++ "\x7d") x y)
    (before after : List Json) (base : Table Json) :
    evaluate host .context (before ++ j :: after) base =
      evaluate host .context (before ++ k :: after) base := by
  obtain ⟨tree, he⟩ := he
  have hsame := interchangeable_assignment host hn he
  rw [assignment, singletonDict] at hsame
  rw [evaluate, evaluate]
  refine (ofItems_replaced hj hk before after).bind_eq ?_
  rintro _ _ ⟨front, back, rfl, rfl⟩
  rw [compose, compose, composeContexts_replaced (hxy.interchangeable hsame) front back]

/-- A value with a brace in it, in a compound between a fragment that it refers to and one that
refers to it; the dict is given as an object that holds its source. -/
theorem evaluate_assignment_dependent :
    IsIdentifier "tax_2" ∧ (∃ tree, compile "-net if net else u'\x7d'" = .ok tree) ∧
      evaluate .idle .context
          [.str "net = 10",
            .object [("__contexts", .array [.str "tax_2 = -net if net else u'\x7d'"]),
              ("__ref", .str "compound_context")],
            .str "owed = tax_2"] [] =
        evaluate .idle .context
          [.str "net = 10",
            .object [("__contexts", .array
                [.object [("__debug", .str "\x7b'tax_2': -net if net else u'\x7d'\x7d"),
                  ("__ref", .str "context")]]),
              ("__ref", .str "compound_context")],
            .str "owed = tax_2"] [] := by
  have hn : IsIdentifier "tax_2" :=
    ⟨⟨'t', ['a', 'x', '_', '2'], rfl, .inl rfl, List.all_eq_true.mp rfl⟩, rfl⟩
  have he : ∃ tree, compile "-net if net else u'\x7d'" = .ok tree := by
    have htokens : tokenize "-net if net else u'\x7d'" =
        .ok [.symbol .minus, .name "net", .symbol .kwIf, .name "net", .symbol .kwElse,
          .string (some 'u') '\'' "\x7d", Token.stop] := by
      with_unfolding_all rfl
    rw [compile, htokens]
    exact ⟨_, by with_unfolding_all rfl⟩
  exact ⟨hn, he, evaluate_assignment .idle hn he rfl rfl
    (.part (.literal .null) [] [] .here) [.str "net = 10"] [.str "owed = tax_2"] []⟩

end Composition

end FilterLang
