import FilterLang.Proofs.Token.Scanning
import FilterLang.Proofs.Value.Literal
import FilterLang.Source
/-!
What is written for a literal value is read back as that value.

Writing, scanning, parsing and evaluating each go through a value part by part. `Spells`
puts the four together for one value: its text scans to tokens, the tokens are read as an
expression, and the expression has a value of the same shape. It is shown of the shape of
every literal value, by induction. The text of a container holds the texts of its parts
with brackets, commas and colons around them, and each stage passes these on to the next.
-/

namespace FilterLang

open Fallible FilterLang.Parser

/-! ## Reading scalars -/

namespace Parser

theorem readsAs_constant {s : Symbol} (h : s.opening? = some .constant) :
    ReadsAs [.symbol s] (constant s) :=
  readsAs_of_opened fun rest _ => by
    exact forget_opened_constant (t := .symbol s) h

theorem readsAs_negative (digits : String) (x : Float) :
    ReadsAs [.symbol .minus, .number digits x] (.unary .negate (.number x)) := by
  refine readsAs_of_opened fun rest hr => ?_
  have hnumber : forget (expression 130 ([Token.number digits x] ++ rest)) =
      .ok (.number x, rest) := by
    rw [List.singleton_append, forget_expression, forget_opened_literal rfl]
    exact forget_extended_stop 130 (.number x) rest (by omega)
  rw [forget_opened_operator (p := 130) rfl, hnumber]
  rfl

end Parser

/-! ## Evaluating containers -/

namespace Expr

variable {host : Host}

/-- An expression whose value has a given shape, in every context. -/
def Evaluates (host : Host) (e : Expr) (shape : Value) : Prop :=
  ∀ call c site, ∃ w, evalWith host call c site e = .ok w ∧ w.shape = shape

/-- An entry whose key and value have given shapes. -/
def EvaluatesEntry (host : Host) (entry : Expr × Expr) (shape : Entry) : Prop :=
  Evaluates host entry.1 shape.key ∧ Evaluates host entry.2 shape.value

theorem evalItems_of_forall₂ {es : List Expr} {shapes : List Value}
    (h : List.Forall₂ (Evaluates host) es shapes) (call : Caller) (c : Context)
    (site : Identity) (i : Nat) :
    ∃ ws, evalItems host call c site i es = .ok ws ∧ ws.map Value.shape = shapes := by
  induction h generalizing i with
  | nil => exact ⟨[], rfl, rfl⟩
  | cons he _ ih =>
    obtain ⟨w, hw, hshape⟩ := he call c (site.operand i)
    obtain ⟨ws, hws, hshapes⟩ := ih (i + 1)
    refine ⟨w :: ws, ?_, ?_⟩
    · rw [evalItems, hw, ok_bind, hws]
      rfl
    · rw [List.map_cons, hshape, hshapes]

/-- Entries are set in the order in which they are written when their keys differ. -/
theorem evalEntries_of_forall₂ {ens : List (Expr × Expr)} {shapes : Records}
    (h : List.Forall₂ (EvaluatesEntry host) ens shapes) (call : Caller) (c : Context)
    (site : Identity) (i : Nat) (r : Records)
    (hkeyed : Records.Keyed (r.mapParts Value.shape ++ shapes)) :
    ∃ r' : Records, evalEntries host call c site i r.dict ens = .ok r'.dict ∧
      r'.mapParts Value.shape = r.mapParts Value.shape ++ shapes := by
  induction h generalizing i r with
  | nil => exact ⟨r, rfl, (List.append_nil _).symm⟩
  | @cons entry shape ens shapes he _ ih =>
    obtain ⟨k, v⟩ := entry
    obtain ⟨kw, hk, hkshape⟩ := he.1 call c ((site.operand i).operand 0)
    obtain ⟨vw, hv, hvshape⟩ := he.2 call c ((site.operand i).operand 1)
    have hhash : kw.hashKey host site = .ok shape.hash := by
      rw [← Value.hashKey_shape, hkshape]
      exact hkeyed.hash shape (by simp) host site
    -- the entries set so far and those to come have different hash keys
    have hnew : shape.hash ∉ r.hashes := by
      rw [← Records.hashes_mapParts Value.shape]
      exact Records.notMem_hashes hkeyed.distinct
    have hset : r.dict.set shape.hash kw vw = Records.dict (r ++ [⟨shape.hash, kw, vw⟩]) := by
      rw [Records.set_dict, Records.set_of_notMem hnew]
    have hdone : Records.mapParts Value.shape (r ++ [⟨shape.hash, kw, vw⟩]) ++ shapes =
        r.mapParts Value.shape ++ shape :: shapes := by
      rw [Records.mapParts, List.map_append, List.append_assoc, List.map_singleton,
        List.singleton_append, hkshape, hvshape]
      rfl
    obtain ⟨r', hr', hshapes⟩ := ih (i + 1) (r ++ [⟨shape.hash, kw, vw⟩]) (hdone ▸ hkeyed)
    refine ⟨r', ?_, hshapes.trans hdone⟩
    rw [evalEntries, evalEntry, hk, ok_bind, hv, ok_bind, pure_eq, ok_bind]
    dsimp only
    rw [Dict.insert_eq, hhash, ok_bind, hset]
    exact hr'

theorem evaluates_tuple {es : List Expr} {shapes : List Value}
    (h : List.Forall₂ (Evaluates host) es shapes) :
    Evaluates host (.tuple es) (.tuple .origin shapes) := by
  intro call c site
  obtain ⟨ws, hws, hshapes⟩ := evalItems_of_forall₂ h call c site 0
  refine ⟨.tuple site ws, by rw [evalWith, hws]; rfl, ?_⟩
  rw [Value.shape, Value.shapeItems_eq_map, hshapes]

theorem evaluates_list {es : List Expr} {shapes : List Value}
    (h : List.Forall₂ (Evaluates host) es shapes) :
    Evaluates host (.list es) (.list .origin shapes) := by
  intro call c site
  obtain ⟨ws, hws, hshapes⟩ := evalItems_of_forall₂ h call c site 0
  refine ⟨.list site ws, by rw [evalWith, hws]; rfl, ?_⟩
  rw [Value.shape, Value.shapeItems_eq_map, hshapes]

theorem evaluates_dict {ens : List (Expr × Expr)} {shapes : Records} (hkeyed : shapes.Keyed)
    (h : List.Forall₂ (EvaluatesEntry host) ens shapes) :
    Evaluates host (.dict ens) (.dict .origin shapes.dict) := by
  intro call c site
  obtain ⟨r, hr, hshapes⟩ := evalEntries_of_forall₂ h call c site 0 [] hkeyed
  have hempty : Records.dict [] = ({} : Dict) := rfl
  rw [hempty] at hr
  refine ⟨.dict site r.dict, by rw [evalWith, hr]; rfl, ?_⟩
  rw [Value.shape_dict, Dict.map_dict, hshapes]
  rfl

end Expr

namespace Value

variable {host : Host}

/-! ## The four stages together -/

/-- Text, tokens, an expression and a shape that say the same, each read as the next. -/
structure Spells (host : Host) (text : String) (ts : List Token) (e : Expr) (shape : Value) :
    Prop where
  scans : Token.Scans text.toList ts
  reads : ReadsAs ts e
  evaluates : e.Evaluates host shape

/-- A shape whose text is read back as it. -/
def ReadsBack (host : Host) (place : Identity) (shape : Value) : Prop :=
  ∃ text ts e, shape.repr host place = .ok text ∧ Spells host text ts e shape

theorem readsBack_constant {place : Identity} {shape : Value} {s : Symbol} {c : Char}
    {cs : List Char} (hrepr : shape.repr host place = .ok (String.ofList (c :: cs)))
    (hc : c ∈ ['N', 'T', 'F']) (hcs : cs.all Token.isWordChar = true)
    (hword : Token.ofWord (String.ofList (c :: cs)) = .symbol s)
    (hs : s.opening? = some .constant) (hvalue : (constant s).Evaluates host shape) :
    ReadsBack host place shape := by
  refine ⟨_, _, _, hrepr, ⟨?_, readsAs_constant hs, hvalue⟩⟩
  rw [String.toList_ofList]
  refine Token.scans_word hc hcs hword ?_ ?_
  · rintro rfl
    cases hs
  · rintro rfl
    cases hs

theorem readsBack_null (place : Identity) : ReadsBack host place .null :=
  readsBack_constant (s := .constNone) rfl (by decide) (by decide) rfl rfl
    fun _ _ _ => ⟨.null, rfl, rfl⟩

theorem readsBack_bool (place : Identity) (b : Bool) : ReadsBack host place (.bool b) := by
  cases b with
  | false =>
    exact readsBack_constant (s := .constFalse) rfl (by decide) (by decide) rfl rfl
      fun _ _ _ => ⟨.bool false, rfl, rfl⟩
  | true =>
    exact readsBack_constant (s := .constTrue) rfl (by decide) (by decide) rfl rfl
      fun _ _ _ => ⟨.bool true, rfl, rfl⟩

/-- The sign of a negative number is an operator, which gives the number its sign back. -/
theorem readsBack_number (place : Identity) {x : Float} (h : x.isFinite = true) :
    ReadsBack host place (.number x) := by
  obtain ⟨negative, whole, fraction, hd, htext, hx⟩ := Decimal.plain_eq h
  cases negative with
  | false =>
    have hscans := Token.scans_number hd
    rw [← show _ = Decimal.pointText whole fraction from htext] at hscans
    refine ⟨Decimal.plain x, _, _, rfl, ⟨hscans, readsAs_literal rfl rfl, fun _ _ _ => ?_⟩⟩
    exact ⟨_, rfl, congrArg Value.number hx⟩
  | true =>
    -- the sign is a token of its own, so the number comes back by way of a negation
    have hscans := Token.scans_negative hd
    rw [← show _ = '-' :: Decimal.pointText whole fraction from htext] at hscans
    have hx : -Token.digitsNumber whole fraction = x := hx
    have hnegate : (Numeric.ofFloat (Token.digitsNumber whole fraction)).negate = .ofFloat x := by
      rw [Numeric.negate, Numeric.withSign, Numeric.ofFloat, hx, Number.isNaN_of_isFinite h]
      rfl
    refine ⟨Decimal.plain x, _, _, rfl, ⟨hscans, readsAs_negative _ _, fun _ _ _ => ?_⟩⟩
    exact ⟨_, rfl, congrArg Value.float hnegate⟩

theorem readsBack_str (place : Identity) {s : String}
    (h : ¬ ('\'' ∈ s.toList ∧ '"' ∈ s.toList)) : ReadsBack host place (.str s) := by
  have hscans := Token.scans_quoted h
  rw [← String.toList_ofList (l := Text.quoted s.toList)] at hscans
  refine ⟨quotedText s, _, _, rfl, ⟨hscans, readsAs_literal rfl rfl, fun _ _ _ => ?_⟩⟩
  refine ⟨.str s, ?_, rfl⟩
  rw [Expr.evalWith, Option.isSome_none, Text.decodeLiteral_quoted (Text.quoteFor_eq s.toList),
    String.ofList_toList]

/-! ## Containers -/

/-- The texts of several values with what they are read as at each stage. -/
theorem spells_items {place : Identity} {shapes : List Value}
    (h : ∀ v ∈ shapes, ReadsBack host place v) :
    ∃ parts tss es, reprItems host place shapes = .ok parts ∧
      List.Forall₂ Token.Scans (parts.map String.toList) tss ∧ List.Forall₂ ReadsAs tss es ∧
      List.Forall₂ (Expr.Evaluates host) es shapes := by
  induction shapes with
  | nil => exact ⟨[], [], [], rfl, .nil, .nil, .nil⟩
  | cons v rest ih =>
    obtain ⟨text, ts, e, hrepr, hv⟩ := h v (by simp)
    obtain ⟨parts, tss, es, hparts, hscans, hreads, hevals⟩ := ih fun w hw => h w (by simp [hw])
    refine ⟨text :: parts, ts :: tss, e :: es, ?_, .cons hv.scans hscans, .cons hv.reads hreads,
      .cons hv.evaluates hevals⟩
    rw [reprItems, hrepr, ok_bind, hparts]
    rfl

/-- The texts of the entries of a dict with what they are read as at each stage. -/
theorem spells_entries {place : Identity} {shapes : Records}
    (h : ∀ e ∈ shapes, ReadsBack host place e.key ∧ ReadsBack host place e.value) :
    ∃ parts tss ens, reprEntries host place shapes.pairs = .ok parts ∧
      List.Forall₂ Token.Scans (parts.map String.toList) tss ∧
      List.Forall₂ ReadsAsEntry tss ens ∧
      List.Forall₂ (Expr.EvaluatesEntry host) ens shapes := by
  induction shapes with
  | nil => exact ⟨[], [], [], rfl, .nil, .nil, .nil⟩
  | cons entry rest ih =>
    obtain ⟨⟨ktext, kts, k, hkrepr, hk⟩, ⟨vtext, vts, v, hvrepr, hv⟩⟩ := h entry (by simp)
    obtain ⟨parts, tss, ens, hparts, hscans, hreads, hevals⟩ := ih fun w hw => h w (by simp [hw])
    have htext : (ktext ++ ": " ++ vtext).toList = ktext.toList ++ ':' :: ' ' :: vtext.toList := by
      simp
    refine ⟨(ktext ++ ": " ++ vtext) :: parts, (kts ++ .symbol .colon :: vts) :: tss,
      (k, v) :: ens, ?_, .cons ?_ hscans, .cons ⟨kts, vts, rfl, hk.reads, hv.reads⟩ hreads,
      .cons ⟨hk.evaluates, hv.evaluates⟩ hevals⟩
    · rw [Records.pairs_cons, reprEntries, reprEntry, hkrepr, ok_bind, hvrepr, ok_bind, hparts]
      rfl
    · rw [htext]
      exact hk.scans.entry hv.scans

theorem toList_commaSeparated (parts : List String) :
    (commaSeparated parts).toList = List.intercalate [',', ' '] (parts.map String.toList) := by
  rw [commaSeparated, String.toList_intercalate]
  rfl

/-- Brackets around a piece, where they are read as a container of what the piece says. -/
theorem readsBack_bracketed {place : Identity} {shape : Value} {text : String} {o c : Char}
    {so sc : Symbol} {inner : List Char} {ts : List Token} {e : Expr}
    (hrepr : shape.repr host place = .ok text) (htext : text.toList = o :: (inner ++ [c]))
    (ho : (o, so) ∈ Token.marks) (hc : (c, sc) ∈ Token.marks) (hend : c ∈ Token.enders)
    (hscans : Token.Scans inner ts)
    (hopened : ∀ rest, forget (opened (.symbol so) (ts ++ .symbol sc :: rest)) = .ok (e, rest))
    (hvalue : e.Evaluates host shape) : ReadsBack host place shape := by
  have hall := hscans.bracketed ho hc hend
  rw [← htext] at hall
  refine ⟨text, _, e, hrepr, ⟨hall, readsAs_of_opened fun rest _ => ?_, hvalue⟩⟩
  rw [List.append_assoc, List.singleton_append]
  exact hopened rest

theorem readsBack_list {place : Identity} {shapes : List Value}
    (h : ∀ v ∈ shapes, ReadsBack host place v) :
    ReadsBack host place (.list .origin shapes) := by
  obtain ⟨parts, tss, es, hparts, hscans, hreads, hevals⟩ := spells_items h
  have htext : (listText parts).toList =
      '[' :: (List.intercalate [',', ' '] (parts.map String.toList) ++ [']']) := by
    rw [← toList_commaSeparated, listText]
    simp
  exact readsBack_bracketed (by rw [repr, hparts]; rfl) htext (by decide) (by decide) (by decide)
    (Token.scans_commaJoined hscans) (fun _ => opened_list hreads) (Expr.evaluates_list hevals)

theorem readsBack_dict {place : Identity} {shapes : Records} (hkeyed : shapes.Keyed)
    (h : ∀ e ∈ shapes, ReadsBack host place e.key ∧ ReadsBack host place e.value) :
    ReadsBack host place (.dict .origin shapes.dict) := by
  obtain ⟨parts, tss, ens, hparts, hscans, hreads, hevals⟩ := spells_entries h
  have htext : (dictText parts).toList =
      '\x7b' :: (List.intercalate [',', ' '] (parts.map String.toList) ++ ['\x7d']) := by
    rw [← toList_commaSeparated, dictText]
    simp
  have hrepr : Value.repr host place (.dict .origin shapes.dict) = .ok (dictText parts) := by
    rw [Records.dict, repr, hparts]
    rfl
  exact readsBack_bracketed hrepr htext (by decide) (by decide) (by decide)
    (Token.scans_commaJoined hscans) (fun _ => opened_dict hreads)
    (Expr.evaluates_dict hkeyed hevals)

/-- A tuple of one item is written with a comma, which makes it a tuple again. -/
theorem readsBack_single {place : Identity} {shape : Value} (h : ReadsBack host place shape) :
    ReadsBack host place (.tuple .origin [shape]) := by
  obtain ⟨text, ts, e, hrepr, hv⟩ := h
  have hopened : ∀ rest, forget (opened (.symbol .parenOpen)
      (ts ++ [.symbol .comma] ++ .symbol .parenClose :: rest)) = .ok (.tuple [e], rest) := by
    intro rest
    rw [List.append_assoc, List.singleton_append]
    exact opened_single hv.reads
  have htext : (tupleText [text]).toList = '(' :: (text.toList ++ [','] ++ [')']) := by
    simp [tupleText]
  exact readsBack_bracketed (by rw [repr, reprItems, hrepr]; rfl) htext (by decide) (by decide)
    (by decide) hv.scans.comma hopened (Expr.evaluates_tuple (.cons hv.evaluates .nil))

theorem readsBack_tuple {place : Identity} {shapes : List Value}
    (h : ∀ v ∈ shapes, ReadsBack host place v) :
    ReadsBack host place (.tuple .origin shapes) := by
  by_cases hlen : shapes.length = 1
  · -- only here is a comma written before the closing parenthesis
    obtain ⟨shape, rfl⟩ := List.length_eq_one_iff.mp hlen
    exact readsBack_single (h shape (by simp))
  · obtain ⟨parts, tss, es, hparts, hscans, hreads, hevals⟩ := spells_items h
    have hes : es.length ≠ 1 := fun h1 => hlen (hevals.length_eq ▸ h1)
    have hcount : parts.length ≠ 1 := by
      intro h1
      have := hscans.length_eq
      rw [List.length_map, hreads.length_eq] at this
      exact hes (this ▸ h1)
    have htuple : tupleText parts = "(" ++ commaSeparated parts ++ ")" := by
      match parts with
      | [] => rfl
      | [p] => exact absurd rfl hcount
      | p :: q :: more => rfl
    have htext : (tupleText parts).toList =
        '(' :: (List.intercalate [',', ' '] (parts.map String.toList) ++ [')']) := by
      rw [← toList_commaSeparated, htuple]
      simp
    exact readsBack_bracketed (by rw [repr, hparts]; rfl) htext (by decide) (by decide)
      (by decide) (Token.scans_commaJoined hscans) (fun _ => opened_tuple hreads hes)
      (Expr.evaluates_tuple hevals)

/-- The shape of every literal value is read back from its text. -/
theorem Literal.readsBack {v : Value} (h : v.Literal) (place : Identity) :
    ReadsBack host place v.shape := by
  refine h.inductionOnShape ?_ ?_ ?_ ?_ ?_ ?_ ?_
  · exact readsBack_null place
  · exact readsBack_bool place
  · exact fun _ hx => readsBack_number place hx
  · exact fun _ hs => readsBack_str place hs
  · exact fun _ ih => readsBack_tuple ih
  · exact fun _ ih => readsBack_list ih
  · exact fun _ keyed ih => readsBack_dict keyed ih

end Value

/-- The text of a literal value, evaluated in any context, gives an equal value. The two
have one shape: at every depth the entries of dicts stand in the same order. -/
theorem evalValue_repr (host : Host) (c : Context) (place site : Identity) {v : Value}
    (h : v.Literal) :
    ∃ text w, v.repr host place = .ok text ∧ evalValue host c site text = .ok w ∧
      w.equals host place v = .ok true ∧ w.shape = v.shape := by
  have hback : Value.ReadsBack host place v.shape := Value.Literal.readsBack h place
  obtain ⟨text, ts, e, hrepr, hspells⟩ := hback
  rw [Value.repr_shape] at hrepr
  have hcompile : compile text = .ok e := by
    rw [compile, Token.tokenize_of_scans hspells.scans, Except.mapError, ok_bind,
      parse_of_readsAs hspells.reads]
    rfl
  obtain ⟨w, heval, hshape⟩ := hspells.evaluates _ c site
  refine ⟨text, w, hrepr, ?_, h.equals_of_shape hshape, hshape⟩
  rw [evalValue, hcompile]
  exact heval

/-- A tuple of one negative number under a key with a quote, and a document. -/
def nestedRecord : Records :=
  [⟨.str "it's", .str "it's", .tuple .origin [.number (-1.5)]⟩,
    ⟨.bool true, .bool true, .nativeList .origin [.int 2, .null]⟩]

def nestedLiteral : Value :=
  .dict .origin nestedRecord.dict

theorem literal_nestedLiteral : nestedLiteral.Literal := by
  have key : (Value.str "it's").Literal := .str (by decide)
  have single : (Value.tuple .origin [.number (-1.5)]).Literal :=
    .tuple _ (by simpa using .number (by decide))
  have document : (Value.nativeList .origin [.int 2, .null]).Literal :=
    .nativeList _ (by simpa using ⟨.number (by decide), .null⟩)
  refine .dict _ ⟨?_, ?_, by decide⟩ ?_ ?_
  · simp [nestedRecord, Value.isHashable]
  · simpa [nestedRecord] using ⟨fun _ _ => rfl, fun _ _ => rfl⟩
  · simpa [nestedRecord] using ⟨key, .bool true⟩
  · simpa [nestedRecord] using ⟨single, document⟩

theorem evalValue_repr_nestedLiteral :
    nestedLiteral.Literal ∧
      ∃ text w, nestedLiteral.repr .idle .origin = .ok text ∧
        evalValue .idle [] .origin text = .ok w ∧
        w.equals .idle .origin nestedLiteral = .ok true ∧ w.shape = nestedLiteral.shape :=
  ⟨literal_nestedLiteral, evalValue_repr .idle [] .origin .origin literal_nestedLiteral⟩

end FilterLang
