import FilterLang.Proofs.Number.Nearest
import FilterLang.Proofs.Text.Splitting
import FilterLang.Proofs.Value.Literal
import FilterLang.Proofs.Value.Methods
/-!
The methods `split`, `join` and `replace` of texts cohere.

The pieces that `split` gives at a separator are joined to the text again, and to what `replace`
makes of it (`Cut`). Without a separator `split` gives the words of the text (`Words`). A limit is
any argument that counts as a whole number; a call without one has the limit `-1`, which is none.
-/

namespace FilterLang.Value

open Fallible

variable {host : Host} {site : Identity} {runBody : Expr → Table Value → Outcome Value}

/-! ## Limits -/

/-- The limit of a call that does not set one bounds nothing. -/
theorem limitOf_unset : StrMethod.limitOf (.int (-1)) = none := by
  have hinteger : (Value.int (-1)).integer? = some (-1) := by
    rw [int, number, integer?, Numeric.ofFloat]
    exact Number.integral?_ofInt (n := -1) (by decide)
  rw [StrMethod.limitOf, hinteger]
  rfl

theorem limitOf_of_integer? {limit : Value} {n : Nat} (h : limit.integer? = some (n : Int)) :
    StrMethod.limitOf limit = some n := by
  rw [StrMethod.limitOf, h]
  simp

/-! ## What the methods give -/

theorem send_split (s p : String) (hp : p ≠ "") (limit : Value) :
    (str s).send host site runBody "split" [.str p, limit] =
      .ok (.list site ((Text.splitOn p.toList (StrMethod.limitOf limit) s.toList).map
        StrMethod.ofChars)) := by
  have hsend : (str s).send host site runBody "split" [.str p, limit] =
      (if p.toList.isEmpty then .error (.value .emptySeparator)
        else .ok (Text.splitOn p.toList (StrMethod.limitOf limit) s.toList)) >>= fun pieces =>
          .ok (.list site (pieces.map StrMethod.ofChars)) :=
    send_str s .split [.str p, limit]
  have hempty : ¬ p.toList.isEmpty = true := by
    rwa [List.isEmpty_iff, String.toList_eq_nil_iff]
  rw [hsend, if_neg hempty]
  rfl

theorem send_split_words (s : String) (limit : Value) :
    (str s).send host site runBody "split" [.null, limit] =
      .ok (.list site ((Text.words (StrMethod.limitOf limit) s.toList).map StrMethod.ofChars)) :=
  send_str s .split [.null, limit]

theorem send_replace (s old new : String) (limit : Value) :
    (str s).send host site runBody "replace" [.str old, .str new, limit] =
      .ok (StrMethod.ofChars (Text.replace old.toList new.toList (StrMethod.limitOf limit)
        s.toList)) :=
  send_str s .replace [.str old, .str new, limit]

theorem texts_map_ofChars (index : Nat) (pieces : List (List Char)) :
    StrMethod.texts index (pieces.map StrMethod.ofChars) = .ok pieces := by
  induction pieces generalizing index with
  | nil => rfl
  | cons piece rest ih =>
    rw [List.map_cons, StrMethod.ofChars, StrMethod.texts, ih, String.toList_ofList]
    rfl

theorem send_join (sep : String) (id : Identity) (pieces : List (List Char)) :
    (str sep).send host site runBody "join" [.list id (pieces.map StrMethod.ofChars)] =
      .ok (StrMethod.ofChars (Text.joinWith sep.toList pieces)) := by
  have hsend : (str sep).send host site runBody "join"
        [.list id (pieces.map StrMethod.ofChars)] =
      StrMethod.texts 0 (pieces.map StrMethod.ofChars) >>= fun texts =>
        .ok (StrMethod.ofChars (Text.joinWith sep.toList texts)) :=
    send_str sep .join [.list id (pieces.map StrMethod.ofChars)]
  rw [hsend, texts_map_ofChars]
  rfl

theorem map_ofChars (pieces : List (List Char)) :
    pieces.map StrMethod.ofChars = (pieces.map String.ofList).map str := by
  rw [List.map_map]
  rfl

theorem ofChars_toList (s : String) : StrMethod.ofChars s.toList = .str s := by
  rw [StrMethod.ofChars, String.ofList_toList]

/-! ## Pieces at a separator -/

/-- The pieces of a text at a separator: what `split` gives, `join` puts together again and
`replace` joins with another text. The arguments `limit` may set a limit. -/
structure Cut (host : Host) (site : Identity) (runBody : Expr → Table Value → Outcome Value)
    (s p : String) (limit : List Value) (pieces : List String) : Prop where
  split : (str s).send host site runBody "split" (.str p :: limit) =
    .ok (.list site (pieces.map str))
  join : ∀ place, (str p).send host place runBody "join" [.list site (pieces.map str)] =
    .ok (.str s)
  replace : ∀ r place, ∃ text,
    (str s).send host place runBody "replace" (.str p :: .str r :: limit) = .ok (.str text) ∧
    (str r).send host place runBody "join" [.list site (pieces.map str)] = .ok (.str text)

section Cut

variable {s p : String}

theorem cut_splitOn (hp : p ≠ "") (limit : Value) :
    Cut host site runBody s p [limit]
      ((Text.splitOn p.toList (StrMethod.limitOf limit) s.toList).map String.ofList) := by
  have hpieces : p.toList ≠ [] := fun h => hp (String.toList_eq_nil_iff.mp h)
  refine ⟨?_, fun place => ?_, fun r place => ⟨_, send_replace s p r limit, ?_⟩⟩
  · rw [send_split s p hp, map_ofChars]
  · rw [← map_ofChars, send_join, Text.joinWith_splitOn, ofChars_toList]
  · rw [← map_ofChars, send_join, Text.joinWith_splitOn_new hpieces]
    rfl

/-- A call that sets no limit is the call with the limit `-1`. -/
theorem Cut.of_unset {pieces : List String}
    (h : Cut host site runBody s p [.int (-1)] pieces) : Cut host site runBody s p [] pieces :=
  ⟨h.split, h.join, h.replace⟩

theorem not_infix_of_mem_take (hp : p ≠ "") {bound : Option Nat} {n : Nat}
    (hn : ∀ m ∈ bound, n ≤ m) {piece : String}
    (h : piece ∈ ((Text.splitOn p.toList bound s.toList).map String.ofList).take n) :
    ¬ p.toList <:+: piece.toList := by
  obtain ⟨i, hi⟩ := List.mem_iff_getElem?.mp h
  rw [List.getElem?_take] at hi
  split at hi
  · next hlt =>
    rw [List.getElem?_map] at hi
    obtain ⟨chars, hchars, rfl⟩ := Option.map_eq_some_iff.mp hi
    rw [String.toList_ofList]
    exact Text.not_infix_of_splitOn (fun h => hp (String.toList_eq_nil_iff.mp h)) _ _ hchars
      fun m hm => hlt.trans_le (hn m hm)
  · cases hi

end Cut

/-! ## Words -/

/-- The words of a text: what `split` gives without a separator. -/
structure Words (host : Host) (site : Identity) (runBody : Expr → Table Value → Outcome Value)
    (s : String) (words : List String) : Prop where
  split : (str s).send host site runBody "split" [] = .ok (.list site (words.map str))
  word : ∀ w ∈ words, w ≠ "" ∧ ∀ c ∈ w.toList, Text.isBlank c = false
  letters : (words.map String.toList).flatten = s.toList.filter fun c => !Text.isBlank c
  again : ∃ text,
    (∀ place, (str " ").send host place runBody "join" [.list site (words.map str)] =
      .ok (.str text)) ∧
    ∀ place, (str text).send host place runBody "split" [] = .ok (.list place (words.map str))
  limited : ∀ limit (n : Nat), limit.integer? = some (n : Int) → ∃ pieces : List String,
    (str s).send host site runBody "split" [.null, limit] = .ok (.list site (pieces.map str)) ∧
    pieces.length ≤ n + 1 ∧ pieces.take n = words.take n

theorem send_split_unset (s : String) :
    (str s).send host site runBody "split" [] =
      .ok (.list site (((Text.words none s.toList).map String.ofList).map str)) := by
  have hsend : (str s).send host site runBody "split" [] =
      (str s).send host site runBody "split" [.null, .int (-1)] := rfl
  rw [hsend, send_split_words, limitOf_unset, map_ofChars]

theorem words_split (s : String) :
    Words host site runBody s ((Text.words none s.toList).map String.ofList) := by
  have hword : ∀ w ∈ Text.words none s.toList, Text.IsWord w := fun w => Text.isWord_of_mem_words
  refine ⟨send_split_unset s, List.forall_mem_map.mpr fun w hw => ?_, ?_, ?_, ?_⟩
  · obtain ⟨hne, hblank⟩ := hword w hw
    rw [Ne, ← String.toList_eq_nil_iff, String.toList_ofList]
    exact ⟨hne, hblank⟩
  · have hid : String.toList ∘ String.ofList = id := funext fun _ => String.toList_ofList
    rw [← Text.flatten_words, List.map_map, hid, List.map_id]
  · refine ⟨String.ofList (Text.joinWith " ".toList (Text.words none s.toList)), fun place => ?_,
      fun place => ?_⟩
    · rw [← map_ofChars, send_join]
      rfl
    · rw [send_split_unset, String.toList_ofList]
      have hblank : Text.isBlank ' ' = true := rfl
      have hagain : Text.words none (Text.joinWith " ".toList (Text.words none s.toList)) =
          Text.words none s.toList := Text.words_joinWith hblank hword
      rw [hagain]
  · intro limit n hn
    obtain ⟨hlength, htake⟩ := Text.words_limit n s.toList
    refine ⟨(Text.words (some n) s.toList).map String.ofList, ?_, ?_, ?_⟩
    · rw [send_split_words, limitOf_of_integer? hn, map_ofChars]
    · rw [List.length_map]
      exact hlength
    · rw [← List.map_take, htake, List.map_take]

/-- `split`, `join` and `replace` cohere. The pieces at a separator have no separator in them, are
joined to the text and, with another text between them, to what `replace` makes of it; a limit
leaves at most one more piece than cuts, and all but that one are as before. The words are all of
the text but its blanks; joined by blanks they are the words again; and with a limit the pieces
before it are the words. -/
theorem split_join_replace_cohere (host : Host) (site : Identity)
    (runBody : Expr → Table Value → Outcome Value) (s : String) :
    (∀ p, p ≠ "" →
      (∃ pieces, Cut host site runBody s p [] pieces ∧
        ∀ piece ∈ pieces, ¬ p.toList <:+: piece.toList) ∧
      ∀ limit (n : Nat), limit.integer? = some (n : Int) → ∃ pieces,
        Cut host site runBody s p [limit] pieces ∧ pieces.length ≤ n + 1 ∧
          ∀ piece ∈ pieces.take n, ¬ p.toList <:+: piece.toList) ∧
      ∃ words, Words host site runBody s words := by
  refine ⟨fun p hp => ⟨⟨_, (cut_splitOn hp (.int (-1))).of_unset, fun piece h => ?_⟩,
    fun limit n hn => ⟨_, cut_splitOn hp limit, ?_, fun piece => ?_⟩⟩, _, words_split s⟩
  · rw [limitOf_unset] at h
    rw [← List.take_length (l := List.map _ _)] at h
    exact not_infix_of_mem_take hp (by simp) h
  · rw [limitOf_of_integer? hn, List.length_map]
    exact Text.length_splitOn_le _ _ _
  · rw [limitOf_of_integer? hn]
    exact not_infix_of_mem_take hp (by simp)

theorem str_injective : Function.Injective str :=
  fun _ _ h => str.inj h

/-- A separator that stands at both ends of a text and overlaps with itself, one that is replaced
once, and a text that is cut after its first word. -/
theorem split_join_replace_cohere_overlapping :
    "aa" ≠ "" ∧ (Value.bool true).integer? = some ((1 : Nat) : Int) ∧
      Cut .idle .origin (fun _ _ => .error .tooDeep) "aaabaa" "aa" [] ["", "ab", ""] ∧
      Cut .idle .origin (fun _ _ => .error .tooDeep) "aaabaa" "aa" [.bool true] ["", "abaa"] ∧
      ∃ pieces : List String,
        (str " b c d").send .idle .origin (fun _ _ => .error .tooDeep) "split"
          [.null, .bool true] = .ok (.list .origin (pieces.map str)) ∧
        pieces.length ≤ 2 := by
  have hp : "aa" ≠ "" := by decide
  obtain ⟨⟨pieces, hcut, _⟩, hlimited⟩ := (split_join_replace_cohere .idle .origin
    (fun _ _ => .error .tooDeep) "aaabaa").1 "aa" hp
  obtain ⟨limited, hlimit, _⟩ := hlimited (.bool true) 1 rfl
  obtain ⟨words, hwords⟩ := (split_join_replace_cohere .idle .origin
    (fun _ _ => .error .tooDeep) " b c d").2
  obtain ⟨few, hfew, hlength, _⟩ := hwords.limited (.bool true) 1 rfl
  -- what `split` gives tells which pieces are meant
  have hall : (str "aaabaa").send .idle .origin (fun _ _ => .error .tooDeep) "split" [.str "aa"] =
      .ok (.list .origin (["", "ab", ""].map str)) := by with_unfolding_all rfl
  have hone : (str "aaabaa").send .idle .origin (fun _ _ => .error .tooDeep) "split"
      [.str "aa", .bool true] = .ok (.list .origin (["", "abaa"].map str)) := by
    with_unfolding_all rfl
  rw [hcut.split, Except.ok.injEq, Value.list.injEq] at hall
  rw [hlimit.split, Except.ok.injEq, Value.list.injEq] at hone
  obtain rfl := str_injective.list_map hall.2
  obtain rfl := str_injective.list_map hone.2
  exact ⟨hp, rfl, hcut, hlimit, few, hfew, hlength⟩

end FilterLang.Value
