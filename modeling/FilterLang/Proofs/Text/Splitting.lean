import FilterLang.Text.Blank
import FilterLang.Text.Split
import Mathlib.Data.List.Infix
import Mathlib.Data.List.TakeWhile
/-!
Texts that are cut into pieces and put together again.

Cutting at a separator loses nothing (`joinWith_splitOn`) and leaves no separator in the pieces
(`not_infix_of_splitOn`); replacing a part is cutting at it and joining with another
(`joinWith_splitOn_new`). Words are what is left of a text without its blanks (`flatten_words`),
and joining them with blanks gives a text of the same words (`words_joinWith`).
-/

namespace FilterLang.Text

/-! ## The first place of a separator -/

section Cut

variable {sep s before after : List Char}

theorem eq_append_of_cut? (h : cut? sep s = some (before, after)) : s = before ++ sep ++ after := by
  induction s generalizing before with
  | nil => cases h
  | cons c rest ih =>
    rw [cut?] at h
    split at h
    · next hprefix =>
      obtain ⟨rfl, rfl⟩ := Prod.mk.inj (Option.some.inj h)
      exact (List.prefix_iff_eq_append.mp (List.isPrefixOf_iff_prefix.mp hprefix)).symm
    · obtain ⟨⟨b, a⟩, hrest, heq⟩ := Option.map_eq_some_iff.mp h
      obtain ⟨rfl, rfl⟩ := Prod.mk.inj heq
      rw [List.cons_append, List.cons_append, ← ih hrest]

/-- The separator does not stand before its first place. -/
theorem not_infix_of_cut? (hs : sep ≠ []) (h : cut? sep s = some (before, after)) :
    ¬ sep <:+: before := by
  induction s generalizing before with
  | nil => cases h
  | cons c rest ih =>
    rw [cut?] at h
    split at h
    · obtain ⟨rfl, -⟩ := Prod.mk.inj (Option.some.inj h)
      exact fun hinfix => hs (List.infix_nil.mp hinfix)
    · next hprefix =>
      obtain ⟨⟨b, a⟩, hrest, heq⟩ := Option.map_eq_some_iff.mp h
      obtain ⟨rfl, rfl⟩ := Prod.mk.inj heq
      rw [List.infix_cons_iff, not_or]
      refine ⟨fun hb => hprefix (List.isPrefixOf_iff_prefix.mpr (hb.trans ?_)), ih hrest⟩
      rw [eq_append_of_cut? hrest, List.append_assoc]
      exact List.prefix_append (c :: b) _

/-- A text in which no first place is found has none. -/
theorem not_infix_of_cut?_none (hs : sep ≠ []) (h : cut? sep s = none) : ¬ sep <:+: s := by
  induction s with
  | nil => exact fun hinfix => hs (List.infix_nil.mp hinfix)
  | cons c rest ih =>
    rw [cut?] at h
    split at h
    · cases h
    · next hprefix =>
      rw [List.infix_cons_iff, not_or]
      exact ⟨fun hc => hprefix (List.isPrefixOf_iff_prefix.mpr hc), ih (Option.map_eq_none_iff.mp h)⟩

end Cut

/-! ## Pieces -/

theorem splitOn_ne_nil (sep : List Char) (limit : Option Nat) (s : List Char) :
    splitOn sep limit s ≠ [] := by
  fun_cases splitOn sep limit s <;> simp

/-- Pieces that are joined with their separator are the text they were cut from. -/
theorem joinWith_splitOn (sep : List Char) (limit : Option Nat) (s : List Char) :
    joinWith sep (splitOn sep limit s) = s := by
  fun_induction splitOn sep limit s with
  | case1 | case2 | case3 => exact List.append_nil _
  | case4 limit s hs hlimit before after hcut ih =>
    rw [joinWith, List.intercalate_cons_of_ne_nil (splitOn_ne_nil _ _ _), eq_append_of_cut? hcut]
    exact congrArg (before ++ sep ++ ·) ih

/-- Pieces that are joined with another text have it in place of the separator. -/
theorem joinWith_splitOn_new {old : List Char} (ho : old ≠ []) (new : List Char)
    (limit : Option Nat) (s : List Char) :
    joinWith new (splitOn old limit s) = replace old new limit s := by
  rw [replace, if_neg ho]
  fun_induction splitOn old limit s with
  | case1 _ _ hs => exact absurd hs ho
  | case2 s hs =>
    rw [substitute, dif_neg hs, if_pos rfl]
    exact List.append_nil _
  | case3 limit s hs hlimit hcut =>
    rw [substitute, dif_neg hs, if_neg hlimit]
    split
    · exact List.append_nil _
    · next hsome => rw [hcut] at hsome; cases hsome
  | case4 limit s hs hlimit before after hcut ih =>
    rw [joinWith, List.intercalate_cons_of_ne_nil (splitOn_ne_nil _ _ _), substitute, dif_neg hs,
      if_neg hlimit]
    split
    · next hnone => rw [hcut] at hnone; cases hnone
    · next hsome =>
      rw [hcut] at hsome
      obtain ⟨rfl, rfl⟩ := Prod.mk.inj (Option.some.inj hsome)
      exact congrArg (before ++ new ++ ·) ih

/-- No piece before the limit has the separator in it. -/
theorem not_infix_of_splitOn {sep : List Char} (hs : sep ≠ []) (limit : Option Nat) (s : List Char)
    {i : Nat} {piece : List Char} (h : (splitOn sep limit s)[i]? = some piece)
    (hi : ∀ n ∈ limit, i < n) : ¬ sep <:+: piece := by
  fun_induction splitOn sep limit s generalizing i with
  | case1 _ _ hs' => exact absurd hs' hs
  | case2 => exact absurd (hi 0 rfl) (Nat.not_lt_zero i)
  | case3 limit s _ _ hcut =>
    obtain rfl := List.mem_singleton.mp (List.mem_of_getElem? h)
    exact not_infix_of_cut?_none hs hcut
  | case4 limit s _ _ before after hcut ih =>
    cases i with
    | zero =>
      obtain rfl := Option.some.inj h
      exact not_infix_of_cut? hs hcut
    | succ i =>
      refine ih h fun n hn => ?_
      obtain ⟨m, hm, rfl⟩ := Option.map_eq_some_iff.mp hn
      have := hi m hm
      omega

/-- A limit bounds the number of cuts. -/
theorem length_splitOn_le (sep : List Char) (n : Nat) (s : List Char) :
    (splitOn sep (some n) s).length ≤ n + 1 := by
  generalize hlimit : some n = limit
  fun_induction splitOn sep limit s generalizing n with
  | case1 | case2 | case3 => simp
  | case4 limit s _ hne before after hcut ih =>
    subst hlimit
    have hrest : (splitOn sep (some (n - 1)) after).length ≤ n - 1 + 1 := ih (n - 1) rfl
    have hn : n ≠ 0 := fun h => hne (congrArg some h)
    rw [List.length_cons, Option.map_some]
    omega

/-! ## Words -/

/-- A piece without blanks that is not empty. -/
def IsWord (w : List Char) : Prop :=
  w ≠ [] ∧ ∀ c ∈ w, isBlank c = false

/-- A text of blanks has no words. -/
theorem words_of_blanks {s : List Char} (h : s.dropWhile isBlank = []) (limit : Option Nat) :
    words limit s = [] := by
  rw [words.eq_def]
  split
  · rfl
  · next hcons => rw [h] at hcons; cases hcons

/-- After its blanks, a text goes on with its first word. -/
theorem words_of_cons {c : Char} {s rest : List Char} (h : s.dropWhile isBlank = c :: rest)
    {limit : Option Nat} (hlimit : limit ≠ some 0) :
    words limit s = (c :: rest.takeWhile fun d => !isBlank d) ::
      words (limit.map (· - 1)) (rest.dropWhile fun d => !isBlank d) := by
  rw [words.eq_def]
  split
  · next hnil => rw [h] at hnil; cases hnil
  · next hcons =>
    rw [h] at hcons
    obtain ⟨rfl, rfl⟩ := List.cons.inj hcons
    split
    · exact absurd rfl hlimit
    · rfl

theorem isBlank_head {c : Char} {s rest : List Char} (h : s.dropWhile isBlank = c :: rest) :
    isBlank c = false := by
  have hhead := List.head?_dropWhile_not isBlank s
  rwa [h] at hhead

/-- Blanks at the start of a text are not seen. -/
theorem words_cons_of_isBlank {c : Char} (hc : isBlank c = true) (limit : Option Nat)
    (s : List Char) : words limit (c :: s) = words limit s := by
  rw [words.eq_def, words.eq_def limit s, List.dropWhile_cons_of_pos hc]

/-- The first word of a text is one. -/
theorem isWord_takeWhile {c : Char} {s rest : List Char} (h : s.dropWhile isBlank = c :: rest) :
    IsWord (c :: rest.takeWhile fun d => !isBlank d) := by
  refine ⟨by simp, fun d hd => ?_⟩
  rcases List.mem_cons.mp hd with rfl | hd
  · exact isBlank_head h
  · simpa using List.mem_takeWhile_imp hd

theorem isWord_of_mem_words {s w : List Char} (h : w ∈ words none s) : IsWord w := by
  generalize hlimit : (none : Option Nat) = limit at h
  fun_induction words limit s with
  | case1 => cases h
  | case2 => cases hlimit
  | case3 limit s c rest hs tail _ ih =>
    subst hlimit
    rcases List.mem_cons.mp h with rfl | h
    · exact isWord_takeWhile hs
    · exact ih rfl h

/-- A text without its blanks at the start has the same other characters. -/
theorem filter_dropWhile_isBlank (s : List Char) :
    (s.dropWhile isBlank).filter (fun c => !isBlank c) = s.filter fun c => !isBlank c := by
  induction s with
  | nil => rfl
  | cons c rest ih =>
    cases hc : isBlank c with
    | true => rw [List.dropWhile_cons_of_pos hc, ih, List.filter_cons_of_neg (by simp [hc])]
    | false => rw [List.dropWhile_cons_of_neg (by simp [hc])]

theorem filter_isWord {w : List Char} (h : IsWord w) : w.filter (fun c => !isBlank c) = w :=
  List.filter_eq_self.mpr fun c hc => by simp [h.2 c hc]

/-- The words are all of a text but its blanks. -/
theorem flatten_words (s : List Char) :
    (words none s).flatten = s.filter fun c => !isBlank c := by
  generalize hlimit : (none : Option Nat) = limit
  fun_induction words limit s with
  | case1 limit s hs => rw [← filter_dropWhile_isBlank, hs]; rfl
  | case2 => cases hlimit
  | case3 limit s c rest hs tail _ ih =>
    subst hlimit
    have hword := isWord_takeWhile hs
    have htail : (words none tail).flatten = tail.filter fun d => !isBlank d := ih rfl
    calc ((c :: rest.takeWhile fun d => !isBlank d) :: words none tail).flatten
        = (c :: rest.takeWhile fun d => !isBlank d) ++ tail.filter fun d => !isBlank d := by
          rw [List.flatten_cons, htail]
      _ = ((c :: rest.takeWhile fun d => !isBlank d) ++ tail).filter fun d => !isBlank d := by
          rw [List.filter_append, filter_isWord hword]
      _ = (c :: rest).filter fun d => !isBlank d := by
          rw [List.cons_append, List.takeWhile_append_dropWhile]
      _ = s.filter fun d => !isBlank d := by
          rw [← hs, filter_dropWhile_isBlank]

/-- With a limit there is at most one piece more, and the pieces before the limit are the words. -/
theorem words_limit (n : Nat) (s : List Char) :
    (words (some n) s).length ≤ n + 1 ∧ (words (some n) s).take n = (words none s).take n := by
  generalize hlimit : some n = limit
  fun_induction words limit s generalizing n with
  | case1 limit s hs =>
    rw [words_of_blanks hs]
    simp
  | case2 s c rest hs =>
    obtain rfl := Option.some.inj hlimit
    simp
  | case3 limit s c rest hs tail hne ih =>
    subst hlimit
    obtain ⟨n, rfl⟩ : ∃ m, n = m + 1 := Nat.exists_eq_succ_of_ne_zero fun h => hne (congrArg some h)
    obtain ⟨hlength, htake⟩ := ih n rfl
    rw [words_of_cons hs (by simp), List.take_succ_cons, List.take_succ_cons, htake]
    exact ⟨Nat.succ_le_succ hlength, rfl⟩

/-- A word is followed by the words after the blanks that end it. -/
theorem words_append {w : List Char} (hw : IsWord w) {s : List Char}
    (hs : ∀ c ∈ s.head?, isBlank c = true) : words none (w ++ s) = w :: words none s := by
  obtain ⟨hne, hword⟩ := hw
  obtain ⟨c, w, rfl⟩ := List.exists_cons_of_ne_nil hne
  have hdrop : (c :: w ++ s).dropWhile isBlank = c :: (w ++ s) :=
    List.dropWhile_cons_of_neg (by simp [hword c (by simp)])
  have hrest : ∀ d ∈ w, (!isBlank d) = true := fun d hd => by simp [hword d (by simp [hd])]
  rw [words_of_cons hdrop (by simp), List.takeWhile_append_of_pos hrest,
    List.dropWhile_append_of_pos hrest]
  cases s with
  | nil => simp
  | cons b s =>
    have hb : isBlank b = true := hs b rfl
    rw [List.takeWhile_cons_of_neg (by simp [hb]), List.dropWhile_cons_of_neg (by simp [hb]),
      List.append_nil]
    rfl

/-- Words with a blank between them are the words of the text that they make. -/
theorem words_joinWith {blank : Char} (hblank : isBlank blank = true) {ws : List (List Char)}
    (h : ∀ w ∈ ws, IsWord w) : words none (joinWith [blank] ws) = ws := by
  induction ws with
  | nil => exact words_of_blanks rfl none
  | cons w rest ih =>
    have hw := h w (by simp)
    have ih := ih fun u hu => h u (by simp [hu])
    cases rest with
    | nil =>
      have hjoin : joinWith [blank] [w] = w ++ [] := rfl
      rw [hjoin, words_append hw (by simp), words_of_blanks rfl]
    | cons u rest =>
      have hjoin : joinWith [blank] (w :: u :: rest) =
          w ++ blank :: joinWith [blank] (u :: rest) := by
        rw [joinWith, List.intercalate_cons_cons, List.append_assoc]
        rfl
      calc words none (joinWith [blank] (w :: u :: rest))
          = w :: words none (blank :: joinWith [blank] (u :: rest)) := by
            rw [hjoin, words_append hw (by simp [hblank])]
        _ = w :: words none (joinWith [blank] (u :: rest)) := by
            rw [words_cons_of_isBlank hblank]
        _ = w :: u :: rest := by
            rw [ih]

end FilterLang.Text
