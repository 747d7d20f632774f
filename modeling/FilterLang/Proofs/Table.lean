import FilterLang.Table
import Mathlib.Data.String.Basic
/-!
Tables whose names stand in order.

Setting an entry keeps the order (`ordered_insert`), and a table in order is known by what
it has under each name (`eq_of_get?`). So two ways to fill a table are compared name by
name: an overlay has under a name what was set there last, and else what the table had
(`get?_overlay`). That makes overlays associative (`overlay_overlay`).
-/

namespace FilterLang.Table

variable {α β : Type}

/-- The names of a table stand in order, each once. -/
def Ordered (t : Table α) : Prop :=
  (names t).Pairwise (· < ·)

theorem ordered_nil : Ordered ([] : Table α) := List.Pairwise.nil

theorem ordered_cons {n : String} {a : α} {t : Table α} :
    Ordered ((n, a) :: t) ↔ (∀ e ∈ t, n < e.1) ∧ Ordered t := by
  simp only [Ordered, names, List.map_cons, List.pairwise_cons, List.mem_map,
    forall_exists_index, and_imp, forall_apply_eq_imp_iff₂]

/-! ## Entries by name -/

theorem get?_cons (n : String) (a : α) (t : Table α) (name : String) :
    get? ((n, a) :: t) name = if n = name then some a else get? t name := rfl

theorem get?_insert (t : Table α) (n : String) (a : α) (name : String) :
    get? (insert t n a) name = if name = n then some a else get? t name := by
  by_cases h : name = n
  · subst h
    rw [get?_insert_self, if_pos rfl]
  · rw [get?_insert_of_ne t a h, if_neg h]

theorem get?_eq_none {t : Table α} {name : String} (h : ∀ e ∈ t, e.1 ≠ name) :
    get? t name = none := by
  induction t with
  | nil => rfl
  | cons e t ih =>
    obtain ⟨n, a⟩ := e
    rw [get?_cons, if_neg (h (n, a) (by simp))]
    exact ih fun e he => h e (by simp [he])

theorem mem_of_get? {t : Table α} {name : String} {a : α} (h : get? t name = some a) :
    (name, a) ∈ t := by
  induction t with
  | nil => cases h
  | cons e t ih =>
    obtain ⟨n, b⟩ := e
    rw [get?_cons] at h
    by_cases hn : n = name
    · rw [if_pos hn] at h
      cases h
      simp [hn]
    · rw [if_neg hn] at h
      exact List.mem_cons_of_mem _ (ih h)

/-- The names of a table are those that have an entry. -/
theorem mem_names_iff {t : Table α} {name : String} :
    name ∈ names t ↔ ∃ a, get? t name = some a := by
  induction t with
  | nil => simp [names]
  | cons e t ih =>
    obtain ⟨n, b⟩ := e
    rw [names, List.map_cons, List.mem_cons, get?_cons]
    by_cases h : n = name
    · rw [if_pos h]
      exact iff_of_true (Or.inl h.symm) ⟨b, rfl⟩
    · rw [if_neg h, ← ih]
      exact or_iff_right fun heq => h heq.symm

theorem get?_map (f : String → α → β) (t : Table α) (name : String) :
    get? (t.map fun e => (e.1, f e.1 e.2)) name = (get? t name).map (f name) := by
  induction t with
  | nil => rfl
  | cons e t ih =>
    obtain ⟨n, a⟩ := e
    rw [List.map_cons, get?_cons, get?_cons, ih]
    by_cases h : n = name
    · subst h
      simp
    · simp [h]

theorem get?_filter (p : String → Bool) (t : Table α) (name : String) :
    get? (t.filter fun e => p e.1) name = if p name then get? t name else none := by
  induction t with
  | nil => simp
  | cons e t ih =>
    obtain ⟨n, a⟩ := e
    rw [List.filter_cons, get?_cons]
    by_cases hp : p n
    · rw [if_pos hp, get?_cons, ih]
      by_cases h : n = name
      · subst h
        simp [hp]
      · simp [h]
    · rw [if_neg hp, ih]
      by_cases h : n = name
      · subst h
        simp [hp]
      · simp [h]

/-- A table in order has nothing under a name before its first. -/
theorem get?_of_lt_head {n : String} {a : α} {t : Table α} (h : Ordered ((n, a) :: t))
    {name : String} (hname : name < n) : get? ((n, a) :: t) name = none := by
  refine get?_eq_none fun e he heq => ?_
  rcases List.mem_cons.mp he with rfl | he
  · exact lt_irrefl name (heq ▸ hname)
  · exact lt_irrefl name (heq ▸ hname.trans ((ordered_cons.mp h).1 e he))

theorem get?_tail {n : String} {a : α} {t : Table α} (h : Ordered ((n, a) :: t)) :
    get? t n = none := by
  refine get?_eq_none fun e he heq => ?_
  exact lt_irrefl n (heq ▸ (ordered_cons.mp h).1 e he)

/-- A table in order is known by what it has under each name. -/
theorem eq_of_get? {t u : Table α} (ht : Ordered t) (hu : Ordered u)
    (h : ∀ name, get? t name = get? u name) : t = u := by
  induction t generalizing u with
  | nil =>
    cases u with
    | nil => rfl
    | cons e u =>
      have := h e.1
      simp [get?] at this
  | cons e t ih =>
    obtain ⟨n, a⟩ := e
    cases u with
    | nil =>
      have := h n
      simp [get?] at this
    | cons d u =>
      obtain ⟨m, b⟩ := d
      -- the first name of either table would be missing from the other
      have hnm : n = m := by
        rcases lt_trichotomy n m with hlt | heq | hlt
        · have hmissing := get?_of_lt_head hu hlt
          rw [← h n, get?_cons, if_pos rfl] at hmissing
          cases hmissing
        · exact heq
        · have hmissing := get?_of_lt_head ht hlt
          rw [h m, get?_cons, if_pos rfl] at hmissing
          cases hmissing
      subst hnm
      have hab : a = b := by
        have := h n
        rw [get?_cons, get?_cons, if_pos rfl, if_pos rfl] at this
        exact Option.some.inj this
      subst hab
      have htail : t = u := by
        refine ih (ordered_cons.mp ht).2 (ordered_cons.mp hu).2 fun name => ?_
        by_cases hname : n = name
        · subst hname
          rw [get?_tail ht, get?_tail hu]
        · have := h name
          rwa [get?_cons, get?_cons, if_neg hname, if_neg hname] at this
      rw [htail]

/-! ## Order -/

theorem mem_insert {t : Table α} {n : String} {a : α} {e : String × α} (h : e ∈ insert t n a) :
    e = (n, a) ∨ e ∈ t := by
  induction t with
  | nil => exact Or.inl (List.mem_singleton.mp h)
  | cons d t ih =>
    obtain ⟨m, b⟩ := d
    unfold insert at h
    split at h
    · rcases List.mem_cons.mp h with h | h
      · exact Or.inl h
      · exact Or.inr (List.mem_cons_of_mem _ h)
    · split at h
      · exact List.mem_cons.mp h
      · rcases List.mem_cons.mp h with h | h
        · exact Or.inr (h ▸ List.mem_cons_self)
        · exact (ih h).imp_right (List.mem_cons_of_mem _)

/-- What holds of all entries of two tables holds of all entries of one on top of the other. -/
theorem forall_overlay {P : α → Prop} {t : Table α} (ht : ∀ e ∈ t, P e.2)
    {other : List (String × α)} (hother : ∀ e ∈ other, P e.2) : ∀ e ∈ overlay t other, P e.2 := by
  induction other generalizing t with
  | nil => exact ht
  | cons o rest ih =>
    refine ih (t := insert t o.1 o.2) (fun e he => ?_) fun e he => hother e (by simp [he])
    rcases mem_insert he with rfl | he
    · exact hother o (by simp)
    · exact ht e he

theorem ordered_insert {t : Table α} (ht : Ordered t) (n : String) (a : α) :
    Ordered (insert t n a) := by
  induction t with
  | nil => exact ordered_cons.mpr ⟨by simp, ordered_nil⟩
  | cons d t ih =>
    obtain ⟨m, b⟩ := d
    obtain ⟨hm, ht⟩ := ordered_cons.mp ht
    unfold insert
    split
    · next heq =>
      subst heq
      exact ordered_cons.mpr ⟨hm, ht⟩
    · next hne =>
      split
      · next hlt =>
        refine ordered_cons.mpr ⟨fun e he => ?_, ordered_cons.mpr ⟨hm, ht⟩⟩
        rcases List.mem_cons.mp he with rfl | he
        · exact hlt
        · exact hlt.trans (hm e he)
      · next hnot =>
        refine ordered_cons.mpr ⟨fun e he => ?_, ih ht⟩
        rcases mem_insert he with rfl | he
        · exact lt_of_le_of_ne (not_lt.mp hnot) hne
        · exact hm e he

theorem ordered_overlay {t : Table α} (ht : Ordered t) (other : List (String × α)) :
    Ordered (overlay t other) := by
  induction other generalizing t with
  | nil => exact ht
  | cons e other ih => exact ih (ordered_insert ht e.1 e.2)

theorem ordered_map {t : Table α} (ht : Ordered t) (f : String → α → β) :
    Ordered (t.map fun e => (e.1, f e.1 e.2)) := by
  rw [Ordered, names, List.map_map]
  exact ht

theorem ordered_filter {t : Table α} (ht : Ordered t) (p : String × α → Bool) :
    Ordered (t.filter p) :=
  List.Pairwise.sublist (List.filter_sublist.map _) ht

/-! ## Overlays -/

/-- An overlay has what was set under a name last, and else what was there before. -/
theorem get?_overlay (t : Table α) (other : List (String × α)) (name : String) :
    get? (overlay t other) name = (get? (ofList other) name).or (get? t name) := by
  induction other generalizing t with
  | nil => rfl
  | cons e other ih =>
    have hstep : ∀ u : Table α, overlay u (e :: other) = overlay (insert u e.1 e.2) other :=
      fun _ => rfl
    rw [ofList, hstep, hstep, ih, ih (insert [] e.1 e.2), get?_insert, get?_insert, get?_nil]
    by_cases h : name = e.1
    · simp only [if_pos h]
      cases get? (ofList other) name <;> rfl
    · simp only [if_neg h]
      cases get? (ofList other) name <;> rfl

theorem get?_ofList {t : Table α} (ht : Ordered t) (name : String) :
    get? (ofList t) name = get? t name := by
  induction t with
  | nil => rfl
  | cons e t ih =>
    obtain ⟨n, a⟩ := e
    have hstep : ofList ((n, a) :: t) = overlay [(n, a)] t := rfl
    rw [hstep, get?_overlay, ih (ordered_cons.mp ht).2, get?_cons, get?_cons, get?_nil]
    by_cases h : n = name
    · subst h
      rw [get?_tail ht]
      rfl
    · rw [if_neg h, if_neg h, Option.or_none]

theorem overlay_nil {t : Table α} (ht : Ordered t) : overlay [] t = t := by
  refine eq_of_get? (ordered_overlay ordered_nil t) ht ?_
  intro name
  show get? (ofList t) name = get? t name
  exact get?_ofList ht name

/-- An overlay keeps what is under a name that it does not set. -/
theorem get?_overlay_of_notMem (t : Table α) {other : List (String × α)} {name : String}
    (h : name ∉ names other) : get? (overlay t other) name = get? t name := by
  induction other generalizing t with
  | nil => rfl
  | cons e other ih =>
    simp only [names, List.map_cons, List.mem_cons, not_or] at h
    show get? (overlay (insert t e.1 e.2) other) name = get? t name
    rw [ih (insert t e.1 e.2) h.2, get?_insert_of_ne t e.2 h.1]

/-- Overlays are associative. -/
theorem overlay_overlay {t u : Table α} (ht : Ordered t) (hu : Ordered u)
    (other : List (String × α)) :
    overlay t (overlay u other) = overlay (overlay t u) other := by
  have huo : Ordered (overlay u other) := ordered_overlay hu other
  refine eq_of_get? (ordered_overlay ht _) (ordered_overlay (ordered_overlay ht u) _) fun name => ?_
  rw [get?_overlay t, get?_ofList huo, get?_overlay u, get?_overlay (overlay t u), get?_overlay t,
    get?_ofList hu, Option.or_assoc]

theorem insert_map (f : String → α → β) (t : Table α) (n : String) (a : α) :
    insert (t.map fun e => (e.1, f e.1 e.2)) n (f n a) =
      (insert t n a).map fun e => (e.1, f e.1 e.2) := by
  induction t with
  | nil => rfl
  | cons e t ih =>
    obtain ⟨m, b⟩ := e
    rw [List.map_cons, insert, insert, ih]
    by_cases heq : m = n
    · simp only [if_pos heq, List.map_cons]
    · by_cases hlt : n < m
      · simp only [if_neg heq, if_pos hlt, List.map_cons]
      · simp only [if_neg heq, if_neg hlt, List.map_cons]

/-- Overlays of tables whose entries are changed in place. -/
theorem overlay_map (f : String → α → β) (t : Table α) (other : List (String × α)) :
    overlay (t.map fun e => (e.1, f e.1 e.2)) (other.map fun e => (e.1, f e.1 e.2)) =
      (overlay t other).map fun e => (e.1, f e.1 e.2) := by
  induction other generalizing t with
  | nil => rfl
  | cons e other ih =>
    have hstep : overlay t (e :: other) = overlay (insert t e.1 e.2) other := rfl
    rw [hstep, ← ih, ← insert_map]
    rfl

end FilterLang.Table
