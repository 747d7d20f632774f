import FilterLang.Calendar.Format
import FilterLang.Proofs.Calendar.Chronology
/-!
The order of calendar texts.

Texts are ordered by their first different character. Parts of one width come one after the other
in this order (`compare_append`), and digits of one width are in the order of the numbers that they
write (`compare_padded`), so a text whose parts go from the largest unit to the smallest is in the
order of time. For dates this is their order (`Date.compare_ordinal`). Times and moments
are written to the second: their order is that of their texts, and then that of the microseconds
that the texts leave out (`Clock.compare_micros`, `DateTime.compare_micros`).
-/

namespace FilterLang

namespace Text

/-! ## The order of texts -/

theorem compare_eq_lt_iff {l l' : List Char} : compare l l' = .lt ↔ l < l' := by
  induction l generalizing l' with
  | nil => cases l' <;> simp
  | cons c l ih =>
    cases l' with
    | nil => simp
    | cons c' l' =>
      rw [List.compare_cons_cons, List.cons_lt_cons_iff, Ordering.then_eq_lt, ih,
        compare_lt_iff_lt, compare_eq_iff_eq]

/-- Texts are compared character by character. -/
theorem compare_toList (s t : String) : compare s t = compare s.toList t.toList := by
  rcases lt_trichotomy s t with h | h | h
  · rw [compare_lt_iff_lt.mpr h, compare_eq_lt_iff.mpr (String.lt_iff_toList_lt.mp h)]
  · rw [h, Std.compare_self, Std.compare_self]
  · rw [compare_gt_iff_gt.mpr h, Std.OrientedOrd.eq_swap,
      compare_eq_lt_iff.mpr (String.lt_iff_toList_lt.mp h)]
    rfl

/-- What follows two texts of one length counts when these are equal. -/
theorem compare_append {l l' : List Char} (hlength : l.length = l'.length) (r r' : List Char) :
    compare (l ++ r) (l' ++ r') = (compare l l').then (compare r r') := by
  induction l generalizing l' with
  | nil =>
    obtain rfl : l' = [] := List.length_eq_zero_iff.mp hlength.symm
    simp
  | cons c l ih =>
    cases l' with
    | nil => simp at hlength
    | cons c' l' =>
      rw [List.cons_append, List.cons_append, List.compare_cons_cons, List.compare_cons_cons,
        ih (by simpa using hlength), Ordering.then_assoc]

end Text

/-! ## Numbers and digits -/

/-- What is measured by a larger and a smaller unit is compared by the larger one first. -/
theorem compare_of_units {α β γ : Type} [LinearOrder α] [LinearOrder β] [LinearOrder γ]
    {p q : α} {x y : β} {m n : γ} (hlt : p < q → m < n) (hgt : q < p → n < m)
    (heq : p = q → compare m n = compare x y) :
    compare m n = (compare p q).then (compare x y) := by
  rcases lt_trichotomy p q with h | h | h
  · rw [compare_lt_iff_lt.mpr h, compare_lt_iff_lt.mpr (hlt h)]
    rfl
  · rw [compare_eq_iff_eq.mpr h, heq h]
    rfl
  · rw [compare_gt_iff_gt.mpr h, compare_gt_iff_gt.mpr (hgt h)]
    rfl

theorem compare_add_left (k x y : Nat) : compare (k + x) (k + y) = compare x y := by
  simp [compare, compareOfLessAndEq]

/-- Two numbers are compared by their quotients, and then by their remainders. -/
theorem compare_mul_add {k x y : Nat} (hx : x < k) (hy : y < k) (p q : Nat) :
    compare (k * p + x) (k * q + y) = (compare p q).then (compare x y) := by
  apply compare_of_units
  · intro h
    nlinarith
  · intro h
    nlinarith
  · intro h
    rw [h, compare_add_left]

theorem digit_lt_ten {c : Char} (hc : c.isDigit = true) : c.toNat - '0'.toNat < 10 := by
  have hhigh : c.toNat ≤ 57 := (Char.isDigit_iff_toNat.mp hc).2
  show c.toNat - 48 < 10
  omega

/-- Digits are in the order of their values. -/
theorem compare_digit {c c' : Char} (hc : c.isDigit = true) (hc' : c'.isDigit = true) :
    compare c c' = compare (c.toNat - '0'.toNat) (c'.toNat - '0'.toNat) := by
  have hcode : compare c c' = compare c.toNat c'.toNat := by
    simp only [compare, compareOfLessAndEq, ← Char.toNat_inj]
    rfl
  have hzero : '0'.toNat ≤ c.toNat := (Char.isDigit_iff_toNat.mp hc).1
  have hzero' : '0'.toNat ≤ c'.toNat := (Char.isDigit_iff_toNat.mp hc').1
  rw [hcode, ← compare_add_left '0'.toNat (c.toNat - '0'.toNat), Nat.add_sub_of_le hzero,
    Nat.add_sub_of_le hzero']

/-- Digits are in the order of the number that they write, after what stands before them. -/
theorem compare_ofDigitChars {l l' : List Char} (hlength : l.length = l'.length)
    (hl : ∀ c ∈ l, c.isDigit = true) (hl' : ∀ c ∈ l', c.isDigit = true) (m m' : Nat) :
    compare (Nat.ofDigitChars 10 l m) (Nat.ofDigitChars 10 l' m') =
      (compare m m').then (compare l l') := by
  induction l generalizing l' m m' with
  | nil =>
    obtain rfl : l' = [] := List.length_eq_zero_iff.mp hlength.symm
    simp
  | cons c l ih =>
    cases l' with
    | nil => simp at hlength
    | cons c' l' =>
      obtain ⟨hc, hl⟩ := List.forall_mem_cons.mp hl
      obtain ⟨hc', hl'⟩ := List.forall_mem_cons.mp hl'
      rw [Nat.ofDigitChars_cons, Nat.ofDigitChars_cons, ih (by simpa using hlength) hl hl',
        compare_mul_add (digit_lt_ten hc) (digit_lt_ten hc'), ← compare_digit hc hc',
        List.compare_cons_cons, Ordering.then_assoc]

namespace Date

theorem isDigit_of_mem_padded {width n : Nat} {c : Char} (h : c ∈ (padded width n).toList) :
    c.isDigit = true := by
  rw [toList_padded] at h
  rcases List.mem_append.mp h with h | h
  · rw [List.eq_of_mem_replicate h]
    decide
  · exact Nat.isDigit_of_mem_toDigits (by decide) (by decide) h

/-- Numbers written in the same width are in the order of their digits. -/
theorem compare_padded {width n n' : Nat} (hwidth : 0 < width) (hn : n < 10 ^ width)
    (hn' : n' < 10 ^ width) (r r' : List Char) :
    compare ((padded width n).toList ++ r) ((padded width n').toList ++ r') =
      (compare n n').then (compare r r') := by
  have hlength := (length_padded hwidth hn).trans (length_padded hwidth hn').symm
  have hvalue := compare_ofDigitChars hlength (fun _ => isDigit_of_mem_padded)
    (fun _ => isDigit_of_mem_padded) 0 0
  rw [ofDigitChars_padded, ofDigitChars_padded] at hvalue
  rw [Text.compare_append hlength, hvalue]
  rfl

/-- A character that stands in both texts decides nothing. -/
theorem compare_separated (c : Char) (r r' : List Char) :
    compare (c :: r) (c :: r') = compare r r' := by
  rw [List.compare_cons_cons, Std.compare_self]
  rfl

theorem toList_iso (d : Date) :
    d.iso.toList = (padded 4 d.year).toList ++ '-' :: ((padded 2 d.month).toList ++
      '-' :: (padded 2 d.day).toList) := by
  have hhyphen : ("-" : String).toList = ['-'] := rfl
  simp only [iso, String.toList_append, List.append_assoc, hhyphen, List.cons_append,
    List.nil_append]

/-- The texts of dates are in the order of the dates. -/
theorem compare_iso (a b : Date) (r r' : List Char) :
    compare (a.iso.toList ++ r) (b.iso.toList ++ r') = (order a b).then (compare r r') := by
  simp only [toList_iso, List.append_assoc, List.cons_append]
  rw [order, compare_padded (by decide) a.year_lt b.year_lt, compare_separated,
    compare_padded (by decide) a.month_lt b.month_lt, compare_separated,
    compare_padded (by decide) a.day_lt b.day_lt, Ordering.then_assoc, Ordering.then_assoc]

/-- Dates are in the order of their texts. -/
theorem compare_ordinal (a b : Date) : compare a.ordinal b.ordinal = compare a.iso b.iso := by
  have htext := compare_iso a b [] []
  rw [List.append_nil, List.append_nil, ← Text.compare_toList] at htext
  rw [← order_eq_compare, htext]
  simp

end Date

/-! ## Times and moments -/

def Clock.seconds (c : Clock) : Nat :=
  (c.hour * 60 + c.minute) * 60 + c.second

theorem Clock.micros_eq (c : Clock) : c.micros = 1000000 * c.seconds + c.micro := by
  rw [Clock.micros, Clock.seconds, Nat.mul_comm]

theorem Clock.toList_hms (c : Clock) :
    c.hms.toList = (Date.padded 2 c.hour).toList ++ ':' :: ((Date.padded 2 c.minute).toList ++
      ':' :: (Date.padded 2 c.second).toList) := by
  have hcolon : (":" : String).toList = [':'] := rfl
  simp only [Clock.hms, String.toList_append, List.append_assoc, hcolon, List.cons_append,
    List.nil_append]

/-- The texts of times are in the order of the seconds. -/
theorem Clock.compare_hms (a b : Clock) (r r' : List Char) :
    compare (a.hms.toList ++ r) (b.hms.toList ++ r') =
      (compare a.seconds b.seconds).then (compare r r') := by
  have hseconds (c : Clock) : c.seconds = 60 * (60 * c.hour + c.minute) + c.second := by
    rw [Clock.seconds]
    ring
  rw [hseconds, hseconds, compare_mul_add a.second_range b.second_range,
    compare_mul_add a.minute_range b.minute_range]
  simp only [Clock.toList_hms, List.append_assoc, List.cons_append]
  rw [Date.compare_padded (by decide) a.hour_lt b.hour_lt, Date.compare_separated,
    Date.compare_padded (by decide) a.minute_lt b.minute_lt, Date.compare_separated,
    Date.compare_padded (by decide) a.second_lt b.second_lt, Ordering.then_assoc,
    Ordering.then_assoc]

/-- Times are in the order of their texts, and then of the microseconds that these leave out. -/
theorem Clock.compare_micros (a b : Clock) :
    compare a.micros b.micros = (compare a.hms b.hms).then (compare a.micro b.micro) := by
  have htext := Clock.compare_hms a b [] []
  rw [List.append_nil, List.append_nil, ← Text.compare_toList] at htext
  rw [Clock.micros_eq, Clock.micros_eq, compare_mul_add a.micro_range b.micro_range, htext]
  simp

theorem DateTime.toList_text (t : DateTime) :
    t.text.toList = t.date.iso.toList ++ ' ' :: t.clock.hms.toList := by
  simp only [text, String.toList_append, List.append_assoc]
  rfl

/-- Moments are in the order of their texts, and then of the microseconds that these leave out. -/
theorem DateTime.compare_micros (a b : DateTime) :
    compare a.micros b.micros =
      (compare a.text b.text).then (compare a.clock.micro b.clock.micro) := by
  have hday (t : DateTime) : t.micros = microsPerDay * t.date.ordinal + t.clock.micros := by
    rw [DateTime.micros, Int.mul_comm]
  have hunits : compare a.micros b.micros =
      (compare a.date.ordinal b.date.ordinal).then (compare a.clock.micros b.clock.micros) := by
    have ha := a.clock.micros_lt
    have hb := b.clock.micros_lt
    simp only [hday, microsPerDay] at ha hb ⊢
    apply compare_of_units
    · omega
    · omega
    · intro h
      rw [h]
      simp [compare, compareOfLessAndEq]
  have htext : compare a.text b.text =
      (a.date.order b.date).then (compare a.clock.hms b.clock.hms) := by
    rw [Text.compare_toList, toList_text, toList_text, Date.compare_iso, Date.compare_separated,
      ← Text.compare_toList]
  rw [hunits, ← Date.order_eq_compare, Clock.compare_micros, htext, Ordering.then_assoc]

/-! ## Formats -/

namespace DateTime

section Fill

variable {t : DateTime} {rest filled : List Char}

/-- A letter that names a part is filled in with it. -/
theorem fill_field {code : Char} {field : String} (hfield : t.field? code = some field)
    (hrest : t.fill rest = .ok filled) :
    t.fill ('%' :: code :: rest) = .ok (field.toList ++ filled) := by
  have hne : code ≠ '%' := by
    intro h
    subst h
    cases hfield
  have halpha : code.isAlpha = true := by
    unfold DateTime.field? at hfield
    split at hfield <;> first | rfl | cases hfield
  rw [fill.eq_2 t code rest hne, if_pos halpha, hfield, hrest]
  rfl

/-- Any other character but a percent sign stays. -/
theorem fill_char {c : Char} (hc : c ≠ '%') (hrest : t.fill rest = .ok filled) :
    t.fill (c :: rest) = .ok (c :: filled) := by
  rw [fill.eq_3 t c rest (fun _ h => absurd h hc) (fun _ _ h => absurd h hc), hrest]
  rfl

/-- A format that starts like the text of a date is filled in with that text. -/
theorem fill_date (hrest : t.fill rest = .ok filled) :
    t.fill ('%' :: 'Y' :: '-' :: '%' :: 'm' :: '-' :: '%' :: 'd' :: rest) =
      .ok (t.date.iso.toList ++ filled) := by
  rw [fill_field rfl (fill_char (by decide) (fill_field rfl (fill_char (by decide)
    (fill_field rfl hrest)))), Date.toList_iso]
  simp only [List.append_assoc, List.cons_append]

theorem fill_clock (hrest : t.fill rest = .ok filled) :
    t.fill ('%' :: 'H' :: ':' :: '%' :: 'M' :: ':' :: '%' :: 'S' :: rest) =
      .ok (t.clock.hms.toList ++ filled) := by
  rw [fill_field rfl (fill_char (by decide) (fill_field rfl (fill_char (by decide)
    (fill_field rfl hrest)))), Clock.toList_hms]
  simp only [List.append_assoc, List.cons_append]

theorem fill_nil : t.fill [] = .ok [] := by
  rw [fill]

end Fill

theorem format_of_fill {t : DateTime} {layout s : String}
    (h : t.fill layout.toList = .ok s.toList) : t.format layout = .ok s := by
  rw [DateTime.format, h]
  exact congrArg Except.ok String.ofList_toList

/-- The text of a moment is what its format gives. -/
theorem format_text (t : DateTime) : t.format "%Y-%m-%d %H:%M:%S" = .ok t.text := by
  apply format_of_fill
  rw [toList_text, ← List.append_nil t.clock.hms.toList]
  exact fill_date (fill_char (by decide) (fill_clock fill_nil))

end DateTime

theorem Date.format_iso (d : Date) : d.format "%Y-%m-%d" = .ok d.iso := by
  apply DateTime.format_of_fill
  rw [← List.append_nil d.iso.toList]
  exact DateTime.fill_date DateTime.fill_nil

theorem Clock.format_hms (c : Clock) : c.format "%H:%M:%S" = .ok c.hms := by
  apply DateTime.format_of_fill
  rw [← List.append_nil c.hms.toList]
  exact DateTime.fill_clock DateTime.fill_nil

end FilterLang
