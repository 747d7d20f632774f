/-!
Blank characters, and the trimming and word splitting that depend on them.

A character is blank when it has the Unicode property `White_Space`. Texts are
lists of characters here, so that a piece of a text is again a text.
-/

namespace FilterLang.Text

/-- The characters with the Unicode property `White_Space`. -/
def isBlank (c : Char) : Bool :=
  let n := c.toNat
  (9 ≤ n && n ≤ 13) || n == 0x20 || n == 0x85 || n == 0xA0 || n == 0x1680 ||
    (0x2000 ≤ n && n ≤ 0x200A) || n == 0x2028 || n == 0x2029 || n == 0x202F || n == 0x205F ||
    n == 0x3000

/-- The text without the characters of `drop` at its start. -/
def trimStart (drop : Char → Bool) (s : List Char) : List Char :=
  s.dropWhile drop

/-- The text without the characters of `drop` at its end. -/
def trimEnd (drop : Char → Bool) (s : List Char) : List Char :=
  (s.reverse.dropWhile drop).reverse

/-- The text without the characters of `drop` at either end. -/
def trim (drop : Char → Bool) (s : List Char) : List Char :=
  trimEnd drop (trimStart drop s)

theorem length_dropWhile_le (p : Char → Bool) (s : List Char) :
    (s.dropWhile p).length ≤ s.length := by
  induction s with
  | nil => simp
  | cons c s ih =>
    rw [List.dropWhile_cons]
    split
    · simp only [List.length_cons]; omega
    · exact Nat.le_refl _

/-- The words of a text: the maximal runs of characters that are not blank.
With a limit, the text that follows the first `limit` words is left whole as
one last piece. -/
def words (limit : Option Nat) (s : List Char) : List (List Char) :=
  match _h : s.dropWhile isBlank with
  | [] => []
  | c :: rest =>
    match limit with
    | some 0 => [c :: rest]
    | _ =>
      let tail := rest.dropWhile (fun d => !isBlank d)
      (c :: rest.takeWhile (fun d => !isBlank d)) :: words (limit.map (· - 1)) tail
termination_by s.length
decreasing_by
  have h1 := length_dropWhile_le isBlank s
  have h2 := length_dropWhile_le (fun d => !isBlank d) rest
  rw [_h] at h1
  simp only [List.length_cons] at h1
  omega

/-- Whether nothing but blanks stands in the text. -/
def allBlank (s : String) : Bool :=
  s.toList.all isBlank

end FilterLang.Text
