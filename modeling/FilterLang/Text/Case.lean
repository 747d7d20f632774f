import FilterLang.Text.CaseTable
import FilterLang.Text.Invisible
/-!
Upper and lower case of whole texts.

Each character is replaced by its full case mapping, which may be several
characters. One mapping depends on its surroundings: a capital sigma at the end
of a word becomes the final form of the small letter.
-/

namespace FilterLang.Text

/-- The change that the first fitting row makes to a character. -/
def shift? (rows : Array (Nat × Nat × Nat × Int)) (n : Nat) : Option Int :=
  (rows.find? fun (first, last, step, _) =>
    first ≤ n && n ≤ last && (n - first) % step == 0).map (·.2.2.2)

def mapChar (rows : Array (Nat × Nat × Nat × Int)) (special : Array (Nat × List Nat))
    (c : Char) : List Char :=
  let n := c.toNat
  match shift? rows n with
  | some d => [Char.ofNat ((n : Int) + d).toNat]
  | none =>
    match special.find? (·.1 == n) with
    | some (_, ns) => ns.map Char.ofNat
    | none => [c]

def toUpper (s : List Char) : List Char :=
  s.flatMap fun c =>
    if c.toNat < 128 then [c.toUpper] else mapChar upperRows upperSpecial c

/-- Whether the first character that counts for the end of a word carries case. -/
def meetsCased (s : List Char) : Bool :=
  match s.dropWhile (fun c => inRanges caseIgnorableRanges c.toNat) with
  | [] => false
  | c :: _ => inRanges casedRanges c.toNat

/-- The lower-case form of the rest of a text, `before` being what stands before
it in reverse. -/
def lowerAfter (before : List Char) : List Char → List Char
  | [] => []
  | c :: rest =>
    let here :=
      if c.toNat < 128 then [c.toLower]
      else if c = 'Σ' then
        if meetsCased before && !meetsCased rest then ['ς'] else ['σ']
      else mapChar lowerRows lowerSpecial c
    here ++ lowerAfter (c :: before) rest

def toLower (s : List Char) : List Char :=
  lowerAfter [] s

end FilterLang.Text
