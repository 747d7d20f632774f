/-!
Texts cut at a separator, joined again, and with parts replaced.
-/

namespace FilterLang.Text

/-- The text before and after the first place at which a separator stands. -/
def cut? (sep : List Char) : List Char → Option (List Char × List Char)
  | [] => none
  | c :: rest =>
    if sep.isPrefixOf (c :: rest) then some ([], (c :: rest).drop sep.length)
    else (cut? sep rest).map fun (before, after) => (c :: before, after)

theorem length_of_cut? {sep s before after : List Char} (hs : sep ≠ [])
    (h : cut? sep s = some (before, after)) : after.length < s.length := by
  induction s generalizing before with
  | nil => simp [cut?] at h
  | cons c rest ih =>
    simp only [cut?] at h
    split at h
    · simp only [Option.some.injEq, Prod.mk.injEq] at h
      obtain ⟨_, rfl⟩ := h
      have : 0 < sep.length := List.length_pos_iff.mpr hs
      simp only [List.length_drop, List.length_cons]
      omega
    · obtain ⟨⟨b, a⟩, hc, he⟩ := Option.map_eq_some_iff.mp h
      simp only [Prod.mk.injEq] at he
      obtain ⟨_, rfl⟩ := he
      have := ih hc
      simp only [List.length_cons]
      omega

/-- The pieces of a text between the places at which a separator stands, from the
left and without overlap. With a limit, no more than so many cuts are made. An
empty separator cuts nothing. -/
def splitOn (sep : List Char) (limit : Option Nat) (s : List Char) : List (List Char) :=
  if _hs : sep = [] then [s]
  else if limit = some 0 then [s]
  else
    match _h : cut? sep s with
    | none => [s]
    | some (before, after) => before :: splitOn sep (limit.map (· - 1)) after
termination_by s.length
decreasing_by exact length_of_cut? _hs _h

def joinWith (sep : List Char) (pieces : List (List Char)) : List Char :=
  List.intercalate sep pieces

/-- The text with `new` before each of its first characters and, if the limit
allows, at its end. -/
def spread (new : List Char) : Option Nat → List Char → List Char
  | some 0, s => s
  | _, [] => new
  | limit, c :: rest => new ++ c :: spread new (limit.map (· - 1)) rest

/-- The text with `new` at the places at which `old` stands, from the left and without overlap.
With a limit, no more than so many places are looked for. -/
def substitute (old new : List Char) (limit : Option Nat) (s : List Char) : List Char :=
  if _ho : old = [] then s
  else if limit = some 0 then s
  else
    match _h : cut? old s with
    | none => s
    | some (before, after) => before ++ new ++ substitute old new (limit.map (· - 1)) after
termination_by s.length
decreasing_by exact length_of_cut? _ho _h

/-- The text with a part replaced wherever it stands, from the left and without
overlap, at most `limit` times. An empty part stands before every character and at
the end. -/
def replace (old new : List Char) (limit : Option Nat) (s : List Char) : List Char :=
  if old = [] then spread new limit s else substitute old new limit s

end FilterLang.Text
