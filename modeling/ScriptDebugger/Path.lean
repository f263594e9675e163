/-!
# Paths

A path names a file, absolutely or relative to the workspace. Programs are known by paths relative
to the workspace, with forward slashes (`normalize`); the front end shows absolute paths
(`qualify`).

## Main results

* `normalize_slash_append` — a path below the workspace is cut down to what stands behind it.
* `qualify_of_absolute` — an absolute path is left alone.
-/

namespace ScriptDebugger.Path

/-- Characters with forward slashes in the place of backslashes. -/
def forward (cs : List Char) : List Char := cs.map fun c => if c = '\\' then '/' else c

/-- Characters without the slashes at their end. -/
def dropSlashes (cs : List Char) : List Char := (cs.reverse.dropWhile (· == '/')).reverse

/-- What stands behind `front`, if the characters begin with it. -/
def behind? (front cs : List Char) : Option (List Char) :=
  if front.isPrefixOf cs then some (cs.drop front.length) else none

theorem behind?_append (front cs : List Char) : behind? front (front ++ cs) = some cs := by
  simp [behind?, List.isPrefixOf_iff_prefix]

/-- The directory that a workspace means, with forward slashes and none at its end. -/
def root (workspace : String) : List Char := dropSlashes (forward workspace.toList)

/-- A path as seen from the workspace, with forward slashes; a path that does not lie below the
workspace stays as it is otherwise. -/
def normalize (workspace path : String) : String :=
  let cs := forward path.toList
  if root workspace = [] then String.ofList cs
  else String.ofList ((behind? (root workspace ++ ['/']) cs).getD cs)

theorem normalize_slash_append {workspace path : String} {rest : List Char}
    (hroot : root workspace ≠ [])
    (hpath : forward path.toList = root workspace ++ '/' :: rest) :
    normalize workspace path = String.ofList rest := by
  have hb : behind? (root workspace ++ ['/']) (root workspace ++ '/' :: rest) = some rest := by
    simpa using behind?_append (root workspace ++ ['/']) rest
  simp [normalize, hroot, hpath, hb]

/-- Whether a path does not depend on the workspace. -/
def isAbsolute (path : String) : Bool := ['/'].isPrefixOf path.toList

/-- A relative path below a directory. -/
def join (directory path : List Char) : List Char :=
  if directory = [] then path
  else if directory.getLast? = some '/' then directory ++ path
  else directory ++ '/' :: path

/-- The absolute form of a path in the workspace. -/
def qualify (workspace path : String) : String :=
  if isAbsolute path then path else String.ofList (join workspace.toList path.toList)

theorem qualify_of_absolute {workspace path : String} (h : isAbsolute path = true) :
    qualify workspace path = path := by
  simp [qualify, h]

/-! ## Components -/

/-- The characters between slashes. -/
def splitSlashes : List Char → List (List Char)
  | [] => [[]]
  | c :: cs =>
    if c = '/' then [] :: splitSlashes cs
    else
      match splitSlashes cs with
      | [] => [[c]]
      | first :: rest => (c :: first) :: rest

/-- Components with slashes between them. -/
def joinSlashes : List (List Char) → List Char
  | [] => []
  | [cs] => cs
  | cs :: rest => cs ++ '/' :: joinSlashes rest

theorem splitSlashes_ne_nil (cs : List Char) : splitSlashes cs ≠ [] := by
  cases cs with
  | nil => simp [splitSlashes]
  | cons c cs =>
    simp only [splitSlashes]
    split
    · simp
    · split <;> simp

theorem joinSlashes_splitSlashes (cs : List Char) : joinSlashes (splitSlashes cs) = cs := by
  induction cs with
  | nil => rfl
  | cons c cs ih =>
    have hne := splitSlashes_ne_nil cs
    simp only [splitSlashes]
    cases hs : splitSlashes cs with
    | nil => exact absurd hs hne
    | cons first rest =>
      rw [hs] at ih
      split
      · rename_i hc
        simp [joinSlashes, hc, ih]
      · cases rest <;> simpa [joinSlashes] using ih

/-- A path as the slash or dot that it begins with, and the components behind that. A dot counts
as the beginning only where it is the first component. -/
def parts (cs : List Char) : List Char × List (List Char) :=
  match cs with
  | '/' :: rest => (['/'], splitSlashes rest)
  | ['.'] => (['.'], splitSlashes [])
  | '.' :: '/' :: rest => (['.'], splitSlashes ('/' :: rest))
  | cs => ([], splitSlashes cs)

/-- Whether a component leads nowhere. -/
def isIdle (component : List Char) : Bool := component == [] || component == ['.']

/-- Components without those at the end that lead nowhere. -/
def dropIdle (components : List (List Char)) : List (List Char) :=
  (components.reverse.dropWhile isIdle).reverse

/-- The directory that a path lies in; the root and the empty path lie in none. -/
def parent? (path : String) : Option String :=
  let (front, components) := parts path.toList
  match dropIdle components with
  | [] => if front = ['.'] then some "" else none
  | components => some (String.ofList (front ++ joinSlashes (dropIdle components.dropLast)))

/-- The last component of a path, where it is a name. -/
def fileName? (path : String) : Option String :=
  match (dropIdle (parts path.toList).2).getLast? with
  | none => none
  | some component => if component = ['.', '.'] then none else some (String.ofList component)

end ScriptDebugger.Path
