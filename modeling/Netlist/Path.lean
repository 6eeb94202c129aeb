/-!
# Slash paths

Paths are texts with `/` between components.  Everything here is lexical: `clean`
drops empty and `.` components and lets `..` cancel the component before it,
without looking at any file.  A path made absolute is absolute, whatever it was.
-/

namespace Netlist.Path

/-- Whether a path starts at the root. -/
def isAbsolute (p : String) : Bool := p.toList.head? == some '/'

/-- The pieces between the slashes, empty ones included. -/
def pieces (p : String) : List String := (p.toList.splitOn '/').map String.ofList

/-- Adds a component to cleaned components, last one first. -/
def pushComponent (rooted : Bool) (done : List String) (c : String) : List String :=
  if c == "" || c == "." then done
  else if c == ".." then
    match done with
    | [] => if rooted then [] else [".."]
    | d :: rest => if d == ".." then ".." :: done else rest
  else c :: done

/-- The components of a path after cleaning. -/
def components (p : String) : List String :=
  ((pieces p).foldl (pushComponent (isAbsolute p)) []).reverse

def ofComponents (rooted : Bool) (cs : List String) : String :=
  if rooted then "/" ++ "/".intercalate cs
  else if cs.isEmpty then "." else "/".intercalate cs

/-- The shortest path that means the same lexically. -/
def clean (p : String) : String := ofComponents (isAbsolute p) (components p)

/-- Two paths joined and cleaned; an empty one is left out. -/
def join (a b : String) : String :=
  if a.isEmpty && b.isEmpty then ""
  else if a.isEmpty then clean b
  else if b.isEmpty then clean a
  else clean (a ++ "/" ++ b)

/-- The directory part of a path: everything before the last slash, cleaned. -/
def dir (p : String) : String :=
  let front := (p.toList.reverse.dropWhile (· != '/')).reverse
  clean (String.ofList front)

/-- The last component of a path. -/
def base (p : String) : String :=
  if p.isEmpty then "."
  else
    let stripped := p.toList.reverse.dropWhile (· == '/')
    if stripped.isEmpty then "/" else String.ofList (stripped.takeWhile (· != '/')).reverse

/-- A path made absolute against a working directory. -/
def absolute (workDir p : String) : String :=
  if isAbsolute p then clean p else join workDir p

/-- Drops the components that two lists share at the front. -/
def dropShared : List String → List String → List String × List String
  | a :: as, b :: bs => if a == b then dropShared as bs else (a :: as, b :: bs)
  | as, bs => (as, bs)

/-- The path from a base to a target, if both are rooted or neither is, and the
base does not climb above where they meet. -/
def relative? (base target : String) : Option String :=
  let b := clean base
  let t := clean target
  if b == t then some "."
  else if isAbsolute b != isAbsolute t then none
  else
    let (up, down) := dropShared (components base) (components target)
    if up.head? == some ".." then none
    else some ("/".intercalate (up.map (fun _ => "..") ++ down))

/-- A path relative to a base directory, or the path itself when there is no
relative form.  An empty base means the working directory. -/
def relativeTo (workDir p base : String) : String :=
  let b := if base.isEmpty then workDir else base
  (relative? b (absolute workDir p)).getD p

/-! ## Absolute paths -/

theorem isAbsolute_ofComponents (cs : List String) : isAbsolute (ofComponents true cs) = true := by
  simp [ofComponents, isAbsolute]

theorem isAbsolute_clean {p : String} (h : isAbsolute p = true) : isAbsolute (clean p) = true := by
  rw [clean, h, isAbsolute_ofComponents]

theorem isEmpty_of_isAbsolute {p : String} (h : isAbsolute p = true) : p.isEmpty = false := by
  rw [Bool.eq_false_iff]
  intro he
  rw [String.isEmpty_iff.mp he] at h
  cases h

theorem isAbsolute_append {a : String} (b : String) (h : isAbsolute a = true) :
    isAbsolute (a ++ b) = true := by
  simp only [isAbsolute, String.toList_append, List.head?_append, beq_iff_eq] at h ⊢
  rw [h, Option.some_or]

/-- A path joined to an absolute one is a cleaned absolute path. -/
theorem exists_join_eq_clean {a : String} (b : String) (h : isAbsolute a = true) :
    ∃ q, isAbsolute q = true ∧ join a b = clean q := by
  rw [join, isEmpty_of_isAbsolute h]
  cases b.isEmpty with
  | true => exact ⟨a, h, rfl⟩
  | false => exact ⟨a ++ "/" ++ b, isAbsolute_append b (isAbsolute_append "/" h), rfl⟩

/-- A path made absolute is a cleaned absolute path. -/
theorem exists_absolute_eq_clean {workDir : String} (p : String) (h : isAbsolute workDir = true) :
    ∃ q, isAbsolute q = true ∧ absolute workDir p = clean q := by
  rw [absolute]
  split
  · next hp => exact ⟨p, hp, rfl⟩
  · exact exists_join_eq_clean p h

theorem isAbsolute_absolute {workDir : String} (p : String) (h : isAbsolute workDir = true) :
    isAbsolute (absolute workDir p) = true := by
  obtain ⟨q, hq, heq⟩ := exists_absolute_eq_clean p h
  rw [heq, isAbsolute_clean hq]

end Netlist.Path
