import RustDns.Text.Str
import Mathlib.Data.Char
import Mathlib.Data.Finset.Sort
import Mathlib.Data.List.Lex

/-! The blocked-domain list: parsing, matching and serialization. -/
namespace RustDns

/-- A plain domain blocks the apex and every subdomain. A wildcard blocks
strict subdomains only and is stored without its prefix. -/
structure Blocklist where
  exact : Finset Str
  wildcard : Finset Str
deriving DecidableEq

namespace Blocklist

open Str

def wildcardPrefix : Str := ['*', '.']

/-- Cut a pasted scheme: everything up to the first `://`. -/
def cutScheme (d : Str) : Str :=
  match findStr [':', '/', '/'] d with
  | some idx => d.drop (idx + 3)
  | none => d

/-- Cut the text from the first `c` on; used for a path and for a port. -/
def cutFrom (c : Char) (d : Str) : Str :=
  match find c d with
  | some idx => d.take idx
  | none => d

/-- What is left of a raw entry once scheme, path and port are cut. -/
def hostPart (raw : Str) : Str :=
  cutFrom ':' (cutFrom '/' (cutScheme (toLowercase (trim raw))))

/-- Lowercase, strip scheme, path, port and trailing dots of a pasted URL. -/
def normalize (raw : Str) : Str := trim (trimEndMatches '.' (hostPart raw))

/-- One round of the loop over the lines of a text. -/
def addLine (bl : Blocklist) (rawLine : Str) : Blocklist :=
  let line := trim rawLine
  if line.isEmpty || startsWith ['#'] line then bl
  else match stripPrefix wildcardPrefix line with
    | some rest =>
        let d := normalize rest
        if d.isEmpty then bl else { bl with wildcard := insert d bl.wildcard }
    | none =>
        let d := normalize line
        if d.isEmpty then bl else { bl with exact := insert d bl.exact }

def fromText (text : Str) : Blocklist := (lines text).foldl addLine ⟨∅, ∅⟩

/-- Walk from a name to its ancestors, one dot at a time, until one of them
is in the set. Both loops of `is_blocked` have this shape. -/
def ancestorLoop (set : Finset Str) (suffix : Str) : Bool :=
  if suffix ∈ set then true
  else match h : find '.' suffix with
    | some i => ancestorLoop set (suffix.drop (i + 1))
    | none => false
termination_by suffix.length
decreasing_by
  have hLt := find_lt h
  simp only [List.length_drop]
  omega

/-- The name must already be lowercase and without a trailing dot. -/
def isBlocked (bl : Blocklist) (name : Str) : Bool :=
  if ancestorLoop bl.exact name then true
  else if bl.wildcard = ∅ then false
  else match find '.' name with
    | some i => ancestorLoop bl.wildcard (name.drop (i + 1))
    | none => false

/-- The hash sets are read in some order and the result is sorted, so the
order of reading does not matter. -/
def toSortedVec (bl : Blocklist) : List Str :=
  (bl.exact.sort (· ≤ ·) ++ (bl.wildcard.sort (· ≤ ·)).map (wildcardPrefix ++ ·)).insertionSort
    (· ≤ ·)

def toFileText (bl : Blocklist) : Str := ['\n'].intercalate bl.toSortedVec ++ ['\n']

end Blocklist

end RustDns
