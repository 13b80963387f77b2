import Std.Data.ExtTreeSet
import AccessWidener.Digest.Sha256
import AccessWidener.Pipeline.Discovery

/-!
# Cache Keys

A cache key identifies a set of contributors, each of them a mod with the digest of its directive
file. Order, repetition and the paths that the files came from make no difference. Nothing has no
key.

## Main definitions

* `Contributor`: A mod with the digest of its directive file.
* `contributors`, `keyMaterial`: The contributors of a list of files, and the bytes that stand for
  them.
* `cacheKey`, `cacheIdentity`: The digest of those bytes, and the text that a build cache is given.
-/

namespace AccessWidener

/-- A mod with the digest of its directive file. -/
structure Contributor where
  origin : String
  digest : Bytes
deriving DecidableEq, Repr

/-- Contributors are ordered by mod and then by digest. -/
instance : Ord Contributor where
  compare := compareLex (compareOn (·.origin)) (compareOn (·.digest))

instance : Std.TransOrd Contributor :=
  inferInstanceAs (Std.TransCmp (compareLex (compareOn Contributor.origin) (compareOn (·.digest))))

instance : Std.LawfulEqOrd Contributor where
  eq_of_compare {a b} h := by
    have h : compareLex (compareOn Contributor.origin) (compareOn (·.digest)) a b = .eq := h
    cases a
    cases b
    simp_all [compareLex_eq_eq, compareOn]

/-- The contributor that a directive file stands for, under a digest. -/
def Contributor.ofFile (digest : Bytes → Bytes) (file : DirectiveFile) : Contributor where
  origin := file.origin
  digest := digest file.content

/-- The contributors of a list of files, under a digest. -/
def contributors (digest : Bytes → Bytes) (files : List DirectiveFile) :
    Std.ExtTreeSet Contributor :=
  .ofList (files.map (Contributor.ofFile digest))

/-- The bytes that stand for a contributor: its name, a zero byte and its digest. -/
def Contributor.encode (contributor : Contributor) : Bytes :=
  Utf8.encodeString contributor.origin ++ 0 :: contributor.digest

/-- The bytes that stand for the contributors of a list of files. -/
def keyMaterial (digest : Bytes → Bytes) (files : List DirectiveFile) : Bytes :=
  (contributors digest files).toList.flatMap Contributor.encode

/-- The key of a list of files under a digest, in hexadecimal. -/
def cacheKeyWith (digest : Bytes → Bytes) (files : List DirectiveFile) : Option String :=
  if (contributors digest files).isEmpty then none
  else some (Bytes.toHex (digest (keyMaterial digest files)))

/-- The key of a list of files. -/
def cacheKey (files : List DirectiveFile) : Option String :=
  cacheKeyWith sha256 files

/-- The text that a build cache is given for a key. -/
def cacheIdentity (key : String) : String :=
  "widen:transitive_access_wideners:" ++ key

end AccessWidener
