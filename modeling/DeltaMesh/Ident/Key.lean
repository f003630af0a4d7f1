import DeltaMesh.Ident.Id

/-!
# Keys

A stored value is addressed by a location, a domain and a content id. Keys are ordered by
location first, so that the keys of one location are neighbours (`firstUnder`, `lastUnder`).

The program's `StorageKey` with `first_under`, `last_under` and its text.
-/

namespace DeltaMesh

/-- The address of a stored value. -/
structure Key where
  location : Id
  domain : Id
  content : Id
  deriving DecidableEq, Inhabited

namespace Key

/-- Location first, then domain, then content. -/
def order : Key → Key → Ordering :=
  compareLex (compareOn location) (compareLex (compareOn domain) (compareOn content))

instance : Ord Key := ⟨order⟩

instance : Std.TransOrd Key :=
  inferInstanceAs (Std.TransCmp
    (compareLex (compareOn location) (compareLex (compareOn domain) (compareOn content))))

instance : Std.LawfulEqOrd Key where
  eq_of_compare {a b} h := by
    have h : order a b = .eq := h
    simp only [order, compareLex, compareOn, Ordering.then_eq_eq, Std.LawfulEqOrd.compare_eq_iff_eq]
      at h
    cases a; cases b
    simp_all

instance : LT Key := ltOfOrd

instance : LE Key := leOfOrd

/-- The smallest key under a location. -/
def firstUnder (location : Id) : Key := ⟨location, .zero, .zero⟩

/-- The largest key under a location. -/
def lastUnder (location : Id) : Key := ⟨location, .max, .max⟩

/-- The sixty bytes of a key: location, domain, content. -/
def toBytes (k : Key) : List UInt8 :=
  k.location.toBytes ++ k.domain.toBytes ++ k.content.toBytes

/-- The text that messages show for a key: eight digits of each part. -/
def toText (k : Key) : String :=
  k.location.shortHex 8 ++ "/" ++ k.domain.shortHex 8 ++ "/" ++ k.content.shortHex 8

/-- How diagnostics show a key. -/
def describe (k : Key) : String :=
  "StorageKey \x7b location: " ++ k.location.describe ++ ", domain: " ++ k.domain.describe ++
    ", content: " ++ k.content.describe ++ " \x7d"

end Key

end DeltaMesh
