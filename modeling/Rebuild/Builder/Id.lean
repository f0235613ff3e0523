import Rebuild.Json.Printer
import Rebuild.Json.Reader

/-!
# Builder identities

A builder is known by its kind and a key. Identities are ordered by kind, then by key, and are shown
as `kind:key`; two identities may be shown alike.
-/
namespace Rebuild
open Std

/-- The identity of a builder. -/
structure BuilderId where
  kind : String
  key : String
  deriving DecidableEq, Repr

namespace BuilderId

/-- How an identity is shown. -/
def text (id : BuilderId) : String := id.kind ++ ":" ++ id.key

instance : ToString BuilderId := ⟨text⟩

instance : Ord BuilderId := ⟨compareLex (compareOn kind) (compareOn key)⟩

instance : TransOrd BuilderId :=
  inferInstanceAs (TransCmp (compareLex (compareOn kind) (compareOn key)))

instance : LawfulEqOrd BuilderId where
  compare_self {a} := compareLex_eq_eq.2 ⟨ReflOrd.compare_self, ReflOrd.compare_self⟩
  eq_of_compare {a b} h := by
    obtain ⟨h1, h2⟩ := compareLex_eq_eq.1 h
    cases a; cases b
    simp only [mk.injEq]
    exact ⟨LawfulEqOrd.eq_of_compare h1, LawfulEqOrd.eq_of_compare h2⟩

/-- The JSON form. -/
def json (id : BuilderId) : Json := .object [("kind", .string id.kind), ("key", .string id.key)]

/-- Reads the JSON form. -/
def ofTree? (s : Json.Tree) : Option BuilderId := do
  match ← s.fields? ["kind", "key"] with
  | [kind, key] => return ⟨← kind.text?, ← key.text?⟩
  | _ => none

end BuilderId

end Rebuild
