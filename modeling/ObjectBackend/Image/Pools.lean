import ObjectBackend.Image.CallSites
import ObjectBackend.Image.Literals

/-!
# Pools

What the parts of a module share: the string literals and the call sites, both numbered across the
whole module. Making a part may add to them.
-/

namespace ObjectBackend

open Target (Symbol)

/-- The literals and call sites of a module. -/
structure Pools where
  literals : Literals
  sites : CallSites
deriving DecidableEq

namespace Pools

/-- No literals and no call sites. -/
def empty : Pools := { literals := .empty, sites := .empty }

/-- The symbol of a literal. -/
def intern (p : Pools) (text : String) : Symbol × Pools :=
  let (id, literals) := p.literals.intern text
  (.literal id, { p with literals })

/-- The number of a new call site. -/
def register (p : Pools) (site : CallSite) : Nat × Pools :=
  let (id, sites) := p.sites.register site
  (id, { p with sites })

end Pools

/-- Making a part of a module, which may fail. -/
abbrev Pooled (α : Type) := StateT Pools (Except BackendError) α

end ObjectBackend
