import GlyphLayout.Map.Ordered

/-!
# Identifiers

Names of a project may hold any character; labels and class names of a feature file may not.
A pool gives each name an identifier of its own: characters that may not stand in one become
underscores, and underscores are added to the end as long as another name has the result.
-/

namespace GlyphLayout

/-- What an identifier names. -/
inductive IdentifierKind where
  /-- A lookup. -/
  | label
  /-- A class of glyphs or marks. -/
  | className
deriving Repr, DecidableEq

namespace IdentifierKind

/-- The character may stand in an identifier. -/
def allows (kind : IdentifierKind) (c : Char) : Bool :=
  c.isAlphanum || c == '_' || c == '.' || (kind == label && c == '-')

/-- The character may stand at the start of an identifier. -/
def allowsStart (c : Char) : Bool :=
  c.isAlpha || c == '_'

/-- A name, with each character that may not stand in an identifier replaced. -/
def spell (kind : IdentifierKind) (name : List Char) : List Char :=
  let body := name.map fun c => if kind.allows c then c else '_'
  match name with
  | c :: _ => if allowsStart c then body else '_' :: body
  | [] => ['_']

end IdentifierKind

/--
The candidate with as many underscores behind it as it takes to leave those that are taken.
A candidate that has been tried never comes up again, since candidates only grow.
-/
def firstFree (taken : List String) (candidate : String) : String :=
  if candidate ∈ taken then firstFree (taken.erase candidate) (candidate ++ "_") else candidate
termination_by taken.length
decreasing_by
  rename_i member
  have positive := List.length_pos_of_mem member
  rw [List.length_erase_of_mem member]
  omega

/-- The identifiers that have been given to names so far. -/
structure IdentifierPool where
  /-- What the identifiers name. -/
  kind : IdentifierKind
  /-- Each name with its identifier. -/
  assigned : OrderedMap String String := ∅

namespace IdentifierPool

/-- The identifier of a name, chosen when the name first comes up. -/
def identify (pool : IdentifierPool) (name : String) : String × IdentifierPool :=
  match pool.assigned.get? name with
  | some identifier => (identifier, pool)
  | none =>
      let candidate := String.ofList (pool.kind.spell name.toList)
      let identifier := firstFree pool.assigned.values candidate
      (identifier, { pool with assigned := pool.assigned.insert name identifier })

/-- The identifiers of some names, one after the other. -/
def identifyAll (pool : IdentifierPool) : List String → List String × IdentifierPool
  | [] => ([], pool)
  | name :: names =>
      let (identifier, next) := pool.identify name
      let (identifiers, last) := next.identifyAll names
      (identifier :: identifiers, last)

end IdentifierPool
end GlyphLayout
