import CircuitWidths.Ty.Basic

/-!
# The type store

The store holds, for each type variable that it made, the type that the variable is linked to, if
any.  Following links gives the representative of a type; following them everywhere gives its
resolved form.  Looking a variable up shortens the path of links that was walked.

Links never lead back to where they started, so a walk visits each variable at most once.  All
walks are limited by a bound that no store without a cycle exceeds.
-/

namespace CircuitWidths

/-- The link of every type variable of this store. -/
structure TypeStore where
  links : Slots (Option Ty)

/-- Ways to misuse a type store. -/
inductive TypeFault
  | foreignVariable (id : TyVar)
  | boundTwice (id : TyVar)
  | cyclicLinks
  deriving DecidableEq, Repr

/-- A step that works on a type store and leaves a store behind also when it fails. -/
abbrev StoreM := EStateM TypeFault TypeStore

namespace TypeStore

/-- The store of `owner` without variables. -/
def empty (owner : Nat) : TypeStore := ⟨.empty owner⟩

/-- The number of variables made so far. -/
def size (store : TypeStore) : Nat := store.links.size

/-- Makes a variable without a link. -/
def fresh (store : TypeStore) : Ty × TypeStore :=
  let (id, links) := store.links.push none
  (.var id, ⟨links⟩)

/-- The depth of the deepest type that a variable is linked to. -/
def linkDepth (store : TypeStore) : Nat :=
  Ty.depthAll (store.links.values.toList.filterMap id)

/-- A bound on the depth of the resolved forms of the given types: along a path each variable is
passed at most once, and between two variables the path stays inside one type as it is written.
One level more holds the leaves. -/
def unfoldLimit (store : TypeStore) (tys : List Ty) : Nat :=
  (store.size + 1) * max store.linkDepth (Ty.depthAll tys) + 1

/-- The link of a variable of this store. -/
def link (id : TyVar) : StoreM (Option Ty) := fun store =>
  match store.links.get? id with
  | some link => .ok link store
  | none => .error (.foreignVariable id) store

/-- Links a variable of this store to `ty`, whatever its link was. -/
def relink (id : TyVar) (ty : Ty) : StoreM Unit := fun store =>
  match store.links.set? id (some ty) with
  | some links => .ok () ⟨links⟩
  | none => .error (.foreignVariable id) store

/-- Links a variable that has no link yet. -/
def assign (id : TyVar) (ty : Ty) : StoreM Unit := do
  match ← link id with
  | none => relink id ty
  | some _ => throw (.boundTwice id)

/-- The representative of a type, found by passing at most `limit` variables.  Every variable on
the path is linked directly to what was found. -/
def representativeWithin : Nat → Ty → StoreM Ty
  | 0, .var _ => throw .cyclicLinks
  | limit + 1, .var id => do
    match ← link id with
    | none => pure (.var id)
    | some next =>
      let found ← representativeWithin limit next
      relink id found
      pure found
  | _, ty => pure ty

/-- The type that links lead to: not a variable, or a variable without a link. -/
def representative (ty : Ty) : StoreM Ty := do
  let store ← get
  representativeWithin (store.size + 1) ty

/-- The resolved form of a type, going at most `limit` levels deep. -/
def resolveWithin : Nat → Ty → StoreM Ty
  | 0, _ => throw .cyclicLinks
  | limit + 1, ty => do
    match ← representative ty with
    | .product members => return .product (← members.mapM (resolveWithin limit))
    | found => pure found

/-- The type with all links followed, also inside products. -/
def resolve (ty : Ty) : StoreM Ty := do
  let store ← get
  resolveWithin (store.unfoldLimit [ty]) ty

/-- Whether a variable stands in the resolved form of a type, going at most `limit` levels deep;
the members of a product are searched in order until it is found. -/
def occursWithin (id : TyVar) : Nat → Ty → StoreM Bool
  | 0, _ => throw .cyclicLinks
  | limit + 1, ty => do
    match ← representative ty with
    | .var other => pure (other == id)
    | .product members => members.anyM (occursWithin id limit)
    | .unit | .bit | .bits _ => pure false

/-- Whether a variable stands in the resolved form of a type. -/
def occurs (id : TyVar) (ty : Ty) : StoreM Bool := do
  let store ← get
  occursWithin id (store.unfoldLimit [ty]) ty

/-- The resolved type with parameters replaced in its widths. -/
def substitute (bindings : Bindings Static.Expr) (ty : Ty) : StoreM Ty := do
  let resolved ← resolve ty
  pure (resolved.substitute bindings)

end TypeStore

end CircuitWidths
