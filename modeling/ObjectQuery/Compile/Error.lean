import ObjectQuery.Compile.Polarity

/-! Why a predicate, an order or a request cannot be compiled. -/
namespace ObjectQuery

inductive Unsupported where
  | noOperator (kind : LeafKind) (negated : Bool)
  | comparisonWithNull (property : PropertyPath)
  | patternNotText (property : PropertyPath) (got : ValueKind)
  | entityNotText (association : AssociationPath) (got : ValueKind)
  | onCollection (kind : LeafKind) (property : PropertyPath)
  | notCollection (property : PropertyPath)
  | nestedElement (property : PropertyPath)
  | elementsNotCollection (property : PropertyPath) (got : ValueKind)
  | collectionField (field parent : QualifiedName)
  | identityInside (property : PropertyPath)
  | unbindable (kind : ValueKind)
  | orderMultiValued (property : PropertyPath)
  | orderCollection (property : PropertyPath)
  deriving DecidableEq, Repr

inductive Inconsistent where
  | unmapped (name : QualifiedName)
  | tooDeep (path : String) (hops : Nat) (limit : UInt32)
  | unknownType (name : String)
  | noSqlType (kind : ValueKind)
  | noEnumKey (enumType variant : String)
  deriving DecidableEq, Repr

inductive CompileError where
  | unsupported (cause : Unsupported)
  | inconsistent (cause : Inconsistent)
  | unresolved (name : String)
  deriving DecidableEq, Repr

def Unsupported.message : Unsupported → String
  | .noOperator k negated =>
    k.name ++ " has no SQL comparison operator (" ++ (if negated then "negated" else "positive") ++ ")"
  | .comparisonWithNull p => "comparison of `" ++ p.text ++ "` against null (use is-null or is-not-null)"
  | .patternNotText p got => "matches on `" ++ p.text ++ "` needs a text pattern, got " ++ got.name
  | .entityNotText a got => "`" ++ a.text ++ "` contains needs an entity identity, got " ++ got.name
  | .onCollection k p => k.name ++ " on collection property `" ++ p.text ++ "` (use contains or contains-all)"
  | .notCollection p => "`" ++ p.text ++ "` is not a collection property (use a comparison)"
  | .nestedElement p =>
    "contains on `" ++ p.text ++ "` with a nested collection element (use contains-all)"
  | .elementsNotCollection p got =>
    "contains-all on `" ++ p.text ++ "` needs a collection, got " ++ got.name
  | .collectionField field parent =>
    "collection field `" ++ field.text ++ "` inside a value object (" ++ parent.text ++ ")"
  | .identityInside p => "identity can only be read directly from an entity (" ++ p.text ++ ")"
  | .unbindable k => "a " ++ k.name ++ " cannot be bound to a single parameter"
  | .orderMultiValued p =>
    "cannot order by multi-valued path `" ++ p.text ++
      "` (order by a property reached through single-valued hops)"
  | .orderCollection p =>
    "cannot order by collection property `" ++ p.text ++ "` (order by a scalar property)"

def Inconsistent.message : Inconsistent → String
  | .unmapped n =>
    "no attribute table mapped for `" ++ n.text ++ "`\n  Context: while resolving a reference path"
  | .tooDeep path hops limit =>
    "reference path `" ++ path ++ "` has " ++ toString hops ++ " hops, more than the allowed " ++
      toString limit.toNat ++ "\n  Context: possible cyclic path declaration"
  | .unknownType t =>
    "unknown result type `" ++ t ++ "`\n  Context: no concrete type ids registered"
  | .noSqlType k => "no SQL type known for " ++ k.name ++ " value"
  | .noEnumKey t v =>
    "no persisted key for " ++ t ++ "." ++ v ++ "\n  Context: while binding an enum constant"

def CompileError.message : CompileError → String
  | .unsupported c => "Unsupported predicate: " ++ c.message
  | .inconsistent c => "Schema inconsistency: " ++ c.message
  | .unresolved x => "Unresolved variable `" ++ x ++ "` (bind variables before compiling)"

end ObjectQuery
